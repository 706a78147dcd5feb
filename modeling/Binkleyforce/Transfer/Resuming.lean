import Binkleyforce.Library.Traces
import Binkleyforce.Transfer.Sharing
import Binkleyforce.Util.AddressText

/-!
# A file is resumed with its own beginning

A file that was received in part stays in the temporary inbound directory, and a later attempt goes on
where it ends. The name it waits under is made of its local name and of a check sum of the address, the
size and the time, so that what waits there was received for a file with the same four.
-/

namespace Binkleyforce

open Library Library.Program

/-! ## What the name tells -/

/-- An address as it is when the temporary name is made: its numbers were read from text, and
`session_remote_lookup` takes the domain off. -/
structure Faddr.Looked (addr : Faddr) : Prop where
  domain : addr.domain = []
  zone : 0 ≤ addr.zone ∧ addr.zone ≤ 0x7fff
  net : 0 ≤ addr.net ∧ addr.net ≤ 0x7fff
  node : 0 ≤ addr.node ∧ addr.node ≤ 0x7fff
  point : 0 ≤ addr.point ∧ addr.point ≤ 0x7fff

/-- Two texts that are cut at their last separator. -/
theorem split_last {front front' back back' : Bytes} {separator : UInt8} (single : separator ∉ back)
    (single' : separator ∉ back') (same : front ++ separator :: back = front' ++ separator :: back') :
    front = front' ∧ back = back' := by
  have cut {front back : Bytes} (single : separator ∉ back) :
      (front ++ separator :: back).reverse.takeWhile (· ≠ separator) = back.reverse := by
    have whole : back.reverse.takeWhile (· ≠ separator) = back.reverse := by
      rw [List.takeWhile_eq_self_iff]
      intro byte member
      rw [decide_eq_true_iff]
      rintro rfl
      exact single (List.mem_reverse.mp member)
    rw [List.reverse_append, List.reverse_cons, List.append_assoc, List.takeWhile_append, whole, if_pos rfl]
    simp
  have backs : back = back' := by
    rw [← List.reverse_inj, ← cut single, same, cut single']
  subst backs
  exact ⟨List.append_cancel_right same, rfl⟩

/-- Two texts that are cut at their first separator. -/
theorem split_first {front front' back back' : Bytes} {separator : UInt8} (single : separator ∉ front)
    (single' : separator ∉ front') (same : front ++ separator :: back = front' ++ separator :: back') :
    front = front' ∧ back = back' := by
  have mirrored := congrArg List.reverse same
  rw [List.reverse_append, List.reverse_append, List.reverse_cons, List.reverse_cons, List.append_assoc,
    List.append_assoc, List.singleton_append, List.singleton_append] at mirrored
  obtain ⟨backs, fronts⟩ := split_last (mt List.mem_reverse.mp single) (mt List.mem_reverse.mp single') mirrored
  exact ⟨List.reverse_injective fronts, List.reverse_injective backs⟩

/-- Two names of entries of directories. -/
theorem split_directory {dir dir' name name' : Bytes} (separated : dir.getLast? = some 47)
    (separated' : dir'.getLast? = some 47) (single : 47 ∉ name) (single' : 47 ∉ name')
    (same : dir ++ name = dir' ++ name') : dir = dir' := by
  obtain ⟨front, rfl⟩ := List.getLast?_eq_some_iff.mp separated
  obtain ⟨front', rfl⟩ := List.getLast?_eq_some_iff.mp separated'
  rw [List.append_assoc, List.append_assoc, List.singleton_append, List.singleton_append] at same
  rw [(split_last single single' same).1]

/-- `%lx` prints digits, and tells the number. -/
theorem printLongHex_tells (value : Nat) :
    (∀ byte ∈ printLongHex value, (xdigit byte).isSome) ∧ hexNumber (printLongHex value) = value :=
  hexNumber_toDigits value

/-- What is no digit is not printed. -/
theorem printLongHex_clear (value : Nat) {byte : UInt8} (none_ : xdigit byte = none) : byte ∉ printLongHex value := by
  intro member
  have digit := (printLongHex_tells value).1 byte member
  rw [none_] at digit
  cases digit

theorem printLongHex_injective {first second : Nat} (same : printLongHex first = printLongHex second) :
    first = second := by
  rw [← (printLongHex_tells first).2, same, (printLongHex_tells second).2]

/-- `%ld` tells a `long`. -/
theorem longBits_injective {first second : Int} (range : -(2 ^ 63) ≤ first ∧ first < 2 ^ 63)
    (range' : -(2 ^ 63) ≤ second ∧ second < 2 ^ 63) (same : longBits first = longBits second) :
    first = second := by
  unfold longBits at same
  omega

/-- What is no digit is not printed. -/
theorem printNat_clear (value : Nat) {byte : UInt8} (none_ : isdigit byte = false) : byte ∉ printNat value := by
  intro member
  have digit := printNat_isdigit value byte member
  rw [none_] at digit
  cases digit

theorem printNat_injective {first second : Nat} (same : printNat first = printNat second) : first = second := by
  have read (value : Nat) : leadingNumber (printNat value) = value := by
    have number := leadingNumber_printNat value [] nofun
    rwa [List.append_nil] at number
  rw [← read first, same, read]

section Addresses

variable {addr other : Faddr}

/-- The numbers of an address. -/
theorem Faddr.Looked.numbers (looked : addr.Looked) (looked' : other.Looked)
    (zone : addr.zone.toNat = other.zone.toNat) (net : addr.net.toNat = other.net.toNat)
    (node : addr.node.toNat = other.node.toNat) (point : addr.point.toNat = other.point.toNat)
    (form : addr.inetform = other.inetform) : addr = other := by
  obtain ⟨domain, zone₁, net₁, node₁, point₁⟩ := looked
  obtain ⟨domain', zone₂, net₂, node₂, point₂⟩ := looked'
  cases addr
  cases other
  simp only at domain domain' zone net node point form zone₁ net₁ node₁ point₁ zone₂ net₂ node₂ point₂
  subst domain domain' form
  simp only [Faddr.mk.injEq, true_and, and_true]
  omega

/-- The node of the fido form and of the internet form. -/
def nodeText (addr : Faddr) : Bytes :=
  if addr.inetform then
    102 :: (printNat addr.node.toNat ++ 46 :: 110 :: (printNat addr.net.toNat ++ 46 :: 122 :: printNat addr.zone.toNat))
  else if addr.point = 0 then printNat addr.node.toNat
  else printNat addr.node.toNat ++ 46 :: printNat addr.point.toNat

/-- The text of an address. -/
theorem Faddr.Looked.text (looked : addr.Looked) :
    ftnAddrstr addr =
      if addr.inetform then
        if addr.point = 0 then nodeText addr else 112 :: (printNat addr.point.toNat ++ 46 :: nodeText addr)
      else printNat addr.zone.toNat ++ 58 :: (printNat addr.net.toNat ++ 47 :: nodeText addr) := by
  have colon : ascii ":" = [58] := rfl
  have slash : ascii "/" = [47] := rfl
  have dot : ascii "." = [46] := rfl
  have point : ascii "p" = [112] := rfl
  have node : ascii "f" = [102] := rfl
  have net : ascii ".n" = [46, 110] := rfl
  have zone : ascii ".z" = [46, 122] := rfl
  unfold ftnAddrstr ftnAddrstrInet ftnAddrstrFido addrDomain nodeText
  rw [looked.domain, addrint2str_number looked.zone, addrint2str_number looked.net,
    addrint2str_number looked.node, addrint2str_number looked.point, colon, slash, dot, point, node, net, zone]
  cases addr.inetform with
  | true =>
    by_cases direct : addr.point = 0
    · simp [direct]
    · simp [direct]
  | false =>
    by_cases direct : addr.point = 0
    · simp [direct]
    · simp [direct]

/-- The internet form begins with a letter, the other one with a digit. -/
theorem Faddr.Looked.forms (looked : addr.Looked) (looked' : other.Looked) (form : addr.inetform = true)
    (form' : other.inetform = false) : ftnAddrstr addr ≠ ftnAddrstr other := by
  intro same
  obtain ⟨first, later, printed, digit⟩ := printNat_cons other.zone.toNat
  rw [looked.text, looked'.text] at same
  unfold nodeText at same
  simp only [form, form', if_true, Bool.false_eq_true, if_false, printed, List.cons_append] at same
  split at same
  · obtain rfl := (List.cons.inj same).1
    cases digit
  · obtain rfl := (List.cons.inj same).1
    cases digit

/-- The text tells the address. -/
theorem Faddr.Looked.told (looked : addr.Looked) (looked' : other.Looked)
    (text : ftnAddrstr addr = ftnAddrstr other) : addr = other := by
  have back {first second : Nat} := @printNat_injective first second
  have same := text
  rw [looked.text, looked'.text] at same
  unfold nodeText at same
  cases form : addr.inetform with
  | true =>
    cases form' : other.inetform with
    | true =>
      simp only [form, form', if_true] at same
      have nodes {point point' : Nat} (even : point = point')
          (node : 102 :: (printNat addr.node.toNat ++ 46 :: 110 ::
              (printNat addr.net.toNat ++ 46 :: 122 :: printNat addr.zone.toNat)) =
            102 :: (printNat other.node.toNat ++ 46 :: 110 ::
              (printNat other.net.toNat ++ 46 :: 122 :: printNat other.zone.toNat)))
          (here : point = addr.point.toNat) (there : point' = other.point.toNat) : addr = other := by
        obtain ⟨node, rest⟩ := split_first (printNat_clear _ rfl) (printNat_clear _ rfl) (List.cons_inj_right _ |>.mp node)
        obtain ⟨net, zone⟩ := split_first (printNat_clear _ rfl) (printNat_clear _ rfl)
          (List.cons_inj_right _ |>.mp rest)
        exact looked.numbers looked' (back (List.cons_inj_right _ |>.mp zone)) (back net) (back node)
          (here ▸ there ▸ even) (form.trans form'.symm)
      by_cases direct : addr.point = 0
      · by_cases direct' : other.point = 0
        · rw [if_pos direct, if_pos direct'] at same
          exact nodes rfl same (by rw [direct]) (by rw [direct'])
        · rw [if_pos direct, if_neg direct'] at same
          cases same
      · by_cases direct' : other.point = 0
        · rw [if_neg direct, if_pos direct'] at same
          cases same
        · rw [if_neg direct, if_neg direct'] at same
          obtain ⟨point, rest⟩ := split_first (printNat_clear _ rfl) (printNat_clear _ rfl)
            (List.cons_inj_right _ |>.mp same)
          exact nodes (back point) rest rfl rfl
    | false => exact absurd text (looked.forms looked' form form')
  | false =>
    cases form' : other.inetform with
    | true => exact absurd text.symm (looked'.forms looked form' form)
    | false =>
      simp only [form, form', Bool.false_eq_true, if_false] at same
      obtain ⟨zone, rest⟩ := split_first (printNat_clear _ rfl) (printNat_clear _ rfl) same
      obtain ⟨net, node⟩ := split_first (printNat_clear _ rfl) (printNat_clear _ rfl) rest
      have dot {value : Nat} {front back : Bytes} (cut : printNat value = front ++ 46 :: back) : False := by
        refine @printNat_clear value 46 rfl ?_
        rw [cut]
        exact List.mem_append_right _ List.mem_cons_self
      by_cases direct : addr.point = 0
      · by_cases direct' : other.point = 0
        · rw [if_pos direct, if_pos direct'] at node
          exact looked.numbers looked' (back zone) (back net) (back node) (by rw [direct, direct'])
            (form.trans form'.symm)
        · rw [if_pos direct, if_neg direct'] at node
          exact (dot node).elim
      · by_cases direct' : other.point = 0
        · rw [if_neg direct, if_pos direct'] at node
          exact (dot node.symm).elim
        · rw [if_neg direct, if_neg direct'] at node
          obtain ⟨node, point⟩ := split_first (printNat_clear _ rfl) (printNat_clear _ rfl) node
          exact looked.numbers looked' (back zone) (back net) (back node) (back point) (form.trans form'.symm)

end Addresses

/-! ## Files that are offered -/

/-- A file that a node offers in a session: the address of the node, what is announced of the file, and
how the inbound directory of the session is chosen. The time is a `time_t`, and the name of the directory
is not cut off. -/
structure Offer (inboundDirectory : Option Bytes) where
  addr : Faddr
  hint : FileHint
  splitInbound : Bool := false
  isProtected : Bool := true
  looked : addr.Looked
  timed : -(2 ^ 63) ≤ hint.tm ∧ hint.tm < 2 ^ 63
  short : (inboundName inboundDirectory splitInbound addr isProtected).length < pathMax - 1

/-- What a file is known by. -/
structure FileIdentity where
  name : Bytes
  size : Nat
  time : Int
  addr : Faddr
  deriving DecidableEq, Repr

namespace Offer

variable {inboundDirectory : Option Bytes} (conf : InboundConf) (offer : Offer inboundDirectory)

/-- The directories of the session. -/
def dirs : InboundDirs where
  inbound := inboundName inboundDirectory offer.splitInbound offer.addr offer.isProtected
  separated := inboundName_separated _ _ _ _ offer.short

/-- The file as its node names it. -/
def announced : FileIdentity := ⟨offer.hint.fn, offer.hint.sz, offer.hint.tm, offer.addr⟩

/-- The file under its local name. -/
def identity : FileIdentity := ⟨conf.localName offer.hint.fn, offer.hint.sz, offer.hint.tm, offer.addr⟩

/-- The text that is summed for the temporary name. -/
def key : Bytes :=
  ftnAddrstr offer.addr ++ ascii " " ++ printLongHex offer.hint.sz ++ ascii " " ++
    printLongHex (longBits offer.hint.tm)

/-- The temporary name of the file. -/
def tmpname : Bytes :=
  pGettmpname offer.dirs.tinbound (conf.localName offer.hint.fn) offer.addr offer.hint.sz offer.hint.tm

end Offer

/-- Different keys have different check sums. -/
def NoCollision {inboundDirectory : Option Bytes} (offers : List (Offer inboundDirectory)) : Prop :=
  ∀ first ∈ offers, ∀ second ∈ offers, getcrc32ccitt first.key = getcrc32ccitt second.key → first.key = second.key

/-! ## The disk -/

/-- The files of the disk, and the contents of those that were renamed. -/
structure InboundDisk where
  files : Bytes → Option Bytes
  renamed : List Bytes := []

namespace InboundDisk

/-- Change the file of a name. -/
def put (disk : InboundDisk) (path : Bytes) (content : Option Bytes) : InboundDisk :=
  { disk with files := fun other => if other = path then content else disk.files other }

/-- What a file contains once it is opened. -/
def opening (disk : InboundDisk) (path : Bytes) (append : Bool) : Bytes :=
  if append then (disk.files path).getD [] else []

/-- What the system may answer. Each call may fail; a file that could be opened but not locked may be
emptied. -/
def Answers (disk : InboundDisk) : (request : InboundCall) → InboundReply request → InboundDisk → Prop
  | .stat path, found, after =>
    after = disk ∧ ∀ there ∈ found, (disk.files path).map List.length = some there.2
  | .fopen path append, opened, after =>
    opened = false ∧ after = disk ∨ after = disk.put path (some (disk.opening path append))
  | .rename old new, renamed, after =>
    if renamed then
      ∃ content, disk.files old = some content ∧
        after = { (disk.put old none).put new (some content) with renamed := disk.renamed ++ [content] }
    else after = disk
  | .unlink path, unlinked, after => after = if unlinked then disk.put path none else disk
  | .access _, _, after | .fclose, _, after | .chmod _ _, _, after | .utime _, _, after
  | .getfreespace _, _, after | .rand, _, after | .reqProc _, _, after => after = disk

end InboundDisk

/-! ## Attempts -/

/-- An attempt to receive a file: the bytes that come, how many of them reach the disk, and what the file is
closed as, if the session does not end before. -/
structure Attempt (inboundDirectory : Option Bytes) where
  offer : Offer inboundDirectory
  bytes : Bytes
  written : Nat
  status : Option Fstat

/-- Bytes that were received for a file, from an offset on. -/
structure Reception where
  identity : FileIdentity
  offset : Nat
  bytes : Bytes
  deriving DecidableEq, Repr

/-- The disk, and what was received so far. -/
structure InboundWorld where
  disk : InboundDisk
  heard : List Reception := []

section Attempts

variable {inboundDirectory : Option Bytes} (conf : InboundConf)

/-- `p_rx_fopen` for the offered file. One that was skipped or refused just before is answered without the
disk, and is no new attempt. -/
def Offer.Opens (offer : Offer inboundDirectory) (disk : InboundDisk) (recv : Received) (result : RxOpen)
    (after : InboundDisk) : Prop :=
  Answered InboundDisk.Answers (openNew conf offer.dirs offer.addr offer.hint) disk (recv, result) after

/-- `p_rx_fclose` with a status, if the session gets so far. -/
def Offer.Closes (offer : Offer inboundDirectory) (recv : Received) (disk : InboundDisk) :
    Option Fstat → InboundDisk → Prop
  | none, after => after = disk
  | some status, after =>
    ∃ closed, Answered InboundDisk.Answers (closeReceiving conf offer.dirs { recv with status }) disk closed after

/-- An attempt, where files are known as the function tells. -/
inductive Attempted (known : Offer inboundDirectory → FileIdentity) :
    InboundWorld → Attempt inboundDirectory → InboundWorld → Prop where
  /-- The file is not taken. -/
  | declined {world : InboundWorld} {attempt : Attempt inboundDirectory} {recv : Received} {result : RxOpen}
      {opened after : InboundDisk} (opens : attempt.offer.Opens conf world.disk recv result opened)
      (declined : result ≠ .accept) (closes : attempt.offer.Closes conf recv opened attempt.status after) :
      Attempted known world attempt { world with disk := after }
  /-- The file is taken, and what comes is written behind what is there. -/
  | received {world : InboundWorld} {attempt : Attempt inboundDirectory} {recv : Received} {path content : Bytes}
      {opened after : InboundDisk} (opens : attempt.offer.Opens conf world.disk recv .accept opened)
      (named : recv.fname = some path) (there : opened.files path = some content)
      (closes : attempt.offer.Closes conf recv
        (opened.put path (some (content ++ attempt.bytes.take attempt.written))) attempt.status after) :
      Attempted known world attempt
        { disk := after, heard := world.heard ++ [⟨known attempt.offer, recv.bytesSkipped, attempt.bytes⟩] }

/-- The content consists of what was received of a file: each part begins at the offset it was received
from, the first at the beginning of the file. -/
inductive Assembled (identity : FileIdentity) : List Reception → Bytes → Prop where
  | nothing (heard : List Reception) : Assembled identity heard []
  | part {earlier : List Reception} {front : Bytes} (bytes : Bytes) (written : Nat) (later : List Reception)
      (before : Assembled identity earlier front) :
      Assembled identity (earlier ++ ⟨identity, front.length, bytes⟩ :: later) (front ++ bytes.take written)

/-- After the attempts, a file that is resumed is resumed with what was received of it, and each file that
was put in place consists of what was received of one file. -/
def ResumesSame (known : Offer inboundDirectory → FileIdentity) (start : InboundWorld)
    (attempts : List (Attempt inboundDirectory)) (offer : Offer inboundDirectory) : Prop :=
  ∀ world, Trace (Attempted conf known) start attempts world →
    (∀ recv opened, offer.Opens conf world.disk recv .accept opened →
      ∃ content, recv.fname.bind opened.files = some content ∧ content.length = recv.bytesSkipped ∧
        Assembled (known offer) world.heard content) ∧
      ∀ content ∈ world.disk.renamed, ∃ attempt ∈ attempts, Assembled (known attempt.offer) world.heard content

end Attempts

/-! ## What the routines ask for -/

section Routines

variable (conf : InboundConf) (dirs : InboundDirs) (tmpname : Bytes)

/-- What the routines do with one temporary name: only this file is opened and removed, and it is renamed to
a name of the inbound directory, or to one no file can take. -/
def Settles : InboundCall → Prop
  | .fopen path _ => path = tmpname
  | .rename old new => old = tmpname ∧ (Inside dirs.inbound new ∨ ¬ FileName (fileGetname new))
  | .unlink path => path = tmpname
  | _ => True

/-- The record is that of the temporary file. -/
structure Received.Waits (recv : Received) : Prop where
  single : 47 ∉ recv.localName
  named : ∀ path ∈ recv.fname, path = tmpname

variable {tmpname}

/-- A file is moved from its temporary name. -/
theorem move_settles (recv : Received) (waits : recv.Waits tmpname) :
    Ensures (Settles dirs tmpname) (fun _ => True) (pMove2inbound conf dirs recv) := by
  have renames (destname : Bytes) (target : Inside dirs.inbound destname ∨ ¬ FileName (fileGetname destname)) :
      Ensures (Settles dirs tmpname) (fun _ => True) (renameInbound conf recv destname) := by
    unfold renameInbound
    split
    · exact (ensures_done _ _ _).mpr trivial
    · rename_i fname named
      refine (ensures_call _ _ _ _).mpr ⟨⟨waits.named fname named, target⟩, ?_⟩
      rintro (_ | _)
      · exact (ensures_done _ _ _).mpr trivial
      · exact (ensures_call _ _ _ _).mpr ⟨trivial, fun _ => (ensures_done _ _ _).mpr trivial⟩
  refine (ensures_call _ _ _ _).mpr ⟨trivial, ?_⟩
  rintro (_ | _)
  · refine renames _ ?_
    by_cases name : FileName recv.localName
    · exact .inl ⟨recv.localName, rfl, name⟩
    · exact .inr (by rwa [getname_append _ _ dirs.separated waits.single])
  · refine ensures_bind (uniqueName_chosen dirs.inbound dirs.separated trivial (fun _ => trivial) recv.localName
      waits.single recv.type) ?_
    rintro (_ | uniqname) found
    · exact (ensures_done _ _ _).mpr trivial
    · exact renames uniqname (found uniqname rfl)

/-- A file is closed under its temporary name. -/
theorem close_settles (recv : Received) (waits : recv.Waits tmpname) :
    Ensures (Settles dirs tmpname) (fun _ => True) (closeReceiving conf dirs recv) := by
  have commits (recv : Received) (waits : recv.Waits tmpname) :
      Ensures (Settles dirs tmpname) (fun _ => True) (commitReceived conf dirs recv) := by
    unfold commitReceived
    split
    · exact (ensures_done _ _ _).mpr trivial
    · split
      · exact (ensures_done _ _ _).mpr trivial
      · rename_i path named
        refine (ensures_call _ _ _ _).mpr ⟨trivial, fun found => ?_⟩
        split
        · exact (ensures_done _ _ _).mpr trivial
        · split
          · exact (ensures_call _ _ _ _).mpr ⟨trivial, fun _ => (ensures_call _ _ _ _).mpr
              ⟨waits.named path named, fun _ => (ensures_done _ _ _).mpr trivial⟩⟩
          · refine ensures_bind (move_settles conf dirs recv waits) ?_
            rintro (_ | _) -
            · exact (ensures_done _ _ _).mpr trivial
            · exact (ensures_done _ _ _).mpr trivial
  have settles (recv : Received) (waits : recv.Waits tmpname) :
      Ensures (Settles dirs tmpname) (fun _ => True) (settleReceived conf dirs recv) := by
    have commits := commits recv waits
    unfold settleReceived
    split
    · exact commits
    · rename_i path named
      have restricts : Ensures (Settles dirs tmpname) (fun _ => True)
          (.call (.chmod path 0o600) fun _ => commitReceived conf dirs recv : InboundProgram (Received × Bool)) :=
        (ensures_call _ _ _ _).mpr ⟨trivial, fun _ => commits⟩
      dsimp only
      split
      · exact (ensures_call _ _ _ _).mpr ⟨waits.named path named, fun _ => commits⟩
      · split
        · exact (ensures_call _ _ _ _).mpr ⟨trivial, fun _ => restricts⟩
        · exact restricts
  unfold closeReceiving
  split
  · refine (ensures_call _ _ _ _).mpr ⟨trivial, ?_⟩
    rintro (_ | _)
    · exact (ensures_done _ _ _).mpr trivial
    · exact settles { recv with opened := false } ⟨waits.single, waits.named⟩
  · exact settles recv waits

/-- A file is opened under its temporary name. -/
theorem openReceived_settles (recv : Received) (append : Bool) (waits : recv.Waits tmpname) :
    Ensures (Settles dirs tmpname) (fun result => result.1.Waits tmpname)
      (openReceived conf dirs recv tmpname append) := by
  have opens : Ensures (Settles dirs tmpname) (fun result => result.1.Waits tmpname)
      (openTemporary recv tmpname append) := by
    refine (ensures_call _ _ _ _).mpr ⟨rfl, ?_⟩
    rintro (_ | _)
    · exact (ensures_done _ _ _).mpr ⟨waits.single, nofun⟩
    · exact (ensures_done _ _ _).mpr ⟨waits.single, fun path same => (Option.some.inj same).symm⟩
  unfold openReceived
  dsimp only
  split
  · refine (ensures_call _ _ _ _).mpr ⟨trivial, fun free => ?_⟩
    split
    · exact (ensures_done _ _ _).mpr ⟨waits.single, fun path same => (Option.some.inj same).symm⟩
    · exact opens
  · exact opens

theorem openNew_settles (addr : Faddr) (hint : FileHint)
    (same : tmpname = pGettmpname dirs.tinbound (conf.localName hint.fn) addr hint.sz hint.tm) :
    Ensures (Settles dirs tmpname) (fun result => result.1.Waits tmpname) (openNew conf dirs addr hint) := by
  have single : 47 ∉ (receivedNew conf hint).localName := localName_no_separator conf hint.fn
  unfold openNew
  dsimp only
  rw [show pGettmpname dirs.tinbound (receivedNew conf hint).localName addr (receivedNew conf hint).bytesTotal
    (receivedNew conf hint).modTime = tmpname from same.symm]
  split
  · exact (ensures_done _ _ _).mpr ⟨single, nofun⟩
  · split
    · exact (ensures_done _ _ _).mpr ⟨single, nofun⟩
    · split
      · exact openReceived_settles conf dirs _ false ⟨single, nofun⟩
      · refine (ensures_call _ _ _ _).mpr ⟨trivial, fun found => ?_⟩
        split
        · exact (ensures_done _ _ _).mpr ⟨single, nofun⟩
        · refine (ensures_call _ _ _ _).mpr ⟨trivial, fun there => ?_⟩
          cases there with
          | none => exact openReceived_settles conf dirs _ false ⟨single, nofun⟩
          | some there =>
            dsimp only
            split
            · refine ensures_bind (move_settles conf dirs _
                ⟨single, fun path same => (Option.some.inj same).symm⟩) ?_
              rintro (_ | _) -
              · exact (ensures_done _ _ _).mpr ⟨single, nofun⟩
              · exact (ensures_done _ _ _).mpr ⟨single, nofun⟩
            · split
              · exact openReceived_settles conf dirs _ true ⟨single, nofun⟩
              · exact openReceived_settles conf dirs _ false ⟨single, nofun⟩

/-! ## What is opened -/

variable {disk after : InboundDisk} {recv : Received}

/-- The file is open under its temporary name, and as long as the record says. -/
def OpenedAt (tmpname : Bytes) (recv : Received) (after : InboundDisk) : Prop :=
  recv.fname = some tmpname ∧ ∃ content, after.files tmpname = some content ∧ content.length = recv.bytesSkipped

/-- The file that is opened is what was there, or empty. -/
theorem openReceived_opened {recv' : Received} {append : Bool}
    (skips : (disk.opening tmpname append).length = recv.bytesSkipped)
    (opens : Answered InboundDisk.Answers (openReceived conf dirs recv tmpname append) disk (recv', .accept) after) :
    OpenedAt tmpname recv' after := by
  have opened (opens : Answered InboundDisk.Answers (openTemporary recv tmpname append) disk (recv', .accept) after) :
      OpenedAt tmpname recv' after := by
    obtain ⟨reply, middle, answer, rest⟩ := (answered_call _ _ _ _ _).mp opens
    cases reply with
    | false =>
      obtain ⟨same, -⟩ := (answered_done _ _ _ _).mp rest
      cases same
    | true =>
      obtain ⟨same, rfl⟩ := (answered_done _ _ _ _).mp rest
      cases same
      rcases answer with ⟨impossible, -⟩ | put
      · cases impossible
      · subst put
        refine ⟨rfl, disk.opening tmpname append, ?_, skips⟩
        unfold InboundDisk.put
        exact if_pos rfl
  unfold openReceived at opens
  split at opens
  · obtain ⟨reply, middle, rfl, rest⟩ := (answered_call _ _ _ _ _).mp opens
    split at rest
    · obtain ⟨same, -⟩ := (answered_done _ _ _ _).mp rest
      cases same
    · exact opened rest
  · exact opened opens

theorem openNew_opened {addr : Faddr} {hint : FileHint}
    (same : tmpname = pGettmpname dirs.tinbound (conf.localName hint.fn) addr hint.sz hint.tm)
    (opens : Answered InboundDisk.Answers (openNew conf dirs addr hint) disk (recv, .accept) after) :
    OpenedAt tmpname recv after := by
  have fresh : (disk.opening tmpname false).length = (receivedNew conf hint).bytesSkipped := rfl
  have ended {result : Received × RxOpen} (other : result.2 ≠ .accept)
      (done : Answered InboundDisk.Answers (.done result : InboundProgram (Received × RxOpen)) disk (recv, .accept)
        after) : OpenedAt tmpname recv after := by
    obtain ⟨impossible, -⟩ := (answered_done _ _ _ _).mp done
    exact absurd (congrArg Prod.snd impossible).symm other
  unfold openNew at opens
  dsimp only at opens
  rw [show pGettmpname dirs.tinbound (receivedNew conf hint).localName addr (receivedNew conf hint).bytesTotal
    (receivedNew conf hint).modTime = tmpname from same.symm] at opens
  split at opens
  · exact ended (fun same => by cases same) opens
  · split at opens
    · exact ended (fun same => by cases same) opens
    · split at opens
      · exact openReceived_opened conf dirs fresh opens
      · obtain ⟨found, _, ⟨rfl, -⟩, rest⟩ := (answered_call _ _ _ _ _).mp opens
        split at rest
        · exact ended (fun same => by cases same) rest
        · obtain ⟨there, _, ⟨rfl, size⟩, rest⟩ := (answered_call _ _ _ _ _).mp rest
          cases there with
          | none => exact openReceived_opened conf dirs fresh rest
          | some there =>
            dsimp only at rest
            split at rest
            · obtain ⟨moved, middle, -, rest⟩ := answered_bind rest
              cases moved with
              | true =>
                obtain ⟨impossible, -⟩ := (answered_done _ _ _ _).mp rest
                cases impossible
              | false =>
                obtain ⟨impossible, -⟩ := (answered_done _ _ _ _).mp rest
                cases impossible
            · split at rest
              · refine openReceived_opened conf dirs ?_ rest
                obtain ⟨content, there', length⟩ := Option.map_eq_some_iff.mp (size there rfl)
                unfold InboundDisk.opening
                rw [if_pos rfl, there']
                exact length
              · exact openReceived_opened conf dirs fresh rest

end Routines

/-! ## Temporary names -/

section Names

variable {inboundDirectory : Option Bytes} {conf : InboundConf} {offer other : Offer inboundDirectory}

/-- The key tells the address, the size and the time. -/
theorem Offer.key_told (same : offer.key = other.key) :
    offer.addr = other.addr ∧ offer.hint.sz = other.hint.sz ∧ offer.hint.tm = other.hint.tm := by
  have space : ascii " " = [32] := rfl
  unfold Offer.key at same
  simp only [space, List.append_assoc, List.singleton_append] at same
  rw [← List.append_assoc, ← List.append_assoc] at same
  obtain ⟨front, time⟩ := split_last (printLongHex_clear _ rfl) (printLongHex_clear _ rfl) same
  obtain ⟨text, size⟩ := split_last (printLongHex_clear _ rfl) (printLongHex_clear _ rfl) front
  exact ⟨offer.looked.told other.looked text, printLongHex_injective size,
    longBits_injective offer.timed other.timed (printLongHex_injective time)⟩

/-- A temporary name is that of an entry of the temporary directory. -/
theorem Offer.tmpname_name : ∃ sum, fileGetname (offer.tmpname conf) =
    conf.localName offer.hint.fn ++ 46 :: printLongHex sum ∧ sum = (getcrc32ccitt offer.key).toNat ∧
      FileName (fileGetname (offer.tmpname conf)) ∧
        offer.tmpname conf = offer.dirs.tinbound ++ fileGetname (offer.tmpname conf) := by
  obtain ⟨component, whole, name⟩ := gettmpname_inside offer.dirs.tinbound (conf.localName offer.hint.fn) offer.addr
    offer.hint.sz offer.hint.tm (localName_no_separator conf offer.hint.fn)
  have separated : offer.dirs.tinbound.getLast? = some 47 := by
    unfold InboundDirs.tinbound
    rw [List.getLast?_append]
    rfl
  have last : fileGetname (offer.tmpname conf) = component := by
    unfold Offer.tmpname
    rw [whole]
    exact getname_append _ _ separated name.single
  refine ⟨_, ?_, rfl, last ▸ name, last ▸ whole⟩
  rw [last]
  refine List.append_cancel_left (whole.symm.trans ?_)
  unfold pGettmpname Offer.key
  simp only [List.append_assoc]
  rfl

/-- Files with the same temporary name are known by the same. -/
theorem Offer.tmpname_told
    (apart : getcrc32ccitt offer.key = getcrc32ccitt other.key → offer.key = other.key)
    (same : offer.tmpname conf = other.tmpname conf) : offer.identity conf = other.identity conf := by
  obtain ⟨_, mine, rfl, -, -⟩ := @Offer.tmpname_name _ conf offer
  obtain ⟨_, its, rfl, -, -⟩ := @Offer.tmpname_name _ conf other
  rw [same, its] at mine
  obtain ⟨name, sum⟩ := split_last (printLongHex_clear _ rfl) (printLongHex_clear _ rfl) mine
  have sums : getcrc32ccitt offer.key = getcrc32ccitt other.key :=
    UInt64.toNat_inj.mp (printLongHex_injective sum).symm
  obtain ⟨addr, size, time⟩ := Offer.key_told (apart sums)
  unfold Offer.identity
  rw [name, addr, size, time]

/-- The inbound directory of a session is the configured one, or ends in its own way. -/
theorem Offer.inbound_form (offer : Offer inboundDirectory) :
    offer.dirs.inbound = (inboundDirectory.map procPath).getD (ascii "./") ∨
      ∃ front, offer.dirs.inbound = (inboundDirectory.map procPath).getD (ascii "./") ++ (front ++ ascii "in/") := by
  have short := offer.short
  unfold Offer.dirs
  simp only [inboundName] at short ⊢
  split at short
  · rename_i divided
    rw [List.length_take] at short
    rw [if_pos divided, List.take_of_length_le (by omega)]
    right
    have ending : ascii "-in/" = 45 :: ascii "in/" := rfl
    refine ⟨printInt offer.addr.zone ++ ascii "." ++ printInt offer.addr.net ++ ascii "." ++
      printInt offer.addr.node ++ ascii "." ++ printInt offer.addr.point ++ ascii "/" ++
      (if offer.isProtected then ascii "pwd" else ascii "unchecked") ++ [45], ?_⟩
    simp only [ending, List.append_assoc, List.singleton_append]
  · rename_i whole
    rw [if_neg whole]
    exact .inl rfl

/-- An inbound directory is not the temporary one of another session. -/
theorem Offer.inbound_apart : offer.dirs.inbound ≠ other.dirs.tinbound := by
  intro same
  unfold InboundDirs.tinbound at same
  rcases offer.inbound_form with whole | ⟨front, divided⟩
  · have lengths := congrArg List.length same
    rw [whole, List.length_append] at lengths
    have four : (ascii "tmp/").length = 4 := rfl
    rcases other.inbound_form with whole' | ⟨front, divided⟩
    · rw [whole'] at lengths
      omega
    · rw [divided, List.length_append] at lengths
      omega
  · have ends := congrArg (fun name => name.reverse.take 4) same
    rw [divided] at ends
    simp [ascii] at ends

/-- What is put in place takes no temporary name. -/
theorem Offer.target_apart {new : Bytes}
    (target : Inside offer.dirs.inbound new ∨ ¬ FileName (fileGetname new)) : new ≠ other.tmpname conf := by
  rintro rfl
  obtain ⟨_, -, -, name, whole⟩ := @Offer.tmpname_name _ conf other
  rcases target with ⟨component, same, single⟩ | none_
  · apply @Offer.inbound_apart _ offer other
    rw [whole] at same
    have separated : other.dirs.tinbound.getLast? = some 47 := by
      unfold InboundDirs.tinbound
      rw [List.getLast?_append]
      rfl
    exact (split_directory separated offer.dirs.separated name.single single.single same).symm
  · exact none_ name

end Names

/-! ## What waits -/

/-- What was put together stays so when more is received. -/
theorem Assembled.more {identity : FileIdentity} {heard : List Reception} {content : Bytes}
    (assembled : Assembled identity heard content) (more : List Reception) :
    Assembled identity (heard ++ more) content := by
  cases assembled with
  | nothing => exact .nothing _
  | part bytes written later before =>
    rw [List.append_assoc, List.cons_append]
    exact .part bytes written (later ++ more) before

/-- Where there is something, something was received. -/
theorem Assembled.received {identity : FileIdentity} {heard : List Reception} {content : Bytes}
    (assembled : Assembled identity heard content) (some_ : content ≠ []) :
    ∃ reception ∈ heard, reception.identity = identity := by
  cases assembled with
  | nothing => exact absurd rfl some_
  | part bytes written later before => exact ⟨_, List.mem_append_right _ List.mem_cons_self, rfl⟩

/-- What waits for a file was received of it, and what was put in place was received of one that was
tried. -/
structure Sorted {inboundDirectory : Option Bytes} (conf : InboundConf) (offers tried : List (Offer inboundDirectory))
    (heard : List Reception) (disk : InboundDisk) : Prop where
  waiting : ∀ offer ∈ offers, ∀ content, disk.files (offer.tmpname conf) = some content →
    Assembled (offer.identity conf) heard content
  renamed : ∀ content ∈ disk.renamed, ∃ offer ∈ tried, Assembled (offer.identity conf) heard content

section Attempts

variable {inboundDirectory : Option Bytes} {conf : InboundConf} {offers tried : List (Offer inboundDirectory)}
  {heard : List Reception} {disk after : InboundDisk} {offer : Offer inboundDirectory}

/-- More is received. -/
theorem Sorted.more (sorted : Sorted conf offers tried heard disk) (more : List Reception) :
    Sorted conf offers tried (heard ++ more) disk := by
  constructor
  · intro other member content there
    exact (sorted.waiting other member content there).more more
  · intro content member
    obtain ⟨other, one, assembled⟩ := sorted.renamed content member
    exact ⟨other, one, assembled.more more⟩

/-- More is tried. -/
theorem Sorted.wider (sorted : Sorted conf offers tried heard disk) (all : tried ⊆ offers) :
    Sorted conf offers offers heard disk := by
  constructor
  · exact sorted.waiting
  · intro content member
    obtain ⟨other, one, assembled⟩ := sorted.renamed content member
    exact ⟨other, all one, assembled⟩

/-- A temporary file gets a content that was received of its file, or is removed. -/
theorem Sorted.put (sorted : Sorted conf offers tried heard disk) (apart : NoCollision offers) (member : offer ∈ offers)
    (content : Option Bytes) (received : ∀ bytes ∈ content, Assembled (offer.identity conf) heard bytes) :
    Sorted conf offers tried heard (disk.put (offer.tmpname conf) content) := by
  constructor
  · intro other one bytes there
    unfold InboundDisk.put at there
    dsimp only at there
    split at there
    · rename_i same
      rw [Offer.tmpname_told (apart other one offer member) same]
      exact received bytes there
    · exact sorted.waiting other one bytes there
  · exact sorted.renamed

/-- What a file contains once it is opened was received of it. -/
theorem Sorted.opening (sorted : Sorted conf offers tried heard disk) (member : offer ∈ offers) (append : Bool) :
    Assembled (offer.identity conf) heard (disk.opening (offer.tmpname conf) append) := by
  unfold InboundDisk.opening
  cases append with
  | false => exact .nothing heard
  | true =>
    cases there : disk.files (offer.tmpname conf) with
    | none => simpa [there] using Assembled.nothing heard
    | some content => simpa [there] using sorted.waiting offer member content there

/-- What the routines do with the temporary file of an offer keeps this. -/
theorem Sorted.answered (sorted : Sorted conf offers tried heard disk) (apart : NoCollision offers)
    (all : tried ⊆ offers) (member : offer ∈ tried) {request : InboundCall} {reply : InboundReply request}
    (settles : Settles offer.dirs (offer.tmpname conf) request) (answer : disk.Answers request reply after) :
    Sorted conf offers tried heard after := by
  cases request with
  | stat path => exact answer.1 ▸ sorted
  | fopen path append =>
    obtain rfl : path = offer.tmpname conf := settles
    rcases answer with ⟨-, rfl⟩ | rfl
    · exact sorted
    · apply sorted.put apart (all member)
      intro bytes there
      obtain rfl := Option.some.inj there
      exact sorted.opening (all member) append
  | rename old new =>
    obtain ⟨rfl, target⟩ : old = offer.tmpname conf ∧ _ := settles
    cases reply with
    | false => exact (show after = disk from answer) ▸ sorted
    | true =>
      obtain ⟨content, there, rfl⟩ := answer
      have gone := sorted.put apart (all member) none (fun _ impossible => absurd impossible (Option.not_mem_none _))
      constructor
      · intro other one bytes found
        have place : other.tmpname conf ≠ new := (Offer.target_apart target).symm
        unfold InboundDisk.put at found
        dsimp only at found
        rw [if_neg place] at found
        exact gone.waiting other one bytes found
      · intro bytes one
        rcases List.mem_append.mp one with before | now
        · exact sorted.renamed bytes before
        · rw [List.mem_singleton.mp now]
          exact ⟨offer, member, sorted.waiting offer (all member) content there⟩
  | unlink path =>
    obtain rfl : path = offer.tmpname conf := settles
    cases reply with
    | false => exact (show after = disk from answer) ▸ sorted
    | true =>
      obtain rfl : after = disk.put (offer.tmpname conf) none := answer
      exact sorted.put apart (all member) none (fun _ impossible => absurd impossible (Option.not_mem_none _))
  | access path => exact (show after = disk from answer) ▸ sorted
  | fclose => exact (show after = disk from answer) ▸ sorted
  | chmod path mode => exact (show after = disk from answer) ▸ sorted
  | utime path => exact (show after = disk from answer) ▸ sorted
  | getfreespace path => exact (show after = disk from answer) ▸ sorted
  | rand => exact (show after = disk from answer) ▸ sorted
  | reqProc path => exact (show after = disk from answer) ▸ sorted

/-- So do the routines. -/
theorem Sorted.performed {α : Type} {program : InboundProgram α} {value : α}
    (sorted : Sorted conf offers tried heard disk) (apart : NoCollision offers) (all : tried ⊆ offers)
    (member : offer ∈ tried) (settles : Requests (Settles offer.dirs (offer.tmpname conf)) program)
    (answered : Answered InboundDisk.Answers program disk value after) : Sorted conf offers tried heard after :=
  answered.keeps settles (fun _ _ _ _ settles answer sorted => sorted.answered apart all member settles answer) sorted

/-- The record of a file that was opened is that of its temporary file. -/
theorem Offer.Opens.waits {recv : Received} {result : RxOpen} (opens : offer.Opens conf disk recv result after) :
    recv.Waits (offer.tmpname conf) :=
  (openNew_settles conf offer.dirs offer.addr offer.hint rfl).2 (recv, result) opens.yields

/-- Opening a file keeps what waits. -/
theorem Sorted.opened {recv : Received} {result : RxOpen} (sorted : Sorted conf offers tried heard disk)
    (apart : NoCollision offers) (all : tried ⊆ offers) (member : offer ∈ tried)
    (opens : offer.Opens conf disk recv result after) : Sorted conf offers tried heard after :=
  sorted.performed apart all member (openNew_settles conf offer.dirs offer.addr offer.hint rfl).1 opens

/-- Closing one does. -/
theorem Sorted.closed {recv : Received} {status : Option Fstat} (sorted : Sorted conf offers tried heard disk)
    (apart : NoCollision offers) (all : tried ⊆ offers) (member : offer ∈ tried) (waits : recv.Waits (offer.tmpname conf))
    (closes : offer.Closes conf recv disk status after) : Sorted conf offers tried heard after := by
  cases status with
  | none => exact (show after = disk from closes) ▸ sorted
  | some status =>
    obtain ⟨closed, closing⟩ := closes
    exact sorted.performed apart all member
      (close_settles conf offer.dirs { recv with status } ⟨waits.single, waits.named⟩).1 closing

/-- An attempt keeps what waits. -/
theorem Attempted.sorted {world next : InboundWorld} {attempt : Attempt inboundDirectory}
    (attempted : Attempted conf (Offer.identity conf) world attempt next)
    (before : Sorted conf offers tried world.heard world.disk) (apart : NoCollision offers) (all : tried ⊆ offers)
    (member : attempt.offer ∈ tried) : Sorted conf offers tried next.heard next.disk := by
  cases attempted with
  | declined opens declined closes =>
    exact (before.opened apart all member opens).closed apart all member opens.waits closes
  | received opens named there closes =>
    rename_i recv path content opened after
    have waits := opens.waits
    obtain ⟨name, whole, found, length⟩ := openNew_opened conf attempt.offer.dirs rfl opens
    obtain rfl : path = attempt.offer.tmpname conf := Option.some.inj (named.symm.trans name)
    obtain rfl : content = whole := Option.some.inj (there.symm.trans found)
    have sorted := before.opened apart all member opens
    have part := Assembled.part attempt.bytes attempt.written []
      (sorted.waiting attempt.offer (all member) content there)
    rw [length] at part
    apply Sorted.closed _ apart all member waits closes
    apply (sorted.more _).put apart (all member)
    intro bytes one
    obtain rfl := Option.some.inj one
    exact part

end Attempts

/-! ## Two names for one file -/

section Examples

variable {inboundDirectory : Option Bytes} {offer : Offer inboundDirectory} {disk : InboundDisk}

/-- An inbound directory without settings takes every file. -/
theorem plain_checks : openNew plainInbound offer.dirs offer.addr offer.hint =
    checkInbound plainInbound offer.dirs (receivedNew plainInbound offer.hint) (offer.tmpname plainInbound) := by
  unfold openNew
  dsimp only
  have type : (receivedNew plainInbound offer.hint).type = 0 := rfl
  rw [if_neg (show ¬ plainInbound.delays offer.hint.fn = true from Bool.false_ne_true),
    if_neg (show ¬ plainInbound.skips offer.hint.fn = true from Bool.false_ne_true), type, if_neg (by decide)]
  rfl

/-- A file of which something waits is resumed. -/
theorem plain_resumed {content : Bytes} (there : disk.files (offer.tmpname plainInbound) = some content)
    (left : content.length < offer.hint.sz) :
    offer.Opens plainInbound disk
      { receivedNew plainInbound offer.hint with
        bytesSkipped := content.length, fname := some (offer.tmpname plainInbound), opened := true }
      .accept (disk.put (offer.tmpname plainInbound) (some content)) := by
  have opening : disk.opening (offer.tmpname plainInbound) true = content := by
    simp [InboundDisk.opening, there]
  unfold Offer.Opens
  rw [plain_checks]
  refine (answered_call _ _ _ _ _).mpr ⟨none, disk, ⟨rfl, fun _ impossible => absurd impossible (Option.not_mem_none _)⟩, ?_⟩
  refine (answered_call _ _ _ _ _).mpr ⟨some (offer.hint.tm, content.length), disk, ⟨rfl, ?_⟩, ?_⟩
  · rintro _ ⟨⟩
    exact congrArg (Option.map List.length) there
  · dsimp only
    rw [if_neg (by simp [receivedNew]; omega), if_pos (by simp [receivedNew, plainInbound]; omega)]
    refine (answered_call _ _ _ _ _).mpr ⟨true, _, .inr rfl, ?_⟩
    rw [opening]
    exact .done _ _

/-- A file is begun where `stat` fails. -/
theorem plain_begun :
    offer.Opens plainInbound disk
      { receivedNew plainInbound offer.hint with fname := some (offer.tmpname plainInbound), opened := true }
      .accept (disk.put (offer.tmpname plainInbound) (some [])) := by
  unfold Offer.Opens
  rw [plain_checks]
  refine (answered_call _ _ _ _ _).mpr ⟨none, disk, ⟨rfl, fun _ impossible => absurd impossible (Option.not_mem_none _)⟩, ?_⟩
  refine (answered_call _ _ _ _ _).mpr ⟨none, disk, ⟨rfl, fun _ impossible => absurd impossible (Option.not_mem_none _)⟩, ?_⟩
  exact (answered_call _ _ _ _ _).mpr ⟨true, _, .inr rfl, .done _ _⟩

end Examples

/-- A file of three bytes that a node offers under a name. -/
def offerNamed (fn : Bytes) : Offer (some (ascii "/in")) where
  addr := { zone := 2, net := 5020, node := 1, point := 0 }
  hint := ⟨fn, 3, 900000000⟩
  looked := by constructor <;> decide
  timed := by constructor <;> simp only <;> decide
  short := by decide

/-- An attempt of which one byte reaches the disk before the session ends. -/
def brokenOff : Attempt (some (ascii "/in")) := ⟨offerNamed (ascii "a b"), [1], 1, none⟩

/-- An empty disk. -/
def emptyInbound : InboundWorld := { disk := { files := fun _ => none } }

/-- The disk after it. -/
theorem broken_off {known : Offer (some (ascii "/in")) → FileIdentity} :
    ∃ world : InboundWorld, Trace (Attempted plainInbound known) emptyInbound [brokenOff] world ∧
      world.disk.files (brokenOff.offer.tmpname plainInbound) = some [1] ∧
        world.heard = [⟨known brokenOff.offer, 0, [1]⟩] := by
  have begun : (emptyInbound.disk.put (brokenOff.offer.tmpname plainInbound) (some [])).files
      (brokenOff.offer.tmpname plainInbound) = some [] := by simp [InboundDisk.put]
  refine ⟨_, .one (.received plain_begun rfl begun rfl), ?_, rfl⟩
  simp [InboundDisk.put, brokenOff]

end Binkleyforce
