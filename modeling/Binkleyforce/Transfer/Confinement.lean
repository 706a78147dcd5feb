import Binkleyforce.Transfer.Inbound

/-!
# Received files stay in their directories

Which names the receiving routines pass to the system. Separators never survive in a
local name, so a name can only leave its directory by being empty or one of the two
directory entries every directory has. Temporary names and random names are never such.
-/

namespace Binkleyforce

open Library Library.Program

/-- A name of an entry of a directory, other than the directory itself and its parent. -/
structure FileName (component : Bytes) : Prop where
  named : component ≠ []
  single : 47 ∉ component
  entry : component ≠ ascii "." ∧ component ≠ ascii ".."

/-- The path is the directory followed by one component. -/
def Inside (dir path : Bytes) : Prop := ∃ component, path = dir ++ component ∧ FileName component

/-- The path lies in the inbound or the temporary inbound directory. -/
def InboundDirs.Holds (dirs : InboundDirs) (path : Bytes) : Prop :=
  Inside dirs.inbound path ∨ Inside dirs.tinbound path

/-- The names passed to open, rename and unlink files lie in the directories. -/
def InboundCall.Confined (dirs : InboundDirs) : InboundCall → Prop
  | .fopen path _ | .unlink path => dirs.Holds path
  | .rename old new => dirs.Holds old ∧ dirs.Holds new
  | _ => True

/-- The name of the remote is refused or skipped by a mask, belongs to a request that is
processed and never put in place, or becomes the name of a file. -/
def InboundConf.Confines (conf : InboundConf) (fn : Bytes) : Prop :=
  conf.delays fn = true ∨ conf.skips fn = true ∨
    (conf.reqsAllow && hasType (conf.filetype fn) typeRequest) = true ∨
    FileName (conf.localName fn)

instance (component : Bytes) : Decidable (FileName component) :=
  decidable_of_iff (component ≠ [] ∧ 47 ∉ component ∧ component ≠ ascii "." ∧
      component ≠ ascii "..")
    ⟨fun ⟨named, single, entry⟩ => ⟨named, single, entry⟩, fun name =>
      ⟨name.named, name.single, name.entry⟩⟩

/-! ## Names -/

/-- A component with a byte that is no dot is the name of a file. -/
theorem fileName_of_byte (component : Bytes) (single : 47 ∉ component) (byte : UInt8)
    (member : byte ∈ component) (other : byte ≠ 46) : FileName component := by
  refine ⟨?_, single, ?_, ?_⟩
  · rintro rfl
    exact absurd member (by simp)
  · rintro rfl
    exact other (by simpa [ascii] using member)
  · rintro rfl
    exact other (by simpa [ascii] using member)

/-- Text that ends in the digits of a number is the name of a file. -/
theorem fileName_numbered (front digits : Bytes) (single : 47 ∉ front) (some : digits ≠ [])
    (graphic : ∀ byte ∈ digits, 48 ≤ byte.toNat) : FileName (front ++ digits) := by
  obtain ⟨byte, rest, rfl⟩ := List.exists_cons_of_ne_nil some
  have clear : ∀ char ∈ byte :: rest, char ≠ 47 ∧ char ≠ 46 := by
    intro char member
    have large := graphic char member
    constructor
    · rintro rfl
      exact absurd large (by decide)
    · rintro rfl
      exact absurd large (by decide)
  refine fileName_of_byte _ ?_ byte (by simp) (clear byte (by simp)).2
  intro present
  rcases List.mem_append.mp present with front | last
  · exact single front
  · exact (clear 47 last).1 rfl

/-- A local name has no separators. -/
theorem localName_no_separator (conf : InboundConf) (fn : Bytes) : 47 ∉ conf.localName fn := by
  unfold InboundConf.localName
  dsimp only
  split
  · exact tolower_no_separator _ (makesafe_no_separator _)
  · exact makesafe_no_separator _

/-- A temporary name lies in its directory. -/
theorem gettmpname_inside (inbound filename : Bytes) (addr : Faddr) (sz : Nat) (tm : Int)
    (single : 47 ∉ filename) : Inside inbound (pGettmpname inbound filename addr sz tm) := by
  unfold pGettmpname
  dsimp only
  generalize (getcrc32ccitt _).toNat = sum
  refine ⟨filename ++ ascii "." ++ printLongHex sum, by simp only [List.append_assoc], ?_⟩
  refine fileName_numbered _ _ ?_ (printLongHex_ne_nil _)
    (toDigits_graphic 16 _ (by decide) (by decide))
  intro present
  rcases List.mem_append.mp present with front | dot
  · exact single front
  · exact absurd dot (by decide)

/-- The characters an extension counts in are digits and letters. -/
theorem rotateChar_graphic (char next : UInt8) (rotated : rotateChar char = some next) :
    48 ≤ next.toNat := by
  unfold rotateChar at rotated
  split at rotated
  · rename_i counts
    cases rotated
    simp only [Bool.or_eq_true, Bool.and_eq_true, decide_eq_true_eq, UInt8.le_iff_toNat_le,
      UInt8.toNat_ofNat] at counts
    rw [UInt8.toNat_add]
    simp only [UInt8.toNat_ofNat]
    omega
  · split at rotated
    · cases rotated
      decide
    · split at rotated
      · cases rotated
        decide
      · cases rotated

/-- A search for a free name asks for what its turns ask for, and ends with a name made
in one of them. -/
theorem tryNames_ensures {σ : Type} {condition : InboundCall → Prop} {invariant : σ → Prop}
    {named : Bytes → Prop} {turn : σ → InboundProgram (Option (Bytes × σ))}
    (asks : ∀ path, condition (.access path))
    (turns : ∀ state, invariant state → Ensures condition
      (fun made => ∀ found ∈ made, named found.1 ∧ invariant found.2) (turn state))
    (tries : Nat) (state : σ) (initial : invariant state) :
    Ensures condition (fun result => ∀ path ∈ result, named path) (tryNames turn tries state) := by
  induction tries generalizing state with
  | zero => exact (ensures_done _ _ _).mpr nofun
  | succ tries inductionHypothesis =>
    refine ensures_bind (turns state initial) ?_
    rintro (_ | found) made
    · exact (ensures_done _ _ _).mpr nofun
    · obtain ⟨named, kept⟩ := made found rfl
      refine (ensures_call _ _ _ _).mpr ⟨asks _, fun reply => ?_⟩
      cases reply with
      | true => exact inductionHypothesis found.2 kept
      | false =>
        refine (ensures_done _ _ _).mpr fun path result => ?_
        split at result
        · cases result
        · cases result
          exact named

section Unique

variable {condition : InboundCall → Prop} (dirname : Bytes)

/-- A random name lies in the directory. -/
theorem randomName_inside (asks : condition .rand) (ext : Bytes) (plain : 47 ∉ ext) :
    Ensures condition (fun made => ∀ found ∈ made, Inside dirname found.1 ∧ True)
      (randomName dirname ext ()) := by
  refine (ensures_call _ _ _ _).mpr ⟨asks, fun number => (ensures_done _ _ _).mpr ?_⟩
  rintro _ ⟨⟩
  refine ⟨?_, trivial⟩
  have digits : ∀ byte ∈ printHex number, 48 ≤ byte.toNat := by
    intro byte member
    unfold printHex at member
    rcases List.mem_append.mp member with padding | digit
    · rw [List.eq_of_mem_replicate padding]
      decide
    · exact toDigits_graphic 16 number (by decide) (by decide) byte digit
  have some : printHex number ≠ [] := by
    unfold printHex
    intro empty
    exact Nat.toDigits_ne_nil (List.map_eq_nil_iff.mp (List.append_eq_nil_iff.mp empty).2)
  obtain ⟨byte, rest, shape⟩ := List.exists_cons_of_ne_nil some
  refine ⟨printHex number ++ ascii "." ++ ext, by simp only [List.append_assoc], ?_⟩
  refine fileName_of_byte _ ?_ byte (by simp [shape]) ?_
  · intro present
    simp only [List.mem_append] at present
    rcases present with (number | dot) | last
    · exact absurd (digits 47 number) (by decide)
    · exact absurd dot (by decide)
    · exact plain last
  · rintro rfl
    exact absurd (digits 46 (by simp [shape])) (by decide)

/-- Where a search for the name of a bundle is: at a character of the file's name. -/
def Rotating (place : Bytes × Nat) : Prop :=
  Inside dirname place.1 ∧ dirname.length ≤ place.2 ∧ place.2 < place.1.length

/-- A turn for a bundle stays within the file's name. -/
theorem rotateName_inside (separated : dirname.getLast? = some 47) (place : Bytes × Nat)
    (within : Rotating dirname place) :
    Ensures condition (fun made => ∀ found ∈ made, Inside dirname found.1 ∧
      Rotating dirname found.2) (rotateName place) := by
  obtain ⟨result, p⟩ := place
  obtain ⟨⟨component, rfl, name⟩, low, high⟩ := within
  dsimp only at low high
  unfold rotateName
  dsimp only
  cases rotated : rotateChar ((dirname ++ component).getD p 0) with
  | some char =>
    refine (ensures_done _ _ _).mpr ?_
    rintro _ ⟨⟩
    have graphic := rotateChar_graphic _ _ rotated
    rw [List.length_append] at high
    have inside : Inside dirname ((dirname ++ component).set p char) := by
      refine ⟨component.set (p - dirname.length) char, by rw [List.set_append_right _ _ low], ?_⟩
      refine fileName_of_byte _ ?_ char (List.mem_set (by omega) char) ?_
      · intro present
        rcases List.mem_or_eq_of_mem_set present with old | rfl
        · exact name.single old
        · exact absurd graphic (by decide)
      · rintro rfl
        exact absurd graphic (by decide)
    refine ⟨inside, inside, low, ?_⟩
    rw [List.length_set, List.length_append]
    exact high
  | none =>
    dsimp only
    split
    · exact (ensures_done _ _ _).mpr nofun
    · rename_i goes
      refine (ensures_done _ _ _).mpr ?_
      rintro _ ⟨⟩
      have inside : Inside dirname (dirname ++ component) := ⟨component, rfl, name⟩
      refine ⟨inside, inside, ?_, (by dsimp only; omega)⟩
      dsimp only
      by_contra below
      -- the position was that of the first character: before it stands the separator
      have first : p = dirname.length := by omega
      refine goes (.inr (.inr ?_))
      have some : 0 < dirname.length := by
        cases dirname with
        | nil => simp at separated
        | cons => simp
      rw [first, List.getD_eq_getElem?_getD, List.getElem?_append_left (by omega),
        ← List.getLast?_eq_getElem?, separated]
      rfl

/-- A number appended to a file's name. -/
theorem numberName_inside (front : Bytes) (single : 47 ∉ front) (number : Nat) :
    Ensures condition (fun made => ∀ found ∈ made, Inside dirname found.1 ∧ True)
      (numberName (dirname ++ front) number) := by
  refine (ensures_done _ _ _).mpr ?_
  rintro _ ⟨⟩
  refine ⟨⟨front ++ printNat (number + 1), by rw [List.append_assoc], ?_⟩, trivial⟩
  refine fileName_numbered _ _ single ?_ (toDigits_graphic 10 _ (by decide) (by decide))
  unfold printNat
  rw [ne_eq, List.map_eq_nil_iff]
  exact Nat.toDigits_ne_nil

/-- The other name of a file is one in the directory, or comes from the name it has
there. -/
theorem uniqueName_ensures (asks : condition .rand) (looks : ∀ path, condition (.access path))
    (named : Bytes → Prop) (fname : Bytes) (type : Nat) (single : 47 ∉ fname)
    (inside : ∀ path, Inside dirname path → named path) (here : named (dirname ++ fname))
    (rotates : Ensures condition (fun result => ∀ path ∈ result, named path)
      (tryNames rotateName maxTries (dirname ++ fname, (dirname ++ fname).length - 1))) :
    Ensures condition (fun result => ∀ path ∈ result, named path)
      (protUniqueName dirname fname type) := by
  unfold protUniqueName
  dsimp only
  split
  · refine (ensures_done _ _ _).mpr ?_
    rintro _ ⟨⟩
    exact here
  · split
    · refine ensures_weaken (tryNames_ensures looks (fun _ (_ : True) =>
        randomName_inside dirname asks _ ?_) _ _ trivial) fun result found path member =>
          inside path (found path member)
      split <;> decide
    · split
      · exact rotates
      · have numbers : ∀ front, 47 ∉ front → Ensures condition
            (fun result => ∀ path ∈ result, named path)
            (tryNames (numberName (dirname ++ front)) maxTries 0) := fun front single =>
          ensures_weaken (tryNames_ensures looks (fun number (_ : True) =>
            numberName_inside dirname front single number) _ _ trivial)
            fun result found path member => inside path (found path member)
        by_cases dot : (dirname ++ fname).getLast? = some 46
        · rw [if_pos dot]
          exact numbers fname single
        · rw [if_neg dot, List.append_assoc]
          refine numbers _ fun present => ?_
          rcases List.mem_append.mp present with front | last
          · exact single front
          · exact absurd last (by decide)

/-- The other name of a file lies in the directory too. -/
theorem uniqueName_inside (separated : dirname.getLast? = some 47) (asks : condition .rand)
    (looks : ∀ path, condition (.access path)) (fname : Bytes) (name : FileName fname)
    (type : Nat) :
    Ensures condition (fun result => ∀ path ∈ result, Inside dirname path)
      (protUniqueName dirname fname type) := by
  have here : Inside dirname (dirname ++ fname) := ⟨fname, rfl, name⟩
  refine uniqueName_ensures dirname asks looks (Inside dirname) fname type name.single
    (fun _ inside => inside) here ?_
  have some := List.length_pos_of_ne_nil name.named
  refine tryNames_ensures looks (rotateName_inside dirname separated) _ _ ⟨here, ?_, ?_⟩
  · dsimp only
    rw [List.length_append]
    omega
  · dsimp only
    rw [List.length_append]
    omega

end Unique

/-! ## The routines -/

namespace Received

/-- The temporary name of the record lies in its directory, and the file is not put in
place, or under the name of a file. -/
def Safe (conf : InboundConf) (dirs : InboundDirs) (recv : Received) : Prop :=
  ∀ path ∈ recv.fname, Inside dirs.tinbound path ∧
    ((conf.reqsAllow && hasType recv.type typeRequest) = true ∨ FileName recv.localName)

end Received

section Routines

variable (conf : InboundConf) (dirs : InboundDirs)

/-- What is ensured of the routines' requests and of the record they leave. -/
abbrev Safely {α : Type} (record : α → Received) (program : InboundProgram α) : Prop :=
  Ensures (InboundCall.Confined dirs) (fun result => (record result).Safe conf dirs) program

/-- A file is moved within the directories. -/
theorem move_confined (recv : Received) (inside : ∀ path ∈ recv.fname, Inside dirs.tinbound path)
    (name : FileName recv.localName) :
    Ensures (InboundCall.Confined dirs) (fun _ => True) (pMove2inbound conf dirs recv) := by
  have renames : ∀ destname, Inside dirs.inbound destname →
      Ensures (InboundCall.Confined dirs) (fun _ => True)
        (renameInbound conf recv destname) := by
    intro destname target
    unfold renameInbound
    split
    · exact (ensures_done _ _ _).mpr trivial
    · rename_i fname named
      refine (ensures_call _ _ _ _).mpr ⟨⟨.inr (inside fname named), .inl target⟩, ?_⟩
      rintro (_ | _)
      · exact (ensures_done _ _ _).mpr trivial
      · exact (ensures_call _ _ _ _).mpr ⟨trivial, fun _ => (ensures_done _ _ _).mpr trivial⟩
  refine (ensures_call _ _ _ _).mpr ⟨trivial, ?_⟩
  rintro (_ | _)
  · exact renames _ ⟨recv.localName, rfl, name⟩
  · refine ensures_bind (uniqueName_inside dirs.inbound dirs.separated trivial
      (fun _ => trivial) recv.localName name recv.type) ?_
    rintro (_ | uniqname) found
    · exact (ensures_done _ _ _).mpr trivial
    · exact renames uniqname (found uniqname rfl)

/-- A file is opened in the temporary directory. -/
theorem openReceived_safely (recv : Received) (tmpname : Bytes) (append : Bool)
    (inside : Inside dirs.tinbound tmpname)
    (safe : (conf.reqsAllow && hasType recv.type typeRequest) = true ∨ FileName recv.localName) :
    Safely conf dirs Prod.fst (openReceived conf dirs recv tmpname append) := by
  have opens : Safely conf dirs Prod.fst (openTemporary recv tmpname append) := by
    refine (ensures_call _ _ _ _).mpr ⟨.inr inside, ?_⟩
    rintro (_ | _)
    · exact (ensures_done _ _ _).mpr nofun
    · refine (ensures_done _ _ _).mpr ?_
      rintro _ ⟨⟩
      exact ⟨inside, safe⟩
  unfold openReceived
  dsimp only
  split
  · refine (ensures_call _ _ _ _).mpr ⟨trivial, fun free => ?_⟩
    split
    · refine (ensures_done _ _ _).mpr ?_
      rintro _ ⟨⟩
      exact ⟨inside, safe⟩
    · exact opens
  · exact opens

/-- What is found of the file before it is opened does not lead elsewhere. -/
theorem checkInbound_safely (recv : Received) (tmpname : Bytes)
    (inside : Inside dirs.tinbound tmpname) (fresh : recv.fname = none)
    (name : FileName recv.localName) :
    Safely conf dirs Prod.fst (checkInbound conf dirs recv tmpname) := by
  refine (ensures_call _ _ _ _).mpr ⟨trivial, fun found => ?_⟩
  split
  · refine (ensures_done _ _ _).mpr ?_
    simp [Received.Safe, fresh]
  · refine (ensures_call _ _ _ _).mpr ⟨trivial, fun temporary => ?_⟩
    split
    · exact openReceived_safely conf dirs recv tmpname false inside (.inr name)
    · split
      · refine ensures_bind (move_confined conf dirs _ ?_ name) fun moved _ => ?_
        · rintro _ ⟨⟩
          exact inside
        · cases moved
          · refine (ensures_done _ _ _).mpr ?_
            simp [Received.Safe, fresh]
          · refine (ensures_done _ _ _).mpr ?_
            simp [Received.Safe, fresh]
      · split
        · exact openReceived_safely conf dirs _ tmpname true inside (.inr name)
        · exact openReceived_safely conf dirs recv tmpname false inside (.inr name)

/-- A file whose name cannot leave the directories is opened in them. -/
theorem openNew_safely (addr : Faddr) (hint : FileHint) (confines : conf.Confines hint.fn) :
    Safely conf dirs Prod.fst (openNew conf dirs addr hint) := by
  have inside : Inside dirs.tinbound (pGettmpname dirs.tinbound (conf.localName hint.fn) addr
      hint.sz hint.tm) :=
    gettmpname_inside _ _ _ _ _ (localName_no_separator conf hint.fn)
  unfold openNew
  dsimp only
  split
  · exact (ensures_done _ _ _).mpr nofun
  · rename_i prompt
    split
    · exact (ensures_done _ _ _).mpr nofun
    · rename_i wanted
      have safe : (conf.reqsAllow && hasType (conf.filetype hint.fn) typeRequest) = true ∨
          FileName (conf.localName hint.fn) :=
        (confines.resolve_left prompt).resolve_left wanted
      split
      · exact openReceived_safely conf dirs _ _ false inside safe
      · rename_i plain
        refine checkInbound_safely conf dirs _ _ inside rfl (safe.resolve_left fun request => ?_)
        rw [Bool.and_eq_true] at request
        refine plain ?_
        simp only [receivedNew, request.2, Bool.true_or]

/-- Opening a file for receiving. -/
theorem openReceiving_safely (addr : Faddr) (hint : FileHint) (before : Option Received)
    (confines : conf.Confines hint.fn) (safe : ∀ recv ∈ before, recv.Safe conf dirs) :
    Safely conf dirs Prod.fst (openReceiving conf dirs addr hint before) := by
  unfold openReceiving
  split
  · exact openNew_safely conf dirs addr hint confines
  · split
    · exact (ensures_done _ _ _).mpr (safe _ rfl)
    · exact openNew_safely conf dirs addr hint confines

/-- A complete file is put in place within the directories. -/
theorem commitReceived_safely (recv : Received) (safe : recv.Safe conf dirs) :
    Safely conf dirs Prod.fst (commitReceived conf dirs recv) := by
  unfold commitReceived
  split
  · exact (ensures_done _ _ _).mpr safe
  · split
    · exact (ensures_done _ _ _).mpr safe
    · rename_i fname named
      obtain ⟨inside, placed⟩ := safe fname named
      refine (ensures_call _ _ _ _).mpr ⟨trivial, fun found => ?_⟩
      split
      · exact (ensures_done _ _ _).mpr safe
      · split
        · exact (ensures_call _ _ _ _).mpr ⟨trivial, fun _ => (ensures_call _ _ _ _).mpr
            ⟨.inr inside, fun _ => (ensures_done _ _ _).mpr safe⟩⟩
        · rename_i stored
          refine ensures_bind (move_confined conf dirs recv (fun path member =>
            (safe path member).1) (placed.resolve_left stored)) fun moved _ => ?_
          cases moved
          · exact (ensures_done _ _ _).mpr safe
          · exact (ensures_done _ _ _).mpr safe

/-- Closing a received file. -/
theorem closeReceiving_safely (recv : Received) (safe : recv.Safe conf dirs) :
    Safely conf dirs Prod.fst (closeReceiving conf dirs recv) := by
  have settles : ∀ recv : Received, recv.Safe conf dirs →
      Safely conf dirs Prod.fst (settleReceived conf dirs recv) := by
    intro recv safe
    have commits := commitReceived_safely conf dirs recv safe
    unfold settleReceived
    split
    · exact commits
    · rename_i fname named
      dsimp only
      split
      · exact (ensures_call _ _ _ _).mpr ⟨.inr (safe fname named).1, fun _ => commits⟩
      · have restricts := (ensures_call (InboundCall.Confined dirs)
          (fun result : Received × Bool => result.1.Safe conf dirs) (.chmod fname 0o600)
          (fun _ => commitReceived conf dirs recv)).mpr ⟨trivial, fun _ => commits⟩
        split
        · exact (ensures_call _ _ _ _).mpr ⟨trivial, fun _ => restricts⟩
        · exact restricts
  unfold closeReceiving
  split
  · refine (ensures_call _ _ _ _).mpr ⟨trivial, ?_⟩
    rintro (_ | _)
    · exact (ensures_done _ _ _).mpr safe
    · exact settles _ safe
  · exact settles recv safe

/-- Whatever a protocol does with files whose names cannot leave the directories, no
other name is passed to the system. -/
theorem receiving_confined (addr : Faddr) (ops : List ReceiveOp) (before : Option Received)
    (confines : ∀ hint, .open hint ∈ ops → conf.Confines hint.fn)
    (safe : ∀ recv ∈ before, recv.Safe conf dirs) :
    Requests (InboundCall.Confined dirs) (receiving conf dirs addr ops before) := by
  induction ops generalizing before with
  | nil => exact trivial
  | cons op ops inductionHypothesis =>
    have rest : ∀ before : Option Received, (∀ recv ∈ before, recv.Safe conf dirs) →
        Requests (InboundCall.Confined dirs) (receiving conf dirs addr ops before) :=
      fun before safe => inductionHypothesis before
        (fun hint member => confines hint (List.mem_cons_of_mem _ member)) safe
    cases op with
    | «open» hint =>
      obtain ⟨requests, yields⟩ := openReceiving_safely conf dirs addr hint before
        (confines hint List.mem_cons_self) safe
      refine (requests_bind_iff _ _ _).mpr ⟨requests, fun opened yielded => rest _ ?_⟩
      rintro _ ⟨⟩
      exact yields opened yielded
    | status status =>
      refine rest _ ?_
      cases before with
      | none => exact nofun
      | some recv =>
        rintro _ ⟨⟩
        exact safe recv rfl
    | close =>
      cases before with
      | none => exact rest none nofun
      | some recv =>
        obtain ⟨requests, yields⟩ := closeReceiving_safely conf dirs recv (safe recv rfl)
        refine (requests_bind_iff _ _ _).mpr ⟨requests, fun closed yielded => rest _ ?_⟩
        rintro _ ⟨⟩
        exact yields closed yielded

/-- A file can always be opened where there is room. -/
theorem openReceived_accepts (recv : Received) (tmpname : Bytes) (append : Bool) :
    Yields (openReceived conf dirs recv tmpname append)
      ({ recv with fname := some tmpname, opened := true }, .accept) := by
  have opens : Yields (openTemporary recv tmpname append)
      ({ recv with fname := some tmpname, opened := true }, .accept) :=
    (yields_call _ _ _).mpr ⟨true, .done _⟩
  unfold openReceived
  dsimp only
  split
  · refine (yields_call _ _ _).mpr ⟨2 ^ 64, ?_⟩
    rw [if_neg (Nat.lt_asymm (Nat.mod_lt _ (Nat.two_pow_pos 64)))]
    exact opens
  · exact opens

/-- A file no mask stops can be opened. -/
theorem openNew_accepts (addr : Faddr) (hint : FileHint) (prompt : conf.delays hint.fn = false)
    (wanted : conf.skips hint.fn = false) :
    ∃ tmpname, Yields (openNew conf dirs addr hint)
      ({ receivedNew conf hint with fname := some tmpname, opened := true }, .accept) := by
  unfold openNew
  dsimp only
  rw [if_neg (by simp [prompt]), if_neg (by simp [wanted])]
  split
  · exact ⟨_, openReceived_accepts conf dirs _ _ _⟩
  · refine ⟨pGettmpname dirs.tinbound (conf.localName hint.fn) addr hint.sz hint.tm,
      (yields_call _ _ _).mpr ⟨none, ?_⟩⟩
    rw [if_neg (by simp)]
    exact (yields_call _ _ _).mpr ⟨none, openReceived_accepts conf dirs _ _ _⟩

/-- A local name that follows the inbound directory within the directories is the name of
a file. -/
theorem holds_fileName (component : Bytes) (single : 47 ∉ component)
    (holds : dirs.Holds (dirs.inbound ++ component)) : FileName component := by
  rcases holds with ⟨other, same, name⟩ | ⟨other, same, -⟩
  · rw [List.append_cancel_left same]
    exact name
  · unfold InboundDirs.tinbound at same
    rw [List.append_assoc] at same
    have front := List.append_cancel_left same
    exact absurd (front ▸ (by simp [ascii] : (47 : UInt8) ∈ ascii "tmp/" ++ other)) single

/-- A name that leaves the directories is passed to the system where a file of that name
is received and the inbound directory cannot be searched. -/
theorem receiving_escapes (addr : Faddr) (fn : Bytes) (escapes : ¬ conf.Confines fn) :
    ¬ Requests (InboundCall.Confined dirs) (receiving conf dirs addr
      [.open ⟨fn, 0, 0⟩, .status .success, .close] none) := by
  intro requests
  simp only [InboundConf.Confines, not_or, Bool.not_eq_true] at escapes
  obtain ⟨prompt, wanted, stored, name⟩ := escapes
  obtain ⟨tmpname, opened⟩ := openNew_accepts conf dirs addr ⟨fn, 0, 0⟩ prompt wanted
  have closes := ((requests_bind_iff _ _ _).mp
    (((requests_bind_iff _ _ _).mp requests).2 _ opened)).1
  have settles := closes.2 true
  unfold settleReceived at settles
  simp only [receivedNew, reduceCtorEq, if_false, ne_eq, not_true_eq_false] at settles
  have commits := settles.2 true
  unfold commitReceived at commits
  simp only [ne_eq, not_true_eq_false, if_false] at commits
  have moves := commits.2 (some (0, 0))
  simp only [Option.map_some, not_true_eq_false, if_false, stored, Bool.false_eq_true] at moves
  have renames := ((requests_bind_iff _ _ _).mp moves).1.2 false
  exact name (holds_fileName dirs _ (localName_no_separator conf fn) renames.1.2)

end Routines

/-- The remote can make a protocol pass no name that leaves the directories exactly if
none of its names becomes one. -/
theorem paths_confined (conf : InboundConf) (dirs : InboundDirs) (addr : Faddr)
    (supplied : Bytes → Prop) :
    (∀ ops, (∀ hint, .open hint ∈ ops → supplied hint.fn) →
      Requests (InboundCall.Confined dirs) (receiving conf dirs addr ops none)) ↔
    ∀ fn, supplied fn → conf.Confines fn := by
  constructor
  · intro requests fn given
    by_contra escapes
    refine receiving_escapes conf dirs addr fn escapes (requests _ fun hint member => ?_)
    simp only [List.mem_cons, ReceiveOp.open.injEq, reduceCtorEq, List.not_mem_nil, or_false] at member
    exact member ▸ given
  · intro confines ops given
    exact receiving_confined conf dirs addr ops none
      (fun hint member => confines hint.fn (given hint member)) nofun

/-- An inbound directory without further settings. -/
def plainInbound : InboundConf where
  netName fname _ := fname
  filetype _ := 0
  localtogmt time := time

/-- A file called like the parent of the inbound directory is renamed to it. -/
theorem parent_renamed : ¬ Requests (InboundCall.Confined ⟨ascii "/in/", by decide⟩)
    (receiving plainInbound ⟨ascii "/in/", by decide⟩ {}
      [.open ⟨ascii "..", 0, 0⟩, .status .success, .close] none) := by
  refine receiving_escapes _ _ _ _ ?_
  rintro (delayed | skipped | stored | name)
  · exact absurd delayed (by decide)
  · exact absurd skipped (by decide)
  · exact absurd stored (by decide)
  · exact name.entry.2 (by decide)

end Binkleyforce
