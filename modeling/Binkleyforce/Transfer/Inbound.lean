import Binkleyforce.Library.Program
import Binkleyforce.Transfer.Files
import Binkleyforce.Util.FileNames

/-!
# The inbound directory

How the routines that receive files use the disk. A file is received under a temporary
name in the temporary inbound directory and renamed into the inbound directory when it is
complete. Where its name is taken there, another one is looked for first.

The routines are programs over the system calls they issue. The other parts of them, what
becomes of the record of the file, are those of the transfer routines; here the records
keep the names.
-/

namespace Binkleyforce

open Library Library.Program

/-- Another bit of a file's type: a description of a file in a file echo. -/
def typeTicfile : Nat := 0x004

/-! ## The directories -/

/-- `proc_path`: a configured directory ends with a separator. -/
def procPath (value : Bytes) : Bytes :=
  if value.getLast? = some 47 then value else value ++ [47]

/-- The inbound directory `session_set_inbound` chooses for a remote. -/
def inboundName (inboundDirectory : Option Bytes) (splitInbound : Bool) (addr : Faddr)
    (isProtected : Bool) : Bytes :=
  let inb := (inboundDirectory.map procPath).getD (ascii "./")
  if splitInbound then
    (inb ++ printInt addr.zone ++ ascii "." ++ printInt addr.net ++ ascii "." ++
      printInt addr.node ++ ascii "." ++ printInt addr.point ++ ascii "/" ++
      (if isProtected then ascii "pwd" else ascii "unchecked") ++ ascii "-in/").take (pathMax - 1)
  else inb

/-- `state.inbound`, which ends with a separator. -/
structure InboundDirs where
  inbound : Bytes
  separated : inbound.getLast? = some 47

/-- `state.tinbound`. -/
def InboundDirs.tinbound (dirs : InboundDirs) : Bytes := dirs.inbound ++ ascii "tmp/"

/-- What is found at the name of the temporary inbound directory. -/
inductive TinboundAnswer where
  | directory (permitted : Bool)
  | file
  | missing (made : Bool)
  | error
  deriving DecidableEq, Repr

/-- The name of an inbound directory that is not cut off ends with a separator. -/
theorem inboundName_separated (inboundDirectory : Option Bytes) (splitInbound : Bool)
    (addr : Faddr) (isProtected : Bool)
    (short : (inboundName inboundDirectory splitInbound addr isProtected).length < pathMax - 1) :
    (inboundName inboundDirectory splitInbound addr isProtected).getLast? = some 47 := by
  unfold inboundName at short ⊢
  dsimp only at short ⊢
  split at short
  · rename_i divided
    rw [List.length_take] at short
    rw [if_pos divided, List.take_of_length_le (by omega), List.getLast?_append]
    rfl
  · rename_i whole
    rw [if_neg whole]
    cases inboundDirectory with
    | none => rfl
    | some value =>
      simp only [Option.map_some, Option.getD_some]
      unfold procPath
      split
      · assumption
      · simp

/-- `session_set_inbound`: the directories of a session, unless the temporary one cannot
be used. The system calls take no name that does not fit into `PATH_MAX` bytes. -/
def sessionSetInbound (inboundDirectory : Option Bytes) (splitInbound : Bool) (addr : Faddr)
    (isProtected : Bool) (answer : TinboundAnswer) : Option InboundDirs :=
  if short : (inboundName inboundDirectory splitInbound addr isProtected ++ ascii "tmp/").length <
      pathMax then
    if answer = .directory true ∨ answer = .missing true then
      some ⟨inboundName inboundDirectory splitInbound addr isProtected,
        inboundName_separated _ _ _ _ (by
          have tmp : (ascii "tmp/").length = 4 := by decide
          rw [List.length_append, tmp] at short
          unfold pathMax at short ⊢
          omega)⟩
    else none
  else none

/-! ## The records and the system calls -/

/-- `mode_*`: the permissions files are given by their type. -/
structure FileModes where
  netmail : Nat := 0
  arcmail : Nat := 0
  request : Nat := 0
  ticfile : Nat := 0
  default : Nat := 0

/-- The configuration of the receiving routines: further the table of `recode_file_in`,
`recieved_to_lower`, the permissions, and whether file requests are processed
(`REQS_ALLOW`). -/
structure InboundConf extends TransferConf where
  recodeTable : UInt8 → UInt8 := id
  recievedToLower : Bool := false
  modes : FileModes := {}
  reqsAllow : Bool := false

/-- The part of `s_finfo` of a file being received that concerns its names. -/
structure Received where
  netName : Bytes
  localName : Bytes
  fname : Option Bytes := none
  type : Nat
  modTime : Int
  bytesTotal : Nat
  bytesSkipped : Nat := 0
  status : Fstat := .process
  opened : Bool := false
  deriving DecidableEq, Repr

/-- The system calls of the routines. One with a null pointer for a name fails, and is
left out. -/
inductive InboundCall where
  | access (path : Bytes)
  | stat (path : Bytes)
  | fopen (path : Bytes) (append : Bool)
  | fclose
  | rename (old new : Bytes)
  | unlink (path : Bytes)
  | chmod (path : Bytes) (mode : Nat)
  | utime (path : Bytes)
  | getfreespace (path : Bytes)
  | rand
  | reqProc (path : Bytes)
  deriving DecidableEq, Repr

/-- The replies: the time and size of a file, a number, or success. -/
abbrev InboundReply : InboundCall → Type
  | .stat _ => Option (Int × Nat)
  | .getfreespace _ => Nat
  | .rand => Nat
  | .reqProc _ => Unit
  | _ => Bool

/-- A program over the system calls. -/
abbrev InboundProgram := Program InboundCall InboundReply

/-! ## Names -/

/-- `p_gettmpname`. -/
def pGettmpname (inbound filename : Bytes) (addr : Faddr) (sz : Nat) (tm : Int) : Bytes :=
  let bbuf := ftnAddrstr addr ++ ascii " " ++ printLongHex sz ++ ascii " " ++
    printLongHex (longBits tm)
  inbound ++ filename ++ ascii "." ++ printLongHex (getcrc32ccitt bbuf).toNat

/-- The local name `p_rx_fopen` makes of the name the remote gives. -/
def InboundConf.localName (conf : InboundConf) (fn : Bytes) : Bytes :=
  let name := fileNameMakesafe (recode conf.recodeTable (fileGetname (cstring fn)))
  if stringIsupper name && conf.recievedToLower then name.map tolower else name

/-- `MAX_TRIES`. -/
def maxTries : Nat := 1024

/-- The loops of `prot_unique_name`: a turn makes a name or gives up, and the next one is
made while there is a file of that name. The last one is not used even if it is free. -/
def tryNames {σ : Type} (turn : σ → InboundProgram (Option (Bytes × σ))) :
    Nat → σ → InboundProgram (Option Bytes)
  | 0, _ => .done none
  | tries + 1, state =>
    (turn state).bind fun
      | none => .done none
      | some (result, state) =>
        .call (.access result) fun
          | true => tryNames turn tries state
          | false => .done (if tries = 0 then none else some result)

/-- A turn for netmail and descriptions: a random name. -/
def randomName (dirname ext : Bytes) (_ : Unit) : InboundProgram (Option (Bytes × Unit)) :=
  .call .rand fun number => .done (some (dirname ++ printHex number ++ ascii "." ++ ext, ()))

/-- The next of the characters the extension of a bundle counts in. -/
def rotateChar (char : UInt8) : Option UInt8 :=
  if (48 ≤ char && char ≤ 56) || (65 ≤ char && char ≤ 89) || (97 ≤ char && char ≤ 121) then
    some (char + 1)
  else if char = 57 then some 97
  else if char = 122 then some 65
  else none

/-- A turn for bundles: the character at the position is counted on. Where it does not
count, the position moves back; the name is tried again as it is. -/
def rotateName : Bytes × Nat → InboundProgram (Option (Bytes × Bytes × Nat))
  | (result, p) =>
    match rotateChar (result.getD p 0) with
    | some char => .done (some (result.set p char, result.set p char, p))
    | none =>
      if p = 0 ∨ result.getD (p - 1) 0 = 46 ∨ result.getD (p - 1) 0 = 47 then .done none
      else .done (some (result, result, p - 1))

/-- A turn for other files: a number is appended. -/
def numberName (name : Bytes) (number : Nat) : InboundProgram (Option (Bytes × Nat)) :=
  .done (some (name ++ printNat (number + 1), number + 1))

/-- `prot_unique_name`. -/
def protUniqueName (dirname fname : Bytes) (type : Nat) : InboundProgram (Option Bytes) :=
  let result := dirname ++ fname
  if hasType type typeRequest then .done (some result)
  else if hasType type typeNetmail || hasType type typeTicfile then
    tryNames (randomName dirname (if hasType type typeNetmail then ascii "pkt" else ascii "tic"))
      maxTries ()
  else if hasType type typeArcmail then tryNames rotateName maxTries (result, result.length - 1)
  else
    tryNames (numberName (if result.getLast? = some 46 then result else result ++ [46])) maxTries 0

/-! ## The routines -/

/-- The permissions of a file that is put in place. -/
def receivedMode (modes : FileModes) (type : Nat) : Nat :=
  let fmode :=
    if hasType type typeNetmail then modes.netmail
    else if hasType type typeArcmail then modes.arcmail
    else if hasType type typeRequest then modes.request
    else if hasType type typeTicfile then modes.ticfile
    else 0
  let fmode := if fmode = 0 then modes.default else fmode
  if fmode = 0 then 0o600 else fmode

section Routines

variable (conf : InboundConf) (dirs : InboundDirs)

/-- The end of `p_move2inbound`: the file is given the name. -/
def renameInbound (recv : Received) (destname : Bytes) : InboundProgram Bool :=
  match recv.fname with
  | none => .done false
  | some fname =>
    .call (.rename fname destname) fun
      | false => .done false
      | true => .call (.chmod destname (receivedMode conf.modes recv.type)) fun _ => .done true

/-- `p_move2inbound`; the flag is the zero return. -/
def pMove2inbound (recv : Received) : InboundProgram Bool :=
  .call (.access (dirs.inbound ++ recv.localName)) fun
    | false => renameInbound conf recv (dirs.inbound ++ recv.localName)
    | true =>
      (protUniqueName dirs.inbound recv.localName recv.type).bind fun
        | none => .done false
        | some uniqname => renameInbound conf recv uniqname

/-- The file is opened under its temporary name. -/
def openTemporary (recv : Received) (tmpname : Bytes) (append : Bool) :
    InboundProgram (Received × RxOpen) :=
  .call (.fopen tmpname append) fun
    | false => .done ({ recv with status := .refused, fname := none }, .refuse)
    | true => .done ({ recv with fname := some tmpname, opened := true }, .accept)

/-- The end of `p_rx_fopen`: check the free space and open the file. -/
def openReceived (recv : Received) (tmpname : Bytes) (append : Bool) :
    InboundProgram (Received × RxOpen) :=
  let needed := (conf.minFreeSpace + recv.bytesTotal + 2 ^ 64 - recv.bytesSkipped) % 2 ^ 64
  if 0 < conf.minFreeSpace then
    .call (.getfreespace dirs.inbound) fun free =>
      if free < needed then
        .done ({ recv with fname := some tmpname, status := .refused }, .refuse)
      else openTemporary recv tmpname append
  else openTemporary recv tmpname append

/-- The checks of `p_rx_fopen` for the temporary file. One that is complete is put in
place at once. -/
def checkTemporary (recv : Received) (tmpname : Bytes) : InboundProgram (Received × RxOpen) :=
  .call (.stat tmpname) fun
    | none => openReceived conf dirs recv tmpname false
    | some (mtime, size) =>
      if recv.modTime = conf.localtogmt mtime ∧ recv.bytesTotal = size then
        (pMove2inbound conf dirs { recv with fname := some tmpname }).bind fun
          | true => .done ({ recv with status := .skipped }, .skip)
          | false => .done ({ recv with status := .refused }, .refuse)
      else if recv.modTime = conf.localtogmt mtime ∧ size ≤ recv.bytesTotal then
        openReceived conf dirs { recv with bytesSkipped := size } tmpname true
      else openReceived conf dirs recv tmpname false

/-- The checks of `p_rx_fopen` for a file that is neither netmail nor a request. -/
def checkInbound (recv : Received) (tmpname : Bytes) : InboundProgram (Received × RxOpen) :=
  .call (.stat (dirs.inbound ++ recv.localName)) fun found =>
    if found.map (fun there => (conf.localtogmt there.1, there.2)) =
        some (recv.modTime, recv.bytesTotal) then
      .done ({ recv with status := .skipped }, .skip)
    else checkTemporary conf dirs recv tmpname

/-- The masks of files that are delayed or skipped. -/
def InboundConf.delays (conf : InboundConf) (fn : Bytes) : Bool :=
  conf.delayFilesRecv.any (checkmasks · fn)

@[inherit_doc InboundConf.delays]
def InboundConf.skips (conf : InboundConf) (fn : Bytes) : Bool :=
  conf.skipFilesRecv.any (checkmasks · fn)

/-- The record of a file that is announced. -/
def receivedNew (hint : FileHint) : Received where
  netName := hint.fn
  localName := conf.localName hint.fn
  type := conf.filetype hint.fn
  modTime := hint.tm
  bytesTotal := hint.sz

/-- `p_rx_fopen` for a file that is not the current one. -/
def openNew (addr : Faddr) (hint : FileHint) : InboundProgram (Received × RxOpen) :=
  let recv := receivedNew conf hint
  let tmpname := pGettmpname dirs.tinbound recv.localName addr recv.bytesTotal recv.modTime
  if conf.delays hint.fn then .done ({ recv with status := .refused }, .refuse)
  else if conf.skips hint.fn then .done ({ recv with status := .skipped }, .skip)
  else if hasType recv.type typeRequest || hasType recv.type typeNetmail then
    openReceived conf dirs recv tmpname false
  else checkInbound conf dirs recv tmpname

/-- The answer `p_rx_fopen` gives at once for the current file. -/
def Received.duplicate (recv : Received) (hint : FileHint) : Option RxOpen :=
  if (⟨recv.netName, recv.bytesTotal, recv.modTime⟩ : FileHint) = hint then
    if recv.opened then some .accept
    else if recv.status = .skipped then some .skip
    else if recv.status = .refused then some .refuse
    else none
  else none

/-- `p_rx_fopen`, with the file being received before. -/
def openReceiving (addr : Faddr) (hint : FileHint) (before : Option Received) :
    InboundProgram (Received × RxOpen) :=
  match before with
  | none => openNew conf dirs addr hint
  | some recv =>
    match recv.duplicate hint with
    | some result => .done (recv, result)
    | none => openNew conf dirs addr hint

/-- The end of `p_rx_fclose`: check the size of a complete file and put it in place, or
process it as a file request. -/
def commitReceived (recv : Received) : InboundProgram (Received × Bool) :=
  if recv.status ≠ .success then .done (recv, false)
  else
    match recv.fname with
    | none => .done ({ recv with status := .refused }, false)
    | some fname =>
      .call (.stat fname) fun found =>
        if found.map Prod.snd ≠ some recv.bytesTotal then
          .done ({ recv with status := .refused }, false)
        else if conf.reqsAllow && hasType recv.type typeRequest then
          .call (.reqProc fname) fun _ => .call (.unlink fname) fun _ => .done (recv, true)
        else
          (pMove2inbound conf dirs recv).bind fun
            | true => .done (recv, true)
            | false => .done ({ recv with status := .refused }, false)

/-- `p_rx_fclose` after the stream is closed: the temporary file of a skipped file is
removed, that of any other gets its time and permissions. -/
def settleReceived (recv : Received) : InboundProgram (Received × Bool) :=
  match recv.fname with
  | none => commitReceived conf dirs recv
  | some fname =>
    let restrict : InboundProgram (Received × Bool) :=
      .call (.chmod fname 0o600) fun _ => commitReceived conf dirs recv
    if recv.status = .skipped then .call (.unlink fname) fun _ => commitReceived conf dirs recv
    else if recv.modTime ≠ 0 then .call (.utime fname) fun _ => restrict
    else restrict

/-- `p_rx_fclose`; the flag is the zero return. -/
def closeReceiving (recv : Received) : InboundProgram (Received × Bool) :=
  if recv.opened then
    .call .fclose fun
      | false => .done ({ recv with opened := false }, false)
      | true => settleReceived conf dirs { recv with opened := false }
  else settleReceived conf dirs recv

/-- What a transfer protocol does with the receiving side: it opens and closes files, and
decides what became of them. -/
inductive ReceiveOp where
  | open (hint : FileHint)
  | status (status : Fstat)
  | close
  deriving DecidableEq, Repr

/-- The receiving side of a session, from the file being received. -/
def receiving (addr : Faddr) : List ReceiveOp → Option Received → InboundProgram (Option Received)
  | [], recv => .done recv
  | .open hint :: ops, recv =>
    (openReceiving conf dirs addr hint recv).bind fun opened => receiving addr ops (some opened.1)
  | .status status :: ops, recv =>
    receiving addr ops (recv.map fun recv => { recv with status })
  | .close :: ops, none => receiving addr ops none
  | .close :: ops, some recv =>
    (closeReceiving conf dirs recv).bind fun closed => receiving addr ops (some closed.1)

/-! ## The records of the transfer routines -/

/-- The record with the names describes a file of the transfer routines. -/
def Received.Describes (recv : Received) (finf : Finfo) : Prop :=
  (finf.netName, finf.type, finf.modTime, finf.bytesTotal, finf.bytesSkipped, finf.status,
    finf.fp.isSome) =
  (recv.netName, recv.type, recv.modTime, recv.bytesTotal, recv.bytesSkipped, recv.status,
    recv.opened)

/-- The end of `p_rx_fopen` does to the record what the transfer routine does. -/
theorem openReceived_describes (recv after : Received) (finf : Finfo) (tmpname : Bytes)
    (append : Bool) (result : RxOpen) (describes : recv.Describes finf)
    (shut : finf.fp.isSome = false)
    (yielded : Yields (openReceived conf dirs recv tmpname append) (after, result)) :
    ∃ freespace opened, ∀ answers : RxOpenAnswers, answers.freespace = freespace →
      answers.opened = opened →
      (rxOpenStream conf.toTransferConf answers finf).2 = result ∧
        after.Describes (rxOpenStream conf.toTransferConf answers finf).1 := by
  unfold Received.Describes at describes
  simp only [Prod.mk.injEq] at describes
  obtain ⟨netName, type, modTime, bytesTotal, bytesSkipped, status, opened⟩ := describes
  -- with room, the reply to `fopen` decides
  have opening : ∀ free, (0 < conf.minFreeSpace → ¬ free <
      (conf.minFreeSpace + recv.bytesTotal + 2 ^ 64 - recv.bytesSkipped) % 2 ^ 64) →
      Yields (openTemporary recv tmpname append) (after, result) →
      ∃ opened, ∀ answers : RxOpenAnswers, answers.freespace = free → answers.opened = opened →
        (rxOpenStream conf.toTransferConf answers finf).2 = result ∧
          after.Describes (rxOpenStream conf.toTransferConf answers finf).1 := by
    intro free room yielded
    obtain ⟨reply, yielded⟩ := (yields_call _ _ _).mp yielded
    refine ⟨reply, ?_⟩
    rintro answers rfl rfl
    unfold rxOpenStream
    dsimp only
    rw [if_neg (by rw [bytesTotal, bytesSkipped]; exact fun narrow => room narrow.1 narrow.2)]
    split at yielded
    · rename_i closed
      rw [closed]
      cases (yields_done _ _).mp yielded
      simp [Received.Describes, netName, type, modTime, bytesTotal, bytesSkipped, ← opened, shut]
    · rename_i opens
      rw [opens]
      cases (yields_done _ _).mp yielded
      simp [Received.Describes, netName, type, modTime, bytesTotal, bytesSkipped, status]
  unfold openReceived at yielded
  dsimp only at yielded
  split at yielded
  · rename_i limited
    obtain ⟨free, yielded⟩ := (yields_call _ _ _).mp yielded
    split at yielded
    · rename_i narrow
      refine ⟨free, true, ?_⟩
      rintro answers rfl -
      cases (yields_done _ _).mp yielded
      unfold rxOpenStream
      dsimp only
      rw [if_pos (by rw [bytesTotal, bytesSkipped]; exact ⟨limited, narrow⟩)]
      simp [Received.Describes, netName, type, modTime, bytesTotal, bytesSkipped, ← opened]
    · rename_i room
      obtain ⟨opened, agrees⟩ := opening free (fun _ => room) yielded
      exact ⟨free, opened, agrees⟩
  · rename_i unlimited
    obtain ⟨opened, agrees⟩ := opening 0 (fun limited => absurd limited unlimited) yielded
    exact ⟨0, opened, agrees⟩

/-- The checks of `p_rx_fopen` do to the record what those of the transfer routine do. -/
theorem checkInbound_describes (recv after : Received) (finf : Finfo) (tmpname : Bytes)
    (result : RxOpen) (describes : recv.Describes finf) (shut : finf.fp.isSome = false)
    (yielded : Yields (checkInbound conf dirs recv tmpname) (after, result)) :
    ∃ answers,
      let checked := rxExisting conf.toTransferConf answers finf
      let opened := match checked.2 with
        | some result => (checked.1, result)
        | none => rxOpenStream conf.toTransferConf answers checked.1
      opened.2 = result ∧ after.Describes opened.1 := by
  have same := describes
  unfold Received.Describes at same
  simp only [Prod.mk.injEq] at same
  obtain ⟨netName, type, modTime, bytesTotal, bytesSkipped, status, opened⟩ := same
  obtain ⟨found, yielded⟩ := (yields_call _ _ _).mp yielded
  split at yielded
  · rename_i there
    cases (yields_done _ _).mp yielded
    refine ⟨{ inbound := found }, ?_⟩
    unfold rxExisting
    rw [if_pos (by rw [modTime, bytesTotal]; exact there)]
    exact ⟨rfl, by simp [Received.Describes, netName, type, modTime, bytesTotal, bytesSkipped,
      ← opened, shut]⟩
  · rename_i elsewhere
    obtain ⟨temporary, yielded⟩ := (yields_call _ _ _).mp yielded
    split at yielded
    · obtain ⟨freespace, opened, agrees⟩ := openReceived_describes conf dirs _ after finf _ false
        result describes shut yielded
      refine ⟨{ inbound := found, freespace, opened }, ?_⟩
      unfold rxExisting
      rw [if_neg (by rw [modTime, bytesTotal]; exact elsewhere)]
      exact agrees _ rfl rfl
    · rename_i mtime size
      split at yielded
      · rename_i complete
        obtain ⟨moved, -, yielded⟩ := (yields_bind _ _ _).mp yielded
        refine ⟨{ inbound := found, temporary := some (mtime, List.replicate size 0), moved }, ?_⟩
        unfold rxExisting
        rw [if_neg (by rw [modTime, bytesTotal]; exact elsewhere)]
        dsimp only
        rw [if_pos (by rw [modTime, bytesTotal, List.length_replicate]; exact complete)]
        cases moved
        all_goals
          cases (yields_done _ _).mp yielded
          exact ⟨rfl, by simp [Received.Describes, netName, type, modTime, bytesTotal,
            bytesSkipped, ← opened, shut]⟩
      · rename_i incomplete
        split at yielded
        · rename_i part
          obtain ⟨freespace, opens, agrees⟩ := openReceived_describes conf dirs _ after
            { finf with bytesSkipped := size, bytesReceived := size } _ true result (by
              simp [Received.Describes, netName, type, modTime, bytesTotal, status, opened])
            shut yielded
          refine ⟨{
            inbound := found
            temporary := some (mtime, List.replicate size 0)
            freespace
            opened := opens }, ?_⟩
          unfold rxExisting
          rw [if_neg (by rw [modTime, bytesTotal]; exact elsewhere)]
          dsimp only
          rw [if_neg (by rw [modTime, bytesTotal, List.length_replicate]; exact incomplete),
            if_pos (by rw [modTime, bytesTotal, List.length_replicate]; exact part),
            List.length_replicate]
          exact agrees _ rfl rfl
        · rename_i other
          obtain ⟨freespace, opens, agrees⟩ := openReceived_describes conf dirs _ after finf _
            false result describes shut yielded
          refine ⟨{
            inbound := found
            temporary := some (mtime, List.replicate size 0)
            freespace
            opened := opens }, ?_⟩
          unfold rxExisting
          rw [if_neg (by rw [modTime, bytesTotal]; exact elsewhere)]
          dsimp only
          rw [if_neg (by rw [modTime, bytesTotal, List.length_replicate]; exact incomplete),
            if_neg (by rw [modTime, bytesTotal, List.length_replicate]; exact other)]
          exact agrees _ rfl rfl

/-- `p_rx_fopen` leaves the record of the transfer routine, for some answers of the disk. -/
theorem openNew_describes (addr : Faddr) (hint : FileHint) (after : Received) (result : RxOpen)
    (yielded : Yields (openNew conf dirs addr hint) (after, result)) :
    ∃ answers, (rxNew conf.toTransferConf answers hint).2 = result ∧
      after.Describes (rxNew conf.toTransferConf answers hint).1 := by
  unfold openNew at yielded
  dsimp only at yielded
  unfold rxNew
  dsimp only
  split at yielded
  · rename_i delayed
    cases (yields_done _ _).mp yielded
    unfold InboundConf.delays at delayed
    simp only [if_pos delayed]
    exact ⟨{}, trivial, rfl⟩
  · rename_i prompt
    unfold InboundConf.delays at prompt
    simp only [if_neg prompt]
    split at yielded
    · rename_i skipped
      cases (yields_done _ _).mp yielded
      unfold InboundConf.skips at skipped
      simp only [if_pos skipped]
      exact ⟨{}, trivial, rfl⟩
    · rename_i wanted
      unfold InboundConf.skips at wanted
      simp only [if_neg wanted]
      split at yielded
      · rename_i plain
        obtain ⟨freespace, opened, agrees⟩ := openReceived_describes conf dirs
          (receivedNew conf hint) after
          { netName := hint.fn
            bytesTotal := hint.sz
            modTime := hint.tm
            type := conf.filetype hint.fn } _ false result rfl rfl yielded
        refine ⟨{ freespace, opened }, ?_⟩
        rw [if_pos (show (hasType (conf.filetype hint.fn) typeRequest ||
          hasType (conf.filetype hint.fn) typeNetmail) = true from plain)]
        exact agrees _ rfl rfl
      · rename_i other
        obtain ⟨answers, agrees⟩ := checkInbound_describes conf dirs (receivedNew conf hint)
          after
          { netName := hint.fn
            bytesTotal := hint.sz
            modTime := hint.tm
            type := conf.filetype hint.fn } _ result rfl rfl yielded
        refine ⟨answers, ?_⟩
        rw [if_neg (show ¬ (hasType (conf.filetype hint.fn) typeRequest ||
          hasType (conf.filetype hint.fn) typeNetmail) = true from other)]
        exact agrees

end Routines

end Binkleyforce
