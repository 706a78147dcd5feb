import Mathlib.Data.List.Forall2
import Binkleyforce.Binkp.SentStream
import Binkleyforce.Transfer.Receiving

/-!
# When a received file is complete

The receiving side of a transfer answers every file with M_GOT or M_SKIP: at once where
it does not want it, with its last data otherwise. Beside a run it is noted which files
the remote announced where they were expected, and how many bytes of the last one are
still to come. No answer is missing once there are none.
-/

namespace Binkleyforce

open Library

/-- The block is an M_GOT or M_SKIP. -/
def Block.confirms (block : Block) : Bool :=
  block.type = .cmd && (block.payload.head? = some Bpmsg.got.toByte ||
    block.payload.head? = some Bpmsg.skip.toByte)

/-- The block answers a file. -/
def answersFile (file : FileHint) (block : Block) : Prop :=
  ∃ skip : Bool, ∃ suffix,
    block = commandBlock (if skip then .skip else .got) (fileText file ++ suffix)

/-- What the remote has sent so far: the files it announced where they were expected, and
the number of bytes of the last one still to come. -/
structure Incoming where
  files : List FileHint := []
  left : Nat := 0
  deriving DecidableEq

namespace BinkpLoop

/-- The M_GOT and M_SKIP commands made so far and the one that waits to be made. -/
def confirmations (l : BinkpLoop) : List Block :=
  (l.produced ++ (l.state.extracmd.map fun waiting =>
    commandBlock waiting.1 waiting.2).toList).filter Block.confirms

/-- The file an M_FILE that is ready announces. -/
def fileArriving (l : BinkpLoop) (input : LoopInput) : Option Bpfinfo :=
  match l.command with
  | some (.file, arg) => (binkpParsfinfo arg true input.receiving.high).1
  | _ => none

/-- How many bytes of data are ready. -/
def dataArriving (l : BinkpLoop) : Nat :=
  match headerType l.readbuf with
  | .data => l.handedLength
  | .cmd => 0

variable (conf : BinkpConf)

/-- The states around the handing over of a block that is not kept. -/
def taking (l : BinkpLoop) (input : LoopInput) : Option (BinkpLoop × BinkpLoop) :=
  match l.handling conf input with
  | none => none
  | some (middle, handled) =>
    if middle.ready ∧ (middle.hand conf input).2 ≠ .keep then some (middle, handled) else none

/-- Note a block that was taken. An M_FILE at another offset than the expected one is
answered by an M_GET; the remote announces the file again. -/
def noteBlock (incoming : Incoming) (middle handled : BinkpLoop) (input : LoopInput) : Incoming :=
  match middle.fileArriving input with
  | some file =>
    if middle.state.frs ≠ .didget ∧ handled.state.frs = .didget then incoming
    else { files := incoming.files ++ [⟨file.fn, file.sz, file.tm⟩], left := file.sz - file.offs }
  | none => { incoming with left := incoming.left - middle.dataArriving }

/-- Note what is taken in a turn. -/
def note (incoming : Incoming) (l : BinkpLoop) (input : LoopInput) : Incoming :=
  match l.taking conf input with
  | none => incoming
  | some (middle, handled) => noteBlock incoming middle handled input

/-- The remote sends its files well: an M_FILE only where nothing of the last file is
left, no more data than is left, and no end of the batch where something is. Other
blocks do not end the session. -/
def WellSent (both : Incoming × BinkpLoop) (input : LoopInput) : Prop :=
  (∀ made ∈ both.2.batching conf input, made.batchRestarts = true → both.1.left = 0) ∧
  ∀ around ∈ both.2.taking conf input,
    around.1.dataArriving ≤ both.1.left ∧
    match around.1.fileArriving input with
    | some file => both.1.left = 0 ∧ file.offs ≤ file.sz
    | none => around.1.dataArriving = 0 → around.2.state.lastWaits = false

/-- `p_rx_fopen` accepts the file from the offset. -/
def accepts (l : BinkpLoop) (input : LoopInput) (file : Bpfinfo) : Bool :=
  match l.state.frs with
  | .data => false
  | .didget => l.state.pi.receiving.any fun finf =>
      pCompfinfo finf ⟨file.fn, file.sz, file.tm⟩ && decide (finf.bytesSkipped = file.offs) &&
        finf.fp.isSome
  | .nothing | .skipping =>
    match pRxFopen conf.files input.receiving.rxOpen ⟨file.fn, file.sz, file.tm⟩ l.state.pi with
    | (pi, .accept) => pi.receiving.any (·.bytesSkipped = file.offs)
    | _ => false

/-- No file is accepted of which nothing is left. -/
def NoneEmpty (both : Incoming × BinkpLoop) (input : LoopInput) : Prop :=
  ∀ around ∈ both.2.taking conf input, ∀ file ∈ around.1.fileArriving input,
    around.1.accepts conf input file = true → file.offs ≠ file.sz

/-- In every run in which the remote sends its files well, wherever nothing is left of
the last one, the session is not receiving data, and the files are answered one by one. -/
def Completes (start : BinkpLoop) (inputs : List LoopInput) : Prop :=
  ∀ past rest incoming l, inputs = past ++ rest →
    run (beside (step conf) (note conf)) ({}, start) past = .more (incoming, l) →
    Along (WellSent conf) (beside (step conf) (note conf)) ({}, start) past →
    incoming.left = 0 →
    l.state.frs ≠ .data ∧ List.Forall₂ answersFile incoming.files l.confirmations

instance (both : Incoming × BinkpLoop) (input : LoopInput) :
    Decidable (WellSent conf both input) := by
  unfold WellSent
  have : ∀ around : BinkpLoop × BinkpLoop, Decidable (match around.1.fileArriving input with
      | some file => both.1.left = 0 ∧ file.offs ≤ file.sz
      | none => around.1.dataArriving = 0 → around.2.state.lastWaits = false) := by
    intro around
    split <;> infer_instance
  infer_instance

instance (both : Incoming × BinkpLoop) (input : LoopInput) :
    Decidable (NoneEmpty conf both input) := by
  unfold NoneEmpty
  infer_instance

end BinkpLoop

namespace BinkpState

/-- The handling of a block leaves the receiving side alone, and queues no M_GOT or
M_SKIP. Or it ends the session. -/
inductive Aside (b after : BinkpState) : Prop where
  | last (waits : after.lastWaits = true)
  | same (frs : after.frs = b.frs) (receiving : after.pi.receiving = b.pi.receiving)
      (slot : after.extracmd = b.extracmd)
  | queued (frs : after.frs = b.frs) (receiving : after.pi.receiving = b.pi.receiving)
      (free : ¬ b.extracmd.isSome = true) (command : Bpmsg) (text : Bytes)
      (slot : after.extracmd = some (command, text)) (other : command ≠ .got ∧ command ≠ .skip)

section Aside

variable (conf : BinkpConf) (answers : ReceiveAnswers) (b : BinkpState) (arg : Pointer)

theorem Aside.moved {b before after : BinkpState} (aside : Aside before after)
    (frs : before.frs = b.frs) (receiving : before.pi.receiving = b.pi.receiving)
    (slot : before.extracmd = b.extracmd) : Aside b after := by
  cases aside with
  | last waits => exact .last waits
  | same sameFrs sameReceiving sameSlot =>
    exact .same (sameFrs.trans frs) (sameReceiving.trans receiving) (sameSlot.trans slot)
  | queued sameFrs sameReceiving free command text waits other =>
    exact .queued (sameFrs.trans frs) (sameReceiving.trans receiving) (slot ▸ free) command text
      waits other

theorem receiveADR_aside : Aside b (b.receiveADR conf arg).1 := by
  unfold receiveADR checkCalled refuse protoError
  dsimp only [touch, queue, check, addAddrs]
  repeat' split
  all_goals first
    | exact .last rfl
    | exact .same rfl rfl rfl
    | exact .queued rfl rfl ‹_› _ _ rfl ⟨nofun, nofun⟩

theorem receivePWD_aside (blockLength : Nat) :
    Aside b (b.receivePWD conf answers arg blockLength).1 := by
  unfold receivePWD refuse protoError authenticate lockAddrs
  dsimp only [touch, queue, check]
  repeat' split
  all_goals first
    | exact .last rfl
    | exact .same rfl rfl rfl

theorem receiveOK_aside : Aside b (b.receiveOK answers).1 := by
  unfold receiveOK refuse protoError lockAddrs
  dsimp only [touch, queue, check]
  repeat' split
  all_goals first
    | exact .last rfl
    | exact .same rfl rfl rfl

theorem receiveEOB_aside : Aside b b.receiveEOB.1 := by
  unfold receiveEOB protoError
  dsimp only [queue]
  split
  · exact .last rfl
  · exact .same rfl rfl rfl

theorem gotSkipNamed_aside (skip : Bool) (fi : FileHint) :
    Aside b (b.gotSkipNamed answers skip fi).1 := by
  have closed : ∀ (b : BinkpState) index status,
      Aside b (b.closeNamed answers.told index status) := by
    intro b index status
    have kept : (pTxFclose answers.told ({ b.pi with send := some index }.changeSend fun finf =>
        { finf with status })).receiving = b.pi.receiving := by
      rw [pTxFclose_receiving, changeSend_receiving]
      rfl
    unfold closeNamed checkConfirmed
    dsimp only
    split <;> exact .same rfl kept rfl
  unfold gotSkipNamed protoError
  dsimp only [queue]
  repeat' split
  all_goals first
    | exact .last rfl
    | exact (closed _ _ _).moved rfl rfl rfl

theorem receiveGotSkip_aside (skip : Bool) : Aside b (b.receiveGotSkip answers skip arg).1 := by
  unfold receiveGotSkip protoError
  dsimp only [touch, queue]
  repeat' split
  all_goals first
    | exact .last rfl
    | exact .same rfl rfl rfl
    | exact (gotSkipNamed_aside answers _ skip _).moved rfl (pTxFclose_receiving _) rfl
    | exact (gotSkipNamed_aside answers _ skip _).moved rfl rfl rfl

theorem announceAt_aside (before : BinkpState) (offset : Nat) (frs : before.frs = b.frs)
    (receiving : before.pi.receiving = b.pi.receiving) (slot : before.extracmd = b.extracmd)
    (free : ¬ b.extracmd.isSome = true) : Aside b (before.announceAt offset) := by
  unfold announceAt
  split
  · exact .same frs receiving slot
  · exact .queued frs receiving free _ _ rfl ⟨nofun, nofun⟩

theorem reopenAt_aside (getfi : Bpfinfo) (free : ¬ b.extracmd.isSome = true) :
    Aside b (b.reopenAt conf answers getfi).1 := by
  have opened := @pTxReopen_receiving b.pi conf.files.holdall ⟨getfi.fn, getfi.sz, getfi.tm⟩
  unfold reopenAt
  split
  · exact .last rfl
  · rename_i pi found
    rw [found] at opened
    have rewound := @pTxRewind_receiving pi getfi.offs
    split
    · exact .last rfl
    · rename_i sought
      rw [sought] at rewound
      exact announceAt_aside b _ getfi.offs rfl
        ((changeSend_receiving _).trans (rewound.trans opened)) rfl free

theorem rewindTo_aside (offset : Nat) (msg : Bytes) (free : ¬ b.extracmd.isSome = true) :
    Aside b (b.rewindTo answers offset msg).1 := by
  have rewound := @pTxRewind_receiving b.pi offset
  unfold rewindTo
  split
  · exact .last rfl
  · rename_i sought
    rw [sought] at rewound
    exact announceAt_aside b _ offset rfl ((changeSend_receiving _).trans rewound) rfl free

theorem receiveGET_aside : Aside b (b.receiveGET conf answers arg).1 := by
  unfold receiveGET protoError
  dsimp only [touch, queue]
  repeat' split
  all_goals first
    | exact .last rfl
    | exact .same rfl rfl rfl
    | exact (reopenAt_aside conf answers _ _ ‹_›).moved rfl rfl rfl
    | exact (rewindTo_aside answers _ _ _ ‹_›).moved rfl rfl rfl
    | exact announceAt_aside b _ _ rfl rfl rfl ‹_›

/-- Only M_FILE and data concern the receiving side. -/
theorem receiveCommand_aside (message : Bpmsg) (blockLength : Nat) (other : message ≠ .file) :
    Aside b (b.receiveCommand conf answers message arg blockLength).1 := by
  cases message with
  | nul => exact .same rfl rfl rfl
  | adr => exact receiveADR_aside conf b arg
  | pwd => exact receivePWD_aside conf answers b arg blockLength
  | file => exact absurd rfl other
  | ok => exact receiveOK_aside answers b
  | eob => exact receiveEOB_aside b
  | got => exact receiveGotSkip_aside answers b arg false
  | err => exact .same rfl rfl rfl
  | bsy => exact .same rfl rfl rfl
  | get => exact receiveGET_aside conf answers b arg
  | skip => exact receiveGotSkip_aside answers b arg true

end Aside

section Files

variable (conf : BinkpConf) (answers : ReceiveAnswers) (b : BinkpState) (arg : Pointer)

/-- A file was answered: its M_GOT or M_SKIP waits to be sent. -/
structure Replied (file : FileHint) (after : BinkpState) : Prop where
  frs : after.frs ≠ .data
  level : ∀ finf, after.pi.receiving = some finf → finf.Level
  slot : ∃ skip : Bool, ∃ suffix,
    after.extracmd = some (if skip then .skip else .got, fileText file ++ suffix)

/-- A file is received: these are its bytes still to come. -/
structure Receives (file : FileHint) (left : Nat) (after : BinkpState) : Prop where
  frs : after.frs = .data
  open_file : ∃ finf, after.pi.receiving = some finf ∧ finf.hint = file ∧
    finf.bytesReceived + left = finf.bytesTotal

theorem replyRecv_reply (message : Bpmsg) (offset : Bytes) (finf : Finfo)
    (current : b.pi.receiving = some finf) :
    b.replyRecv message offset = b.reply message (fileText finf.hint ++ offset) := by
  unfold replyRecv
  rw [current]

/-- What an M_FILE does where a file may start: it is received, asked for at another
offset, or answered. -/
theorem startFile_spec (recvfi : Bpfinfo) (level : ∀ finf, b.pi.receiving = some finf → finf.Level) :
    let file : FileHint := ⟨recvfi.fn, recvfi.sz, recvfi.tm⟩
    let after := b.startFile conf answers recvfi
    (after.1.frs = .data ∧ after.1.extracmd = b.extracmd ∧
      (match pRxFopen conf.files answers.rxOpen file b.pi with
        | (pi, .accept) => pi.receiving.any (·.bytesSkipped = recvfi.offs)
        | _ => false) = true ∧
      ∃ finf, after.1.pi.receiving = some finf ∧ finf.hint = file ∧ finf.Level ∧ finf.fp.isSome ∧
        finf.bytesSkipped = recvfi.offs) ∨
    (after.1.frs = .didget ∧ (∃ text, after.1.extracmd = some (.get, text)) ∧
      ∀ finf, after.1.pi.receiving = some finf → finf.Level) ∨
    (after.1.frs = .skipping ∧ Replied file after.1) := by
  obtain ⟨finf, current, named, fresh, opens⟩ := @pRxFopen_current b.pi conf.files
    answers.rxOpen ⟨recvfi.fn, recvfi.sz, recvfi.tm⟩ level
  unfold startFile
  dsimp only
  generalize pRxFopen conf.files answers.rxOpen ⟨recvfi.fn, recvfi.sz, recvfi.tm⟩ b.pi = opened at *
  obtain ⟨pi, result⟩ := opened
  dsimp only at current ⊢
  rw [current]
  dsimp only
  have replied := fun (message : Bpmsg) offset =>
    replyRecv_reply { b with pi } message offset finf current
  have fine : ∀ other, pi.receiving = some other → other.Level := by
    intro other same
    obtain rfl := Option.some.inj (current.symm.trans same)
    exact fresh
  cases result with
  | accept =>
    by_cases expected : finf.bytesSkipped = recvfi.offs
    · rw [if_pos expected]
      exact .inl ⟨rfl, rfl, by simp [current, expected], finf, current, named, fresh, opens rfl,
        expected⟩
    · rw [if_neg expected]
      rw [replied]
      exact .inr (.inl ⟨rfl, ⟨_, rfl⟩, fine⟩)
  | refuse =>
    dsimp only
    rw [replied, named]
    exact .inr (.inr ⟨rfl, nofun, fine, true, [], rfl⟩)
  | skip =>
    dsimp only
    rw [replied, named]
    exact .inr (.inr ⟨rfl, nofun, fine, false, [], rfl⟩)

/-- An M_FILE after an M_GET: the file asked for is received, another one is answered. -/
theorem resumeFile_spec (recvfi : Bpfinfo) (asked : b.frs = .didget)
    (level : ∀ finf, b.pi.receiving = some finf → finf.Level)
    (taken : (b.resumeFile answers recvfi).2 ≠ .keep) :
    let file : FileHint := ⟨recvfi.fn, recvfi.sz, recvfi.tm⟩
    let after := b.resumeFile answers recvfi
    (after.1.frs = .data ∧ after.1.extracmd = b.extracmd ∧
      (b.pi.receiving.any fun finf =>
        pCompfinfo finf file && decide (finf.bytesSkipped = recvfi.offs) && finf.fp.isSome) = true ∧
      ∃ finf, after.1.pi.receiving = some finf ∧ finf.hint = file ∧ finf.Level ∧ finf.fp.isSome ∧
        finf.bytesSkipped = recvfi.offs) ∨
    (after.1.frs = .didget ∧ b.extracmd = none ∧ Replied file after.1) := by
  unfold resumeFile at taken ⊢
  dsimp only at taken ⊢
  by_cases wanted : (b.pi.receiving.any fun finf =>
      pCompfinfo finf ⟨recvfi.fn, recvfi.sz, recvfi.tm⟩ &&
        decide (finf.bytesSkipped = recvfi.offs) && finf.fp.isSome) = true
  · rw [if_pos wanted]
    refine .inl ⟨rfl, rfl, wanted, ?_⟩
    obtain ⟨finf, current, found⟩ := (Option.any_eq_true _ _).mp wanted
    simp only [pCompfinfo, Bool.and_eq_true, decide_eq_true_eq] at found
    exact ⟨finf, current, found.1.1, level finf current, found.2, found.1.2⟩
  · rw [if_neg wanted] at taken ⊢
    by_cases waits : b.extracmd.isSome = true
    · rw [if_pos waits] at taken
      exact absurd rfl taken
    · rw [if_neg waits]
      refine .inr ⟨asked, by simpa using waits, fun data => absurd (asked.symm.trans data) nofun,
        level, true, ascii " " ++ printInt (toLong answers.garbage), ?_⟩
      exact congrArg (fun text => some (Bpmsg.skip, text)) (List.append_assoc _ _ _)

/-- The current file is closed with the answer to it. -/
theorem writeFailed_spec (file : FileHint) (finf : Finfo) (current : b.pi.receiving = some finf)
    (named : finf.hint = file) (result : RxWrite)
    (goes : (b.writeFailed answers result).2 ≠ .crashed) :
    (b.writeFailed answers result).1.frs = .skipping ∧
      Replied file (b.writeFailed answers result).1 := by
  obtain ⟨skip, answer⟩ : ∃ skip : Bool,
      (if result = .skip then Bpmsg.got else .skip) = if skip then .skip else .got := by
    cases result with
    | skip => exact ⟨false, rfl⟩
    | ok => exact ⟨true, rfl⟩
    | refuse => exact ⟨true, rfl⟩
  unfold writeFailed at goes ⊢
  rw [replyRecv_reply b _ [] finf current, named, answer] at goes ⊢
  dsimp only at goes ⊢
  split
  · rename_i closed
    rw [closed] at goes
    exact absurd rfl goes
  · rename_i pi done closed
    obtain ⟨changed, there, _, shut⟩ := pRxFclose_current answers.rxClose done finf current closed
    refine ⟨rfl, nofun, ?_, skip, [], rfl⟩
    intro other same
    obtain rfl := Option.some.inj (there.symm.trans same)
    intro opened
    rw [shut] at opened
    cases opened

/-- An M_FILE where no data is received resumes or starts a file. -/
theorem receiveFILE_parsed (recvfi : Bpfinfo) (mode : b.mode = .transfer)
    (parsed : (binkpParsfinfo arg true answers.high).1 = some recvfi) (frs : b.frs ≠ .data)
    (taken : (b.receiveFILE conf answers arg).2 ≠ .keep) :
    ∃ counted : BinkpState, counted.frs = b.frs ∧ counted.pi = b.pi ∧
      counted.extracmd = b.extracmd ∧
      ((b.frs = .didget ∧ b.receiveFILE conf answers arg = counted.resumeFile answers recvfi) ∨
        (b.frs ≠ .didget ∧ b.extracmd = none ∧
          b.receiveFILE conf answers arg = counted.startFile conf answers recvfi)) := by
  unfold receiveFILE at taken ⊢
  rw [if_neg (not_not.mpr mode)] at taken ⊢
  refine ⟨{ b.touch (binkpParsfinfo arg true answers.high).2 with
    batchRecvCount := b.batchRecvCount + 1 }, rfl, rfl, rfl, ?_⟩
  generalize binkpParsfinfo arg true answers.high = result at parsed taken ⊢
  obtain ⟨read, accesses⟩ := result
  dsimp only at parsed
  subst parsed
  dsimp only [touch] at taken ⊢
  cases status : b.frs with
  | data => exact absurd status frs
  | didget => exact .inl ⟨rfl, rfl⟩
  | _ =>
    rw [status] at taken
    dsimp only at taken ⊢
    by_cases waits : b.extracmd.isSome = true
    · rw [if_pos waits] at taken
      exact absurd rfl taken
    · exact .inr ⟨nofun, by simpa using waits, if_neg waits⟩

/-- An M_FILE that cannot be read ends the session. -/
theorem receiveFILE_invalid (invalid : (binkpParsfinfo arg true answers.high).1 = none) :
    (b.receiveFILE conf answers arg).1.lastWaits = true := by
  unfold receiveFILE
  generalize binkpParsfinfo arg true answers.high = result at invalid ⊢
  obtain ⟨read, accesses⟩ := result
  dsimp only at invalid
  subst invalid
  dsimp only
  split <;> rfl

/-- Data that was written completes the file, or more is to come. -/
theorem writeDone_spec (file : FileHint) (left blockLength : Nat) (finf : Finfo)
    (frs : b.frs = .data) (current : b.pi.receiving = some finf) (named : finf.hint = file)
    (so_far : finf.bytesReceived + left = finf.bytesTotal) (fits : blockLength ≤ left)
    (goes : (b.writeDone answers blockLength).2 ≠ .crashed) :
    let after := (b.writeDone answers blockLength).1
    (blockLength < left ∧ after.extracmd = b.extracmd ∧
      Receives file (left - blockLength) after) ∨
    (left - blockLength = 0 ∧ Replied file after) := by
  have counted : (b.pi.changeRecv fun finf =>
      { finf with bytesReceived := finf.bytesReceived + blockLength }).receiving =
        some { finf with bytesReceived := finf.bytesReceived + blockLength } := by
    rw [changeRecv_receiving, current]
    rfl
  unfold writeDone at goes ⊢
  dsimp only at goes ⊢
  rw [counted] at goes ⊢
  dsimp only at goes ⊢
  generalize b.pi.changeRecv (fun finf =>
    { finf with bytesReceived := finf.bytesReceived + blockLength }) = pi at counted goes ⊢
  rw [if_neg (by omega)] at goes ⊢
  by_cases complete : finf.bytesReceived + blockLength = finf.bytesTotal
  · rw [if_pos complete] at goes ⊢
    have marked : (pi.changeRecv fun finf => { finf with status := .success }).receiving =
        some { finf with
          bytesReceived := finf.bytesReceived + blockLength
          status := .success } := by
      rw [changeRecv_receiving, counted]
      rfl
    generalize pi.changeRecv (fun finf => { finf with status := .success }) = pi at marked goes ⊢
    right
    cases closed : pRxFclose answers.rxClose pi with
    | none =>
      rw [closed] at goes
      exact absurd rfl goes
    | some result =>
      obtain ⟨last, done⟩ := result
      obtain ⟨changed, there, same, shut⟩ :=
        pRxFclose_current answers.rxClose done _ marked closed
      have level : ∀ other, last.receiving = some other → other.Level := by
        intro other found
        obtain rfl := Option.some.inj (there.symm.trans found)
        intro opened
        rw [shut] at opened
        cases opened
      have name : changed.hint = file := same.trans named
      refine ⟨by omega, ?_⟩
      have replied := fun message => replyRecv_reply
        { b with frs := .nothing, pi := last } message [] changed there
      rw [name] at replied
      cases done with
      | true =>
        dsimp only
        rw [replied]
        exact ⟨nofun, level, false, [], rfl⟩
      | false =>
        dsimp only
        rw [replied]
        exact ⟨nofun, level, true, [], rfl⟩
  · rw [if_neg complete]
    exact .inl ⟨by omega, rfl, frs, _, counted, named, by dsimp only; omega⟩

/-- Data of a file that is received: more is to come, or the file is answered. -/
theorem receiveData_spec (file : FileHint) (left blockLength : Nat)
    (receives : Receives file left b) (some_data : blockLength ≠ 0) (fits : blockLength ≤ left)
    (taken : (b.receiveData answers arg blockLength).2 ≠ .keep)
    (goes : (b.receiveData answers arg blockLength).2 ≠ .crashed) :
    let after := (b.receiveData answers arg blockLength).1
    b.extracmd = none ∧
      ((blockLength < left ∧ after.extracmd = none ∧ Receives file (left - blockLength) after) ∨
        ((after.frs = .nothing → left - blockLength = 0) ∧ Replied file after)) := by
  obtain ⟨frs, finf, current, named, so_far⟩ := receives
  unfold receiveData at taken goes ⊢
  rw [if_neg some_data, frs] at taken goes ⊢
  dsimp only at taken goes ⊢
  by_cases waits : b.extracmd.isSome = true
  · rw [if_pos waits] at taken
    exact absurd rfl taken
  · rw [if_neg waits] at goes ⊢
    have free : b.extracmd = none := by simpa using waits
    refine ⟨free, ?_⟩
    cases written : pRxWritefile answers.rxWrite (arg.memory.take blockLength)
        (b.touch [.read blockLength arg.blockLength]).pi with
    | none =>
      rw [written] at goes
      exact absurd rfl goes
    | some given =>
      obtain ⟨pi, result⟩ := given
      rw [written] at goes
      obtain ⟨changed, there, same, counted⟩ :=
        pRxWritefile_current answers.rxWrite _ result finf current written
      have failed : ∀ result, (({ b.touch [.read blockLength arg.blockLength] with pi } :
          BinkpState).writeFailed answers result).2 ≠ .crashed →
          ((({ b.touch [.read blockLength arg.blockLength] with pi } :
            BinkpState).writeFailed answers result).1.frs = .nothing → left - blockLength = 0) ∧
          Replied file (({ b.touch [.read blockLength arg.blockLength] with pi } :
            BinkpState).writeFailed answers result).1 := by
        intro result goes
        obtain ⟨skips, replied⟩ := writeFailed_spec answers
          { b.touch [.read blockLength arg.blockLength] with pi } file changed there
          (same.trans named) result goes
        exact ⟨fun nothing => absurd (skips.symm.trans nothing) nofun, replied⟩
      cases result with
      | ok =>
        obtain more | done := writeDone_spec answers
          { b.touch [.read blockLength arg.blockLength] with pi } file left blockLength changed frs
          there (same.trans named) (by
            have total : changed.bytesTotal = finf.bytesTotal := congrArg FileHint.sz same
            rw [counted rfl, total]
            exact so_far) fits goes
        · exact .inl ⟨more.1, more.2.1.trans free, more.2.2⟩
        · exact .inr ⟨fun _ => done.1, done.2⟩
      | refuse => exact .inr (failed .refuse goes)
      | skip => exact .inr (failed .skip goes)

end Files

section Left

variable (conf : BinkpConf) (answers : ReceiveAnswers) (b : BinkpState) (arg : Pointer)

/-- A block that is kept leaves the receiving side and the command that waits alone. -/
def LeftAlone (b : BinkpState) (result : BinkpState × ReceiveResult) : Prop :=
  result.2 = .keep →
    result.1.frs = b.frs ∧ result.1.pi = b.pi ∧ result.1.extracmd = b.extracmd

theorem receiveADR_left : LeftAlone b (b.receiveADR conf arg) := by
  unfold receiveADR checkCalled refuse protoError LeftAlone
  dsimp only [touch, queue, check, addAddrs]
  repeat' split
  all_goals first
    | exact fun _ => ⟨rfl, rfl, rfl⟩
    | exact fun kept => ReceiveResult.noConfusion kept

theorem receivePWD_left (blockLength : Nat) :
    LeftAlone b (b.receivePWD conf answers arg blockLength) := by
  unfold receivePWD refuse protoError authenticate lockAddrs LeftAlone
  dsimp only [touch, queue, check]
  repeat' split
  all_goals first
    | exact fun _ => ⟨rfl, rfl, rfl⟩
    | exact fun kept => ReceiveResult.noConfusion kept

theorem receiveOK_left : LeftAlone b (b.receiveOK answers) := by
  unfold receiveOK refuse protoError lockAddrs LeftAlone
  dsimp only [touch, queue, check]
  repeat' split
  all_goals first
    | exact fun _ => ⟨rfl, rfl, rfl⟩
    | exact fun kept => ReceiveResult.noConfusion kept

theorem receiveFILE_left : LeftAlone b (b.receiveFILE conf answers arg) := by
  unfold receiveFILE resumeFile startFile protoError LeftAlone
  dsimp only [touch, queue]
  repeat' split
  all_goals first
    | exact fun _ => ⟨rfl, rfl, rfl⟩
    | exact fun kept => ReceiveResult.noConfusion kept

theorem receiveGET_leftAlone : LeftAlone b (b.receiveGET conf answers arg) := by
  by_cases waits : b.extracmd.isSome = true
  · unfold receiveGET LeftAlone
    dsimp only
    split
    · exact nofun
    · split
      · exact nofun
      · rw [if_pos (show (b.touch _).extracmd.isSome = true from waits)]
        exact fun _ => ⟨rfl, rfl, rfl⟩
  · exact fun kept => absurd kept (receiveGET_kept conf answers b arg waits)

theorem receiveData_left (blockLength : Nat) : LeftAlone b (b.receiveData answers arg blockLength) := by
  unfold receiveData writeDone writeFailed protoError LeftAlone
  dsimp only [touch, queue]
  repeat' split
  all_goals first
    | exact fun _ => ⟨rfl, rfl, rfl⟩
    | exact fun kept => ReceiveResult.noConfusion kept

theorem receiveCommand_left (message : Bpmsg) (blockLength : Nat) :
    LeftAlone b (b.receiveCommand conf answers message arg blockLength) := by
  cases message with
  | nul => exact nofun
  | adr => exact receiveADR_left conf b arg
  | pwd => exact receivePWD_left conf answers b arg blockLength
  | file => exact receiveFILE_left conf answers b arg
  | ok => exact receiveOK_left answers b
  | eob =>
    show LeftAlone b b.receiveEOB
    unfold receiveEOB
    split <;> exact nofun
  | got => exact fun kept => absurd kept (receiveGotSkip_kept answers b arg false)
  | err => exact nofun
  | bsy => exact nofun
  | get => exact receiveGET_leftAlone conf answers b arg
  | skip => exact fun kept => absurd kept (receiveGotSkip_kept answers b arg true)

end Left

section Making

variable (conf : BinkpConf) (b : BinkpState) (answers : SendAnswers)

/-- The making of a block leaves the receiving side alone, and makes no M_GOT or M_SKIP
that did not wait. -/
structure MakesOther (b : BinkpState) (made : BinkpState × SendResult) : Prop where
  frs : made.1.frs = b.frs
  receiving : made.1.pi.receiving = b.pi.receiving
  other : ∀ block last, made.2 = .block block last → block.confirms = false

theorem sendNextFile_other : MakesOther b (b.sendNextFile conf answers) := by
  have opened := @pTxFopen_receiving b.pi
    { conf.files with noRemoteaddr := b.remoteaddrs.isEmpty } answers.opening
  unfold sendNextFile sendFile sendEOB
  split
  · rename_i given
    rw [given] at opened
    refine ⟨rfl, opened, ?_⟩
    rintro block last ⟨⟩
    rfl
  · rename_i given
    rw [given] at opened
    dsimp only
    repeat' split
    all_goals
      refine ⟨rfl, opened, ?_⟩
      rintro block last made
      cases made
      try rfl

theorem awaitAck_other : MakesOther b (b.awaitAck conf answers) := by
  unfold awaitAck
  split
  · exact ⟨rfl, rfl, nofun⟩
  · split
    · exact ⟨rfl, rfl, nofun⟩
    · have next := sendNextFile_other conf { b with phase := 0 } answers
      exact ⟨next.frs, next.receiving, next.other⟩

theorem sendData_other : MakesOther b (b.sendData conf answers) := by
  unfold sendData
  split
  · exact ⟨rfl, rfl, nofun⟩
  · rename_i pi read
    have same := pTxReadfile_receiving _ _ _ _ read
    have next := awaitAck_other conf
      { b with
        pi := pi.changeSend fun finf => { finf with status := .waitack }
        phase := b.phase + 1 } answers
    exact ⟨next.frs, next.receiving.trans ((changeSend_receiving _).trans same), next.other⟩
  · rename_i pi bytes _ read
    have same := pTxReadfile_receiving _ _ _ _ read
    refine ⟨rfl, (changeSend_receiving _).trans same, ?_⟩
    rintro block last ⟨⟩
    rfl
  · rename_i read
    exact ⟨rfl, pTxReadfile_receiving _ _ _ _ read, nofun⟩
  · rename_i read
    exact ⟨rfl, pTxReadfile_receiving _ _ _ _ read, nofun⟩

theorem getforsend_other (free : b.extracmd = none) : MakesOther b (b.getforsend conf answers) := by
  unfold getforsend
  rw [free]
  dsimp only
  split
  · unfold transferForsend
    split
    · exact sendNextFile_other conf b answers
    · unfold sendFile
      split
      · exact ⟨rfl, rfl, nofun⟩
      · refine ⟨rfl, rfl, ?_⟩
        rintro block last ⟨⟩
        rfl
    · exact sendData_other conf b answers
    · exact awaitAck_other conf b answers
    · refine ⟨rfl, rfl, ?_⟩
      rintro block last ⟨⟩
      rfl
    · exact ⟨rfl, rfl, nofun⟩
    · exact ⟨rfl, rfl, nofun⟩
  · unfold handshakeForsend sendChallenge sendSysinfo sendAddress sendPassword handshakeEnd
      unrecognized
    dsimp only
    repeat' split
    all_goals
      refine ⟨rfl, rfl, ?_⟩
      rintro block last made
      cases made
      try rfl

end Making

end BinkpState

namespace BinkpLoop

/-- Every file so far was answered, or one is being received and all before it were. -/
inductive Answered (incoming : Incoming) (l : BinkpLoop) : Prop where
  | all (mode : l.state.mode = .transfer) (frs : l.state.frs ≠ .data)
      (complete : l.state.frs = .nothing → incoming.left = 0)
      (level : ∀ finf, l.state.pi.receiving = some finf → finf.Level)
      (answers : List.Forall₂ answersFile incoming.files l.confirmations)
  | one (mode : l.state.mode = .transfer) (files : List FileHint) (file : FileHint)
      (announced : incoming.files = files ++ [file]) (some_left : 0 < incoming.left)
      (receives : BinkpState.Receives file incoming.left l.state)
      (answers : List.Forall₂ answersFile files l.confirmations)

/-- What the receiving of files depends on. -/
def receivingView (l : BinkpLoop) :
    List Block × BinkpMode × FileReceiveStatus × Option Finfo :=
  (l.confirmations, l.state.mode, l.state.frs, l.state.pi.receiving)

section Answered

variable {conf : BinkpConf} {input : LoopInput} {incoming : Incoming}

theorem Answered.of_view {l after : BinkpLoop} (answered : Answered incoming l)
    (same : after.receivingView = l.receivingView) : Answered incoming after := by
  simp only [receivingView, Prod.mk.injEq] at same
  obtain ⟨confirmations, mode, frs, receiving⟩ := same
  cases answered with
  | all going apart complete level answers =>
    exact .all (mode.trans going) (frs ▸ apart) (frs ▸ complete) (receiving ▸ level)
      (confirmations ▸ answers)
  | one going files file announced some_left receives answers =>
    exact .one (mode.trans going) files file announced some_left
      ⟨frs.trans receives.frs, receiving ▸ receives.open_file⟩ (confirmations ▸ answers)

/-- A command that waits counts as soon as it waits. -/
theorem confirmations_waiting (l : BinkpLoop) (command : Bpmsg) (text : Bytes)
    (slot : l.state.extracmd = some (command, text)) :
    l.confirmations = (l.produced ++ [commandBlock command text]).filter Block.confirms := by
  unfold confirmations
  rw [slot]
  rfl

theorem confirmations_free (l : BinkpLoop) (slot : l.state.extracmd = none) :
    l.confirmations = l.produced.filter Block.confirms := by
  unfold confirmations
  rw [slot]
  simp

theorem confirmations_same (l : BinkpLoop) (after : BinkpState)
    (slot : after.extracmd = l.state.extracmd) :
    (l.withState after).confirmations = l.confirmations := by
  unfold confirmations
  dsimp only [withState]
  rw [slot]

/-- Making a block changes nothing about the files received. -/
theorem fetch_receiving (l made : BinkpLoop) (fetched : l.fetch conf input = .more made) :
    made.receivingView = l.receivingView := by
  have follows := fetch_preserved (follows_preserved conf l.state) input l ⟨rfl, id⟩
  rw [fetched] at follows
  have resumed : l.resume.receivingView = l.receivingView := by
    unfold resume
    split <;> rfl
  rw [← resumed]
  have mode : l.resume.state.mode = l.state.mode := by
    unfold resume
    split <;> rfl
  replace follows := follows.mode.trans mode.symm
  unfold fetch at fetched
  generalize l.resume = l at fetched follows
  split at fetched
  · unfold fetchNext at fetched
    have free := getforsend_extracmd conf l.state input.sending
    cases slot : l.state.extracmd with
    | some waiting =>
      obtain ⟨command, text⟩ := waiting
      have given : (l.state.getforsend conf input.sending).2 =
          .block (commandBlock command text) false ∧
          (l.state.getforsend conf input.sending).1.pi = l.state.pi ∧
          (l.state.getforsend conf input.sending).1.frs = l.state.frs := by
        unfold BinkpState.getforsend
        rw [slot]
        dsimp only
        split <;> exact ⟨rfl, rfl, rfl⟩
      rw [given.1] at fetched
      obtain ⟨produced, _, _, pi, emptied, _, frs⟩ := take_block _ _ _ _ fetched
      have answers : made.confirmations = l.confirmations := by
        rw [confirmations_free made (emptied.trans free), produced,
          confirmations_waiting l command text slot]
        rfl
      have same : made.state.pi.receiving = l.state.pi.receiving := by
        rw [pi]
        exact congrArg Protinfo.receiving given.2.1
      simp only [receivingView, answers, follows, frs.trans given.2.2, same]
    | none =>
      obtain ⟨frs, receiving, other⟩ := BinkpState.getforsend_other conf l.state input.sending slot
      have quiet : ∀ after : BinkpLoop,
          after.state = (l.state.getforsend conf input.sending).1 → after.produced = l.produced →
          after.receivingView = l.receivingView := by
        intro after state produced
        have mode := (BinkpState.getforsend_follows conf l.state input.sending).mode
        rw [receivingView, receivingView, confirmations_free after (state ▸ free), produced,
          confirmations_free l slot, state, mode, frs, receiving]
      cases given : (l.state.getforsend conf input.sending).2 with
      | block block last =>
        rw [given] at fetched
        obtain ⟨produced, _, _, pi, emptied, _, kept⟩ := take_block _ _ _ _ fetched
        have answers : made.confirmations = l.confirmations := by
          rw [confirmations_free made (emptied.trans free), produced, confirmations_free l slot,
            List.filter_append, List.filter_singleton, other block last given]
          exact List.append_nil _
        have same : made.state.pi.receiving = l.state.pi.receiving := by
          rw [pi]
          exact receiving
        simp only [receivingView, answers, follows, kept.trans frs, same]
      | nothing =>
        rw [given] at fetched
        injection fetched with same
        subst same
        exact quiet _ rfl rfl
      | noMore =>
        rw [given] at fetched
        injection fetched with same
        subst same
        exact quiet _ rfl rfl
      | error =>
        rw [given] at fetched
        cases fetched
      | crashed =>
        rw [given] at fetched
        cases fetched
  · injection fetched with same
    exact same ▸ rfl

/-- A block that is kept is left where it is. -/
theorem hand_kept (l : BinkpLoop) : BinkpState.LeftAlone l.state (l.hand conf input) := by
  refine hand_cases conf input l (BinkpState.LeftAlone l.state) ?_ ?_ ?_
  · exact fun _ => BinkpState.receiveData_left input.receiving l.state _ _
  · exact fun _ _ _ => nofun
  · exact fun message arg _ => BinkpState.receiveCommand_left conf input.receiving
      (l.state.touch _) arg message _

/-- What a block leaves where it was handed over. -/
theorem settle_view (middle handled : BinkpLoop)
    (settled : (middle.withState (middle.hand conf input).1).settle (middle.hand conf input).2 =
      .more handled) :
    handled.receivingView = (middle.withState (middle.hand conf input).1).receivingView ∧
      handled.state.lastWaits = (middle.hand conf input).1.lastWaits ∧
      (middle.hand conf input).2 ≠ .crashed := by
  cases given : (middle.hand conf input).2 with
  | crashed =>
    rw [given] at settled
    cases settled
  | _ =>
    rw [given] at settled
    injection settled with same
    exact ⟨same ▸ rfl, same ▸ rfl, nofun⟩

/-- A block beside the receiving side changes nothing about the files received. -/
theorem answered_aside (l : BinkpLoop) (after : BinkpState) (answered : Answered incoming l)
    (mode : after.mode = l.state.mode) (aside : BinkpState.Aside l.state after)
    (goes : after.lastWaits = false) : Answered incoming (l.withState after) := by
  refine answered.of_view ?_
  cases aside with
  | last waits =>
    rw [goes] at waits
    cases waits
  | same frs receiving slot =>
    unfold receivingView confirmations
    dsimp only [withState]
    rw [slot, mode, frs, receiving]
  | queued frs receiving free command text slot other =>
    have none : l.state.extracmd = none := by simpa using free
    unfold receivingView
    rw [confirmations_waiting _ command text slot, confirmations_free l none, List.filter_append]
    dsimp only [withState]
    rw [mode, frs, receiving]
    have plain : [commandBlock command text].filter Block.confirms = [] := by
      cases command <;> first | rfl | exact absurd rfl other.1 | exact absurd rfl other.2
    rw [plain, List.append_nil]

/-- A file that is answered joins the others. -/
theorem answered_replied (l : BinkpLoop) (after : BinkpState) (files : List FileHint)
    (file : FileHint) (left : Nat) (mode : after.mode = .transfer)
    (free : l.state.extracmd = none) (complete : after.frs = .nothing → left = 0)
    (replied : BinkpState.Replied file after)
    (answers : List.Forall₂ answersFile files l.confirmations) :
    Answered ⟨files ++ [file], left⟩ (l.withState after) := by
  obtain ⟨frs, level, skip, suffix, slot⟩ := replied
  refine .all mode frs complete level ?_
  rw [confirmations_waiting _ _ _ slot, List.filter_append]
  rw [confirmations_free l free] at answers
  refine List.rel_append answers ?_
  cases skip with
  | false => exact .cons ⟨false, suffix, rfl⟩ .nil
  | true => exact .cons ⟨true, suffix, rfl⟩ .nil

/-- Data that was taken from a buffer. -/
theorem receiveData_answered {middle : BinkpLoop} (answered : Answered incoming middle) {buf : Pointer}
    {handed : Nat} (fits : handed ≤ incoming.left)
    (taken : (middle.state.receiveData input.receiving buf handed).2 ≠ .keep)
    (goes : (middle.state.receiveData input.receiving buf handed).2 ≠ .crashed)
    (follows : middle.state.mode = .transfer →
      (middle.state.receiveData input.receiving buf handed).1.mode = .transfer) :
    Answered { incoming with left := incoming.left - handed }
      (middle.withState (middle.state.receiveData input.receiving buf handed).1) := by
  by_cases none : handed = 0
  · have same : middle.state.receiveData input.receiving buf handed =
        (middle.state, .accepted) := by
      unfold BinkpState.receiveData
      exact if_pos none
    rw [same, none]
    exact answered
  · cases answered with
    | all mode frs complete level answers =>
      cases status : middle.state.frs with
      | data => exact absurd status frs
      | nothing => exact absurd (complete status) (by omega)
      | _ =>
        have same : middle.state.receiveData input.receiving buf handed =
            (middle.state, .accepted) := by
          unfold BinkpState.receiveData
          rw [if_neg none, status]
        rw [same]
        exact .all mode frs (fun nothing => absurd (status.symm.trans nothing) nofun) level answers
    | one mode files file announced some_left receives answers =>
      replace follows := follows mode
      have spec := BinkpState.receiveData_spec input.receiving middle.state buf file incoming.left
        handed receives none fits taken goes
      generalize middle.state.receiveData input.receiving buf handed = result
        at follows spec ⊢
      obtain ⟨free, ⟨short, slot, more⟩ | ⟨complete, replied⟩⟩ := spec
      · refine .one follows files file announced (Nat.sub_pos_of_lt short) more ?_
        rw [confirmations_free middle free] at answers
        rw [confirmations_free (middle.withState _) slot]
        exact answers
      · rw [announced]
        exact answered_replied middle _ files file _ follows free complete replied answers

/-- Data that was taken. -/
theorem data_answered (middle : BinkpLoop) (answered : Answered incoming middle)
    (type : headerType middle.readbuf = .data) (fits : middle.handedLength ≤ incoming.left)
    (taken : (middle.hand conf input).2 ≠ .keep) (goes : (middle.hand conf input).2 ≠ .crashed) :
    Answered { incoming with left := incoming.left - middle.handedLength }
      (middle.withState (middle.hand conf input).1) := by
  have follows := (hand_follows conf input middle).mode
  have given : middle.hand conf input = middle.state.receiveData input.receiving
      ⟨middle.readPos - binkpHeader, 0, middle.readbuf.drop binkpHeader⟩ middle.handedLength := by
    unfold hand BinkpState.doreceiveblock
    rw [type]
  rw [given] at taken goes follows ⊢
  exact receiveData_answered answered fits taken goes fun mode => follows.trans mode

/-- An M_FILE that was taken. -/
theorem file_answered (middle : BinkpLoop) (answered : Answered incoming middle) (arg : Pointer)
    (found : middle.command = some (.file, arg)) (file : Bpfinfo)
    (parsed : (binkpParsfinfo arg true input.receiving.high).1 = some file)
    (empty : incoming.left = 0) (inside : file.offs ≤ file.sz)
    (bytes : middle.accepts conf input file = true → file.offs ≠ file.sz)
    (taken : (middle.hand conf input).2 ≠ .keep) :
    Answered (if middle.state.frs ≠ .didget ∧ (middle.hand conf input).1.frs = .didget then incoming
      else { files := incoming.files ++ [⟨file.fn, file.sz, file.tm⟩], left := file.sz - file.offs })
      (middle.withState (middle.hand conf input).1) := by
  have follows := (hand_follows conf input middle).mode
  cases answered with
  | one mode files file announced some_left => omega
  | all mode frs complete level answers =>
    rw [mode] at follows
    rw [hand_command conf input middle .file arg found] at follows taken ⊢
    have started := BinkpState.receiveFILE_parsed conf input.receiving
      (middle.state.touch [.read 1 (middle.readPos - binkpHeader)]) arg file mode parsed frs taken
    have same : (middle.state.touch [.read 1 (middle.readPos - binkpHeader)]).receiveCommand conf
        input.receiving .file arg middle.handedLength =
      (middle.state.touch [.read 1 (middle.readPos - binkpHeader)]).receiveFILE conf
        input.receiving arg := rfl
    rw [same] at follows taken ⊢
    generalize (middle.state.touch [.read 1 (middle.readPos - binkpHeader)]).receiveFILE conf
      input.receiving arg = result at started follows taken ⊢
    obtain ⟨counted, sameFrs, samePi, sameSlot, started⟩ := started
    replace sameFrs : counted.frs = middle.state.frs := sameFrs
    replace samePi : counted.pi = middle.state.pi := samePi
    replace sameSlot : counted.extracmd = middle.state.extracmd := sameSlot
    have received : ∀ finf : Finfo, result.1.frs = .data →
        result.1.extracmd = middle.state.extracmd → middle.accepts conf input file = true →
        result.1.pi.receiving = some finf → finf.hint = ⟨file.fn, file.sz, file.tm⟩ →
        finf.bytesReceived = file.offs →
        Answered { files := incoming.files ++ [⟨file.fn, file.sz, file.tm⟩], left := file.sz - file.offs }
          (middle.withState result.1) := by
      intro finf data slot accepted current named counted
      have differs := bytes accepted
      have total : finf.bytesTotal = file.sz := congrArg FileHint.sz named
      refine .one follows incoming.files _ rfl (by dsimp only; omega)
        ⟨data, finf, current, named, by dsimp only; omega⟩ ?_
      rw [confirmations_same middle result.1 slot]
      exact answers
    rcases started with ⟨asked, rfl⟩ | ⟨apart, free, rfl⟩
    · replace asked : middle.state.frs = .didget := asked
      rw [if_neg fun both => both.1 asked]
      rcases BinkpState.resumeFile_spec input.receiving counted file (sameFrs.trans asked)
          (samePi ▸ level) taken with
        ⟨data, slot, wanted, finf, current, named, even, opened, expected⟩ | ⟨still, free, replied⟩
      · refine received finf data (slot.trans sameSlot) ?_ current named
          ((even opened).trans expected)
        unfold accepts
        rw [asked, ← samePi]
        exact wanted
      · exact answered_replied middle _ incoming.files _ _ follows (sameSlot ▸ free)
          (fun nothing => absurd (still.symm.trans nothing) nofun) replied answers
    · replace apart : middle.state.frs ≠ .didget := apart
      replace free : middle.state.extracmd = none := free
      have unasked : ∀ status, (BinkpState.startFile conf input.receiving counted file).1.frs =
          status → status ≠ .didget → ¬ (middle.state.frs ≠ .didget ∧
            (BinkpState.startFile conf input.receiving counted file).1.frs = .didget) :=
        fun status is other both => other (is.symm.trans both.2)
      rcases BinkpState.startFile_spec conf input.receiving counted file (samePi ▸ level) with
        ⟨data, slot, wanted, finf, current, named, even, opened, expected⟩ |
          ⟨asks, ⟨text, slot⟩, fine⟩ | ⟨skips, replied⟩
      · rw [if_neg (unasked _ data nofun)]
        refine received finf data (slot.trans sameSlot) ?_ current named
          ((even opened).trans expected)
        unfold accepts
        rw [samePi] at wanted
        cases status : middle.state.frs with
        | data => exact absurd status frs
        | didget => exact absurd status apart
        | nothing => exact wanted
        | skipping => exact wanted
      · rw [if_pos ⟨apart, asks⟩]
        refine .all follows (fun data => absurd (asks.symm.trans data) nofun) (fun _ => empty) fine ?_
        rw [confirmations_waiting (middle.withState _) _ _ slot, List.filter_append]
        rw [confirmations_free middle free] at answers
        exact (List.append_nil _).symm ▸ answers
      · rw [if_neg (unasked _ skips nofun)]
        exact answered_replied middle _ incoming.files _ _ follows free
          (fun nothing => absurd (skips.symm.trans nothing) nofun) replied answers

/-- A block without a command ends the session. -/
theorem hand_invalid (l : BinkpLoop) (type : headerType l.readbuf = .cmd) (none : l.command = none) :
    (l.hand conf input).1.lastWaits = true := by
  refine hand_cases conf input l (fun after => after.1.lastWaits = true) ?_ ?_ ?_
  · intro data
    rw [type] at data
    cases data
  · exact fun _ _ _ => rfl
  · intro message arg found
    rw [none] at found
    cases found

/-- A block that was taken leaves the files answered. -/
theorem take_answered (middle handled : BinkpLoop) (answered : Answered incoming middle)
    (settled : (middle.withState (middle.hand conf input).1).settle (middle.hand conf input).2 =
      .more handled)
    (taken : (middle.hand conf input).2 ≠ .keep)
    (fits : middle.dataArriving ≤ incoming.left)
    (sent : match middle.fileArriving input with
      | some file => incoming.left = 0 ∧ file.offs ≤ file.sz
      | none => middle.dataArriving = 0 → handled.state.lastWaits = false)
    (bytes : ∀ file ∈ middle.fileArriving input, middle.accepts conf input file = true →
      file.offs ≠ file.sz) :
    Answered (noteBlock incoming middle handled input) handled := by
  obtain ⟨view, last, goes⟩ := settle_view middle handled settled
  refine Answered.of_view ?_ view
  have frs : handled.state.frs = (middle.hand conf input).1.frs := congrArg (·.2.2.1) view
  unfold noteBlock
  rw [frs]
  have mode : (middle.hand conf input).1.mode = middle.state.mode :=
    (hand_follows conf input middle).mode
  cases type : headerType middle.readbuf with
  | data =>
    have none : middle.fileArriving input = none := by simp [fileArriving, command, type]
    have all : middle.dataArriving = middle.handedLength := by simp [dataArriving, type]
    rw [none, all]
    rw [all] at fits
    exact data_answered middle answered type fits taken goes
  | cmd =>
    have none : middle.dataArriving = 0 := by simp [dataArriving, type]
    rw [none]
    rw [none, last] at sent
    cases found : middle.command with
    | none =>
      have quiet : middle.fileArriving input = .none := by simp [fileArriving, found]
      rw [quiet] at sent
      have waits := @hand_invalid conf input middle type found
      rw [sent rfl] at waits
      cases waits
    | some both =>
      obtain ⟨message, arg⟩ := both
      by_cases file : message = .file
      · subst file
        have arriving : middle.fileArriving input =
            (binkpParsfinfo arg true input.receiving.high).1 := by simp [fileArriving, found]
        cases parsed : (binkpParsfinfo arg true input.receiving.high).1 with
        | none =>
          rw [arriving, parsed] at sent
          have waits : (middle.hand conf input).1.lastWaits = true := by
            rw [hand_command conf input middle .file arg found]
            exact BinkpState.receiveFILE_invalid conf input.receiving _ arg parsed
          rw [sent rfl] at waits
          cases waits
        | some file =>
          rw [arriving, parsed] at sent bytes ⊢
          exact file_answered middle answered arg found file parsed sent.1 sent.2
            (bytes file rfl) taken
      · have quiet : middle.fileArriving input = .none := by
          unfold fileArriving
          rw [found]
          cases message <;> first | rfl | exact absurd rfl file
        rw [quiet] at sent ⊢
        have aside : BinkpState.Aside middle.state (middle.hand conf input).1 := by
          rw [hand_command conf input middle message arg found]
          exact (BinkpState.receiveCommand_aside conf input.receiving _ arg message _ file).moved rfl
            rfl rfl
        exact answered_aside middle _ answered mode aside (sent rfl)

/-- A turn in which the remote sends well leaves the files answered. -/
theorem step_answered (l after : BinkpLoop) (answered : Answered incoming l)
    (stepped : step conf l input = .more after) (sent : WellSent conf (incoming, l) input)
    (bytes : NoneEmpty conf (incoming, l) input) :
    Answered (note conf incoming l input) after := by
  obtain ⟨restarts, sends⟩ := sent
  obtain ⟨made, here, rest⟩ := step_more l after stepped
  obtain ⟨_, fetched⟩ := batching_some l made here
  have begun := answered.of_view (fetch_receiving l made fetched)
  rcases rest with ⟨again, rfl⟩ | ⟨again, middle, handled, arrived, handed, written⟩
  · have none : l.taking conf input = none := by simp [taking, handling, here, again]
    unfold note
    rw [none]
    have empty : incoming.left = 0 := restarts made here again
    cases begun with
    | all mode frs complete level answers => exact .all mode (by rintro ⟨⟩) (fun _ => empty) level answers
    | one mode files file announced some_left => omega
  · obtain ⟨complete, emptyloop, keysIn, state, _, produced, _⟩ :=
      arrive_more made middle input arrived
    have arrives : middle.receivingView = made.receivingView := by
      unfold receivingView confirmations
      rw [state, produced]
    have around := handling_some l made middle handled here again arrived handed
    have writes : after.receivingView = handled.receivingView := by
      have view := transmit_view handled after written
      simp only [sendingView, Prod.mk.injEq] at view
      obtain ⟨produced, mode, _, pi, slot, _⟩ := view
      unfold receivingView confirmations
      rw [produced, mode, pi, slot, (transmit_more input handled after written).1]
    replace begun := begun.of_view arrives
    refine Answered.of_view ?_ writes
    rcases handle_more conf input middle handled handed with ⟨unready, rfl⟩ | ⟨ready, _, settled⟩
    · have none : l.taking conf input = none := by
        simp [taking, Option.mem_def.mp around, unready]
      unfold note
      rw [none]
      exact begun
    · by_cases kept : (middle.hand conf input).2 = .keep
      · have none : l.taking conf input = none := by
          simp [taking, Option.mem_def.mp around, kept]
        unfold note
        rw [none]
        obtain ⟨frs, pi, slot⟩ := @hand_kept conf input middle kept
        refine begun.of_view ((settle_view middle handled settled).1.trans ?_)
        have mode : (middle.hand conf input).1.mode = middle.state.mode :=
          (hand_follows conf input middle).mode
        unfold receivingView
        rw [confirmations_same middle _ slot]
        dsimp only [withState]
        rw [mode, frs, pi]
      · have some : l.taking conf input = some (middle, handled) := by
          simp [taking, Option.mem_def.mp around, ready, kept]
        unfold note
        rw [some]
        obtain ⟨fits, well⟩ := sends _ some
        exact take_answered middle handled begun settled kept fits well
          (fun file member => bytes _ some file member)

end Answered

/-- In every run in which no empty file is accepted, the files of a remote that sends
well are answered one by one. -/
theorem files_answered (localData remoteData : BinkpSysinfo) (lists : FileLists)
    (addressEstablished isProtected : Bool) (remoteaddrs : List Sysaddr)
    (inputs : List LoopInput)
    (bytes : Along (NoneEmpty conf) (beside (step conf) (note conf))
      ({}, binkpTransfer localData remoteData (initProtinfo lists) addressEstablished isProtected
        remoteaddrs) inputs) :
    Completes conf (binkpTransfer localData remoteData (initProtinfo lists) addressEstablished
      isProtected remoteaddrs) inputs := by
  intro past rest incoming l split reached sent empty
  subst split
  have both := along_and _ _ _ _ past sent (along_front _ _ _ past rest bytes)
  have answered := run_reaches (fun both : Incoming × BinkpLoop => Answered both.1 both.2) (by
      rintro ⟨incoming, l⟩ input ⟨later, after⟩ answered ⟨sent, bytes⟩ stepped
      unfold beside at stepped
      dsimp only at stepped
      split at stepped
      · rename_i next taken
        cases stepped
        exact step_answered l after answered taken sent bytes
      · cases stepped) _
    (.all rfl (fun data => FileReceiveStatus.noConfusion data) (fun _ => rfl) (fun _ none => by
      simp [binkpTransfer, BinkpLoop.start, initProtinfo, Protinfo.receiving] at none) .nil) past
    both _ reached
  cases answered with
  | all _ frs _ _ answers => exact ⟨frs, answers⟩
  | one _ _ _ _ some_left => exact absurd empty (Nat.ne_of_gt some_left)

end BinkpLoop

/-- Turns in which the remote sends blocks, and a file of three bytes can be put in
place. -/
def receivesBlocks (blocks : List Block) : List LoopInput :=
  (lineTurns (.ofContent []) blocks 0).map fun input =>
    { input with receiving := { rxClose := { size := some 3 } } }

/-- A file in two pieces is received and put in place, the next one is not put there. -/
def twoReceived : List LoopInput :=
  receivesBlocks [commandBlock .file (ascii "f 3 0 0"), ⟨.data, ascii "ab"⟩, ⟨.data, ascii "c"⟩,
    commandBlock .file (ascii "g 2 0 0"), ⟨.data, ascii "xy"⟩]

/-- Both are answered. -/
theorem two_files_answered : BinkpLoop.Completes plainConf sendsNothing twoReceived :=
  BinkpLoop.files_answered {} {} { queue := [], filelist := [], reqsOnly := false } true
    false [] twoReceived (by decide)

/-- An empty file is accepted: no data of it comes, and it is never answered. -/
theorem empty_file_unanswered : ¬ BinkpLoop.Completes plainConf sendsNothing
    (receivesBlocks [commandBlock .file (ascii "e 0 0 0")]) := by
  have stuck : Along (BinkpLoop.WellSent plainConf)
      (beside (BinkpLoop.step plainConf) (BinkpLoop.note plainConf)) ({}, sendsNothing)
      (receivesBlocks [commandBlock .file (ascii "e 0 0 0")]) ∧
    (run (beside (BinkpLoop.step plainConf) (BinkpLoop.note plainConf)) ({}, sendsNothing)
      (receivesBlocks [commandBlock .file (ascii "e 0 0 0")])).Ends
        (fun both => both.1.left = 0 ∧ both.2.state.frs = .data) (fun _ _ => False) := by decide
  intro completes
  obtain ⟨sent, ends⟩ := stuck
  cases reached : run (beside (BinkpLoop.step plainConf) (BinkpLoop.note plainConf))
      ({}, sendsNothing) (receivesBlocks [commandBlock .file (ascii "e 0 0 0")]) with
  | halt both result =>
    rw [reached] at ends
    exact ends
  | more both =>
    rw [reached] at ends
    exact (completes _ [] both.1 both.2 (List.append_nil _).symm reached sent ends.1).1 ends.2

end Binkleyforce
