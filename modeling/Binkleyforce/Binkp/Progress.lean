import Binkleyforce.Binkp.Completion
import Binkleyforce.Binkp.Presence

/-!
# Whether a batch always goes on

The sending side is switched off when there is nothing more to send, and where a file
was announced without an offset and the remote has to ask for it. It is switched on
again by few of the received commands. Beside a run it is noted whether the M_EOB of
the batch was made, and which announcement the remote has not answered.
-/

namespace Binkleyforce

open Library

/-- What was said in the batch: its M_EOB, and the file that was announced without an
offset and not answered. -/
structure Said where
  eob : Bool := false
  unanswered : Option FileHint := none
  deriving DecidableEq

/-- The file the block announces without an offset, if it is the current one. -/
def openAnnouncement (current : Option Finfo) (block : Block) : Option FileHint :=
  current.bind fun finf =>
    if block = commandBlock .file (fileText finf.hint ++ ascii " -1") then some finf.hint else none

namespace BinkpLoop

variable (conf : BinkpConf)

/-- Note the block that was made. -/
def noteMade (said : Said) (l made : BinkpLoop) : Said :=
  match made.produced.drop l.produced.length with
  | [] => said
  | block :: _ =>
    { eob := said.eob || block = commandBlock .eob []
      unanswered := (openAnnouncement made.state.pi.sending block).or said.unanswered }

/-- Note an M_GET, M_GOT or M_SKIP that was taken. -/
def noteAnswer (said : Said) (middle : BinkpLoop) (input : LoopInput) : Said :=
  match middle.fileNamed input with
  | some (_, file) =>
    if said.unanswered = some ⟨file.fn, file.sz, file.tm⟩ then { said with unanswered := none }
    else said
  | none => said

/-- Note what is said in a turn. In a new batch nothing is said yet. -/
def noteSaid (said : Said) (l : BinkpLoop) (input : LoopInput) : Said :=
  match l.batching conf input with
  | none => said
  | some made =>
    if made.batchRestarts then {}
    else
      match l.taking conf input with
      | none => noteMade said l made
      | some (middle, _) => noteAnswer (noteMade said l made) middle input

/-- Nothing is left to write: no block, no command, and the sending side is off. -/
def Quiet (l : BinkpLoop) : Prop :=
  l.writebuf = [] ∧ l.state.extracmd = none ∧ l.noMoreToSend = true ∧ l.state.continuesend = false

/-- In every state of the loop with nothing left to write, the M_EOB of the batch was
made, or the remote has not answered an announcement. -/
def Progresses (start : BinkpLoop) (inputs : List LoopInput) : Prop :=
  ∀ past rest said l, inputs = past ++ rest →
    run (beside (step conf) (noteSaid conf)) ({}, start) past = .more (said, l) →
    l.isOver = false → l.Quiet → said.eob = true ∨ said.unanswered.isSome = true

/-- The command that ends the session is not made while a file waits for acknowledgement.
Where the sending is off, no M_GOT or M_SKIP is taken for the announcement that waits. -/
def GoesOn (both : Said × BinkpLoop) (input : LoopInput) : Prop :=
  (both.2.isOver = false → both.2.writebuf = [] → both.2.state.lastWaits = true →
    both.2.state.waitingGot = false) ∧
  ∀ made ∈ both.2.batching conf input, ∀ around ∈ both.2.taking conf input,
    ∀ named ∈ around.1.fileNamed input,
      around.1.noMoreToSend = true → around.1.state.continuesend = false →
      (noteMade both.1 both.2 made).unanswered = some ⟨named.2.fn, named.2.sz, named.2.tm⟩ →
      named.1 = .get ∨ (noteMade both.1 both.2 made).eob = true

instance (l : BinkpLoop) : Decidable l.Quiet := by
  unfold Quiet
  infer_instance

instance (both : Said × BinkpLoop) (input : LoopInput) : Decidable (GoesOn conf both input) := by
  unfold GoesOn
  infer_instance

end BinkpLoop

namespace BinkpState

/-! ## What a block does to the sending side -/

/-- Handling a block switches the sending side on, or leaves it as it is; then at most a
file is taken back, and what ended the session still does. -/
structure Steers (b after : BinkpState) : Prop where
  mode : after.mode = b.mode
  complete : b.complete = true → after.complete = true
  last : b.lastWaits = true → after.lastWaits = true
  turns : (after.continuesend = true ∧
      (after.phase = 2 ∨ after.phase = b.phase ∧ after.waitingGot = b.waitingGot)) ∨
    (after.continuesend = b.continuesend ∧ (after.phase = b.phase ∨ after.phase = 0) ∧
      (after.waitingGot = true → b.waitingGot = true))

section Steers

variable (conf : BinkpConf) (answers : ReceiveAnswers) (b : BinkpState) (arg : Pointer)

/-- The fields of the switch, and the end of the session. -/
def switch (b : BinkpState) : BinkpMode × Nat × Bool × Bool × Bool :=
  (b.mode, b.phase, b.waitingGot, b.continuesend, b.complete)

theorem Steers.of_switch {b after : BinkpState} (same : after.switch = b.switch)
    (last : b.lastWaits = true → after.lastWaits = true) : Steers b after := by
  simp only [switch, Prod.mk.injEq] at same
  obtain ⟨mode, phase, waiting, switched, complete⟩ := same
  exact ⟨mode, complete.trans, last, .inr ⟨switched, .inl phase, fun waits => waiting ▸ waits⟩⟩

/-- What leaves the sending alone leaves a last command waiting. -/
theorem Undisturbed.last_waits {b after : BinkpState} (calm : Undisturbed b after)
    (waits : b.lastWaits = true) : after.lastWaits = true := by
  cases calm with
  | last last => exact last
  | same _ _ slot goes =>
    unfold lastWaits at waits ⊢
    rw [slot, goes]
    exact waits
  | replied _ _ free =>
    simp only [lastWaits, Bool.and_eq_true] at waits
    exact absurd waits.1 free

theorem receiveADR_steers : Steers b (b.receiveADR conf arg).1 := by
  refine .of_switch ?_ (receiveADR_undisturbed conf b arg).last_waits
  have added : (b.addAddrs arg).switch = b.switch := rfl
  unfold receiveADR
  generalize b.addAddrs arg = after at added ⊢
  dsimp only
  split
  · rfl
  · split
    · rfl
    · split
      · unfold refuse
        split <;> exact added
      · split
        · unfold checkCalled
          dsimp only
          split
          · exact added
          · split <;> exact added
        · split <;> exact added

theorem receivePWD_steers (blockLength : Nat) :
    Steers b (b.receivePWD conf answers arg blockLength).1 := by
  refine .of_switch ?_ (receivePWD_undisturbed conf answers b arg blockLength).last_waits
  unfold receivePWD refuse
  dsimp only
  repeat' split
  all_goals rfl

theorem receiveFILE_steers : Steers b (b.receiveFILE conf answers arg).1 := by
  refine .of_switch ?_ (receiveFILE_undisturbed conf answers b arg).last_waits
  unfold receiveFILE resumeFile startFile replyRecv
  dsimp only
  repeat' split
  all_goals rfl

theorem receiveEOB_steers : Steers b b.receiveEOB.1 := by
  refine .of_switch ?_ (receiveEOB_undisturbed b).last_waits
  unfold receiveEOB
  split <;> rfl

theorem receiveData_steers (blockLength : Nat) :
    Steers b (b.receiveData answers arg blockLength).1 := by
  refine .of_switch ?_ (receiveData_undisturbed answers b arg blockLength).last_waits
  unfold receiveData writeDone writeFailed replyRecv
  dsimp only
  repeat' split
  all_goals rfl

/-- An M_OK completes a handshake, and is a protocol error elsewhere. -/
theorem receiveOK_steers : Steers b (b.receiveOK answers).1 := by
  have last := (receiveOK_undisturbed answers b).last_waits
  revert last
  unfold receiveOK refuse
  dsimp only
  repeat' split
  all_goals first
    | exact .of_switch rfl
    | exact fun last => ⟨rfl, fun _ => rfl, last, .inr ⟨rfl, .inl rfl, id⟩⟩

/-- Handling an acknowledgement does not switch the sending on. -/
structure Stays (b after : BinkpState) : Prop where
  mode : after.mode = b.mode
  phase : after.phase = b.phase
  continuesend : after.continuesend = b.continuesend
  complete : after.complete = b.complete
  waiting : after.waitingGot = true → b.waitingGot = true
  last : b.lastWaits = true → after.lastWaits = true

theorem Stays.steers {b after : BinkpState} (stays : Stays b after) : Steers b after :=
  ⟨stays.mode, stays.complete.trans, stays.last,
    .inr ⟨stays.continuesend, .inl stays.phase, stays.waiting⟩⟩

theorem closeNamed_stays (told : Bool) (index : Nat) (status : Fstat) :
    Stays b (b.closeNamed told index status) := by
  have last := (closeNamed_undisturbed b told index status).last_waits
  revert last
  unfold closeNamed checkConfirmed
  dsimp only
  split
  · exact fun last => ⟨rfl, rfl, rfl, rfl, id, last⟩
  · exact fun last => ⟨rfl, rfl, rfl, rfl, nofun, last⟩

theorem gotSkipNamed_stays (skip : Bool) (fi : FileHint) :
    Stays b (b.gotSkipNamed answers skip fi).1 := by
  have errs : ∀ (pi : Protinfo) msg, Stays b ({ b with pi }.protoError msg).1 := fun _ _ =>
    ⟨rfl, rfl, rfl, rfl, id, fun _ => rfl⟩
  have noted : ∀ index status, Stays b
      (({ b with gots := b.gots ++ [fi] } : BinkpState).closeNamed answers.told index status) := by
    intro index status
    have closed := closeNamed_stays { b with gots := b.gots ++ [fi] } answers.told index status
    exact ⟨closed.mode, closed.phase, closed.continuesend, closed.complete, closed.waiting,
      closed.last⟩
  unfold gotSkipNamed
  dsimp only
  split
  · exact errs b.pi _
  · split
    · split
      · exact errs _ _
      · exact closeNamed_stays b _ _ _
    · split
      · exact noted _ _
      · split
        · exact errs _ _
        · exact noted _ _

/-- M_GOT and M_SKIP do not switch it on. -/
theorem receiveGotSkip_steers (skip : Bool) : Steers b (b.receiveGotSkip answers skip arg).1 := by
  unfold receiveGotSkip
  dsimp only
  split
  · exact .of_switch rfl fun _ => rfl
  · split
    · exact .of_switch rfl fun _ => rfl
    · rename_i fi _
      split
      · exact .of_switch rfl id
      · split
        · split
          · exact .of_switch rfl fun _ => rfl
          · -- The current file is taken back, and the phase is that of the next one.
            have named := gotSkipNamed_stays answers
              { b.touch (binkpParsfinfo arg false answers.high).2 with
                pi := pTxFclose answers.told b.pi, phase := 0 } skip ⟨fi.fn, fi.sz, fi.tm⟩
            exact ⟨named.mode, named.complete.trans, named.last,
              .inr ⟨named.continuesend, .inr named.phase, named.waiting⟩⟩
        · have named := gotSkipNamed_stays answers
            (b.touch (binkpParsfinfo arg false answers.high).2) skip ⟨fi.fn, fi.sz, fi.tm⟩
          exact ⟨named.mode, named.complete.trans, named.last,
            .inr ⟨named.continuesend, .inl named.phase, named.waiting⟩⟩

/-- An M_GET switches it on, is kept, or ends the session. -/
inductive Answers (b : BinkpState) (after : BinkpState × ReceiveResult) : Prop where
  | kept (switch : after.1.switch = b.switch) (slot : after.1.extracmd = b.extracmd)
      (goes : after.1.extraislast = b.extraislast) (kept : after.2 = .keep)
  | failed (switch : after.1.switch = b.switch) (last : after.1.lastWaits = true)
  | on (mode : after.1.mode = b.mode) (complete : after.1.complete = b.complete)
      (free : b.extracmd = none) (on : after.1.continuesend = true)
      (phase : after.1.phase = 2 ∨ after.1.phase = b.phase ∧ after.1.waitingGot = b.waitingGot)

theorem announceAt_answers (offset : Nat) (current : b.pi.sending.isSome = true) :
    (b.announceAt offset).mode = b.mode ∧ (b.announceAt offset).complete = b.complete ∧
      (b.announceAt offset).continuesend = true ∧ (b.announceAt offset).phase = 2 := by
  unfold announceAt
  split
  · rename_i none
    rw [none] at current
    cases current
  · exact ⟨rfl, rfl, rfl, rfl⟩

theorem rewindTo_answers (offset : Nat) (msg : Bytes) (current : b.pi.sending.isSome = true)
    (free : b.extracmd = none) : Answers b (b.rewindTo answers offset msg) := by
  have there := @pTxRewind_sending b.pi offset
  unfold rewindTo
  split
  · exact .failed rfl rfl
  · rename_i pi moved
    rw [moved] at there
    obtain ⟨mode, complete, on, phase⟩ := announceAt_answers
      { b with pi := pi.changeSend fun finf => { finf with bytesSkipped := offset, bytesSent := offset } }
      offset ((changeSend_present _).trans (there.trans current))
    exact .on mode complete free on (.inl phase)

theorem reopenAt_answers (getfi : Bpfinfo) (free : b.extracmd = none) :
    Answers b (b.reopenAt conf answers getfi) := by
  have opened := @pTxReopen_sending b.pi conf.files.holdall
    ⟨getfi.fn, getfi.sz, getfi.tm⟩
  unfold reopenAt
  split
  · exact .failed rfl rfl
  · rename_i pi found
    rw [found] at opened
    have there := @pTxRewind_sending pi getfi.offs
    split
    · exact .failed rfl rfl
    · rename_i last moved
      rw [moved] at there
      obtain ⟨mode, complete, on, phase⟩ := announceAt_answers
        { b with
          waitingGot := true
          pi := last.changeSend fun finf =>
            { finf with bytesSkipped := getfi.offs, bytesSent := getfi.offs } }
        getfi.offs ((changeSend_present _).trans (there.trans (opened rfl)))
      exact .on mode complete free on (.inl phase)

theorem receiveGET_answers : Answers b (b.receiveGET conf answers arg) := by
  have touched : ∀ {after}, Answers (b.touch (binkpParsfinfo arg true answers.high).2) after →
      Answers b after := by
    intro after given
    cases given with
    | kept switch slot goes kept => exact .kept switch slot goes kept
    | failed switch last => exact .failed switch last
    | on mode complete free on phase => exact .on mode complete free on phase
  unfold receiveGET
  dsimp only
  split
  · exact .failed rfl rfl
  · split
    · exact .failed rfl rfl
    · split
      · exact .kept rfl rfl rfl rfl
      · rename_i waits
        have free : b.extracmd = none := Option.not_isSome_iff_eq_none.mp waits
        refine touched ?_
        split
        · exact reopenAt_answers conf answers _ _ free
        · rename_i current sending
          have there : (b.touch (binkpParsfinfo arg true answers.high).2).pi.sending.isSome = true :=
            Option.isSome_iff_exists.mpr ⟨current, sending⟩
          split
          · obtain ⟨mode, complete, on, phase⟩ := announceAt_answers
              (b.touch (binkpParsfinfo arg true answers.high).2) current.bytesSent there
            exact .on mode complete free on (.inl phase)
          · split
            · exact .on rfl rfl free rfl (.inr ⟨rfl, rfl⟩)
            · split
              · exact rewindTo_answers answers _ _ _ there free
              · exact reopenAt_answers conf answers _ _ free

theorem Answers.steers {b : BinkpState} {after : BinkpState × ReceiveResult}
    (given : Answers b after) : Steers b after.1 := by
  cases given with
  | kept switch slot goes _ =>
    refine .of_switch switch fun waits => ?_
    unfold lastWaits at waits ⊢
    rw [slot, goes]
    exact waits
  | failed switch last => exact .of_switch switch fun _ => last
  | on mode complete free on phase =>
    exact ⟨mode, complete.trans, fun waits => by simp [lastWaits, free] at waits, .inl ⟨on, phase⟩⟩

/-- Every command steers so. -/
theorem receiveCommand_steers (message : Bpmsg) (blockLength : Nat) :
    Steers b (b.receiveCommand conf answers message arg blockLength).1 := by
  cases message with
  | nul => exact .of_switch rfl id
  | adr => exact receiveADR_steers conf b arg
  | pwd => exact receivePWD_steers conf answers b arg blockLength
  | file => exact receiveFILE_steers conf answers b arg
  | ok => exact receiveOK_steers answers b
  | eob => exact receiveEOB_steers b
  | got => exact receiveGotSkip_steers answers b arg false
  | skip => exact receiveGotSkip_steers answers b arg true
  | get => exact (receiveGET_answers conf answers b arg).steers
  | err => exact .of_switch rfl id
  | bsy => exact .of_switch rfl id

end Steers

end BinkpState

namespace BinkpLoop

variable {conf : BinkpConf} {input : LoopInput}

/-- Every block that is handed over steers so. -/
theorem hand_steers (l : BinkpLoop) : l.state.Steers (l.hand conf input).1 := by
  refine hand_cases conf input l (fun after => l.state.Steers after.1) ?_ ?_ ?_
  · exact fun _ => BinkpState.receiveData_steers input.receiving l.state _ _
  · exact fun _ _ _ => .of_switch rfl fun _ => rfl
  · intro message arg _
    have steers := BinkpState.receiveCommand_steers conf input.receiving
      (l.state.touch [.read 1 (l.readPos - binkpHeader)]) arg message l.handedLength
    exact ⟨steers.mode, steers.complete, steers.last, steers.turns⟩

/-- An M_GET that is taken switches the sending on or ends the session. -/
theorem hand_asked (l : BinkpLoop) (arg : Pointer) (found : l.command = some (.get, arg))
    (taken : (l.hand conf input).2 ≠ .keep) :
    (l.hand conf input).1.continuesend = true ∨ (l.hand conf input).1.lastWaits = true := by
  rw [hand_command conf input l .get arg found] at taken ⊢
  cases BinkpState.receiveGET_answers conf input.receiving
    (l.state.touch [.read 1 (l.readPos - binkpHeader)]) arg with
  | kept _ _ _ kept => exact absurd kept taken
  | failed _ last => exact .inr last
  | on _ _ _ on _ => exact .inl on

end BinkpLoop

/-! ## What the making of a block does to it -/

namespace BinkpState

/-- What a transfer makes in a phase it knows: M_EOB leads to the phase after it, the
only block after which nothing follows is an announcement without an offset, and nothing
is left once M_EOB was made. -/
structure Sends (b : BinkpState) (after : BinkpState × SendResult) : Prop where
  mode : after.1.mode = b.mode
  continuesend : after.1.continuesend = b.continuesend
  phase : after.1.phase ≤ 5
  five : after.1.phase = 5 → b.phase = 5 ∨ after.2 = .block (commandBlock .eob []) false
  open_last : ∀ block, after.2 = .block block true → ∃ finf, after.1.pi.sending = some finf ∧
    block = commandBlock .file (fileText finf.hint ++ ascii " -1")
  noMore : after.2 = .noMore → b.phase = 5

section Sends

variable (conf : BinkpConf) (answers : SendAnswers) (b : BinkpState)

theorem sendNextFile_sends (begins : b.phase = 0) : Sends b (b.sendNextFile conf answers) := by
  unfold sendNextFile
  split
  · exact ⟨rfl, rfl, Nat.le_refl 5, fun _ => .inr rfl, nofun, nofun⟩
  · rename_i pi opened
    dsimp only
    split
    · split
      · exact ⟨rfl, rfl, by simp [begins], fun five => by simp [begins] at five, nofun, nofun⟩
      · rename_i finf current
        refine ⟨rfl, rfl, by simp [begins], fun five => by simp [begins] at five,
          fun block made => ⟨finf, current, ?_⟩, nofun⟩
        injection made with same
        exact same.symm
    · unfold sendFile
      split
      · exact ⟨rfl, rfl, by simp [begins], fun five => by simp [begins] at five, nofun, nofun⟩
      · exact ⟨rfl, rfl, by simp [begins], fun five => by simp [begins] at five, nofun, nofun⟩

theorem awaitAck_sends (waits : b.phase = 3) : Sends b (b.awaitAck conf answers) := by
  unfold awaitAck
  split
  · exact ⟨rfl, rfl, by simp [waits], .inl, nofun, nofun⟩
  · split
    · exact ⟨rfl, rfl, by simp [waits], .inl, nofun, nofun⟩
    · have next := sendNextFile_sends conf answers { b with phase := 0 } rfl
      exact ⟨next.mode, next.continuesend, next.phase,
        fun five => (next.five five).elim nofun .inr, next.open_last,
        fun none => absurd (next.noMore none) nofun⟩

theorem sendData_sends (reads : b.phase = 2) : Sends b (b.sendData conf answers) := by
  have same : ∀ pi result, result ≠ .noMore → (∀ block, result ≠ .block block true) →
      Sends b ({ b with pi }, result) := fun pi result more last =>
    ⟨rfl, rfl, by simp [reads], .inl, fun block made => absurd made (last block),
      fun none => absurd none more⟩
  unfold sendData
  split
  · exact same b.pi _ nofun nofun
  · rename_i pi _
    have next := awaitAck_sends conf answers
      { b with
        pi := pi.changeSend fun finf => { finf with status := .waitack }
        phase := b.phase + 1 } (by simp [reads])
    exact ⟨next.mode, next.continuesend, next.phase,
      fun five => (next.five five).elim (fun three => by simp [reads] at three) .inr,
      next.open_last, fun none => by have three := next.noMore none; simp [reads] at three⟩
  · exact same _ _ nofun nofun
  · exact same _ _ nofun nofun
  · exact same _ _ nofun nofun

theorem transferForsend_sends (known : b.phase ≤ 5) : Sends b (b.transferForsend conf answers) := by
  unfold transferForsend
  split
  · rename_i begins
    exact sendNextFile_sends conf answers b begins
  · rename_i announces
    unfold sendFile
    split
    · exact ⟨rfl, rfl, known, .inl, nofun, nofun⟩
    · exact ⟨rfl, rfl, by simp [announces], fun five => by simp [announces] at five, nofun, nofun⟩
  · rename_i reads
    exact sendData_sends conf answers b reads
  · rename_i waits
    exact awaitAck_sends conf answers b waits
  · rename_i ends
    exact ⟨rfl, rfl, by simp [sendEOB, ends], fun _ => .inr rfl, nofun, nofun⟩
  · rename_i gone
    exact ⟨rfl, rfl, known, .inl, by rintro _ ⟨⟩, fun _ => gone⟩
  · rename_i zero one two three four five
    have unknown : b.phase ≠ 0 ∧ b.phase ≠ 1 ∧ b.phase ≠ 2 ∧ b.phase ≠ 3 ∧ b.phase ≠ 4 ∧
      b.phase ≠ 5 := ⟨zero, one, two, three, four, five⟩
    omega

end Sends

end BinkpState

namespace BinkpLoop

variable {conf : BinkpConf} {input : LoopInput} {said : Said}

/-- What holds throughout a transfer whose turns go on. -/
structure Steady (said : Said) (l : BinkpLoop) : Prop where
  mode : l.state.mode = .transfer
  phase : l.state.phase ≤ 5 ∨
    l.state.phase = 100 ∧ l.state.complete = true ∧ l.state.waitingGot = false
  five : l.state.phase = 5 → said.eob = true
  quiet : l.noMoreToSend = true → l.state.continuesend = false →
    said.eob = true ∨ said.unanswered.isSome = true ∨ l.state.lastWaits = true ∨ l.isOver = true

/-- What is noted of a block that was made stays noted. -/
theorem noteMade_grows (l made : BinkpLoop) :
    (said.eob = true → (noteMade said l made).eob = true) ∧
      (said.unanswered.isSome = true → (noteMade said l made).unanswered.isSome = true) := by
  unfold noteMade
  split
  · exact ⟨id, id⟩
  · constructor
    · intro eob
      simp [eob]
    · intro unanswered
      simp [unanswered]

/-- A block that was made is noted. -/
theorem noteMade_block (l made : BinkpLoop) (block : Block)
    (produced : made.produced = l.produced ++ [block]) :
    noteMade said l made = { eob := said.eob || block = commandBlock .eob []
                             unanswered := (openAnnouncement made.state.pi.sending block).or
                               said.unanswered } := by
  unfold noteMade
  rw [produced, List.drop_left]

/-- Switching on leaves nothing else changed. -/
theorem resume_steady (l : BinkpLoop) (steady : Steady said l) (goes : l.isOver = false) :
    Steady said l.resume ∧ l.resume.state.continuesend = false ∧ l.resume.isOver = false ∧
      l.resume.produced = l.produced ∧ l.resume.writebuf = l.writebuf ∧
      l.resume.state.lastWaits = l.state.lastWaits ∧
      l.resume.state.waitingGot = l.state.waitingGot := by
  unfold resume
  split
  · exact ⟨⟨steady.mode, steady.phase, steady.five, nofun⟩, rfl, goes, rfl, rfl, rfl, rfl⟩
  · rename_i off
    exact ⟨steady, by simpa using off, goes, rfl, rfl, rfl, rfl⟩

/-- What is taken over of a block that was made. -/
theorem take_steers (l made : BinkpLoop) (block : Block) (last : Bool)
    (taken : l.take (.block block last) = .more made) :
    made.state.switch = l.state.switch ∧ made.state.pi = l.state.pi ∧
      made.state.extracmd = l.state.extracmd ∧ made.produced = l.produced ++ [block] ∧
      made.noMoreToSend = (l.noMoreToSend || last) := by
  injection taken with same
  subst same
  unfold load encrypt
  dsimp only
  split <;> exact ⟨rfl, rfl, rfl, rfl, rfl⟩

/-- What was noted before may be noted more. -/
theorem Steady.grown {later : Said} {l : BinkpLoop} (steady : Steady said l)
    (eob : said.eob = true → later.eob = true)
    (unanswered : said.unanswered.isSome = true → later.unanswered.isSome = true) :
    Steady later l :=
  ⟨steady.mode, steady.phase, fun five => eob (steady.five five), fun off still =>
    (steady.quiet off still).imp eob (Or.imp_left unanswered)⟩

/-- A command that was queued is made; the last one ends the session. -/
theorem fetch_command (l made : BinkpLoop) (steady : Steady said l) (goes : l.isOver = false)
    (off : l.state.continuesend = false) (message : Bpmsg) (text : Bytes)
    (waits : l.state.extracmd = some (message, text))
    (fetched : l.fetchNext conf input = .more made)
    (ends : l.state.lastWaits = true → l.state.waitingGot = false) : Steady said made := by
  have given : l.state.getforsend conf input.sending =
      (if l.state.extraislast then
          { l.state with extracmd := none, phase := 100, complete := true }
        else { l.state with extracmd := none }, BinkpState.command message text) := by
    unfold BinkpState.getforsend
    rw [waits]
  unfold fetchNext at fetched
  rw [given] at fetched
  obtain ⟨switch, _, _, _, noMore⟩ := take_steers _ made _ _ fetched
  simp only [BinkpState.switch, Prod.mk.injEq, withState] at switch
  obtain ⟨mode, phase, waiting, continuesend, complete⟩ := switch
  by_cases last : l.state.extraislast = true
  · rw [if_pos last] at mode phase waiting continuesend complete
    have none_waits : made.state.waitingGot = false :=
      waiting.trans (ends (by simp [BinkpState.lastWaits, waits, last]))
    have gone : made.isOver = true := by simp [isOver, complete, none_waits]
    have hundred : made.state.phase = 100 := phase
    exact ⟨mode.trans steady.mode, .inr ⟨phase, complete, none_waits⟩, fun five => by omega,
      fun _ _ => .inr (.inr (.inr gone))⟩
  · rw [if_neg last] at mode phase waiting continuesend complete
    have going : l.isOver = false := goes
    refine ⟨mode.trans steady.mode, ?_, fun five => steady.five (phase.symm.trans five), ?_⟩
    · rw [phase, complete, waiting]
      exact steady.phase
    · intro quiet _
      have before : l.noMoreToSend = true := by simpa [noMore, withState] using quiet
      rcases steady.quiet before off with eob | unanswered | waits | gone
      · exact .inl eob
      · exact .inr (.inl unanswered)
      · simp [BinkpState.lastWaits, last] at waits
      · exact absurd gone (by simp [going])

/-- The next block of the batch is made where sending is on. -/
theorem fetch_batch (l made : BinkpLoop) (steady : Steady said l) (goes : l.isOver = false)
    (free : l.state.extracmd = none) (on : l.noMoreToSend = false)
    (fetched : l.fetchNext conf input = .more made) : Steady (noteMade said l made) made := by
  obtain ⟨eob, unanswered⟩ := @noteMade_grows said l made
  have known : l.state.phase ≤ 5 := by
    rcases steady.phase with known | ⟨_, complete, waiting⟩
    · exact known
    · exact absurd goes (by simp [isOver, complete, waiting])
  have given : l.state.getforsend conf input.sending =
      l.state.transferForsend conf input.sending := by
    unfold BinkpState.getforsend
    rw [free]
    exact if_pos steady.mode
  have sends := BinkpState.transferForsend_sends conf input.sending l.state known
  unfold fetchNext at fetched
  rw [given] at fetched
  cases made_so : (l.state.transferForsend conf input.sending).2 with
  | block block last =>
    rw [made_so] at fetched
    obtain ⟨switch, pi, _, produced, noMore⟩ := take_steers _ made _ _ fetched
    simp only [BinkpState.switch, Prod.mk.injEq, withState] at switch
    obtain ⟨mode, phase, waiting, continuesend, complete⟩ := switch
    have noted := @noteMade_block said l made block produced
    refine ⟨mode.trans (sends.mode.trans steady.mode), .inl (phase ▸ sends.phase), fun five => ?_,
      fun quiet _ => ?_⟩
    · rcases sends.five (phase.symm.trans five) with before | ends
      · exact eob (steady.five before)
      · rw [noted]
        rw [made_so] at ends
        injection ends with ends
        simp [ends]
    · have last : last = true := by simpa [noMore, withState, on] using quiet
      subst last
      obtain ⟨finf, current, announced⟩ := sends.open_last block made_so
      refine .inr (.inl ?_)
      rw [noted, pi]
      simp [openAnnouncement, withState, current, announced]
  | nothing =>
    rw [made_so] at fetched
    injection fetched with same
    subst same
    exact ⟨sends.mode.trans steady.mode, .inl sends.phase, fun five =>
      eob (steady.five ((sends.five five).resolve_right (by simp [made_so]))),
      fun quiet => absurd quiet (by simp [withState, on])⟩
  | noMore =>
    rw [made_so] at fetched
    injection fetched with same
    subst same
    have ended := eob (steady.five (sends.noMore made_so))
    exact ⟨sends.mode.trans steady.mode, .inl sends.phase, fun _ => ended, fun _ _ => .inl ended⟩
  | error =>
    rw [made_so] at fetched
    cases fetched
  | crashed =>
    rw [made_so] at fetched
    cases fetched

/-- Making a block keeps the sending steady. -/
theorem fetch_steady (l made : BinkpLoop) (steady : Steady said l) (goes : l.isOver = false)
    (fetched : l.fetch conf input = .more made)
    (ends : l.writebuf = [] → l.state.lastWaits = true → l.state.waitingGot = false) :
    Steady (noteMade said l made) made := by
  obtain ⟨eob, unanswered⟩ := @noteMade_grows said l made
  obtain ⟨resumed, off, going, produced, written, lasts, waiting⟩ := resume_steady l steady goes
  unfold fetch at fetched
  split at fetched
  · rename_i wanted
    simp only [idle, Bool.and_eq_true, List.isEmpty_iff] at wanted
    cases waits : l.resume.state.extracmd with
    | some command =>
      refine (fetch_command l.resume made resumed going off command.1 command.2 waits fetched
        fun last => ?_).grown eob unanswered
      exact waiting.trans (ends (written ▸ wanted.1) (lasts ▸ last))
    | none =>
      have on : l.resume.noMoreToSend = false := by
        simp only [waits, Option.isSome_none, Bool.or_false, Bool.not_eq_true'] at wanted
        exact wanted.2
      have steady := fetch_batch l.resume made resumed going waits on fetched
      unfold noteMade at steady ⊢
      rwa [produced] at steady
  · injection fetched with same
    exact same ▸ resumed.grown (same ▸ eob) (same ▸ unanswered)

/-- Nothing before the handing over of a block changes whether more is to be sent. -/
theorem arrive_noMoreToSend (made middle : BinkpLoop) (arrived : made.arrive input = .more middle) :
    middle.noMoreToSend = made.noMoreToSend := by
  obtain ⟨waited, awaited, received⟩ := (Turn.andThen_more_iff _ _ _).mp arrived
  have finished : made.finish.noMoreToSend = made.noMoreToSend := by
    unfold finish
    split <;> rfl
  have waits : waited.noMoreToSend = made.finish.noMoreToSend := by
    unfold await at awaited
    split at awaited
    · split at awaited
      · cases awaited
      · injection awaited with same
        rw [← same]
    · split at awaited
      · cases awaited
      · injection awaited with same
        rw [← same]
  have reads : middle.noMoreToSend = waited.noMoreToSend := by
    unfold receive at received
    split at received
    · split at received
      · cases received
      · cases received
      · injection received with same
        subst same
        unfold store decrypt
        cases waited.encrypted <;> rfl
    · injection received with same
      rw [← same]
  exact reads.trans (waits.trans finished)

/-- Nothing before the handing over of a block makes the sending unsteady. -/
theorem arrive_steady (made middle : BinkpLoop) (steady : Steady said made)
    (arrived : made.arrive input = .more middle) : Steady said middle := by
  obtain ⟨complete, emptyloop, keysIn, state, ends, _⟩ := arrive_more made middle input arrived
  have off := arrive_noMoreToSend made middle arrived
  have gone : made.isOver = true → middle.isOver = true := by
    intro gone
    simp only [isOver, Bool.and_eq_true, Bool.not_eq_true'] at gone ⊢
    rw [state]
    exact ⟨ends gone.1, gone.2⟩
  refine ⟨?_, ?_, ?_, ?_⟩
  · rw [state]
    exact steady.mode
  · rw [state]
    refine steady.phase.imp id ?_
    rintro ⟨phase, complete, waiting⟩
    exact ⟨phase, ends complete, waiting⟩
  · rw [state]
    exact steady.five
  · intro quiet still
    rw [off] at quiet
    rw [state] at still ⊢
    exact (steady.quiet quiet still).imp id (Or.imp id (Or.imp id gone))

/-- What steers the sending and does not lose what waits keeps it steady. -/
theorem Steady.steered {later : Said} {l after : BinkpLoop} (steady : Steady said l)
    (steers : l.state.Steers after.state) (off : after.noMoreToSend = l.noMoreToSend)
    (eob : said.eob = true → later.eob = true)
    (unanswered : l.noMoreToSend = true → l.state.continuesend = false →
      said.unanswered.isSome = true → later.unanswered.isSome = true ∨
      later.eob = true ∨ after.state.continuesend = true ∨ after.state.lastWaits = true) :
    Steady later after := by
  refine ⟨steers.mode.trans steady.mode, ?_, ?_, ?_⟩
  · rcases steers.turns with ⟨_, phase | ⟨phase, waiting⟩⟩ | ⟨_, phase | phase, waiting⟩
    · omega
    · rw [phase, waiting]
      exact steady.phase.imp id fun ⟨phase, complete, waits⟩ =>
        ⟨phase, steers.complete complete, waits⟩
    · rw [phase]
      refine steady.phase.imp id fun ⟨phase, complete, waits⟩ =>
        ⟨phase, steers.complete complete, ?_⟩
      exact Bool.eq_false_iff.mpr fun still => absurd (waiting still) (by simp [waits])
    · omega
  · intro five
    rcases steers.turns with ⟨_, phase | ⟨phase, _⟩⟩ | ⟨_, phase | phase, _⟩
    · omega
    · exact eob (steady.five (phase ▸ five))
    · exact eob (steady.five (phase ▸ five))
    · omega
  · intro quiet still
    rcases steers.turns with ⟨on, _⟩ | ⟨same, _, waiting⟩
    · exact absurd on (by simp [still])
    · rw [off] at quiet
      rw [same] at still
      rcases steady.quiet quiet still with ended | asked | waits | gone
      · exact .inl (eob ended)
      · rcases unanswered quiet still asked with asked | ended | on | waits
        · exact .inr (.inl asked)
        · exact .inl ended
        · exact absurd on (by simp [same, still])
        · exact .inr (.inr (.inl waits))
      · exact .inr (.inr (.inl (steers.last waits)))
      · simp only [isOver, Bool.and_eq_true, Bool.not_eq_true'] at gone
        refine .inr (.inr (.inr ?_))
        simp only [isOver, Bool.and_eq_true, Bool.not_eq_true']
        exact ⟨steers.complete gone.1,
          Bool.eq_false_iff.mpr fun still => absurd (waiting still) (by simp [gone.2])⟩

/-- A block that was handed over steers the sending, also where it ends the session. -/
theorem settle_steers (middle handled : BinkpLoop)
    (settled : (middle.withState (middle.hand conf input).1).settle (middle.hand conf input).2 =
      .more handled) :
    middle.state.Steers handled.state ∧ handled.noMoreToSend = middle.noMoreToSend := by
  have steers := @hand_steers conf input middle
  revert settled
  cases (middle.hand conf input).2 with
  | abort =>
    intro settled
    injection settled with same
    exact same ▸ ⟨⟨steers.mode, fun _ => rfl, steers.last, steers.turns⟩, rfl⟩
  | accepted =>
    intro settled
    injection settled with same
    exact same ▸ ⟨steers, rfl⟩
  | noMore =>
    intro settled
    injection settled with same
    exact same ▸ ⟨steers, rfl⟩
  | keep =>
    intro settled
    injection settled with same
    exact same ▸ ⟨steers, rfl⟩
  | crashed => exact nofun

/-- A file is named by an M_GET only where the block is one. -/
theorem fileNamed_get (middle : BinkpLoop) (file : Bpfinfo)
    (named : middle.fileNamed input = some (.get, file)) :
    ∃ arg, middle.command = some (.get, arg) := by
  unfold fileNamed at named
  split at named
  · rename_i arg found
    exact ⟨arg, found⟩
  · obtain ⟨_, _, same⟩ := Option.map_eq_some_iff.mp named
    cases same
  · obtain ⟨_, _, same⟩ := Option.map_eq_some_iff.mp named
    cases same
  · cases named

/-- An answer that is taken switches the sending on, or it is no answer to what waits. -/
theorem answer_steady (middle handled : BinkpLoop) (steady : Steady said middle)
    (settled : (middle.withState (middle.hand conf input).1).settle (middle.hand conf input).2 =
      .more handled)
    (taken : (middle.hand conf input).2 ≠ .keep)
    (answers : ∀ named ∈ middle.fileNamed input,
      middle.noMoreToSend = true → middle.state.continuesend = false →
      said.unanswered = some ⟨named.2.fn, named.2.sz, named.2.tm⟩ →
      named.1 = .get ∨ said.eob = true) :
    Steady (noteAnswer said middle input) handled := by
  obtain ⟨steers, off⟩ := settle_steers middle handled settled
  unfold noteAnswer
  split
  · rename_i message file named
    split
    · rename_i asked
      refine steady.steered steers off id fun quiet still _ => ?_
      rcases answers _ named quiet still asked with get | ended
      · dsimp only at get
        subst get
        obtain ⟨arg, found⟩ := fileNamed_get middle file (Option.mem_def.mp named)
        obtain ⟨_, state⟩ | ⟨_, state⟩ := settle_more _ handled _ settled
        · rw [state]
          exact .inr (.inr (hand_asked middle arg found taken))
        · rw [state]
          exact .inr (.inr (hand_asked middle arg found taken))
      · exact .inr (.inl ended)
    · exact steady.steered steers off id fun _ _ => .inl
  · exact steady.steered steers off id fun _ _ => .inl

/-- The writing to the line does not matter. -/
theorem transmit_steady (handled after : BinkpLoop) (steady : Steady said handled)
    (written : handled.transmit input = .more after) : Steady said after := by
  obtain ⟨state, _⟩ := transmit_more input handled after written
  have off : after.noMoreToSend = handled.noMoreToSend := by
    unfold transmit at written
    split at written
    · split at written
      · cases written
      · cases written
      · injection written with same
        rw [← same]
    · injection written with same
      rw [← same]
  refine steady.steered ?_ off id fun _ _ => .inl
  rw [state]
  exact .of_switch rfl id

/-- A turn that goes on keeps the sending steady. -/
theorem step_steady (l after : BinkpLoop) (steady : Steady said l)
    (stepped : step conf l input = .more after) (goes : GoesOn conf (said, l) input) :
    Steady (noteSaid conf said l input) after := by
  obtain ⟨made, here, rest⟩ := step_more l after stepped
  obtain ⟨going, fetched⟩ := batching_some l made here
  obtain ⟨ends, answers⟩ := goes
  have begun := fetch_steady l made steady going fetched (ends going)
  unfold noteSaid
  rw [here]
  dsimp only
  rcases rest with ⟨again, rfl⟩ | ⟨again, middle, handled, arrived, handed, written⟩
  · rw [if_pos again]
    exact ⟨begun.mode, .inl (Nat.zero_le 5), fun five => absurd five (by simp [restart]),
      fun off => absurd off (by simp [restart])⟩
  · rw [again, if_neg Bool.false_ne_true]
    have around := handling_some l made middle handled here again arrived handed
    have before := arrive_steady made middle begun arrived
    refine transmit_steady handled after ?_ written
    rcases handle_more conf input middle handled handed with ⟨unready, rfl⟩ | ⟨ready, _, settled⟩
    · have none : l.taking conf input = none := by
        simp [taking, Option.mem_def.mp around, unready]
      rw [none]
      exact before
    · by_cases kept : (middle.hand conf input).2 = .keep
      · have none : l.taking conf input = none := by
          simp [taking, Option.mem_def.mp around, kept]
        rw [none]
        obtain ⟨steers, off⟩ := settle_steers middle handled settled
        exact before.steered steers off id fun _ _ => .inl
      · have taken : l.taking conf input = some (middle, handled) := by
          simp [taking, Option.mem_def.mp around, ready, kept]
        rw [taken]
        exact answer_steady middle handled before settled kept
          (answers made here _ taken)

/-- In every run whose turns go on, the batch progresses. -/
theorem batch_progresses (localData remoteData : BinkpSysinfo) (pi : Protinfo)
    (addressEstablished isProtected : Bool) (remoteaddrs : List Sysaddr)
    (inputs : List LoopInput)
    (goes : Along (GoesOn conf) (beside (step conf) (noteSaid conf))
      ({}, binkpTransfer localData remoteData pi addressEstablished isProtected
        remoteaddrs) inputs) :
    Progresses conf (binkpTransfer localData remoteData pi addressEstablished
      isProtected remoteaddrs) inputs := by
  intro past rest said l split reached going quiet
  subst split
  have begins : Steady {} (binkpTransfer localData remoteData pi
      addressEstablished isProtected remoteaddrs) :=
    ⟨rfl, .inl (Nat.zero_le 5), nofun, nofun⟩
  have steady := run_reaches (fun both : Said × BinkpLoop => Steady both.1 both.2) (by
      rintro ⟨said, l⟩ input ⟨later, after⟩ steady goes stepped
      unfold beside at stepped
      dsimp only at stepped
      split at stepped
      · rename_i next taken
        cases stepped
        exact step_steady l after steady taken goes
      · cases stepped) _
    begins past (along_front _ _ _ past rest goes) _ reached
  obtain ⟨_, slot, off, still⟩ := quiet
  rcases steady.quiet off still with eob | unanswered | waits | gone
  · exact .inl eob
  · exact .inr unanswered
  · simp [BinkpState.lastWaits, slot] at waits
  · exact absurd gone (by simp [going])

end BinkpLoop

/-- Two files to send, which are announced without an offset. -/
def sendsWithoutOffset : BinkpLoop :=
  binkpTransfer {} { options := { nr := true } }
    (initProtinfo
      { queue := [⟨ascii "a", 3, 0, 0, .nothing, .willsend, -1⟩,
          ⟨ascii "b", 3, 0, 0, .nothing, .willsend, -1⟩]
        filelist := []
        reqsOnly := false })
    true false []

/-- Turns in which the remote answers the announcements. -/
def answersTurns (blocks : List Block) : List LoopInput :=
  lineTurns (.ofContent (ascii "abc")) blocks 2

/-- The remote asks for the first file, and acknowledges it. -/
theorem asked_progresses : BinkpLoop.Progresses plainConf sendsWithoutOffset
    (answersTurns [commandBlock .get (ascii "a 3 0 0"), commandBlock .got (ascii "a 3 0")]) :=
  BinkpLoop.batch_progresses {} { options := { nr := true } }
    (initProtinfo
      { queue := [⟨ascii "a", 3, 0, 0, .nothing, .willsend, -1⟩,
          ⟨ascii "b", 3, 0, 0, .nothing, .willsend, -1⟩]
        filelist := []
        reqsOnly := false })
    true false []
    (answersTurns [commandBlock .get (ascii "a 3 0 0"), commandBlock .got (ascii "a 3 0")])
    (by decide)

/-- The remote does not want the first file: nothing is sent any more, the next file is
never announced and the batch never ends. -/
theorem skipped_announcement_stalls : ¬ BinkpLoop.Progresses plainConf sendsWithoutOffset
    (answersTurns [commandBlock .skip (ascii "a 3 0")]) := by
  have stalls : (run (beside (BinkpLoop.step plainConf) (BinkpLoop.noteSaid plainConf))
      ({}, sendsWithoutOffset) (answersTurns [commandBlock .skip (ascii "a 3 0")])).Ends
        (fun both => both.2.isOver = false ∧ both.2.Quiet ∧ both.1.eob = false ∧
          both.1.unanswered = none) (fun _ _ => False) := by decide
  intro progresses
  cases reached : run (beside (BinkpLoop.step plainConf) (BinkpLoop.noteSaid plainConf))
      ({}, sendsWithoutOffset) (answersTurns [commandBlock .skip (ascii "a 3 0")]) with
  | halt both result =>
    rw [reached] at stalls
    exact stalls
  | more both =>
    rw [reached] at stalls
    obtain ⟨going, quiet, eob, unanswered⟩ := stalls
    rcases progresses _ [] both.1 both.2 (List.append_nil _).symm reached going quiet with
      ended | waits
    · exact absurd ended (by simp [eob])
    · exact absurd waits (by simp [unanswered])

end Binkleyforce
