import Binkleyforce.Binkp.Line
import Binkleyforce.Binkp.Progress

/-!
# The counts of a batch

What the making and the handling of a block change of the counts a session keeps: of the
files it opened, of the M_FILEs it was sent, and of the M_EOBs made and received. Which
file is announced next hangs on the phase and on the command that waits.
-/

namespace Binkleyforce

open Library

namespace BinkpState

/-- An M_GET for another file than the one of the spool that is being sent is ignored, as
is one at another offset. -/
def ignores (b : BinkpState) (getfi : Bpfinfo) : Bool :=
  b.pi.sending.any fun current => current.netspool &&
    !(pCompfinfo current ⟨getfi.fn, getfi.sz, getfi.tm⟩ && decide (getfi.offs = current.bytesSent))

/-- An M_GOT or M_SKIP with the name of the current file aborts it while it is not
complete. -/
def aborts (b : BinkpState) (fi : Bpfinfo) : Bool :=
  b.pi.sending.any fun current =>
    decide (current.netName = fi.fn) && decide (current.status ≠ .waitack)

/-- An M_GET is in time unless it is obeyed once M_EOB was made, or where no file was
opened; an M_GOT or M_SKIP unless it aborts a file once M_EOB was made. -/
def Timely (b : BinkpState) (named : Bpmsg × Bpfinfo) : Prop :=
  if named.1 = .get then
    b.ignores named.2 = true ∨ (b.batchsendcomplete = 0 ∧ b.batchSendCount ≠ 0)
  else b.batchsendcomplete = 0 ∨ b.aborts named.2 = false

instance (b : BinkpState) (named : Bpmsg × Bpfinfo) : Decidable (b.Timely named) := by
  unfold Timely
  infer_instance

/-! ## What the counts of a session depend on -/

/-- What else than the files and the ends of the batch is looked at. -/
def others (b : BinkpState) : Prc × Bool × Bool × Bool × Nat × Nat :=
  (b.rc, b.extraislast, b.mb, b.complete, b.batchreceivecomplete, b.batchRecvCount)

/-- The phases of a transfer between two turns while M_EOB was not made. -/
def Unended (phase : Nat) : Prop := phase = 0 ∨ phase = 2 ∨ phase = 3

/-- What a transfer makes in a batch that is not ended, from these counts: M_EOB, an
M_FILE for a file that was opened, or data. -/
inductive Proceeds (sent opened : Nat) : BinkpState × SendResult → Prop where
  | quiet (after : BinkpState) (result : SendResult) (same : after.batchsendcomplete = sent)
      (still : after.batchSendCount = opened) (phase : Unended after.phase)
      (data : ∀ block last, result = .block block last → block.command = none) :
      Proceeds sent opened (after, result)
  | opens (after : BinkpState) (block : Block) (last : Bool)
      (same : after.batchsendcomplete = sent) (counted : after.batchSendCount = opened + 1)
      (phase : Unended after.phase) (file : block.command = some .file) :
      Proceeds sent opened (after, .block block last)
  | ends (after : BinkpState) (counted : after.batchsendcomplete = sent + 1)
      (still : after.batchSendCount = opened) (phase : after.phase = 5) :
      Proceeds sent opened (after, .block (commandBlock .eob []) false)
  | crashes (after : BinkpState) : Proceeds sent opened (after, .crashed)

section Proceeds

variable (conf : BinkpConf) (answers : SendAnswers) (b : BinkpState)

theorem sendNextFile_proceeds (begins : b.phase = 0) :
    Proceeds b.batchsendcomplete b.batchSendCount (b.sendNextFile conf answers) := by
  unfold sendNextFile
  split
  · exact .ends _ rfl rfl rfl
  · dsimp only
    split
    · split
      · exact .crashes _
      · exact .opens _ _ _ rfl rfl (.inl begins) (command_commandBlock _ _)
    · have two : Unended (b.phase + 1 + 1) := .inr (.inl (by rw [begins]))
      unfold sendFile
      split
      · exact .crashes _
      · exact .opens _ _ _ rfl rfl two (command_commandBlock _ _)

theorem awaitAck_proceeds (waits : b.phase = 3) :
    Proceeds b.batchsendcomplete b.batchSendCount (b.awaitAck conf answers) := by
  unfold awaitAck
  split
  · exact .crashes _
  · split
    · exact .quiet _ _ rfl rfl (.inr (.inr waits)) (fun _ _ => nofun)
    · exact sendNextFile_proceeds conf answers { b with phase := 0 } rfl

theorem sendData_proceeds (reads : b.phase = 2) :
    Proceeds b.batchsendcomplete b.batchSendCount (b.sendData conf answers) := by
  have same : Unended b.phase := .inr (.inl reads)
  unfold sendData
  split
  · exact .crashes _
  · rename_i pi _
    exact awaitAck_proceeds conf answers
      { b with
        pi := pi.changeSend fun finf => { finf with status := .waitack }
        phase := b.phase + 1 } (congrArg (· + 1) reads)
  · refine .quiet _ _ rfl rfl same ?_
    rintro block last ⟨⟩
    rfl
  · exact .quiet _ _ rfl rfl same (fun _ _ => nofun)
  · exact .quiet _ _ rfl rfl same (fun _ _ => nofun)

theorem transferForsend_proceeds (unended : Unended b.phase) :
    Proceeds b.batchsendcomplete b.batchSendCount (b.transferForsend conf answers) := by
  unfold transferForsend
  rcases unended with zero | two | three
  · rw [zero]
    exact sendNextFile_proceeds conf answers b zero
  · rw [two]
    exact sendData_proceeds conf answers b two
  · rw [three]
    exact awaitAck_proceeds conf answers b three

/-- Making a block leaves everything else alone. -/
theorem transferForsend_others (known : Unended b.phase ∨ b.phase = 5) :
    (b.transferForsend conf answers).1.others = b.others := by
  have next : ∀ b : BinkpState, (b.sendNextFile conf answers).1.others = b.others := by
    intro b
    unfold sendNextFile sendFile sendEOB
    dsimp only
    repeat' split
    all_goals rfl
  have waits : ∀ b : BinkpState, (b.awaitAck conf answers).1.others = b.others := by
    intro b
    unfold awaitAck
    split
    · rfl
    · split
      · rfl
      · exact next _
  unfold transferForsend
  rcases known with (zero | two | three) | five
  · rw [zero]
    exact next b
  · rw [two]
    show (b.sendData conf answers).1.others = b.others
    unfold sendData
    split
    · rfl
    · exact waits _
    · rfl
    · rfl
    · rfl
  · rw [three]
    exact waits b
  · rw [five]
    rfl

end Proceeds

/-! ## What a received block changes -/

/-- The counts of a transfer that only its own sending changes. -/
def totals (b : BinkpState) : Bool × Bool × Nat × Nat :=
  (b.mb, b.complete, b.batchsendcomplete, b.batchSendCount)

/-- The counts of what was received. -/
def receipts (b : BinkpState) : Nat × Nat := (b.batchreceivecomplete, b.batchRecvCount)

section Receipts

variable (conf : BinkpConf) (answers : ReceiveAnswers) (b : BinkpState) (arg : Pointer)

theorem gotSkipNamed_counts (skip : Bool) (fi : FileHint) :
    (b.gotSkipNamed answers skip fi).1.totals = b.totals ∧
      (b.gotSkipNamed answers skip fi).1.receipts = b.receipts := by
  have closed : ∀ (b : BinkpState) index status,
      (b.closeNamed answers.told index status).totals = b.totals ∧
        (b.closeNamed answers.told index status).receipts = b.receipts := by
    intro b index status
    unfold closeNamed checkConfirmed
    dsimp only
    split <;> exact ⟨rfl, rfl⟩
  unfold gotSkipNamed protoError
  dsimp only
  repeat' split
  all_goals first
    | exact ⟨rfl, rfl⟩
    | exact closed _ _ _

theorem receiveGotSkip_counts (skip : Bool) :
    (b.receiveGotSkip answers skip arg).1.totals = b.totals ∧
      (b.receiveGotSkip answers skip arg).1.receipts = b.receipts := by
  unfold receiveGotSkip protoError
  dsimp only
  repeat' split
  all_goals first
    | exact ⟨rfl, rfl⟩
    | exact gotSkipNamed_counts answers _ skip _

theorem receiveGET_counts :
    (b.receiveGET conf answers arg).1.totals = b.totals ∧
      (b.receiveGET conf answers arg).1.receipts = b.receipts := by
  unfold receiveGET reopenAt rewindTo announceAt protoError
  dsimp only
  repeat' split
  all_goals exact ⟨rfl, rfl⟩

theorem receiveADR_counts :
    (b.receiveADR conf arg).1.totals = b.totals ∧
      (b.receiveADR conf arg).1.receipts = b.receipts := by
  have called : ∀ b : BinkpState, (b.checkCalled conf).1.totals = b.totals ∧
      (b.checkCalled conf).1.receipts = b.receipts := by
    intro b
    unfold checkCalled
    dsimp only
    repeat' split
    all_goals exact ⟨rfl, rfl⟩
  have refused : ∀ (b : BinkpState) message text result,
      (b.refuse message text result).1.totals = b.totals ∧
        (b.refuse message text result).1.receipts = b.receipts := by
    intro b message text result
    unfold refuse
    split <;> exact ⟨rfl, rfl⟩
  unfold receiveADR protoError
  split
  · exact ⟨rfl, rfl⟩
  · split
    · exact ⟨rfl, rfl⟩
    · have added : (b.addAddrs arg).totals = b.totals ∧ (b.addAddrs arg).receipts = b.receipts :=
        ⟨rfl, rfl⟩
      rw [← added.1, ← added.2]
      generalize b.addAddrs arg = after
      dsimp only
      split
      · exact refused _ _ _ _
      · split
        · exact called _
        · split <;> exact ⟨rfl, rfl⟩

/-- An M_FILE is counted, or is a protocol error. -/
theorem receiveFILE_counts :
    (b.receiveFILE conf answers arg).1.totals = b.totals ∧
      ((b.receiveFILE conf answers arg).1.rc = .localaborted ∨
        (b.receiveFILE conf answers arg).1.receipts =
          (b.batchreceivecomplete, b.batchRecvCount + 1)) := by
  unfold receiveFILE resumeFile startFile replyRecv reply protoError
  dsimp only
  repeat' split
  all_goals first
    | exact ⟨rfl, .inr rfl⟩
    | exact ⟨rfl, .inl rfl⟩

theorem receiveData_counts (blockLength : Nat) :
    (b.receiveData answers arg blockLength).1.totals = b.totals ∧
      (b.receiveData answers arg blockLength).1.receipts = b.receipts := by
  unfold receiveData writeDone writeFailed protoError replyRecv reply
  dsimp only
  repeat' split
  all_goals exact ⟨rfl, rfl⟩

/-- In a transfer M_EOB and M_FILE are counted, unless they are protocol errors. -/
theorem receiveCommand_counts (transfer : b.mode = .transfer) (message : Bpmsg)
    (blockLength : Nat) :
    (b.receiveCommand conf answers message arg blockLength).1.totals = b.totals ∧
      ((b.receiveCommand conf answers message arg blockLength).1.rc = .localaborted ∨
        (b.receiveCommand conf answers message arg blockLength).1.receipts =
          match message with
          | .eob => (b.batchreceivecomplete + 1, b.batchRecvCount)
          | .file => (b.batchreceivecomplete, b.batchRecvCount + 1)
          | _ => b.receipts) := by
  cases message with
  | nul => exact ⟨rfl, .inr rfl⟩
  | adr => exact (receiveADR_counts conf b arg).imp_right .inr
  | pwd =>
    have apart : b.mode ≠ .incomingHandshake := by rw [transfer]; rintro ⟨⟩
    simp only [receiveCommand, receivePWD, if_pos apart]
    exact ⟨rfl, .inl rfl⟩
  | file => exact receiveFILE_counts conf answers b arg
  | ok =>
    have apart : b.mode ≠ .outgoingHandshake := by rw [transfer]; rintro ⟨⟩
    simp only [receiveCommand, receiveOK, if_pos apart]
    exact ⟨rfl, .inl rfl⟩
  | eob =>
    have here : ¬ b.mode ≠ .transfer := not_not.mpr transfer
    simp only [receiveCommand, receiveEOB, if_neg here]
    exact ⟨rfl, .inr rfl⟩
  | got => exact (receiveGotSkip_counts answers b arg false).imp_right .inr
  | err => exact ⟨rfl, .inr rfl⟩
  | bsy => exact ⟨rfl, .inr rfl⟩
  | get => exact (receiveGET_counts conf answers b arg).imp_right .inr
  | skip => exact (receiveGotSkip_counts answers b arg true).imp_right .inr

/-! The phase and the command that waits change where a file is announced again or given
up. -/

/-- The phase stays, and no M_FILE or M_EOB is queued. -/
def Idles (b after : BinkpState) : Prop :=
  after.phase = b.phase ∧ ∀ message text, after.extracmd = some (message, text) →
    b.extracmd = some (message, text) ∨ (message ≠ .file ∧ message ≠ .eob)

theorem Undisturbed.idles {b after : BinkpState} (calm : Undisturbed b after)
    (goes : after.extraislast = false) : Idles b after := by
  cases calm with
  | last waits =>
    unfold lastWaits at waits
    simp [goes] at waits
  | same mode phase slot _ =>
    exact ⟨phase, fun message text waits => .inl (slot ▸ waits)⟩
  | replied mode phase free command text slot _ other =>
    refine ⟨phase, fun message text waits => .inr ?_⟩
    rw [slot] at waits
    injection waits with waits
    obtain ⟨rfl, rfl⟩ := Prod.mk.inj waits
    exact other

/-- A file is announced again, or nothing happens. -/
def Announces (b after : BinkpState) : Prop :=
  Idles b after ∨ (after.phase = 2 ∧ ∀ text, after.extracmd ≠ some (.eob, text))

theorem announceAt_announces {b before : BinkpState} (phase : before.phase = b.phase)
    (slot : before.extracmd = b.extracmd) (offset : Nat) :
    Announces b (before.announceAt offset) := by
  unfold announceAt
  split
  · exact .inl ⟨phase, fun message text waits => .inl (slot ▸ waits)⟩
  · refine .inr ⟨rfl, fun text waits => ?_⟩
    injection waits with waits
    cases waits

theorem rewindTo_announces {b : BinkpState} (before : BinkpState) (phase : before.phase = b.phase)
    (slot : before.extracmd = b.extracmd) (offset : Nat) (msg : Bytes)
    (goes : (before.rewindTo answers offset msg).1.extraislast = false) :
    Announces b (before.rewindTo answers offset msg).1 ∧
      (before.rewindTo answers offset msg).2 ≠ .keep := by
  unfold rewindTo at goes ⊢
  split
  · rename_i moved
    rw [moved] at goes
    cases goes
  · exact ⟨announceAt_announces (by exact phase) (by exact slot) offset, nofun⟩

theorem reopenAt_announces {b : BinkpState} (before : BinkpState) (phase : before.phase = b.phase)
    (slot : before.extracmd = b.extracmd) (getfi : Bpfinfo)
    (goes : (before.reopenAt conf answers getfi).1.extraislast = false) :
    Announces b (before.reopenAt conf answers getfi).1 ∧
      (before.reopenAt conf answers getfi).2 ≠ .keep := by
  unfold reopenAt at goes ⊢
  split
  · rename_i found
    rw [found] at goes
    cases goes
  · rename_i pi found
    rw [found] at goes
    dsimp only at goes
    split
    · rename_i moved
      rw [moved] at goes
      cases goes
    · exact ⟨announceAt_announces (by exact phase) (by exact slot) getfi.offs, nofun⟩

/-- An M_GET that is not ignored is kept, ends the session, or announces a file. -/
theorem receiveGET_sending (getfi : Bpfinfo)
    (parsed : (binkpParsfinfo arg true answers.high).1 = some getfi)
    (goes : (b.receiveGET conf answers arg).1.extraislast = false) :
    Idles b (b.receiveGET conf answers arg).1 ∨
      (b.ignores getfi = false ∧ (b.receiveGET conf answers arg).2 ≠ .keep ∧
        Announces b (b.receiveGET conf answers arg).1) := by
  have calm : ∀ after : BinkpState, after.phase = b.phase → after.extracmd = b.extracmd →
      Idles b after := fun after phase slot =>
    ⟨phase, fun message text waits => .inl (slot ▸ waits)⟩
  unfold receiveGET at goes ⊢
  simp only [parsed] at goes ⊢
  split
  · rename_i apart
    rw [if_pos apart] at goes
    cases goes
  · rename_i transfer
    rw [if_neg transfer] at goes
    split
    · exact .inl (calm _ rfl rfl)
    · rename_i free
      rw [if_neg free] at goes
      split
      · rename_i absent
        rw [absent] at goes
        obtain ⟨announced, taken⟩ := reopenAt_announces conf answers
          (b.touch (binkpParsfinfo arg true answers.high).2) (b := b) rfl rfl getfi goes
        have given : b.pi.sending = none := absent
        exact .inr ⟨by simp [ignores, given], taken, announced⟩
      · rename_i current sending
        rw [sending] at goes
        have given : b.pi.sending = some current := sending
        dsimp only at goes ⊢
        split
        · rename_i wanted
          have plain : b.ignores getfi = false := by
            unfold ignores
            rw [given, Option.any_some, wanted, Bool.not_true, Bool.and_false]
          exact .inr ⟨plain, nofun, announceAt_announces (by rfl) (by rfl) _⟩
        · rename_i unwanted
          rw [if_neg unwanted] at goes
          split
          · exact .inl (calm _ rfl rfl)
          · rename_i spooled
            rw [if_neg spooled] at goes
            have plain : b.ignores getfi = false := by simp [ignores, given, spooled]
            split
            · rename_i same
              rw [if_pos same] at goes
              obtain ⟨announced, taken⟩ :=
                rewindTo_announces answers (b.touch (binkpParsfinfo arg true answers.high).2)
                  (b := b) rfl rfl getfi.offs _ goes
              exact .inr ⟨plain, taken, announced⟩
            · rename_i other
              rw [if_neg other] at goes
              obtain ⟨announced, taken⟩ :=
                reopenAt_announces conf answers (b.touch (binkpParsfinfo arg true answers.high).2)
                  (b := b) rfl rfl getfi goes
              exact .inr ⟨plain, taken, announced⟩

/-- An M_GOT or M_SKIP gives the current file up, or changes nothing of what is sent. -/
theorem receiveGotSkip_sending (skip : Bool) (fi : Bpfinfo)
    (parsed : (binkpParsfinfo arg false answers.high).1 = some fi)
    (goes : (b.receiveGotSkip answers skip arg).1.extraislast = false) :
    Idles b (b.receiveGotSkip answers skip arg).1 ∨
      (b.aborts fi = true ∧ (b.receiveGotSkip answers skip arg).1.phase = 0 ∧
        (b.receiveGotSkip answers skip arg).1.extracmd = b.extracmd) := by
  have named : ∀ (before : BinkpState) file,
      (before.gotSkipNamed answers skip file).1.extraislast = false →
      (before.gotSkipNamed answers skip file).1.phase = before.phase ∧
        (before.gotSkipNamed answers skip file).1.extracmd = before.extracmd := by
    intro before file goes
    have closed : ∀ (b : BinkpState) index status,
        (b.closeNamed answers.told index status).phase = b.phase ∧
          (b.closeNamed answers.told index status).extracmd = b.extracmd := by
      intro b index status
      unfold closeNamed checkConfirmed
      dsimp only
      split <;> exact ⟨rfl, rfl⟩
    revert goes
    unfold gotSkipNamed protoError
    dsimp only [queue]
    repeat' split
    all_goals first
      | exact fun _ => closed _ _ _
      | exact fun goes => absurd (show true = false from goes) (by decide)
  unfold receiveGotSkip at goes ⊢
  simp only [parsed] at goes ⊢
  split
  · rename_i apart
    rw [if_pos apart] at goes
    cases goes
  · rename_i transfer
    rw [if_neg transfer] at goes
    split
    · exact .inl ⟨rfl, fun _ _ => .inl⟩
    · rename_i current sending
      rw [sending] at goes
      have given : b.pi.sending = some current := sending
      dsimp only at goes ⊢
      split
      · rename_i unfinished
        rw [if_pos unfinished] at goes
        split
        · rename_i spooled
          rw [if_pos spooled] at goes
          cases goes
        · rename_i plain
          rw [if_neg plain] at goes
          obtain ⟨phase, slot⟩ := named _ _ goes
          exact .inr ⟨by simp [aborts, given, unfinished.1, unfinished.2], phase, slot⟩
      · rename_i other
        rw [if_neg other] at goes
        obtain ⟨phase, slot⟩ := named _ _ goes
        exact .inl ⟨phase, fun _ _ waits => .inl (slot ▸ waits)⟩

/-- What a command changes of what is sent. -/
theorem receiveCommand_sending (transfer : b.mode = .transfer) (message : Bpmsg)
    (blockLength : Nat)
    (goes : (b.receiveCommand conf answers message arg blockLength).1.extraislast = false) :
    Idles b (b.receiveCommand conf answers message arg blockLength).1 ∨
      (∃ fi, message = .get ∧ (binkpParsfinfo arg true answers.high).1 = some fi ∧
        b.ignores fi = false ∧
        (b.receiveCommand conf answers message arg blockLength).2 ≠ .keep ∧
        Announces b (b.receiveCommand conf answers message arg blockLength).1) ∨
      (∃ fi, (message = .got ∨ message = .skip) ∧
        (binkpParsfinfo arg false answers.high).1 = some fi ∧ b.aborts fi = true ∧
        (b.receiveCommand conf answers message arg blockLength).2 ≠ .keep ∧
        (b.receiveCommand conf answers message arg blockLength).1.phase = 0 ∧
        (b.receiveCommand conf answers message arg blockLength).1.extracmd = b.extracmd) := by
  have gotSkip : ∀ skip, (b.receiveGotSkip answers skip arg).1.extraislast = false →
      Idles b (b.receiveGotSkip answers skip arg).1 ∨
      ∃ fi, (binkpParsfinfo arg false answers.high).1 = some fi ∧ b.aborts fi = true ∧
        (b.receiveGotSkip answers skip arg).2 ≠ .keep ∧
        (b.receiveGotSkip answers skip arg).1.phase = 0 ∧
        (b.receiveGotSkip answers skip arg).1.extracmd = b.extracmd := by
    intro skip goes
    cases parsed : (binkpParsfinfo arg false answers.high).1 with
    | none =>
      have failed : (b.receiveGotSkip answers skip arg).1.extraislast = true := by
        unfold receiveGotSkip
        simp only [parsed, transfer, ne_eq, not_true_eq_false, if_false]
        rfl
      rw [failed] at goes
      cases goes
    | some fi =>
      rcases receiveGotSkip_sending answers b arg skip fi parsed goes with idles | ⟨named, rest⟩
      · exact .inl idles
      · exact .inr ⟨fi, rfl, named, receiveGotSkip_kept answers b arg skip, rest⟩
  have still : ∀ after : BinkpState, after.phase = b.phase → after.extracmd = b.extracmd →
      Idles b after := fun _ phase slot =>
    ⟨phase, fun message text waits => .inl (slot ▸ waits)⟩
  cases message with
  | nul => exact .inl (still _ rfl rfl)
  | adr => exact .inl ((receiveADR_undisturbed conf b arg).idles goes)
  | pwd => exact .inl ((receivePWD_undisturbed conf answers b arg blockLength).idles goes)
  | file => exact .inl ((receiveFILE_undisturbed conf answers b arg).idles goes)
  | ok => exact .inl ((receiveOK_undisturbed answers b).idles goes)
  | eob => exact .inl ((receiveEOB_undisturbed b).idles goes)
  | err => exact .inl (still _ rfl rfl)
  | bsy => exact .inl (still _ rfl rfl)
  | got =>
    rcases gotSkip false goes with idles | ⟨fi, rest⟩
    · exact .inl idles
    · exact .inr (.inr ⟨fi, .inl rfl, rest⟩)
  | skip =>
    rcases gotSkip true goes with idles | ⟨fi, rest⟩
    · exact .inl idles
    · exact .inr (.inr ⟨fi, .inr rfl, rest⟩)
  | get =>
    cases parsed : (binkpParsfinfo arg true answers.high).1 with
    | none =>
      have failed : (b.receiveGET conf answers arg).1.extraislast = true := by
        unfold receiveGET
        simp only [parsed, transfer, ne_eq, not_true_eq_false, if_false]
        rfl
      exact absurd (failed.symm.trans goes) (by decide)
    | some fi =>
      rcases receiveGET_sending conf answers b arg fi parsed goes with idles | rest
      · exact .inl idles
      · exact .inr (.inl ⟨fi, rfl, rfl, rest⟩)

end Receipts

end BinkpState

end Binkleyforce
