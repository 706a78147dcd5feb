import Binkleyforce.Binkp.Completion

/-!
# Whether the current files are there

The code follows `pi->send` and `pi->recv` without looking at them in most places. The
phases that read a file are only entered with one, and data is only written while one
is open. M_GOT and M_SKIP compare their name with that of the file being sent, and
before the first file was opened, or after one was given up, there is none.
-/

namespace Binkleyforce

open Library

section Current

variable {pi : Protinfo}

/-- A file that was opened is the current one. -/
theorem pTxFopen_sending (conf : TransferConf) (answers : TxOpenAnswers)
    (opened : (pTxFopen conf answers pi).2 = true) :
    (pTxFopen conf answers pi).1.sending.isSome = true := by
  have begun : ∀ (pi : Protinfo) (fresh : Finfo), (pi.begin fresh).sending = some fresh := by
    intro pi fresh
    simp [Protinfo.begin, Protinfo.sending]
  unfold pTxFopen at opened ⊢
  dsimp only at opened ⊢
  split
  · simp_all
  · rw [begun]
    rfl
  · split
    · rw [begun]
      rfl
    · simp_all

/-- So is one that was opened again. -/
theorem pTxReopen_sending (holdall : Bool) (hint : FileHint)
    (opened : (pTxReopen holdall hint pi).2 = true) :
    (pTxReopen holdall hint pi).1.sending.isSome = true := by
  unfold pTxReopen at opened ⊢
  split
  · simp_all
  · split
    · simp_all
    · rename_i index found
      split
      · simp_all
      · rename_i there
        rw [changeSend_sending]
        cases held : pi.sentfiles[index]? with
        | none => simp [held] at there
        | some finf => simp [Protinfo.sending, held]

/-- Changing the position keeps it. -/
theorem pTxRewind_sending (pos : Nat) :
    (pTxRewind pos pi).1.sending.isSome = pi.sending.isSome := by
  unfold pTxRewind
  split
  · rfl
  · split
    · rfl
    · rw [changeSend_sending, Option.isSome_map]

/-- A changed current file is still there. -/
theorem changeSend_present (change : Finfo → Finfo) :
    (pi.changeSend change).sending.isSome = pi.sending.isSome := by
  rw [changeSend_sending, Option.isSome_map]

/-- So is one of the network spool that was read. -/
theorem readNetspool_sending (answers : TxReadAnswers) (buflen : Nat) :
    (readNetspool answers buflen pi).1.sending.isSome = pi.sending.isSome := by
  unfold readNetspool
  split
  · exact changeSend_present _
  · dsimp only
    split
    · rw [changeSend_present, changeSend_present]
      rfl
    · rw [changeSend_present]
      rfl

/-- Reading a current file succeeds or fails without losing it. -/
theorem pTxReadfile_sending (answers : TxReadAnswers) (buflen : Nat)
    (current : pi.sending.isSome = true) :
    ∃ after result, pTxReadfile answers buflen pi = some (after, result) ∧
      after.sending.isSome = true := by
  obtain ⟨finf, there⟩ := Option.isSome_iff_exists.mp current
  unfold pTxReadfile
  rw [there]
  dsimp only
  split
  · exact ⟨_, _, rfl, (readNetspool_sending answers buflen).trans current⟩
  · split
    · exact ⟨_, _, rfl, current⟩
    · exact ⟨_, _, rfl, (changeSend_present _).trans current⟩

/-- Closing a file in the list keeps the current one in it. -/
theorem closed_sending (told : Bool) (index : Nat) (change : Finfo → Finfo) :
    ({ pTxFclose told ({ pi with send := some index }.changeSend change) with
      send := pi.send } : Protinfo).sending.isSome = pi.sending.isSome := by
  have files : (pTxFclose told ({ pi with send := some index }.changeSend change)).sentfiles.length =
      pi.sentfiles.length := by
    unfold pTxFclose
    split <;> simp [Protinfo.changeSend, Protinfo.changeSent]
  unfold Protinfo.sending
  cases pi.send with
  | none => rfl
  | some other =>
    rw [Option.bind_some, Option.bind_some, Bool.eq_iff_iff]
    simp only [Option.isSome_iff_ne_none, ne_eq, List.getElem?_eq_none_iff, files]

end Current

namespace BinkpState

/-- The phases that use the file being sent have one, unless a command that ends the
session comes before them. -/
def Posed (b : BinkpState) : Prop :=
  b.lastWaits = true ∨ (b.phase ≠ 1 ∧ (b.phase = 2 ∨ b.phase = 3 → b.pi.sending.isSome = true))

/-- Data is written to an open file. -/
def OpenForData (b : BinkpState) : Prop :=
  b.frs = .data → ∃ finf, b.pi.receiving = some finf ∧ finf.fp.isSome = true

/-- What holds throughout a transfer. -/
structure Present (b : BinkpState) : Prop where
  mode : b.mode = .transfer
  posed : b.Posed
  open_data : b.OpenForData

/-- The next block was made without following a null pointer; where the loop goes on,
the invariant holds. -/
def Made (made : BinkpState × SendResult) : Prop :=
  made.2 ≠ .crashed ∧ (made.2 ≠ .error → made.1.Posed)

section Sending

variable (conf : BinkpConf) (answers : SendAnswers) (b : BinkpState)

/-- The next file is opened and announced, or the batch ends. -/
theorem sendNextFile_made (phase : b.phase = 0) : Made (b.sendNextFile conf answers) := by
  have opened := @pTxFopen_sending b.pi
    { conf.files with noRemoteaddr := b.remoteaddrs.isEmpty } answers.opening
  unfold sendNextFile
  split
  · exact ⟨nofun, fun _ => .inr ⟨nofun, nofun⟩⟩
  · rename_i pi given
    rw [given] at opened
    replace opened := opened rfl
    obtain ⟨finf, current⟩ := Option.isSome_iff_exists.mp opened
    unfold sendFile
    dsimp only
    rw [current]
    dsimp only
    split
    · exact ⟨nofun, fun _ => .inr ⟨by dsimp only; omega, fun _ => opened⟩⟩
    · exact ⟨nofun, fun _ => .inr ⟨by dsimp only; omega, fun _ => opened⟩⟩

/-- Waiting for an acknowledgement keeps the file that is there. -/
theorem awaitAck_made (phase : b.phase = 3) (current : b.pi.sending.isSome = true) :
    Made (b.awaitAck conf answers) := by
  unfold awaitAck
  split
  · rename_i absent
    rw [absent] at current
    cases current
  · split
    · exact ⟨nofun, fun _ => .inr ⟨by rw [phase]; decide, fun _ => current⟩⟩
    · exact sendNextFile_made conf answers _ rfl

/-- So does the reading of its data. -/
theorem sendData_made (phase : b.phase = 2) (current : b.pi.sending.isSome = true) :
    Made (b.sendData conf answers) := by
  obtain ⟨pi, result, read, there⟩ :=
    @pTxReadfile_sending b.pi answers.reading dataBlockSize current
  have marked : ∀ change, (pi.changeSend change).sending.isSome = true :=
    fun change => (changeSend_present change).trans there
  unfold sendData
  rw [read]
  cases result with
  | data bytes =>
    cases bytes with
    | nil => exact awaitAck_made conf answers _ (congrArg (· + 1) phase) (marked _)
    | cons byte bytes => exact ⟨nofun, fun _ => .inr ⟨by rw [phase]; decide, fun _ => marked _⟩⟩
  | error => exact ⟨nofun, fun fine => absurd rfl fine⟩
  | skip => exact ⟨nofun, fun fine => absurd rfl fine⟩

/-- Making the next block of a transfer follows no null pointer. -/
theorem getforsend_made (present : Present b) : Made (b.getforsend conf answers) := by
  obtain ⟨mode, posed, _⟩ := present
  unfold getforsend
  split
  · rename_i message text waits
    refine ⟨by rintro ⟨⟩, fun _ => .inr ?_⟩
    dsimp only
    split
    · exact ⟨by rintro ⟨⟩, by rintro (⟨⟨⟩⟩ | ⟨⟨⟩⟩)⟩
    · rename_i plain
      rcases posed with last | going
      · exact absurd last (by simp [lastWaits, plain])
      · exact going
  · rename_i free
    have going : b.phase ≠ 1 ∧ (b.phase = 2 ∨ b.phase = 3 → b.pi.sending.isSome = true) :=
      posed.resolve_left (by simp [lastWaits, free])
    rw [if_pos mode]
    unfold transferForsend
    split
    · rename_i phase
      exact sendNextFile_made conf answers b phase
    · rename_i phase
      exact absurd phase going.1
    · rename_i phase
      exact sendData_made conf answers b phase (going.2 (.inl phase))
    · rename_i phase
      exact awaitAck_made conf answers b phase (going.2 (.inr phase))
    · exact ⟨by rintro ⟨⟩, fun _ => .inr ⟨by simp [sendEOB, *], by simp [sendEOB, *]⟩⟩
    · exact ⟨by rintro ⟨⟩, fun _ => .inr going⟩
    · exact ⟨by rintro ⟨⟩, fun _ => .inr going⟩

end Sending

section Receiving

variable {conf : BinkpConf} {b : BinkpState} (answers : ReceiveAnswers) (arg : Pointer)

/-- What does not concern the sending side leaves it posed. -/
theorem posed_calm {after : BinkpState} (posed : b.Posed) (calm : Undisturbed b after)
    (side : after.sendingSide = b.sendingSide) : after.Posed := by
  have current : after.pi.sending = b.pi.sending := by
    simp only [sendingSide, Prod.mk.injEq] at side
    exact sending_of_sendingPart side.1
  cases calm with
  | last waits => exact .inl waits
  | same mode phase slot goes =>
    rcases posed with last | going
    · exact .inl (by rwa [lastWaits, slot, goes])
    · exact .inr (by rwa [phase, current])
  | replied mode phase free command text slot goes other =>
    have going := posed.resolve_left (by simp [lastWaits, free])
    exact .inr (by rwa [phase, current])

/-- Closing the named file leaves it posed, or a protocol error ends the session. -/
theorem gotSkipNamed_posed (posed : b.Posed) (skip : Bool) (fi : FileHint) :
    (b.gotSkipNamed answers skip fi).1.Posed ∧ (b.gotSkipNamed answers skip fi).2 ≠ .crashed := by
  have closed : ∀ (before : BinkpState) index status, before.Posed →
      (before.closeNamed answers.told index status).Posed := by
    intro before index status posed
    have current := @closed_sending before.pi answers.told index fun finf =>
      { finf with status }
    unfold closeNamed checkConfirmed
    dsimp only
    split <;> exact posed.imp id fun going => ⟨going.1, fun reads => current.trans (going.2 reads)⟩
  unfold gotSkipNamed
  dsimp only
  split
  · exact ⟨.inl rfl, nofun⟩
  · split
    · split
      · exact ⟨.inl rfl, nofun⟩
      · exact ⟨closed _ _ _ posed, nofun⟩
    · split
      · exact ⟨closed { b with gots := _ } _ _ posed, nofun⟩
      · split
        · exact ⟨.inl rfl, nofun⟩
        · exact ⟨closed { b with gots := _ } _ _ posed, nofun⟩

/-- M_GOT and M_SKIP follow no null pointer where a file is being sent. -/
theorem receiveGotSkip_posed (posed : b.Posed) (skip : Bool)
    (present : (binkpParsfinfo arg false answers.high).1.isSome = true →
      b.pi.sending.isSome = true) :
    (b.receiveGotSkip answers skip arg).1.Posed ∧
      (b.receiveGotSkip answers skip arg).2 ≠ .crashed := by
  unfold receiveGotSkip
  dsimp only
  split
  · exact ⟨.inl rfl, nofun⟩
  · split
    · exact ⟨.inl rfl, nofun⟩
    · rename_i fi parsed
      split
      · rename_i absent
        have there := present (by rw [parsed]; rfl)
        rw [show b.pi.sending = none from absent] at there
        cases there
      · split
        · split
          · exact ⟨.inl rfl, nofun⟩
          · refine gotSkipNamed_posed answers ?_ skip _
            exact .inr ⟨nofun, nofun⟩
        · exact gotSkipNamed_posed answers (b := b.touch _) posed skip _

/-- Without one they do. -/
theorem receiveGotSkip_absent (mode : b.mode = .transfer) (skip : Bool)
    (parsed : (binkpParsfinfo arg false answers.high).1.isSome = true)
    (absent : b.pi.sending = none) : (b.receiveGotSkip answers skip arg).2 = .crashed := by
  obtain ⟨fi, there⟩ := Option.isSome_iff_exists.mp parsed
  have none_there : (b.touch (binkpParsfinfo arg false answers.high).2).pi.sending = none := absent
  unfold receiveGotSkip
  rw [if_neg (by simp [mode])]
  dsimp only
  rw [there]
  dsimp only
  rw [none_there]

/-- A file announced again is the current one. -/
theorem announceAt_posed (current : b.pi.sending.isSome = true) (offset : Nat) :
    (b.announceAt offset).Posed := by
  unfold announceAt
  split
  · rename_i absent
    rw [absent] at current
    cases current
  · exact .inr ⟨nofun, fun _ => current⟩

theorem rewindTo_posed (offset : Nat) (msg : Bytes) (current : b.pi.sending.isSome = true) :
    (b.rewindTo answers offset msg).1.Posed := by
  have rewound := @pTxRewind_sending b.pi offset
  unfold rewindTo
  split
  · exact .inl rfl
  · rename_i pi sought
    rw [sought] at rewound
    exact announceAt_posed ((changeSend_present _).trans (rewound.trans current)) offset

theorem reopenAt_posed (getfi : Bpfinfo) : (b.reopenAt conf answers getfi).1.Posed := by
  have reopened := @pTxReopen_sending b.pi conf.files.holdall
    ⟨getfi.fn, getfi.sz, getfi.tm⟩
  unfold reopenAt
  split
  · exact .inl rfl
  · rename_i pi found
    rw [found] at reopened
    have rewound := @pTxRewind_sending pi getfi.offs
    split
    · exact .inl rfl
    · rename_i last sought
      rw [sought] at rewound
      exact announceAt_posed ((changeSend_present _).trans (rewound.trans (reopened rfl))) _

/-- M_GET. -/
theorem receiveGET_posed (posed : b.Posed) : (b.receiveGET conf answers arg).1.Posed := by
  have touched : (b.touch (binkpParsfinfo arg true answers.high).2).Posed := posed
  unfold receiveGET
  dsimp only
  split
  · exact .inl rfl
  · split
    · exact .inl rfl
    · split
      · exact touched
      · split
        · exact reopenAt_posed answers _
        · rename_i current there
          have present : (b.touch (binkpParsfinfo arg true answers.high).2).pi.sending.isSome =
              true := by
            rw [there]
            rfl
          split
          · exact announceAt_posed present _
          · split
            · exact touched
            · split
              · exact rewindTo_posed answers _ _ present
              · exact reopenAt_posed answers _

/-- M_FILE where a file may start opens it for data, or none comes. -/
theorem startFile_open (recvfi : Bpfinfo) :
    (b.startFile conf answers recvfi).1.OpenForData ∧
      (b.startFile conf answers recvfi).2 ≠ .crashed := by
  obtain ⟨finf, current, _, _, opened⟩ := @pRxFopen_opened b.pi conf.files answers.rxOpen
    ⟨recvfi.fn, recvfi.sz, recvfi.tm⟩
  unfold startFile
  generalize pRxFopen conf.files answers.rxOpen ⟨recvfi.fn, recvfi.sz, recvfi.tm⟩ b.pi = given at *
  obtain ⟨pi, result⟩ := given
  dsimp only at current opened ⊢
  rw [current]
  cases result with
  | accept =>
    dsimp only
    split
    · exact ⟨fun _ => ⟨finf, current, opened rfl⟩, nofun⟩
    · exact ⟨nofun, nofun⟩
  | refuse => exact ⟨nofun, nofun⟩
  | skip => exact ⟨nofun, nofun⟩

/-- After an M_GET data is only taken for the file that was asked for. -/
theorem resumeFile_open (asked : b.frs = .didget) (recvfi : Bpfinfo) :
    (b.resumeFile answers recvfi).1.OpenForData ∧
      (b.resumeFile answers recvfi).2 ≠ .crashed := by
  have other : ∀ after : BinkpState, after.frs = b.frs → after.OpenForData :=
    fun after same data => absurd (asked.symm.trans (same.symm.trans data)) nofun
  unfold resumeFile
  split
  · rename_i wanted
    refine ⟨fun _ => ?_, nofun⟩
    obtain ⟨finf, current, found⟩ := (Option.any_eq_true _ _).mp wanted
    simp only [Bool.and_eq_true] at found
    exact ⟨finf, current, found.2⟩
  · split
    · exact ⟨other _ rfl, nofun⟩
    · exact ⟨other _ rfl, nofun⟩

/-- M_FILE. -/
theorem receiveFILE_open (open_data : b.OpenForData) :
    (b.receiveFILE conf answers arg).1.OpenForData ∧
      (b.receiveFILE conf answers arg).2 ≠ .crashed := by
  unfold receiveFILE
  dsimp only
  split
  · exact ⟨open_data, nofun⟩
  · split
    · exact ⟨open_data, nofun⟩
    · split
      · exact ⟨open_data, nofun⟩
      · rename_i asked
        refine resumeFile_open answers ?_ _
        exact asked
      all_goals
        split
        · exact ⟨open_data, nofun⟩
        · exact startFile_open answers _

/-- The file is there when it is closed. -/
theorem pRxFclose_present {pi : Protinfo} (closing : RxCloseAnswers) (finf : Finfo)
    (current : pi.receiving = some finf) : ∃ after done, pRxFclose closing pi = some (after, done) := by
  unfold pRxFclose
  rw [current]
  dsimp only
  split
  · exact ⟨_, _, rfl⟩
  · exact ⟨_, _, rfl⟩

/-- Data that could not be written. -/
theorem writeFailed_open (result : RxWrite) (finf : Finfo) (current : b.pi.receiving = some finf) :
    (b.writeFailed answers result).1.OpenForData ∧
      (b.writeFailed answers result).2 ≠ .crashed := by
  unfold writeFailed
  dsimp only
  have there : (b.replyRecv (if result = .skip then .got else .skip) []).pi.receiving = some finf := by
    unfold replyRecv
    rw [current]
    exact current
  obtain ⟨after, done, closed⟩ := pRxFclose_present answers.rxClose finf there
  rw [closed]
  exact ⟨nofun, nofun⟩

/-- Data that was written. -/
theorem writeDone_open (blockLength : Nat) (finf : Finfo) (current : b.pi.receiving = some finf)
    (opened : finf.fp.isSome = true) :
    (b.writeDone answers blockLength).1.OpenForData ∧
      (b.writeDone answers blockLength).2 ≠ .crashed := by
  have counted := @changeRecv_receiving b.pi
    fun finf => { finf with bytesReceived := finf.bytesReceived + blockLength }
  rw [current] at counted
  unfold writeDone
  generalize b.pi.changeRecv (fun finf =>
    { finf with bytesReceived := finf.bytesReceived + blockLength }) = pi at counted ⊢
  dsimp only
  rw [counted]
  have closes := fun status => @pRxFclose_present (pi.changeRecv fun finf =>
    { finf with status }) answers.rxClose _ ((changeRecv_receiving _).trans (congrArg _ counted))
  dsimp only [Option.map_some]
  split
  · obtain ⟨after, done, closed⟩ := closes .refused
    rw [closed]
    exact ⟨nofun, nofun⟩
  · split
    · obtain ⟨after, done, closed⟩ := closes .success
      rw [closed]
      have idle : ∀ message, (({ b with frs := .nothing, pi := after } : BinkpState).replyRecv
          message []).OpenForData := by
        intro message
        unfold replyRecv
        split <;> exact nofun
      cases done with
      | true => exact ⟨idle .got, nofun⟩
      | false => exact ⟨idle .skip, nofun⟩
    · exact ⟨fun _ => ⟨_, counted, opened⟩, nofun⟩

/-- A data block. -/
theorem receiveData_open (open_data : b.OpenForData) (blockLength : Nat) :
    (b.receiveData answers arg blockLength).1.OpenForData ∧
      (b.receiveData answers arg blockLength).2 ≠ .crashed := by
  unfold receiveData
  split
  · exact ⟨open_data, nofun⟩
  · split
    · exact ⟨open_data, nofun⟩
    · exact ⟨open_data, nofun⟩
    · exact ⟨open_data, nofun⟩
    · rename_i data
      split
      · exact ⟨open_data, nofun⟩
      · obtain ⟨finf, current, opened⟩ := open_data data
        obtain ⟨stream, there⟩ := Option.isSome_iff_exists.mp opened
        have written : pRxWritefile answers.rxWrite (arg.memory.take blockLength) b.pi =
            some (b.pi.changeRecv fun _ =>
                (writeStream answers.rxWrite (arg.memory.take blockLength) stream finf).1,
              (writeStream answers.rxWrite (arg.memory.take blockLength) stream finf).2) := by
          unfold pRxWritefile
          rw [current]
          dsimp only
          rw [there]
        have after := @changeRecv_receiving b.pi fun _ =>
          (writeStream answers.rxWrite (arg.memory.take blockLength) stream finf).1
        rw [current, Option.map_some] at after
        dsimp only [touch]
        rw [written]
        have still : (writeStream answers.rxWrite (arg.memory.take blockLength) stream
            finf).1.fp.isSome = true := by
          unfold writeStream
          repeat' split
          all_goals first
            | exact opened
            | rfl
        split
        · rename_i none_written
          cases none_written
        · rename_i given
          obtain ⟨rfl, _⟩ := Prod.mk.inj (Option.some.inj given)
          exact writeDone_open answers (b := { b with pi := _, accesses := _ }) _ _ after still
        · rename_i given
          obtain ⟨rfl, _⟩ := Prod.mk.inj (Option.some.inj given)
          exact writeFailed_open answers (b := { b with pi := _, accesses := _ }) _ _ after

/-- The other commands follow no null pointer. -/
theorem receiveCommand_follows_none (message : Bpmsg) (blockLength : Nat)
    (other : message ≠ .file ∧ message ≠ .got ∧ message ≠ .skip) :
    (b.receiveCommand conf answers message arg blockLength).2 ≠ .crashed := by
  cases message with
  | nul => exact nofun
  | adr =>
    show (b.receiveADR conf arg).2 ≠ _
    unfold receiveADR checkCalled refuse
    generalize b.addAddrs arg = after
    dsimp only
    repeat' split
    all_goals exact nofun
  | pwd =>
    show (b.receivePWD conf answers arg blockLength).2 ≠ _
    unfold receivePWD refuse
    dsimp only
    repeat' split
    all_goals exact nofun
  | file => exact absurd rfl other.1
  | ok =>
    show (b.receiveOK answers).2 ≠ _
    unfold receiveOK refuse
    dsimp only
    repeat' split
    all_goals exact nofun
  | eob =>
    show b.receiveEOB.2 ≠ _
    unfold receiveEOB
    split <;> exact nofun
  | got => exact absurd rfl other.2.1
  | err => exact nofun
  | bsy => exact nofun
  | get =>
    show (b.receiveGET conf answers arg).2 ≠ _
    unfold receiveGET reopenAt rewindTo
    dsimp only
    repeat' split
    all_goals exact nofun
  | skip => exact absurd rfl other.2.2

/-- A command keeps the files that are used where M_GOT and M_SKIP find one. -/
theorem receiveCommand_present (present : Present b) (message : Bpmsg) (blockLength : Nat)
    (named : message = .got ∨ message = .skip →
      (binkpParsfinfo arg false answers.high).1.isSome = true → b.pi.sending.isSome = true) :
    (b.receiveCommand conf answers message arg blockLength).2 ≠ .crashed ∧
      (b.receiveCommand conf answers message arg blockLength).1.Posed ∧
      (b.receiveCommand conf answers message arg blockLength).1.OpenForData := by
  obtain ⟨mode, posed, open_data⟩ := present
  have aside : message ≠ .file →
      (b.receiveCommand conf answers message arg blockLength).1.OpenForData := by
    intro other
    have same := receiveCommand_receivingSide conf answers b arg message blockLength other
    simp only [receivingSide, Prod.mk.injEq] at same
    intro data
    rw [same.2]
    exact open_data (same.1.symm.trans data)
  have calm : ∀ plain : message ≠ .got ∧ message ≠ .skip ∧ message ≠ .get,
      Undisturbed b (b.receiveCommand conf answers message arg blockLength).1 →
      (b.receiveCommand conf answers message arg blockLength).1.Posed := fun plain undisturbed =>
    posed_calm posed undisturbed
      (receiveCommand_sendingSide conf answers b arg message blockLength plain)
  have follows := @receiveCommand_follows_none conf b answers arg message blockLength
  cases message with
  | nul =>
    exact ⟨follows ⟨nofun, nofun, nofun⟩, calm ⟨nofun, nofun, nofun⟩ (.same rfl rfl rfl rfl),
      aside nofun⟩
  | adr =>
    exact ⟨follows ⟨nofun, nofun, nofun⟩,
      calm ⟨nofun, nofun, nofun⟩ (receiveADR_undisturbed conf b arg), aside nofun⟩
  | pwd =>
    exact ⟨follows ⟨nofun, nofun, nofun⟩,
      calm ⟨nofun, nofun, nofun⟩ (receivePWD_undisturbed conf answers b arg blockLength),
      aside nofun⟩
  | file =>
    have opened := @receiveFILE_open conf _ answers arg open_data
    exact ⟨opened.2, calm ⟨nofun, nofun, nofun⟩ (receiveFILE_undisturbed conf answers b arg),
      opened.1⟩
  | ok =>
    exact ⟨follows ⟨nofun, nofun, nofun⟩,
      calm ⟨nofun, nofun, nofun⟩ (receiveOK_undisturbed answers b), aside nofun⟩
  | eob =>
    exact ⟨follows ⟨nofun, nofun, nofun⟩,
      calm ⟨nofun, nofun, nofun⟩ (receiveEOB_undisturbed b), aside nofun⟩
  | got =>
    have closed := receiveGotSkip_posed answers arg posed false (named (.inl rfl))
    exact ⟨closed.2, closed.1, aside nofun⟩
  | err =>
    exact ⟨follows ⟨nofun, nofun, nofun⟩, calm ⟨nofun, nofun, nofun⟩ (.same rfl rfl rfl rfl),
      aside nofun⟩
  | bsy =>
    exact ⟨follows ⟨nofun, nofun, nofun⟩, calm ⟨nofun, nofun, nofun⟩ (.same rfl rfl rfl rfl),
      aside nofun⟩
  | get =>
    exact ⟨follows ⟨nofun, nofun, nofun⟩, receiveGET_posed answers arg posed, aside nofun⟩
  | skip =>
    have closed := receiveGotSkip_posed answers arg posed true (named (.inr rfl))
    exact ⟨closed.2, closed.1, aside nofun⟩

end Receiving

end BinkpState

namespace BinkpLoop

/-- The block handed over is an M_GOT or M_SKIP for a file while none is being sent. -/
def namesAbsent (l : BinkpLoop) (input : LoopInput) : Bool :=
  match l.command with
  | some (.got, arg) | some (.skip, arg) =>
    (binkpParsfinfo arg false input.receiving.high).1.isSome && l.state.pi.sending.isNone
  | _ => false

/-- No such block is handed over in the turn. -/
def FilesThere (conf : BinkpConf) : BinkpLoop → LoopInput → Prop :=
  Handing conf fun l input => namesAbsent l input = false

instance (conf : BinkpConf) (l : BinkpLoop) (input : LoopInput) :
    Decidable (FilesThere conf l input) := by
  unfold FilesThere
  infer_instance

variable {conf : BinkpConf}

/-- A block that is handed over keeps the files that are used. -/
theorem hand_present (l : BinkpLoop) (input : LoopInput) (present : l.state.Present)
    (there : namesAbsent l input = false) :
    (l.hand conf input).2 ≠ .crashed ∧ (l.hand conf input).1.Present := by
  have handled : (l.hand conf input).2 ≠ .crashed ∧ (l.hand conf input).1.Posed ∧
      (l.hand conf input).1.OpenForData := by
    refine hand_cases conf input l
      (fun after => after.2 ≠ .crashed ∧ after.1.Posed ∧ after.1.OpenForData) ?_ ?_ ?_
    · intro _
      have data := BinkpState.receiveData_open input.receiving
        ⟨l.readPos - binkpHeader, 0, l.readbuf.drop binkpHeader⟩ present.open_data l.handedLength
      exact ⟨data.2, BinkpState.posed_calm present.posed
        (BinkpState.receiveData_undisturbed input.receiving l.state _ _)
        (BinkpState.receiveData_sendingSide input.receiving l.state _ _), data.1⟩
    · intro accesses msg _
      exact ⟨nofun, .inl rfl, present.open_data⟩
    · intro message arg found
      have touched : (l.state.touch [.read 1 (l.readPos - binkpHeader)]).Present :=
        ⟨present.mode, present.posed, present.open_data⟩
      refine BinkpState.receiveCommand_present input.receiving arg touched message _ ?_
      intro named parsed
      have absent : l.state.pi.sending.isNone = false := by
        unfold namesAbsent at there
        rw [found] at there
        rcases named with rfl | rfl
        · simpa [parsed] using there
        · simpa [parsed] using there
      have here : l.state.pi.sending.isSome = true := by simpa using absent
      exact here
  exact ⟨handled.1, (hand_follows conf input l).mode.trans present.mode, handled.2.1,
    handled.2.2⟩

/-- So does the making of the next block. -/
theorem fetch_present (l : BinkpLoop) (input : LoopInput) (present : l.state.Present) :
    (l.fetch conf input).Ends (fun after => after.state.Present)
      (fun _ result => result ≠ .crashed) := by
  have resumed : l.resume.state.Present := by
    unfold resume
    split
    · exact ⟨present.mode, present.posed, present.open_data⟩
    · exact present
  unfold fetch
  generalize l.resume = ready at resumed
  have made := BinkpState.getforsend_made conf input.sending ready.state resumed
  have mode := (BinkpState.getforsend_follows conf ready.state input.sending).mode
  have open_data : (ready.state.getforsend conf input.sending).1.OpenForData := by
    cases slot : ready.state.extracmd with
    | none =>
      have other := BinkpState.getforsend_other conf ready.state input.sending slot
      intro data
      rw [other.receiving]
      exact resumed.open_data (other.frs.symm.trans data)
    | some command =>
      unfold BinkpState.getforsend
      rw [slot]
      dsimp only
      split <;> exact resumed.open_data
  have kept : (ready.state.getforsend conf input.sending).2 ≠ .error →
      (ready.state.getforsend conf input.sending).1.Present :=
    fun fine => ⟨mode.trans resumed.mode, made.2 fine, open_data⟩
  have loaded : ∀ block, (ready.state.getforsend conf input.sending).1.Present →
      ((ready.withState (ready.state.getforsend conf input.sending).1).load block).state.Present := by
    intro block kept
    unfold load encrypt
    dsimp only
    split
    · exact ⟨kept.mode, kept.posed, kept.open_data⟩
    · exact kept
  unfold fetchNext
  split
  · cases given : (ready.state.getforsend conf input.sending).2 with
    | block block last => exact loaded block (kept (by rw [given]; exact nofun))
    | nothing => exact kept (by rw [given]; exact nofun)
    | noMore => exact kept (by rw [given]; exact nofun)
    | error => exact nofun
    | crashed => exact absurd given made.1
  · exact resumed

/-- A turn in which no absent file is named follows no null pointer. -/
theorem step_present (l : BinkpLoop) (input : LoopInput) (present : l.state.Present)
    (there : FilesThere conf l input) :
    (step conf l input).Ends (fun after => after.state.Present)
      (fun _ result => result ≠ .crashed) := by
  have same : ∀ before after : BinkpState, before.Present → after.mode = before.mode →
      after.phase = before.phase → after.pi = before.pi → after.frs = before.frs →
      after.extracmd = before.extracmd → after.extraislast = before.extraislast →
      after.Present := by
    intro before after present mode phase pi frs slot goes
    refine ⟨mode.trans present.mode, ?_, ?_⟩
    · simpa only [BinkpState.Posed, BinkpState.lastWaits, phase, pi, slot, goes] using present.posed
    · simpa only [BinkpState.OpenForData, pi, frs] using present.open_data
  refine step_ends l present (by rintro _ ⟨⟩) (fun l => fetch_present l input) ?_ ?_ ?_ ?_ ?_ ?_
  · intro l present _
    exact ⟨present.mode, .inr ⟨by rintro ⟨⟩, by rintro (⟨⟨⟩⟩ | ⟨⟨⟩⟩)⟩, by rintro ⟨⟩⟩
  · intro l present
    unfold finish
    split
    · exact same _ _ present rfl rfl rfl rfl rfl rfl
    · exact present
  · intro l present
    have counted : ({ l.state with emptyloop := l.state.emptyloop + 1 } : BinkpState).Present :=
      same _ _ present rfl rfl rfl rfl rfl rfl
    unfold await
    repeat' split
    all_goals first
      | exact present
      | exact counted
      | rintro ⟨⟩
  · intro l present
    have stored : ∀ bytes, (l.store bytes).state.Present := by
      intro bytes
      unfold store buffer decrypt
      dsimp only
      split
      · exact same _ _ present rfl rfl rfl rfl rfl rfl
      · exact present
    unfold receive
    repeat' split
    all_goals first
      | exact present
      | exact stored _
      | rintro ⟨⟩
  · intro middle present handed
    unfold handle
    split
    · rename_i ready
      split
      · rintro ⟨⟩
      · rename_i inside
        have fine : namesAbsent middle input = false := by
          have met : middle.outside = false → namesAbsent middle input = false := by
            simpa only [FilesThere, Handing, Arriving, handed ready] using there
          exact met (by simpa using inside)
        obtain ⟨goes, kept⟩ := @hand_present conf middle input present fine
        cases given : (middle.hand conf input).2 with
        | accepted => exact kept
        | noMore => exact kept
        | keep => exact kept
        | abort => exact same _ _ kept rfl rfl rfl rfl rfl rfl
        | crashed => exact absurd given goes
    · exact present
  · intro l present
    unfold transmit
    repeat' split
    all_goals first
      | exact present
      | rintro ⟨⟩

/-- A turn in which one is named follows a null pointer. -/
theorem step_absent (l : BinkpLoop) (input : LoopInput) (present : l.state.Present)
    (absent : ¬ FilesThere conf l input) : ∃ final, step conf l input = .halt final .crashed := by
  cases here : l.arriving conf input with
  | none => exact absurd (by simp only [FilesThere, Handing, Arriving, here]) absent
  | some middle =>
    simp only [FilesThere, Handing, Arriving, here, not_forall, Bool.not_eq_false] at absent
    obtain ⟨inside, names⟩ := absent
    obtain ⟨made, _, fetched, goes, again, arrived, ready⟩ := arriving_some conf input l middle here
    have mode : middle.state.mode = .transfer := by
      obtain ⟨complete, emptyloop, keysIn, same, _⟩ := arrive_more made middle input arrived
      have kept := @fetch_present conf l input present
      rw [fetched] at kept
      rw [same]
      exact kept.mode
    have crashes : (middle.hand conf input).2 = .crashed := by
      unfold namesAbsent at names
      have named := fun skip arg parsed nothing => BinkpState.receiveGotSkip_absent
        (b := middle.state.touch [.read 1 (middle.readPos - binkpHeader)]) input.receiving arg mode
        skip parsed nothing
      split at names
      · rename_i arg found
        simp only [Bool.and_eq_true, Option.isNone_iff_eq_none] at names
        rw [hand_command conf input middle .got arg found]
        exact named false arg names.1 names.2
      · rename_i arg found
        simp only [Bool.and_eq_true, Option.isNone_iff_eq_none] at names
        rw [hand_command conf input middle .skip arg found]
        exact named true arg names.1 names.2
      · cases names
    have handled : ∃ final, middle.handle conf input = .halt final .crashed := by
      unfold handle
      rw [if_pos ready, if_neg (by simp [inside]), crashes]
      exact ⟨_, rfl⟩
    obtain ⟨final, halted⟩ := handled
    refine ⟨final, ?_⟩
    unfold step
    rw [if_neg (by simp [goes]), fetched]
    simp only [Turn.more_andThen, batch]
    rw [if_neg (by simp [again])]
    unfold exchange
    rw [arrived]
    simp only [Turn.more_andThen]
    rw [halted]
    rfl

/-- No turn of the run follows a null pointer. -/
def UsesPresent (conf : BinkpConf) (start : BinkpLoop) (inputs : List LoopInput) : Prop :=
  ∀ final, run (step conf) start inputs ≠ .halt final .crashed

/-- A transfer uses the current files only where they are there if and only if no M_GOT
or M_SKIP is handed over while no file is being sent. -/
theorem transfer_present_iff (conf : BinkpConf) (localData remoteData : BinkpSysinfo)
    (pi : Protinfo) (addressEstablished isProtected : Bool) (remoteaddrs : List Sysaddr)
    (inputs : List LoopInput) :
    UsesPresent conf (binkpTransfer localData remoteData pi addressEstablished isProtected
        remoteaddrs) inputs ↔
      Along (FilesThere conf) (step conf)
        (binkpTransfer localData remoteData pi addressEstablished isProtected remoteaddrs)
        inputs := by
  have initial : (binkpTransfer localData remoteData pi addressEstablished isProtected
      remoteaddrs).state.Present := ⟨rfl, .inr ⟨nofun, nofun⟩, nofun⟩
  have fails := run_fails_iff (fun l => l.state.Present) LoopResult.crashed
    (fun before input present there => @step_present conf before input present there)
    (fun before input present absent => step_absent before input present absent) _ initial inputs
  constructor
  · intro never
    by_contra broken
    obtain ⟨final, ended⟩ := fails.mpr broken
    exact never final ended
  · intro along final ended
    exact fails.mp ⟨final, ended⟩ along

end BinkpLoop

/-- An M_GOT before any file was opened follows a null pointer; so does a second M_SKIP
for the file that the first one closed. -/
theorem got_before_file :
    ¬ BinkpLoop.UsesPresent plainConf sendsNothing
        [lineTurn [128, 6] true, lineTurn (6 :: ascii "a 3 0") true] ∧
      ¬ BinkpLoop.UsesPresent plainConf sendsOneFile
        [lineTurn [128, 6] true, lineTurn (10 :: ascii "a 3 0") true, lineTurn [128, 6] true,
          lineTurn (10 :: ascii "a 3 0") true] := by
  have crash : ∀ start inputs, (run (BinkpLoop.step plainConf) start inputs).Ends (fun _ => False)
      (fun _ result => result = .crashed) → ¬ BinkpLoop.UsesPresent plainConf start inputs := by
    intro start inputs crashes never
    cases ended : run (BinkpLoop.step plainConf) start inputs with
    | more final =>
      rw [ended] at crashes
      exact crashes
    | halt final result =>
      rw [ended] at crashes
      exact never final (ended.trans (congrArg _ crashes))
  exact ⟨crash _ _ (by decide), crash _ _ (by decide)⟩

end Binkleyforce
