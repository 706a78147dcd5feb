import Binkleyforce.Binkp.Framing

/-!
# What a BinkP session has written when it ends

The loop makes one block at a time and writes it in as many pieces as the line
takes. A command of the receiving side waits in a single place until it is made into
a block. The loop's condition looks at neither of them. What a session said is
therefore all said only if the turn in which it gets to its end leaves nothing.
-/

namespace Binkleyforce

open Library

namespace BinkpState

/-! ## The place of the command to be sent -/

/-- What the handling of a block does to the place of the command to be sent: a command
that waits stays unless a protocol error takes its place, and a command is not queued
where the session is completed without an error code. A session that is complete stays
so. `cleared` is the same handling from a state without a return code. -/
structure SlotKept (b after cleared : BinkpState) : Prop where
  completes : b.complete = true → after.complete = true
  waits : ∀ command, b.extracmd = some command → cleared.rc ≠ .localaborted →
    after.extracmd = some command
  queued : after.rc ≠ .noerror ∨ after.extracmd = b.extracmd ∨
    (after.complete = b.complete ∧ (after.waitingGot = false → b.waitingGot = false))

section Slot

variable (conf : BinkpConf) (answers : ReceiveAnswers) (b : BinkpState) (arg : Pointer)

/-! A handler leaves the place alone, or it ends in a protocol error, or it found the
place empty and completes nothing. -/

theorem SlotKept.same {b after cleared : BinkpState} (slot : after.extracmd = b.extracmd)
    (completes : b.complete = true → after.complete = true) : SlotKept b after cleared :=
  ⟨completes, fun _ waits _ => slot.trans waits, .inr (.inl slot)⟩

theorem SlotKept.erring {b after cleared : BinkpState} (err : after.rc = .localaborted)
    (erred : cleared.rc = .localaborted) (complete : after.complete = b.complete) :
    SlotKept b after cleared :=
  ⟨complete.trans, fun _ _ clean => absurd erred clean, .inl (by rw [err]; exact nofun)⟩

theorem SlotKept.empty {b after cleared : BinkpState} (free : ¬ b.extracmd.isSome = true)
    (complete : after.complete = b.complete)
    (waitingGot : after.waitingGot = false → b.waitingGot = false) : SlotKept b after cleared :=
  ⟨complete.trans, fun _ waits => absurd (by rw [waits]; rfl) free, .inr (.inr ⟨complete, waitingGot⟩)⟩

theorem SlotKept.moved {b before after cleared : BinkpState}
    (kept : SlotKept before after cleared) (slot : before.extracmd = b.extracmd)
    (complete : before.complete = b.complete) (waitingGot : before.waitingGot = b.waitingGot) :
    SlotKept b after cleared :=
  ⟨fun completed => kept.completes (complete.trans completed),
    fun command waits => kept.waits command (slot.trans waits),
    slot ▸ complete ▸ waitingGot ▸ kept.queued⟩

theorem receiveGET_slot : SlotKept b (b.receiveGET conf answers arg).1
    (({ b with rc := .noerror } : BinkpState).receiveGET conf answers arg).1 := by
  unfold receiveGET reopenAt rewindTo announceAt protoError
  dsimp only [touch, queue]
  repeat' split
  all_goals first
    | exact .same rfl id
    | exact .erring rfl rfl rfl
    | exact .empty ‹_› rfl id
    | exact .empty ‹_› rfl nofun

theorem receiveADR_slot : SlotKept b (b.receiveADR conf arg).1
    (({ b with rc := .noerror } : BinkpState).receiveADR conf arg).1 := by
  unfold receiveADR checkCalled refuse protoError
  dsimp only [touch, queue, check, addAddrs]
  repeat' split
  all_goals first
    | exact .same rfl id
    | exact .erring rfl rfl rfl
    | exact .empty ‹_› rfl id

theorem receivePWD_slot (blockLength : Nat) :
    SlotKept b (b.receivePWD conf answers arg blockLength).1
      (({ b with rc := .noerror } : BinkpState).receivePWD conf answers arg blockLength).1 := by
  unfold receivePWD refuse protoError authenticate lockAddrs
  dsimp only [touch, queue, check]
  repeat' split
  all_goals first
    | exact .same rfl id
    | exact .erring rfl rfl rfl
    | exact .empty ‹_› rfl id

theorem receiveOK_slot : SlotKept b (b.receiveOK answers).1
    (({ b with rc := .noerror } : BinkpState).receiveOK answers).1 := by
  unfold receiveOK refuse protoError lockAddrs
  dsimp only [touch, queue, check]
  repeat' split
  all_goals first
    | exact .same rfl id
    | exact .same rfl fun _ => rfl
    | exact .erring rfl rfl rfl
    | exact .empty ‹_› rfl id

theorem startFile_slot (recvfi : Bpfinfo) (free : ¬ b.extracmd.isSome = true) :
    SlotKept b (b.startFile conf answers recvfi).1
      (({ b with rc := .noerror } : BinkpState).startFile conf answers recvfi).1 := by
  unfold startFile replyRecv reply
  dsimp only [touch, queue]
  repeat' split
  all_goals exact .empty free rfl id

theorem resumeFile_slot (recvfi : Bpfinfo) :
    SlotKept b (b.resumeFile answers recvfi).1
      (({ b with rc := .noerror } : BinkpState).resumeFile answers recvfi).1 := by
  unfold resumeFile reply
  dsimp only [touch, queue]
  repeat' split
  all_goals first
    | exact .same rfl id
    | exact .empty ‹_› rfl id

theorem receiveFILE_slot : SlotKept b (b.receiveFILE conf answers arg).1
    (({ b with rc := .noerror } : BinkpState).receiveFILE conf answers arg).1 := by
  unfold receiveFILE protoError
  dsimp only [touch, queue]
  repeat' split
  all_goals first
    | exact .same rfl id
    | exact .erring rfl rfl rfl
    | exact (resumeFile_slot answers _ _).moved rfl rfl rfl
    | exact (startFile_slot conf answers _ _ ‹_›).moved rfl rfl rfl

theorem receiveEOB_slot : SlotKept b b.receiveEOB.1
    ({ b with rc := .noerror } : BinkpState).receiveEOB.1 := by
  unfold receiveEOB protoError
  dsimp only [queue]
  repeat' split
  all_goals first
    | exact .same rfl id
    | exact .erring rfl rfl rfl

theorem receiveData_slot (blockLength : Nat) :
    SlotKept b (b.receiveData answers arg blockLength).1
      (({ b with rc := .noerror } : BinkpState).receiveData answers arg blockLength).1 := by
  unfold receiveData writeDone writeFailed protoError replyRecv reply
  dsimp only [touch, queue]
  repeat' split
  all_goals first
    | exact .same rfl id
    | exact .erring rfl rfl rfl
    | exact .empty ‹_› rfl id

theorem closeNamed_extracmd (told : Bool) (index : Nat) (status : Fstat) :
    (b.closeNamed told index status).extracmd = b.extracmd ∧
      (b.closeNamed told index status).complete = b.complete := by
  unfold closeNamed checkConfirmed
  dsimp only
  split <;> exact ⟨rfl, rfl⟩

theorem gotSkipNamed_slot (skip : Bool) (fi : FileHint) :
    SlotKept b (b.gotSkipNamed answers skip fi).1
      (({ b with rc := .noerror } : BinkpState).gotSkipNamed answers skip fi).1 := by
  unfold gotSkipNamed protoError
  dsimp only [queue]
  repeat' split
  all_goals first
    | exact .erring rfl rfl rfl
    | exact .same (closeNamed_extracmd _ _ _ _).1
        fun completed => (closeNamed_extracmd _ _ _ _).2.trans completed

theorem receiveGotSkip_slot (skip : Bool) :
    SlotKept b (b.receiveGotSkip answers skip arg).1
      (({ b with rc := .noerror } : BinkpState).receiveGotSkip answers skip arg).1 := by
  unfold receiveGotSkip protoError
  dsimp only [touch, queue]
  repeat' split
  all_goals first
    | exact .same rfl id
    | exact .erring rfl rfl rfl
    | exact (gotSkipNamed_slot answers _ skip _).moved rfl rfl rfl

/-- The same for every block. -/
theorem doreceiveblock_slot (type : BlockType) (memory : Bytes) (received blockLength : Nat) :
    SlotKept b (b.doreceiveblock conf answers type memory received blockLength).1
      (({ b with rc := .noerror } : BinkpState).doreceiveblock conf answers type memory received
        blockLength).1 := by
  unfold doreceiveblock
  cases type with
  | data => exact receiveData_slot answers b _ blockLength
  | cmd =>
    dsimp only
    split
    · exact .erring rfl rfl rfl
    · split
      · exact .erring rfl rfl rfl
      · rename_i message arg found
        have touched : SlotKept (b.touch [.read 1 received])
            ((b.touch [.read 1 received]).receiveCommand conf answers message arg blockLength).1
            (({ b.touch [.read 1 received] with rc := .noerror } : BinkpState).receiveCommand conf
              answers message arg blockLength).1 := by
          unfold receiveCommand
          cases message with
          | nul => exact .same rfl id
          | adr => exact receiveADR_slot conf (b.touch [.read 1 received]) arg
          | pwd => exact receivePWD_slot conf answers (b.touch [.read 1 received]) arg blockLength
          | file => exact receiveFILE_slot conf answers (b.touch [.read 1 received]) arg
          | ok => exact receiveOK_slot answers (b.touch [.read 1 received])
          | eob => exact receiveEOB_slot (b.touch [.read 1 received])
          | got => exact receiveGotSkip_slot answers (b.touch [.read 1 received]) arg false
          | err => exact .same rfl id
          | bsy => exact .same rfl id
          | get => exact receiveGET_slot conf answers (b.touch [.read 1 received]) arg
          | skip => exact receiveGotSkip_slot answers (b.touch [.read 1 received]) arg true
        exact touched.moved rfl rfl rfl

end Slot

end BinkpState

/-- How much the line takes in a turn. -/
def LoopInput.takes (input : LoopInput) : Nat :=
  if input.select.any (·.2) then input.write.getD 0 else 0

namespace BinkpLoop

/-! ## The turn in which the session ends -/

variable (conf : BinkpConf) (input : LoopInput)

/-- The loop ends here with zero. -/
def Finishes (l : BinkpLoop) : Prop := l.isOver = true ∧ l.state.rc = .noerror

instance (l : BinkpLoop) : Decidable l.Finishes := by
  unfold Finishes
  infer_instance

/-- The handling of the block ends in a protocol error. -/
def protoErrs (l : BinkpLoop) : Bool :=
  (({ l with state.rc := .noerror } : BinkpLoop).hand conf input).1.rc = .localaborted

/-- The turn in which the session gets to its end without an error has nothing left
to say: the batch does not restart before the last block is written; no command
waits when a block is handed over, and none is queued by it once the end is reached;
the line takes all there is. And no protocol error occurs while a command waits. -/
def LeavesNothing (l : BinkpLoop) (input : LoopInput) : Prop :=
  (∀ made ∈ l.batching conf input, made.batchRestarts = true → made.Finishes →
    made.writebuf = []) ∧
  (∀ around ∈ l.handling conf input, around.2.Finishes →
    around.1.state.extracmd = none ∧ (around.1.Finishes → around.2.state.extracmd = none) ∧
      around.2.writebuf.length ≤ input.takes) ∧
  Handing conf (fun middle input => middle.state.extracmd.isSome = true →
    middle.protoErrs conf input = false) l input

instance (l : BinkpLoop) (input : LoopInput) : Decidable (LeavesNothing conf l input) := by
  unfold LeavesNothing
  infer_instance

/-- Making a block leaves no command waiting. -/
theorem getforsend_extracmd (b : BinkpState) (sending : SendAnswers) :
    (b.getforsend conf sending).1.extracmd = none := by
  unfold BinkpState.getforsend
  split
  · dsimp only
    split <;> rfl
  · rename_i free
    unfold BinkpState.transferForsend BinkpState.sendData BinkpState.awaitAck
      BinkpState.sendNextFile BinkpState.sendFile BinkpState.handshakeForsend
      BinkpState.sendChallenge BinkpState.sendSysinfo BinkpState.sendPassword
      BinkpState.handshakeEnd
    dsimp only
    repeat' split
    all_goals exact free

/-- Where the making of a block completes the session, no command waits. -/
theorem fetch_extracmd (l made : BinkpLoop) (fetched : l.fetch conf input = .more made)
    (gone : made.isOver = true) (before : l.isOver = false) : made.state.extracmd = none := by
  have resumed : l.resume.isOver = l.isOver := by
    unfold resume
    split <;> rfl
  unfold fetch at fetched
  split at fetched
  · have free := getforsend_extracmd conf l.resume.state input.sending
    unfold fetchNext take at fetched
    split at fetched
    · injection fetched with same
      subst same
      unfold load encrypt
      dsimp only
      split <;> exact free
    · injection fetched with same
      exact same ▸ free
    · injection fetched with same
      exact same ▸ free
    · cases fetched
    · cases fetched
  · injection fetched with same
    rw [← same, resumed, before] at gone
    cases gone

/-- A turn does not change the session's state when it writes. It leaves nothing to
be written where the line takes it all. -/
theorem transmit_more (l after : BinkpLoop) (written : l.transmit input = .more after) :
    after.state = l.state ∧
      (l.writebuf.length ≤ input.takes → after.writebuf = []) := by
  unfold transmit at written
  unfold LoopInput.takes
  by_cases some : (!l.writebuf.isEmpty && input.select.any (·.2)) = true
  · rw [if_pos some] at written
    simp only [Bool.and_eq_true] at some
    rw [if_pos some.2]
    split at written
    · cases written
    · cases written
    · rename_i count _ taken
      injection written with same
      subst same
      rw [taken]
      exact ⟨rfl, fun enough => List.drop_eq_nil_of_le enough⟩
  · rw [if_neg some] at written
    injection written with same
    subst same
    refine ⟨rfl, fun enough => ?_⟩
    simp only [Bool.and_eq_true, not_and, Bool.not_eq_true', Bool.not_eq_true] at some
    by_cases empty : l.writebuf.isEmpty = true
    · exact List.isEmpty_iff.mp empty
    · rw [if_neg (by simp [some (by simpa using empty)])] at enough
      exact List.length_eq_zero_iff.mp (Nat.le_zero.mp enough)

/-- A block that ends the session without an error queues no command. -/
theorem handle_extracmd (middle handled : BinkpLoop)
    (handed : middle.handle conf input = .more handled) (free : middle.state.extracmd = none)
    (ends : handled.Finishes) (goes : ¬ middle.Finishes) : handled.state.extracmd = none := by
  rcases handle_more conf input middle handled handed with ⟨_, rfl⟩ | ⟨_, _, settled⟩
  · exact absurd ends goes
  · obtain ⟨gone, zero⟩ := ends
    have slot := BinkpState.doreceiveblock_slot conf input.receiving middle.state
      (headerType middle.readbuf) (middle.readbuf.drop binkpHeader)
      (middle.readPos - binkpHeader) middle.handedLength
    have code := (hand_follows conf input middle).coded
    rcases settle_more _ _ _ settled with ⟨aborted, rfl⟩ | ⟨_, state⟩
    · have coded := BinkpState.doreceiveblock_abort conf input.receiving middle.state
        (headerType middle.readbuf) (middle.readbuf.drop binkpHeader)
        (middle.readPos - binkpHeader) middle.handedLength aborted
      exact absurd (coded.symm.trans zero) nofun
    · have state : handled.state = (middle.hand conf input).1 := state
      unfold isOver at gone
      rw [state] at gone zero ⊢
      simp only [Bool.and_eq_true, Bool.not_eq_true'] at gone
      rcases slot.queued with coded | same | ⟨complete, waiting⟩
      · exact absurd zero coded
      · exact same.trans free
      · refine absurd ⟨?_, ?_⟩ goes
        · have quiet : middle.state.waitingGot = false := waiting gone.2
          have completed : middle.state.complete = true := complete.symm.trans gone.1
          simp only [isOver, quiet, completed, Bool.not_false, Bool.and_self]
        · by_contra coded
          exact code coded zero

/-- A turn that leaves nothing to say and ends the session without an error has
written all there is. -/
theorem step_finishes (l after : BinkpLoop) (leaves : LeavesNothing conf l input)
    (stepped : step conf l input = .more after) (ends : after.Finishes) :
    after.state.extracmd = none ∧ after.writebuf = [] := by
  obtain ⟨restarts, ending, _⟩ := leaves
  obtain ⟨made, here, ⟨again, rfl⟩ | ⟨again, middle, handled, arrived, handed, written⟩⟩ :=
    step_more l after stepped
  · have finishing : made.Finishes := ends
    obtain ⟨before, fetched⟩ : l.isOver = false ∧ l.fetch conf input = .more made := by
      unfold batching at here
      split at here
      · cases here
      · rename_i before
        split at here
        · cases here
        · rename_i fetched
          injection here with same
          exact ⟨by simpa using before, same ▸ fetched⟩
    exact ⟨fetch_extracmd conf input l made fetched finishing.1 before,
      restarts made here again finishing⟩
  · obtain ⟨state, taken⟩ := transmit_more input handled after written
    have finishing : handled.Finishes := by
      unfold Finishes isOver at ends ⊢
      rwa [state] at ends
    have around : (middle, handled) ∈ l.handling conf input :=
      handling_some l made middle handled here again arrived handed
    obtain ⟨free, quiet, enough⟩ := ending _ around finishing
    refine ⟨?_, taken enough⟩
    rw [state]
    by_cases finished : middle.Finishes
    · exact quiet finished
    · exact handle_extracmd conf input middle handled handed free finishing finished

/-! ## The stream that was written -/

/-- What the line has taken, together with what waits to be written: all blocks made,
encrypted from some block on. -/
structure Written (start l : BinkpLoop) (clear coded : List Block) (bytes : Bytes) : Prop where
  produced : l.produced = clear ++ coded
  fromStart : start.encrypted = true → clear = [] ∧ l.encrypted = true
  off : l.encrypted = false → coded = []
  keysOut : l.state.mode = .transfer → l.state.remoteData.keysOut =
    (encryptBuf start.state.remoteData.keysOut (coded.flatMap Block.encode)).1
  stream : bytes = clear.flatMap Block.encode ++
    (encryptBuf start.state.remoteData.keysOut (coded.flatMap Block.encode)).2

/-- A part of a turn that makes no block. -/
structure Silent (before after : BinkpLoop) : Prop where
  produced : after.produced = before.produced
  bytes : after.output ++ after.writebuf = before.output ++ before.writebuf
  encrypted : before.encrypted = true → after.encrypted = true
  mode : after.state.mode = before.state.mode
  keysOut : before.state.mode = .transfer →
    after.state.remoteData.keysOut = before.state.remoteData.keysOut

/-- The blocks made are those that were written or wait to be. -/
def Sent (start l : BinkpLoop) : Prop :=
  ∃ clear coded, Written start l clear coded (l.output ++ l.writebuf)

theorem Sent.silent {start before after : BinkpLoop} (sent : Sent start before)
    (same : before.Silent after) : Sent start after := by
  obtain ⟨clear, coded, written⟩ := sent
  refine ⟨clear, coded, ?_⟩
  exact
    { produced := same.produced.trans written.produced
      fromStart := fun on => ⟨(written.fromStart on).1, same.encrypted (written.fromStart on).2⟩
      off := fun off => written.off (by
        cases on : before.encrypted with
        | false => rfl
        | true => exact absurd (same.encrypted on) (by simp [off]))
      keysOut := fun transfer => by
        have earlier : before.state.mode = .transfer := same.mode ▸ transfer
        rw [same.keysOut earlier, written.keysOut earlier]
      stream := by rw [same.bytes, written.stream] }

theorem Silent.trans {first second third : BinkpLoop} (left : first.Silent second)
    (right : second.Silent third) : first.Silent third where
  produced := right.produced.trans left.produced
  bytes := right.bytes.trans left.bytes
  encrypted on := right.encrypted (left.encrypted on)
  mode := right.mode.trans left.mode
  keysOut transfer := (right.keysOut (left.mode.trans transfer)).trans (left.keysOut transfer)

theorem Silent.of_state (l : BinkpLoop) (state : BinkpState) (mode : state.mode = l.state.mode)
    (agreed : l.state.mode = .transfer → l.state.remoteData.Agreed state.remoteData) :
    l.Silent (l.withState state) :=
  ⟨rfl, rfl, encrypted_of_agreed mode agreed, mode, fun transfer => (agreed transfer).keysOut⟩

/-- Bytes that are read change nothing about what is written. -/
theorem store_silent (l : BinkpLoop) (bytes : Bytes) : l.Silent (l.store bytes) := by
  unfold store decrypt
  cases on : l.encrypted with
  | false =>
    simp only [Bool.false_eq_true, if_false]
    exact ⟨rfl, rfl, fun same => same, rfl, fun _ => rfl⟩
  | true =>
    simp only [if_true]
    exact ⟨rfl, rfl, fun _ => on, rfl, fun _ => rfl⟩

theorem store_extracmd (l : BinkpLoop) (bytes : Bytes) :
    (l.store bytes).state.extracmd = l.state.extracmd := by
  unfold store decrypt
  cases l.encrypted <;> rfl

/-- A block that is made is written after all others. -/
theorem load_sent (start l : BinkpLoop) (block : Block) (sent : Sent start l)
    (empty : l.writebuf = []) : Sent start (l.load block) := by
  obtain ⟨clear, coded, written⟩ := sent
  have stream := written.stream
  rw [empty, List.append_nil] at stream
  unfold load encrypt
  cases on : l.encrypted with
  | false =>
    obtain rfl : coded = [] := written.off on
    simp only [Bool.false_eq_true, if_false]
    refine ⟨clear ++ [block], [], ?_⟩
    exact
      { produced := by simp only [written.produced, List.append_nil]
        fromStart := fun switched => absurd (written.fromStart switched).2 (by simp [on])
        off := fun _ => rfl
        keysOut := written.keysOut
        stream := by
          simp only [stream, List.flatMap_nil, encryptBuf, List.append_nil, List.flatMap_append,
            List.flatMap_cons] }
  | true =>
    have transfer : l.state.mode = .transfer := by
      simp only [encrypted, Bool.and_eq_true, decide_eq_true_eq] at on
      exact on.1
    have keys := written.keysOut transfer
    have whole := encryptBuf_append start.state.remoteData.keysOut (coded.flatMap Block.encode)
      block.encode
    rw [← keys] at whole
    simp only [if_true]
    have longer : (coded ++ [block]).flatMap Block.encode =
        coded.flatMap Block.encode ++ block.encode := by
      simp only [List.flatMap_append, List.flatMap_cons, List.flatMap_nil, List.append_nil]
    refine ⟨clear, coded ++ [block], ?_⟩
    exact
      { produced := by simp only [written.produced, List.append_assoc]
        fromStart := fun switched => written.fromStart switched
        off := fun off => absurd on (by
          have still : l.encrypted = false := off
          simp [still])
        keysOut := fun _ => by rw [longer, whole]
        stream := by rw [longer, whole]; simp only [stream, List.append_assoc] }

/-- A turn writes what it makes. -/
theorem step_sent (start l : BinkpLoop) (sent : Sent start l) :
    (step conf l input).Ends (Sent start) (fun after _ => Sent start after) := by
  refine step_ends l sent (fun _ => sent) ?_ ?_ ?_ ?_ ?_ ?_ ?_
  · intro l sent
    have resumed : l.Silent l.resume := by
      unfold resume
      split <;> exact ⟨rfl, rfl, id, rfl, fun _ => rfl⟩
    unfold fetch
    split
    · rename_i wanted
      have empty : l.resume.writebuf = [] := by
        simp only [idle, Bool.and_eq_true] at wanted
        exact List.isEmpty_iff.mp wanted.1
      have made : Sent start (l.resume.withState
          (l.resume.state.getforsend conf input.sending).1) :=
        sent.silent (resumed.trans (.of_state _ _
          (BinkpState.getforsend_follows conf l.resume.state input.sending).mode
          fun transfer => .of_eq
            (BinkpState.getforsend_remoteData conf l.resume.state input.sending transfer)))
      unfold fetchNext take
      split
      · exact (load_sent start _ _ made empty).silent ⟨rfl, rfl, id, rfl, fun _ => rfl⟩
      · exact made.silent ⟨rfl, rfl, id, rfl, fun _ => rfl⟩
      · exact made
      · exact made
      · exact made
    · exact sent.silent resumed
  · intro made sent _
    exact sent.silent ⟨rfl, rfl, id, rfl, fun _ => rfl⟩
  · intro l sent
    unfold finish
    split
    · exact sent.silent ⟨rfl, rfl, id, rfl, fun _ => rfl⟩
    · exact sent
  · intro l sent
    unfold await
    repeat' split
    all_goals first | exact sent | exact sent.silent ⟨rfl, rfl, id, rfl, fun _ => rfl⟩
  · intro l sent
    unfold receive
    split
    · split
      · exact sent
      · exact sent
      · exact sent.silent (store_silent l _)
    · exact sent
  · intro l sent _
    unfold handle
    split
    · split
      · exact sent
      · have after : Sent start (l.withState (l.hand conf input).1) :=
          sent.silent (.of_state l _ (hand_follows conf input l).mode
            fun _ => BinkpState.doreceiveblock_agreed conf input.receiving l.state _ _ _ _)
        unfold settle
        split
        all_goals first | exact after | exact after.silent ⟨rfl, rfl, id, rfl, fun _ => rfl⟩
    · exact sent
  · intro l sent
    unfold transmit
    split
    · split
      · exact sent
      · exact sent
      · refine sent.silent ⟨rfl, ?_, id, rfl, fun _ => rfl⟩
        simp only [List.append_assoc, List.take_append_drop]
    · exact sent

/-- A command that waits is kept, or it is the block that was made. -/
def Kept (command : Bpmsg × Bytes) (before after : BinkpLoop) : Prop :=
  (after.state.extracmd = some command ∧ after.produced = before.produced) ∨
    after.produced = before.produced ++ [commandBlock command.1 command.2]

/-- A turn in which no protocol error occurs while a command waits keeps the command
or makes a block of it. -/
theorem step_kept (l : BinkpLoop) (command : Bpmsg × Bytes)
    (waits : l.state.extracmd = some command)
    (clean : Handing conf (fun middle input => middle.state.extracmd.isSome = true →
      middle.protoErrs conf input = false) l input) :
    (step conf l input).Leaves (Kept command l) := by
  have ends : (step conf l input).Ends (Kept command l) (fun after _ => Kept command l after) := by
    refine step_stages (Kept command l) l (fun _ => .inl ⟨waits, rfl⟩) ?_
      (fun made _ kept _ => kept) ?_ ?_ ?_ ?_ ?_
    · have resumed : l.resume.state.extracmd = some command ∧ l.resume.produced = l.produced := by
        unfold resume
        split <;> exact ⟨waits, rfl⟩
      unfold fetch
      split
      · have made : (l.resume.state.getforsend conf input.sending).2 =
            BinkpState.command command.1 command.2 := by
          unfold BinkpState.getforsend
          rw [resumed.1]
        unfold fetchNext
        rw [made]
        refine .inr ?_
        unfold load encrypt
        dsimp only
        split <;> exact congrArg (· ++ [commandBlock command.1 command.2]) resumed.2
      · exact .inl resumed
    · intro made _ kept _
      unfold finish
      split <;> exact kept
    · intro l kept
      unfold await
      repeat' split
      all_goals exact kept
    · intro l kept
      unfold receive
      split
      · split
        · exact kept
        · exact kept
        · rename_i bytes _ _
          have stored := store_silent l (bytes.take l.wantRead)
          rcases kept with ⟨slot, same⟩ | made
          · exact .inl ⟨(store_extracmd l _).trans slot, stored.produced.trans same⟩
          · exact .inr (stored.produced.trans made)
      · exact kept
    · intro middle kept handed
      unfold handle
      split
      · rename_i ready
        have here := handed ready
        split
        · exact kept
        · rename_i inside
          have after : Kept command l (middle.withState (middle.hand conf input).1) := by
            rcases kept with ⟨slot, same⟩ | made
            · refine .inl ⟨?_, same⟩
              unfold Handing Arriving at clean
              rw [here] at clean
              have fine := clean (by simpa using inside) (by rw [slot]; rfl)
              refine (BinkpState.doreceiveblock_slot conf input.receiving middle.state _ _ _
                _).waits command slot ?_
              exact of_decide_eq_false fine
            · exact .inr made
          unfold settle
          split <;> exact after
      · exact kept
    · intro l kept
      unfold transmit
      repeat' split
      all_goals exact kept
  cases taken : step conf l input with
  | more after => rwa [taken] at ends
  | halt after result => rwa [taken] at ends

/-! ## The end of the session -/

/-- A session finishes cleanly: when the loop returns zero no command waits and the
line has taken all blocks; and no command that waits is lost in any turn. -/
structure CleanFinish (start : BinkpLoop) (inputs : List LoopInput) : Prop where
  written : ∀ final, run (step conf) start inputs = .halt final (.returned .noerror) →
    final.state.extracmd = none ∧ ∃ clear coded, Written start final clear coded final.output
  kept : ∀ past input rest before command, inputs = past ++ input :: rest →
    run (step conf) start past = .more before → before.state.extracmd = some command →
    (step conf before input).Leaves (Kept command before)

/-- Every run whose turns leave nothing to say finishes cleanly. -/
theorem finishes_clean (b : BinkpState) (inputs : List LoopInput)
    (leaves : Along (LeavesNothing conf) (step conf) (.start b) inputs) :
    CleanFinish conf (.start b) inputs where
  written final returned := by
    have carried := run_invariant
      (fun l => Sent (.start b) l ∧ (l.Finishes → l.state.extracmd = none ∧ l.writebuf = []))
      (fun final result => result = .returned .noerror →
        final.state.extracmd = none ∧ ∃ clear coded, Written (.start b) final clear coded final.output)
      (fun before input after kept allowed taken => by
        have sent := step_sent conf input (.start b) before kept.1
        rw [taken] at sent
        exact ⟨sent, step_finishes conf input before after allowed taken⟩)
      (fun before input after result kept allowed taken => by
        rintro rfl
        obtain ⟨rfl, gone, zero⟩ := step_noerror before after input taken
        obtain ⟨free, empty⟩ := kept.2 ⟨gone, zero⟩
        obtain ⟨clear, coded, written⟩ := kept.1
        rw [empty, List.append_nil] at written
        exact ⟨free, clear, coded, written⟩)
      (.start b)
      ⟨⟨[], [], ⟨rfl, fun on => ⟨rfl, on⟩, fun _ => rfl, fun _ => rfl, rfl⟩⟩, fun _ => ⟨rfl, rfl⟩⟩
      inputs leaves
    rw [returned] at carried
    exact carried rfl
  kept past input rest before command split reached waits := by
    subst split
    have allowed := (along_at _ _ _ _ _ _ _ leaves reached).2
    exact step_kept conf input before command waits allowed.2.2

end BinkpLoop

/-- The start of a transfer with nothing to send. -/
def sendsNothing : BinkpLoop :=
  binkpTransfer {} {} { lists := { queue := [], filelist := [], reqsOnly := false } } true false []

/-- Both sides have nothing to send, and the line takes what is written. -/
theorem nothing_sent_clean : BinkpLoop.CleanFinish plainConf sendsNothing
    [lineTurn [128, 1] true, lineTurn [5] true, lineTurn [] true, lineTurn [] true] :=
  BinkpLoop.finishes_clean plainConf
    { mode := .transfer
      pi := { lists := { queue := [], filelist := [], reqsOnly := false } }
      addressEstablished := true }
    [lineTurn [128, 1] true, lineTurn [5] true, lineTurn [] true, lineTurn [] true] (by decide)

/-- Both sides have nothing to send, and the line does not take anything until the
remote's end of the batch has arrived: the loop returns zero without having written
its own. -/
theorem end_of_batch_unwritten : ¬ BinkpLoop.CleanFinish plainConf sendsNothing
    [lineTurn [128, 1] false, lineTurn [5] false, lineTurn [] false, lineTurn [] true] := by
  have left : (run (BinkpLoop.step plainConf) sendsNothing
      [lineTurn [128, 1] false, lineTurn [5] false, lineTurn [] false, lineTurn [] true]).Ends
        (fun _ => False) (fun final result => result = .returned .noerror ∧
          final.encrypted = false ∧ final.output ≠ final.produced.flatMap Block.encode) := by decide
  intro clean
  cases ended : run (BinkpLoop.step plainConf) sendsNothing
      [lineTurn [128, 1] false, lineTurn [5] false, lineTurn [] false, lineTurn [] true] with
  | more final =>
    rw [ended] at left
    exact left
  | halt final result =>
    rw [ended] at left
    obtain ⟨rfl, off, unwritten⟩ := left
    obtain ⟨_, clear, coded, written⟩ := clean.written final ended
    obtain rfl := written.off off
    have stream := written.stream
    simp only [List.flatMap_nil, encryptBuf, List.append_nil] at stream
    exact unwritten (by rw [stream, written.produced, List.append_nil])

end Binkleyforce
