import Binkleyforce.Binkp.Loop

/-!
# Invariants of the loop of a BinkP session

What has to be shown for a property to hold in every turn of `binkp_loop`: one
fact for each thing a turn does. Most properties speak of the session's state
only; the buffers do not matter to them, and for those the facts are fewer.

A condition on the turns speaks of the moment at which a received block is handed
over, because that is when the state and the block are known.
-/

namespace Binkleyforce

open Library

namespace BinkpState

section Abort

variable (conf : BinkpConf) (answers : ReceiveAnswers) (b : BinkpState) (arg : Pointer)

/-! Only M_ERR and M_BSY abort the session; no other command returns that. -/

theorem receiveADR_abort : (b.receiveADR conf arg).2 ≠ .abort := by
  unfold receiveADR checkCalled protoError refuse
  dsimp only
  repeat' split
  all_goals exact nofun

theorem receivePWD_abort (blockLength : Nat) :
    (b.receivePWD conf answers arg blockLength).2 ≠ .abort := by
  unfold receivePWD protoError refuse
  dsimp only
  repeat' split
  all_goals exact nofun

theorem receiveOK_abort : (b.receiveOK answers).2 ≠ .abort := by
  unfold receiveOK protoError refuse
  dsimp only
  repeat' split
  all_goals exact nofun

theorem receiveFILE_abort : (b.receiveFILE conf answers arg).2 ≠ .abort := by
  unfold receiveFILE resumeFile startFile protoError
  dsimp only
  repeat' split
  all_goals exact nofun

theorem receiveEOB_abort : b.receiveEOB.2 ≠ .abort := by
  unfold receiveEOB protoError
  split
  all_goals exact nofun

theorem receiveGotSkip_abort (skip : Bool) : (b.receiveGotSkip answers skip arg).2 ≠ .abort := by
  unfold receiveGotSkip gotSkipNamed protoError
  dsimp only
  repeat' split
  all_goals exact nofun

theorem receiveGET_abort : (b.receiveGET conf answers arg).2 ≠ .abort := by
  unfold receiveGET reopenAt rewindTo protoError
  dsimp only
  repeat' split
  all_goals exact nofun

theorem receiveData_abort (blockLength : Nat) :
    (b.receiveData answers arg blockLength).2 ≠ .abort := by
  unfold receiveData writeDone writeFailed protoError
  dsimp only
  repeat' split
  all_goals exact nofun

/-- A block whose handling aborts the session sets the return code. -/
theorem doreceiveblock_abort (type : BlockType) (memory : Bytes) (received blockLength : Nat)
    (aborted : (b.doreceiveblock conf answers type memory received blockLength).2 = .abort) :
    (b.doreceiveblock conf answers type memory received blockLength).1.rc = .remoteaborted := by
  unfold doreceiveblock at aborted ⊢
  cases type with
  | data => exact absurd aborted (receiveData_abort _ _ _ _)
  | cmd =>
    dsimp only at aborted ⊢
    split
    · simp_all [protoError]
    · rename_i long
      rw [if_neg long] at aborted
      split at aborted
      · cases aborted
      · rename_i message arg found
        unfold receiveCommand at aborted ⊢
        cases message with
        | err => rfl
        | bsy => rfl
        | nul => cases aborted
        | adr => exact absurd aborted (receiveADR_abort _ _ _)
        | pwd => exact absurd aborted (receivePWD_abort _ _ _ _ _)
        | file => exact absurd aborted (receiveFILE_abort _ _ _ _)
        | ok => exact absurd aborted (receiveOK_abort _ _)
        | eob => exact absurd aborted (receiveEOB_abort _)
        | got => exact absurd aborted (receiveGotSkip_abort _ _ _ _)
        | get => exact absurd aborted (receiveGET_abort _ _ _ _)
        | skip => exact absurd aborted (receiveGotSkip_abort _ _ _ _)

end Abort

section Follows

variable (conf : BinkpConf) (answers : ReceiveAnswers) (b : BinkpState) (arg : Pointer)

/-- Nothing changes the mode, or takes a return code back once it is set. -/
structure Follows (before after : BinkpState) : Prop where
  mode : after.mode = before.mode
  coded : before.rc ≠ .noerror → after.rc ≠ .noerror

theorem Follows.trans {first second third : BinkpState} (left : Follows first second)
    (right : Follows second third) : Follows first third :=
  ⟨right.mode.trans left.mode, fun coded => right.coded (left.coded coded)⟩

theorem Follows.of_same {before middle after : BinkpState} (right : Follows middle after)
    (mode : middle.mode = before.mode) (code : middle.rc = before.rc) : Follows before after :=
  ⟨right.mode.trans mode, fun coded => right.coded (code ▸ coded)⟩

theorem checkCalled_follows : Follows b (b.checkCalled conf).1 := by
  unfold checkCalled
  dsimp only
  split
  · exact ⟨rfl, id⟩
  · split <;> exact ⟨rfl, id⟩

theorem receiveADR_follows : Follows b (b.receiveADR conf arg).1 := by
  unfold receiveADR
  have added : Follows b (b.addAddrs arg) := ⟨rfl, id⟩
  generalize b.addAddrs arg = after at added
  dsimp only
  split
  · exact ⟨rfl, fun _ => nofun⟩
  · split
    · exact ⟨rfl, id⟩
    · split
      · simp only [refuse]
        split
        · exact added
        · exact added.trans ⟨rfl, id⟩
      · split
        · exact added.trans (checkCalled_follows conf after)
        · split
          · exact added.trans ⟨rfl, id⟩
          · exact added.trans ⟨rfl, id⟩

theorem receivePWD_follows (blockLength : Nat) :
    Follows b (b.receivePWD conf answers arg blockLength).1 := by
  unfold receivePWD protoError refuse
  dsimp only
  repeat' split
  all_goals first | exact ⟨rfl, id⟩ | exact ⟨rfl, fun _ => nofun⟩

theorem receiveOK_follows : Follows b (b.receiveOK answers).1 := by
  unfold receiveOK protoError refuse
  dsimp only
  repeat' split
  all_goals first | exact ⟨rfl, id⟩ | exact ⟨rfl, fun _ => nofun⟩

theorem replyRecv_follows (message : Bpmsg) (offset : Bytes) :
    Follows b (b.replyRecv message offset) := by
  unfold replyRecv
  split <;> exact ⟨rfl, id⟩

theorem startFile_follows (recvfi : Bpfinfo) :
    Follows b (b.startFile conf answers recvfi).1 := by
  have replied : ∀ (pi : Protinfo) message offset frs,
      Follows b { ({ b with pi } : BinkpState).replyRecv message offset with frs } := by
    intro pi message offset frs
    have reply := replyRecv_follows { b with pi } message offset
    exact ⟨reply.mode, reply.coded⟩
  unfold startFile
  dsimp only
  split
  · exact ⟨rfl, id⟩
  · split
    · split
      · exact ⟨rfl, id⟩
      · exact replied _ _ _ _
    · exact replied _ _ _ _
    · exact replied _ _ _ _

theorem resumeFile_follows (recvfi : Bpfinfo) :
    Follows b (b.resumeFile answers recvfi).1 := by
  unfold resumeFile
  repeat' split
  all_goals exact ⟨rfl, id⟩

theorem receiveFILE_follows : Follows b (b.receiveFILE conf answers arg).1 := by
  unfold receiveFILE
  split
  · exact ⟨rfl, fun _ => nofun⟩
  · dsimp only
    split
    · exact ⟨rfl, fun _ => nofun⟩
    · rename_i recvfi found
      have counted : ∀ accesses, Follows b
          { b.touch accesses with batchRecvCount := b.batchRecvCount + 1 } := fun _ => ⟨rfl, id⟩
      split
      · exact ⟨rfl, fun _ => nofun⟩
      · exact (counted _).trans (resumeFile_follows answers _ recvfi)
      all_goals
        split
        · exact ⟨rfl, id⟩
        · exact (counted _).trans (startFile_follows conf answers _ recvfi)

theorem closeNamed_follows (told : Bool) (index : Nat) (status : Fstat) :
    Follows b (b.closeNamed told index status) := by
  unfold closeNamed checkConfirmed
  dsimp only
  split <;> exact ⟨rfl, id⟩

theorem gotSkipNamed_follows (skip : Bool) (fi : FileHint) :
    Follows b (b.gotSkipNamed answers skip fi).1 := by
  unfold gotSkipNamed
  dsimp only
  split
  · exact ⟨rfl, fun _ => nofun⟩
  · split
    · split
      · exact ⟨rfl, fun _ => nofun⟩
      · exact closeNamed_follows b _ _ _
    · split
      · exact (closeNamed_follows _ _ _ _).of_same rfl rfl
      · split
        · exact ⟨rfl, fun _ => nofun⟩
        · exact (closeNamed_follows _ _ _ _).of_same rfl rfl

theorem receiveGotSkip_follows (skip : Bool) :
    Follows b (b.receiveGotSkip answers skip arg).1 := by
  unfold receiveGotSkip
  split
  · exact ⟨rfl, fun _ => nofun⟩
  · dsimp only
    split
    · exact ⟨rfl, fun _ => nofun⟩
    · split
      · exact ⟨rfl, id⟩
      · split
        · split
          · exact ⟨rfl, fun _ => nofun⟩
          · exact (gotSkipNamed_follows answers _ skip _).of_same rfl rfl
        · exact (gotSkipNamed_follows answers _ skip _).of_same rfl rfl

theorem receiveGET_follows : Follows b (b.receiveGET conf answers arg).1 := by
  unfold receiveGET reopenAt rewindTo announceAt protoError
  dsimp only
  repeat' split
  all_goals first | exact ⟨rfl, id⟩ | exact ⟨rfl, fun _ => nofun⟩

theorem receiveData_follows (blockLength : Nat) :
    Follows b (b.receiveData answers arg blockLength).1 := by
  unfold receiveData writeDone writeFailed protoError replyRecv
  dsimp only
  repeat' split
  all_goals first | exact ⟨rfl, id⟩ | exact ⟨rfl, fun _ => nofun⟩

theorem receiveEOB_follows : Follows b b.receiveEOB.1 := by
  unfold receiveEOB
  split
  · exact ⟨rfl, fun _ => nofun⟩
  · exact ⟨rfl, id⟩

theorem receiveCommand_follows (message : Bpmsg) (blockLength : Nat) :
    Follows b (b.receiveCommand conf answers message arg blockLength).1 := by
  cases message with
  | nul => exact ⟨rfl, id⟩
  | adr => exact receiveADR_follows conf b arg
  | pwd => exact receivePWD_follows conf answers b arg blockLength
  | file => exact receiveFILE_follows conf answers b arg
  | ok => exact receiveOK_follows answers b
  | eob => exact receiveEOB_follows b
  | got => exact receiveGotSkip_follows answers b arg false
  | err => exact ⟨rfl, fun _ => nofun⟩
  | bsy => exact ⟨rfl, fun _ => nofun⟩
  | get => exact receiveGET_follows conf answers b arg
  | skip => exact receiveGotSkip_follows answers b arg true

/-- So does no block. -/
theorem doreceiveblock_follows (type : BlockType) (memory : Bytes) (received blockLength : Nat) :
    Follows b (b.doreceiveblock conf answers type memory received blockLength).1 := by
  unfold doreceiveblock
  cases type with
  | data => exact receiveData_follows answers b _ blockLength
  | cmd =>
    have touched : Follows b (b.touch [.read 1 received]) := ⟨rfl, id⟩
    dsimp only
    split
    · exact ⟨rfl, fun _ => nofun⟩
    · split
      · exact ⟨rfl, fun _ => nofun⟩
      · exact touched.trans (receiveCommand_follows conf answers _ _ _ blockLength)

/-- Nor does the making of a block. -/
theorem getforsend_follows (sending : SendAnswers) :
    Follows b (b.getforsend conf sending).1 := by
  unfold getforsend transferForsend sendData awaitAck sendNextFile sendFile handshakeForsend
    sendChallenge sendSysinfo sendPassword handshakeEnd
  dsimp only
  repeat' split
  all_goals exact ⟨rfl, id⟩

end Follows

end BinkpState

/-- What a result keeps: the invariant, or, where it ends the loop with an error,
the weaker property. -/
def SendResult.Keeps (invariant failed : BinkpState → Prop) (after : BinkpState) :
    SendResult → Prop
  | .error | .crashed => failed after
  | _ => invariant after

theorem SendResult.keeps_of {invariant : BinkpState → Prop} {after : BinkpState}
    (result : SendResult) (kept : invariant after) : result.Keeps invariant invariant after := by
  cases result <;> exact kept

/-- The same for a received block. -/
def ReceiveResult.Keeps (invariant failed : BinkpState → Prop) (after : BinkpState) :
    ReceiveResult → Prop
  | .crashed => failed after
  | _ => invariant after

theorem ReceiveResult.keeps_of {invariant : BinkpState → Prop} {after : BinkpState}
    (result : ReceiveResult) (kept : invariant after) :
    result.Keeps invariant invariant after := by
  cases result <;> exact kept

namespace BinkpLoop

/-- The moment in a turn at which a received block is ready, if one is. -/
def arriving (conf : BinkpConf) (input : LoopInput) (l : BinkpLoop) : Option BinkpLoop :=
  if l.isOver then none
  else
    match l.fetch conf input with
    | .halt _ _ => none
    | .more l =>
      if l.batchRestarts then none
      else
        match l.arrive input with
        | .halt _ _ => none
        | .more l => if l.ready then some l else none

/-- The moment in a turn at which the loop looks at the batch. -/
def batching (conf : BinkpConf) (input : LoopInput) (l : BinkpLoop) : Option BinkpLoop :=
  if l.isOver then none
  else
    match l.fetch conf input with
    | .halt _ _ => none
    | .more l => some l

/-- The states before and after a block may be handed over, where the turn gets as
far as that. -/
def handling (conf : BinkpConf) (input : LoopInput) (l : BinkpLoop) :
    Option (BinkpLoop × BinkpLoop) :=
  match l.batching conf input with
  | none => none
  | some made =>
    if made.batchRestarts then none
    else
      match made.arrive input with
      | .halt _ _ => none
      | .more middle =>
        match middle.handle conf input with
        | .halt _ _ => none
        | .more handled => some (middle, handled)

/-- The look at the batch comes after the block was made. -/
theorem batching_some {conf : BinkpConf} {input : LoopInput} (l made : BinkpLoop)
    (here : l.batching conf input = some made) :
    l.isOver = false ∧ l.fetch conf input = .more made := by
  unfold batching at here
  split at here
  · cases here
  · rename_i goes
    split at here
    · cases here
    · rename_i fetched
      injection here with same
      exact ⟨by simpa only [Bool.not_eq_true] using goes, same ▸ fetched⟩

/-- A block that is ready in a turn is ready where the turn has looked at the batch. -/
theorem arriving_some (conf : BinkpConf) (input : LoopInput) (l middle : BinkpLoop)
    (here : l.arriving conf input = some middle) :
    ∃ made, l.batching conf input = some made ∧ l.fetch conf input = .more made ∧
      l.isOver = false ∧ made.batchRestarts = false ∧ made.arrive input = .more middle ∧
      middle.ready = true := by
  unfold arriving at here
  unfold batching
  split at here
  · cases here
  · rename_i goes
    rw [if_neg goes]
    split at here
    · cases here
    · rename_i made fetched
      split at here
      · cases here
      · rename_i again
        split at here
        · cases here
        · rename_i arrived
          split at here
          · rename_i ready
            injection here with same
            subst same
            exact ⟨made, rfl, fetched, by simpa using goes, by simpa using again, arrived, ready⟩
          · cases here

/-- A turn that gets past the handing over shows the states around it. -/
theorem handling_some {conf : BinkpConf} {input : LoopInput} (l made middle handled : BinkpLoop)
    (here : l.batching conf input = some made) (again : made.batchRestarts = false)
    (arrived : made.arrive input = .more middle) (handed : middle.handle conf input = .more handled) :
    (middle, handled) ∈ l.handling conf input := by
  simp only [handling, here, again, Bool.false_eq_true, if_false, arrived, handed, Option.mem_def]

/-- Where a block is ready in the turn, the condition holds. -/
def Arriving (conf : BinkpConf) (condition : BinkpLoop → LoopInput → Prop) (l : BinkpLoop)
    (input : LoopInput) : Prop :=
  match l.arriving conf input with
  | none => True
  | some middle => condition middle input

instance (conf : BinkpConf) (condition : BinkpLoop → LoopInput → Prop)
    [∀ l input, Decidable (condition l input)] (l : BinkpLoop) (input : LoopInput) :
    Decidable (Arriving conf condition l input) := by
  unfold Arriving
  split <;> infer_instance

/-- Where a block is handed over in the turn, the condition holds. -/
def Handing (conf : BinkpConf) (condition : BinkpLoop → LoopInput → Prop) :
    BinkpLoop → LoopInput → Prop :=
  Arriving conf fun l input => l.outside = false → condition l input

instance (conf : BinkpConf) (condition : BinkpLoop → LoopInput → Prop)
    [∀ l input, Decidable (condition l input)] (l : BinkpLoop) (input : LoopInput) :
    Decidable (Handing conf condition l input) := by
  unfold Handing
  infer_instance

section Parts

variable {conf : BinkpConf} {input : LoopInput} {invariant : BinkpLoop → Prop}
  {halted : BinkpLoop → LoopResult → Prop}

/-- What a turn leaves follows from its parts, where the look at the batch may use
that it is the look of this turn. -/
theorem step_stages (fetched : BinkpLoop → Prop) (l : BinkpLoop)
    (ends : l.isOver = true → halted l (.returned l.state.rc))
    (fetches : (l.fetch conf input).Ends fetched halted)
    (restarts : ∀ made, l.batching conf input = some made → fetched made →
      made.batchRestarts = true → invariant made.restart)
    (finishes : ∀ made, l.batching conf input = some made → fetched made →
      made.batchRestarts = false → invariant made.finish)
    (awaits : ∀ l, invariant l → (l.await input).Ends invariant halted)
    (receives : ∀ l, invariant l → (l.receive input).Ends invariant halted)
    (handles : ∀ middle, invariant middle →
      (middle.ready = true → l.arriving conf input = some middle) →
      (middle.handle conf input).Ends invariant halted)
    (transmits : ∀ l, invariant l → (l.transmit input).Ends invariant halted) :
    (step conf l input).Ends invariant halted := by
  unfold step
  by_cases ended : l.isOver = true
  · rw [if_pos ended]
    exact ends ended
  · rw [if_neg ended]
    cases made : l.fetch conf input with
    | halt after result =>
      rw [made] at fetches
      exact fetches
    | more ready =>
      rw [made] at fetches
      have here : l.batching conf input = some ready := by
        simp only [batching, if_neg ended, made]
      simp only [Turn.more_andThen, batch]
      by_cases again : ready.batchRestarts = true
      · rw [if_pos again]
        exact restarts ready here fetches again
      · rw [if_neg again]
        have finished : invariant ready.finish :=
          finishes ready here fetches (by simpa only [Bool.not_eq_true] using again)
        have upTo : (ready.arrive input).Ends invariant halted :=
          Turn.ends_andThen (awaits _ finished) receives
        unfold exchange
        cases arrived : ready.arrive input with
        | halt after result =>
          rw [arrived] at upTo
          exact upTo
        | more middle =>
          rw [arrived] at upTo
          have handled : (middle.handle conf input).Ends invariant halted := by
            refine handles middle upTo fun handed => ?_
            simp only [arriving, ended, made, again, arrived, handed, if_true,
              Bool.false_eq_true, if_false]
          simp only [Turn.more_andThen]
          exact Turn.ends_andThen handled transmits

/-- What a turn that goes on has done after it looked at the batch. -/
theorem step_more (l after : BinkpLoop) (stepped : step conf l input = .more after) :
    ∃ made, l.batching conf input = some made ∧
      ((made.batchRestarts = true ∧ after = made.restart) ∨
        (made.batchRestarts = false ∧ ∃ middle handled, made.arrive input = .more middle ∧
          middle.handle conf input = .more handled ∧ handled.transmit input = .more after)) := by
  unfold step at stepped
  by_cases ended : l.isOver = true
  · rw [if_pos ended] at stepped
    cases stepped
  · rw [if_neg ended] at stepped
    obtain ⟨made, fetched, batched⟩ := (Turn.andThen_more_iff _ _ _).mp stepped
    refine ⟨made, by simp only [batching, if_neg ended, fetched], ?_⟩
    unfold batch at batched
    by_cases again : made.batchRestarts = true
    · rw [if_pos again] at batched
      injection batched with same
      exact .inl ⟨again, same.symm⟩
    · rw [if_neg again] at batched
      obtain ⟨middle, arrived, passed⟩ := (Turn.andThen_more_iff _ _ _).mp batched
      obtain ⟨handled, handed, written⟩ := (Turn.andThen_more_iff _ _ _).mp passed
      exact .inr ⟨by simpa only [Bool.not_eq_true] using again, middle, handled, arrived, handed,
        written⟩

/-- A turn keeps what each of its parts keeps. -/
theorem step_ends (l : BinkpLoop) (holds : invariant l)
    (ends : l.isOver = true → halted l (.returned l.state.rc))
    (fetches : ∀ l, invariant l → (l.fetch conf input).Ends invariant halted)
    (restarts : ∀ l, invariant l → l.batchRestarts = true → invariant l.restart)
    (finishes : ∀ l, invariant l → invariant l.finish)
    (awaits : ∀ l, invariant l → (l.await input).Ends invariant halted)
    (receives : ∀ l, invariant l → (l.receive input).Ends invariant halted)
    (handles : ∀ middle, invariant middle →
      (middle.ready = true → l.arriving conf input = some middle) →
      (middle.handle conf input).Ends invariant halted)
    (transmits : ∀ l, invariant l → (l.transmit input).Ends invariant halted) :
    (step conf l input).Ends invariant halted :=
  step_stages _ l ends (fetches l holds) (fun made _ => restarts made)
    (fun made _ kept _ => finishes made kept) awaits receives handles transmits

end Parts

/-- A turn that gets past the handing over has handed over a block that is ready, if
there is one. -/
theorem handle_more (conf : BinkpConf) (input : LoopInput) (middle handled : BinkpLoop)
    (handed : middle.handle conf input = .more handled) :
    (middle.ready = false ∧ handled = middle) ∨
      (middle.ready = true ∧ middle.outside = false ∧
        (middle.withState (middle.hand conf input).1).settle (middle.hand conf input).2 =
          .more handled) := by
  unfold handle at handed
  by_cases ready : middle.ready = true
  · rw [if_pos ready] at handed
    by_cases outside : middle.outside = true
    · rw [if_pos outside] at handed
      cases handed
    · rw [if_neg outside] at handed
      exact .inr ⟨ready, by simpa only [Bool.not_eq_true] using outside, handed⟩
  · rw [if_neg ready] at handed
    injection handed with same
    exact .inl ⟨by simpa only [Bool.not_eq_true] using ready, same.symm⟩

/-- Of the session's state only the end of the session is noted when a block has been
handed over. -/
theorem settle_more (l after : BinkpLoop) (result : ReceiveResult)
    (settled : l.settle result = .more after) :
    (result = .abort ∧ after = { l with state.complete := true }) ∨
      (result ≠ .abort ∧ after.state = l.state) := by
  cases result with
  | abort =>
    injection settled with same
    exact .inl ⟨rfl, same.symm⟩
  | accepted =>
    injection settled with same
    exact .inr ⟨nofun, same ▸ rfl⟩
  | noMore =>
    injection settled with same
    exact .inr ⟨nofun, same ▸ rfl⟩
  | keep =>
    injection settled with same
    exact .inr ⟨nofun, same ▸ rfl⟩
  | crashed => cases settled

/-- Up to the handing over of a block the turn changes of the session's state only that
it is complete, how often the line was not waited for and the keys of what is read. -/
theorem arrive_more (made middle : BinkpLoop) (input : LoopInput)
    (arrived : made.arrive input = .more middle) :
    ∃ complete emptyloop keysIn,
      middle.state = { made.state with
        complete
        emptyloop
        remoteData := { made.state.remoteData with keysIn } } ∧
      (made.state.complete = true → complete = true) ∧ middle.produced = made.produced ∧
      middle.handed = made.handed := by
  obtain ⟨waited, awaited, received⟩ := (Turn.andThen_more_iff _ _ _).mp arrived
  have finished : ∃ complete, made.finish.state = { made.state with complete } ∧
      (made.state.complete = true → complete = true) ∧ made.finish.produced = made.produced ∧
      made.finish.handed = made.handed := by
    unfold finish
    split
    · exact ⟨true, rfl, fun _ => rfl, rfl, rfl⟩
    · exact ⟨made.state.complete, rfl, id, rfl, rfl⟩
  have awaits : ∃ emptyloop, waited.state = { made.finish.state with emptyloop } ∧
      waited.produced = made.finish.produced ∧ waited.handed = made.finish.handed := by
    unfold await at awaited
    split at awaited
    · split at awaited
      · cases awaited
      · injection awaited with same
        exact same ▸ ⟨_, rfl, rfl, rfl⟩
    · split at awaited
      · cases awaited
      · injection awaited with same
        exact same ▸ ⟨_, rfl, rfl, rfl⟩
  have receives : ∃ keysIn, middle.state =
        { waited.state with remoteData := { waited.state.remoteData with keysIn } } ∧
      middle.produced = waited.produced ∧ middle.handed = waited.handed := by
    unfold receive at received
    split at received
    · split at received
      · cases received
      · cases received
      · injection received with same
        subst same
        unfold store decrypt
        cases waited.encrypted <;> exact ⟨_, rfl, rfl, rfl⟩
    · injection received with same
      exact same ▸ ⟨_, rfl, rfl, rfl⟩
  obtain ⟨complete, ended, stays, first, firstly⟩ := finished
  obtain ⟨emptyloop, counted, second, secondly⟩ := awaits
  obtain ⟨keysIn, keyed, third, thirdly⟩ := receives
  refine ⟨complete, emptyloop, keysIn, ?_, stays, third.trans (second.trans first),
    thirdly.trans (secondly.trans firstly)⟩
  rw [keyed, counted, ended]

/-- A block that is handed over is a data block, one without a valid command, or a
command. -/
theorem hand_cases (conf : BinkpConf) (input : LoopInput) (l : BinkpLoop)
    (motive : BinkpState × ReceiveResult → Prop)
    (data : headerType l.readbuf = .data → motive (l.state.receiveData input.receiving
      ⟨l.readPos - binkpHeader, 0, l.readbuf.drop binkpHeader⟩ l.handedLength))
    (invalid : ∀ accesses msg, accesses = [] ∨ accesses = [.read 1 (l.readPos - binkpHeader)] →
      motive ((l.state.touch accesses).protoError msg))
    (command : ∀ message arg, l.command = some (message, arg) →
      motive ((l.state.touch [.read 1 (l.readPos - binkpHeader)]).receiveCommand conf
        input.receiving message arg l.handedLength)) :
    motive (l.hand conf input) := by
  unfold hand BinkpState.doreceiveblock
  cases type : headerType l.readbuf with
  | data => exact data type
  | cmd =>
    dsimp only
    split
    · have plain : l.state.touch [] = l.state := by simp [BinkpState.touch]
      simpa only [plain] using invalid [] (ascii "Zero length command received") (.inl rfl)
    · rename_i long
      split
      · exact invalid _ _ (.inr rfl)
      · rename_i message arg found
        refine command message arg ?_
        simp only [BinkpLoop.command, type, long, if_false, found]

/-- A command that is handed over is handled with its argument. -/
theorem hand_command (conf : BinkpConf) (input : LoopInput) (l : BinkpLoop) (message : Bpmsg)
    (arg : Pointer) (found : l.command = some (message, arg)) :
    l.hand conf input = (l.state.touch [.read 1 (l.readPos - binkpHeader)]).receiveCommand conf
      input.receiving message arg l.handedLength := by
  unfold command at found
  unfold hand BinkpState.doreceiveblock
  cases type : headerType l.readbuf with
  | data =>
    rw [type] at found
    cases found
  | cmd =>
    rw [type] at found
    dsimp only at found ⊢
    by_cases short : l.handedLength < 1
    · rw [if_pos short] at found
      cases found
    · rw [if_neg short] at found ⊢
      rw [found]

/-- A block that is handed over does not change the mode or take a return code
back. -/
theorem hand_follows (conf : BinkpConf) (input : LoopInput) (l : BinkpLoop) :
    BinkpState.Follows l.state (l.hand conf input).1 :=
  BinkpState.doreceiveblock_follows conf input.receiving l.state _ _ _ _

/-- What has to be shown for an invariant of the session's state after the block to be
sent was made. Where the loop ends with an error the weaker property is enough. -/
structure Exchanged (conf : BinkpConf) (condition : BinkpLoop → LoopInput → Prop)
    (invariant failed : BinkpState → Prop) : Prop where
  weaken : ∀ b, invariant b → failed b
  keys : ∀ b keysOut keysIn, invariant b →
    invariant { b with remoteData := { b.remoteData with keysOut, keysIn } }
  idle : ∀ b, invariant b → invariant { b with emptyloop := b.emptyloop + 1 }
  restart : ∀ l : BinkpLoop, invariant l.state → l.batchRestarts = true → invariant l.restart.state
  finish : ∀ b, invariant b → b.batchsendcomplete ≠ 0 → b.waitingGot = false →
    invariant { b with complete := true }
  hand : ∀ (l : BinkpLoop) input, l.ready = true → l.outside = false → condition l input →
    invariant l.state → (l.hand conf input).2.Keeps invariant failed (l.hand conf input).1
  abort : ∀ b, invariant b → b.rc ≠ .noerror → invariant { b with complete := true }

/-- What has to be shown for an invariant of the session's state. -/
structure Preserved (conf : BinkpConf) (condition : BinkpLoop → LoopInput → Prop)
    (invariant failed : BinkpState → Prop) : Prop
    extends Exchanged conf condition invariant failed where
  resume : ∀ b, invariant b → invariant { b with continuesend := false }
  fetch : ∀ b answers, invariant b →
    (b.getforsend conf answers).2.Keeps invariant failed (b.getforsend conf answers).1

section State

variable {conf : BinkpConf} {condition : BinkpLoop → LoopInput → Prop}
  {invariant failed : BinkpState → Prop}

/-- Making the next block keeps an invariant of the session's state that the making
of this block keeps. -/
theorem fetch_exchanged (exchanged : Exchanged conf condition invariant failed)
    (input : LoopInput) (l : BinkpLoop) (resumed : invariant l.resume.state)
    (made : l.resume.idle = true →
      (l.resume.state.getforsend conf input.sending).2.Keeps invariant failed
        (l.resume.state.getforsend conf input.sending).1) :
    (l.fetch conf input).Ends (fun after => invariant after.state)
      (fun after _ => failed after.state) := by
  have loaded : ∀ (l : BinkpLoop) (block : Block), invariant l.state →
      invariant (l.load block).state := by
    intro l block kept
    have coded : invariant (l.encrypt block.encode).1.state := by
      unfold encrypt
      split
      · exact exchanged.keys _ _ _ kept
      · exact kept
    exact coded
  unfold fetch
  split
  · rename_i wanted
    replace made := made wanted
    unfold fetchNext
    cases given : (l.resume.state.getforsend conf input.sending).2 with
    | block block last => exact loaded _ block (by rwa [given] at made)
    | nothing => rwa [given] at made
    | noMore => rwa [given] at made
    | error => rwa [given] at made
    | crashed => rwa [given] at made
  · exact resumed

/-- Making the next block keeps an invariant of the session's state. -/
theorem fetch_preserved (preserved : Preserved conf condition invariant failed)
    (input : LoopInput) (l : BinkpLoop) (kept : invariant l.state) :
    (l.fetch conf input).Ends (fun after => invariant after.state)
      (fun after _ => failed after.state) := by
  have resumed : invariant l.resume.state := by
    unfold resume
    split
    · exact preserved.resume _ kept
    · exact kept
  exact fetch_exchanged preserved.toExchanged input l resumed
    fun _ => preserved.fetch _ input.sending resumed

/-- Reading from the line keeps an invariant of the session's state. -/
theorem receive_preserved (preserved : Exchanged conf condition invariant failed)
    (input : LoopInput) (l : BinkpLoop) (kept : invariant l.state) :
    (l.receive input).Ends (fun after => invariant after.state)
      (fun after _ => failed after.state) := by
  have stored : ∀ bytes, invariant (l.store bytes).state := by
    intro bytes
    have decoded : invariant (l.decrypt bytes).1.state := by
      unfold decrypt
      split
      · exact preserved.keys _ _ _ kept
      · exact kept
    exact decoded
  unfold receive
  split
  · split
    · exact preserved.weaken _ kept
    · exact preserved.weaken _ kept
    · exact stored _
  · exact kept

/-- Handing over a block that meets the condition keeps an invariant of the
session's state. -/
theorem handle_preserved (preserved : Exchanged conf condition invariant failed)
    (input : LoopInput) (l : BinkpLoop) (kept : invariant l.state)
    (met : l.ready = true → l.outside = false → condition l input) :
    (l.handle conf input).Ends (fun after => invariant after.state)
      (fun after _ => failed after.state) := by
  unfold handle
  split
  · rename_i ready
    split
    · exact preserved.weaken _ kept
    · rename_i inside
      have inside : l.outside = false := by simpa using inside
      have after := preserved.hand l input ready inside (met ready inside) kept
      cases given : (l.hand conf input).2 with
      | accepted => rwa [given] at after
      | noMore => rwa [given] at after
      | keep => rwa [given] at after
      | abort =>
        have code : (l.hand conf input).1.rc = .remoteaborted :=
          BinkpState.doreceiveblock_abort conf input.receiving l.state _ _ _ _ given
        rw [given] at after
        exact preserved.abort _ after fun zero => absurd (code.symm.trans zero) nofun
      | crashed => rwa [given] at after
  · exact kept

/-- A turn that meets the condition keeps an invariant of the session's state that the
making of its block keeps. -/
theorem step_exchanged (preserved : Exchanged conf condition invariant failed) (l : BinkpLoop)
    (input : LoopInput) (holds : invariant l.state)
    (fetched : (l.fetch conf input).Ends (fun after => invariant after.state)
      (fun after _ => failed after.state))
    (admitted : Handing conf condition l input) :
    (step conf l input).Ends (fun after => invariant after.state)
      (fun after _ => failed after.state) := by
  refine step_stages _ l (fun _ => preserved.weaken _ holds) fetched
    (fun made _ kept again => preserved.restart made kept again) ?_ ?_
    (fun l kept => receive_preserved preserved input l kept) ?_ ?_
  · intro l _ kept _
    unfold finish
    split
    · rename_i done
      simp only [batchComplete, ne_eq, Bool.and_eq_true, Bool.not_eq_true',
        decide_not, decide_eq_false_iff_not] at done
      exact preserved.finish _ kept done.1.1 done.2
    · exact kept
  · intro l kept
    unfold await
    split
    · split
      · exact preserved.weaken _ kept
      · exact kept
    · split
      · exact preserved.weaken _ kept
      · exact preserved.idle _ kept
  · intro middle kept handed
    refine handle_preserved preserved input middle kept fun ready inside => ?_
    have met : middle.outside = false → condition middle input := by
      simpa only [Handing, Arriving, handed ready] using admitted
    exact met inside
  · intro l kept
    unfold transmit
    split
    · split
      · exact preserved.weaken _ kept
      · exact preserved.weaken _ kept
      · exact kept
    · exact kept

/-- A turn that meets the condition keeps an invariant of the session's state. -/
theorem step_preserved (preserved : Preserved conf condition invariant failed) (l : BinkpLoop)
    (input : LoopInput) (holds : invariant l.state) (admitted : Handing conf condition l input) :
    (step conf l input).Ends (fun after => invariant after.state)
      (fun after _ => failed after.state) :=
  step_exchanged preserved.toExchanged l input holds (fetch_preserved preserved input l holds)
    admitted

/-- No part of a turn returns zero. -/
theorem parts_nonzero (l final : BinkpLoop) (input : LoopInput) :
    l.fetch conf input ≠ .halt final (.returned .noerror) ∧
      l.await input ≠ .halt final (.returned .noerror) ∧
      l.receive input ≠ .halt final (.returned .noerror) ∧
      l.handle conf input ≠ .halt final (.returned .noerror) ∧
      l.transmit input ≠ .halt final (.returned .noerror) := by
  refine ⟨?_, ?_, ?_, ?_, ?_⟩
  · unfold fetch fetchNext take
    repeat' split
    all_goals simp
  · unfold await
    repeat' split
    all_goals simp
  · unfold receive
    repeat' split
    all_goals simp
  · unfold handle settle
    repeat' split
    all_goals simp
  · unfold transmit
    repeat' split
    all_goals simp

/-- The loop returns zero only at the start of a turn, where the session is over
and the return code is zero. -/
theorem step_noerror (l final : BinkpLoop) (input : LoopInput)
    (returned : step conf l input = .halt final (.returned .noerror)) :
    final = l ∧ l.isOver = true ∧ l.state.rc = .noerror := by
  unfold step at returned
  split at returned
  · rename_i ended
    injection returned with same code
    injection code with zero
    exact ⟨same.symm, ended, zero⟩
  · exfalso
    have nonzero := fun l => @parts_nonzero conf l final input
    unfold batch exchange arrive at returned
    rcases (Turn.andThen_halt_iff _ _ _ _).mp returned with fetched | ⟨fetched, _, batched⟩
    · exact (nonzero _).1 fetched
    · split at batched
      · cases batched
      · rcases (Turn.andThen_halt_iff _ _ _ _).mp batched with arrived | ⟨middle, _, after⟩
        · rcases (Turn.andThen_halt_iff _ _ _ _).mp arrived with awaited | ⟨_, _, received⟩
          · exact (nonzero _).2.1 awaited
          · exact (nonzero _).2.2.1 received
        · rcases (Turn.andThen_halt_iff _ _ _ _).mp after with handled | ⟨_, _, transmitted⟩
          · exact (nonzero _).2.2.2.1 handled
          · exact (nonzero _).2.2.2.2 transmitted

/-- The loop leaves the buffer of received blocks only where a block that is ready
lies outside of it. -/
theorem step_overrun (l final : BinkpLoop) (input : LoopInput)
    (left : step conf l input = .halt final .overrun) :
    ∃ middle, l.arriving conf input = some middle ∧ middle.outside = true := by
  have ends : (step conf l input).Ends (fun _ => True) (fun _ result => result = .overrun →
      ∃ middle, l.arriving conf input = some middle ∧ middle.outside = true) := by
    refine step_ends l trivial (fun _ => nofun) ?_ (fun _ _ _ => trivial) (fun _ _ => trivial)
      ?_ ?_ ?_ ?_
    · intro l _
      unfold fetch fetchNext take
      repeat' split
      all_goals first | trivial | exact nofun
    · intro l _
      unfold await
      repeat' split
      all_goals first | trivial | exact nofun
    · intro l _
      unfold receive
      repeat' split
      all_goals first | trivial | exact nofun
    · intro middle _ handed
      unfold handle settle
      split
      · rename_i ready
        split
        · rename_i outside
          exact fun _ => ⟨middle, handed ready, outside⟩
        · split <;> first | trivial | exact nofun
      · trivial
    · intro l _
      unfold transmit
      repeat' split
      all_goals first | trivial | exact nofun
  rw [left] at ends
  exact ends rfl

/-- An invariant of the session's state holds in every state of a run whose turns
meet the condition. Where the loop returns zero, the session was over. -/
theorem run_preserved (preserved : Preserved conf condition invariant failed)
    (start : BinkpLoop) (initial : invariant start.state) (inputs : List LoopInput)
    (admitted : Along (Handing conf condition) (step conf) start inputs) :
    (run (step conf) start inputs).Ends (fun final => invariant final.state)
      (fun final result => failed final.state ∧
        (result = .returned .noerror →
          invariant final.state ∧ final.isOver = true ∧ final.state.rc = .noerror)) := by
  refine run_invariant (fun l => invariant l.state) _ ?_ ?_ start initial inputs admitted
  · intro before input after kept allowed taken
    have ends := step_preserved preserved before input kept allowed
    rwa [taken] at ends
  · intro before input after result kept allowed taken
    have ends := step_preserved preserved before input kept allowed
    rw [taken] at ends
    refine ⟨ends, ?_⟩
    rintro rfl
    obtain ⟨rfl, closed, zero⟩ := step_noerror before after input taken
    exact ⟨kept, closed, zero⟩

/-- The mode stays, and a return code once set stays set. -/
theorem follows_preserved (conf : BinkpConf) (before : BinkpState) :
    Preserved conf (fun _ _ => True) (BinkpState.Follows before) (BinkpState.Follows before) where
  weaken _ kept := kept
  keys _ _ _ kept := kept.trans ⟨rfl, id⟩
  resume _ kept := kept.trans ⟨rfl, id⟩
  idle _ kept := kept.trans ⟨rfl, id⟩
  fetch b answers kept :=
    SendResult.keeps_of _ (kept.trans (BinkpState.getforsend_follows conf b answers))
  restart _ kept _ := kept.trans ⟨rfl, id⟩
  finish _ kept _ _ := kept.trans ⟨rfl, id⟩
  hand l input _ _ _ kept := ReceiveResult.keeps_of _ (kept.trans (hand_follows conf input l))
  abort _ kept _ := kept.trans ⟨rfl, id⟩

/-- Without a condition every turn of every run is admitted. -/
theorem along_always (conf : BinkpConf) (start : BinkpLoop) (inputs : List LoopInput) :
    Along (Handing conf fun _ _ => True) (step conf) start inputs := by
  refine along_of_forall _ _ (fun before input => ?_) start inputs
  unfold Handing Arriving
  split
  · trivial
  · exact fun _ => trivial

/-- A run that returns zero started in the same mode and without a return code. -/
theorem run_noerror (conf : BinkpConf) (start final : BinkpLoop) (inputs : List LoopInput)
    (returned : run (step conf) start inputs = .halt final (.returned .noerror)) :
    final.state.mode = start.state.mode ∧ start.state.rc = .noerror ∧
      final.state.complete = true ∧ final.state.waitingGot = false ∧
      final.state.rc = .noerror := by
  have ended := run_preserved (follows_preserved conf start.state) start ⟨rfl, id⟩ inputs
    (along_always conf start inputs)
  rw [returned] at ended
  obtain ⟨kept, closed, code⟩ := ended.2 rfl
  simp only [BinkpLoop.isOver, Bool.and_eq_true, Bool.not_eq_true'] at closed
  refine ⟨kept.mode, ?_, closed.1, closed.2, code⟩
  by_contra coded
  exact kept.coded coded code

end State

end BinkpLoop

end Binkleyforce
