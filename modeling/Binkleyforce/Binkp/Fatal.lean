import Binkleyforce.Binkp.Output

/-!
# Fatal errors of a BinkP session

An M_ERR or M_BSY of the remote, and an error of our own once it is sent, are meant
to end the session. The loop goes on all the same while a file waits for
acknowledgement.
-/

namespace Binkleyforce

open Library

/-- A block that announces a file or has data of one. -/
def Block.ofFile (block : Block) : Bool :=
  block.type = .data || block.payload.head? = some Bpmsg.file.toByte

namespace BinkpLoop

variable (conf : BinkpConf) (input : LoopInput)

/-! ## How a turn halts -/

/-- A turn that halts ends the loop with its code, fails with an error code, follows
a null pointer, or leaves the buffer. -/
theorem step_halt (l final : BinkpLoop) (result : LoopResult)
    (stepped : step conf l input = .halt final result) :
    (l.isOver = true ∧ final = l ∧ result = .returned l.state.rc) ∨
      (∃ rc, result = .returned rc ∧ rc ≠ .noerror) ∨
      (result = .crashed ∧ (l.fetch conf input = .halt final .crashed ∨
        ∃ middle ∈ l.arriving conf input, (middle.hand conf input).2 = .crashed)) ∨
      (result = .overrun ∧ ∃ middle ∈ l.arriving conf input, middle.outside = true) := by
  by_cases gone : l.isOver = true
  · unfold step at stepped
    rw [if_pos gone] at stepped
    injection stepped with same code
    exact .inl ⟨gone, same.symm, code.symm⟩
  · refine .inr ?_
    have nonzero : ∀ rc : Prc, rc = .error ∨ rc = .remoteaborted →
        ∃ code, LoopResult.returned rc = .returned code ∧ code ≠ .noerror := by
      rintro rc (rfl | rfl)
      · exact ⟨_, rfl, nofun⟩
      · exact ⟨_, rfl, nofun⟩
    have ends : (step conf l input).Ends (fun _ => True) (fun final result =>
        (∃ rc, result = .returned rc ∧ rc ≠ .noerror) ∨
          (result = .crashed ∧ (l.fetch conf input = .halt final .crashed ∨
            ∃ middle ∈ l.arriving conf input, (middle.hand conf input).2 = .crashed)) ∨
          (result = .overrun ∧ ∃ middle ∈ l.arriving conf input, middle.outside = true)) := by
      refine step_stages (fun _ => True) l (fun ended => absurd ended gone) ?_
        (fun _ _ _ _ => trivial) (fun _ _ _ _ => trivial) ?_ ?_ ?_ ?_
      · cases made : l.fetch conf input with
        | more after => trivial
        | halt after result =>
          unfold fetch fetchNext take at made
          split at made
          · split at made
            · cases made
            · cases made
            · cases made
            · injection made with _ code
              exact .inl (code ▸ nonzero _ (.inl rfl))
            · injection made with same code
              subst same code
              exact .inr (.inl ⟨rfl, .inl rfl⟩)
          · cases made
      · intro l _
        unfold await
        repeat' split
        all_goals first | trivial | exact .inl (nonzero _ (.inl rfl))
      · intro l _
        unfold receive
        repeat' split
        all_goals first
          | trivial
          | exact .inl (nonzero _ (.inl rfl))
          | exact .inl (nonzero _ (.inr rfl))
      · intro middle _ handed
        unfold handle
        split
        · rename_i ready
          split
          · rename_i outside
            exact .inr (.inr ⟨rfl, middle, handed ready, outside⟩)
          · cases given : (middle.hand conf input).2 with
            | crashed => exact .inr (.inl ⟨rfl, .inr ⟨middle, handed ready, given⟩⟩)
            | accepted => trivial
            | noMore => trivial
            | keep => trivial
            | abort => trivial
        · trivial
      · intro l _
        unfold transmit
        repeat' split
        all_goals first
          | trivial
          | exact .inl (nonzero _ (.inl rfl))
          | exact .inl (nonzero _ (.inr rfl))
    rwa [stepped] at ends

/-! ## What ends a session -/

/-- A command queued as the last one is made into a block. -/
def takesLast (l : BinkpLoop) : Bool :=
  !l.isOver && l.resume.idle && l.state.extracmd.isSome && l.state.extraislast

/-- The block is an M_ERR or an M_BSY. -/
def abortsSession (l : BinkpLoop) : Bool :=
  match l.command with
  | some (.err, _) | some (.bsy, _) => true
  | _ => false

/-- The turn makes the last block, or handles an M_ERR or M_BSY. -/
def Fatal (l : BinkpLoop) (input : LoopInput) : Prop :=
  l.takesLast = true ∨
    ∃ middle ∈ l.arriving conf input, middle.outside = false ∧ middle.abortsSession = true

instance (l : BinkpLoop) (input : LoopInput) : Decidable (Fatal conf l input) := by
  unfold Fatal
  infer_instance

/-- No more is sent of files. -/
def NoMoreSent (before after : BinkpLoop) : Prop :=
  ∀ block ∈ after.produced.drop before.produced.length, block.ofFile = false

/-- No more is written to a file that is being received. -/
def NoMoreStored (before after : BinkpLoop) : Prop :=
  ∀ (index : Nat) (stream : Stream),
    (after.state.pi.rcvdfiles[index]?.bind (·.fp)) = some stream →
      ∃ earlier, (before.state.pi.rcvdfiles[index]?.bind (·.fp)) = some earlier ∧
        stream.content = earlier.content

/-- The loop ended with a code that is not zero. -/
def Failed (result : LoopResult) : Prop := ∃ rc, result = .returned rc ∧ rc ≠ .noerror

/-- From here on nothing of files is sent or stored, and the loop ends with a code
that is not zero after so many turns at most. -/
structure Ending (l : BinkpLoop) : Prop where
  quiet : ∀ inputs, (run (step conf) l inputs).Ends
    (fun final => NoMoreSent l final ∧ NoMoreStored l final)
    (fun final result => NoMoreSent l final ∧ NoMoreStored l final ∧ Failed result)
  ends : ∃ count, ∀ inputs : List LoopInput, count ≤ inputs.length →
    ∀ final, run (step conf) l inputs ≠ .more final

/-- After every fatal turn of the run the session ends. -/
def FatalEnds (start : BinkpLoop) (inputs : List LoopInput) : Prop :=
  ∀ past input rest before, inputs = past ++ input :: rest →
    run (step conf) start past = .more before → Fatal conf before input →
    (step conf before input).Ends (Ending conf) (fun _ result => Failed result)

/-- No file waits for acknowledgement when an M_ERR or M_BSY is handled, or at the end
of the turn that makes the last block; that block stands for an error code, and what
is handed over in its turn can be handled. -/
def Heeded (l : BinkpLoop) (input : LoopInput) : Prop :=
  (∀ middle ∈ l.arriving conf input, middle.abortsSession = true →
    middle.state.waitingGot = false) ∧
  (l.takesLast = true → l.state.rc ≠ .noerror ∧
    (∀ made ∈ l.batching conf input, made.batchRestarts = true → made.state.waitingGot = false) ∧
    (∀ around ∈ l.handling conf input, around.2.state.waitingGot = false) ∧
    ∀ middle ∈ l.arriving conf input,
      middle.outside = false ∧ (middle.hand conf input).2 ≠ .crashed)

instance (l : BinkpLoop) (input : LoopInput) : Decidable (Heeded conf l input) := by
  unfold Heeded
  infer_instance

/-! ## The end -/

/-- A session that is over with an error code ends in the next turn. -/
theorem ending_of_over (l : BinkpLoop) (gone : l.isOver = true) (coded : l.state.rc ≠ .noerror) :
    Ending conf l := by
  have same : NoMoreSent l l ∧ NoMoreStored l l := by
    refine ⟨?_, fun index stream there => ⟨stream, there, rfl⟩⟩
    intro block member
    simp only [List.drop_length, List.not_mem_nil] at member
  have next : ∀ input, step conf l input = .halt l (.returned l.state.rc) := by
    intro input
    unfold step
    rw [if_pos gone]
  refine ⟨?_, 1, ?_⟩
  · intro inputs
    cases inputs with
    | nil => exact same
    | cons input rest =>
      rw [run_cons, next]
      exact ⟨same.1, same.2, l.state.rc, rfl, coded⟩
  · intro inputs enough final
    cases inputs with
    | nil => cases enough
    | cons input rest =>
      rw [run_cons, next]
      exact nofun

/-- Making the last block completes the session and keeps its code. -/
theorem fetch_last (l : BinkpLoop) (last : l.takesLast = true) :
    ∃ made, l.fetch conf input = .more made ∧ made.state.complete = true ∧
      made.state.rc = l.state.rc := by
  simp only [takesLast, Bool.and_eq_true] at last
  obtain ⟨⟨⟨_, wanted⟩, some⟩, ends⟩ := last
  obtain ⟨command, waits⟩ := Option.isSome_iff_exists.mp some
  have resumed : l.resume.state.extracmd = .some command ∧
      l.resume.state.extraislast = true ∧ l.resume.state.rc = l.state.rc := by
    unfold resume
    split <;> exact ⟨waits, ends, rfl⟩
  have given : l.resume.state.getforsend conf input.sending =
      ({ l.resume.state with extracmd := none, phase := 100, complete := true },
        BinkpState.command command.1 command.2) := by
    unfold BinkpState.getforsend
    rw [resumed.1]
    simp only [resumed.2.1, if_true]
  have coded : ∀ (l : BinkpLoop) (block : Block),
      (l.load block).state.complete = l.state.complete ∧ (l.load block).state.rc = l.state.rc := by
    intro l block
    unfold load encrypt
    dsimp only
    split <;> exact ⟨rfl, rfl⟩
  unfold fetch fetchNext
  rw [if_pos wanted, given]
  refine ⟨_, rfl, ?_, ?_⟩
  · exact (coded _ _).1
  · exact (coded _ _).2.trans resumed.2.2

/-- Up to the handing over the code stays, and a complete session is complete. -/
theorem arrive_flags (made middle : BinkpLoop) (arrived : made.arrive input = .more middle) :
    middle.state.rc = made.state.rc ∧
      (made.state.complete = true → middle.state.complete = true) := by
  obtain ⟨complete, emptyloop, keysIn, same, stays, _⟩ := arrive_more made middle input arrived
  rw [same]
  exact ⟨rfl, stays⟩

/-- So it is when a block has been handed over; and an error code stays one. -/
theorem handle_flags (middle handled : BinkpLoop)
    (handed : middle.handle conf input = .more handled) :
    (middle.state.rc ≠ .noerror → handled.state.rc ≠ .noerror) ∧
      (middle.state.complete = true → handled.state.complete = true) := by
  rcases handle_more conf input middle handled handed with ⟨_, rfl⟩ | ⟨_, _, settled⟩
  · exact ⟨id, id⟩
  · have slot := BinkpState.doreceiveblock_slot conf input.receiving middle.state
      (headerType middle.readbuf) (middle.readbuf.drop binkpHeader)
      (middle.readPos - binkpHeader) middle.handedLength
    have follows := hand_follows conf input middle
    rcases settle_more _ _ _ settled with ⟨_, rfl⟩ | ⟨_, state⟩
    · exact ⟨follows.coded, fun _ => rfl⟩
    · rw [state]
      exact ⟨follows.coded, slot.completes⟩

/-- An M_ERR or M_BSY sets the code and leaves the loop to end. -/
theorem hand_aborts (l : BinkpLoop) (aborts : l.abortsSession = true) :
    (l.hand conf input).2 = .abort ∧ (l.hand conf input).1.rc = .remoteaborted ∧
      (l.hand conf input).1.waitingGot = l.state.waitingGot := by
  cases found : l.command with
  | none =>
    unfold abortsSession at aborts
    rw [found] at aborts
    cases aborts
  | some command =>
    unfold abortsSession at aborts
    rw [found] at aborts
    obtain ⟨message, arg⟩ := command
    rw [hand_command conf input l message arg found]
    cases message with
    | err => exact ⟨rfl, rfl, rfl⟩
    | bsy => exact ⟨rfl, rfl, rfl⟩
    | _ => cases aborts

/-- A fatal turn that is heeded leaves a session that is over with an error code, or
ends the loop with one. -/
theorem step_fatal (l : BinkpLoop) (fatal : Fatal conf l input) (heeded : Heeded conf l input) :
    (step conf l input).Ends (Ending conf) (fun _ result => Failed result) := by
  obtain ⟨quiet, last⟩ := heeded
  cases taken : step conf l input with
  | halt final result =>
    rcases step_halt conf input l final result taken with
      ⟨gone, _, _⟩ | failed | ⟨_, fetched | ⟨middle, here, crashed⟩⟩ | ⟨_, middle, here, outside⟩
    · exfalso
      rcases fatal with made | ⟨middle, here, _⟩
      · simp only [takesLast, gone, Bool.not_true, Bool.false_and, Bool.false_eq_true] at made
      · obtain ⟨_, _, _, goes, _⟩ := arriving_some conf input l middle here
        rw [gone] at goes
        cases goes
    · exact failed
    · exfalso
      rcases fatal with made | ⟨middle, here, _⟩
      · obtain ⟨_, other, _⟩ := fetch_last conf input l made
        rw [fetched] at other
        cases other
      · obtain ⟨_, _, other, _⟩ := arriving_some conf input l middle here
        rw [fetched] at other
        cases other
    · exfalso
      rcases fatal with made | ⟨same, there, _, aborts⟩
      · exact ((last made).2.2.2 middle here).2 crashed
      · obtain rfl : middle = same := Option.some.inj (here.symm.trans there)
        have aborted := (hand_aborts conf input middle aborts).1
        rw [crashed] at aborted
        cases aborted
    · exfalso
      rcases fatal with made | ⟨same, there, inside, _⟩
      · exact absurd ((last made).2.2.2 middle here).1 (by simp [outside])
      · obtain rfl : middle = same := Option.some.inj (here.symm.trans there)
        rw [outside] at inside
        cases inside
  | more after =>
    obtain ⟨made, here, ⟨again, rfl⟩ | ⟨again, middle, handled, arrived, handed, written⟩⟩ :=
      step_more l after taken
    · rcases fatal with makes | ⟨middle, there, _⟩
      · obtain ⟨coded, restarts, _⟩ := last makes
        obtain ⟨same, fetched, completed, code⟩ := fetch_last conf input l makes
        obtain rfl : made = same := by
          unfold batching at here
          split at here
          · cases here
          · rw [fetched] at here
            exact (Option.some.inj here).symm
        refine ending_of_over conf _ ?_ (code ▸ coded)
        have free : made.state.waitingGot = false := restarts made here again
        simp only [isOver, restart, completed, free, Bool.not_false, Bool.and_self]
      · obtain ⟨same, batched, _, _, once, _⟩ := arriving_some conf input l middle there
        obtain rfl : made = same := Option.some.inj (here.symm.trans batched)
        rw [again] at once
        cases once
    · obtain ⟨state, _⟩ := transmit_more input handled after written
      obtain ⟨code, completed⟩ := arrive_flags input made middle arrived
      obtain ⟨coded, stays⟩ := handle_flags conf input middle handled handed
      have around : (middle, handled) ∈ l.handling conf input :=
        handling_some l made middle handled here again arrived handed
      suffices handled.state.complete = true ∧ handled.state.waitingGot = false ∧
          handled.state.rc ≠ .noerror by
        obtain ⟨complete, free, failed⟩ := this
        refine ending_of_over conf after ?_ (state ▸ failed)
        simp only [isOver, state, complete, free, Bool.not_false, Bool.and_self]
      rcases fatal with makes | ⟨same, there, inside, aborts⟩
      · obtain ⟨failed, _, free, _⟩ := last makes
        obtain ⟨same, fetched, complete, kept⟩ := fetch_last conf input l makes
        obtain rfl : made = same := by
          unfold batching at here
          split at here
          · cases here
          · rw [fetched] at here
            exact (Option.some.inj here).symm
        exact ⟨stays (completed complete), free _ around, coded (code ▸ kept ▸ failed)⟩
      · obtain ⟨other, batched, _, _, _, reached, ready⟩ := arriving_some conf input l same there
        obtain rfl : made = other := Option.some.inj (here.symm.trans batched)
        obtain rfl : middle = same := Turn.more.inj (arrived.symm.trans reached)
        obtain ⟨aborted, error, free⟩ := hand_aborts conf input middle aborts
        rcases handle_more conf input middle handled handed with ⟨unready, _⟩ | ⟨_, _, settled⟩
        · rw [ready] at unready
          cases unready
        · rw [aborted] at settled
          injection settled with same
          subst same
          refine ⟨rfl, free.trans (quiet middle there aborts), ?_⟩
          intro zero
          cases error.symm.trans zero

/-- Every run whose fatal turns are heeded ends after the first of them. -/
theorem fatal_ends (localData remoteData : BinkpSysinfo) (pi : Protinfo)
    (addressEstablished isProtected : Bool) (remoteaddrs : List Sysaddr)
    (inputs : List LoopInput)
    (heeded : Along (Heeded conf) (step conf)
      (binkpTransfer localData remoteData pi addressEstablished isProtected remoteaddrs) inputs) :
    FatalEnds conf
      (binkpTransfer localData remoteData pi addressEstablished isProtected remoteaddrs) inputs := by
  intro past input rest before split reached fatal
  subst split
  exact step_fatal conf input before fatal (along_at _ _ _ _ _ _ _ heeded reached).2

end BinkpLoop

/-- An M_ERR arrives where nothing waits for acknowledgement. -/
theorem error_ends_session : BinkpLoop.FatalEnds plainConf sendsNothing
    [lineTurn [128, 2] true, lineTurn (7 :: ascii "x") true, lineTurn [] true] :=
  BinkpLoop.fatal_ends plainConf {} {}
    { lists := { queue := [], filelist := [], reqsOnly := false } } true false []
    [lineTurn [128, 2] true, lineTurn (7 :: ascii "x") true, lineTurn [] true] (by decide)

/-- An M_ERR arrives while the announcement of a file is being written: the file's data
follows all the same. -/
theorem data_after_error : ¬ BinkpLoop.FatalEnds plainConf sendsOneFile
    [lineTurn [128, 2] false, lineTurn (7 :: ascii "x") false] := by
  have broken : (run (BinkpLoop.step plainConf) sendsOneFile [lineTurn [128, 2] false]).Ends
      (fun before => BinkpLoop.Fatal plainConf before (lineTurn (7 :: ascii "x") false) ∧
        (BinkpLoop.step plainConf before (lineTurn (7 :: ascii "x") false)).Ends
          (fun after => (run (BinkpLoop.step plainConf) after
            [lineTurn [] true, lineTurn [] true]).Ends
              (fun final => ∃ block ∈ final.produced.drop after.produced.length,
                block.ofFile = true)
              (fun _ _ => False))
          (fun _ _ => False))
      (fun _ _ => False) := by decide
  intro ends
  cases reached : run (BinkpLoop.step plainConf) sendsOneFile [lineTurn [128, 2] false] with
  | halt final result =>
    rw [reached] at broken
    exact broken
  | more before =>
    rw [reached] at broken
    obtain ⟨fatal, later⟩ := broken
    have ending := ends [lineTurn [128, 2] false] _ [] before rfl reached fatal
    cases taken : BinkpLoop.step plainConf before (lineTurn (7 :: ascii "x") false) with
    | halt final result =>
      rw [taken] at later
      exact later
    | more after =>
      rw [taken] at later ending
      have quiet := ending.quiet [lineTurn [] true, lineTurn [] true]
      cases ended : run (BinkpLoop.step plainConf) after [lineTurn [] true, lineTurn [] true] with
      | halt final result =>
        have later : (run (BinkpLoop.step plainConf) after
            [lineTurn [] true, lineTurn [] true]).Ends _ (fun _ _ => False) := later
        rw [ended] at later
        exact later
      | more final =>
        have later : (run (BinkpLoop.step plainConf) after
            [lineTurn [] true, lineTurn [] true]).Ends (fun final =>
              ∃ block ∈ final.produced.drop after.produced.length, block.ofFile = true)
                (fun _ _ => False) := later
        rw [ended] at later quiet
        obtain ⟨block, member, file⟩ := later
        exact absurd file (by simp [quiet.1 block member])

end Binkleyforce
