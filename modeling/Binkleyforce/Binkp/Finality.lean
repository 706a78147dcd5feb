import Binkleyforce.Binkp.Framing
import Binkleyforce.Binkp.Pending
import Binkleyforce.Transfer.Closings

/-!
# Whether final statuses stay final

M_GOT, M_SKIP and M_GET find their file in the list of all files sent, whatever has
become of it. A file that was closed is closed again where one of them is repeated,
and a spool file that was closed is read on where it is asked for at its end.
-/

namespace Binkleyforce

open Library

/-- The first file of the list with a name, size and time is a local one that has its
final status. -/
def namesClosed (fi : FileHint) (sentfiles : List Finfo) : Bool :=
  match sentfiles.findIdx? (pCompfinfo · fi) with
  | none => false
  | some index => sentfiles[index]?.any fun named => !named.netspool && decide named.closed

/-- M_GOT or M_SKIP would close a file that has its final status: the current one,
which it aborts, or the one it names. -/
def closesAgain (b : BinkpState) (arg : Pointer) (high : BpfinfoHigh) : Bool :=
  match (binkpParsfinfo arg false high).1 with
  | none => false
  | some fi =>
    !abortRefused b fi &&
      (b.pi.sending.any (fun current => decide (current.netName = fi.fn ∧ current.closed)) ||
        namesClosed ⟨fi.fn, fi.sz, fi.tm⟩ b.pi.sentfiles)

/-- M_GET for another position of the current file, which has its final status. -/
def rewindsClosed (b : BinkpState) (arg : Pointer) (high : BpfinfoHigh) : Bool :=
  match (binkpParsfinfo arg true high).1 with
  | none => false
  | some getfi =>
    b.extracmd.isNone && b.pi.sending.any fun current =>
      pCompfinfo current ⟨getfi.fn, getfi.sz, getfi.tm⟩ &&
        decide (getfi.offs ≠ current.bytesSent) && !current.netspool && decide current.closed

/-- The block handed over is such a command. -/
def reclosesFile (l : BinkpLoop) (input : LoopInput) : Bool :=
  match l.command with
  | some (.got, arg) | some (.skip, arg) => closesAgain l.state arg input.receiving.high
  | some (.get, arg) => rewindsClosed l.state arg input.receiving.high
  | _ => false

/-- The next block would be read from a spool file that has its final status. -/
def readsClosed (l : BinkpLoop) : Bool :=
  !l.isOver && l.resume.idle && l.state.extracmd.isNone && decide (l.state.mode = .transfer) &&
    decide (l.state.phase = 2) && l.state.pi.sending.any fun current =>
      current.netspool && decide current.closed

/-- No file with its final status is read on or closed again in the turn. -/
def LeavesClosed (conf : BinkpConf) (l : BinkpLoop) (input : LoopInput) : Prop :=
  readsClosed l = false ∧ BinkpLoop.Handing conf (fun l input => reclosesFile l input = false) l input

instance (conf : BinkpConf) (l : BinkpLoop) (input : LoopInput) :
    Decidable (LeavesClosed conf l input) := by
  unfold LeavesClosed
  infer_instance

/-- At every moment of the run, what has its final status keeps it from then on, and
is not closed again: no action is taken again and no traffic counted again for it. -/
def FinalStatuses (conf : BinkpConf) (start : BinkpLoop) (inputs : List LoopInput) : Prop :=
  ∀ past rest earlier, inputs = past ++ rest →
    run (BinkpLoop.step conf) start past = .more earlier →
    (run (BinkpLoop.step conf) earlier rest).Leaves fun later =>
      Final earlier.state.pi later.state.pi

section Sealed

variable {conf : BinkpConf} {b : BinkpState}

/-- What is kept of closed files where a block is made or handled. -/
def SealedBy (before after : BinkpState) : Prop := Sealed before.pi after.pi

/-- It depends on the sending side only. -/
theorem sealed_side (shut : Shut b.pi) {after : BinkpState}
    (same : after.sendingSide = b.sendingSide) : Sealed b.pi after.pi := by
  simp only [BinkpState.sendingSide, Protinfo.sendingPart, Prod.mk.injEq] at same
  obtain ⟨⟨files, _, _, effects, traffic⟩, _⟩ := same
  exact sealed_same shut files effects traffic

/-! ## Making a block -/

theorem sealed_sendNextFile (shut : Shut b.pi) (answers : SendAnswers) :
    Sealed b.pi (b.sendNextFile conf answers).1.pi := by
  have opened := sealed_pTxFopen shut { conf.files with noRemoteaddr := b.remoteaddrs.isEmpty }
    answers.opening
  unfold BinkpState.sendNextFile
  split
  · rename_i pi given
    rw [given] at opened
    exact opened
  · rename_i pi given
    rw [given] at opened
    dsimp only
    split
    · split
      · exact opened
      · exact opened
    · unfold BinkpState.sendFile
      dsimp only
      split
      · exact opened
      · exact opened

theorem sealed_awaitAck (shut : Shut b.pi) (answers : SendAnswers) :
    Sealed b.pi (b.awaitAck conf answers).1.pi := by
  unfold BinkpState.awaitAck
  split
  · exact sealed_side shut rfl
  · split
    · exact sealed_side shut rfl
    · exact sealed_sendNextFile (b := { b with phase := 0 }) shut answers

theorem sealed_sendData (shut : Shut b.pi) (answers : SendAnswers)
    (spool : ∀ finf, b.pi.sending = some finf → finf.netspool = true → ¬ finf.closed) :
    (b.sendData conf answers).2.Keeps (SealedBy b) (fun after => Final b.pi after.pi)
      (b.sendData conf answers).1 := by
  have read := fun after result given =>
    @final_pTxReadfile _ after shut answers.reading BinkpState.dataBlockSize result given spool
  unfold BinkpState.sendData
  split
  · exact .refl _
  · rename_i pi given
    obtain ⟨final, data⟩ := read _ _ given
    obtain ⟨shut, going⟩ := data _ rfl
    have marked := sealed_changeSend shut (fun finf => { finf with status := .waitack })
      (fun old same ended => absurd ended (going old same))
      (fun old _ ended => by simp [Finfo.closed] at ended)
    have waits := fun shut => @sealed_awaitAck conf ({ b with
      pi := pi.changeSend fun finf => { finf with status := .waitack }
      phase := b.phase + 1 }) shut answers
    have whole : SealedBy b (BinkpState.awaitAck conf answers { b with
        pi := pi.changeSend fun finf => { finf with status := .waitack }
        phase := b.phase + 1 }).1 :=
      (Sealed.mk final shut).trans fun _ => marked.trans waits
    generalize BinkpState.awaitAck conf answers _ = after at whole ⊢
    cases after.2 <;> first | exact whole | exact whole.final
  · rename_i pi bytes _ given
    obtain ⟨final, data⟩ := read _ _ given
    obtain ⟨shut, going⟩ := data _ rfl
    exact (Sealed.mk final shut).trans fun shut =>
      sealed_changeSend_mild shut _ (fun _ => rfl) (fun _ => rfl)
  · rename_i pi given
    exact (read _ _ given).1
  · rename_i pi given
    exact (read _ _ given).1

/-- Making a block loses nothing where it is not read from a spool file with its final
status. -/
theorem sealed_getforsend (shut : Shut b.pi) (answers : SendAnswers)
    (spool : b.extracmd = none → b.mode = .transfer → b.phase = 2 →
      ∀ finf, b.pi.sending = some finf → finf.netspool = true → ¬ finf.closed) :
    (b.getforsend conf answers).2.Keeps (SealedBy b) (fun after => Final b.pi after.pi)
      (b.getforsend conf answers).1 := by
  have result : ∀ after : BinkpState × SendResult, Sealed b.pi after.1.pi →
      after.2.Keeps (SealedBy b) (fun after => Final b.pi after.pi) after.1 := by
    intro after kept
    cases after.2 <;> first | exact kept | exact kept.final
  unfold BinkpState.getforsend
  cases slot : b.extracmd with
  | some command =>
    refine result _ ?_
    dsimp only
    split <;> exact sealed_side shut rfl
  | none =>
    dsimp only
    split
    · rename_i transfer
      unfold BinkpState.transferForsend
      split
      · exact result _ (sealed_sendNextFile shut answers)
      · refine result _ ?_
        unfold BinkpState.sendFile
        split <;> exact sealed_side shut rfl
      · rename_i reading
        exact sealed_sendData shut answers (spool slot transfer reading)
      · exact result _ (sealed_awaitAck shut answers)
      · exact result _ (sealed_side shut rfl)
      · exact result _ (sealed_side shut rfl)
      · exact result _ (sealed_side shut rfl)
    · exact result _ (sealed_side shut handshakeForsend_sendingSide)

/-! ## Handling a block -/

theorem sealed_announceAt (shut : Shut b.pi) (offset : Nat) :
    Sealed b.pi (b.announceAt offset).pi := by
  unfold BinkpState.announceAt
  split <;> exact sealed_side shut rfl

theorem sealed_rewindTo (shut : Shut b.pi) (answers : ReceiveAnswers) (offset : Nat) (msg : Bytes)
    (going : ∀ finf, b.pi.sending = some finf → ¬ finf.closed) :
    Sealed b.pi (b.rewindTo answers offset msg).1.pi := by
  have rewound := sealed_pTxRewind shut offset
  unfold BinkpState.rewindTo
  split
  · rename_i pi failed
    obtain rfl : b.pi = pi := by
      have same := @pTxRewind_failed b.pi offset (by rw [failed])
      rw [failed] at same
      exact same.symm
    exact sealed_pTxFclose shut answers.told going
  · rename_i pi sought
    rw [sought] at rewound
    refine rewound.trans fun shut => ?_
    refine (sealed_changeSend_mild shut _ ?_ ?_).trans fun shut =>
      sealed_announceAt (b := { b with pi := pi.changeSend fun finf =>
        { finf with bytesSkipped := offset, bytesSent := offset } }) shut offset
    · exact fun _ => rfl
    · exact fun _ => rfl

theorem sealed_reopenAt (shut : Shut b.pi) (answers : ReceiveAnswers) (getfi : Bpfinfo) :
    Sealed b.pi (b.reopenAt conf answers getfi).1.pi := by
  have reopened := sealed_pTxReopen shut conf.files.holdall ⟨getfi.fn, getfi.sz, getfi.tm⟩
  have fresh := @pTxReopen_fresh b.pi conf.files.holdall ⟨getfi.fn, getfi.sz, getfi.tm⟩
  unfold BinkpState.reopenAt
  split
  · rename_i pi missing
    rw [missing] at reopened
    exact reopened
  · rename_i pi found
    rw [found] at reopened fresh
    refine reopened.trans fun shut => ?_
    have rewound := sealed_pTxRewind shut getfi.offs
    split
    · rename_i there failed
      obtain rfl : pi = there := by
        have same := @pTxRewind_failed pi getfi.offs (by rw [failed])
        rw [failed] at same
        exact same.symm
      refine sealed_pTxFclose shut answers.told fun finf current ended => ?_
      simp [Finfo.closed, fresh rfl finf current] at ended
    · rename_i there sought
      rw [sought] at rewound
      refine rewound.trans fun shut => ?_
      exact (sealed_changeSend_mild shut
          (fun finf => { finf with bytesSkipped := getfi.offs, bytesSent := getfi.offs })
          (fun _ => rfl) (fun _ => rfl)).trans fun shut => sealed_announceAt (b := { b with
          waitingGot := true
          pi := there.changeSend fun finf =>
            { finf with bytesSkipped := getfi.offs, bytesSent := getfi.offs } }) shut _

/-- M_GET loses nothing unless it rewinds a file with its final status. -/
theorem sealed_receiveGET (shut : Shut b.pi) (answers : ReceiveAnswers) (arg : Pointer)
    (fine : rewindsClosed b arg answers.high = false) :
    Sealed b.pi (b.receiveGET conf answers arg).1.pi := by
  unfold rewindsClosed at fine
  unfold BinkpState.receiveGET
  dsimp only
  split
  · exact sealed_side shut rfl
  · have touched : Shut (b.touch (binkpParsfinfo arg true answers.high).2).pi := shut
    split
    · exact sealed_side shut rfl
    · rename_i getfi parsed
      simp only [parsed] at fine
      split
      · exact sealed_side shut rfl
      · rename_i free
        split
        · exact sealed_reopenAt touched answers getfi
        · rename_i current sending
          split
          · exact sealed_announceAt touched _
          · rename_i elsewhere
            split
            · exact sealed_side shut rfl
            · rename_i plain
              split
              · rename_i wanted
                refine sealed_rewindTo touched answers _ _ fun finf same ended => ?_
                obtain rfl : current = finf := Option.some.inj (sending.symm.trans same)
                have empty : ¬ b.extracmd.isSome = true := free
                have free : b.extracmd.isNone = true := by simpa using empty
                simp only [show b.pi.sending = some current from sending, free, Option.any_some,
                  wanted, Bool.true_and, Bool.and_eq_false_iff, decide_eq_false_iff_not] at fine
                simp_all
              · exact sealed_reopenAt touched answers getfi

theorem namesClosed_congr (fi : FileHint) (left right : List Finfo)
    (same : left.map (fun finf => (finf.hint, finf.status, finf.netspool)) =
      right.map (fun finf => (finf.hint, finf.status, finf.netspool))) :
    namesClosed fi left = namesClosed fi right := by
  have through : ∀ list : List Finfo, namesClosed fi list =
      let seen := list.map (fun finf => (finf.hint, finf.status, finf.netspool))
      match seen.findIdx? (fun entry => decide (entry.1 = fi)) with
      | none => false
      | some index => seen[index]?.any fun entry => !entry.2.2 &&
          decide (entry.2.1 = .success ∨ entry.2.1 = .skipped ∨ entry.2.1 = .refused) := by
    intro list
    unfold namesClosed
    simp only [List.findIdx?_map, List.getElem?_map, Option.any_map, Function.comp_def]
    rfl
  rw [through left, through right, same]

theorem sealed_closeNamed (shut : Shut b.pi) (told : Bool) (index : Nat) (finf : Finfo)
    (status : Fstat) (there : b.pi.sentfiles[index]? = some finf) (going : ¬ finf.closed) :
    Sealed b.pi (b.closeNamed told index status).pi := by
  have closed := sealed_close shut told index finf status there going b.pi.send
  unfold BinkpState.closeNamed BinkpState.checkConfirmed
  dsimp only
  split <;> exact closed

/-- M_GOT and M_SKIP lose nothing unless they name a file with its final status. -/
theorem sealed_gotSkipNamed (shut : Shut b.pi) (answers : ReceiveAnswers) (skip : Bool)
    (fi : FileHint) (fine : namesClosed fi b.pi.sentfiles = false) :
    Sealed b.pi (b.gotSkipNamed answers skip fi).1.pi := by
  unfold namesClosed at fine
  unfold BinkpState.gotSkipNamed
  cases found : b.pi.sentfiles.findIdx? (pCompfinfo · fi) with
  | none => exact sealed_side shut rfl
  | some index =>
    obtain ⟨inside, _⟩ := List.findIdx?_eq_some_iff_getElem.mp found
    have there : b.pi.sentfiles[index]? = some b.pi.sentfiles[index] :=
      List.getElem?_eq_getElem inside
    generalize b.pi.sentfiles[index] = finf at there
    simp only [found, there, Option.any_some] at fine
    have local_going : ¬ finf.netspool = true → ¬ finf.closed := by
      intro plain ended
      simp [plain, ended] at fine
    have elsewhere : Sealed b.pi { b.pi with send := some index } := sealed_same shut rfl rfl rfl
    simp only [there, Option.any_some, decide_eq_true_eq]
    split
    · split
      · exact elsewhere
      · rename_i plain
        exact sealed_closeNamed shut answers.told index finf .refused there (local_going plain)
    · split
      · rename_i waiting
        refine sealed_closeNamed (b := { b with gots := b.gots ++ [fi] }) shut answers.told index
          finf .success there ?_
        simp [Finfo.closed, waiting]
      · split
        · exact elsewhere
        · rename_i plain
          exact sealed_closeNamed (b := { b with gots := b.gots ++ [fi] }) shut answers.told index
            finf .skipped there (local_going plain)

theorem sealed_receiveGotSkip (shut : Shut b.pi) (answers : ReceiveAnswers) (skip : Bool)
    (arg : Pointer) (fine : closesAgain b arg answers.high = false) :
    Sealed b.pi (b.receiveGotSkip answers skip arg).1.pi := by
  unfold closesAgain at fine
  unfold BinkpState.receiveGotSkip
  dsimp only
  split
  · exact sealed_side shut rfl
  · split
    · exact sealed_side shut rfl
    · rename_i fi parsed
      simp only [parsed] at fine
      split
      · exact sealed_side shut rfl
      · rename_i current sending
        replace sending : b.pi.sending = some current := sending
        simp only [abortRefused, sending, Option.any_some] at fine
        split
        · rename_i named
          split
          · exact sealed_side shut rfl
          · rename_i plain
            have going : ¬ current.closed := by
              intro ended
              simp [named, plain, ended] at fine
            have aborted := sealed_pTxFclose shut answers.told fun finf same => by
              obtain rfl : current = finf := Option.some.inj (sending.symm.trans same)
              exact going
            refine aborted.trans fun shut => ?_
            refine sealed_gotSkipNamed (b := { b.touch (binkpParsfinfo arg false answers.high).2 with
              pi := pTxFclose answers.told b.pi, phase := 0 }) shut answers skip _ ?_
            refine (namesClosed_congr _ _ _ (pTxFclose_seen answers.told b.pi)).trans ?_
            simp only [plain, Bool.and_false, Bool.not_false, Bool.true_and,
              Bool.or_eq_false_iff] at fine
            exact fine.2
        · rename_i distinct
          refine sealed_gotSkipNamed (b := b.touch (binkpParsfinfo arg false answers.high).2) shut
            answers skip _ ?_
          have goes : (!(decide (current.netName = fi.fn) && decide (current.status ≠ .waitack) &&
              current.netspool)) = true := by
            by_cases name : current.netName = fi.fn
            · have waits : current.status = .waitack := by
                by_contra other
                exact distinct ⟨name, other⟩
              simp [waits]
            · simp [name]
          rw [goes] at fine
          simp only [Bool.true_and, Bool.or_eq_false_iff] at fine
          exact fine.2

/-- A block that is handed over loses nothing where it does not close a file again. -/
theorem sealed_hand (l : BinkpLoop) (input : LoopInput) (shut : Shut l.state.pi)
    (fine : reclosesFile l input = false) : Sealed l.state.pi (l.hand conf input).1.pi := by
  refine BinkpLoop.hand_cases conf input l (fun after => Sealed l.state.pi after.1.pi) ?_ ?_ ?_
  · intro _
    exact sealed_side shut (BinkpState.receiveData_sendingSide input.receiving l.state _ _)
  · intro accesses msg _
    exact sealed_side shut rfl
  · intro message arg found
    have touched : Shut (l.state.touch [.read 1 (l.readPos - binkpHeader)]).pi := shut
    unfold reclosesFile at fine
    rw [found] at fine
    by_cases other : message ≠ .got ∧ message ≠ .skip ∧ message ≠ .get
    · exact sealed_side touched
        (BinkpState.receiveCommand_sendingSide conf input.receiving _ arg message _ other)
    · cases message with
      | got => exact sealed_receiveGotSkip touched input.receiving false arg fine
      | skip => exact sealed_receiveGotSkip touched input.receiving true arg fine
      | get => exact sealed_receiveGET touched input.receiving arg fine
      | _ => exact absurd ⟨nofun, nofun, nofun⟩ other

end Sealed

/-! ## Runs -/

/-- What is kept from a moment on. -/
theorem sealed_exchanged (conf : BinkpConf) (earlier : Protinfo) :
    BinkpLoop.Exchanged conf (fun l input => reclosesFile l input = false)
      (fun b => Sealed earlier b.pi) (fun b => Final earlier b.pi) where
  weaken _ kept := kept.final
  keys _ _ _ kept := kept
  idle _ kept := kept
  restart _ kept _ := kept
  finish _ kept _ _ := kept
  hand l input _ _ fine kept := by
    have after := kept.trans fun shut => @sealed_hand conf l input shut fine
    cases (l.hand conf input).2 <;> first | exact after | exact after.final
  abort _ kept _ := kept

/-- A turn that leaves closed files alone keeps it. -/
theorem step_sealed (conf : BinkpConf) (earlier : Protinfo) (l : BinkpLoop) (input : LoopInput)
    (kept : Sealed earlier l.state.pi) (leaves : LeavesClosed conf l input) :
    (BinkpLoop.step conf l input).Ends (fun after => Sealed earlier after.state.pi)
      (fun after _ => Final earlier after.state.pi) := by
  by_cases gone : l.isOver = true
  · unfold BinkpLoop.step
    rw [if_pos gone]
    exact kept.final
  · refine BinkpLoop.step_exchanged (sealed_exchanged conf earlier) l input kept ?_ leaves.2
    have same : l.resume.state.pi = l.state.pi ∧ l.resume.state.extracmd = l.state.extracmd ∧
        l.resume.state.mode = l.state.mode ∧ l.resume.state.phase = l.state.phase := by
      unfold BinkpLoop.resume
      split <;> exact ⟨rfl, rfl, rfl, rfl⟩
    obtain ⟨pi, slot, mode, phase⟩ := same
    refine BinkpLoop.fetch_exchanged (sealed_exchanged conf earlier) input l (pi ▸ kept) ?_
    intro wanted
    have made := @sealed_getforsend conf l.resume.state (pi ▸ kept.shut)
      input.sending (by
        intro free transfer reading finf current network ended
        have quiet := leaves.1
        rw [slot] at free
        rw [mode] at transfer
        rw [phase] at reading
        rw [pi] at current
        simp [readsClosed, gone, wanted, free, transfer, reading, current, network, ended] at quiet)
    have before : Final earlier l.resume.state.pi := pi ▸ kept.final
    cases given : (l.resume.state.getforsend conf input.sending).2 with
    | error => exact before.trans (by rwa [given] at made)
    | crashed => exact before.trans (by rwa [given] at made)
    | nothing => exact (Sealed.mk before (pi ▸ kept.shut)).trans fun _ => by rwa [given] at made
    | noMore => exact (Sealed.mk before (pi ▸ kept.shut)).trans fun _ => by rwa [given] at made
    | block block last =>
      exact (Sealed.mk before (pi ▸ kept.shut)).trans fun _ => by rwa [given] at made

/-- What is final stays so from any moment of a run on that leaves closed files
alone. -/
theorem run_sealed (conf : BinkpConf) (earlier : BinkpLoop) (shut : Shut earlier.state.pi)
    (inputs : List LoopInput)
    (leaves : Along (LeavesClosed conf) (BinkpLoop.step conf) earlier inputs) :
    (run (BinkpLoop.step conf) earlier inputs).Ends
      (fun later => Sealed earlier.state.pi later.state.pi)
      (fun later _ => Final earlier.state.pi later.state.pi) := by
  refine run_invariant (fun later => Sealed earlier.state.pi later.state.pi) _ ?_ ?_ earlier
    ⟨.refl _, shut⟩ inputs leaves
  · intro before input after kept allowed taken
    have ends := step_sealed conf earlier.state.pi before input kept allowed
    rwa [taken] at ends
  · intro before input after result kept allowed taken
    have ends := step_sealed conf earlier.state.pi before input kept allowed
    rwa [taken] at ends

/-- The file is sent and acknowledged. -/
def acknowledged : List LoopInput :=
  [lineTurn [] true, lineTurn [] true, lineTurn [] true, lineTurn [128, 6] true,
    lineTurn (6 :: ascii "a 3 0") true]

end Binkleyforce
