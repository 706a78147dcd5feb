import Mathlib.Data.List.InsertIdx
import Binkleyforce.Binkp.Sides
import Binkleyforce.Transfer.Tracked

/-!
# Whether a finished transfer left files unacknowledged

`waitingGot` stands for the list of files sent: it is set when a file is opened,
and cleared by an M_GOT or M_SKIP after which no file waits for acknowledgement. A
file that is still being sent does not wait yet. Where no such command is accepted
while another file is being sent and none other waits, the flag says what it
should, and the transfer ends with every file closed.
-/

namespace Binkleyforce

open Library

/-- Whenever the loop returns zero, no file sent is still being sent or waits for
acknowledgement. -/
def NoneLeft (conf : BinkpConf) (start : BinkpLoop) (inputs : List LoopInput) : Prop :=
  ∀ final, run (BinkpLoop.step conf) start inputs = .halt final (.returned .noerror) →
    ∀ finf ∈ final.state.pi.sentfiles, finf.status ≠ .waitack ∧ finf.status ≠ .process

/-- `init_protinfo`: nothing was sent or received yet. -/
def initProtinfo (lists : FileLists) : Protinfo := { lists }

/-- M_GOT or M_SKIP for a file that is in the list is accepted. -/
def gotSkipTaken (skip : Bool) (finf : Finfo) : Bool :=
  !finf.netspool || (!skip && decide (finf.status = .waitack))

/-- M_GOT or M_SKIP is accepted for a file of the list, no other one waits for
acknowledgement, and another one is still being sent. -/
def stranded (skip : Bool) (fi : FileHint) (sentfiles : List Finfo) : Bool :=
  match sentfiles.findIdx? (pCompfinfo · fi) with
  | none => false
  | some index =>
    let others := sentfiles.eraseIdx index
    sentfiles[index]?.any (gotSkipTaken skip) && !others.any (·.status = .waitack) &&
      others.any (·.status = .process)

/-- The file being sent is of the spool, so that it cannot be aborted. -/
def abortRefused (b : BinkpState) (fi : Bpfinfo) : Bool :=
  b.pi.sending.any fun current =>
    decide (current.netName = fi.fn) && decide (current.status ≠ .waitack) && current.netspool

/-- An M_GOT or M_SKIP that leaves a file stranded. -/
def strands (b : BinkpState) (skip : Bool) (arg : Pointer) (high : BpfinfoHigh) : Bool :=
  match (binkpParsfinfo arg false high).1 with
  | none => false
  | some fi => !abortRefused b fi && stranded skip ⟨fi.fn, fi.sz, fi.tm⟩ b.pi.sentfiles

/-- The block handed over is such a command. -/
def strandsFile (l : BinkpLoop) (input : LoopInput) : Bool :=
  match l.command with
  | some (.got, arg) => strands l.state false arg input.receiving.high
  | some (.skip, arg) => strands l.state true arg input.receiving.high
  | _ => false

/-- No block that is handed over strands a file. -/
def NothingStranded (conf : BinkpConf) : BinkpLoop → LoopInput → Prop :=
  BinkpLoop.Handing conf fun l input => strandsFile l input = false

instance (conf : BinkpConf) (l : BinkpLoop) (input : LoopInput) :
    Decidable (NothingStranded conf l input) := by
  unfold NothingStranded
  infer_instance

/-- What holds throughout a transfer: the list is tracked, and while nothing waits
for acknowledgement every file is closed. -/
structure Settled (b : BinkpState) : Prop where
  tracked : Tracked b.pi
  settled : b.waitingGot = false → ∀ finf ∈ b.pi.sentfiles, finf.closed

section Settled

variable {conf : BinkpConf} {b : BinkpState}

/-- It depends on the sending side only. -/
theorem settled_side {after : BinkpState} (settled : Settled b)
    (same : after.sendingSide = b.sendingSide) : Settled after := by
  simp only [BinkpState.sendingSide, Protinfo.sendingPart, Prod.mk.injEq] at same
  obtain ⟨⟨files, _, spool, _⟩, _, waiting⟩ := same
  exact ⟨tracked_same settled.tracked files (spool ▸ id), waiting ▸ files ▸ settled.settled⟩

/-- While a file is not closed, something waits. -/
theorem waiting_of_going (settled : Settled b)
    (going : ∃ finf ∈ b.pi.sentfiles, ¬ finf.closed) : b.waitingGot = true := by
  obtain ⟨finf, member, going⟩ := going
  by_contra quiet
  exact going (settled.settled (by simpa using quiet) finf member)

/-- While something waits only the list has to be tracked. -/
theorem settled_waiting (tracked : Tracked b.pi) (waiting : b.waitingGot = true) : Settled b :=
  ⟨tracked, fun quiet => by simp [waiting] at quiet⟩

/-! ## The phases of the sending side -/

/-- Opening no file leaves the list of files sent. -/
theorem pTxFopen_nothing (conf : TransferConf) (answers : TxOpenAnswers) (pi : Protinfo)
    (nothing : (pTxFopen conf answers pi).2 = false) :
    (pTxFopen conf answers pi).1.sentfiles = pi.sentfiles := by
  unfold pTxFopen at nothing ⊢
  dsimp only at nothing ⊢
  split
  · rfl
  · rename_i chosen
    simp [chosen] at nothing
  · split
    · rename_i opened
      simp_all
    · rfl

theorem settled_sendNextFile (settled : Settled b) (answers : SendAnswers) :
    (b.sendNextFile conf answers).2.Keeps Settled (fun _ => True)
      (b.sendNextFile conf answers).1 := by
  have tracked := tracked_pTxFopen settled.tracked
    { conf.files with noRemoteaddr := b.remoteaddrs.isEmpty } answers.opening
  unfold BinkpState.sendNextFile
  split
  · rename_i pi opened
    have files := pTxFopen_nothing { conf.files with noRemoteaddr := b.remoteaddrs.isEmpty }
      answers.opening b.pi (by rw [opened])
    rw [opened] at tracked files
    exact ⟨tracked, fun quiet => files ▸ settled.settled quiet⟩
  · rename_i pi opened
    rw [opened] at tracked
    dsimp only
    split
    · split
      · trivial
      · exact settled_waiting tracked rfl
    · unfold BinkpState.sendFile
      dsimp only
      split
      · trivial
      · exact settled_waiting tracked rfl

theorem settled_awaitAck (settled : Settled b) (answers : SendAnswers) :
    (b.awaitAck conf answers).2.Keeps Settled (fun _ => True) (b.awaitAck conf answers).1 := by
  unfold BinkpState.awaitAck
  split
  · trivial
  · split
    · exact settled
    · exact settled_sendNextFile (b := { b with phase := 0 }) { settled with } answers

theorem settled_sendData (settled : Settled b) (answers : SendAnswers) :
    (b.sendData conf answers).2.Keeps Settled (fun _ => True) (b.sendData conf answers).1 := by
  unfold BinkpState.sendData
  split
  · trivial
  · rename_i pi read
    obtain ⟨tracked, going⟩ := tracked_pTxReadfile settled.tracked _ _ _ read
    have waiting : b.waitingGot = true := waiting_of_going settled going
    have marked : Tracked (pi.changeSend fun finf => { finf with status := .waitack }) :=
      tracked_changeSend tracked _ fun old _ =>
        ⟨rfl, rfl, by simp [Finfo.closed], by simp [Finfo.closed]⟩
    exact settled_awaitAck (settled_waiting (b := { b with pi := _, phase := _ }) marked waiting)
      answers
  · rename_i pi bytes _ read
    obtain ⟨tracked, going⟩ := tracked_pTxReadfile settled.tracked _ _ _ read
    have waiting : b.waitingGot = true := waiting_of_going settled going
    refine settled_waiting ?_ waiting
    exact tracked_changeSend tracked _ fun old found =>
      ⟨rfl, rfl, tracked.ended old (sending_mem found), id⟩
  · trivial
  · trivial

/-- The phases of a handshake do not concern the sending of files. -/
theorem handshakeForsend_sendingSide :
    (b.handshakeForsend conf).1.sendingSide = b.sendingSide := by
  unfold BinkpState.handshakeForsend BinkpState.sendChallenge BinkpState.sendSysinfo
    BinkpState.sendPassword BinkpState.handshakeEnd
  dsimp only
  repeat' split
  all_goals rfl

/-- Making the next block keeps it, unless that fails. -/
theorem settled_getforsend (settled : Settled b) (answers : SendAnswers) :
    (b.getforsend conf answers).2.Keeps Settled (fun _ => True)
      (b.getforsend conf answers).1 := by
  unfold BinkpState.getforsend
  split
  · dsimp only
    split
    · exact settled_side settled rfl
    · exact settled_side settled rfl
  · split
    · unfold BinkpState.transferForsend
      split
      · exact settled_sendNextFile settled answers
      · unfold BinkpState.sendFile
        split
        · trivial
        · exact settled_side settled rfl
      · exact settled_sendData settled answers
      · exact settled_awaitAck settled answers
      · exact settled_side settled rfl
      · exact settled
      · exact settled_side settled rfl
    · cases made : (b.handshakeForsend conf).2 with
      | error => trivial
      | crashed => trivial
      | nothing => exact settled_side settled handshakeForsend_sendingSide
      | noMore => exact settled_side settled handshakeForsend_sendingSide
      | block block last => exact settled_side settled handshakeForsend_sendingSide

/-! ## The commands for the sending side -/

/-- It holds, or the return code is set. -/
def SettledOrCoded (b : BinkpState) : Prop := b.rc ≠ .noerror ∨ Settled b

theorem settledOrCoded_side {after : BinkpState} (kept : SettledOrCoded b)
    (code : after.rc = b.rc) (same : after.sendingSide = b.sendingSide) : SettledOrCoded after :=
  kept.imp (fun coded => code ▸ coded) (fun settled => settled_side settled same)

theorem coded_protoError (msg : Bytes) : SettledOrCoded (b.protoError msg).1 := .inl nofun

/-- Announcing a file again keeps it. -/
theorem settled_announceAt (settled : Settled b) (offset : Nat) :
    Settled (b.announceAt offset) := by
  unfold BinkpState.announceAt
  split <;> exact settled_side settled rfl

/-- A file in which the position could be changed is not closed. -/
theorem going_of_rewound (tracked : Tracked b.pi) (offset : Nat)
    (rewound : (pTxRewind offset b.pi).2 = true) : ∃ finf ∈ b.pi.sentfiles, ¬ finf.closed := by
  unfold pTxRewind at rewound
  split at rewound
  · cases rewound
  · rename_i stream opened
    obtain ⟨finf, current, there⟩ := Option.bind_eq_some_iff.mp opened
    refine ⟨finf, sending_mem current, fun closed => ?_⟩
    simp [tracked.ended finf (sending_mem current) closed] at there

theorem settled_rewindTo (settled : Settled b) (answers : ReceiveAnswers) (offset : Nat)
    (msg : Bytes) : SettledOrCoded (b.rewindTo answers offset msg).1 := by
  unfold BinkpState.rewindTo
  split
  · exact coded_protoError msg
  · rename_i pi rewound
    have going := going_of_rewound settled.tracked offset (by rw [rewound])
    have waiting : b.waitingGot = true := waiting_of_going settled going
    have tracked := tracked_pTxRewind settled.tracked offset
    rw [rewound] at tracked
    refine .inr (settled_announceAt (settled_waiting ?_ ?_) offset)
    · exact tracked_changeSend tracked _ fun old found =>
        ⟨rfl, rfl, tracked.ended old (sending_mem found), id⟩
    · exact waiting

theorem settled_reopenAt (settled : Settled b) (answers : ReceiveAnswers) (getfi : Bpfinfo) :
    SettledOrCoded (b.reopenAt conf answers getfi).1 := by
  have reopened := tracked_pTxReopen settled.tracked conf.files.holdall
    ⟨getfi.fn, getfi.sz, getfi.tm⟩
  unfold BinkpState.reopenAt
  split
  · exact coded_protoError _
  · rename_i pi found
    rw [found] at reopened
    have rewound := tracked_pTxRewind reopened getfi.offs
    split
    · exact coded_protoError _
    · rename_i there sought
      rw [sought] at rewound
      refine .inr (settled_announceAt (settled_waiting ?_ rfl) _)
      exact tracked_changeSend rewound _ fun old current =>
        ⟨rfl, rfl, rewound.ended old (sending_mem current), id⟩

/-- M_GET keeps it. -/
theorem settled_receiveGET (settled : Settled b) (answers : ReceiveAnswers) (arg : Pointer) :
    SettledOrCoded (b.receiveGET conf answers arg).1 := by
  unfold BinkpState.receiveGET
  dsimp only
  split
  · exact coded_protoError _
  · have touched : Settled (b.touch (binkpParsfinfo arg true answers.high).2) :=
      settled_side settled rfl
    split
    · exact coded_protoError _
    · split
      · exact .inr touched
      · split
        · exact settled_reopenAt touched answers _
        · split
          · exact .inr (settled_announceAt touched _)
          · split
            · exact .inr (settled_side touched rfl)
            · split
              · exact settled_rewindTo touched answers _ _
              · exact settled_reopenAt touched answers _

/-- What M_GOT and M_SKIP look at in the list does not change by closing files. -/
theorem stranded_congr (skip : Bool) (fi : FileHint) (left right : List Finfo)
    (same : left.map (fun finf => (finf.hint, finf.status, finf.netspool)) =
      right.map (fun finf => (finf.hint, finf.status, finf.netspool))) :
    stranded skip fi left = stranded skip fi right := by
  have through : ∀ list : List Finfo, stranded skip fi list =
      let seen := list.map (fun finf => (finf.hint, finf.status, finf.netspool))
      match seen.findIdx? (fun entry => decide (entry.1 = fi)) with
      | none => false
      | some index =>
        let others := seen.eraseIdx index
        seen[index]?.any (fun entry => !entry.2.2 || (!skip && decide (entry.2.1 = .waitack))) &&
          !others.any (fun entry => decide (entry.2.1 = .waitack)) &&
          others.any (fun entry => decide (entry.2.1 = .process)) := by
    intro list
    unfold stranded
    simp only [List.findIdx?_map, List.eraseIdx_map, List.any_map, List.getElem?_map,
      Option.any_map, Function.comp_def]
    rfl
  rw [through left, through right, same]

/-- Closing a file on a command that strands none keeps it. -/
theorem settled_closeNamed (settled : Settled b) (told : Bool) (index : Nat) (finf : Finfo)
    (status : Fstat) (there : b.pi.sentfiles[index]? = some finf)
    (final : status ≠ .process ∧ status ≠ .waitack)
    (spool : finf.netspool = true → status = .success)
    (alone : ((b.pi.sentfiles.eraseIdx index).any (·.status = .waitack)) = false →
      (b.pi.sentfiles.eraseIdx index).any (·.status = .process) = false) :
    Settled (b.closeNamed told index status) := by
  have tracked := tracked_close settled.tracked told index finf status there spool b.pi.send
  have files : (pTxFclose told ({ b.pi with send := some index }.changeSend
      fun finf => { finf with status })).sentfiles =
        b.pi.sentfiles.modify index fun finf => { finf with status, fp := none } := by
    rw [pTxFclose_status b.pi told index finf status there]
  have new_closed : ∀ old : Finfo, ({ old with status, fp := none } : Finfo).closed := by
    intro old
    unfold Finfo.closed
    cases status <;> simp_all
  unfold BinkpState.closeNamed BinkpState.checkConfirmed
  dsimp only
  split
  · refine ⟨tracked, fun quiet other member => ?_⟩
    rcases mem_modify (files ▸ member) with same | ⟨old, _, rfl⟩
    · exact settled.settled quiet other same
    · exact new_closed old
  · rename_i confirmed
    refine ⟨tracked, fun _ other member => ?_⟩
    rw [files] at confirmed
    obtain ⟨position, found⟩ := List.mem_iff_getElem?.mp (files ▸ member)
    rw [List.getElem?_modify] at found
    obtain ⟨old, before, changed⟩ := Option.map_eq_some_iff.mp found
    by_cases same : index = position
    · simp only [same, if_true] at changed
      exact changed ▸ new_closed old
    · simp only [same, if_false] at changed
      subst changed
      have apart : old ∈ b.pi.sentfiles.eraseIdx index :=
        List.mem_eraseIdx_iff_getElem?.mpr ⟨position, Ne.symm same, before⟩
      have unacknowledged : ∀ other : Finfo,
          other ∈ b.pi.sentfiles.eraseIdx index → other.status ≠ .waitack := by
        intro other elsewhere waiting
        obtain ⟨place, distinct, there⟩ := List.mem_eraseIdx_iff_getElem?.mp elsewhere
        refine confirmed (List.any_eq_true.mpr ⟨other, ?_, by simpa using waiting⟩)
        refine List.mem_of_getElem? (i := place) ?_
        simp [there, Ne.symm distinct]
      have none_going := alone (by simpa using unacknowledged)
      have not_going : old.status ≠ .process := by
        simp only [List.any_eq_false, decide_eq_true_eq] at none_going
        exact none_going old apart
      have not_waiting := unacknowledged old apart
      unfold Finfo.closed
      cases state : old.status <;> simp_all

/-- So does M_GOT or M_SKIP for a file of the list. -/
theorem settled_gotSkipNamed (settled : Settled b) (answers : ReceiveAnswers) (skip : Bool)
    (fi : FileHint) (told : stranded skip fi b.pi.sentfiles = false) :
    SettledOrCoded (b.gotSkipNamed answers skip fi).1 := by
  unfold BinkpState.gotSkipNamed
  cases found : b.pi.sentfiles.findIdx? (pCompfinfo · fi) with
  | none => exact coded_protoError _
  | some index =>
    obtain ⟨inside, _⟩ := List.findIdx?_eq_some_iff_getElem.mp found
    have there : b.pi.sentfiles[index]? = some b.pi.sentfiles[index] :=
      List.getElem?_eq_getElem inside
    generalize b.pi.sentfiles[index] = finf at there
    unfold stranded at told
    simp only [found, there, Option.any_some] at told
    have alone : gotSkipTaken skip finf = true →
        (b.pi.sentfiles.eraseIdx index).any (·.status = .waitack) = false →
        (b.pi.sentfiles.eraseIdx index).any (·.status = .process) = false := by
      intro taken none_waits
      simpa [taken, none_waits] using told
    have acknowledged : ∀ gots, Settled { b with gots } := fun _ =>
      { tracked := settled.tracked, settled := settled.settled }
    simp only [there, Option.any_some, decide_eq_true_eq]
    split
    · rename_i skipped
      split
      · exact coded_protoError _
      · rename_i plain
        refine .inr (settled_closeNamed settled answers.told index finf .refused there (by simp)
          (fun network => absurd network plain) (alone ?_))
        simp [gotSkipTaken, plain]
    · rename_i got
      split
      · rename_i waiting
        refine .inr (settled_closeNamed (acknowledged _) answers.told index finf .success there
          (by simp) (fun _ => rfl) (alone ?_))
        simp [gotSkipTaken, waiting, got]
      · split
        · exact coded_protoError _
        · rename_i plain
          refine .inr (settled_closeNamed (acknowledged _) answers.told index finf .skipped there
            (by simp) (fun network => absurd network plain) (alone ?_))
          simp [gotSkipTaken, plain]

/-- What closing the current file leaves to be seen in the list. -/
theorem pTxFclose_seen (told : Bool) (pi : Protinfo) :
    (pTxFclose told pi).sentfiles.map (fun finf => (finf.hint, finf.status, finf.netspool)) =
      pi.sentfiles.map (fun finf => (finf.hint, finf.status, finf.netspool)) := by
  unfold pTxFclose
  split
  · refine List.ext_getElem? fun position => ?_
    simp only [List.getElem?_map, List.getElem?_modify]
    cases pi.sentfiles[position]? with
    | none => rfl
    | some finf =>
      simp only [Option.map_eq_map, Option.map_some, Option.some.injEq]
      split <;> rfl
  · rfl

/-- Closing the current file leaves closed files closed. -/
theorem pTxFclose_closed (told : Bool) (pi : Protinfo)
    (closed : ∀ finf ∈ pi.sentfiles, finf.closed) :
    ∀ finf ∈ (pTxFclose told pi).sentfiles, finf.closed := by
  intro finf member
  have seen := List.mem_map_of_mem
    (f := fun finf : Finfo => (finf.hint, finf.status, finf.netspool)) member
  rw [pTxFclose_seen told pi] at seen
  obtain ⟨old, before, same⟩ := List.mem_map.mp seen
  simp only [Prod.mk.injEq] at same
  simpa only [Finfo.closed, same.2.1] using closed old before

/-- M_GOT and M_SKIP keep it where they strand no file. -/
theorem settled_receiveGotSkip (settled : Settled b) (answers : ReceiveAnswers) (skip : Bool)
    (arg : Pointer) (told : strands b skip arg answers.high = false) :
    (b.receiveGotSkip answers skip arg).2.Keeps SettledOrCoded (fun _ => True)
      (b.receiveGotSkip answers skip arg).1 := by
  have result : ∀ after : BinkpState × ReceiveResult, SettledOrCoded after.1 →
      after.2.Keeps SettledOrCoded (fun _ => True) after.1 := by
    intro after kept
    cases after.2 <;> first | exact kept | trivial
  unfold strands at told
  unfold BinkpState.receiveGotSkip
  dsimp only
  split
  · exact coded_protoError _
  · split
    · exact coded_protoError _
    · rename_i fi parsed
      simp only [parsed] at told
      have touched : Settled (b.touch (binkpParsfinfo arg false answers.high).2) :=
        settled_side settled rfl
      split
      · trivial
      · rename_i current sending
        split
        · rename_i same
          split
          · exact coded_protoError _
          · rename_i plain
            have aborts : abortRefused b fi = false := by
              simp [abortRefused, show b.pi.sending = some current from sending, plain]
            refine result _ (settled_gotSkipNamed ?_ answers skip _ ?_)
            · exact ⟨tracked_pTxFclose settled.tracked answers.told, fun quiet =>
                pTxFclose_closed answers.told b.pi (settled.settled quiet)⟩
            · simp only [aborts, Bool.not_false, Bool.true_and] at told
              exact (stranded_congr skip _ _ _ (pTxFclose_seen answers.told b.pi)).trans told
        · rename_i distinct
          refine result _ (settled_gotSkipNamed touched answers skip _ ?_)
          have aborts : abortRefused b fi = false := by
            simp only [abortRefused, show b.pi.sending = some current from sending,
              Option.any_some, Bool.and_eq_false_iff, decide_eq_false_iff_not]
            exact .inl (by grind)
          simp only [aborts, Bool.not_false, Bool.true_and] at told
          exact told

/-- A block that is handed over keeps it where it strands no file. -/
theorem settled_hand (l : BinkpLoop) (input : LoopInput) (kept : SettledOrCoded l.state)
    (told : strandsFile l input = false) :
    (l.hand conf input).2.Keeps SettledOrCoded (fun _ => True) (l.hand conf input).1 := by
  have result : ∀ after : BinkpState × ReceiveResult, SettledOrCoded after.1 →
      after.2.Keeps SettledOrCoded (fun _ => True) after.1 := by
    intro after kept
    cases after.2 <;> first | exact kept | trivial
  rcases kept with coded | settled
  · exact result (l.hand conf input) (.inl ((BinkpLoop.hand_follows conf input l).coded coded))
  · refine BinkpLoop.hand_cases conf input l
      (fun after => after.2.Keeps SettledOrCoded (fun _ => True) after.1) ?_ ?_ ?_
    · intro _
      generalize (⟨l.readPos - binkpHeader, 0, l.readbuf.drop binkpHeader⟩ : Pointer) = buf
      generalize l.handedLength = length
      have same := BinkpState.receiveData_sendingSide input.receiving l.state buf length
      exact result _ (.inr (settled_side settled same))
    · intro accesses msg _
      exact coded_protoError msg
    · intro message arg found
      have touched : Settled (l.state.touch [.read 1 (l.readPos - binkpHeader)]) :=
        settled_side settled rfl
      unfold strandsFile at told
      rw [found] at told
      by_cases other : message ≠ .got ∧ message ≠ .skip ∧ message ≠ .get
      · exact result _ (.inr (settled_side touched
          (BinkpState.receiveCommand_sendingSide conf input.receiving _ arg message _ other)))
      · cases message with
        | got => exact settled_receiveGotSkip touched input.receiving false arg told
        | skip => exact settled_receiveGotSkip touched input.receiving true arg told
        | get => exact result _ (settled_receiveGET touched input.receiving arg)
        | _ => exact absurd ⟨nofun, nofun, nofun⟩ other

/-- Turns that strand no file keep it. -/
theorem settled_preserved (conf : BinkpConf) :
    BinkpLoop.Preserved conf (fun l input => strandsFile l input = false) SettledOrCoded
      (fun _ => True) where
  weaken _ _ := trivial
  keys _ _ _ kept := settledOrCoded_side kept rfl rfl
  resume _ kept := settledOrCoded_side kept rfl rfl
  idle _ kept := settledOrCoded_side kept rfl rfl
  fetch b answers kept := by
    rcases kept with coded | settled
    · have still := (BinkpState.getforsend_follows conf b answers).coded coded
      cases (b.getforsend conf answers).2 <;> first | exact .inl still | trivial
    · have made := @settled_getforsend conf b settled answers
      cases given : (b.getforsend conf answers).2 <;> rw [given] at made <;>
        first | exact .inr made | trivial
  restart _ kept _ := settledOrCoded_side kept rfl rfl
  finish _ kept _ _ := settledOrCoded_side kept rfl rfl
  hand l input _ _ told kept := settled_hand l input kept told
  abort _ kept _ := settledOrCoded_side kept rfl rfl

end Settled

/-- In every run of a transfer in which no M_GOT or M_SKIP strands a file, a zero
return means that every file sent was closed. -/
theorem transfer_none_left (conf : BinkpConf) (localData remoteData : BinkpSysinfo)
    (lists : FileLists) (addressEstablished isProtected : Bool) (remoteaddrs : List Sysaddr)
    (inputs : List LoopInput)
    (told : Along (NothingStranded conf) (BinkpLoop.step conf)
      (binkpTransfer localData remoteData (initProtinfo lists) addressEstablished isProtected
        remoteaddrs) inputs) :
    NoneLeft conf (binkpTransfer localData remoteData (initProtinfo lists) addressEstablished
      isProtected remoteaddrs) inputs := by
  have initial : SettledOrCoded (binkpTransfer localData remoteData (initProtinfo lists)
      addressEstablished isProtected remoteaddrs).state := by
    refine .inr ⟨⟨?_, ?_, ?_⟩, ?_⟩ <;> simp [binkpTransfer, BinkpLoop.start, initProtinfo]
  intro final returned finf member
  obtain ⟨_, _, _, quiet, code⟩ := BinkpLoop.run_noerror conf _ final inputs returned
  have ended := BinkpLoop.run_preserved (settled_preserved conf) _ initial inputs told
  rw [returned] at ended
  have settled : Settled final.state := (ended.2 rfl).1.resolve_left (fun coded => coded code)
  rcases settled.settled quiet finf member with sent | skipped | refused
  · simp [sent]
  · simp [skipped]
  · simp [refused]

/-- Two files to send. -/
def twoFiles : FileLists where
  queue := [⟨ascii "a", 3, 0, 0, .nothing, .willsend, -1⟩,
    ⟨ascii "b", 3, 0, 0, .nothing, .willsend, -1⟩]
  filelist := []
  reqsOnly := false

/-- The start of a transfer that sends them. -/
def sendsTwoFiles : BinkpLoop := binkpTransfer {} {} (initProtinfo twoFiles) true false []

/-- Turns in which the files can be opened and the line brings blocks, then is
quiet. -/
def turnsOf (blocks : List Block) (quiet : Nat) : List LoopInput :=
  lineTurns (.ofContent (ascii "abc")) blocks quiet

/-- Both files are acknowledged once they were sent: the loop returns zero with
both closed. -/
theorem both_acknowledged :
    (run (BinkpLoop.step plainConf) sendsTwoFiles
      (turnsOf [commandBlock .eob []] 4 ++ turnsOf [commandBlock .got (ascii "a 3 0"),
        commandBlock .got (ascii "b 3 0")] 2)).Ends (fun _ => False) (fun final result =>
          result = .returned .noerror ∧
            ∀ finf ∈ final.state.pi.sentfiles, finf.status ≠ .waitack ∧ finf.status ≠ .process) := by
  have none_left := transfer_none_left plainConf {} {} twoFiles true false []
    (turnsOf [commandBlock .eob []] 4 ++ turnsOf [commandBlock .got (ascii "a 3 0"),
      commandBlock .got (ascii "b 3 0")] 2) (by decide)
  have zero : (run (BinkpLoop.step plainConf) sendsTwoFiles
      (turnsOf [commandBlock .eob []] 4 ++ turnsOf [commandBlock .got (ascii "a 3 0"),
        commandBlock .got (ascii "b 3 0")] 2)).Ends (fun _ => False)
          (fun _ result => result = .returned .noerror) := by decide
  cases ended : run (BinkpLoop.step plainConf) sendsTwoFiles
      (turnsOf [commandBlock .eob []] 4 ++ turnsOf [commandBlock .got (ascii "a 3 0"),
        commandBlock .got (ascii "b 3 0")] 2) with
  | more final =>
    rw [ended] at zero
    exact zero.elim
  | halt final result =>
    rw [ended] at zero
    obtain rfl : result = .returned .noerror := zero
    exact ⟨rfl, none_left final ended⟩

/-- The first file is acknowledged while the second is being sent: the loop
returns zero although the second still waits for acknowledgement. -/
theorem second_file_left :
    ¬ NoneLeft plainConf sendsTwoFiles
      (turnsOf [commandBlock .eob [], commandBlock .got (ascii "a 3 0")] 6) := by
  have left : (run (BinkpLoop.step plainConf) sendsTwoFiles
      (turnsOf [commandBlock .eob [], commandBlock .got (ascii "a 3 0")] 6)).Ends
        (fun _ => False) (fun final result => result = .returned .noerror ∧
          ∃ finf ∈ final.state.pi.sentfiles, finf.status = .waitack) := by decide
  intro none_left
  cases ended : run (BinkpLoop.step plainConf) sendsTwoFiles
      (turnsOf [commandBlock .eob [], commandBlock .got (ascii "a 3 0")] 6) with
  | more final =>
    rw [ended] at left
    exact left
  | halt final result =>
    rw [ended] at left
    obtain ⟨rfl, finf, member, waiting⟩ := left
    exact (none_left final ended finf member).1 waiting

end Binkleyforce
