import Binkleyforce.Binkp.Pending
import Binkleyforce.Transfer.SpoolFiles

/-!
# Spool files in a BinkP session

A session sends the files of the network spool one after another, and tells the server of each
once the remote has acknowledged it. A refused M_GOT or M_SKIP leaves the file it names as the
current one, and the session goes on while it waits for acknowledgements: where that is an earlier
spool file, the next file is read in its place.
-/

namespace Binkleyforce

open Library

/-- An M_GOT or M_SKIP that is refused names a spool file before the last one announced. -/
def namesEarlier (skip : Bool) (fi : FileHint) (sentfiles : List Finfo) : Bool :=
  match sentfiles.findIdx? (pCompfinfo · fi) with
  | none => false
  | some index =>
    sentfiles[index]?.any (fun finf => !gotSkipTaken skip finf) && (sentfiles.drop (index + 1)).any (·.netspool)

/-- An M_GOT or M_SKIP that turns the session back to an earlier spool file. -/
def turnsBack (b : BinkpState) (skip : Bool) (arg : Pointer) (high : BpfinfoHigh) : Bool :=
  match (binkpParsfinfo arg false high).1 with
  | none => false
  | some fi => !abortRefused b fi && namesEarlier skip ⟨fi.fn, fi.sz, fi.tm⟩ b.pi.sentfiles

/-- The block handed over is such a command. -/
def turnsBackFile (l : BinkpLoop) (input : LoopInput) : Bool :=
  match l.command with
  | some (.got, arg) => turnsBack l.state false arg input.receiving.high
  | some (.skip, arg) => turnsBack l.state true arg input.receiving.high
  | _ => false

/-- No block that is handed over turns back to an earlier spool file. -/
def NothingTurnedBack (conf : BinkpConf) : BinkpLoop → LoopInput → Prop :=
  BinkpLoop.Handing conf fun l input => turnsBackFile l input = false

instance (conf : BinkpConf) (l : BinkpLoop) (input : LoopInput) :
    Decidable (NothingTurnedBack conf l input) := by
  unfold NothingTurnedBack
  infer_instance

/-- The answers to file requests are not to be acknowledged to the server. -/
def OrdinaryAnswers (answers : ReceiveAnswers) : Prop :=
  ∀ entries, answers.rxClose.requests = some entries → ∀ entry ∈ entries, entry.action ≠ .acknowledge

/-- What holds of the files sent and the spool throughout a transfer. -/
def Spooled (conf : BinkpConf) (b : BinkpState) : Prop := SpoolFiles conf.files b.gots b.pi

/-- What holds where the loop ends as well. -/
def ServerTold (b : BinkpState) : Prop := SpoolTold b.gots b.pi

section Spooled

variable {conf : BinkpConf} {b : BinkpState}

/-- It depends on the sending side and the lists only. -/
theorem spooled_side {after : BinkpState} (spooled : Spooled conf b) (same : after.sendingSide = b.sendingSide)
    (ordinary : after.pi.lists.Ordinary) : Spooled conf after := by
  simp only [BinkpState.sendingSide, Prod.mk.injEq] at same
  obtain ⟨part, gots, -⟩ := same
  have kept := SpoolFiles.same spooled part ordinary
  unfold Spooled
  rw [gots]
  exact kept

/-- A result that keeps it keeps what is left of it at an end. -/
theorem spooled_sends {after : BinkpState} (result : SendResult) (spooled : Spooled conf after) :
    result.Keeps (Spooled conf) ServerTold after := by
  cases result <;> first | exact spooled | exact spooled.told

/-- The same for a received block. -/
theorem spooled_receives {after : BinkpState} (result : ReceiveResult) (spooled : Spooled conf after) :
    result.Keeps (Spooled conf) ServerTold after := by
  cases result <;> first | exact spooled | exact spooled.told

/-! ## The phases of the sending side -/

theorem spooled_sendNextFile (spooled : Spooled conf b) (answers : SendAnswers) :
    Spooled conf (b.sendNextFile conf answers).1 := by
  have opened := SpoolFiles.open_next spooled { conf.files with noRemoteaddr := b.remoteaddrs.isEmpty }
    ⟨rfl, rfl⟩ answers.opening
  unfold BinkpState.sendNextFile
  split
  · rename_i pi found
    rw [found] at opened
    exact opened
  · rename_i pi found
    rw [found] at opened
    dsimp only
    split
    · split <;> exact opened
    · unfold BinkpState.sendFile
      split <;> exact opened

theorem spooled_awaitAck (spooled : Spooled conf b) (answers : SendAnswers) :
    Spooled conf (b.awaitAck conf answers).1 := by
  unfold BinkpState.awaitAck
  split
  · exact spooled
  · split
    · exact spooled
    · exact spooled_sendNextFile (b := { b with phase := 0 }) spooled answers

theorem spooled_sendData (spooled : Spooled conf b) (answers : SendAnswers) :
    (b.sendData conf answers).2.Keeps (Spooled conf) ServerTold (b.sendData conf answers).1 := by
  unfold BinkpState.sendData
  split
  · exact spooled.told
  · rename_i pi read
    have keeps : SpoolFiles conf.files b.gots (pi.changeSend fun finf => { finf with status := .waitack }) :=
      SpoolFiles.read_file spooled answers.reading (by decide) read
    have waits : Spooled conf { b with
        pi := pi.changeSend fun finf => { finf with status := .waitack }
        phase := b.phase + 1 } := keeps
    exact spooled_sends _ (spooled_awaitAck waits answers)
  · rename_i pi bytes more read
    have keeps := SpoolFiles.read_file spooled answers.reading (by decide) read
    cases bytes with
    | nil => exact absurd rfl more
    | cons first rest => exact keeps
  · rename_i pi read
    exact SpoolFiles.read_file spooled answers.reading (by decide) read
  · rename_i pi read
    exact SpoolFiles.read_file spooled answers.reading (by decide) read

/-- Making the next block keeps it, unless that fails. -/
theorem spooled_getforsend (spooled : Spooled conf b) (answers : SendAnswers) :
    (b.getforsend conf answers).2.Keeps (Spooled conf) ServerTold (b.getforsend conf answers).1 := by
  unfold BinkpState.getforsend
  split
  · dsimp only
    split <;> exact spooled
  · split
    · unfold BinkpState.transferForsend
      split
      · exact spooled_sends _ (spooled_sendNextFile spooled answers)
      · unfold BinkpState.sendFile
        split
        · exact spooled.told
        · exact spooled
      · exact spooled_sendData spooled answers
      · exact spooled_sends _ (spooled_awaitAck spooled answers)
      · exact spooled
      · exact spooled
      · exact spooled
    · have lists : (b.handshakeForsend conf).1.pi.lists = b.pi.lists := by
        unfold BinkpState.handshakeForsend BinkpState.sendChallenge BinkpState.sendSysinfo
          BinkpState.sendPassword BinkpState.handshakeEnd
        dsimp only
        repeat' split
        all_goals rfl
      exact spooled_sends _ (spooled_side spooled handshakeForsend_sendingSide (lists ▸ spooled.ordinary))


/-! ## The lists of files to send -/

theorem replyRecv_lists (message : Bpmsg) (offset : Bytes) :
    (b.replyRecv message offset).pi.lists = b.pi.lists := by
  unfold BinkpState.replyRecv
  split <;> rfl

theorem startFile_lists (answers : ReceiveAnswers) (recvfi : Bpfinfo) :
    (b.startFile conf answers recvfi).1.pi.lists = b.pi.lists := by
  have opened : (pRxFopen conf.files answers.rxOpen ⟨recvfi.fn, recvfi.sz, recvfi.tm⟩ b.pi).1.lists =
      b.pi.lists := by
    unfold pRxFopen
    split <;> rfl
  unfold BinkpState.startFile
  dsimp only
  split
  · exact opened
  · split
    · split
      · exact opened
      · exact (replyRecv_lists _ _).trans opened
    · exact (replyRecv_lists _ _).trans opened
    · exact (replyRecv_lists _ _).trans opened

/-- No command adds to the lists. -/
theorem receiveCommand_lists (answers : ReceiveAnswers) (arg : Pointer) (message : Bpmsg) (blockLength : Nat)
    (other : message ≠ .got ∧ message ≠ .skip ∧ message ≠ .get) :
    (b.receiveCommand conf answers message arg blockLength).1.pi.lists = b.pi.lists := by
  cases message with
  | nul => rfl
  | adr =>
    show (b.receiveADR conf arg).1.pi.lists = _
    unfold BinkpState.receiveADR BinkpState.refuse BinkpState.checkCalled
    dsimp only
    repeat' split
    all_goals rfl
  | pwd =>
    show (b.receivePWD conf answers arg blockLength).1.pi.lists = _
    unfold BinkpState.receivePWD BinkpState.refuse
    dsimp only
    repeat' split
    all_goals rfl
  | file =>
    show (b.receiveFILE conf answers arg).1.pi.lists = _
    unfold BinkpState.receiveFILE
    dsimp only
    split
    · rfl
    · split
      · rfl
      · split
        · rfl
        · unfold BinkpState.resumeFile
          repeat' split
          all_goals rfl
        all_goals
          split
          · rfl
          · exact startFile_lists answers _
  | ok =>
    show (b.receiveOK answers).1.pi.lists = _
    unfold BinkpState.receiveOK BinkpState.refuse
    dsimp only
    repeat' split
    all_goals rfl
  | eob =>
    show b.receiveEOB.1.pi.lists = _
    unfold BinkpState.receiveEOB
    split <;> rfl
  | got => exact absurd rfl other.1
  | err => rfl
  | bsy => rfl
  | get => exact absurd rfl other.2.2
  | skip => exact absurd rfl other.2.1

/-- Closing a received file may add the answers to the requests in it. -/
theorem ordinary_pRxFclose {answers : ReceiveAnswers} {pi after : Protinfo} {result : Bool}
    (added : OrdinaryAnswers answers) (ordinary : pi.lists.Ordinary)
    (closed : pRxFclose answers.rxClose pi = some (after, result)) : after.lists.Ordinary := by
  have same : ∀ (pi : Protinfo) (change : Finfo → Finfo), (pi.changeRecv change).lists = pi.lists := by
    intro pi change
    unfold Protinfo.changeRecv
    split <;> rfl
  have committed : ∀ (content : Bytes) (finf : Finfo) (pi : Protinfo), pi.lists.Ordinary →
      (rxCommit answers.rxClose content finf pi).1.lists.Ordinary := by
    intro content finf pi before
    unfold rxCommit
    split
    · exact before
    · split
      · rw [same]
        exact before
      · dsimp only
        split
        · rename_i entries some_
          have requests : answers.rxClose.requests = some entries := by
            split at some_
            · exact some_
            · cases some_
          intro entry member
          rcases List.mem_append.mp member with queued | listed
          · exact before entry (List.mem_append_left _ queued)
          · rcases List.mem_append.mp listed with old | new
            · exact before entry (List.mem_append_right _ old)
            · exact added entries requests entry new
        · split
          · exact before
          · rw [same]
            exact before
  unfold pRxFclose at closed
  cases current : pi.receiving with
  | none =>
    rw [current] at closed
    cases closed
  | some finf =>
    rw [current] at closed
    dsimp only at closed
    split at closed
    · cases closed
      rw [same]
      exact ordinary
    · have after_eq := congrArg Prod.fst (Option.some.inj closed)
      subst after_eq
      apply committed
      dsimp only
      rw [same]
      exact ordinary


/-! ## The commands for the sending side -/

/-- The files and the spool of a transfer are those of the session. -/
theorem spooled_pi {pi : Protinfo} (kept : SpoolFiles conf.files b.gots pi) : Spooled conf { b with pi } := kept

/-- What the loop looks at after an acknowledgement is of no concern. -/
theorem spooled_checkConfirmed (spooled : Spooled conf b) : Spooled conf b.checkConfirmed := by
  unfold BinkpState.checkConfirmed
  split <;> exact spooled

/-- The turning back that is excluded does not depend on what closing a file changes. -/
theorem namesEarlier_congr (skip : Bool) (fi : FileHint) (left right : List Finfo)
    (same : left.map (fun finf => (finf.hint, finf.status, finf.netspool)) =
      right.map (fun finf => (finf.hint, finf.status, finf.netspool))) :
    namesEarlier skip fi left = namesEarlier skip fi right := by
  have through : ∀ list : List Finfo, namesEarlier skip fi list =
      let seen := list.map (fun finf => (finf.hint, finf.status, finf.netspool))
      match seen.findIdx? (fun entry => decide (entry.1 = fi)) with
      | none => false
      | some index =>
        seen[index]?.any (fun entry => !(!entry.2.2 || (!skip && decide (entry.2.1 = .waitack)))) &&
          (seen.drop (index + 1)).any (fun entry => entry.2.2) := by
    intro list
    unfold namesEarlier
    simp only [List.findIdx?_map, ← List.map_drop, List.any_map, List.getElem?_map, Option.any_map,
      Function.comp_def]
    rfl
  rw [through left, through right, same]

/-- A refusal leaves the file it names as the current one, behind which there is no other spool file. -/
theorem spooled_refused (spooled : Spooled conf b) {skip : Bool} {fi : FileHint} {index : Nat} {finf : Finfo}
    (found : b.pi.sentfiles.findIdx? (pCompfinfo · fi) = some index)
    (there : b.pi.sentfiles[index]? = some finf) (taken : gotSkipTaken skip finf = false)
    (forward : namesEarlier skip fi b.pi.sentfiles = false) :
    Spooled conf { b with pi.send := some index } := by
  have later : (b.pi.sentfiles.drop (index + 1)).any (·.netspool) = false := by
    unfold namesEarlier at forward
    simpa [found, there, taken] using forward
  apply SpoolFiles.aside spooled 0 id
  · intro old here
    refine ⟨rfl, rfl, rfl, fun network => ⟨?_, rfl, id⟩⟩
    exact (SpoolFiles.spools spooled old (List.mem_of_getElem? here) network).1
  · exact (List.modify_id 0 b.pi.sentfiles).symm
  · rfl
  · rfl
  · exact spooled.ordinary
  · rintro place ⟨⟩ _ beyond further ⟨other, found, network⟩
    have member : other ∈ b.pi.sentfiles.drop (index + 1) := by
      apply List.mem_of_getElem? (i := beyond - (index + 1))
      rw [List.getElem?_drop, ← found]
      congr 1
      omega
    rw [List.any_eq_true.mpr ⟨other, member, network⟩] at later
    cases later

/-- M_GOT and M_SKIP for a file of the list keep it. -/
theorem spooled_gotSkipNamed (spooled : Spooled conf b) (answers : ReceiveAnswers) (skip : Bool)
    (fi : FileHint) (forward : namesEarlier skip fi b.pi.sentfiles = false) :
    Spooled conf (b.gotSkipNamed answers skip fi).1 := by
  unfold BinkpState.gotSkipNamed
  cases found : b.pi.sentfiles.findIdx? (pCompfinfo · fi) with
  | none => exact spooled_side spooled rfl spooled.ordinary
  | some index =>
    obtain ⟨inside, same, -⟩ := List.findIdx?_eq_some_iff_getElem.mp found
    have there : b.pi.sentfiles[index]? = some b.pi.sentfiles[index] := List.getElem?_eq_getElem inside
    generalize b.pi.sentfiles[index] = finf at there same
    have hint : finf.hint = fi := of_decide_eq_true same
    have refused : gotSkipTaken skip finf = false → Spooled conf { b with pi.send := some index } := by
      intro taken
      exact spooled_refused spooled found there taken forward
    have closed : ∀ gots status, finf.netspool = false → SpoolFiles conf.files gots b.pi →
        Spooled conf ({ b with gots }.closeNamed answers.told index status) := by
      intro gots status plain kept
      exact spooled_checkConfirmed (b := { b with gots, pi := _ })
        (kept.close_other answers.told status there plain)
    simp only [there, Option.any_some, decide_eq_true_eq]
    split
    · rename_i skipped
      split
      · rename_i network
        refine spooled_side (refused ?_) rfl spooled.ordinary
        simp [gotSkipTaken, network, skipped]
      · rename_i plain
        exact closed b.gots .refused (by simpa using plain) spooled
    · rename_i got
      have more : SpoolFiles conf.files (b.gots ++ [fi]) b.pi := SpoolFiles.gots_more spooled [fi]
      split
      · rename_i waits
        cases network : finf.netspool with
        | false => exact closed (b.gots ++ [fi]) .success network more
        | true =>
          have told := SpoolFiles.acknowledge spooled answers.told there network waits
          rw [hint] at told
          exact spooled_checkConfirmed (b := { b with gots := _, pi := _ }) told
      · rename_i unsent
        split
        · rename_i network
          refine spooled_side (refused ?_) rfl spooled.ordinary
          simp [gotSkipTaken, network, unsent]
        · rename_i plain
          exact closed (b.gots ++ [fi]) .skipped (by simpa using plain) more

/-- M_GOT and M_SKIP keep it where they do not turn back. -/
theorem spooled_receiveGotSkip (spooled : Spooled conf b) (answers : ReceiveAnswers) (skip : Bool)
    (arg : Pointer) (forward : turnsBack b skip arg answers.high = false) :
    Spooled conf (b.receiveGotSkip answers skip arg).1 := by
  unfold turnsBack at forward
  unfold BinkpState.receiveGotSkip
  dsimp only
  split
  · exact spooled_side spooled rfl spooled.ordinary
  · split
    · exact spooled_side spooled rfl spooled.ordinary
    · rename_i fi parsed
      simp only [parsed] at forward
      have touched : Spooled conf (b.touch (binkpParsfinfo arg false answers.high).2) :=
        spooled_side spooled rfl spooled.ordinary
      split
      · exact touched
      · rename_i current sending
        have sending : b.pi.sending = some current := sending
        split
        · split
          · exact spooled_side touched rfl touched.ordinary
          · rename_i plain
            have aborts : abortRefused b fi = false := by
              simp [abortRefused, sending, plain]
            simp only [aborts, Bool.not_false, Bool.true_and] at forward
            have closed : SpoolFiles conf.files b.gots (pTxFclose answers.told b.pi) := by
              refine SpoolFiles.close_local spooled answers.told fun finf current => ?_
              obtain rfl := Option.some.inj (sending.symm.trans current)
              simpa using plain
            apply spooled_gotSkipNamed
            · exact closed
            · exact (namesEarlier_congr skip _ _ _ (pTxFclose_seen answers.told b.pi)).trans forward
        · rename_i distinct
          have aborts : abortRefused b fi = false := by
            simp only [abortRefused, sending, Option.any_some, Bool.and_eq_false_iff, decide_eq_false_iff_not]
            exact .inl (by grind)
          simp only [aborts, Bool.not_false, Bool.true_and] at forward
          exact spooled_gotSkipNamed touched answers skip _ forward

/-- Announcing a file again keeps it. -/
theorem spooled_announceAt (spooled : Spooled conf b) (offset : Nat) : Spooled conf (b.announceAt offset) := by
  unfold BinkpState.announceAt
  split <;> exact spooled

/-- Going to an offset of a local file keeps it. -/
theorem spooled_rewindTo (spooled : Spooled conf b) (answers : ReceiveAnswers) (offset : Nat) (msg : Bytes)
    (plain : ∀ finf, b.pi.sending = some finf → finf.netspool = false) :
    Spooled conf (b.rewindTo answers offset msg).1 := by
  obtain ⟨kept, sought⟩ := SpoolFiles.rewind spooled offset
  unfold BinkpState.rewindTo
  split
  · rename_i pi failed
    have same : (pTxRewind offset b.pi).1 = b.pi := pTxRewind_failed offset (congrArg Prod.snd failed)
    rw [failed] at same kept
    have closed : Spooled conf { b with pi := pTxFclose answers.told pi } := by
      refine spooled_pi (kept.close_local answers.told ?_)
      rw [show pi = b.pi from same]
      exact plain
    exact spooled_side closed rfl closed.ordinary
  · rename_i pi there
    rw [there] at kept sought
    have changed : Spooled conf { b with pi := pi.changeSend fun finf =>
        { finf with bytesSkipped := offset, bytesSent := offset } } :=
      spooled_pi (kept.change_local _ (sought rfl) fun _ _ => ⟨rfl, rfl, rfl⟩)
    exact spooled_announceAt changed offset

/-- Opening a file of the list again keeps it. -/
theorem spooled_reopenAt (spooled : Spooled conf b) (answers : ReceiveAnswers) (getfi : Bpfinfo) :
    Spooled conf (b.reopenAt conf answers getfi).1 := by
  obtain ⟨kept, opened⟩ := SpoolFiles.reopen spooled conf.files.holdall ⟨getfi.fn, getfi.sz, getfi.tm⟩
  unfold BinkpState.reopenAt
  split
  · rename_i pi failed
    rw [failed] at kept
    exact spooled_side (spooled_pi kept) rfl kept.ordinary
  · rename_i pi there
    rw [there] at kept opened
    obtain ⟨moved, sought⟩ := kept.rewind getfi.offs
    split
    · rename_i later failed
      have same : (pTxRewind getfi.offs pi).1 = pi := pTxRewind_failed getfi.offs (congrArg Prod.snd failed)
      rw [failed] at same moved
      have closed : Spooled conf { b with pi := pTxFclose answers.told later } := by
        refine spooled_pi (moved.close_local answers.told ?_)
        rw [show later = pi from same]
        exact opened rfl
      exact spooled_side closed rfl closed.ordinary
    · rename_i later found
      rw [found] at moved sought
      have changed : Spooled conf { b with
          waitingGot := true
          pi := later.changeSend fun finf =>
            { finf with bytesSkipped := getfi.offs, bytesSent := getfi.offs } } :=
        spooled_pi (moved.change_local _ (sought rfl) fun _ _ => ⟨rfl, rfl, rfl⟩)
      exact spooled_announceAt changed getfi.offs

/-- M_GET keeps it. -/
theorem spooled_receiveGET (spooled : Spooled conf b) (answers : ReceiveAnswers) (arg : Pointer) :
    Spooled conf (b.receiveGET conf answers arg).1 := by
  unfold BinkpState.receiveGET
  dsimp only
  split
  · exact spooled_side spooled rfl spooled.ordinary
  · have touched : Spooled conf (b.touch (binkpParsfinfo arg true answers.high).2) :=
      spooled_side spooled rfl spooled.ordinary
    split
    · exact spooled_side spooled rfl spooled.ordinary
    · split
      · exact touched
      · split
        · exact spooled_reopenAt touched answers _
        · rename_i current sending
          have sending : b.pi.sending = some current := sending
          split
          · exact spooled_announceAt touched _
          · split
            · exact spooled_side touched rfl touched.ordinary
            · rename_i plain
              split
              · refine spooled_rewindTo touched answers _ _ fun finf here => ?_
                obtain rfl := Option.some.inj (sending.symm.trans here)
                simpa using plain
              · exact spooled_reopenAt touched answers _

/-! ## Received data -/

theorem ordinary_writeDone {answers : ReceiveAnswers} (added : OrdinaryAnswers answers)
    (ordinary : b.pi.lists.Ordinary) (blockLength : Nat) :
    (b.writeDone answers blockLength).1.pi.lists.Ordinary := by
  have same : ∀ (pi : Protinfo) (change : Finfo → Finfo), (pi.changeRecv change).lists = pi.lists := by
    intro pi change
    unfold Protinfo.changeRecv
    split <;> rfl
  have counted : ∀ change, (b.pi.changeRecv change).lists.Ordinary := fun change => (same _ change).symm ▸ ordinary
  unfold BinkpState.writeDone
  dsimp only
  split
  · exact counted _
  · split
    · split
      · rw [same]
        exact counted _
      · rename_i pi _ closed
        exact ordinary_pRxFclose added ((same _ _).symm ▸ counted _) closed
    · split
      · split
        · rw [same]
          exact counted _
        · rename_i pi closed
          rw [replyRecv_lists]
          exact ordinary_pRxFclose added ((same _ _).symm ▸ counted _) closed
        · rename_i pi closed
          rw [replyRecv_lists]
          exact ordinary_pRxFclose added ((same _ _).symm ▸ counted _) closed
      · exact counted _

theorem ordinary_writeFailed {answers : ReceiveAnswers} (added : OrdinaryAnswers answers)
    (ordinary : b.pi.lists.Ordinary) (result : RxWrite) :
    (b.writeFailed answers result).1.pi.lists.Ordinary := by
  have replied := replyRecv_lists (b := b) (if result = .skip then .got else .skip) []
  unfold BinkpState.writeFailed
  dsimp only
  generalize b.replyRecv _ [] = after at replied
  have before : after.pi.lists.Ordinary := replied.symm ▸ ordinary
  split
  · exact before
  · rename_i closed
    exact ordinary_pRxFclose added before closed

/-- Data that is received adds to the lists what a request in it asks for. -/
theorem ordinary_receiveData {answers : ReceiveAnswers} (added : OrdinaryAnswers answers)
    (ordinary : b.pi.lists.Ordinary) (buf : Pointer) (blockLength : Nat) :
    (b.receiveData answers buf blockLength).1.pi.lists.Ordinary := by
  have written : ∀ {data : Bytes} {pi : Protinfo} {result : RxWrite},
      pRxWritefile answers.rxWrite data b.pi = some (pi, result) → pi.lists.Ordinary := by
    intro data pi result wrote
    unfold pRxWritefile at wrote
    split at wrote
    · cases wrote
    · split at wrote
      · cases wrote
      · cases wrote
        unfold Protinfo.changeRecv
        split <;> exact ordinary
  unfold BinkpState.receiveData
  split
  · exact ordinary
  · split
    · exact ordinary
    · exact ordinary
    · exact ordinary
    · split
      · exact ordinary
      · dsimp only
        split
        · exact ordinary
        · rename_i wrote
          exact ordinary_writeDone added (written wrote) blockLength
        · rename_i wrote
          exact ordinary_writeFailed added (written wrote) _

/-- A block that is handed over keeps it where it does not turn back. -/
theorem spooled_hand (l : BinkpLoop) (input : LoopInput) (spooled : Spooled conf l.state)
    (forward : turnsBackFile l input = false) (added : OrdinaryAnswers input.receiving) :
    Spooled conf (l.hand conf input).1 := by
  apply BinkpLoop.hand_cases conf input l (fun after => Spooled conf after.1)
  · intro _
    have same := BinkpState.receiveData_sendingSide input.receiving l.state
      ⟨l.readPos - binkpHeader, 0, l.readbuf.drop binkpHeader⟩ l.handedLength
    exact spooled_side spooled same (ordinary_receiveData added spooled.ordinary _ _)
  · intro accesses msg _
    exact spooled_side spooled rfl spooled.ordinary
  · intro message arg found
    have touched : Spooled conf (l.state.touch [.read 1 (l.readPos - binkpHeader)]) :=
      spooled_side spooled rfl spooled.ordinary
    unfold turnsBackFile at forward
    rw [found] at forward
    by_cases other : message ≠ .got ∧ message ≠ .skip ∧ message ≠ .get
    · refine spooled_side touched
        (BinkpState.receiveCommand_sendingSide conf input.receiving _ arg message _ other) ?_
      rw [receiveCommand_lists input.receiving arg message _ other]
      exact spooled.ordinary
    · cases message with
      | got => exact spooled_receiveGotSkip touched input.receiving false arg forward
      | skip => exact spooled_receiveGotSkip touched input.receiving true arg forward
      | get => exact spooled_receiveGET touched input.receiving arg
      | _ => exact absurd ⟨nofun, nofun, nofun⟩ other

/-- Turns that do not turn back keep it. -/
theorem spooled_preserved (conf : BinkpConf) :
    BinkpLoop.Preserved conf
      (fun l input => turnsBackFile l input = false ∧ OrdinaryAnswers input.receiving) (Spooled conf) ServerTold where
  weaken _ spooled := spooled.told
  keys _ _ _ spooled := spooled_side spooled rfl spooled.ordinary
  resume _ spooled := spooled_side spooled rfl spooled.ordinary
  idle _ spooled := spooled_side spooled rfl spooled.ordinary
  fetch _ answers spooled := spooled_getforsend spooled answers
  restart _ spooled _ := spooled_side spooled rfl spooled.ordinary
  finish _ spooled _ _ := spooled_side spooled rfl spooled.ordinary
  hand l input _ _ told spooled := spooled_receives _ (spooled_hand l input spooled told.1 told.2)
  abort _ spooled _ := spooled_side spooled rfl spooled.ordinary

end Spooled


/-- The life of the spool files of a run: wherever it stands, the server was told of each file at most
once, after all of its bytes were sent and the remote had acknowledged it, and of every file before
the next one was announced; while nothing is being read the server was told of all of them. Where the
run ends the first of these still hold. -/
def SpoolLifecycle (conf : BinkpConf) (start : BinkpLoop) (inputs : List LoopInput) : Prop :=
  (run (BinkpLoop.step conf) start inputs).Ends
    (fun final => SpoolTold final.state.gots final.state.pi ∧ SpoolStands conf.files final.state.pi)
    (fun final _ => SpoolTold final.state.gots final.state.pi)

/-- In every run of a transfer that is not turned back to an earlier spool file, the files of the
spool have their lives. -/
theorem spool_lifecycle (conf : BinkpConf) (localData remoteData : BinkpSysinfo) (lists : FileLists)
    (addressEstablished isProtected : Bool) (remoteaddrs : List Sysaddr) (inputs : List LoopInput)
    (ordinary : lists.Ordinary) (added : ∀ input ∈ inputs, OrdinaryAnswers input.receiving)
    (forward : Along (NothingTurnedBack conf) (BinkpLoop.step conf)
      (binkpTransfer localData remoteData (initProtinfo lists) addressEstablished isProtected remoteaddrs) inputs) :
    SpoolLifecycle conf (binkpTransfer localData remoteData (initProtinfo lists) addressEstablished isProtected
      remoteaddrs) inputs := by
  have initial : Spooled conf (binkpTransfer localData remoteData (initProtinfo lists) addressEstablished
      isProtected remoteaddrs).state :=
    SpoolFiles.initial ordinary rfl rfl rfl (show NsState.notinit ≠ NsState.recvfile by decide)
  have answered := along_of_mem (fun (_ : BinkpLoop) (input : LoopInput) => OrdinaryAnswers input.receiving)
    (BinkpLoop.step conf) (binkpTransfer localData remoteData (initProtinfo lists) addressEstablished isProtected
      remoteaddrs) inputs fun input member _ => added input member
  have admitted : Along (BinkpLoop.Handing conf fun l input => turnsBackFile l input = false ∧
      OrdinaryAnswers input.receiving) (BinkpLoop.step conf) (binkpTransfer localData remoteData
        (initProtinfo lists) addressEstablished isProtected remoteaddrs) inputs := by
    apply along_mono _ _ _ (along_and _ _ _ _ _ forward answered)
    rintro l input ⟨turns, answers⟩
    unfold NothingTurnedBack BinkpLoop.Handing BinkpLoop.Arriving at turns
    unfold BinkpLoop.Handing BinkpLoop.Arriving
    split
    · trivial
    · rename_i middle arrived
      rw [arrived] at turns
      exact fun inside => ⟨turns inside, answers⟩
  have ended := BinkpLoop.run_preserved (spooled_preserved conf) _ initial inputs admitted
  unfold SpoolLifecycle
  cases turned : run (BinkpLoop.step conf) (binkpTransfer localData remoteData (initProtinfo lists)
      addressEstablished isProtected remoteaddrs) inputs with
  | more final =>
    rw [turned] at ended
    have spooled : Spooled conf final.state := ended
    exact ⟨spooled.told, spooled.stands⟩
  | halt final result =>
    rw [turned] at ended
    exact ended.1

/-- A server that offers a file of three bytes. -/
def serves (name content : Bytes) : SendAnswers where
  opening :=
    { opens := fun _ => none
      network := ⟨true, true, true, some (ascii "FILENAME " ++ name), some (ascii "BINARY 3")⟩ }
  reading := { received := some content }

/-- The start of a transfer that has nothing to send but what the server offers. -/
def sendsSpool : BinkpLoop := binkpTransfer {} {} (initProtinfo ⟨[], [], false⟩) true false [⟨{}, true, true⟩]

/-- The file "a" is offered and sent, then the line brings blocks while the server offers "b". -/
def spoolTurns (blocks : List Block) (quiet : Nat) : List LoopInput :=
  lineTurns (serves (ascii "a") (ascii "abc")) [] 3 ++ lineTurns (serves (ascii "b") (ascii "def")) blocks quiet

/-- The first file is acknowledged and the server told of it, then the second is read. -/
theorem spool_lifecycle_acknowledged :
    SpoolLifecycle plainConf sendsSpool (spoolTurns [commandBlock .got (ascii "a 3 0")] 2) ∧
      (run (BinkpLoop.step plainConf) sendsSpool (spoolTurns [commandBlock .got (ascii "a 3 0")] 2)).Ends
        (fun final => spoolAcks final.state.pi.effects = [0] ∧ final.state.pi.sentfiles.length = 2)
        (fun _ _ => False) := by
  constructor
  · apply spool_lifecycle plainConf {} {} ⟨[], [], false⟩ true false [⟨{}, true, true⟩]
    · exact nofun
    · intro input member entries requests
      have none_ : ∀ input ∈ spoolTurns [commandBlock .got (ascii "a 3 0")] 2,
          input.receiving.rxClose.requests = none := by decide
      rw [none_ input member] at requests
      cases requests
    · decide
  · decide

/-- An M_SKIP for the first file is refused and leaves it as the current one. Announced again, it ends
with the bytes of the second, and the server is told of that when the remote acknowledges the first. -/
theorem skipped_spool_told_twice :
    ¬ SpoolLifecycle plainConf sendsSpool (spoolTurns [commandBlock .got (ascii "a 3 0"),
      commandBlock .skip (ascii "a 3 0"), commandBlock .get (ascii "a 3 0 3"),
      commandBlock .got (ascii "a 3 0")] 0) := by
  have told : (run (BinkpLoop.step plainConf) sendsSpool (spoolTurns [commandBlock .got (ascii "a 3 0"),
      commandBlock .skip (ascii "a 3 0"), commandBlock .get (ascii "a 3 0 3"),
      commandBlock .got (ascii "a 3 0")] 0)).Ends
        (fun final => spoolAcks final.state.pi.effects = [0, 0]) (fun _ _ => False) := by decide
  intro lifecycle
  unfold SpoolLifecycle at lifecycle
  cases ended : run (BinkpLoop.step plainConf) sendsSpool (spoolTurns [commandBlock .got (ascii "a 3 0"),
      commandBlock .skip (ascii "a 3 0"), commandBlock .get (ascii "a 3 0 3"),
      commandBlock .got (ascii "a 3 0")] 0) with
  | more final =>
    rw [ended] at told lifecycle
    have twice : spoolAcks final.state.pi.effects = [0, 0] := told
    have once := lifecycle.1.once
    rw [twice] at once
    exact absurd once (by decide)
  | halt final result =>
    rw [ended] at told
    exact told

end Binkleyforce
