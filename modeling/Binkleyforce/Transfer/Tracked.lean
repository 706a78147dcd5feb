import Binkleyforce.Transfer.Files

/-!
# The list of files sent

What the routines of the sending side keep of the list of files sent: a file that
has its final status is no longer open, and the network spool only has data to
read while a file of it is still on its way.
-/

namespace Binkleyforce

/-- An element of a changed list is one of the old ones, or the changed one. -/
theorem mem_modify {α : Type} {list : List α} {index : Nat} {change : α → α} {element : α}
    (member : element ∈ list.modify index change) :
    element ∈ list ∨ ∃ old, list[index]? = some old ∧ element = change old := by
  obtain ⟨position, there⟩ := List.mem_iff_getElem?.mp member
  rw [List.getElem?_modify] at there
  obtain ⟨old, found, changed⟩ := Option.map_eq_some_iff.mp there
  split at changed
  · rename_i same
    exact .inr ⟨old, same ▸ found, changed.symm⟩
  · exact .inl (changed ▸ List.mem_of_getElem? found)

/-- An element of the old list is still there, or it was changed. -/
theorem mem_modify_of_mem {α : Type} {list : List α} {element : α} (index : Nat)
    (change : α → α) (member : element ∈ list) :
    element ∈ list.modify index change ∨
      (list[index]? = some element ∧ change element ∈ list.modify index change) := by
  obtain ⟨position, there⟩ := List.mem_iff_getElem?.mp member
  by_cases same : index = position
  · subst same
    exact .inr ⟨there, List.mem_of_getElem? (i := index) (by simp [there])⟩
  · exact .inl (List.mem_of_getElem? (i := position) (by simp [same, there]))

/-- The invariant of the list of files sent and the network spool. -/
structure Tracked (pi : Protinfo) : Prop where
  ended : ∀ finf ∈ pi.sentfiles, finf.closed → finf.fp = none
  spooled : ∀ finf ∈ pi.sentfiles, finf.netspool = true → finf.action = .acknowledge
  offered : pi.netspool.state = .recvfile →
    ∃ finf ∈ pi.sentfiles, finf.netspool = true ∧ ¬ finf.closed

/-- A change of a file that does not close it, or leaves it closed. -/
structure Mild (old new : Finfo) : Prop where
  netspool : new.netspool = old.netspool
  action : new.action = old.action
  ended : new.closed → new.fp = none
  opened : new.closed → old.closed

section Tracked

variable {pi after : Protinfo}

/-- The current file is in the list. -/
theorem sending_mem {finf : Finfo} (current : pi.sending = some finf) : finf ∈ pi.sentfiles := by
  obtain ⟨index, _, there⟩ := Option.bind_eq_some_iff.mp current
  exact List.mem_of_getElem? there

/-- It depends on the list and the spool only. -/
theorem tracked_same (tracked : Tracked pi) (files : after.sentfiles = pi.sentfiles)
    (spool : after.netspool.state = .recvfile → pi.netspool.state = .recvfile) :
    Tracked after where
  ended := files ▸ tracked.ended
  spooled := files ▸ tracked.spooled
  offered waiting := files ▸ tracked.offered (spool waiting)

/-- Mild changes keep it. -/
theorem tracked_modify (tracked : Tracked pi) (index : Nat) (change : Finfo → Finfo)
    (mild : ∀ old, pi.sentfiles[index]? = some old → Mild old (change old))
    (files : after.sentfiles = pi.sentfiles.modify index change)
    (spool : after.netspool.state = .recvfile → pi.netspool.state = .recvfile) :
    Tracked after := by
  constructor
  · intro finf member closed
    rcases mem_modify (files ▸ member) with same | ⟨old, found, rfl⟩
    · exact tracked.ended finf same closed
    · exact (mild old found).ended closed
  · intro finf member network
    rcases mem_modify (files ▸ member) with same | ⟨old, found, rfl⟩
    · exact tracked.spooled finf same network
    · rw [(mild old found).action]
      exact tracked.spooled old (List.mem_of_getElem? found) ((mild old found).netspool ▸ network)
  · intro waiting
    obtain ⟨finf, member, network, going⟩ := tracked.offered (spool waiting)
    rcases mem_modify_of_mem index change member with same | ⟨found, changed⟩
    · exact ⟨finf, files ▸ same, network, going⟩
    · exact ⟨change finf, files ▸ changed, (mild finf found).netspool.trans network,
        fun closed => going ((mild finf found).opened closed)⟩

/-- Mild changes of the current file keep it. -/
theorem tracked_changeSend (tracked : Tracked pi) (change : Finfo → Finfo)
    (mild : ∀ old, pi.sending = some old → Mild old (change old)) :
    Tracked (pi.changeSend change) := by
  unfold Protinfo.changeSend
  cases current : pi.send with
  | none => exact tracked
  | some index =>
    refine tracked_modify tracked index change (fun old found => mild old ?_) rfl id
    rw [Protinfo.sending, current]
    exact found

/-- A new file that is on its way keeps it. -/
theorem tracked_begin (tracked : Tracked pi) (finf : Finfo) (going : ¬ finf.closed)
    (acknowledged : finf.netspool = true → finf.action = .acknowledge) (spool : Netspool)
    (offers : spool.state = .recvfile → pi.netspool.state = .recvfile ∨ finf.netspool = true)
    (lists : FileLists) :
    Tracked (Protinfo.begin { pi with lists, netspool := spool } finf) := by
  constructor
  · intro other member closed
    rcases List.mem_append.mp member with old | new
    · exact tracked.ended other old closed
    · rw [List.mem_singleton.mp new] at closed
      exact absurd closed going
  · intro other member network
    rcases List.mem_append.mp member with old | new
    · exact tracked.spooled other old network
    · rw [List.mem_singleton.mp new] at network ⊢
      exact acknowledged network
  · intro waiting
    rcases offers waiting with before | network
    · obtain ⟨other, member, facts⟩ := tracked.offered before
      exact ⟨other, List.mem_append_left _ member, facts⟩
    · exact ⟨finf, List.mem_append_right _ (List.mem_singleton_self _), network, going⟩

/-- The spool still has data only where it had some before, or offers a file. -/
theorem next_recvfile (replies : NetspoolReplies) (noRemoteaddr : Bool) (spool : Netspool)
    (waiting : (spool.next replies noRemoteaddr).1.state = .recvfile) :
    spool.state = .recvfile ∨ (spool.next replies noRemoteaddr).2 = true := by
  have asked : (spool.ask replies).state = .recvfile → spool.state = .recvfile := by
    grind [Netspool.ask, Netspool.start, Netspool.query]
  unfold Netspool.next at waiting ⊢
  dsimp only at waiting ⊢
  split at waiting
  · exact .inl waiting
  · split at waiting
    · rename_i alone _
      rw [if_neg alone]
      split at waiting
      · simp_all
      · split at waiting
        · cases waiting
        · contradiction
    · exact .inl (asked waiting)

/-- While the spool offers a file something is opened, unless all is held. -/
theorem openNext_offered (accessible : Source → Bool) (fuel : Nat) (lists : FileLists)
    (enough : lists.waiting < fuel) : (openNext accessible true fuel lists).2 ≠ none := by
  induction fuel generalizing lists with
  | zero => omega
  | succ fuel inductionHypothesis =>
    simp only [openNext]
    split
    · rename_i nothing
      simp only [protGetNextFile] at nothing
      split at nothing
      · cases nothing
      · split at nothing
        · cases nothing
        · cases nothing
    · simp
    · rename_i source distant chosen
      split
      · simp
      · obtain ⟨entry, there, waits⟩ := protGetNextFile_some lists source chosen distant
        have fewer := waiting_begin source entry there waits
        exact inductionHypothesis (lists.begin source) (by omega)

/-- Opening the next file keeps it. -/
theorem tracked_pTxFopen (tracked : Tracked pi) (conf : TransferConf) (answers : TxOpenAnswers) :
    Tracked (pTxFopen conf answers pi).1 := by
  have local_spool : ∀ (lists : FileLists) (finf : Finfo), finf.status = .process →
      finf.netspool = false → Tracked (Protinfo.begin { pi with lists } finf) := by
    intro lists finf going plain
    refine tracked_begin tracked finf ?_ (fun network => by simp [plain] at network) pi.netspool
      .inl lists
    simp [Finfo.closed, going]
  have offers := next_recvfile answers.network conf.noRemoteaddr pi.netspool
  unfold pTxFopen
  dsimp only
  split
  · rename_i nothing
    refine tracked_same tracked rfl ?_
    split
    · exact id
    · rename_i held
      intro waiting
      refine (offers waiting).resolve_right fun offered => ?_
      have found := openNext_offered (fun source => (answers.opens source).isSome)
        (pi.lists.waiting + 1) pi.lists (Nat.lt_succ_self _)
      simp only [pTxFopenNext, held, offered, Bool.false_eq_true, if_false] at nothing
      exact found (by rw [nothing])
  · refine tracked_begin tracked _ ?_ (fun _ => rfl) _ (fun _ => .inr rfl) _
    simp [Finfo.closed, txNetspool]
  · split
    · exact local_spool _ _ rfl rfl
    · exact tracked_same tracked rfl id

/-- Going back to a file sent before keeps it. -/
theorem tracked_pTxReopen (tracked : Tracked pi) (holdall : Bool) (hint : FileHint) :
    Tracked (pTxReopen holdall hint pi).1 := by
  unfold pTxReopen
  split
  · exact tracked
  · split
    · exact tracked
    · split
      · exact tracked
      · rename_i index _ _
        have chosen : Tracked { pi with send := some index } := tracked_same tracked rfl id
        refine tracked_changeSend chosen _ fun old _ => ?_
        exact ⟨rfl, rfl, by simp [Finfo.closed], by simp [Finfo.closed]⟩

/-- Seeking in the current file keeps it. -/
theorem tracked_pTxRewind (tracked : Tracked pi) (pos : Nat) :
    Tracked (pTxRewind pos pi).1 := by
  unfold pTxRewind
  split
  · exact tracked
  · rename_i stream opened
    split
    · exact tracked
    · refine tracked_changeSend tracked _ fun old found => ?_
      have member : old ∈ pi.sentfiles := sending_mem found
      have going : ¬ old.closed := by
        intro closed
        simp [found, tracked.ended old member closed] at opened
      exact ⟨rfl, rfl, fun closed => absurd closed going, id⟩

/-- A spool file that was acknowledged has no more data. -/
theorem acknowledge_state (told : Bool) (spool : Netspool) :
    (spool.acknowledge told).1.state ≠ .recvfile := by
  unfold Netspool.acknowledge
  split
  · exact nofun
  · split <;> exact nofun

/-- Closing the current file keeps it. -/
theorem tracked_pTxFclose (tracked : Tracked pi) (told : Bool) : Tracked (pTxFclose told pi) := by
  unfold pTxFclose
  split
  · rename_i index _ _ _
    refine tracked_modify tracked index (fun finf => { finf with fp := none })
      (fun old _ => ⟨rfl, rfl, fun _ => rfl, id⟩) rfl ?_
    dsimp only
    split
    · intro waiting
      exact absurd waiting (acknowledge_state _ _)
    · exact id
  · exact tracked_same tracked rfl id

/-- What closing a file of the list with a status comes to. -/
theorem pTxFclose_status (pi : Protinfo) (told : Bool) (index : Nat) (finf : Finfo)
    (status : Fstat) (there : pi.sentfiles[index]? = some finf) :
    pTxFclose told ({ pi with send := some index }.changeSend fun finf => { finf with status }) =
      { pi with
        sentfiles := pi.sentfiles.modify index fun finf => { finf with status, fp := none }
        send := none
        trafficSent := pi.trafficSent.update finf.bytesSent finf.bytesSkipped finf.type
        effects := pi.effects ++ (postSend { finf with status }).map (Disposal.mk index)
        netspool :=
          if .acknowledge ∈ postSend { finf with status } then (pi.netspool.acknowledge told).1
          else pi.netspool } := by
  have current : ({ pi with send := some index }.changeSend
      fun finf => { finf with status }).sending = some { finf with status } := by
    simp [Protinfo.changeSend, Protinfo.changeSent, Protinfo.sending, there]
  unfold pTxFclose
  simp only [current, show ({ pi with send := some index }.changeSend
    fun finf => { finf with status }).send = some index from rfl]
  simp only [Protinfo.changeSend, Protinfo.changeSent, List.modify_modify_eq]
  rfl

/-- Closing a file of the list with a final status keeps it. A file of the spool is
closed as sent only. -/
theorem tracked_close (tracked : Tracked pi) (told : Bool) (index : Nat) (finf : Finfo)
    (status : Fstat) (there : pi.sentfiles[index]? = some finf)
    (spool : finf.netspool = true → status = .success) (send : Option Nat) :
    Tracked { pTxFclose told ({ pi with send := some index }.changeSend
      fun finf => { finf with status }) with send } := by
  rw [pTxFclose_status pi told index finf status there]
  constructor
  · intro other member closed
    rcases mem_modify member with same | ⟨old, _, rfl⟩
    · exact tracked.ended other same closed
    · rfl
  · intro other member network
    rcases mem_modify member with same | ⟨old, found, rfl⟩
    · exact tracked.spooled other same network
    · exact tracked.spooled old (List.mem_of_getElem? found) network
  · intro waiting
    dsimp only at waiting
    split at waiting
    · exact absurd waiting (acknowledge_state _ _)
    · rename_i quiet
      have local_file : finf.netspool = false := by
        by_contra network
        have network : finf.netspool = true := by simpa using network
        refine quiet ?_
        simp [postSend, spool network, tracked.spooled finf (List.mem_of_getElem? there) network]
      obtain ⟨other, member, network, going⟩ := tracked.offered waiting
      rcases mem_modify_of_mem index (fun finf => { finf with status, fp := none }) member with
        same | ⟨found, _⟩
      · exact ⟨other, same, network, going⟩
      · obtain rfl : finf = other := Option.some.inj (there.symm.trans found)
        simp [local_file] at network

/-- Reading the current file keeps it, unless that fails. -/
theorem tracked_pTxReadfile (tracked : Tracked pi) (answers : TxReadAnswers) (buflen : Nat)
    (bytes : Bytes) (read : pTxReadfile answers buflen pi = some (after, .data bytes)) :
    Tracked after ∧ ∃ finf ∈ pi.sentfiles, ¬ finf.closed := by
  unfold pTxReadfile at read
  cases current : pi.sending with
  | none => simp [current] at read
  | some finf =>
    have member : finf ∈ pi.sentfiles := sending_mem current
    simp only [current] at read
    split at read
    · unfold readNetspool at read
      split at read
      · cases read
      · rename_i waiting
        have waiting : pi.netspool.state = .recvfile := by simpa using waiting
        dsimp only at read
        split at read
        · cases read
        · cases read
          obtain ⟨other, present, _, going⟩ := tracked.offered waiting
          refine ⟨?_, other, present, going⟩
          have read_on : Tracked { pi with netspool := (pi.netspool.read answers.received buflen).1 } :=
            tracked_same tracked rfl fun _ => waiting
          exact tracked_changeSend read_on _ fun old found =>
            ⟨rfl, rfl, tracked.ended old (sending_mem found), id⟩
    · split at read
      · cases read
      · rename_i stream opened
        have going : ¬ finf.closed := by
          intro closed
          simp [tracked.ended finf member closed] at opened
        unfold readLocal at read
        dsimp only at read
        refine ⟨?_, finf, member, going⟩
        have kept : ∀ changed : Finfo, changed.netspool = finf.netspool →
            changed.action = finf.action → changed.status = finf.status →
            Tracked (pi.changeSend fun _ => changed) := by
          intro changed network action status
          have open_still : ¬ changed.closed := by
            simpa only [Finfo.closed, status] using going
          refine tracked_changeSend tracked _ fun old found => ?_
          obtain rfl : finf = old := Option.some.inj (current.symm.trans found)
          exact ⟨network, action, fun closed => absurd closed open_still,
            fun closed => absurd closed open_still⟩
        split at read
        · cases read
        · split at read
          · cases read
          · split at read
            · split at read
              · cases read
                exact kept _ rfl rfl rfl
              · cases read
            · cases read
              exact kept _ rfl rfl rfl

end Tracked

end Binkleyforce
