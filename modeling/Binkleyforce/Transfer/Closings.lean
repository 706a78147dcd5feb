import Binkleyforce.Transfer.Sides
import Binkleyforce.Transfer.Tracked

/-!
# What becomes of closed files

Closing a sent file takes the actions its status asks for and counts it in the
traffic, each time it is done. Between two states of a session the closings account
for all actions and all traffic. A file that has its final status should not be
among them again, and should keep that status.
-/

namespace Binkleyforce

/-- A call of `p_tx_fclose` for a file of the list. -/
structure Closing where
  index : Nat
  finf : Finfo

/-- The closings between two states, with what they do. -/
structure Closes (before after : Protinfo) (closings : List Closing) : Prop where
  effects : after.effects = before.effects ++
    closings.flatMap fun closing => (postSend closing.finf).map (Disposal.mk closing.index)
  traffic : after.trafficSent = closings.foldl (fun traffic closing =>
    traffic.update closing.finf.bytesSent closing.finf.bytesSkipped closing.finf.type)
      before.trafficSent

/-- A file that is closed with its final status is not closed again and keeps the
status. -/
def Final (before after : Protinfo) : Prop :=
  ∃ closings, Closes before after closings ∧
    ∀ index finf, before.sentfiles[index]? = some finf → finf.closed →
      (∀ closing ∈ closings, closing.index ≠ index) ∧
        ∃ later, after.sentfiles[index]? = some later ∧ later.status = finf.status

/-- Where nothing was closed, no file was closed again. -/
theorem closings_nil (index : Nat) : ∀ closing ∈ ([] : List Closing), closing.index ≠ index :=
  fun _ member => absurd member List.not_mem_nil

/-- A file with its final status is not open. -/
def Shut (pi : Protinfo) : Prop := ∀ finf ∈ pi.sentfiles, finf.closed → finf.fp = none

/-- What a routine keeps of closed files. -/
structure Sealed (before after : Protinfo) : Prop where
  final : Final before after
  shut : Shut after

instance (finf : Finfo) : Decidable finf.closed := by
  unfold Finfo.closed
  infer_instance

section Final

variable {first second third pi after : Protinfo}

theorem Final.refl (pi : Protinfo) : Final pi pi :=
  ⟨[], ⟨by simp, rfl⟩, fun index finf there _ => ⟨closings_nil index, finf, there, rfl⟩⟩

/-- What is final between two states and from then on is final throughout. -/
theorem Final.trans (left : Final first second) (right : Final second third) :
    Final first third := by
  obtain ⟨early, closed, kept⟩ := left
  obtain ⟨late, closes, keeps⟩ := right
  refine ⟨early ++ late, ⟨?_, ?_⟩, ?_⟩
  · rw [closes.effects, closed.effects, List.flatMap_append, List.append_assoc]
  · rw [closes.traffic, closed.traffic, List.foldl_append]
  · intro index finf there ended
    obtain ⟨apart, middle, found, status⟩ := kept index finf there ended
    have still : middle.closed := by
      simpa only [Finfo.closed, status] using ended
    obtain ⟨distinct, later, last, same⟩ := keeps index middle found still
    refine ⟨fun closing member => ?_, later, last, same.trans status⟩
    rcases List.mem_append.mp member with old | new
    · exact apart closing old
    · exact distinct closing new

theorem Sealed.trans (left : Sealed first second) (right : Shut second → Sealed second third) :
    Sealed first third :=
  ⟨left.final.trans (right left.shut).final, (right left.shut).shut⟩

/-- A change of one file that closes none keeps it, where a closed file keeps its
status. -/
theorem sealed_modify (shut : Shut pi) (index : Nat) (change : Finfo → Finfo)
    (status : ∀ old, pi.sentfiles[index]? = some old → old.closed →
      (change old).status = old.status)
    (closed : ∀ old, pi.sentfiles[index]? = some old → (change old).closed →
      (change old).fp = none)
    (files : after.sentfiles = pi.sentfiles.modify index change)
    (effects : after.effects = pi.effects) (traffic : after.trafficSent = pi.trafficSent) :
    Sealed pi after := by
  refine ⟨⟨[], ⟨by simpa using effects, by simpa using traffic⟩, ?_⟩, ?_⟩
  · intro place finf there ended
    refine ⟨closings_nil place, ?_⟩
    rw [files, List.getElem?_modify, there]
    by_cases same : index = place
    · subst same
      exact ⟨change finf, by simp, status finf there ended⟩
    · exact ⟨finf, by simp [same], rfl⟩
  · intro finf member ended
    rcases mem_modify (files ▸ member) with old | ⟨old, found, rfl⟩
    · exact shut finf old ended
    · exact closed old found ended

/-- Where the list and the records stay nothing is lost. -/
theorem sealed_same (shut : Shut pi) (files : after.sentfiles = pi.sentfiles)
    (effects : after.effects = pi.effects) (traffic : after.trafficSent = pi.trafficSent) :
    Sealed pi after := by
  refine ⟨⟨[], ⟨by simpa using effects, by simpa using traffic⟩, ?_⟩, ?_⟩
  · intro place finf there _
    exact ⟨closings_nil place, finf, files ▸ there, rfl⟩
  · intro finf member
    exact shut finf (files ▸ member)

/-- The same for a change of the current file. -/
theorem sealed_changeSend (shut : Shut pi) (change : Finfo → Finfo)
    (status : ∀ old, pi.sending = some old → old.closed → (change old).status = old.status)
    (closed : ∀ old, pi.sending = some old → (change old).closed → (change old).fp = none) :
    Sealed pi (pi.changeSend change) := by
  unfold Protinfo.changeSend
  cases current : pi.send with
  | none => exact sealed_same shut rfl rfl rfl
  | some index =>
    have sending : pi.sending = pi.sentfiles[index]? := by
      rw [Protinfo.sending, current]
      rfl
    exact sealed_modify shut index change (fun old found => status old (sending.trans found))
      (fun old found => closed old (sending.trans found)) rfl rfl rfl

/-- A change that keeps status and stream of the current file. -/
theorem sealed_changeSend_mild (shut : Shut pi) (change : Finfo → Finfo)
    (status : ∀ old, (change old).status = old.status) (fp : ∀ old, (change old).fp = old.fp) :
    Sealed pi (pi.changeSend change) := by
  refine sealed_changeSend shut change (fun old _ _ => status old) ?_
  intro old current ended
  rw [fp]
  refine shut old (sending_mem current) ?_
  simpa only [Finfo.closed, status] using ended

/-- Opening a further file loses nothing. -/
theorem sealed_begin (shut : Shut pi) (finf : Finfo) (going : finf.status = .process)
    (lists : FileLists) (netspool : Netspool) :
    Sealed pi (Protinfo.begin { pi with lists, netspool } finf) := by
  refine ⟨⟨[], ⟨by simp [Protinfo.begin], rfl⟩, ?_⟩, ?_⟩
  · intro place old there _
    refine ⟨closings_nil place, old, ?_, rfl⟩
    obtain ⟨inside, _⟩ := List.getElem?_eq_some_iff.mp there
    exact (List.getElem?_append_left inside).trans there
  · intro other member ended
    rcases List.mem_append.mp member with old | new
    · exact shut other old ended
    · rw [List.mem_singleton.mp new] at ended
      simp [Finfo.closed, going] at ended

/-- Opening the next file loses nothing. -/
theorem sealed_pTxFopen (shut : Shut pi) (conf : TransferConf) (answers : TxOpenAnswers) :
    Sealed pi (pTxFopen conf answers pi).1 := by
  unfold pTxFopen
  dsimp only
  split
  · exact sealed_same shut rfl rfl rfl
  · exact sealed_begin shut _ rfl _ _
  · split
    · exact sealed_begin shut _ rfl _ pi.netspool
    · exact sealed_same shut rfl rfl rfl

/-- Only a file that is still open is opened again. -/
theorem sealed_pTxReopen (shut : Shut pi) (holdall : Bool) (hint : FileHint) :
    Sealed pi (pTxReopen holdall hint pi).1 := by
  unfold pTxReopen
  split
  · exact sealed_same shut rfl rfl rfl
  · split
    · exact sealed_same shut rfl rfl rfl
    · rename_i index found
      split
      · exact sealed_same shut rfl rfl rfl
      · rename_i there
        refine sealed_modify shut index
          (fun finf => { finf with eofseen := false, status := .process }) ?_
          (fun old _ ended => by simp [Finfo.closed] at ended) rfl rfl rfl
        intro old same ended
        have none : old.fp = none := shut old (List.mem_of_getElem? same) ended
        simp [same, none] at there

/-- Only an open file is rewound. -/
theorem sealed_pTxRewind (shut : Shut pi) (pos : Nat) : Sealed pi (pTxRewind pos pi).1 := by
  unfold pTxRewind
  split
  · exact sealed_same shut rfl rfl rfl
  · rename_i stream opened
    split
    · exact sealed_same shut rfl rfl rfl
    · have going : ∀ old, pi.sending = some old → ¬ old.closed := by
        intro old current ended
        simp [current, shut old (sending_mem current) ended] at opened
      exact sealed_changeSend shut _ (fun old current ended => absurd ended (going old current))
        (fun old current ended => absurd ended (going old current))

/-- Closing the current file loses nothing where it has no final status yet. -/
theorem sealed_pTxFclose (shut : Shut pi) (told : Bool)
    (going : ∀ finf, pi.sending = some finf → ¬ finf.closed) :
    Sealed pi (pTxFclose told pi) := by
  unfold pTxFclose
  split
  · rename_i index finf chosen current
    have there : pi.sentfiles[index]? = some finf := by
      rw [Protinfo.sending, chosen] at current
      exact current
    refine ⟨⟨[⟨index, finf⟩], ⟨by simp, rfl⟩, ?_⟩, ?_⟩
    · intro place old found ended
      have apart : index ≠ place := by
        rintro rfl
        obtain rfl : finf = old := Option.some.inj (there.symm.trans found)
        exact going finf current ended
      refine ⟨fun closing member => ?_, old, ?_, rfl⟩
      · rw [List.mem_singleton.mp member]
        exact apart
      · rw [List.getElem?_modify, found]
        simp [apart]
    · intro other member ended
      rcases mem_modify member with old | ⟨old, _, rfl⟩
      · exact shut other old ended
      · rfl
  · exact sealed_same shut rfl rfl rfl

/-- Closing a file of the list loses nothing where it has no final status yet. -/
theorem sealed_close (shut : Shut pi) (told : Bool) (index : Nat) (finf : Finfo) (status : Fstat)
    (there : pi.sentfiles[index]? = some finf) (going : ¬ finf.closed) (send : Option Nat) :
    Sealed pi { pTxFclose told ({ pi with send := some index }.changeSend
      fun finf => { finf with status }) with send } := by
  rw [pTxFclose_status pi told index finf status there]
  refine ⟨⟨[⟨index, { finf with status }⟩], ⟨by simp, rfl⟩, ?_⟩, ?_⟩
  · intro place old found ended
    have apart : index ≠ place := by
      rintro rfl
      obtain rfl : finf = old := Option.some.inj (there.symm.trans found)
      exact going ended
    refine ⟨fun closing member => ?_, old, ?_, rfl⟩
    · rw [List.mem_singleton.mp member]
      exact apart
    · rw [List.getElem?_modify, found]
      simp [apart]
  · intro other member ended
    rcases mem_modify member with old | ⟨old, _, rfl⟩
    · exact shut other old ended
    · rfl

/-- A change of the current file where it has no final status yet. -/
theorem final_changeSend (change : Finfo → Finfo)
    (going : ∀ old, pi.sending = some old → ¬ old.closed) : Final pi (pi.changeSend change) := by
  unfold Protinfo.changeSend
  cases current : pi.send with
  | none => exact .refl pi
  | some index =>
    refine ⟨[], ⟨by simp [Protinfo.changeSent], rfl⟩, ?_⟩
    intro place finf there ended
    refine ⟨closings_nil place, finf, ?_, rfl⟩
    have apart : index ≠ place := by
      rintro rfl
      exact going finf (by rw [Protinfo.sending, current]; exact there) ended
    simp only [Protinfo.changeSent, List.getElem?_modify, there]
    simp [apart]

/-- Reading loses nothing where no spool file with a final status is read, and what is
read is of a file that has none. -/
theorem final_pTxReadfile (shut : Shut pi) (answers : TxReadAnswers) (buflen : Nat)
    (result : TxRead) (read : pTxReadfile answers buflen pi = some (after, result))
    (spool : ∀ finf, pi.sending = some finf → finf.netspool = true → ¬ finf.closed) :
    Final pi after ∧ ∀ bytes, result = .data bytes → Shut after ∧
      ∀ finf, after.sending = some finf → ¬ finf.closed := by
  unfold pTxReadfile at read
  cases current : pi.sending with
  | none => simp [current] at read
  | some finf =>
    simp only [current] at read
    split at read
    · rename_i network
      have going : ∀ old, pi.sending = some old → ¬ old.closed := by
        intro old same
        obtain rfl : finf = old := Option.some.inj (current.symm.trans same)
        exact spool finf current network
      unfold readNetspool at read
      split at read
      · cases read
        exact ⟨final_changeSend _ going, by rintro _ ⟨⟩⟩
      · dsimp only at read
        have marked : ∀ (netspool : Netspool) (eofseen : Bool), Sealed pi
            ({ pi with netspool }.changeSend fun finf => { finf with eofseen }) :=
          fun netspool eofseen =>
            (@sealed_same _ { pi with netspool } shut rfl rfl rfl).trans fun shut =>
              sealed_changeSend_mild shut _ (fun _ => rfl) (fun _ => rfl)
        have still : ∀ (netspool : Netspool) (eofseen : Bool) old,
            ({ pi with netspool }.changeSend fun finf => { finf with eofseen }).sending = some old →
              ¬ old.closed := by
          intro netspool eofseen old same
          rw [changeSend_sending] at same
          obtain ⟨earlier, there, rfl⟩ := Option.map_eq_some_iff.mp same
          exact going earlier there
        split at read
        · cases read
          exact ⟨(marked _ _).final.trans (final_changeSend _ (still _ _)), by rintro _ ⟨⟩⟩
        · cases read
          exact ⟨(marked _ _).final, fun _ _ => ⟨(marked _ _).shut, still _ _⟩⟩
    · cases opened : finf.fp with
      | none =>
        rw [opened] at read
        cases read
        exact ⟨.refl pi, by rintro _ ⟨⟩⟩
      | some stream =>
        rw [opened] at read
        have going : ∀ old, pi.sending = some old → ¬ old.closed := by
          intro old same ended
          obtain rfl : finf = old := Option.some.inj (current.symm.trans same)
          simp [shut finf (sending_mem current) ended] at opened
        have kept : ∀ changed : Finfo, changed.status = finf.status →
            Shut (pi.changeSend fun _ => changed) ∧
              ∀ old, (pi.changeSend fun _ => changed).sending = some old → ¬ old.closed := by
          intro changed status
          have open_still : ¬ changed.closed := by
            simpa only [Finfo.closed, status] using going finf current
          refine ⟨(sealed_changeSend shut _ (fun old same ended => absurd ended (going old same))
            (fun _ _ ended => absurd ended open_still)).shut, fun old same => ?_⟩
          rw [changeSend_sending] at same
          obtain ⟨_, _, rfl⟩ := Option.map_eq_some_iff.mp same
          exact open_still
        unfold readLocal at read
        dsimp only at read
        split at read
        · cases read
          exact ⟨final_changeSend _ going, by rintro _ ⟨⟩⟩
        · split at read
          · cases read
            exact ⟨final_changeSend _ going, by rintro _ ⟨⟩⟩
          · split at read
            · split at read
              · cases read
                exact ⟨final_changeSend _ going, fun _ _ => kept _ rfl⟩
              · cases read
                exact ⟨final_changeSend _ going, by rintro _ ⟨⟩⟩
            · cases read
              exact ⟨final_changeSend _ going, fun _ _ => kept _ rfl⟩

end Final

end Binkleyforce
