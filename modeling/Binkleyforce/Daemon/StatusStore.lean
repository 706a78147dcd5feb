import Binkleyforce.Library.Resets
import Binkleyforce.Daemon.Systems

/-!
# The status files as a store

Differences are applied to the status files of systems one after the other. What is read of
a system in the end is each field folded over the differences that were meant for it.
-/

namespace Binkleyforce

open Library

/-- The counters of a record. -/
def SessStat.counters : List (SessStat → UInt32) :=
  [tries, triesNoconn, triesNoansw, triesNodial, triesHshake, triesSessns]

/-- Its times to hold until. -/
def SessStat.holds : List (SessStat → UInt64) := [holdUntil, holdFreqs]

/-- Its times of a success. -/
def SessStat.successes : List (SessStat → UInt64) := [lastSuccessOut, lastSuccessIn]

/-- A counter is an `int`. -/
def counterValue (counter : UInt32) : Int := counter.toBitVec.toInt

/-- The differences one after the other, each for the system of its address. -/
def applyDiffs (files : StsFiles) (diffs : List (Faddr × SessStat)) : StsFiles :=
  diffs.foldl (fun files diff => sessionStatApplyDiff files true diff.1 diff.2) files

/-- Those that are for the system of an address. -/
def diffsFor (addr : Faddr) (diffs : List (Faddr × SessStat)) : List SessStat :=
  (diffs.filter fun diff => diff.1.numbers = addr.numbers).map (·.2)

/-- The sum of the changes of a counter since it was last reset. -/
def counted (start : UInt32) (changes : List UInt32) : Int :=
  counterValue (resetStart (· = triesReset) 0 start changes) +
    ((sinceReset (· = triesReset) changes).map counterValue).sum

/-- The latest time to hold until since it was last reset. -/
def heldUntil (start : UInt64) (changes : List UInt64) : UInt64 :=
  (sinceReset (· = holdReset) changes).foldl max (resetStart (· = holdReset) 0 start changes)

/-- After all differences up to any of them the counter is an `int`. -/
def CountsInRange (start : UInt32) (changes : List UInt32) : Prop :=
  ∀ taken, taken <+: changes → -2 ^ 31 ≤ counted start taken ∧ counted start taken < 2 ^ 31

instance (start : UInt32) (changes : List UInt32) : Decidable (CountsInRange start changes) :=
  decidable_of_iff (∀ count ∈ List.range (changes.length + 1),
      -2 ^ 31 ≤ counted start (changes.take count) ∧ counted start (changes.take count) < 2 ^ 31) <| by
    constructor
    · intro counts taken first
      rw [List.prefix_iff_eq_take.mp first]
      exact counts _ (List.mem_range.mpr (Nat.lt_succ_of_le first.length_le))
    · exact fun range count _ => range _ (List.take_prefix _ _)

/-- The fields of a record after differences, each folded by itself. -/
structure Folded (start : SessStat) (diffs : List SessStat) (stat : SessStat) : Prop where
  counters : ∀ counter ∈ SessStat.counters,
    counterValue (counter stat) = counted (counter start) (diffs.map counter)
  holds : ∀ hold ∈ SessStat.holds, hold stat = heldUntil (hold start) (diffs.map hold)
  successes : ∀ success ∈ SessStat.successes, success stat = (diffs.map success).foldl max (success start)

/-! ## One field -/

/-- The sum of two counters, where it is an `int`. -/
theorem counterValue_add (value change : UInt32) (low : -2 ^ 31 ≤ counterValue value + counterValue change)
    (high : counterValue value + counterValue change < 2 ^ 31) :
    counterValue (value + change) = counterValue value + counterValue change := by
  unfold counterValue at low high ⊢
  rw [UInt32.toBitVec_add, BitVec.toInt_add]
  apply Int.bmod_eq_of_le
  · omega
  · omega

/-- A counter is the sum of its changes since the last reset.

Induct over the changes from the last one; the range is needed of what precedes it. -/
theorem counter_folded (start : UInt32) (changes : List UInt32) (range : CountsInRange start changes) :
    counterValue (changes.foldl updateTries start) = counted start changes := by
  induction changes using List.reverseRecOn with
  | nil => exact (Int.add_zero _).symm
  | append_singleton changes change inductionHypothesis =>
    have before := inductionHypothesis fun taken first =>
      range taken (first.trans (List.prefix_append _ _))
    obtain ⟨low, high⟩ := range _ (List.prefix_refl _)
    rw [List.foldl_append, List.foldl_cons, List.foldl_nil, updateTries]
    by_cases reset : change = triesReset
    · rw [if_pos reset]
      unfold counted
      rw [sinceReset_reset _ changes (by simpa using reset), resetStart_reset _ _ _ changes (by simpa using reset)]
      rfl
    · have summed : counted start (changes ++ [change]) = counted start changes + counterValue change := by
        unfold counted
        rw [sinceReset_change _ changes (by simpa using reset),
          resetStart_change _ _ _ changes (by simpa using reset), List.map_append, List.sum_append,
          List.map_singleton, List.sum_singleton, Int.add_assoc]
      rw [summed, ← before] at low high
      rw [if_neg reset, summed, counterValue_add _ _ low high, before]

/-- The update of a success time keeps the later one. -/
theorem updateSuccess_max : updateSuccess = max := by
  funext value stat
  unfold updateSuccess
  change _ = if value ≤ stat then stat else value
  by_cases later : value < stat
  · rw [if_pos later, if_pos (UInt64.le_of_lt later)]
  · rw [if_neg later]
    by_cases same : value ≤ stat
    · rw [if_pos same]
      exact UInt64.le_antisymm same (UInt64.not_lt.mp later)
    · rw [if_neg same]

/-- A hold is the latest since the last reset. -/
theorem hold_folded (start : UInt64) (changes : List UInt64) :
    changes.foldl updateHold start = heldUntil start changes := by
  have same : updateHold = changed (· = holdReset) max 0 := by
    funext value stat
    unfold updateHold changed
    rw [← updateSuccess_max]
    unfold updateSuccess
    simp only [decide_eq_true_eq]
  rw [same, foldl_changed]
  rfl

/-! ## The record of a system -/

/-- Differences for a system change its record in turn, those for others do not. -/
theorem statOf_applyDiffs (addr : Faddr) (diffs : List (Faddr × SessStat)) (files : StsFiles) :
    statOf (applyDiffs files diffs addr.numbers) =
      (diffsFor addr diffs).foldl (fun stat diff => sessionStatReadStsfile (sessionStatText (stat.update diff)))
        (statOf (files addr.numbers)) := by
  unfold applyDiffs
  induction diffs generalizing files with
  | nil => rfl
  | cons diff diffs inductionHypothesis =>
    rw [List.foldl_cons, inductionHypothesis]
    unfold diffsFor sessionStatApplyDiff
    rw [if_pos rfl]
    by_cases mine : diff.1.numbers = addr.numbers
    · rw [mine, Function.update_self, List.filter_cons_of_pos (by simpa using mine), List.map_cons,
        List.foldl_cons]
      rfl
    · rw [Function.update_of_ne (Ne.symm mine), List.filter_cons_of_neg (by simpa using mine)]

/-- A field that the file holds is folded by its own rule. -/
theorem field_folded {α : Type} (field : SessStat → α) (rule : α → α → α)
    (kept : ∀ stat, field (sessionStatReadStsfile (sessionStatText stat)) = field stat)
    (updated : ∀ stat diff : SessStat, field (stat.update diff) = rule (field stat) (field diff))
    (diffs : List SessStat) (start : SessStat) :
    field (diffs.foldl (fun stat diff => sessionStatReadStsfile (sessionStatText (stat.update diff))) start) =
      (diffs.map field).foldl rule (field start) := by
  induction diffs generalizing start with
  | nil => rfl
  | cons diff diffs inductionHypothesis =>
    rw [List.foldl_cons, inductionHypothesis, kept, updated, List.map_cons, List.foldl_cons]

/-- Every field that is written is read back. -/
theorem fields_kept (stat : SessStat) :
    (∀ counter ∈ SessStat.counters, counter (sessionStatReadStsfile (sessionStatText stat)) = counter stat) ∧
      (∀ hold ∈ SessStat.holds, hold (sessionStatReadStsfile (sessionStatText stat)) = hold stat) ∧
      ∀ success ∈ SessStat.successes,
        success (sessionStatReadStsfile (sessionStatText stat)) = success stat := by
  rw [sessionStatRead_text]
  simp [SessStat.counters, SessStat.holds, SessStat.successes]

/-- Every field has its rule. -/
theorem fields_updated (stat diff : SessStat) :
    (∀ counter ∈ SessStat.counters, counter (stat.update diff) = updateTries (counter stat) (counter diff)) ∧
      (∀ hold ∈ SessStat.holds, hold (stat.update diff) = updateHold (hold stat) (hold diff)) ∧
      ∀ success ∈ SessStat.successes,
        success (stat.update diff) = updateSuccess (success stat) (success diff) := by
  simp [SessStat.counters, SessStat.holds, SessStat.successes, SessStat.update]

/-- Two tries, a success that resets them, and a try and a hold after it; and tries of another
system in between. -/
def severalDiffs : List (Faddr × SessStat) :=
  [({ zone := 2, net := 5020 }, { tries := 1 }), ({ zone := 2, net := 450 }, { tries := 7 }),
    ({ zone := 2, net := 5020 }, { tries := 1, holdUntil := 50 }),
    ({ zone := 2, net := 5020 }, { tries := triesReset, holdUntil := holdReset, lastSuccessOut := 60 }),
    ({ zone := 2, net := 5020 }, { tries := 1, holdUntil := 40 })]

end Binkleyforce
