import Mathlib.Data.List.Induction

/-!
# Changes and resets

A value is changed step by step, and some of the changes put it back to a base. What it is
in the end depends on the changes behind the last of those only.
-/

namespace Binkleyforce.Library

variable {α β : Type} (resets : α → Bool)

/-- The changes behind the last reset. -/
def sinceReset (changes : List α) : List α :=
  (changes.reverse.takeWhile fun change => !resets change).reverse

/-- What the changes behind the last reset start from. -/
def resetStart (base start : β) (changes : List α) : β :=
  if changes.any resets then base else start

/-- The value after one change. -/
def changed (apply : β → α → β) (base : β) (value : β) (change : α) : β :=
  if resets change then base else apply value change

theorem sinceReset_reset (changes : List α) {change : α} (reset : resets change = true) :
    sinceReset resets (changes ++ [change]) = [] := by
  unfold sinceReset
  rw [List.reverse_append, List.reverse_singleton, List.singleton_append,
    List.takeWhile_cons_of_neg (by simp [reset]), List.reverse_nil]

theorem sinceReset_change (changes : List α) {change : α} (other : resets change = false) :
    sinceReset resets (changes ++ [change]) = sinceReset resets changes ++ [change] := by
  unfold sinceReset
  rw [List.reverse_append, List.reverse_singleton, List.singleton_append,
    List.takeWhile_cons_of_pos (by simp [other]), List.reverse_cons]

theorem resetStart_reset (base start : β) (changes : List α) {change : α} (reset : resets change = true) :
    resetStart resets base start (changes ++ [change]) = base := by
  unfold resetStart
  rw [List.any_append, List.any_cons, reset, Bool.true_or, Bool.or_true, if_pos rfl]

theorem resetStart_change (base start : β) (changes : List α) {change : α} (other : resets change = false) :
    resetStart resets base start (changes ++ [change]) = resetStart resets base start changes := by
  unfold resetStart
  rw [List.any_append, List.any_cons, other, List.any_nil, Bool.or_false, Bool.or_false]

/-- The value after all changes.

Induct over the changes from the last one. -/
theorem foldl_changed (apply : β → α → β) (base start : β) (changes : List α) :
    changes.foldl (changed resets apply base) start =
      (sinceReset resets changes).foldl apply (resetStart resets base start changes) := by
  induction changes using List.reverseRecOn with
  | nil => rfl
  | append_singleton changes change inductionHypothesis =>
    rw [List.foldl_append, List.foldl_cons, List.foldl_nil, inductionHypothesis]
    unfold changed
    cases reset : resets change with
    | true =>
      rw [if_pos rfl, sinceReset_reset resets changes reset, resetStart_reset resets base start changes reset,
        List.foldl_nil]
    | false =>
      rw [if_neg Bool.false_ne_true, sinceReset_change resets changes reset,
        resetStart_change resets base start changes reset, List.foldl_append, List.foldl_cons, List.foldl_nil]

end Binkleyforce.Library
