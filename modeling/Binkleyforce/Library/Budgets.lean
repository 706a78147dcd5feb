import Mathlib.Algebra.Order.BigOperators.Group.List
import Mathlib.Algebra.Order.Group.Nat
import Mathlib.Algebra.Order.Ring.Int
import Mathlib.Data.List.Basic
import Mathlib.Tactic.TypeStar

/-!
# Choices within a budget

Items come one after the other and each is taken if there is still room for it. What is taken never
exceeds the budget, and whatever is left out would have exceeded it.
-/

namespace Binkleyforce.Library

variable {α : Type*} (size : α → Nat) (fits : Nat → Bool)

/-- The items taken where so much is used already. -/
def chosen : Nat → List α → List α
  | _, [] => []
  | used, item :: items =>
    if fits (used + size item) then item :: chosen (used + size item) items else chosen used items

/-- What the items need together. -/
def total (items : List α) : Nat := (items.map size).sum

variable {size fits}

/-- The total of a list is its first item's need and that of the others. -/
@[simp]
theorem total_cons (item : α) (items : List α) : total size (item :: items) = size item + total size items := by
  simp [total]

/-- Fewer items need no more. -/
theorem total_le {items others : List α} (fewer : List.Sublist items others) : total size items ≤ total size others :=
  (fewer.map size).sum_le_sum (by simp)

/-- Items are taken in their order and none twice. -/
theorem chosen_sublist (used : Nat) (items : List α) : List.Sublist (chosen size fits used items) items := by
  induction items generalizing used with
  | nil => exact List.Sublist.slnil
  | cons item items inductionHypothesis =>
    rw [chosen]
    split
    · exact (inductionHypothesis _).cons_cons item
    · exact (inductionHypothesis _).cons item

/-- What is taken keeps within the budget. -/
theorem chosen_fits {used : Nat} (room : fits used) (items : List α) :
    fits (used + total size (chosen size fits used items)) := by
  induction items generalizing used with
  | nil => simpa [chosen, total] using room
  | cons item items inductionHypothesis =>
    rw [chosen]
    split
    · rename_i inside
      rw [total_cons, ← Nat.add_assoc]
      exact inductionHypothesis inside
    · exact inductionHypothesis room

/-- Where less always fits, an item that is left out does not fit beside what is taken. -/
theorem chosen_left_out (less : ∀ a b, a ≤ b → fits b → fits a) (used : Nat) {items : List α} {item : α}
    (there : item ∈ items) (missing : item ∉ chosen size fits used items) :
    ¬ fits (used + total size (chosen size fits used items) + size item) := by
  induction items generalizing used with
  | nil => simp at there
  | cons head items inductionHypothesis =>
    rw [chosen] at missing ⊢
    split
    · rename_i inside
      rw [if_pos inside, List.mem_cons, not_or] at missing
      have later : item ∈ items := (List.mem_cons.mp there).resolve_left missing.1
      rw [total_cons, ← Nat.add_assoc]
      exact inductionHypothesis _ later missing.2
    · rename_i outside
      rw [if_neg outside] at missing
      rcases List.mem_cons.mp there with rfl | later
      · exact fun inside => outside (less _ _ (by omega) inside)
      · exact inductionHypothesis _ later missing

/-- Nothing is taken where no item fits alone beside what is used. -/
theorem chosen_eq_nil_iff {used : Nat} {items : List α} :
    chosen size fits used items = [] ↔ ∀ item ∈ items, ¬ fits (used + size item) := by
  induction items with
  | nil => simp [chosen]
  | cons item items inductionHypothesis =>
    rw [chosen, List.forall_mem_cons]
    split
    · rename_i inside
      simp [inside]
    · rename_i outside
      rw [and_iff_right outside]
      exact inductionHypothesis

end Binkleyforce.Library
