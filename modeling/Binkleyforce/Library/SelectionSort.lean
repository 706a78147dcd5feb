import Mathlib.Data.List.FinRange
import Mathlib.Data.List.Pairwise

/-!
# Selection sort

A table is sorted in place: for each place in turn the entry that is to stand there is
sought among those from there on, and exchanged with the one that stands there. The test
that decides between two entries may hold of equal ones too, or not.
-/

namespace Binkleyforce.Library

variable {α : Type} {n : Nat} (comes : α → α → Bool)

/-- The inner loop, with the place that was found so far. -/
def selectAmong (tab : Vector α n) : Fin n → List (Fin n) → Fin n
  | max, [] => max
  | max, j :: places => selectAmong tab (if comes (tab.get max) (tab.get j) then j else max) places

/-- An entry that was found is exchanged with the one in its place. -/
def exchange (tab : Vector α n) (i max : Fin n) : Vector α n :=
  if i < max then tab.swap max i else tab

/-- The body of the outer loop. -/
def selectStep (tab : Vector α n) (i : Fin n) : Vector α n :=
  exchange tab i (selectAmong comes tab i ((List.finRange n).filter (i < ·)))

/-- The table after some rounds of the outer loop. -/
def sortRounds (tab : Vector α n) : Nat → Vector α n
  | 0 => tab
  | k + 1 => if inside : k < n then selectStep comes (sortRounds tab k) ⟨k, inside⟩ else sortRounds tab k

/-- The whole sort. -/
def selectionSort (tab : Vector α n) : Vector α n := sortRounds comes tab (n - 1)

/-! ## Nothing is lost -/

theorem selectStep_perm (tab : Vector α n) (i : Fin n) : (selectStep comes tab i).Perm tab := by
  unfold selectStep exchange
  split
  · exact Vector.swap_perm _ _
  · exact Vector.Perm.refl _

theorem selectionSort_perm (tab : Vector α n) : (selectionSort comes tab).Perm tab := by
  unfold selectionSort
  induction n - 1 with
  | zero => exact Vector.Perm.refl _
  | succ k inductionHypothesis =>
    unfold sortRounds
    split
    · exact (selectStep_perm comes _ _).trans inductionHypothesis
    · exact inductionHypothesis

/-! ## The order -/

/-- The test goes with an order: what comes before is no later, and what does not is no earlier. -/
structure TestFor (le : α → α → Prop) : Prop where
  refl : ∀ one, le one one
  trans : ∀ one other last, le one other → le other last → le one last
  earlier : ∀ one other, comes one other = true → le other one
  stays : ∀ one other, comes one other = false → le one other

/-- Up to a place every entry is no later than all that stand behind it. -/
def SortedTo (le : α → α → Prop) (tab : Vector α n) (count : Nat) : Prop :=
  ∀ i j : Fin n, i.val < count → i < j → le (tab.get i) (tab.get j)

section Order

variable {comes} {le : α → α → Prop} (test : TestFor comes le)

include test

/-- The place that is found holds an entry no later than those of all places that were looked at.

Induct over the places. -/
theorem selectAmong_least (tab : Vector α n) (i : Fin n) (places : List (Fin n)) :
    le (tab.get (selectAmong comes tab i places)) (tab.get i) ∧
      (∀ j ∈ places, le (tab.get (selectAmong comes tab i places)) (tab.get j)) ∧
      (selectAmong comes tab i places = i ∨ selectAmong comes tab i places ∈ places) := by
  induction places generalizing i with
  | nil => exact ⟨test.refl _, nofun, .inl rfl⟩
  | cons place places inductionHypothesis =>
    unfold selectAmong
    cases decides : comes (tab.get i) (tab.get place) with
    | true =>
      obtain ⟨first, rest, found⟩ := inductionHypothesis place
      rw [if_pos rfl]
      refine ⟨test.trans _ _ _ first (test.earlier _ _ decides), ?_, .inr ?_⟩
      · intro j member
        rcases List.mem_cons.mp member with rfl | later
        · exact first
        · exact rest j later
      · rcases found with same | later
        · rw [same]
          exact List.mem_cons_self
        · exact List.mem_cons_of_mem _ later
    | false =>
      obtain ⟨first, rest, found⟩ := inductionHypothesis i
      rw [if_neg Bool.false_ne_true]
      refine ⟨first, ?_, found.imp_right (List.mem_cons_of_mem _)⟩
      intro j member
      rcases List.mem_cons.mp member with rfl | later
      · exact test.trans _ _ _ first (test.stays _ _ decides)
      · exact rest j later

omit test in
/-- An exchange puts the right entry in its place, and leaves those before it. -/
theorem exchange_sorted {tab : Vector α n} {i max : Fin n} (sorted : SortedTo le tab i) (notBefore : i ≤ max)
    (first : le (tab.get max) (tab.get i)) (least : ∀ j, i < j → le (tab.get max) (tab.get j)) :
    SortedTo le (exchange tab i max) (i + 1) := by
  unfold exchange
  split
  · rename_i behind
    have moved : ∀ k : Fin n, (tab.swap max i).get k =
        if k = max then tab.get i else if k = i then tab.get max else tab.get k := by
      intro k
      simp only [Fin.ext_iff]
      exact Vector.getElem_swap max.isLt i.isLt k.isLt
    intro one other inside before
    rcases Nat.lt_succ_iff_lt_or_eq.mp inside with earlier | here
    · have apart : one ≠ max ∧ one ≠ i := by omega
      rw [moved one, if_neg apart.1, if_neg apart.2, moved other]
      split
      · exact sorted one i earlier earlier
      · split
        · exact sorted one max earlier (Fin.lt_trans earlier behind)
        · exact sorted one other earlier before
    · obtain rfl := Fin.ext here
      rw [moved one, if_neg (Fin.ne_of_lt behind), if_pos rfl, moved other]
      split
      · exact first
      · rw [if_neg (Fin.ne_of_gt before)]
        exact least other before
  · rename_i same
    obtain rfl : max = i := Fin.le_antisymm (Fin.not_lt.mp same) notBefore
    intro one other inside before
    rcases Nat.lt_succ_iff_lt_or_eq.mp inside with earlier | here
    · exact sorted one other earlier before
    · obtain rfl := Fin.ext here
      exact least other before

/-- A round makes one more place right. -/
theorem selectStep_sorted (tab : Vector α n) (i : Fin n) (sorted : SortedTo le tab i) :
    SortedTo le (selectStep comes tab i) (i + 1) := by
  obtain ⟨first, rest, found⟩ := selectAmong_least test tab i ((List.finRange n).filter (i < ·))
  have least : ∀ j, i < j → le (tab.get (selectAmong comes tab i ((List.finRange n).filter (i < ·)))) (tab.get j) :=
    fun j behind => rest j (List.mem_filter.mpr ⟨List.mem_finRange j, by simpa using behind⟩)
  have notBefore : i ≤ selectAmong comes tab i ((List.finRange n).filter (i < ·)) := by
    rcases found with same | member
    · exact Fin.le_of_eq same.symm
    · exact Fin.le_of_lt (by simpa using (List.mem_filter.mp member).2)
  exact exchange_sorted sorted notBefore first least

/-- After some rounds so many places are right.

Induct over the rounds. -/
theorem sortRounds_sorted (tab : Vector α n) (k : Nat) : SortedTo le (sortRounds comes tab k) k := by
  induction k with
  | zero => exact fun _ _ inside => absurd inside (Nat.not_lt_zero _)
  | succ k inductionHypothesis =>
    unfold sortRounds
    split
    · exact selectStep_sorted test _ _ inductionHypothesis
    · rename_i outside
      intro one other _ before
      exact inductionHypothesis one other (by omega) before

/-- The sorted table is in order. -/
theorem selectionSort_sorted (tab : Vector α n) : (selectionSort comes tab).toList.Pairwise le := by
  rw [List.pairwise_iff_getElem]
  intro i j first second before
  have sorted := sortRounds_sorted test tab (n - 1)
  rw [Vector.length_toList] at first second
  exact sorted ⟨i, first⟩ ⟨j, second⟩ (by show i < n - 1; omega) before

end Order

end Binkleyforce.Library
