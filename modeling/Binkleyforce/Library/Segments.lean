import Mathlib.Data.List.Count

/-!
# Segments of a list

Some elements of a list separate its segments. Whether a segment holds an element of
interest is settled once the separator behind it is there; a longer list adds to its last
segment, or further ones.
-/

namespace Binkleyforce.Library

variable {α : Type} (separates wanted : α → Bool)

/-- The segment of this number holds a wanted element. The numbers begin with 0, and a
separator belongs to no segment. -/
def inSegment : Nat → List α → Bool
  | _, [] => false
  | 0, element :: rest =>
    if separates element then false else wanted element || inSegment 0 rest
  | number + 1, element :: rest =>
    if separates element then inSegment number rest else inSegment (number + 1) rest

/-- What is appended counts from the segment it begins in.

Induct over the first list, as the segments are counted down. -/
theorem inSegment_append (number : Nat) (first second : List α) :
    inSegment separates wanted number (first ++ second) =
      (inSegment separates wanted number first ||
        (decide (first.countP separates ≤ number) &&
          inSegment separates wanted (number - first.countP separates) second)) := by
  induction first generalizing number with
  | nil => simp [inSegment]
  | cons element first inductionHypothesis =>
    cases number with
    | zero =>
      simp only [List.cons_append, inSegment]
      cases separator : separates element with
      | true => simp [separator]
      | false => simp [inductionHypothesis, separator, Bool.or_assoc]
    | succ number =>
      simp only [List.cons_append, inSegment]
      cases separator : separates element with
      | true => simp [inductionHypothesis, separator, Nat.add_sub_add_right]
      | false => simp [inductionHypothesis, separator]

/-- One more element counts where it is wanted in the last segment. -/
theorem inSegment_snoc (number : Nat) (list : List α) (element : α) :
    inSegment separates wanted number (list ++ [element]) =
      (inSegment separates wanted number list ||
        (decide (list.countP separates = number) && !separates element && wanted element)) := by
  rw [inSegment_append]
  by_cases before : list.countP separates ≤ number
  · obtain ⟨more, rfl⟩ := Nat.exists_eq_add_of_le before
    cases more with
    | zero => cases separator : separates element <;> simp [inSegment, separator]
    | succ more => cases separator : separates element <;> simp [inSegment, separator]
  · simp only [before, decide_false, Bool.false_and]
    rw [decide_eq_false (by omega)]
    rfl

/-- More of the list takes nothing back. -/
theorem inSegment_mono (number : Nat) {first second : List α} (part : first <+: second)
    (found : inSegment separates wanted number first = true) :
    inSegment separates wanted number second = true := by
  obtain ⟨rest, rfl⟩ := part
  rw [inSegment_append, found, Bool.true_or]

/-- A segment whose end is there does not change. -/
theorem inSegment_closed (number : Nat) {first second : List α} (part : first <+: second)
    (closed : number < first.countP separates) :
    inSegment separates wanted number second = inSegment separates wanted number first := by
  obtain ⟨rest, rfl⟩ := part
  rw [inSegment_append, decide_eq_false (by omega), Bool.false_and, Bool.or_false]

/-- A segment that has not begun holds nothing.

Induct over the list, as the segments are counted down. -/
theorem inSegment_beyond (number : Nat) (list : List α) (beyond : list.countP separates < number) :
    inSegment separates wanted number list = false := by
  induction list generalizing number with
  | nil => cases number <;> rfl
  | cons element rest inductionHypothesis =>
    cases number with
    | zero => omega
    | succ number =>
      unfold inSegment
      rw [List.countP_cons] at beyond
      split
      · rename_i separator
        rw [if_pos separator] at beyond
        exact inductionHypothesis number (by omega)
      · rename_i separator
        rw [if_neg separator] at beyond
        exact inductionHypothesis (number + 1) (by omega)

/-- A text is its last segment, or a segment and a separator before another text. -/
theorem segments_induction (separator : α) {motive : List α → Prop}
    (last : ∀ segment, separator ∉ segment → motive segment)
    (more : ∀ segment rest, separator ∉ segment → motive rest → motive (segment ++ separator :: rest))
    (text : List α) : motive text := by
  induction length : text.length using Nat.strongRecOn generalizing text with
  | ind size shorter =>
    by_cases cut : separator ∈ text
    · obtain ⟨segment, rest, rfl, whole⟩ := List.eq_append_cons_of_mem cut
      refine more segment rest whole (shorter rest.length ?_ rest rfl)
      rw [List.length_append, List.length_cons] at length
      omega
    · exact last text cut

/-- The elements of a segment are elements of the text, and none of them is the separator. -/
theorem mem_of_segment [BEq α] [LawfulBEq α] {separator : α} {text segment : List α}
    (cut : segment ∈ text.splitOn separator) : separator ∉ segment ∧ ∀ element ∈ segment, element ∈ text := by
  induction text using segments_induction separator with
  | last whole none =>
    rw [List.splitOn_eq_singleton none, List.mem_singleton] at cut
    subst cut
    exact ⟨none, fun _ member => member⟩
  | more first rest none inductionHypothesis =>
    rw [List.splitOn_append_cons_self_of_not_mem none, List.mem_cons] at cut
    rcases cut with rfl | later
    · exact ⟨none, fun _ member => List.mem_append_left _ member⟩
    · obtain ⟨other, inside⟩ := inductionHypothesis later
      exact ⟨other, fun element member => List.mem_append_right _ (List.mem_cons_of_mem _ (inside element member))⟩

end Binkleyforce.Library
