import Mathlib.Data.List.Infix

/-!
# Replacements

A text in which the occurrences of one part are replaced by another: the leftmost occurrence
first, then those of what stands behind it. What is put in is not searched again.
-/

namespace Binkleyforce.Library

variable {α : Type}

/-- The replacement, as the occurrences cut the text. -/
inductive Replaced (find repl : List α) : List α → List α → Prop
  | absent {text : List α} (nowhere : ¬ find <:+: text) : Replaced find repl text text
  | found {before after result : List α}
      (leftmost : ∀ earlier later, before ++ (find ++ after) = earlier ++ (find ++ later) →
        before.length ≤ earlier.length)
      (rest : Replaced find repl after result) :
      Replaced find repl (before ++ (find ++ after)) (before ++ (repl ++ result))

variable [DecidableEq α]

/-- The scan, which passes over the elements of an occurrence that has been replaced. -/
def replaceFrom (find repl : List α) : Nat → List α → List α
  | _, [] => []
  | skip + 1, _ :: text => replaceFrom find repl skip text
  | 0, element :: text =>
    if find <+: element :: text then repl ++ replaceFrom find repl (find.length - 1) text
    else element :: replaceFrom find repl 0 text

/-- The text with all occurrences replaced. -/
def replaceAll (find repl text : List α) : List α := replaceFrom find repl 0 text

/-- The elements that are passed over do not matter. -/
theorem replaceFrom_skip (find repl passed text : List α) :
    replaceFrom find repl passed.length (passed ++ text) = replaceAll find repl text := by
  induction passed with
  | nil => rfl
  | cons element passed inductionHypothesis => exact inductionHypothesis

/-- Nothing is left of no text. -/
theorem replaceAll_nil (find repl : List α) : replaceAll find repl [] = [] := rfl

/-- An occurrence at the start is replaced. -/
theorem replaceAll_found {find : List α} (filled : find ≠ []) (repl after : List α) :
    replaceAll find repl (find ++ after) = repl ++ replaceAll find repl after := by
  obtain ⟨first, rest, rfl⟩ := List.exists_cons_of_ne_nil filled
  unfold replaceAll
  rw [List.cons_append, replaceFrom, if_pos, List.length_cons, Nat.add_sub_cancel,
    replaceFrom_skip]
  · rfl
  · rw [← List.cons_append]
    exact List.prefix_append _ _

/-- An element where no occurrence starts stays. -/
theorem replaceAll_other {find text : List α} {element : α} (repl : List α)
    (other : ¬ find <+: element :: text) :
    replaceAll find repl (element :: text) = element :: replaceAll find repl text := by
  unfold replaceAll
  rw [replaceFrom, if_neg other]

/-- Every element comes from the text, or was put in. -/
theorem mem_replaceAll {find repl text : List α} {element : α}
    (member : element ∈ replaceAll find repl text) : element ∈ repl ∨ element ∈ text := by
  unfold replaceAll at member
  generalize 0 = skip at member
  induction text generalizing skip with
  | nil =>
    rw [replaceFrom] at member
    cases member
  | cons first text inductionHypothesis =>
    cases skip with
    | zero =>
      rw [replaceFrom] at member
      split at member
      · rcases List.mem_append.mp member with new | later
        · exact .inl new
        · exact (inductionHypothesis _ later).imp_right (List.mem_cons_of_mem _)
      · rcases List.mem_cons.mp member with rfl | later
        · exact .inr List.mem_cons_self
        · exact (inductionHypothesis _ later).imp_right (List.mem_cons_of_mem _)
    | succ skip =>
      rw [replaceFrom] at member
      exact (inductionHypothesis _ member).imp_right (List.mem_cons_of_mem _)

/-- Without an occurrence, the text stays. -/
theorem replaceAll_absent {find text : List α} (repl : List α) (nowhere : ¬ find <:+: text) :
    replaceAll find repl text = text := by
  induction text with
  | nil => rfl
  | cons element text inductionHypothesis =>
    rw [List.infix_cons_iff, not_or] at nowhere
    rw [replaceAll_other repl nowhere.1, inductionHypothesis nowhere.2]

/-- The leftmost occurrence is replaced, and the scan goes on behind it. -/
theorem replaceAll_leftmost {find : List α} (filled : find ≠ []) (repl before after : List α)
    (leftmost : ∀ earlier later, before ++ (find ++ after) = earlier ++ (find ++ later) →
      before.length ≤ earlier.length) :
    replaceAll find repl (before ++ (find ++ after)) = before ++ (repl ++ replaceAll find repl after) := by
  induction before with
  | nil => exact replaceAll_found filled repl after
  | cons element before inductionHypothesis =>
    have other : ¬ find <+: element :: (before ++ (find ++ after)) := by
      rintro ⟨later, whole⟩
      have first := leftmost [] later whole.symm
      exact absurd first (Nat.not_succ_le_zero _)
    rw [List.cons_append, replaceAll_other repl other, inductionHypothesis]
    · rfl
    · intro earlier later whole
      have further := leftmost (element :: earlier) later (congrArg (element :: ·) whole)
      exact Nat.le_of_succ_le_succ further

/-- The scan is the replacement. -/
theorem replaced_replaceAll {find : List α} (filled : find ≠ []) (repl text : List α) :
    Replaced find repl text (replaceAll find repl text) := by
  induction long : text.length using Nat.strongRecOn generalizing text with
  | _ count shorter =>
    cases text with
    | nil =>
      refine .absent fun inside => filled ?_
      exact List.infix_nil.mp inside
    | cons element text =>
      rw [List.length_cons] at long
      by_cases here : find <+: element :: text
      · obtain ⟨after, whole⟩ := here
        rw [← whole, replaceAll_found filled]
        have behind : after.length < count := by
          have lengths := congrArg List.length whole
          rw [List.length_append, List.length_cons] at lengths
          have := List.length_pos_of_ne_nil filled
          omega
        have first (earlier later : List α) (_ : [] ++ (find ++ after) = earlier ++ (find ++ later)) :
            ([] : List α).length ≤ earlier.length := Nat.zero_le _
        exact .found first (shorter _ behind after rfl)
      · rw [replaceAll_other repl here]
        have rest := shorter text.length (by omega) text rfl
        generalize replaceAll find repl text = result at rest
        cases rest with
        | absent nowhere =>
          refine .absent ?_
          rw [List.infix_cons_iff]
          rintro (start | inside)
          · exact here start
          · exact nowhere inside
        | @found before after result leftmost rest =>
          rw [← List.cons_append, ← List.cons_append]
          refine .found ?_ rest
          intro earlier later whole
          cases earlier with
          | nil => exact absurd ⟨later, whole.symm⟩ here
          | cons other earlier =>
            rw [List.cons_append, List.cons_append, List.cons.injEq] at whole
            exact Nat.succ_le_succ (leftmost earlier later whole.2)

/-- There is one way to replace the leftmost occurrences, that of the scan. -/
theorem replaced_iff {find : List α} (filled : find ≠ []) {repl text result : List α} :
    Replaced find repl text result ↔ result = replaceAll find repl text := by
  constructor
  · intro replaced
    induction replaced with
    | absent nowhere => exact (replaceAll_absent repl nowhere).symm
    | found leftmost rest inductionHypothesis =>
      rw [replaceAll_leftmost filled repl _ _ leftmost, inductionHypothesis]
  · rintro rfl
    exact replaced_replaceAll filled repl text

end Binkleyforce.Library
