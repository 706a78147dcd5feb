import Mathlib.Data.List.Basic

/-!
# Patterns with wildcards

A pattern is a list of parts: a part takes any run of elements, or one element, or one
element that is like its own. A matcher may fail to give the last run what it takes: it wants
something left for it, and no other run before it.
-/

namespace Binkleyforce.Library

/-- A part of a pattern. -/
inductive GlobPart (α : Type) where
  | run
  | one
  | like (wanted : α)
  deriving DecidableEq, Repr

variable {α : Type} (alike : α → α → Bool)

/-- The part takes the element alone. -/
def GlobPart.takes (element : α) : GlobPart α → Bool
  | .run => false
  | .one => true
  | .like wanted => alike wanted element

/-- The pattern takes the whole text. -/
inductive Globs : List (GlobPart α) → List α → Prop where
  | nil : Globs [] []
  | run (front : List α) {pattern rest} : Globs pattern rest → Globs (.run :: pattern) (front ++ rest)
  | single {part element pattern rest} : GlobPart.takes alike element part = true →
      Globs pattern rest → Globs (part :: pattern) (element :: rest)

/-- The pattern does not end with a run. -/
def Solid (pattern : List (GlobPart α)) : Prop := pattern.getLast? ≠ some .run

/-- What a matcher accepts that wants something left for the run at the end, and no run
before that one. -/
def GlobsFilled (pattern : List (GlobPart α)) (text : List α) : Prop :=
  (Solid pattern ∧ Globs alike pattern text) ∨
    ∃ body front rest, pattern = body ++ [.run] ∧ Solid body ∧ text = front ++ rest ∧ rest ≠ [] ∧
      Globs alike body front

/-- Is the part a run? -/
def GlobPart.isRun : GlobPart α → Bool
  | .run => true
  | _ => false

variable {alike}

/-! ## Taking a text -/

/-- The empty pattern takes the empty text alone. -/
theorem globs_nil_iff {text : List α} : Globs alike [] text ↔ text = [] := by
  constructor
  · rintro ⟨⟩
    rfl
  · rintro rfl
    exact .nil

/-- A run at the front takes any first part of the text. -/
theorem globs_run_iff {pattern : List (GlobPart α)} {text : List α} :
    Globs alike (.run :: pattern) text ↔ ∃ front rest, text = front ++ rest ∧ Globs alike pattern rest := by
  constructor
  · intro whole
    cases whole with
    | run front later => exact ⟨front, _, rfl, later⟩
    | single takes => cases takes
  · rintro ⟨front, rest, rfl, later⟩
    exact .run front later

/-- Any other part takes the first element. -/
theorem globs_single_iff {part : GlobPart α} {pattern : List (GlobPart α)} {element : α} {text : List α}
    (single : part ≠ .run) :
    Globs alike (part :: pattern) (element :: text) ↔
      part.takes alike element = true ∧ Globs alike pattern text := by
  constructor
  · intro whole
    generalize filled : element :: text = taken at whole
    cases whole with
    | run => exact absurd rfl single
    | single takes later =>
      obtain ⟨rfl, rfl⟩ := List.cons.inj filled
      exact ⟨takes, later⟩
  · rintro ⟨takes, later⟩
    exact .single takes later

/-- Patterns in a row take texts in a row.

Induct over the first pattern. -/
theorem globs_append_iff {first second : List (GlobPart α)} {text : List α} :
    Globs alike (first ++ second) text ↔
      ∃ front rest, text = front ++ rest ∧ Globs alike first front ∧ Globs alike second rest := by
  constructor
  · intro whole
    induction first generalizing text with
    | nil => exact ⟨[], text, rfl, .nil, whole⟩
    | cons part first inductionHypothesis =>
      cases whole with
      | run taken later =>
        obtain ⟨front, rest, rfl, begins, ends⟩ := inductionHypothesis later
        exact ⟨taken ++ front, rest, (List.append_assoc ..).symm, .run taken begins, ends⟩
      | single takes later =>
        obtain ⟨front, rest, rfl, begins, ends⟩ := inductionHypothesis later
        exact ⟨_ :: front, rest, rfl, .single takes begins, ends⟩
  · rintro ⟨front, rest, rfl, begins, ends⟩
    induction begins with
    | nil => exact ends
    | run taken _ inductionHypothesis =>
      rw [List.append_assoc]
      exact .run taken inductionHypothesis
    | single takes _ inductionHypothesis => exact .single takes inductionHypothesis

/-- A run at the end takes whatever is left. -/
theorem globs_snoc_iff {pattern : List (GlobPart α)} {text : List α} :
    Globs alike (pattern ++ [.run]) text ↔ ∃ front rest, text = front ++ rest ∧ Globs alike pattern front := by
  rw [globs_append_iff]
  constructor
  · rintro ⟨front, rest, rfl, begins, -⟩
    exact ⟨front, rest, rfl, begins⟩
  · rintro ⟨front, rest, rfl, begins⟩
    refine ⟨front, rest, rfl, begins, ?_⟩
    rw [globs_run_iff]
    exact ⟨rest, [], (List.append_nil rest).symm, .nil⟩

/-- A run is known as one. -/
theorem isRun_iff {part : GlobPart α} : part.isRun = true ↔ part = .run := by
  cases part <;> simp [GlobPart.isRun]

/-- Runs at the front are as good as one. -/
theorem globs_dropRuns {pattern : List (GlobPart α)} {text : List α} :
    Globs alike (.run :: pattern) text ↔
      ∃ front rest, text = front ++ rest ∧ Globs alike (pattern.dropWhile GlobPart.isRun) rest := by
  induction pattern generalizing text with
  | nil => exact globs_run_iff
  | cons part pattern inductionHypothesis =>
    by_cases run : part = .run
    · subst run
      rw [globs_run_iff, List.dropWhile_cons_of_pos rfl]
      constructor
      · rintro ⟨front, back, rfl, runs⟩
        obtain ⟨more, rest, rfl, later⟩ := inductionHypothesis.mp runs
        exact ⟨front ++ more, rest, (List.append_assoc ..).symm, later⟩
      · rintro ⟨front, rest, rfl, later⟩
        exact ⟨front, rest, rfl, inductionHypothesis.mpr ⟨[], rest, rfl, later⟩⟩
    · rw [globs_run_iff, List.dropWhile_cons_of_neg (mt isRun_iff.mp run)]

/-! ## The end of a pattern -/

/-- The last part of a longer pattern. -/
theorem solid_cons_iff {part : GlobPart α} {pattern : List (GlobPart α)} (longer : part ≠ .run ∨ pattern ≠ []) :
    Solid (part :: pattern) ↔ Solid pattern := by
  unfold Solid
  cases pattern with
  | nil =>
    have single : part ≠ .run := longer.resolve_right (· rfl)
    simpa using single
  | cons next pattern => rw [List.getLast?_cons_cons]

/-- A pattern ends with a run, or it does not. -/
theorem solid_or_snoc (pattern : List (GlobPart α)) : Solid pattern ∨ ∃ body, pattern = body ++ [.run] := by
  by_cases ends : pattern.getLast? = some .run
  · obtain ⟨body, rfl⟩ := List.getLast?_eq_some_iff.mp ends
    exact .inr ⟨body, rfl⟩
  · exact .inl ends

/-- A pattern that ends with a run is not solid. -/
theorem not_solid_snoc (body : List (GlobPart α)) : ¬ Solid (body ++ [.run]) := by
  unfold Solid
  simp

/-- A pattern with another part at its end takes something. -/
theorem Globs.ne_nil {pattern : List (GlobPart α)} {text : List α} (whole : Globs alike pattern text)
    (solid : Solid pattern) (filled : pattern ≠ []) : text ≠ [] := by
  induction whole with
  | nil => exact absurd rfl filled
  | single => exact List.cons_ne_nil _ _
  | @run front pattern rest later inductionHypothesis =>
    have more : pattern ≠ [] := by
      rintro rfl
      exact solid rfl
    have something := inductionHypothesis ((solid_cons_iff (.inr more)).mp solid) more
    rw [ne_eq, List.append_eq_nil_iff]
    exact fun none => something none.2

/-! ## A run that wants something -/

/-- What is accepted is a match. -/
theorem GlobsFilled.globs {pattern : List (GlobPart α)} {text : List α} (accepted : GlobsFilled alike pattern text) :
    Globs alike pattern text := by
  rcases accepted with ⟨-, whole⟩ | ⟨body, front, rest, rfl, -, rfl, -, begins⟩
  · exact whole
  · exact globs_snoc_iff.mpr ⟨front, rest, rfl, begins⟩

/-- With a run at its end a pattern accepts what goes on behind a match of the rest, and that
rest ends with no other run. -/
theorem globsFilled_snoc_iff {body : List (GlobPart α)} {text : List α} :
    GlobsFilled alike (body ++ [.run]) text ↔
      Solid body ∧ ∃ front rest, text = front ++ rest ∧ rest ≠ [] ∧ Globs alike body front := by
  constructor
  · rintro (⟨solid, -⟩ | ⟨other, front, rest, same, solid, taken, filled, begins⟩)
    · exact absurd solid (not_solid_snoc body)
    · obtain ⟨rfl, -⟩ := List.append_inj' same rfl
      exact ⟨solid, front, rest, taken, filled, begins⟩
  · rintro ⟨solid, front, rest, taken, filled, begins⟩
    exact .inr ⟨body, front, rest, rfl, solid, taken, filled, begins⟩

/-- The empty text is accepted by the empty pattern alone. -/
theorem globsFilled_empty {pattern : List (GlobPart α)} : GlobsFilled alike pattern [] ↔ pattern = [] := by
  constructor
  · rintro (⟨solid, whole⟩ | ⟨-, front, rest, -, -, none, filled, -⟩)
    · by_contra more
      exact whole.ne_nil solid more rfl
    · exact absurd (List.append_eq_nil_iff.mp none.symm).2 filled
  · rintro rfl
    exact .inl ⟨nofun, .nil⟩

/-- The empty pattern accepts no other text. -/
theorem not_globsFilled_nil {text : List α} (filled : text ≠ []) : ¬ GlobsFilled alike [] text :=
  fun accepted => filled (globs_nil_iff.mp accepted.globs)

/-- A part for one element goes with the first one. -/
theorem globsFilled_single_iff {part : GlobPart α} {pattern : List (GlobPart α)} {element : α} {text : List α}
    (single : part ≠ .run) :
    GlobsFilled alike (part :: pattern) (element :: text) ↔
      part.takes alike element = true ∧ GlobsFilled alike pattern text := by
  constructor
  · rintro (⟨solid, whole⟩ | ⟨body, front, rest, ends, solid, taken, filled, begins⟩)
    · obtain ⟨takes, later⟩ := (globs_single_iff single).mp whole
      exact ⟨takes, .inl ⟨(solid_cons_iff (.inl single)).mp solid, later⟩⟩
    · cases body with
      | nil => exact absurd (List.cons.inj ends).1 single
      | cons first body =>
        obtain ⟨rfl, rfl⟩ := List.cons.inj ends
        have solid := (solid_cons_iff (.inl single)).mp solid
        cases begins with
        | run => exact absurd rfl single
        | @single _ _ _ back takes later =>
          obtain ⟨rfl, rfl⟩ := List.cons.inj taken
          exact ⟨takes, .inr ⟨body, back, rest, rfl, solid, rfl, filled, later⟩⟩
  · rintro ⟨takes, ⟨solid, whole⟩ | ⟨body, front, rest, rfl, solid, rfl, filled, begins⟩⟩
    · exact .inl ⟨(solid_cons_iff (.inl single)).mpr solid, .single takes whole⟩
    · exact .inr ⟨part :: body, element :: front, rest, rfl, (solid_cons_iff (.inl single)).mpr solid, rfl, filled,
        .single takes begins⟩

/-- A run before another part leaves something. -/
theorem globsFilled_run_single {next : GlobPart α} {pattern : List (GlobPart α)} {text : List α}
    (single : next ≠ .run) :
    GlobsFilled alike (.run :: next :: pattern) text ↔
      ∃ front rest, text = front ++ rest ∧ rest ≠ [] ∧ GlobsFilled alike (next :: pattern) rest := by
  have more := List.cons_ne_nil next pattern
  constructor
  · rintro (⟨solid, whole⟩ | ⟨body, taken, rest, ends, solid, rfl, filled, begins⟩)
    · have solid := (solid_cons_iff (.inr more)).mp solid
      obtain ⟨front, rest, rfl, later⟩ := globs_run_iff.mp whole
      exact ⟨front, rest, rfl, later.ne_nil solid more, .inl ⟨solid, later⟩⟩
    · cases body with
      | nil => exact absurd (List.cons.inj ends).2 more
      | cons first body =>
        obtain ⟨rfl, later⟩ := List.cons.inj ends
        have inner : body ≠ [] := by
          rintro rfl
          exact single (List.cons.inj later).1
        have solid := (solid_cons_iff (.inr inner)).mp solid
        obtain ⟨front, back, rfl, takes⟩ := globs_run_iff.mp begins
        refine ⟨front, back ++ rest, List.append_assoc .., ?_, .inr ⟨body, back, rest, later, solid, rfl, filled, takes⟩⟩
        rw [ne_eq, List.append_eq_nil_iff]
        exact fun none => filled none.2
  · rintro ⟨front, rest, rfl, -, ⟨solid, whole⟩ | ⟨body, back, left, ends, solid, rfl, filled, begins⟩⟩
    · exact .inl ⟨(solid_cons_iff (.inr more)).mpr solid, .run front whole⟩
    · have inner : body ≠ [] := by
        rintro rfl
        exact single (List.cons.inj ends).1
      refine .inr ⟨.run :: body, front ++ back, left, ?_, (solid_cons_iff (.inr inner)).mpr solid,
        (List.append_assoc ..).symm, filled, .run front begins⟩
      rw [ends, List.cons_append]

/-- Two runs before other parts are as good as one. -/
theorem globsFilled_run_run {pattern : List (GlobPart α)} {text : List α} (more : pattern ≠ []) :
    GlobsFilled alike (.run :: .run :: pattern) text ↔ GlobsFilled alike (.run :: pattern) text := by
  have same (pattern : List (GlobPart α)) (text : List α) :
      Globs alike (.run :: .run :: pattern) text ↔ Globs alike (.run :: pattern) text := by
    rw [globs_dropRuns, globs_dropRuns, List.dropWhile_cons_of_pos rfl]
  have still (pattern : List (GlobPart α)) : Solid (.run :: .run :: pattern) ↔ Solid (.run :: pattern) :=
    solid_cons_iff (.inr (List.cons_ne_nil _ _))
  constructor
  · rintro (⟨solid, whole⟩ | ⟨body, front, rest, ends, solid, taken, filled, begins⟩)
    · exact .inl ⟨(still pattern).mp solid, (same pattern text).mp whole⟩
    · rcases body with - | ⟨first, - | ⟨second, body⟩⟩
      · cases ends
      · exact absurd (List.cons.inj (List.cons.inj ends).2).2 more
      · obtain ⟨rfl, later⟩ := List.cons.inj ends
        obtain ⟨rfl, rfl⟩ := List.cons.inj later
        exact .inr ⟨.run :: body, front, rest, rfl, (still body).mp solid, taken, filled, (same body front).mp begins⟩
  · rintro (⟨solid, whole⟩ | ⟨body, front, rest, ends, solid, taken, filled, begins⟩)
    · exact .inl ⟨(still pattern).mpr solid, (same pattern text).mpr whole⟩
    · cases body with
      | nil => exact absurd (List.cons.inj ends).2 more
      | cons first body =>
        obtain ⟨rfl, rfl⟩ := List.cons.inj ends
        exact .inr ⟨.run :: .run :: body, front, rest, rfl, (still body).mpr solid, taken, filled,
          (same body front).mpr begins⟩

/-- Two runs at the end accept nothing. -/
theorem not_globsFilled_runs {text : List α} : ¬ GlobsFilled alike [.run, .run] text := by
  rintro (⟨solid, -⟩ | ⟨body, front, rest, ends, solid, -⟩)
  · exact solid rfl
  · obtain ⟨rfl, -⟩ := List.append_inj' (show [GlobPart.run] ++ [.run] = body ++ [.run] from ends) rfl
    exact solid rfl

/-- A run that ends the pattern accepts all that is left. A run before other parts leaves
them something, and the runs behind it count no more.

Induct over the pattern behind the run. -/
theorem globsFilled_run_iff {pattern : List (GlobPart α)} {text : List α} (filled : text ≠ []) :
    GlobsFilled alike (.run :: pattern) text ↔
      pattern = [] ∨ ∃ front rest, text = front ++ rest ∧ rest ≠ [] ∧
        GlobsFilled alike (pattern.dropWhile GlobPart.isRun) rest := by
  induction pattern with
  | nil =>
    refine ⟨fun _ => .inl rfl, fun _ => .inr ⟨[], [], text, rfl, nofun, rfl, filled, .nil⟩⟩
  | cons part pattern inductionHypothesis =>
    rw [or_iff_right (List.cons_ne_nil part pattern)]
    by_cases run : part = .run
    · subst run
      rw [List.dropWhile_cons_of_pos rfl]
      by_cases last : pattern = []
      · subst last
        refine iff_of_false not_globsFilled_runs ?_
        rintro ⟨front, rest, -, left, accepted⟩
        exact not_globsFilled_nil left accepted
      · rw [globsFilled_run_run last, inductionHypothesis, or_iff_right last]
    · rw [globsFilled_run_single run, List.dropWhile_cons_of_neg (mt isRun_iff.mp run)]

end Binkleyforce.Library
