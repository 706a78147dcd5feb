import Mathlib.Data.List.Infix
import Binkleyforce.Library.Runs

/-!
# Scanners of short sequences

A sequence stands behind a star, has a known number of plain elements, and may begin anywhere in a
stream. A scanner keeps what it has taken behind the last star. It finds the sequences of the
stream, each of them once, also where the program it belongs to reads the stream in many turns.
-/

namespace Binkleyforce.Library

section Scans

variable {α : Type} (ignored star plain : α → Bool) (size : Nat)

/-- The sequence a stream begins with. -/
def sequenceAt : List α → Option (List α)
  | [] => none
  | first :: rest =>
    if star first && size ≤ rest.length && (rest.take size).all plain then some (rest.take size) else none

/-- The sequences of a stream, one for each place where one begins. -/
def sequencesIn (stream : List α) : List (List α) := stream.tails.filterMap (sequenceAt star plain size)

/-- What a scanner has taken behind a star after one more element, and the sequence that ends
with it. -/
def scanStep (taken : Option (List α)) (element : α) : Option (List α) × Option (List α) :=
  if ignored element then (taken, none)
  else if star element then (some [], none)
  else
    match taken with
    | none => (none, none)
    | some taken =>
      if !plain element then (none, none)
      else if taken.length + 1 = size then (none, some (taken ++ [element]))
      else (some (taken ++ [element]), none)

/-- What a scanner has taken after a stream, and the sequences that end in it. -/
def scan (taken : Option (List α)) : List α → Option (List α) × List (List α)
  | [] => (taken, [])
  | element :: rest =>
    ((scan (scanStep ignored star plain size taken element).1 rest).1,
      (scanStep ignored star plain size taken element).2.toList ++
        (scan (scanStep ignored star plain size taken element).1 rest).2)

/-- The sequences of a stream begin with its first element or later. -/
theorem sequencesIn_cons (first : α) (rest : List α) :
    sequencesIn star plain size (first :: rest) =
      (sequenceAt star plain size (first :: rest)).toList ++ sequencesIn star plain size rest := by
  unfold sequencesIn
  rw [List.tails_cons, List.filterMap_cons]
  cases sequenceAt star plain size (first :: rest) with
  | none => rfl
  | some sequence => rfl

/-- An element that is ignored changes nothing. -/
theorem scanStep_ignored (taken : Option (List α)) {element : α} (passed : ignored element = true) :
    scanStep ignored star plain size taken element = (taken, none) := if_pos passed

/-- A star begins a sequence. -/
theorem scanStep_star (taken : Option (List α)) {element : α} (read : ignored element = false)
    (starred : star element = true) : scanStep ignored star plain size taken element = (some [], none) := by
  rw [scanStep.eq_def, if_neg (by simp [read]), if_pos starred]

/-- Behind no star there is nothing to take. -/
theorem scanStep_none {element : α} (starred : star element = false) :
    scanStep ignored star plain size none element = (none, none) := by
  rw [scanStep.eq_def, if_neg (Bool.eq_false_iff.mp starred)]
  exact ite_self _

/-- An element that is not plain ends a sequence. -/
theorem scanStep_breaks (taken : Option (List α)) {element : α} (read : ignored element = false)
    (starred : star element = false) (fits : plain element = false) :
    scanStep ignored star plain size taken element = (none, none) := by
  rw [scanStep.eq_def, if_neg (Bool.eq_false_iff.mp read), if_neg (Bool.eq_false_iff.mp starred)]
  cases taken with
  | none => rfl
  | some sequence => exact if_pos (by simp [fits])

/-- A plain element is taken, and may be the last one. -/
theorem scanStep_takes (sequence : List α) {element : α} (read : ignored element = false)
    (starred : star element = false) (fits : plain element = true) :
    scanStep ignored star plain size (some sequence) element =
      if sequence.length + 1 = size then (none, some (sequence ++ [element]))
      else (some (sequence ++ [element]), none) := by
  rw [scanStep.eq_def, if_neg (Bool.eq_false_iff.mp read), if_neg (Bool.eq_false_iff.mp starred)]
  exact if_neg (by simp [fits])

/-- What is ignored may be left out. -/
theorem scan_ignored (taken : Option (List α)) (stream : List α) :
    scan ignored star plain size taken stream =
      scan (fun _ => false) star plain size taken (stream.filter fun element => !ignored element) := by
  induction stream generalizing taken with
  | nil => rfl
  | cons first rest inductionHypothesis =>
    cases passed : ignored first with
    | true =>
      rw [List.filter_cons_of_neg (by simp [passed]), ← inductionHypothesis, scan,
        scanStep_ignored ignored star plain size taken passed]
      rfl
    | false =>
      have same : scanStep ignored star plain size taken first =
          scanStep (fun _ => false) star plain size taken first := by
        rw [scanStep.eq_def, scanStep.eq_def, if_neg (Bool.eq_false_iff.mp passed),
          if_neg Bool.false_ne_true]
      rw [List.filter_cons_of_pos (by simp [passed]), scan, scan, inductionHypothesis, same]

/-- The sequence that was begun, if the stream ends it. -/
def completed (taken stream : List α) : Option (List α) :=
  if size ≤ taken.length + stream.length && (stream.take (size - taken.length)).all plain then
    some (taken ++ stream.take (size - taken.length))
  else none

/-- A sequence that is begun goes on with the next element. -/
theorem completed_cons {taken : List α} (begun : taken.length < size) (first : α) (rest : List α) :
    completed plain size taken (first :: rest) =
      if plain first then completed plain size (taken ++ [first]) rest else none := by
  obtain ⟨more, whole⟩ := Nat.exists_eq_add_of_lt begun
  have missing : size - taken.length = more + 1 := by omega
  have smaller : size - (taken ++ [first]).length = more := by
    rw [List.length_append, List.length_singleton]
    omega
  have bound : size ≤ taken.length + (first :: rest).length ↔
      size ≤ (taken ++ [first]).length + rest.length := by
    rw [List.length_append, List.length_singleton, List.length_cons]
    omega
  unfold completed
  rw [smaller, missing, List.take_succ_cons, List.all_cons, List.append_assoc, decide_eq_decide.mpr bound]
  cases plain first with
  | true => rfl
  | false => simp

/-- A sequence that is whole needs nothing more. -/
theorem completed_whole {taken : List α} (whole : taken.length = size) (stream : List α) :
    completed plain size taken stream = some taken := by
  simp [completed, whole]

/-- A scanner finds the sequence it has begun, and those of the stream. -/
theorem scan_finds (positive : 0 < size) (apart : ∀ element, star element = true → plain element = false)
    (taken : Option (List α)) (begun : ∀ sequence, taken = some sequence → sequence.length < size)
    (stream : List α) :
    (scan (fun _ => false) star plain size taken stream).2 =
      (taken.bind fun sequence => completed plain size sequence stream).toList ++
        sequencesIn star plain size stream := by
  induction stream generalizing taken with
  | nil =>
    cases taken with
    | none => rfl
    | some sequence =>
      have short : ¬ size ≤ sequence.length := Nat.not_le_of_lt (begun sequence rfl)
      have missing : completed plain size sequence [] = none := by
        simp [completed, short]
      rw [Option.bind_some, missing]
      rfl
  | cons first rest inductionHypothesis =>
    have nothing : (scan (fun _ => false) star plain size none rest).2 = sequencesIn star plain size rest := by
      rw [inductionHypothesis none (fun _ other => nomatch other)]
      rfl
    rw [sequencesIn_cons, scan]
    cases starred : star first with
    | true =>
      have later : completed plain size [] rest = sequenceAt star plain size (first :: rest) := by
        simp [completed, sequenceAt, starred]
      have cut : (taken.bind fun sequence => completed plain size sequence (first :: rest)) = none := by
        cases taken with
        | none => rfl
        | some sequence =>
          rw [Option.bind_some, completed_cons plain size (begun sequence rfl), apart first starred]
          rfl
      rw [scanStep_star _ star plain size taken rfl starred, cut,
        inductionHypothesis (some []) (by simpa using positive), Option.bind_some, later]
    | false =>
      have elsewhere : sequenceAt star plain size (first :: rest) = none := by
        simp [sequenceAt, starred]
      rw [elsewhere]
      cases taken with
      | none =>
        rw [scanStep_none _ star plain size starred, nothing]
        rfl
      | some sequence =>
        rw [Option.bind_some, completed_cons plain size (begun sequence rfl)]
        cases fits : plain first with
        | false =>
          rw [scanStep_breaks _ star plain size _ rfl starred fits, nothing]
          rfl
        | true =>
          rw [scanStep_takes _ star plain size sequence rfl starred fits]
          have longer : (sequence ++ [first]).length = sequence.length + 1 := List.length_append
          by_cases full : sequence.length + 1 = size
          · rw [if_pos full, if_pos rfl, completed_whole plain size (longer.trans full), nothing]
            rfl
          · have still : (sequence ++ [first]).length < size := by
              have before := begun sequence rfl
              omega
            rw [if_neg full, if_pos rfl, inductionHypothesis (some (sequence ++ [first]))
              (by rintro _ ⟨⟩; exact still)]
            rfl

/-- A scanner that has begun nothing finds the sequences of the stream. -/
theorem scan_sequencesIn (positive : 0 < size)
    (apart : ∀ element, star element = true → plain element = false) (stream : List α) :
    (scan ignored star plain size none stream).2 =
      sequencesIn star plain size (stream.filter fun element => !ignored element) := by
  rw [scan_ignored, scan_finds star plain size positive apart none (fun _ other => nomatch other)]
  rfl

/-- A scanner goes on where it stopped. -/
theorem scan_append (taken : Option (List α)) (first second : List α) :
    scan ignored star plain size taken (first ++ second) =
      ((scan ignored star plain size (scan ignored star plain size taken first).1 second).1,
        (scan ignored star plain size taken first).2 ++
          (scan ignored star plain size (scan ignored star plain size taken first).1 second).2) := by
  induction first generalizing taken with
  | nil => rfl
  | cons element rest inductionHypothesis =>
    rw [List.cons_append, scan, scan, inductionHypothesis, List.append_assoc]

end Scans

/-! ## Programs that scan -/

section Programs

variable {σ ι ρ β : Type}

/-- What the turns of a run give, up to the one at which it halts. -/
def gathered (step : σ → ι → Turn σ ρ) (gives : σ → ι → List β) : σ → List ι → List β
  | _, [] => []
  | state, input :: rest =>
    gives state input ++
      match step state input with
      | .more next => gathered step gives next rest
      | .halt _ _ => []

/-- Where no turn gives anything, a run gives nothing. -/
theorem gathered_nothing {step : σ → ι → Turn σ ρ} (gives : σ → ι → List β) (invariant : σ → Prop)
    (nothing : ∀ before input, invariant before → gives before input = [])
    (goes : ∀ before input after, invariant before → step before input = .more after → invariant after)
    (start : σ) (initial : invariant start) (inputs : List ι) : gathered step gives start inputs = [] := by
  induction inputs generalizing start with
  | nil => rfl
  | cons input rest inductionHypothesis =>
    rw [gathered, nothing start input initial]
    cases turn : step start input with
    | more next => exact inductionHypothesis next (goes start input next initial turn)
    | halt final result => rfl

variable {α : Type} (ignored star plain : α → Bool) (size : Nat)

/-- Where every turn that is admitted scans what it reads, a run scans all that it reads. -/
theorem gathered_scan {admits : σ → ι → Prop} {step : σ → ι → Turn σ ρ} (reads : σ → ι → List α)
    (finds : σ → ι → List (List α)) (invariant : σ → Prop) (taken : σ → Option (List α))
    (found : ∀ before input, invariant before → admits before input →
      finds before input = (scan ignored star plain size (taken before) (reads before input)).2)
    (goes : ∀ before input after, invariant before → admits before input → step before input = .more after →
      invariant after ∧ taken after = (scan ignored star plain size (taken before) (reads before input)).1)
    (start : σ) (initial : invariant start) (inputs : List ι) (admitted : Along admits step start inputs) :
    gathered step finds start inputs =
      (scan ignored star plain size (taken start) (gathered step reads start inputs)).2 := by
  induction inputs generalizing start with
  | nil => rfl
  | cons input rest inductionHypothesis =>
    obtain ⟨allowed, onward⟩ := admitted
    rw [gathered, gathered, scan_append, found start input initial allowed]
    cases turn : step start input with
    | more next =>
      rw [turn] at onward
      obtain ⟨kept, goesOn⟩ := goes start input next initial allowed turn
      rw [← goesOn]
      exact congrArg _ (inductionHypothesis next kept onward)
    | halt final result => rfl

end Programs

end Binkleyforce.Library
