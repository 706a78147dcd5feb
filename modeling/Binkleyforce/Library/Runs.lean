import Mathlib.Data.List.Basic

/-!
# Runs of input-driven machines

A machine reads one input in each turn and either goes on with a new state or
halts with a final state and a result. A run feeds it a finite list of inputs;
every prefix of a run is again a run, so a property of all lists of inputs is a
property of every moment.

`Along` restricts a run to turns that a condition admits. The invariant rules
ask for one turn only and are used through it: what a turn preserves, a run
preserves, and a fact about the turns already taken may be carried as well.
-/

namespace Binkleyforce.Library

variable {σ ι ρ : Type}

/-- The outcome of a turn, or of a run: go on, or halt with a result. -/
inductive Turn (σ ρ : Type) where
  | more (state : σ)
  | halt (state : σ) (result : ρ)
  deriving DecidableEq

namespace Turn

/-- Continue with the next part of a turn unless this part halted. -/
def andThen (first : Turn σ ρ) (next : σ → Turn σ ρ) : Turn σ ρ :=
  match first with
  | more state => next state
  | halt state result => halt state result

@[simp] theorem more_andThen (state : σ) (next : σ → Turn σ ρ) :
    (more state).andThen next = next state := rfl

@[simp] theorem halt_andThen (state : σ) (result : ρ) (next : σ → Turn σ ρ) :
    (halt state result).andThen next = halt state result := rfl

/-- A turn in two parts goes on exactly when both parts do. -/
theorem andThen_more_iff (first : Turn σ ρ) (next : σ → Turn σ ρ) (after : σ) :
    first.andThen next = more after ↔ ∃ middle, first = more middle ∧ next middle = more after := by
  cases first with
  | more state => simp
  | halt state result => simp

/-- A turn in two parts halts where its first part halts, or else where the
second part does. -/
theorem andThen_halt_iff (first : Turn σ ρ) (next : σ → Turn σ ρ) (after : σ) (result : ρ) :
    first.andThen next = halt after result ↔
      first = halt after result ∨
        ∃ middle, first = more middle ∧ next middle = halt after result := by
  cases first with
  | more state => simp
  | halt state result => simp

/-- The property holds of the state the turn leaves, whether it halts or not. -/
def Leaves (property : σ → Prop) : Turn σ ρ → Prop
  | more state => property state
  | halt state _ => property state

instance decidableLeaves (property : σ → Prop) [DecidablePred property] :
    ∀ turn : Turn σ ρ, Decidable (turn.Leaves property)
  | more state => inferInstanceAs (Decidable (property state))
  | halt state _ => inferInstanceAs (Decidable (property state))

/-- What holds where the turn goes on, and what where it halts. -/
def Ends (going : σ → Prop) (halted : σ → ρ → Prop) : Turn σ ρ → Prop
  | more state => going state
  | halt state result => halted state result

instance decidableEnds (going : σ → Prop) [DecidablePred going] (halted : σ → ρ → Prop)
    [∀ state result, Decidable (halted state result)] :
    ∀ turn : Turn σ ρ, Decidable (turn.Ends going halted)
  | more state => inferInstanceAs (Decidable (going state))
  | halt state result => inferInstanceAs (Decidable (halted state result))

/-- Parts of a turn that keep a property compose. -/
theorem ends_andThen {first second : σ → Prop} {halted : σ → ρ → Prop} {turn : Turn σ ρ}
    {next : σ → Turn σ ρ} (left : turn.Ends first halted)
    (right : ∀ state, first state → (next state).Ends second halted) :
    (turn.andThen next).Ends second halted := by
  cases turn with
  | more state => exact right state left
  | halt state result => exact left

end Turn

/-- Feed a list of inputs to the machine, stopping where it halts. -/
def run (step : σ → ι → Turn σ ρ) : σ → List ι → Turn σ ρ
  | state, [] => .more state
  | state, input :: rest => (step state input).andThen (fun next => run step next rest)

@[simp] theorem run_nil (step : σ → ι → Turn σ ρ) (state : σ) : run step state [] = .more state :=
  rfl

theorem run_cons (step : σ → ι → Turn σ ρ) (state : σ) (input : ι) (rest : List ι) :
    run step state (input :: rest) = (step state input).andThen (fun next => run step next rest) :=
  rfl

/-- Running a concatenation is running its parts in turn. -/
theorem run_append (step : σ → ι → Turn σ ρ) (state : σ) (first second : List ι) :
    run step state (first ++ second) =
      (run step state first).andThen (fun next => run step next second) := by
  induction first generalizing state with
  | nil => rfl
  | cons input rest inductionHypothesis =>
    simp only [List.cons_append, run_cons]
    cases step state input with
    | more next => exact inductionHypothesis next
    | halt next result => rfl

/-- A run that goes on after one more input took that input where it stood. -/
theorem run_snoc_more (step : σ → ι → Turn σ ρ) (state before after : σ) (past : List ι)
    (input : ι) (reached : run step state past = .more before)
    (advanced : step before input = .more after) :
    run step state (past ++ [input]) = .more after := by
  rw [run_append, reached]
  simp only [Turn.more_andThen, run_cons, advanced, run_nil]

/-- Every turn taken by the run starts in a state and reads an input that the
condition admits. The turn at which the machine halts is included. -/
def Along (admits : σ → ι → Prop) (step : σ → ι → Turn σ ρ) : σ → List ι → Prop
  | _, [] => True
  | state, input :: rest =>
    admits state input ∧
      match step state input with
      | .more next => Along admits step next rest
      | .halt _ _ => True

/-- Some turn of the run satisfies the predicate: the inputs split at it, and
the run reaches the state in which it is taken. -/
def Passes (step : σ → ι → Turn σ ρ) (start : σ) (inputs : List ι)
    (turn : List ι → σ → ι → Prop) : Prop :=
  ∃ past input rest before, inputs = past ++ input :: rest ∧
    run step start past = .more before ∧ turn past before input

/-- A turn that was passed stays passed when the run is extended. -/
theorem passes_append (step : σ → ι → Turn σ ρ) (start : σ) (inputs later : List ι)
    (turn : List ι → σ → ι → Prop) (passed : Passes step start inputs turn) :
    Passes step start (inputs ++ later) turn := by
  obtain ⟨past, input, rest, before, split, reached, taken⟩ := passed
  exact ⟨past, input, rest ++ later, before, by simp [split], reached, taken⟩

/-- The turn just taken is passed. -/
theorem passes_last (step : σ → ι → Turn σ ρ) (start before : σ) (past : List ι) (input : ι)
    (turn : List ι → σ → ι → Prop) (reached : run step start past = .more before)
    (taken : turn past before input) : Passes step start (past ++ [input]) turn :=
  ⟨past, input, [], before, rfl, reached, taken⟩

/-- The general invariant rule. The invariant may mention the inputs consumed
so far; each admitted turn preserves it, and a halting turn establishes the
postcondition of the inputs consumed, the halting one included.

Induct over the remaining inputs, moving one input at a time from the remaining
list to the consumed one. -/
theorem run_history {admits : σ → ι → Prop} {step : σ → ι → Turn σ ρ} {start : σ}
    (invariant : List ι → σ → Prop) (post : List ι → σ → ρ → Prop)
    (advances : ∀ past before input after, run step start past = .more before →
      invariant past before → admits before input → step before input = .more after →
      invariant (past ++ [input]) after)
    (halts : ∀ past before input after result, run step start past = .more before →
      invariant past before → admits before input → step before input = .halt after result →
      post (past ++ [input]) after result)
    (initial : invariant [] start) (inputs : List ι) (admitted : Along admits step start inputs) :
    (run step start inputs).Ends (invariant inputs)
      (fun final result => ∃ past rest, inputs = past ++ rest ∧ post past final result) := by
  have general : ∀ (rest past : List ι) (middle : σ), run step start past = .more middle →
      invariant past middle → Along admits step middle rest →
      (run step middle rest).Ends (invariant (past ++ rest)) (fun final result =>
        ∃ consumed later, past ++ rest = consumed ++ later ∧ post consumed final result) := by
    intro rest
    induction rest with
    | nil =>
      intro past middle _ kept _
      simpa only [run_nil, List.append_nil, Turn.Ends] using kept
    | cons input rest inductionHypothesis =>
      intro past middle reached kept along
      obtain ⟨allowed, onward⟩ := along
      rw [run_cons]
      cases taken : step middle input with
      | more next =>
        rw [taken] at onward
        have extended : run step start (past ++ [input]) = .more next :=
          run_snoc_more step start middle next past input reached taken
        have still := inductionHypothesis (past ++ [input]) next extended
          (advances past middle input next reached kept allowed taken) onward
        simpa only [Turn.more_andThen, List.append_assoc, List.singleton_append] using still
      | halt next result =>
        have ended := halts past middle input next result reached kept allowed taken
        exact ⟨past ++ [input], rest, by simp, ended⟩
  simpa only [List.nil_append] using general inputs [] start rfl initial admitted

/-- The plain invariant rule: what every admitted turn keeps holds of whatever
state the run leaves. -/
theorem run_invariant {admits : σ → ι → Prop} {step : σ → ι → Turn σ ρ}
    (invariant : σ → Prop) (post : σ → ρ → Prop)
    (advances : ∀ before input after, invariant before → admits before input →
      step before input = .more after → invariant after)
    (halts : ∀ before input after result, invariant before → admits before input →
      step before input = .halt after result → post after result)
    (start : σ) (initial : invariant start) (inputs : List ι)
    (admitted : Along admits step start inputs) :
    (run step start inputs).Ends invariant post := by
  have carried : (run step start inputs).Ends invariant (fun final result =>
      ∃ past rest, inputs = past ++ rest ∧ post final result) :=
    run_history (fun _ => invariant) (fun _ => post)
      (fun _ before input after _ => advances before input after)
      (fun _ before input after result _ => halts before input after result)
      initial inputs admitted
  cases ended : run step start inputs with
  | more final => rwa [ended] at carried
  | halt final result =>
    rw [ended] at carried
    obtain ⟨_, _, _, holds⟩ := carried
    exact holds

/-- What every admitted turn keeps holds in every state the run reaches. -/
theorem run_reaches {admits : σ → ι → Prop} {step : σ → ι → Turn σ ρ} (invariant : σ → Prop)
    (advances : ∀ before input after, invariant before → admits before input →
      step before input = .more after → invariant after)
    (start : σ) (initial : invariant start) (inputs : List ι)
    (admitted : Along admits step start inputs) (final : σ)
    (reached : run step start inputs = .more final) : invariant final := by
  have carried := run_invariant invariant (fun _ _ => True) advances
    (fun _ _ _ _ _ _ _ => trivial) start initial inputs admitted
  rwa [reached] at carried

/-- A machine halts if every turn at which it goes on takes something from a measure, on
more inputs than the measure at the start. -/
theorem run_halts {step : σ → ι → Turn σ ρ} (invariant : σ → Prop) (measure : σ → Nat)
    (decreases : ∀ before input after, invariant before → step before input = .more after →
      invariant after ∧ measure after < measure before)
    (start : σ) (initial : invariant start) (inputs : List ι)
    (enough : measure start < inputs.length) :
    ∃ final result, run step start inputs = .halt final result := by
  induction inputs generalizing start with
  | nil => exact absurd enough (Nat.not_lt_zero _)
  | cons input rest inductionHypothesis =>
    rw [run_cons]
    cases taken : step start input with
    | more next =>
      obtain ⟨kept, less⟩ := decreases start input next initial taken
      rw [List.length_cons] at enough
      exact inductionHypothesis next kept (by omega)
    | halt next result => exact ⟨next, result, rfl⟩

/-- A run ends in a failure exactly where a turn of it is not admitted, if admitted
turns keep an invariant and do not fail, and all others fail. -/
theorem run_fails_iff {admits : σ → ι → Prop} {step : σ → ι → Turn σ ρ} (invariant : σ → Prop)
    (failure : ρ)
    (keeps : ∀ before input, invariant before → admits before input →
      (step before input).Ends invariant (fun _ result => result ≠ failure))
    (breaks : ∀ before input, invariant before → ¬ admits before input →
      ∃ final, step before input = .halt final failure)
    (start : σ) (initial : invariant start) (inputs : List ι) :
    (∃ final, run step start inputs = .halt final failure) ↔ ¬ Along admits step start inputs := by
  induction inputs generalizing start with
  | nil => simp [run_nil, Along]
  | cons input rest inductionHypothesis =>
    simp only [run_cons, Along]
    by_cases allowed : admits start input
    · have kept := keeps start input initial allowed
      cases taken : step start input with
      | more next =>
        rw [taken] at kept
        simpa only [Turn.more_andThen, allowed, true_and] using inductionHypothesis next kept
      | halt next result =>
        rw [taken] at kept
        simp only [Turn.Ends] at kept
        simp [Turn.andThen, allowed, kept]
    · obtain ⟨final, taken⟩ := breaks start input initial allowed
      rw [taken]
      simp [Turn.andThen, allowed]

/-- A run along a condition that reaches a turn satisfies it there, and so did
the run up to that turn. -/
theorem along_at (admits : σ → ι → Prop) (step : σ → ι → Turn σ ρ) (start before : σ)
    (past rest : List ι) (input : ι) (along : Along admits step start (past ++ input :: rest))
    (reached : run step start past = .more before) :
    Along admits step start past ∧ admits before input := by
  induction past generalizing start with
  | nil =>
    obtain rfl : start = before := Turn.more.inj reached
    exact ⟨trivial, along.1⟩
  | cons first past inductionHypothesis =>
    obtain ⟨allowed, onward⟩ := along
    rw [run_cons] at reached
    simp only [Along]
    cases taken : step start first with
    | more next =>
      rw [taken] at onward reached
      obtain ⟨earlier, here⟩ := inductionHypothesis next onward reached
      exact ⟨⟨allowed, earlier⟩, here⟩
    | halt next result =>
      rw [taken] at reached
      cases reached

/-- A condition that holds along a run holds along the part of it that comes last. -/
theorem along_rest (admits : σ → ι → Prop) (step : σ → ι → Turn σ ρ) (start middle : σ)
    (past rest : List ι) (along : Along admits step start (past ++ rest))
    (reached : run step start past = .more middle) : Along admits step middle rest := by
  induction past generalizing start with
  | nil =>
    obtain rfl : start = middle := Turn.more.inj reached
    exact along
  | cons first past inductionHypothesis =>
    obtain ⟨_, onward⟩ := along
    rw [run_cons] at reached
    cases taken : step start first with
    | more next =>
      rw [taken] at onward reached
      exact inductionHypothesis next onward reached
    | halt next result =>
      rw [taken] at reached
      cases reached

/-- A condition that holds along a run holds along the part of it that comes
first. -/
theorem along_front (admits : σ → ι → Prop) (step : σ → ι → Turn σ ρ) (start : σ)
    (past rest : List ι) (along : Along admits step start (past ++ rest)) :
    Along admits step start past := by
  induction past generalizing start with
  | nil => trivial
  | cons first past inductionHypothesis =>
    obtain ⟨allowed, onward⟩ := along
    refine ⟨allowed, ?_⟩
    cases taken : step start first with
    | more next =>
      rw [taken] at onward
      exact inductionHypothesis next onward
    | halt next result => trivial

/-- Two conditions that hold along a run hold together. -/
theorem along_and (first second : σ → ι → Prop) (step : σ → ι → Turn σ ρ) (start : σ)
    (inputs : List ι) (left : Along first step start inputs)
    (right : Along second step start inputs) :
    Along (fun state input => first state input ∧ second state input) step start inputs := by
  induction inputs generalizing start with
  | nil => trivial
  | cons input rest inductionHypothesis =>
    obtain ⟨leftHere, leftRest⟩ := left
    obtain ⟨rightHere, rightRest⟩ := right
    refine ⟨⟨leftHere, rightHere⟩, ?_⟩
    cases taken : step start input with
    | more next =>
      rw [taken] at leftRest rightRest
      exact inductionHypothesis next leftRest rightRest
    | halt next result => trivial

/-- A weaker condition holds along the run as well. -/
theorem along_mono {admits weaker : σ → ι → Prop} {step : σ → ι → Turn σ ρ}
    (implies : ∀ state input, admits state input → weaker state input) (start : σ)
    (inputs : List ι) (along : Along admits step start inputs) :
    Along weaker step start inputs := by
  induction inputs generalizing start with
  | nil => trivial
  | cons input rest inductionHypothesis =>
    obtain ⟨allowed, onward⟩ := along
    refine ⟨implies start input allowed, ?_⟩
    cases taken : step start input with
    | more next =>
      rw [taken] at onward
      exact inductionHypothesis next onward
    | halt next result => trivial

/-- A decidable condition is decided along a run. -/
instance decidableAlong (admits : σ → ι → Prop) [∀ state input, Decidable (admits state input)]
    (step : σ → ι → Turn σ ρ) : ∀ start inputs, Decidable (Along admits step start inputs)
  | _, [] => .isTrue trivial
  | start, input :: rest =>
    have : Decidable (match step start input with
        | .more next => Along admits step next rest
        | .halt _ _ => True) :=
      match step start input with
      | .more next => decidableAlong admits step next rest
      | .halt _ _ => .isTrue trivial
    inferInstanceAs (Decidable (_ ∧ _))

/-- A condition on the inputs that holds of all of them admits the run. -/
theorem along_of_mem (admits : σ → ι → Prop) (step : σ → ι → Turn σ ρ) (start : σ) (inputs : List ι)
    (always : ∀ input ∈ inputs, ∀ state, admits state input) : Along admits step start inputs := by
  induction inputs generalizing start with
  | nil => trivial
  | cons input rest inductionHypothesis =>
    refine ⟨always input List.mem_cons_self start, ?_⟩
    cases step start input with
    | more next => exact inductionHypothesis next fun later member => always later (List.mem_cons_of_mem input member)
    | halt next result => trivial

/-- A condition that always holds admits every run. -/
theorem along_of_forall (admits : σ → ι → Prop) (step : σ → ι → Turn σ ρ)
    (always : ∀ state input, admits state input) (start : σ) (inputs : List ι) :
    Along admits step start inputs :=
  along_of_mem admits step start inputs fun input _ state => always state input

section Beside

variable {γ : Type} (step : σ → ι → Turn σ ρ) (track : γ → σ → ι → γ)

/-- The machine with a ghost beside its state, which every turn that goes on brings up
to date. -/
def beside (both : γ × σ) (input : ι) : Turn (γ × σ) ρ :=
  match step both.2 input with
  | .more next => .more (track both.1 both.2 input, next)
  | .halt final result => .halt (both.1, final) result

/-- The ghost does not change the run. -/
theorem run_beside (ghost : γ) (start : σ) (inputs : List ι) :
    (∀ last final, run (beside step track) (ghost, start) inputs = .more (last, final) →
      run step start inputs = .more final) ∧
    ∀ final, run step start inputs = .more final →
      ∃ last, run (beside step track) (ghost, start) inputs = .more (last, final) := by
  induction inputs generalizing ghost start with
  | nil =>
    constructor
    · rintro last final reached
      cases reached
      rfl
    · rintro final reached
      cases reached
      exact ⟨ghost, rfl⟩
  | cons input rest inductionHypothesis =>
    rw [run_cons, run_cons]
    unfold beside
    cases taken : step start input with
    | halt final result =>
      constructor
      · intro _ _ reached
        cases reached
      · intro _ reached
        cases reached
    | more next => exact inductionHypothesis (track ghost start input) next

end Beside

end Binkleyforce.Library
