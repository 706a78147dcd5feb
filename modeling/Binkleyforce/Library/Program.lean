import Mathlib.Logic.Basic

/-!
# Programs of atomic requests over a shared state

A program is a tree of atomic requests: it ends with a value, or issues one
request and continues with the reply. The same tree is read in two ways. `exec`
runs it alone against a handler. `Executes` lets the rest of the world move the
shared state before every request, within a relation `drift`. A third reading,
interleaving with other programs one request at a time, only needs the tree
itself.
-/

namespace Binkleyforce.Library

/-- A sequential program over the requests `Call`, each with its reply type. -/
inductive Program (Call : Type) (Reply : Call → Type) (α : Type) where
  | done (value : α)
  | call (request : Call) (next : Reply request → Program Call Reply α)

namespace Program

variable {Call : Type} {Reply : Call → Type} {α β σ : Type}

/-- Run the first program, then the one its value selects. -/
def bind : Program Call Reply α → (α → Program Call Reply β) → Program Call Reply β
  | done value, next => next value
  | call request resume, next => call request (fun reply => (resume reply).bind next)

instance : Monad (Program Call Reply) where
  pure := done
  bind := bind

@[simp] theorem done_bind (value : α) (next : α → Program Call Reply β) :
    (done value : Program Call Reply α).bind next = next value := rfl

@[simp] theorem call_bind (request : Call) (resume : Reply request → Program Call Reply α)
    (next : α → Program Call Reply β) :
    (call request resume).bind next = call request (fun reply => (resume reply).bind next) := rfl

/-- Answer one request: the new shared state and the reply. -/
abbrev Handler (Call : Type) (Reply : Call → Type) (σ : Type) :=
  σ → (request : Call) → σ × Reply request

/-- Run the program alone. -/
def exec (handler : Handler Call Reply σ) : Program Call Reply α → σ → σ × α
  | done value, state => (state, value)
  | call request next, state =>
    exec handler (next (handler state request).2) (handler state request).1

@[simp] theorem exec_done (handler : Handler Call Reply σ) (value : α) (state : σ) :
    exec handler (done value) state = (state, value) := rfl

@[simp] theorem exec_call (handler : Handler Call Reply σ) (request : Call)
    (next : Reply request → Program Call Reply α) (state : σ) :
    exec handler (call request next) state =
      exec handler (next (handler state request).2) (handler state request).1 := rfl

/-- Sequencing runs the second program where the first one left the state. -/
theorem exec_bind (handler : Handler Call Reply σ) (program : Program Call Reply α)
    (next : α → Program Call Reply β) (state : σ) :
    exec handler (program.bind next) state =
      exec handler (next (exec handler program state).2) (exec handler program state).1 := by
  induction program generalizing state with
  | done value => rfl
  | call request resume inductionHypothesis =>
    simp only [call_bind, exec_call]
    exact inductionHypothesis _ _

/-- The program can finish with this state and value when the world may move
the state by `drift` before each request. -/
inductive Executes (drift : σ → σ → Prop) (handler : Handler Call Reply σ) :
    Program Call Reply α → σ → σ → α → Prop where
  | done (value : α) (state : σ) : Executes drift handler (done value) state state value
  | call (request : Call) (next : Reply request → Program Call Reply α)
      (state moved final : σ) (value : α) (drifted : drift state moved)
      (rest : Executes drift handler (next (handler moved request).2)
        (handler moved request).1 final value) :
      Executes drift handler (call request next) state final value

/-- In a world that does not move, a program does exactly what `exec` computes. -/
theorem executes_still_iff (handler : Handler Call Reply σ) (program : Program Call Reply α)
    (state final : σ) (value : α) :
    Executes (fun before after => before = after) handler program state final value ↔
      exec handler program state = (final, value) := by
  constructor
  · intro executed
    induction executed with
    | done value state => rfl
    | call request next state moved final value drifted rest inductionHypothesis =>
      subst drifted
      simpa only [exec_call] using inductionHypothesis
  · intro computed
    induction program generalizing state with
    | done result =>
      obtain ⟨rfl, rfl⟩ := Prod.mk.inj computed
      exact .done _ _
    | call request next inductionHypothesis =>
      exact .call request next state state final value rfl
        (inductionHypothesis _ _ (by simpa only [exec_call] using computed))

/-- A world that may move further allows every execution that a quieter one
does. -/
theorem executes_mono {quiet drift : σ → σ → Prop} {handler : Handler Call Reply σ}
    {program : Program Call Reply α} {state final : σ} {value : α}
    (wider : ∀ before after, quiet before after → drift before after)
    (executed : Executes quiet handler program state final value) :
    Executes drift handler program state final value := by
  induction executed with
  | done value state => exact .done value state
  | call request next state moved final value drifted _ inductionHypothesis =>
    exact .call request next state moved final value (wider _ _ drifted) inductionHypothesis

/-- An execution of a sequence splits at the point where the first program
ends. -/
theorem executes_bind (drift : σ → σ → Prop) (handler : Handler Call Reply σ)
    (program : Program Call Reply α) (next : α → Program Call Reply β) (state final : σ)
    (result : β) (executed : Executes drift handler (program.bind next) state final result) :
    ∃ middle value, Executes drift handler program state middle value ∧
      Executes drift handler (next value) middle final result := by
  induction program generalizing state with
  | done value => exact ⟨state, value, .done value state, executed⟩
  | call request resume inductionHypothesis =>
    cases executed with
    | call _ _ _ moved _ _ drifted rest =>
      obtain ⟨middle, value, before, after⟩ := inductionHypothesis _ _ rest
      exact ⟨middle, value, .call request resume state moved middle value drifted before, after⟩

/-- A triple over all executions: from the precondition, whatever the world does
between requests, the program ends in the postcondition of its value. -/
def Triple (drift : σ → σ → Prop) (handler : Handler Call Reply σ) (pre : σ → Prop)
    (program : Program Call Reply α) (post : α → σ → Prop) : Prop :=
  ∀ state final value, pre state → Executes drift handler program state final value →
    post value final

section Rules

variable {drift : σ → σ → Prop} {handler : Handler Call Reply σ} {pre : σ → Prop}

/-- The rule of a finished program. -/
theorem triple_done {post : α → σ → Prop} (value : α)
    (holds : ∀ state, pre state → post value state) :
    Triple drift handler pre (done value) post := by
  intro state final result initial executed
  cases executed with
  | done => exact holds state initial

/-- The rule of a request: the precondition is stable, and the answer makes a
precondition of the rest. -/
theorem triple_call {post : α → σ → Prop} (request : Call)
    (next : Reply request → Program Call Reply α) (middle : Reply request → σ → Prop)
    (stable : ∀ before after, drift before after → pre before → pre after)
    (answered : ∀ state, pre state → middle (handler state request).2 (handler state request).1)
    (rest : ∀ reply, Triple drift handler (middle reply) (next reply) post) :
    Triple drift handler pre (call request next) post := by
  intro state final value initial executed
  cases executed with
  | call _ _ _ moved _ _ drifted onward =>
    exact rest _ _ final value (answered moved (stable state moved drifted initial)) onward

/-- The rule of sequencing. -/
theorem triple_bind {post : β → σ → Prop} (program : Program Call Reply α)
    (next : α → Program Call Reply β) (middle : α → σ → Prop)
    (first : Triple drift handler pre program middle)
    (second : ∀ value, Triple drift handler (middle value) (next value) post) :
    Triple drift handler pre (program.bind next) post := by
  intro state final result initial executed
  obtain ⟨between, value, before, after⟩ := executes_bind _ _ _ _ _ _ _ executed
  exact second value between final result (first state between value initial before) after

/-- The rule of consequence. -/
theorem triple_weaken {strong : σ → Prop} {post weak : α → σ → Prop}
    {program : Program Call Reply α} (triple : Triple drift handler pre program post)
    (stronger : ∀ state, strong state → pre state)
    (weaker : ∀ value state, post value state → weak value state) :
    Triple drift handler strong program weak :=
  fun state final value initial executed =>
    weaker value final (triple state final value (stronger state initial) executed)

/-- A fact that does not mention the state may be assumed. -/
theorem triple_pure {fact : Prop} {program : Program Call Reply α} {post : α → σ → Prop}
    (triple : fact → Triple drift handler pre program post) :
    Triple drift handler (fun state => pre state ∧ fact) program post :=
  fun state final value initial executed => triple initial.2 state final value initial.1 executed

/-- Every request the program may issue satisfies the condition. -/
def Requests (condition : Call → Prop) : Program Call Reply α → Prop
  | done _ => True
  | call request next => condition request ∧ ∀ reply, Requests condition (next reply)

/-- The requests of a sequence are those of its parts. -/
theorem requests_bind (condition : Call → Prop) (program : Program Call Reply α)
    (next : α → Program Call Reply β) (first : Requests condition program)
    (second : ∀ value, Requests condition (next value)) :
    Requests condition (program.bind next) := by
  induction program with
  | done value => exact second value
  | call request resume inductionHypothesis =>
    exact ⟨first.1, fun reply => inductionHypothesis reply (first.2 reply)⟩

/-- The program can end with the value, whatever is answered. -/
inductive Yields : Program Call Reply α → α → Prop where
  | done (value : α) : Yields (done value) value
  | call (request : Call) (next : Reply request → Program Call Reply α) (reply : Reply request)
      (value : α) (rest : Yields (next reply) value) : Yields (call request next) value

/-- A finished program yields its value. -/
@[simp] theorem yields_done (value result : α) :
    Yields (done value : Program Call Reply α) result ↔ result = value := by
  constructor
  · rintro ⟨⟩
    rfl
  · rintro rfl
    exact .done _

/-- A request yields what one of the answers leads to. -/
@[simp] theorem yields_call (request : Call) (next : Reply request → Program Call Reply α)
    (result : α) : Yields (call request next) result ↔ ∃ reply, Yields (next reply) result := by
  constructor
  · rintro ⟨⟩
    rename_i reply rest
    exact ⟨reply, rest⟩
  · rintro ⟨reply, rest⟩
    exact .call request next reply result rest

/-- A sequence yields what its second part does after a value of the first. -/
theorem yields_bind (program : Program Call Reply α) (next : α → Program Call Reply β)
    (result : β) :
    Yields (program.bind next) result ↔ ∃ value, Yields program value ∧ Yields (next value) result := by
  induction program with
  | done value => simp
  | call request resume inductionHypothesis =>
    simp only [call_bind, yields_call, inductionHypothesis]
    constructor
    · rintro ⟨reply, value, first, second⟩
      exact ⟨value, ⟨reply, first⟩, second⟩
    · rintro ⟨value, ⟨reply, first⟩, second⟩
      exact ⟨reply, value, first, second⟩

/-- A program run alone ends with one of its values. -/
theorem yields_exec (handler : Handler Call Reply σ) (program : Program Call Reply α) (state : σ) :
    Yields program (exec handler program state).2 := by
  induction program generalizing state with
  | done value => exact .done value
  | call request next inductionHypothesis => exact .call request next _ _ (inductionHypothesis _ _)

/-- The requests of a sequence are those of its parts, the second from what the first
yields. -/
theorem requests_bind_iff (condition : Call → Prop) (program : Program Call Reply α)
    (next : α → Program Call Reply β) :
    Requests condition (program.bind next) ↔
      Requests condition program ∧ ∀ value, Yields program value → Requests condition (next value) := by
  induction program with
  | done value => simp [Requests]
  | call request resume inductionHypothesis =>
    simp only [call_bind, Requests, inductionHypothesis, yields_call]
    constructor
    · rintro ⟨here, rest⟩
      exact ⟨⟨here, fun reply => (rest reply).1⟩, fun value ⟨reply, yielded⟩ =>
        (rest reply).2 value yielded⟩
    · rintro ⟨⟨here, first⟩, second⟩
      exact ⟨here, fun reply => ⟨first reply, fun value yielded => second value ⟨reply, yielded⟩⟩⟩

/-- All requests satisfy the condition and all values the postcondition, whatever is
answered. -/
def Ensures (condition : Call → Prop) (post : α → Prop) (program : Program Call Reply α) : Prop :=
  Requests condition program ∧ ∀ value, Yields program value → post value

/-- A finished program. -/
@[simp] theorem ensures_done (condition : Call → Prop) (post : α → Prop) (value : α) :
    Ensures condition post (done value : Program Call Reply α) ↔ post value := by
  simp [Ensures, Requests]

/-- A request, with every answer. -/
theorem ensures_call (condition : Call → Prop) (post : α → Prop) (request : Call)
    (next : Reply request → Program Call Reply α) :
    Ensures condition post (call request next) ↔
      condition request ∧ ∀ reply, Ensures condition post (next reply) := by
  unfold Ensures
  simp only [Requests, yields_call]
  constructor
  · rintro ⟨⟨here, rest⟩, values⟩
    exact ⟨here, fun reply => ⟨rest reply, fun value yielded => values value ⟨reply, yielded⟩⟩⟩
  · rintro ⟨here, rest⟩
    exact ⟨⟨here, fun reply => (rest reply).1⟩, fun value ⟨reply, yielded⟩ =>
      (rest reply).2 value yielded⟩

/-- A sequence: what the first part ensures is assumed by the second. -/
theorem ensures_bind {condition : Call → Prop} {middle : α → Prop} {post : β → Prop}
    {program : Program Call Reply α} {next : α → Program Call Reply β}
    (first : Ensures condition middle program)
    (second : ∀ value, middle value → Ensures condition post (next value)) :
    Ensures condition post (program.bind next) := by
  refine ⟨(requests_bind_iff _ _ _).mpr ⟨first.1, fun value yielded =>
    (second value (first.2 value yielded)).1⟩, ?_⟩
  intro result yielded
  obtain ⟨value, before, after⟩ := (yields_bind _ _ _).mp yielded
  exact (second value (first.2 value before)).2 result after

/-- A weaker postcondition is ensured too. -/
theorem ensures_weaken {condition : Call → Prop} {strong weak : α → Prop}
    {program : Program Call Reply α} (ensured : Ensures condition strong program)
    (weaker : ∀ value, strong value → weak value) : Ensures condition weak program :=
  ⟨ensured.1, fun value yielded => weaker value (ensured.2 value yielded)⟩

section Obeying

variable {γ : Type} (admits : γ → Call → Prop)
  (track : γ → (request : Call) → Reply request → γ)

/-- A ghost follows the requests and the answers. Every request is admitted by the ghost
at that point, and at the end the postcondition holds of the value and the ghost. -/
def Obeys (post : α → γ → Prop) : γ → Program Call Reply α → Prop
  | ghost, .done value => post value ghost
  | ghost, .call request next =>
    admits ghost request ∧ ∀ reply, Obeys post (track ghost request reply) (next reply)

variable {admits track}

/-- The second part of a sequence goes on with the ghost the first part leaves. -/
theorem obeys_bind {middle : α → γ → Prop} {post : β → γ → Prop} {ghost : γ}
    {program : Program Call Reply α} {next : α → Program Call Reply β}
    (first : Obeys admits track middle ghost program)
    (second : ∀ value ghost, middle value ghost → Obeys admits track post ghost (next value)) :
    Obeys admits track post ghost (program.bind next) := by
  induction program generalizing ghost with
  | done value => exact second value ghost first
  | call request resume inductionHypothesis =>
    exact ⟨first.1, fun reply => inductionHypothesis reply (first.2 reply)⟩

/-- A weaker postcondition is met too. -/
theorem obeys_weaken {strong weak : α → γ → Prop} {ghost : γ} {program : Program Call Reply α}
    (obeys : Obeys admits track strong ghost program)
    (weaker : ∀ value ghost, strong value ghost → weak value ghost) :
    Obeys admits track weak ghost program := by
  induction program generalizing ghost with
  | done value => exact weaker value ghost obeys
  | call request resume inductionHypothesis =>
    exact ⟨obeys.1, fun reply => inductionHypothesis reply (obeys.2 reply)⟩

/-- Requests that are always admitted and leave the ghost alone. -/
theorem obeys_of_ensures {condition : Call → Prop} {post : α → Prop} {ghost : γ}
    {program : Program Call Reply α} (ensured : Ensures condition post program)
    (admitted : ∀ request, condition request → admits ghost request)
    (still : ∀ request reply, condition request → track ghost request reply = ghost) :
    Obeys admits track (fun value after => post value ∧ after = ghost) ghost program := by
  induction program with
  | done value => exact ⟨(ensures_done _ _ _).mp ensured, rfl⟩
  | call request resume inductionHypothesis =>
    obtain ⟨here, rest⟩ := (ensures_call _ _ _ _).mp ensured
    refine ⟨admitted request here, fun reply => ?_⟩
    rw [still request reply here]
    exact inductionHypothesis reply (rest reply)

/-- What is ensured in any case may be added to the postcondition. -/
theorem obeys_and {condition : Call → Prop} {post : α → γ → Prop} {always : α → Prop} {ghost : γ}
    {program : Program Call Reply α} (obeys : Obeys admits track post ghost program)
    (ensured : Ensures condition always program) :
    Obeys admits track (fun value after => post value after ∧ always value) ghost program := by
  induction program generalizing ghost with
  | done value => exact ⟨obeys, (ensures_done _ _ _).mp ensured⟩
  | call request resume inductionHypothesis =>
    exact ⟨obeys.1, fun reply => inductionHypothesis reply (obeys.2 reply)
      (((ensures_call _ _ _ _).mp ensured).2 reply)⟩

end Obeying

/-- Requests that keep a stable property keep it through the whole program. -/
theorem triple_requests (condition : Call → Prop) (program : Program Call Reply α)
    (only : Requests condition program)
    (stable : ∀ before after, drift before after → pre before → pre after)
    (answered : ∀ state request, condition request → pre state → pre (handler state request).1) :
    Triple drift handler pre program (fun _ => pre) := by
  induction program with
  | done value => exact triple_done value (fun _ initial => initial)
  | call request next inductionHypothesis =>
    exact triple_call request next (fun _ => pre) stable
      (fun state initial => answered state request only.1 initial)
      (fun reply => inductionHypothesis reply (only.2 reply))

/-- A program run alone is one of its executions, in any world that may stand
still. -/
theorem triple_exec {post : α → σ → Prop} {program : Program Call Reply α}
    (triple : Triple drift handler pre program post) (still : ∀ state, drift state state)
    (state : σ) (initial : pre state) :
    post (exec handler program state).2 (exec handler program state).1 := by
  have alone := (executes_still_iff handler program state _ _).mpr
    (show exec handler program state = (_, _) from rfl)
  refine triple state _ _ initial (executes_mono (fun before after same => ?_) alone)
  exact same ▸ still before

end Rules

section Answers

variable (answers : σ → (request : Call) → Reply request → σ → Prop)

/-- The program runs in a world that may answer a request in several ways. -/
inductive Answered : Program Call Reply α → σ → α → σ → Prop where
  | done (value : α) (state : σ) : Answered (done value) state value state
  | call (request : Call) (next : Reply request → Program Call Reply α) (reply : Reply request)
      (state middle final : σ) (value : α) (answer : answers state request reply middle)
      (rest : Answered (next reply) middle value final) : Answered (call request next) state value final

variable {answers}

/-- A finished program changes nothing. -/
theorem answered_done (result value : α) (state final : σ) :
    Answered answers (done result : Program Call Reply α) state value final ↔ value = result ∧ final = state := by
  constructor
  · rintro ⟨⟩
    exact ⟨rfl, rfl⟩
  · rintro ⟨rfl, rfl⟩
    exact .done _ _

/-- A request is answered, and the program goes on with the reply. -/
theorem answered_call (request : Call) (next : Reply request → Program Call Reply α) (value : α)
    (state final : σ) :
    Answered answers (call request next) state value final ↔
      ∃ reply middle, answers state request reply middle ∧ Answered answers (next reply) middle value final := by
  constructor
  · intro answered
    cases answered with
    | call _ _ reply _ middle _ _ answer rest => exact ⟨reply, middle, answer, rest⟩
  · rintro ⟨reply, middle, answer, rest⟩
    exact .call request next reply state middle final value answer rest

/-- A sequence is run in two parts. -/
theorem answered_bind {program : Program Call Reply α} {next : α → Program Call Reply β} {result : β}
    {state final : σ} (answered : Answered answers (program.bind next) state result final) :
    ∃ value middle, Answered answers program state value middle ∧
      Answered answers (next value) middle result final := by
  induction program generalizing state with
  | done value => exact ⟨value, state, .done value state, answered⟩
  | call request resume inductionHypothesis =>
    obtain ⟨reply, between, answer, rest⟩ := (answered_call _ _ _ _ _).mp answered
    obtain ⟨value, middle, first, second⟩ := inductionHypothesis reply rest
    exact ⟨value, middle, .call request resume reply state between middle value answer first, second⟩

/-- What is answered to a program is something it yields. -/
theorem Answered.yields {program : Program Call Reply α} {value : α} {state final : σ}
    (answered : Answered answers program state value final) : Yields program value := by
  induction answered with
  | done value state => exact .done value
  | call request next reply _ _ _ value _ _ inductionHypothesis =>
    exact .call request next reply value inductionHypothesis

/-- What the answers to admitted requests keep, a program with such requests keeps. -/
theorem Answered.keeps {condition : Call → Prop} {invariant : σ → Prop} {program : Program Call Reply α}
    {value : α} {state final : σ} (answered : Answered answers program state value final)
    (only : Requests condition program)
    (kept : ∀ state request reply after, condition request → answers state request reply after →
      invariant state → invariant after)
    (holds : invariant state) : invariant final := by
  induction answered with
  | done value state => exact holds
  | call request next reply state middle final value answer _ inductionHypothesis =>
    exact inductionHypothesis (only.2 reply) (kept state request reply middle only.1 answer holds)

end Answers

end Program

end Binkleyforce.Library
