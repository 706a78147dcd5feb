import Binkleyforce.Library.Runs

/-!
# Two parties

Two machines of one kind. In a turn one of them moves, and what it does may depend on
what the other one has said so far; the other one stays as it is. What binds the two,
seen from either side, holds in every state reached if it survives the move of the side
it is seen from and the same bond can be seen from the other side.
-/

namespace Binkleyforce.Library

/-- One of the two sides. -/
inductive Side where
  | near
  | far
  deriving DecidableEq, Repr

/-- The opposite side. -/
def Side.other : Side → Side
  | near => far
  | far => near

@[simp] theorem Side.other_other (side : Side) : side.other.other = side := by
  cases side <;> rfl

/-- Both parties. -/
structure Peers (σ : Type) where
  near : σ
  far : σ
  deriving DecidableEq

namespace Peers

variable {σ ι ρ : Type}

/-- The party on a side. -/
def on (peers : Peers σ) : Side → σ
  | .near => peers.near
  | .far => peers.far

/-- Replace the party on a side. -/
def put (peers : Peers σ) (party : σ) : Side → Peers σ
  | .near => { peers with near := party }
  | .far => { peers with far := party }

@[simp] theorem on_put (peers : Peers σ) (party : σ) (side : Side) :
    (peers.put party side).on side = party := by
  cases side <;> rfl

@[simp] theorem on_put_other (peers : Peers σ) (party : σ) (side : Side) :
    (peers.put party side).on side.other = peers.on side.other := by
  cases side <;> rfl

/-- The party on one side moves. -/
def turn (step : Side → σ → σ → ι → Turn σ ρ) (peers : Peers σ) (input : Side × ι) :
    Turn (Peers σ) ρ :=
  match step input.1 (peers.on input.1) (peers.on input.1.other) input.2 with
  | .more party => .more (peers.put party input.1)
  | .halt party result => .halt (peers.put party input.1) result

/-- A condition on the party that moves and the other one. -/
def Moves (admits : Side → σ → σ → ι → Prop) (peers : Peers σ) (input : Side × ι) : Prop :=
  admits input.1 (peers.on input.1) (peers.on input.1.other) input.2

instance (admits : Side → σ → σ → ι → Prop)
    [∀ side mine other input, Decidable (admits side mine other input)] (peers : Peers σ)
    (input : Side × ι) : Decidable (Moves admits peers input) := by
  unfold Moves
  infer_instance

/-- A turn that goes on is a move of one party. -/
theorem turn_more (step : Side → σ → σ → ι → Turn σ ρ) (peers after : Peers σ) (input : Side × ι)
    (moved : turn step peers input = .more after) :
    ∃ party, step input.1 (peers.on input.1) (peers.on input.1.other) input.2 = .more party ∧
      after = peers.put party input.1 := by
  unfold turn at moved
  split at moved
  · rename_i party stepped
    injection moved with same
    exact ⟨party, stepped, same.symm⟩
  · cases moved

/-- What binds the two parties in every state reached. -/
theorem run_bond {step : Side → σ → σ → ι → Turn σ ρ} {admits : Side → σ → σ → ι → Prop}
    (bond : Side → σ → σ → Prop)
    (flips : ∀ side mine other, bond side mine other → bond side.other other mine)
    (advances : ∀ side mine other input after, bond side mine other →
      admits side mine other input → step side mine other input = .more after →
      bond side after other)
    (start : Peers σ) (initial : bond .near start.near start.far) (inputs : List (Side × ι))
    (along : Along (Moves admits) (turn step) start inputs) (final : Peers σ)
    (reached : run (turn step) start inputs = .more final) (side : Side) :
    bond side (final.on side) (final.on side.other) := by
  have every : ∀ peers : Peers σ, bond .near peers.near peers.far →
      ∀ side, bond side (peers.on side) (peers.on side.other) := by
    intro peers near side
    cases side with
    | near => exact near
    | far => exact flips .near _ _ near
  refine every final ?_ side
  refine run_reaches (fun peers => bond .near peers.near peers.far) ?_ start initial inputs along
    final reached
  intro peers input after bound admitted moved
  obtain ⟨party, stepped, rfl⟩ := turn_more step peers after input moved
  have kept := advances input.1 _ _ _ party (every peers bound input.1) admitted stepped
  obtain ⟨side, input⟩ := input
  cases side with
  | near => exact kept
  | far => exact flips .far _ _ kept

end Peers

end Binkleyforce.Library
