import Mathlib.Data.List.Basic
import Mathlib.Data.List.Nodup
import Mathlib.Tactic.TypeStar

/-!
# Selections

A selection picks one item after another from what is ready in a state. Items that were picked are
no longer ready, and between the picks items may be withdrawn. What holds between a pick and all
items that are ready then holds between the pick and all later ones; and a selection that goes on
until nothing is ready has picked everything.
-/

namespace Binkleyforce.Library

/-- How the next item is picked from a state. -/
structure Selection (σ α : Type*) where
  next : σ → Option (α × σ)
  Ready : σ → α → Prop
  count : σ → Nat
  ready {s s' : σ} {a : α} (picked : next s = some (a, s')) : Ready s a
  gone {s s' : σ} {a : α} (picked : next s = some (a, s')) : ¬ Ready s' a
  fewer {s s' : σ} {a b : α} (picked : next s = some (a, s')) (there : Ready s' b) : Ready s b
  stays {s s' : σ} {a b : α} (picked : next s = some (a, s')) (there : Ready s b) (other : b ≠ a) :
    Ready s' b
  ends {s : σ} {a : α} (last : next s = none) : ¬ Ready s a
  counts {s s' : σ} {a : α} (picked : next s = some (a, s')) : count s' < count s

namespace Selection

variable {σ α : Type*} (selection : Selection σ α)

/-- What is ready in the second state is ready in the first. -/
def Withdraws (s s' : σ) : Prop := ∀ a, selection.Ready s' a → selection.Ready s a

/-- The items picked on the way from a state to another, where items are withdrawn in between. -/
inductive Picks : σ → List α → σ → Prop where
  | done (s : σ) : Picks s [] s
  | pick {s s' t : σ} {a : α} {later : List α} (picked : selection.next s = some (a, s'))
      (rest : Picks s' later t) : Picks s (a :: later) t
  | withdraw {s s' t : σ} {later : List α} (fewer : selection.Withdraws s s') (rest : Picks s' later t) :
      Picks s later t

variable {selection}

/-- Some items are picked after others. -/
theorem Picks.append {s t u : σ} {first later : List α} (before : selection.Picks s first t)
    (after : selection.Picks t later u) : selection.Picks s (first ++ later) u := by
  induction before with
  | done s => exact after
  | pick picked _ inductionHypothesis => exact .pick picked (inductionHypothesis after)
  | withdraw fewer _ inductionHypothesis => exact .withdraw fewer (inductionHypothesis after)

/-- What is ready at the end was ready at the beginning and was not picked. -/
theorem Picks.left {s t : σ} {items : List α} (picks : selection.Picks s items t) :
    ∀ a, selection.Ready t a → selection.Ready s a ∧ a ∉ items := by
  induction picks with
  | done s => exact fun a there => ⟨there, List.not_mem_nil⟩
  | pick picked _ inductionHypothesis =>
    intro b there
    obtain ⟨ready, absent⟩ := inductionHypothesis b there
    refine ⟨selection.fewer picked ready, ?_⟩
    rw [List.mem_cons, not_or]
    refine ⟨?_, absent⟩
    rintro rfl
    exact selection.gone picked ready
  | withdraw fewer _ inductionHypothesis =>
    intro b there
    obtain ⟨ready, absent⟩ := inductionHypothesis b there
    exact ⟨fewer b ready, absent⟩

/-- Every item that is picked was ready. -/
theorem Picks.ready {s t : σ} {items : List α} (picks : selection.Picks s items t) :
    ∀ a ∈ items, selection.Ready s a := by
  induction picks with
  | done s => exact fun a member => absurd member List.not_mem_nil
  | pick picked _ inductionHypothesis =>
    intro b member
    rcases List.mem_cons.mp member with rfl | later
    · exact selection.ready picked
    · exact selection.fewer picked (inductionHypothesis b later)
  | withdraw fewer _ inductionHypothesis =>
    intro b member
    exact fewer b (inductionHypothesis b member)

/-- No item is picked twice. -/
theorem Picks.nodup {s t : σ} {items : List α} (picks : selection.Picks s items t) : items.Nodup := by
  induction picks with
  | done s => exact List.nodup_nil
  | pick picked rest inductionHypothesis =>
    rw [List.nodup_cons]
    refine ⟨?_, inductionHypothesis⟩
    intro again
    exact selection.gone picked (rest.ready _ again)
  | withdraw _ _ inductionHypothesis => exact inductionHypothesis

/-- What relates every pick to all that is ready then relates the picks to the later ones. -/
theorem Picks.pairwise {s t : σ} {items : List α} (picks : selection.Picks s items t) {R : α → α → Prop}
    (first : ∀ u u' a, selection.Withdraws s u → selection.next u = some (a, u') →
      ∀ b, selection.Ready u b → R a b) : items.Pairwise R := by
  induction picks with
  | done s => exact .nil
  | pick picked rest inductionHypothesis =>
    rw [List.pairwise_cons]
    constructor
    · intro b member
      exact first _ _ _ (fun _ => id) picked b (selection.fewer picked (rest.ready b member))
    · apply inductionHypothesis
      intro u u' a fewer
      exact first u u' a fun b there => selection.fewer picked (fewer b there)
  | withdraw fewer _ inductionHypothesis =>
    apply inductionHypothesis
    intro u u' a fewer'
    exact first u u' a fun b there => fewer b (fewer' b there)

variable (selection)

/-- Pick items until none is left. The fuel is more than there are. -/
def drain : Nat → σ → List α
  | 0, _ => []
  | fuel + 1, s =>
    match selection.next s with
    | none => []
    | some (a, s') => a :: drain fuel s'

variable {selection}

/-- With enough fuel everything that is ready is picked. -/
theorem mem_drain {fuel : Nat} {s : σ} (enough : selection.count s < fuel) {a : α}
    (there : selection.Ready s a) : a ∈ selection.drain fuel s := by
  induction fuel generalizing s with
  | zero => exact absurd enough (Nat.not_lt_zero _)
  | succ fuel inductionHypothesis =>
    unfold drain
    cases step : selection.next s with
    | none => exact absurd there (selection.ends step)
    | some picked =>
      obtain ⟨c, s'⟩ := picked
      have fewer := selection.counts step
      by_cases same : a = c
      · exact same ▸ List.mem_cons_self
      · exact List.mem_cons_of_mem _ (inductionHypothesis (by omega) (selection.stays step there same))

/-- Where the picks are related to the later ones, an item is related to one that is never picked
before it. -/
theorem drain_related {R : α → α → Prop} {fuel : Nat} {s : σ} (enough : selection.count s < fuel)
    (related : (selection.drain fuel s).Pairwise R) {a b : α} (readyA : selection.Ready s a)
    (readyB : selection.Ready s b) (apart : a ≠ b)
    (never : ∀ u u', selection.Withdraws s u → selection.Ready u a → selection.next u ≠ some (b, u')) :
    R a b := by
  induction fuel generalizing s with
  | zero => exact absurd enough (Nat.not_lt_zero _)
  | succ fuel inductionHypothesis =>
    unfold drain at related
    cases step : selection.next s with
    | none => exact absurd readyA (selection.ends step)
    | some picked =>
      obtain ⟨c, s'⟩ := picked
      have fewer := selection.counts step
      rw [step] at related
      dsimp only at related
      rw [List.pairwise_cons] at related
      by_cases same : a = c
      · subst same
        exact related.1 b (mem_drain (by omega) (selection.stays step readyB apart.symm))
      · have other : b ≠ c := by
          rintro rfl
          exact never s s' (fun _ => id) readyA step
        apply inductionHypothesis (by omega) related.2 (selection.stays step readyA same)
          (selection.stays step readyB other)
        intro u u' fewer'
        exact never u u' fun c there => selection.fewer step (fewer' c there)

end Selection

end Binkleyforce.Library
