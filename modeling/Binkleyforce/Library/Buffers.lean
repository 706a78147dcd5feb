import Mathlib.Data.List.Basic

/-!
# Buffers of a fixed size

A store outside of a buffer fails, so that a program which never fails has stored nothing there.
The characters of a reader are stored one after another, each with a terminator behind it.
-/

namespace Binkleyforce.Library

variable {α : Type}

/-- Store one element. -/
def put (buffer : List α) (place : Nat) (element : α) : Option (List α) :=
  if place < buffer.length then some (buffer.set place element) else none

/-- Store elements one after another. -/
def putAll (buffer : List α) (place : Nat) : List α → Option (List α)
  | [] => some buffer
  | element :: rest => (put buffer place element).bind fun later => putAll later (place + 1) rest

/-- Store an element and a terminator behind it. -/
def putEnded (terminator : α) (buffer : List α) (place : Nat) (element : α) : Option (List α) :=
  (put buffer place element).bind fun later => put later (place + 1) terminator

/-- The buffer with elements in place of what was there. -/
def overwrite (buffer : List α) (place : Nat) (elements : List α) : List α :=
  buffer.take place ++ elements ++ buffer.drop (place + elements.length)

/-- A store inside of the buffer. -/
theorem put_inside {buffer : List α} {place : Nat} (element : α) (inside : place < buffer.length) :
    put buffer place element = some (buffer.set place element) :=
  if_pos inside

/-- A store leaves the size, and what stands before its place. -/
theorem put_some {buffer later : List α} {place : Nat} {element : α}
    (stored : put buffer place element = some later) :
    later.length = buffer.length ∧ later.take (place + 1) = buffer.take place ++ [element] := by
  unfold put at stored
  split at stored
  case isFalse => cases stored
  case isTrue inside =>
    cases stored
    refine ⟨List.length_set, ?_⟩
    have there : place < (buffer.set place element).length := by
      rw [List.length_set]
      exact inside
    rw [List.take_succ_eq_append_getElem there, List.getElem_set_self, List.take_set_of_le (Nat.le_refl _)]

/-- So does a store with its terminator. -/
theorem putEnded_some {terminator element : α} {buffer later : List α} {place : Nat}
    (stored : putEnded terminator buffer place element = some later) :
    later.length = buffer.length ∧
      later.take (place + 2) = buffer.take place ++ [element, terminator] := by
  obtain ⟨between, first, second⟩ := Option.bind_eq_some_iff.mp stored
  obtain ⟨size, front⟩ := put_some first
  obtain ⟨size', front'⟩ := put_some second
  refine ⟨size'.trans size, ?_⟩
  rw [front', front, List.append_assoc]
  rfl

/-- A store with its terminator needs two places. -/
theorem putEnded_inside {buffer : List α} {place : Nat} (terminator element : α)
    (inside : place + 1 < buffer.length) : ∃ later, putEnded terminator buffer place element = some later := by
  have room : place + 1 < (buffer.set place element).length := by
    rw [List.length_set]
    exact inside
  unfold putEnded
  rw [put_inside element (by omega), Option.bind_some, put_inside terminator room]
  exact ⟨_, rfl⟩

/-- The size stays as it is. -/
theorem overwrite_length {buffer elements : List α} {place : Nat} (inside : place + elements.length ≤ buffer.length) :
    (overwrite buffer place elements).length = buffer.length := by
  simp only [overwrite, List.length_append, List.length_take, List.length_drop]
  omega

/-- So does what stands before the place. -/
theorem overwrite_take {buffer : List α} {place count : Nat} (elements : List α) (before : count ≤ place)
    (inside : place ≤ buffer.length) : (overwrite buffer place elements).take count = buffer.take count := by
  unfold overwrite
  rw [List.append_assoc, List.take_append_of_le_length (by rw [List.length_take]; omega), List.take_take,
    Nat.min_eq_left before]

/-- A part of a buffer is overwritten in its own place. -/
theorem overwrite_part (front part back elements : List α) (place : Nat)
    (inside : place + elements.length ≤ part.length) :
    overwrite (front ++ part ++ back) (front.length + place) elements =
      front ++ overwrite part place elements ++ back := by
  unfold overwrite
  rw [List.append_assoc front part back, List.take_length_add_append, Nat.add_assoc,
    List.drop_length_add_append, List.take_append_of_le_length (by omega),
    List.drop_append_of_le_length inside]
  simp only [List.append_assoc]

/-- Elements that fit are stored in place of what was there. -/
theorem putAll_overwrite (elements buffer : List α) (place : Nat) (inside : place + elements.length ≤ buffer.length) :
    putAll buffer place elements = some (overwrite buffer place elements) := by
  induction elements generalizing buffer place with
  | nil =>
    unfold overwrite
    rw [List.append_nil, List.length_nil, Nat.add_zero, List.take_append_drop]
    rfl
  | cons element rest stored =>
    rw [List.length_cons] at inside
    unfold putAll
    rw [put_inside element (by omega), Option.bind_some, stored _ _ (by rw [List.length_set]; omega)]
    refine congrArg some ?_
    unfold overwrite
    rw [List.length_cons, show place + (rest.length + 1) = place + 1 + rest.length by omega,
      List.drop_set_of_lt (by omega), List.take_succ_eq_append_getElem (by rw [List.length_set]; omega),
      List.getElem_set_self, List.take_set_of_le (Nat.le_refl _)]
    simp only [List.append_assoc, List.singleton_append]

/-- Elements that fit are stored, and stand where they were stored. -/
theorem putAll_inside (elements buffer : List α) (place : Nat) (inside : place + elements.length ≤ buffer.length) :
    ∃ later, putAll buffer place elements = some later ∧ later.length = buffer.length ∧
      later.take (place + elements.length) = buffer.take place ++ elements := by
  refine ⟨_, putAll_overwrite elements buffer place inside, overwrite_length inside, ?_⟩
  unfold overwrite
  rw [List.take_left']
  rw [List.length_append, List.length_take]
  omega

end Binkleyforce.Library
