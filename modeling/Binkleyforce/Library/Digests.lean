import Mathlib.Data.Nat.ModEq
import Mathlib.Tactic.TypeStar

/-!
# Digests of whole blocks

A digest takes in a message block after block. Before, the message is made one of whole blocks: a
mark, zeros and the length of the message are put behind it. A key is used by taking in a block
that is made of it before the message, twice.
-/

namespace Binkleyforce.Library

variable {State Byte : Type*} (compress : State → List Byte → State) (size : Nat)

/-! ## Blocks -/

/-- Take in so many blocks of a message. -/
def takeBlocks : Nat → State → List Byte → State
  | 0, state, _ => state
  | count + 1, state, message =>
    takeBlocks count (compress state (message.take size)) (message.drop size)

/-- Take in all whole blocks of a message. -/
def absorb (state : State) (message : List Byte) : State :=
  takeBlocks compress size (message.length / size) state message

/-- The blocks of one message after those of another. -/
theorem takeBlocks_append {count : Nat} {front : List Byte} (whole : front.length = count * size)
    (more : Nat) (state : State) (back : List Byte) :
    takeBlocks compress size (count + more) state (front ++ back) =
      takeBlocks compress size more (takeBlocks compress size count state front) back := by
  induction count generalizing state front with
  | zero =>
    have empty : front = [] := by
      apply List.eq_nil_of_length_eq_zero
      rw [whole, Nat.zero_mul]
    rw [empty, Nat.zero_add]
    rfl
  | succ count inductionHypothesis =>
    rw [Nat.succ_mul] at whole
    have first : size ≤ front.length := by omega
    rw [show count + 1 + more = count + more + 1 by omega]
    simp only [takeBlocks]
    rw [List.take_append_of_le_length first, List.drop_append_of_le_length first]
    apply inductionHypothesis
    rw [List.length_drop]
    omega

/-- Only the blocks that are taken in matter. -/
theorem takeBlocks_take {count : Nat} {message : List Byte} (enough : count * size ≤ message.length)
    (state : State) :
    takeBlocks compress size count state message =
      takeBlocks compress size count state (message.take (count * size)) := by
  have whole : (message.take (count * size)).length = count * size := by
    rw [List.length_take]
    omega
  have joined := takeBlocks_append compress size whole 0 state (message.drop (count * size))
  rwa [Nat.add_zero, List.take_append_drop] at joined

variable {size}

/-- A message of whole blocks is taken in before what follows. -/
theorem absorb_append (positive : 0 < size) {front : List Byte} (whole : size ∣ front.length)
    (state : State) (back : List Byte) :
    absorb compress size state (front ++ back) =
      absorb compress size (absorb compress size state front) back := by
  obtain ⟨count, length⟩ := whole
  unfold absorb
  rw [List.length_append, length, Nat.mul_add_div positive, Nat.mul_div_cancel_left count positive]
  apply takeBlocks_append
  rw [length, Nat.mul_comm]

/-- A single block. -/
theorem absorb_block (positive : 0 < size) {block : List Byte} (one : block.length = size)
    (state : State) : absorb compress size state block = compress state block := by
  unfold absorb
  rw [one, Nat.div_self positive]
  simp only [takeBlocks]
  rw [← one, List.take_length]

/-! ## The end of the message -/

variable (size)

/-- So many zeros make whole blocks of the message, a mark and a field. -/
def padZeros (field length : Nat) : Nat := (size - (length + 1 + field) % size) % size

variable {size}

/-- With the zeros the blocks are whole. -/
theorem padZeros_whole (positive : 0 < size) (field length : Nat) :
    size ∣ length + 1 + padZeros size field length + field := by
  have small := Nat.mod_lt (length + 1 + field) positive
  have parts := Nat.div_add_mod (length + 1 + field) size
  unfold padZeros
  by_cases exact_ : (length + 1 + field) % size = 0
  · rw [exact_, Nat.sub_zero, Nat.mod_self, Nat.add_zero]
    exact Nat.dvd_of_mod_eq_zero exact_
  · rw [Nat.mod_eq_of_lt (by omega)]
    refine ⟨(length + 1 + field) / size + 1, ?_⟩
    rw [Nat.mul_add, Nat.mul_one]
    omega

/-- There are no whole blocks of zeros only. -/
theorem padZeros_lt (positive : 0 < size) (field length : Nat) :
    padZeros size field length < size := Nat.mod_lt _ positive

/-- The number of zeros is the only one. -/
theorem padZeros_unique (positive : 0 < size) {field length zeros : Nat} (small : zeros < size)
    (whole : size ∣ length + 1 + zeros + field) : padZeros size field length = zeros := by
  have same : length + 1 + field + padZeros size field length ≡ length + 1 + field + zeros [MOD size] := by
    have first := (Nat.modEq_zero_iff_dvd.mpr (padZeros_whole positive field length))
    have second := (Nat.modEq_zero_iff_dvd.mpr whole)
    rw [Nat.add_right_comm] at first second
    exact first.trans second.symm
  have zerosSame := Nat.ModEq.add_left_cancel' _ same
  exact Nat.ModEq.eq_of_lt_of_lt zerosSame (padZeros_lt positive field length) small

variable (size)

/-- The message with the mark, the zeros and its length. -/
def padded (mark zero : Byte) (width : Nat) (field : Nat → List Byte) (message : List Byte) : List Byte :=
  message ++ mark :: (List.replicate (padZeros size width message.length) zero ++ field message.length)

/-! ## Keys -/

/-- The block of a key: a long one is digested first. -/
def keyBlock (zero : Byte) (hash : List Byte → List Byte) (key : List Byte) : List Byte :=
  let short := if size < key.length then hash key else key
  short ++ List.replicate (size - short.length) zero

/-- The keyed digest of a text: that of the key and the digest of the key and the text, the key
masked in two ways. -/
def hmac (zero : Byte) (inner outer : Byte → Byte) (hash : List Byte → List Byte)
    (key text : List Byte) : List Byte :=
  let block := keyBlock size zero hash key
  hash (block.map outer ++ hash (block.map inner ++ text))

/-- The block of a key is a block. -/
theorem keyBlock_length {zero : Byte} {hash : List Byte → List Byte} {key : List Byte}
    (fits : (hash key).length ≤ size) : (keyBlock size zero hash key).length = size := by
  unfold keyBlock
  dsimp only
  split
  · rw [List.length_append, List.length_replicate]
    omega
  · rw [List.length_append, List.length_replicate]
    omega

end Binkleyforce.Library
