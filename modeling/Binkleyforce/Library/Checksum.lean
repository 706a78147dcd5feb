import Mathlib.Data.BitVec
import Mathlib.Logic.Function.Iterate

/-!
# Check sums by a table

A register takes in bytes, the low one of its own bytes selecting an entry of a table.
Where the bytes of its complement are taken in, the low one first, what the register held
no longer matters: a receiver that takes in the check sum as well always ends with the
same residue. The register may be turned round, so that the high byte selects the entry;
there the bytes of the check sum themselves, the high one first, leave nothing. One byte that
is changed always changes the sum.
-/

namespace Binkleyforce.Library

variable {w : Nat} (table : BitVec 8 → BitVec w)

/-- The register after a byte. -/
def takeByte (register : BitVec w) (byte : BitVec 8) : BitVec w :=
  table (register.setWidth 8 ^^^ byte) ^^^ (register >>> 8)

/-- The low bytes of the complement of a register. -/
def complementBytes (register : BitVec w) : Nat → List (BitVec 8)
  | 0 => []
  | count + 1 => ~~~(register.setWidth 8) :: complementBytes (register >>> 8) count

/-- The bytes of the complement are the complements of the bytes. -/
theorem complement_byte (register : BitVec w) (shift : Nat) (inside : shift + 8 ≤ w) :
    ((~~~register) >>> shift).setWidth 8 = ~~~((register >>> shift).setWidth 8) := by
  ext i small
  have there : shift + i < w := by omega
  simp [there]

/-- What such bytes leave. -/
def residue (register : BitVec w) : Nat → BitVec w
  | 0 => register
  | count + 1 => residue (takeByte table register (BitVec.allOnes 8)) count

/-- The bytes of the complement cancel the register, except for the part that has not
been shifted out. -/
theorem take_complement (register mask : BitVec w) (count : Nat) :
    (complementBytes register count).foldl (takeByte table) (mask ^^^ register) =
      residue table mask count ^^^ (register >>> (8 * count)) := by
  induction count generalizing register mask with
  | zero => simp [complementBytes, residue]
  | succ count inductionHypothesis =>
    have cancels : takeByte table (mask ^^^ register) (~~~(register.setWidth 8)) =
        takeByte table mask (BitVec.allOnes 8) ^^^ (register >>> 8) := by
      unfold takeByte
      rw [BitVec.setWidth_xor, BitVec.ushiftRight_xor_distrib, ← BitVec.xor_allOnes]
      have low : mask.setWidth 8 ^^^ register.setWidth 8 ^^^
          (register.setWidth 8 ^^^ BitVec.allOnes 8) = mask.setWidth 8 ^^^ BitVec.allOnes 8 := by
        rw [BitVec.xor_assoc, ← BitVec.xor_assoc (register.setWidth 8), BitVec.xor_self,
          BitVec.zero_xor]
      rw [low, BitVec.xor_assoc]
    simp only [complementBytes, List.foldl_cons, cancels, inductionHypothesis, residue]
    rw [← BitVec.shiftRight_add, Nat.mul_succ, Nat.add_comm]

/-- Where the register has no other bits, nothing of it is left. -/
theorem take_whole_complement (register : BitVec w) (count : Nat)
    (short : register >>> (8 * count) = 0#w) :
    (complementBytes register count).foldl (takeByte table) register = residue table 0#w count := by
  have taken := take_complement table register 0#w count
  rwa [BitVec.zero_xor, short, BitVec.xor_zero] at taken

/-! ## The other order of the bits -/

/-- The high byte of a register. -/
def highByte (register : BitVec w) : BitVec 8 := (register >>> (w - 8)).setWidth 8

/-- The register after a byte, where its high byte selects the entry. -/
def takeHigh (register : BitVec w) (byte : BitVec 8) : BitVec w :=
  table (highByte register ^^^ byte) ^^^ (register <<< 8)

/-- The same where the byte is shifted in from below, to select an entry once it has come to the top. -/
def shiftIn (register : BitVec w) (byte : BitVec 8) : BitVec w :=
  table (highByte register) ^^^ (register <<< 8) ^^^ byte.setWidth w

theorem highByte_xor (one other : BitVec w) : highByte (one ^^^ other) = highByte one ^^^ highByte other := by
  unfold highByte
  rw [BitVec.ushiftRight_xor_distrib, BitVec.setWidth_xor]

/-- A byte shifted in is nothing but added. -/
theorem shiftIn_add (register : BitVec w) (byte : BitVec 8) :
    shiftIn table register byte = shiftIn table register 0#8 ^^^ byte.setWidth w := by
  unfold shiftIn
  rw [show (0#8).setWidth w = 0#w by simp, BitVec.xor_zero]

/-- The bytes of a register, put together again. -/
theorem bytes_register (register : BitVec 16) :
    (highByte register).setWidth 16 <<< 8 ^^^ (register.setWidth 8).setWidth 16 = register := by
  unfold highByte
  ext place small
  by_cases low : place < 8
  · simp [low, BitVec.getLsbD_eq_getElem small]
  · have upper : place - 8 < 8 := by omega
    have there : 8 + (place - 8) = place := by omega
    simp [low, upper, there, small]

section Linear

variable {entry : BitVec 8 → BitVec 16} (linear : ∀ one other, entry (one ^^^ other) = entry one ^^^ entry other)
include linear

/-- Nothing has no entry. -/
theorem linear_zero : entry 0#8 = 0#16 := by
  have twice := linear 0#8 0#8
  rwa [BitVec.xor_self, BitVec.xor_self] at twice

/-- Registers are shifted one by one. -/
theorem shiftIn_xor (one other : BitVec 16) :
    shiftIn entry (one ^^^ other) 0#8 = shiftIn entry one 0#8 ^^^ shiftIn entry other 0#8 := by
  unfold shiftIn
  rw [highByte_xor, linear, BitVec.shiftLeft_xor_distrib]
  simp only [show (0#8).setWidth 16 = 0#16 from rfl, BitVec.xor_zero]
  ac_rfl

/-- A byte that stands alone comes to the top. -/
theorem shiftIn_byte (byte : BitVec 8) : shiftIn entry (byte.setWidth 16) 0#8 = byte.setWidth 16 <<< 8 := by
  have low : highByte (byte.setWidth 16) = 0#8 := by
    unfold highByte
    ext place small
    simp
  unfold shiftIn
  rw [low, linear_zero linear]
  simp

/-- Where two bytes of zeros were shifted in, so that all bytes have come to the top, the register is
the one that takes them at the top. -/
theorem shiftIn_takeHigh (bytes : List (BitVec 8)) (register : BitVec 16) :
    shiftIn entry (shiftIn entry (bytes.foldl (shiftIn entry) register) 0#8) 0#8 =
      bytes.foldl (takeHigh entry) (shiftIn entry (shiftIn entry register 0#8) 0#8) := by
  induction bytes generalizing register with
  | nil => rfl
  | cons byte rest inductionHypothesis =>
    rw [List.foldl_cons, inductionHypothesis, List.foldl_cons]
    congr 1
    -- The byte comes from the low half to the top.
    have top : highByte (byte.setWidth 16 <<< 8) = byte := by
      unfold highByte
      ext place small
      have there : 8 + place < 16 := by omega
      simp [small, there]
    have gone : byte.setWidth 16 <<< 8 <<< 8 = 0#16 := by
      rw [← BitVec.shiftLeft_add]
      exact BitVec.shiftLeft_eq_zero (Nat.le_refl 16)
    have second : shiftIn entry (byte.setWidth 16 <<< 8) 0#8 = entry byte := by
      unfold shiftIn
      rw [top, gone]
      simp
    rw [shiftIn_add entry register byte, shiftIn_xor linear, shiftIn_xor linear, shiftIn_byte linear,
      second]
    generalize shiftIn entry (shiftIn entry register 0#8) 0#8 = later
    have nothing : shiftIn entry later 0#8 = entry (highByte later) ^^^ (later <<< 8) := by
      unfold shiftIn
      simp
    rw [nothing]
    unfold takeHigh
    rw [linear]
    ac_rfl

/-- After the bytes of the register that is to be sent, shifted in, nothing is left. -/
theorem shiftIn_own (register : BitVec 16) :
    shiftIn entry (shiftIn entry register (highByte (shiftIn entry (shiftIn entry register 0#8) 0#8)))
      ((shiftIn entry (shiftIn entry register 0#8) 0#8).setWidth 8) = 0#16 := by
  have shifted := shiftIn_xor linear (shiftIn entry register 0#8)
  generalize sum : shiftIn entry (shiftIn entry register 0#8) 0#8 = crc
  rw [shiftIn_add entry register, shiftIn_add entry _ (crc.setWidth 8), shifted, sum, shiftIn_byte linear,
    BitVec.xor_assoc, bytes_register, BitVec.xor_self]

end Linear

/-- After its own bytes nothing is left of a register. -/
theorem takeHigh_own {entry : BitVec 8 → BitVec 16} (zero : entry 0#8 = 0#16) (register : BitVec 16) :
    takeHigh entry (takeHigh entry register (highByte register)) (register.setWidth 8) = 0#16 := by
  have first : takeHigh entry register (highByte register) = register <<< 8 := by
    unfold takeHigh
    rw [BitVec.xor_self, zero, BitVec.zero_xor]
  have low : highByte (register <<< 8) = register.setWidth 8 := by
    unfold highByte
    ext place small
    have there : 8 + place < 16 := by omega
    simp [there, BitVec.getLsbD_eq_getElem (show place < 16 by omega)]
  unfold takeHigh at first ⊢
  rw [first, low, BitVec.xor_self, zero, BitVec.zero_xor, ← BitVec.shiftLeft_add]
  exact BitVec.shiftLeft_eq_zero (Nat.le_refl 16)

/-! ## Tables of remainders -/

/-- A shift of a register, with the polynomial where a bit falls out. -/
def divide (shift : BitVec w → BitVec w) (out : BitVec w → Bool) (polynomial register : BitVec w) : BitVec w :=
  if out register then shift register ^^^ polynomial else shift register

/-- Registers are divided one by one. -/
theorem divide_xor {shift : BitVec w → BitVec w} {out : BitVec w → Bool}
    (shifts : ∀ one other, shift (one ^^^ other) = shift one ^^^ shift other)
    (outs : ∀ one other, out (one ^^^ other) = (out one ^^ out other)) (polynomial one other : BitVec w) :
    divide shift out polynomial (one ^^^ other) = divide shift out polynomial one ^^^ divide shift out polynomial other := by
  unfold divide
  rw [outs, shifts]
  cases out one
  · cases out other
    · rfl
    · exact BitVec.xor_assoc _ _ _
  · cases out other
    · simp only [Bool.xor_false, if_true, Bool.false_eq_true, if_false]
      ac_rfl
    · have twice : (shift one ^^^ polynomial) ^^^ (shift other ^^^ polynomial) =
          shift one ^^^ shift other ^^^ (polynomial ^^^ polynomial) := by ac_rfl
      simp only [Bool.xor_self, if_true, Bool.false_eq_true, if_false, twice, BitVec.xor_self, BitVec.xor_zero]

/-- Division from the top, -/
def divideHigh (polynomial : BitVec w) : BitVec w → BitVec w := divide (· <<< 1) BitVec.msb polynomial

/-- and from the bottom. -/
def divideLow (polynomial : BitVec w) : BitVec w → BitVec w := divide (· >>> 1) (·.getLsbD 0) polynomial

theorem divideHigh_xor (polynomial one other : BitVec w) :
    divideHigh polynomial (one ^^^ other) = divideHigh polynomial one ^^^ divideHigh polynomial other :=
  divide_xor (fun _ _ => BitVec.shiftLeft_xor_distrib _ _ _) (fun _ _ => BitVec.msb_xor) polynomial one other

theorem divideLow_xor (polynomial one other : BitVec w) :
    divideLow polynomial (one ^^^ other) = divideLow polynomial one ^^^ divideLow polynomial other :=
  divide_xor (fun _ _ => BitVec.ushiftRight_xor_distrib _ _ _) (fun _ _ => BitVec.getLsbD_xor) polynomial one other

/-- What takes registers one by one does so however often. -/
theorem iterate_xor {step : BitVec w → BitVec w} (linear : ∀ one other, step (one ^^^ other) = step one ^^^ step other)
    (count : Nat) (one other : BitVec w) : step^[count] (one ^^^ other) = step^[count] one ^^^ step^[count] other := by
  induction count generalizing one other with
  | zero => rfl
  | succ count inductionHypothesis =>
    rw [Function.iterate_succ_apply, Function.iterate_succ_apply, Function.iterate_succ_apply, linear,
      inductionHypothesis]

/-- The remainder of a byte that stands at the top, -/
def remainderHigh (polynomial : BitVec w) (byte : BitVec 8) : BitVec w :=
  (divideHigh polynomial)^[8] (byte.setWidth w <<< (w - 8))

/-- or at the bottom. -/
def remainderLow (polynomial : BitVec w) (byte : BitVec 8) : BitVec w :=
  (divideLow polynomial)^[8] (byte.setWidth w)

theorem remainderHigh_xor (polynomial : BitVec w) (one other : BitVec 8) :
    remainderHigh polynomial (one ^^^ other) = remainderHigh polynomial one ^^^ remainderHigh polynomial other := by
  unfold remainderHigh
  rw [BitVec.setWidth_xor, BitVec.shiftLeft_xor_distrib, iterate_xor (divideHigh_xor polynomial)]

theorem remainderLow_xor (polynomial : BitVec w) (one other : BitVec 8) :
    remainderLow polynomial (one ^^^ other) = remainderLow polynomial one ^^^ remainderLow polynomial other := by
  unfold remainderLow
  rw [BitVec.setWidth_xor, iterate_xor (divideLow_xor polynomial)]

/-- A part of the entries of such a table tells which entry it is, if it is zero for none but the first. -/
theorem known_entry {v : Nat} {entry : BitVec 8 → BitVec w} (part : BitVec w → BitVec v)
    (linear : ∀ one other, entry (one ^^^ other) = entry one ^^^ entry other)
    (parts : ∀ one other, part (one ^^^ other) = part one ^^^ part other)
    (first : ∀ byte, part (entry byte) = 0#v → byte = 0#8) (one other : BitVec 8)
    (same : part (entry one) = part (entry other)) : one = other := by
  have none_ := first (one ^^^ other) (by rw [linear, parts, same, BitVec.xor_self])
  exact BitVec.xor_eq_zero_iff.mp none_

/-! ## A byte that is changed -/

section Separates

variable {σ β : Type}

/-- Steps that keep states apart, and take different elements of one state apart. -/
structure Separates (step : σ → β → σ) (valid : σ → Prop) : Prop where
  keeps : ∀ state element, valid state → valid (step state element)
  states : ∀ one other element, valid one → valid other → step one element = step other element → one = other
  elements : ∀ state one other, valid state → step state one = step state other → one = other

variable {step : σ → β → σ} {valid : σ → Prop} (separates : Separates step valid)
include separates

/-- The states of a run are valid. -/
theorem Separates.foldl_valid (elements : List β) {state : σ} (there : valid state) : valid (elements.foldl step state) := by
  induction elements generalizing state with
  | nil => exact there
  | cons element rest inductionHypothesis => exact inductionHypothesis (separates.keeps state element there)

/-- States that differ go on to differ. -/
theorem Separates.foldl_states (elements : List β) {one other : σ} (first : valid one) (second : valid other)
    (same : elements.foldl step one = elements.foldl step other) : one = other := by
  induction elements generalizing one other with
  | nil => exact same
  | cons element rest inductionHypothesis =>
    apply separates.states one other element first second
    exact inductionHypothesis (separates.keeps one element first) (separates.keeps other element second) same

/-- One element that is changed changes the outcome. -/
theorem Separates.foldl_set {elements : List β} {index : Nat} {old element : β} {state : σ} (there : valid state)
    (stands : elements[index]? = some old) (changed : element ≠ old) :
    (elements.set index element).foldl step state ≠ elements.foldl step state := by
  induction elements generalizing index state with
  | nil => cases stands
  | cons first rest inductionHypothesis =>
    cases index with
    | zero =>
      obtain rfl : first = old := Option.some.inj stands
      intro same
      have states := separates.foldl_states rest (separates.keeps state element there)
        (separates.keeps state first there) same
      exact changed (separates.elements state element first there states)
    | succ index => exact inductionHypothesis (separates.keeps state first there) stands

end Separates

/-- A register is known by its low byte and the others. -/
theorem register_low {one other : BitVec w} (low : one.setWidth 8 = other.setWidth 8)
    (rest : one >>> 8 = other >>> 8) : one = other := by
  apply BitVec.eq_of_toNat_eq
  have bytes := congrArg BitVec.toNat low
  have others := congrArg BitVec.toNat rest
  rw [BitVec.toNat_setWidth, BitVec.toNat_setWidth] at bytes
  rw [BitVec.toNat_ushiftRight, BitVec.toNat_ushiftRight, Nat.shiftRight_eq_div_pow,
    Nat.shiftRight_eq_div_pow] at others
  omega

/-- A register is known by its high byte and the others. -/
theorem register_high {one other : BitVec w} (wide : 8 ≤ w) (high : highByte one = highByte other)
    (rest : one <<< 8 = other <<< 8) : one = other := by
  ext place inside
  by_cases top : place + 8 < w
  · have bit := congrArg (fun register : BitVec w => register.getLsbD (place + 8)) rest
    have above : ¬ place + 8 < 8 := by omega
    simpa [top, above, BitVec.getLsbD_eq_getElem inside] using bit
  · have bit := congrArg (fun byte : BitVec 8 => byte.getLsbD (place - (w - 8))) high
    have there : w - 8 + (place - (w - 8)) = place := by omega
    have small : place - (w - 8) < 8 := by omega
    simpa [highByte, there, small, BitVec.getLsbD_eq_getElem inside] using bit

/-- Where the top byte of an entry tells which one it is, and the register has nothing above it, no byte
that is taken in goes unnoticed. -/
theorem takeByte_separates (top : Nat) (known : ∀ one other, table one >>> top = table other >>> top → one = other)
    (narrow : ∀ byte, table byte >>> (top + 8) = 0#w) :
    Separates (takeByte table) fun register => register >>> (top + 8) = 0#w := by
  have shifted : ∀ register : BitVec w, register >>> (top + 8) = 0#w → register >>> 8 >>> top = 0#w := by
    intro register short
    rw [← BitVec.shiftRight_add, Nat.add_comm, short]
  have entries : ∀ (one other : BitVec w) (first second : BitVec 8), one >>> (top + 8) = 0#w →
      other >>> (top + 8) = 0#w → takeByte table one first = takeByte table other second →
        one.setWidth 8 ^^^ first = other.setWidth 8 ^^^ second ∧ one >>> 8 = other >>> 8 := by
    intro one other first second short short' same
    unfold takeByte at same
    have tops := congrArg (fun register : BitVec w => register >>> top) same
    simp only [BitVec.ushiftRight_xor_distrib, shifted one short, shifted other short', BitVec.xor_zero] at tops
    have index := known _ _ tops
    rw [index] at same
    exact ⟨index, (BitVec.xor_right_inj _).mp same⟩
  constructor
  · intro register byte short
    unfold takeByte
    rw [BitVec.ushiftRight_xor_distrib, narrow, BitVec.zero_xor, BitVec.shiftRight_add, shifted register short]
    simp
  · intro one other byte short short' same
    obtain ⟨low, rest⟩ := entries one other byte byte short short' same
    exact register_low ((BitVec.xor_left_inj _).mp low) rest
  · intro register one other short same
    exact (BitVec.xor_right_inj _).mp (entries register register one other short short same).1

/-- Where the low byte of an entry tells which one it is, no byte that is taken in at the top goes
unnoticed. -/
theorem takeHigh_separates (wide : 8 ≤ w)
    (known : ∀ one other, (table one).setWidth 8 = (table other).setWidth 8 → one = other) :
    Separates (takeHigh table) fun _ => True := by
  have below : ∀ register : BitVec w, (register <<< 8).setWidth 8 = 0#8 := by
    intro register
    ext place small
    simp [small]
  have entries : ∀ (one other : BitVec w) (first second : BitVec 8),
      takeHigh table one first = takeHigh table other second →
        highByte one ^^^ first = highByte other ^^^ second ∧ one <<< 8 = other <<< 8 := by
    intro one other first second same
    unfold takeHigh at same
    have lows := congrArg (BitVec.setWidth 8) same
    simp only [BitVec.setWidth_xor, below, BitVec.xor_zero] at lows
    have index := known _ _ lows
    rw [index] at same
    exact ⟨index, (BitVec.xor_right_inj _).mp same⟩
  constructor
  · exact fun _ _ _ => trivial
  · intro one other byte _ _ same
    obtain ⟨high, rest⟩ := entries one other byte byte same
    exact register_high wide ((BitVec.xor_left_inj _).mp high) rest
  · intro register one other _ same
    exact (BitVec.xor_right_inj _).mp (entries register register one other same).1

/-- Nor does one that is shifted in. -/
theorem shiftIn_separates (wide : 8 ≤ w)
    (known : ∀ one other, (table one).setWidth 8 = (table other).setWidth 8 → one = other) :
    Separates (shiftIn table) fun _ => True := by
  have high := takeHigh_separates table wide known
  have zeros : ∀ register : BitVec w, shiftIn table register 0#8 = takeHigh table register 0#8 := by
    intro register
    unfold shiftIn takeHigh
    simp
  constructor
  · exact fun _ _ _ => trivial
  · intro one other byte _ _ same
    rw [shiftIn_add table one, shiftIn_add table other, zeros, zeros, BitVec.xor_left_inj] at same
    exact high.states one other 0#8 trivial trivial same
  · intro register one other _ same
    rw [shiftIn_add table register one, shiftIn_add table register other, BitVec.xor_right_inj] at same
    have bytes := congrArg (BitVec.setWidth 8) same
    simpa [wide] using bytes

end Binkleyforce.Library
