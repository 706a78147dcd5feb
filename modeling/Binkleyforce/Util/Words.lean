import Binkleyforce.Util.Text

/-!
# Numbers of a fixed width

The program runs where a `long` has 32 bits and where it has 64. What depends on
that takes the width as a parameter. On the line numbers have four bytes, the low
one first.
-/

namespace Binkleyforce

/-- The value of a `long`, of 64 bits or of 32. -/
def long (wide : Bool) (value : Int) : Int :=
  if wide then Int.bmod value (2 ^ 64) else Int.bmod value (2 ^ 32)

/-- The value of an `unsigned long`. -/
def unsignedLong (wide : Bool) (value : Int) : Nat :=
  (value % (if wide then 2 ^ 64 else 2 ^ 32)).toNat

/-- The four low bytes of a number. -/
def lowBytes (value : Int) : Bytes :=
  let bits := (value % 2 ^ 32).toNat
  [UInt8.ofNat bits, UInt8.ofNat (bits / 2 ^ 8), UInt8.ofNat (bits / 2 ^ 16),
    UInt8.ofNat (bits / 2 ^ 24)]

/-- The unsigned number that four bytes stand for. -/
def fourBytes (buf : Bytes) : Nat :=
  (buf.getD 0 0).toNat + (buf.getD 1 0).toNat * 2 ^ 8 + (buf.getD 2 0).toNat * 2 ^ 16 +
    (buf.getD 3 0).toNat * 2 ^ 24

/-- Four bytes put together again, whatever follows them. -/
theorem fourBytes_lowBytes (value : Int) (tail : Bytes) :
    (fourBytes (lowBytes value ++ tail) : Int) = value % 2 ^ 32 := by
  unfold fourBytes lowBytes
  simp only [List.cons_append, List.getD_cons_zero, List.getD_cons_succ, UInt8.toNat_ofNat']
  omega

/-- Bits that are shifted behind others do not overlap them. -/
theorem or_shifted {low shift : Nat} (value : Nat) (small : low < 2 ^ shift) :
    low ||| (value <<< shift) = low + value * 2 ^ shift := by
  rw [Nat.or_comm, ← Nat.shiftLeft_add_eq_or_of_lt small, Nat.shiftLeft_eq, Nat.add_comm]

end Binkleyforce
