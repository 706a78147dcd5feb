import Mathlib.Algebra.Order.Ring.Int
import Mathlib.Data.List.Basic

/-!
# Byte strings

Texts are lists of bytes. A C string in a buffer is the part before its first
NUL; the copy helpers of the source are modelled by the string they leave, and
the C library's character tests by their ASCII (C locale) meaning.
-/

namespace Binkleyforce

/-- A text or a block of raw data. -/
abbrev Bytes := List UInt8

/-- The bytes of a source literal. -/
def ascii (text : String) : Bytes := text.toList.map (fun char => UInt8.ofNat char.toNat)

/-- The C string stored at the start of a buffer. -/
def cstring (buffer : Bytes) : Bytes := buffer.takeWhile (· ≠ 0)

/-- What holds of sixteen times sixteen bytes holds of every byte. -/
theorem byte_cases {property : UInt8 → Prop} [DecidablePred property]
    (all : ∀ high < 16, ∀ low < 16, decide (property (UInt8.ofNat (16 * high + low))) = true) (char : UInt8) :
    property char := by
  have inside := char.toNat_lt
  have one := of_decide_eq_true (all (char.toNat / 16) (by omega) (char.toNat % 16) (by omega))
  rwa [Nat.div_add_mod, UInt8.ofNat_toNat] at one

/-- `isspace` in the C locale. -/
def isspace (char : UInt8) : Bool := char == 32 || (9 ≤ char && char ≤ 13)

/-- `isdigit`. -/
def isdigit (char : UInt8) : Bool := 48 ≤ char && char ≤ 57

/-- `isprint` in the C locale. -/
def isprint (char : UInt8) : Bool := 32 ≤ char && char ≤ 126

/-- `tolower` in the C locale. -/
def tolower (char : UInt8) : UInt8 := if 65 ≤ char && char ≤ 90 then char + 32 else char

/-- `strcasecmp(left, right) == 0`. -/
def strcasecmp (left right : Bytes) : Bool := left.map tolower == right.map tolower

/-- The string `strnxcpy(dst, src, len)` leaves in `dst`: at most `len - 1`
characters and the terminator. -/
def strnxcpy (src : Bytes) (len : Nat) : Bytes := (cstring src).take (len - 1)

/-- The bytes `strncpy` writes, which fills up with zeros. -/
def strncpy (text : Bytes) (size : Nat) : Bytes :=
  text.take size ++ List.replicate (size - text.length) 0

/-- The room `strnxcat` finds behind the string, a `size_t`. -/
def strnxcatRoom (dst : Bytes) (len : Nat) : Nat := (len + 2 ^ 64 - dst.length) % 2 ^ 64

/-- The string `strnxcat(dst, src, len)` leaves in `dst`. -/
def strnxcat (dst src : Bytes) (len : Nat) : Bytes := dst ++ strnxcpy src (strnxcatRoom dst len)

/-- `PATH_MAX`: the room for the name of a file, terminator included. -/
def pathMax : Nat := 4096

/-- The digits `string_bin_to_hex` and `string_hex_to_bin` use. -/
def hexdigits : Bytes := ascii "0123456789abcdef"

/-- `string_bin_to_hex`: two lower-case digits for each byte. -/
def stringBinToHex (binary : Bytes) : Bytes :=
  binary.flatMap fun byte =>
    [hexdigits.getD (byte.toNat / 16) 0, hexdigits.getD (byte.toNat % 16) 0]

/-- A string function that copies at most `len` bytes leaves room for the
terminator. -/
theorem strnxcpy_length (src : Bytes) (len : Nat) (room : 0 < len) :
    (strnxcpy src len).length < len := by
  simp only [strnxcpy, List.length_take]
  omega

/-- No character of a text without NUL is one. -/
theorem whole_of_not_mem {text : Bytes} (whole : 0 ∉ text) : ∀ char ∈ text, char ≠ 0 :=
  fun _ member zero => whole (zero ▸ member)

/-- A string goes on through a text without NUL. -/
theorem cstring_append (text rest : Bytes) (whole : ∀ char ∈ text, char ≠ 0) :
    cstring (text ++ rest) = text ++ cstring rest :=
  List.takeWhile_append_of_pos fun char member => by simpa using whole char member

/-- A text without NUL is its own C string. -/
theorem cstring_whole (text : Bytes) (whole : ∀ char ∈ text, char ≠ 0) : cstring text = text := by
  have joined := cstring_append text [] whole
  rwa [List.append_nil, show cstring [] = [] from rfl, List.append_nil] at joined

/-- A zero ends a text. -/
theorem cstring_ended (text rest : Bytes) : cstring (text ++ 0 :: rest) = cstring text := by
  unfold cstring
  induction text with
  | nil => rfl
  | cons char text later =>
    rw [List.cons_append, List.takeWhile_cons, List.takeWhile_cons, later]

/-- A C string of at least one character. -/
theorem cstring_cons {char head : UInt8} {text rest : Bytes} (same : cstring (char :: text) = head :: rest) :
    char = head ∧ cstring text = rest := by
  unfold cstring at same ⊢
  rw [List.takeWhile_cons] at same
  split at same
  · exact List.cons.inj same
  · cases same

/-- `strncpy` writes as many bytes as it is told. -/
theorem strncpy_length (text : Bytes) (size : Nat) : (strncpy text size).length = size := by
  rw [strncpy, List.length_append, List.length_take, List.length_replicate]
  omega

/-- Fewer bytes of it are what it writes with a smaller size. -/
theorem strncpy_take (text : Bytes) {less size : Nat} (small : less ≤ size) :
    (strncpy text size).take less = strncpy text less := by
  unfold strncpy
  rw [List.take_append, List.take_take, Nat.min_eq_left small, List.take_replicate, List.length_take]
  refine congrArg _ (congrArg (List.replicate · 0) ?_)
  omega

/-- The text behind which a zero stands. -/
theorem cstring_strncpy {text : Bytes} (whole : 0 ∉ text) (size : Nat) (rest : Bytes) :
    cstring (strncpy text size ++ 0 :: rest) = text.take size := by
  have nonzero : ∀ char ∈ text.take size, char ≠ 0 :=
    fun char member same => whole (same ▸ List.mem_of_mem_take member)
  have zeros : ∀ count, cstring (List.replicate count 0 ++ 0 :: rest) = [] := by
    intro count
    cases count <;> rfl
  rw [strncpy, List.append_assoc, cstring_append _ _ nonzero, zeros, List.append_nil]

end Binkleyforce
