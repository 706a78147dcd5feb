import Binkleyforce.Library.Digests
import Binkleyforce.Util.Md5
import Binkleyforce.Util.Words

/-!
# The digest of RFC-1321

The digest as the description has it: four registers that keep their names, 64 operations on
them, each of which changes one, and a message that ends with its length. `md5_update` names its
variables in another order instead, and `md5_compute` counts the blocks.
-/

namespace Binkleyforce

open Library

namespace Rfc1321

/-- The registers A, B, C and D. -/
abbrev Buffer := Vector UInt32 4

/-- What the registers hold at first. -/
def initial : Buffer := #v[0x67452301, 0xefcdab89, 0x98badcfe, 0x10325476]

/-- The functions F, G, H and I of the four rounds. -/
def roundFunction (round : Nat) (x y z : UInt32) : UInt32 :=
  match round with
  | 0 => (x &&& y) ||| (~~~x &&& z)
  | 1 => (x &&& z) ||| (y &&& ~~~z)
  | 2 => x ^^^ y ^^^ z
  | _ => y ^^^ (x ||| ~~~z)

/-- The integer parts of 4294967296 times the absolute value of the sine of 1, 2, 3 and so on. -/
def sines : List UInt32 :=
  [0xd76aa478, 0xe8c7b756, 0x242070db, 0xc1bdceee, 0xf57c0faf, 0x4787c62a, 0xa8304613, 0xfd469501,
    0x698098d8, 0x8b44f7af, 0xffff5bb1, 0x895cd7be, 0x6b901122, 0xfd987193, 0xa679438e, 0x49b40821,
    0xf61e2562, 0xc040b340, 0x265e5a51, 0xe9b6c7aa, 0xd62f105d, 0x02441453, 0xd8a1e681, 0xe7d3fbc8,
    0x21e1cde6, 0xc33707d6, 0xf4d50d87, 0x455a14ed, 0xa9e3e905, 0xfcefa3f8, 0x676f02d9, 0x8d2a4c8a,
    0xfffa3942, 0x8771f681, 0x6d9d6122, 0xfde5380c, 0xa4beea44, 0x4bdecfa9, 0xf6bb4b60, 0xbebfbc70,
    0x289b7ec6, 0xeaa127fa, 0xd4ef3085, 0x04881d05, 0xd9d4d039, 0xe6db99e5, 0x1fa27cf8, 0xc4ac5665,
    0xf4292244, 0x432aff97, 0xab9423a7, 0xfc93a039, 0x655b59c3, 0x8f0ccc92, 0xffeff47d, 0x85845dd1,
    0x6fa87e4f, 0xfe2ce6e0, 0xa3014314, 0x4e0811a1, 0xf7537e82, 0xbd3af235, 0x2ad7d2bb, 0xeb86d391]

/-- The word of the block that a step adds. -/
def wordIndex (step : Nat) : Nat :=
  match step / 16 with
  | 0 => step % 16
  | 1 => (1 + 5 * step) % 16
  | 2 => (5 + 3 * step) % 16
  | _ => 7 * step % 16

/-- How far a step rotates. -/
def rotation (step : Nat) : Nat :=
  match step / 16 with
  | 0 => [7, 12, 17, 22].getD (step % 4) 0
  | 1 => [5, 9, 14, 20].getD (step % 4) 0
  | 2 => [4, 11, 16, 23].getD (step % 4) 0
  | _ => [6, 10, 15, 21].getD (step % 4) 0

/-- A word rotated to the left. -/
def rotated (x : UInt32) (places : Nat) : UInt32 := ⟨x.toBitVec.rotateLeft places⟩

/-- The register a step changes: A, D, C, B and again. -/
def register (step : Nat) : Fin 4 := Fin.ofNat 4 (3 * step)

/-- The word of a block, the low byte first. -/
def word (block : Bytes) (index : Nat) : UInt32 := UInt32.ofNat (fourBytes (block.drop (4 * index)))

/-- The operation [abcd k s i], that is a = b + ((a + f(b,c,d) + X[k] + T[i]) <<< s). -/
def operation (block : Bytes) (buffer : Buffer) (step : Nat) : Buffer :=
  let a := register step
  let f := roundFunction (step / 16)
  buffer.set a
    (buffer[a + 1] +
      rotated (buffer[a] + f buffer[a + 1] buffer[a + 2] buffer[a + 3] +
        word block (wordIndex step) + sines.getD step 0) (rotation step))

/-- A block of 16 words: the four rounds, and the registers are added to what they were. -/
def compress (buffer : Buffer) (block : Bytes) : Buffer :=
  buffer.zipWith (· + ·) ((List.range 64).foldl (operation block) buffer)

/-- The number of bits in two words, the low one first. -/
def lengthField (length : Nat) : Bytes :=
  lowBytes (8 * length : Nat) ++ lowBytes (8 * length / 2 ^ 32 : Nat)

/-- The registers, the low byte of A first. -/
def output (buffer : Buffer) : Bytes :=
  lowBytes buffer[0].toNat ++ lowBytes buffer[1].toNat ++ lowBytes buffer[2].toNat ++
    lowBytes buffer[3].toNat

/-- The digest of a message. -/
def digest (message : Bytes) : Bytes :=
  output (absorb compress 64 initial (padded 64 0x80 0 8 lengthField message))

end Rfc1321

open Rfc1321

/-! ## Words and bytes -/

/-- No bits of a byte are lost inside of a word. -/
theorem shifted_mod {n bits : Nat} (small : n < 2 ^ 8) (inside : bits ≤ 24) :
    n <<< bits % 2 ^ 32 = n <<< bits := by
  rw [Nat.shiftLeft_eq]
  apply Nat.mod_eq_of_lt
  calc n * 2 ^ bits ≤ n * 2 ^ 24 := Nat.mul_le_mul_left n (Nat.pow_le_pow_right (by decide) inside)
    _ < 2 ^ 32 := by omega

/-- A word unpacked with shifts. -/
theorem word_shifts (b0 b1 b2 b3 : UInt8) (rest : Bytes) :
    b0.toUInt32 ||| b1.toUInt32 <<< 8 ||| b2.toUInt32 <<< 16 ||| b3.toUInt32 <<< 24 =
      UInt32.ofNat (fourBytes (b0 :: b1 :: b2 :: b3 :: rest)) := by
  have small0 := b0.toNat_lt
  have small1 := b1.toNat_lt
  have small2 := b2.toNat_lt
  have small3 := b3.toNat_lt
  apply UInt32.toNat_inj.mp
  rw [UInt32.toNat_ofNat']
  simp only [fourBytes, UInt32.toNat_or, UInt32.toNat_shiftLeft, UInt8.toNat_toUInt32,
    List.getD_cons_zero, List.getD_cons_succ]
  rw [show UInt32.toNat 8 % 32 = 8 from rfl, show UInt32.toNat 16 % 32 = 16 from rfl,
    show UInt32.toNat 24 % 32 = 24 from rfl, shifted_mod small1 (by decide),
    shifted_mod small2 (by decide), shifted_mod small3 (by decide), or_shifted b1.toNat small0,
    or_shifted b2.toNat (by omega), or_shifted b3.toNat (by omega), Nat.mod_eq_of_lt (by omega)]

/-- A word packed with shifts. -/
theorem md5Bytes_lowBytes (x : UInt32) : md5Bytes x = lowBytes x.toNat := by
  have small := x.toNat_lt
  have bits : ((x.toNat : Int) % 2 ^ 32).toNat = x.toNat := by omega
  unfold md5Bytes lowBytes
  rw [bits]
  simp only [List.cons.injEq, and_true, ← UInt8.toNat_inj]
  simp [Nat.shiftRight_eq_div_pow]

/-- The words of a block. -/
theorem md5Words_getD {block : Bytes} {index : Nat} (inside : 4 * index + 4 ≤ block.length) :
    (md5Words block).getD index 0 = word block index := by
  induction index generalizing block with
  | zero =>
    match block, inside with
    | b0 :: b1 :: b2 :: b3 :: rest, _ =>
      rw [md5Words, List.getD_cons_zero, word_shifts _ _ _ _ rest]
      rfl
  | succ index inductionHypothesis =>
    match block, inside with
    | b0 :: b1 :: b2 :: b3 :: rest, inside =>
      simp only [List.length_cons] at inside
      rw [md5Words, List.getD_cons_succ, inductionHypothesis (by omega)]
      rfl

/-- The rotation by shifts. -/
theorem rotateLeft_rotated (x : UInt32) {places : Nat} (positive : 0 < places) (small : places < 32) :
    rotateLeft x (UInt32.ofNat places) = rotated x places := by
  have left : (UInt32.ofNat places).toNat = places := by
    rw [UInt32.toNat_ofNat']
    omega
  have right : (32 - UInt32.ofNat places).toNat = 32 - places := by
    rw [UInt32.toNat_sub, left]
    simp only [UInt32.reduceToNat]
    omega
  apply UInt32.toBitVec_inj.mp
  unfold rotateLeft rotated
  rw [UInt32.toBitVec_or, UInt32.toBitVec_shiftLeft, UInt32.toBitVec_shiftRight,
    BitVec.rotateLeft_def, BitVec.shiftLeft_eq', BitVec.ushiftRight_eq', BitVec.toNat_umod,
    BitVec.toNat_umod]
  have bits : BitVec.toNat (32 : BitVec 32) = 32 := rfl
  have rest : 32 - places < 32 := by omega
  simp only [UInt32.toNat_toBitVec, left, right]
  rw [bits, Nat.mod_eq_of_lt small, Nat.mod_eq_of_lt rest]

/-! ## The operations -/

/-- The registers from one on. -/
def registersFrom (a : Fin 4) (buffer : Buffer) : Registers :=
  ⟨buffer[a], buffer[a + 1], buffer[a + 2], buffer[a + 3]⟩

/-- The variables of `md5_update` before a step: the register it changes comes first. -/
def turned (step : Nat) (buffer : Buffer) : Registers := registersFrom (register step) buffer

/-- The registers after one is changed, from the one before it. -/
theorem registersFrom_set (a : Fin 4) (buffer : Buffer) (x : UInt32) :
    registersFrom (a + 3) (buffer.set a x) = ⟨buffer[a + 3], x, buffer[a + 1], buffer[a + 2]⟩ := by
  have three : ((3 : Fin 4) : Nat) = 3 := rfl
  unfold registersFrom
  match a with
  | 0 => simp [three]
  | 1 => simp [three]
  | 2 => simp [three]
  | 3 => simp [three]

/-- What the tables of the rounds hold for a step. -/
def tableEntry (step : Nat) : Nat × UInt32 × UInt32 :=
  (wordIndex step, UInt32.ofNat (Rfc1321.rotation step), sines.getD step 0)

/-- The tables of the rounds. -/
theorem md5Rounds : md5Round1 = (List.range' 0 16).map tableEntry ∧
    md5Round2 = (List.range' 16 16).map tableEntry ∧
    md5Round3 = (List.range' 32 16).map tableEntry ∧
    md5Round4 = (List.range' 48 16).map tableEntry := by
  decide

/-- Every step rotates by less than a word. -/
theorem rotation_inside {step : Nat} (inside : step < 64) :
    0 < Rfc1321.rotation step ∧ Rfc1321.rotation step < 32 := by
  have all : ∀ step < 64, 0 < Rfc1321.rotation step ∧ Rfc1321.rotation step < 32 := by decide
  exact all step inside

/-- Every step takes a word of the block. -/
theorem wordIndex_inside (step : Nat) : wordIndex step < 16 := by
  unfold wordIndex
  split <;> omega

/-- The register before the one that was changed comes next. -/
theorem register_succ (step : Nat) : register (step + 1) = register step + 3 := by
  apply Fin.ext
  simp only [register, Fin.ofNat, Fin.val_add]
  omega

/-- A macro of the source is an operation. -/
theorem md5Step_operation {block : Bytes} (whole : block.length = 64) (step : Nat) (inside : step < 64)
    (buffer : Buffer) :
    md5Step (roundFunction (step / 16)) (md5Words block) (turned step buffer) (tableEntry step) =
      turned (step + 1) (operation block buffer step) := by
  have index := wordIndex_inside step
  have rotates := rotation_inside inside
  unfold turned
  rw [register_succ]
  unfold md5Step tableEntry operation
  dsimp only
  rw [registersFrom_set, md5Words_getD (by omega), rotateLeft_rotated _ rotates.1 rotates.2]
  unfold registersFrom
  dsimp only
  rw [UInt32.add_comm (rotated _ _)]

/-- A round of macros is a round of operations. -/
theorem round_operations {block : Bytes} (whole : block.length = 64) (round : Nat) (inside : round < 4)
    (buffer : Buffer) :
    ((List.range' (16 * round) 16).map tableEntry).foldl
        (md5Step (roundFunction round) (md5Words block)) (turned (16 * round) buffer) =
      turned (16 * (round + 1)) ((List.range' (16 * round) 16).foldl (operation block) buffer) := by
  have part (count : Nat) (few : count ≤ 16) :
      ((List.range' (16 * round) count).map tableEntry).foldl
          (md5Step (roundFunction round) (md5Words block)) (turned (16 * round) buffer) =
        turned (16 * round + count)
          ((List.range' (16 * round) count).foldl (operation block) buffer) := by
    induction count with
    | zero => rfl
    | succ count inductionHypothesis =>
      have same : (16 * round + count) / 16 = round := by omega
      rw [List.range'_1_concat, List.map_append, List.foldl_append, List.foldl_append,
        inductionHypothesis (by omega)]
      have step := md5Step_operation whole (16 * round + count) (by omega)
        ((List.range' (16 * round) count).foldl (operation block) buffer)
      rw [same] at step
      exact step
  exact part 16 (Nat.le_refl 16)

/-- The variables of the source hold the registers. -/
def registers (buffer : Buffer) : Registers := ⟨buffer[0], buffer[1], buffer[2], buffer[3]⟩

/-- The four rounds of `md5_update`. -/
theorem md5Rounds_operations {block : Bytes} (whole : block.length = 64) (buffer : Buffer) :
    md5Round4.foldl (md5Step md5I (md5Words block))
        (md5Round3.foldl (md5Step md5H (md5Words block))
          (md5Round2.foldl (md5Step md5G (md5Words block))
            (md5Round1.foldl (md5Step md5F (md5Words block)) (registers buffer)))) =
      registers ((List.range 64).foldl (operation block) buffer) := by
  obtain ⟨first, second, third, fourth⟩ := md5Rounds
  have steps : List.range 64 = List.range' (16 * 0) 16 ++ List.range' (16 * 1) 16 ++
      List.range' (16 * 2) 16 ++ List.range' (16 * 3) 16 := by decide
  rw [first, second, third, fourth, steps, List.foldl_append, List.foldl_append, List.foldl_append]
  have before (buffer : Buffer) : registers buffer = turned (16 * 0) buffer := rfl
  have after (buffer : Buffer) : registers buffer = turned (16 * (3 + 1)) buffer := rfl
  rw [before buffer, after]
  rw [← round_operations whole 3 (by decide), ← round_operations whole 2 (by decide),
    ← round_operations whole 1 (by decide), ← round_operations whole 0 (by decide)]
  rfl

/-- `md5_update` takes in a block. -/
theorem md5Update_compress {block : Bytes} (whole : block.length = 64) (chunks : Nat)
    (buffer : Buffer) :
    md5Update ⟨chunks, registers buffer⟩ block = ⟨chunks + 1, registers (compress buffer block)⟩ := by
  unfold md5Update
  dsimp only
  rw [md5Rounds_operations whole]
  unfold registers compress
  simp only [Vector.getElem_zipWith]

/-- The loop of `md5_compute` takes in the whole blocks. -/
theorem md5Chunks_blocks {count : Nat} {data : Bytes} (enough : count * 64 ≤ data.length)
    (chunks : Nat) (buffer : Buffer) :
    md5Chunks count ⟨chunks, registers buffer⟩ data =
      (⟨chunks + count, registers (takeBlocks compress 64 count buffer data)⟩,
        data.drop (count * 64)) := by
  induction count generalizing data chunks buffer with
  | zero =>
    rw [Nat.zero_mul, List.drop_zero]
    rfl
  | succ count inductionHypothesis =>
    have first : 64 ≤ data.length := by omega
    have block : (data.take 64).length = 64 := List.length_take_of_le first
    rw [md5Chunks, if_pos first, md5Update_compress block, inductionHypothesis, List.drop_drop]
    · rw [show chunks + 1 + count = chunks + (count + 1) by omega,
        show 64 + count * 64 = (count + 1) * 64 by omega]
      rfl
    · rw [List.length_drop]
      omega

/-! ## The end of the message -/

/-- A block with a text and zeros, where the length is written over some of them. -/
theorem lastBlock {text : Bytes} (fits : text.length ≤ 56) (bytes : Bytes) :
    (text ++ List.replicate (64 - text.length) 0).take 56 ++ bytes ++
        (text ++ List.replicate (64 - text.length) 0).drop 60 =
      text ++ (List.replicate (56 - text.length) 0 ++ (bytes ++ [0, 0, 0, 0])) := by
  have zeros : List.replicate (64 - text.length) (0 : UInt8) =
      List.replicate (56 - text.length) 0 ++ [0, 0, 0, 0] ++ [0, 0, 0, 0] := by
    rw [show 64 - text.length = (56 - text.length) + 4 + 4 by omega, List.replicate_add,
      List.replicate_add]
    rfl
  have front : (text ++ List.replicate (56 - text.length) (0 : UInt8)).length = 56 := by
    rw [List.length_append, List.length_replicate]
    omega
  have more : (text ++ List.replicate (56 - text.length) (0 : UInt8) ++ [0, 0, 0, 0]).length = 60 := by
    rw [List.length_append, front]
    rfl
  rw [zeros, ← List.append_assoc, ← List.append_assoc, List.drop_left' more,
    List.append_assoc (text ++ List.replicate (56 - text.length) 0), List.take_left' front]
  simp only [List.append_assoc]

/-- The low word of the length is all of it. -/
theorem lengthField_short {length : Nat} (short : length < 2 ^ 29) :
    lengthField length = md5Bytes (UInt32.ofNat (length * 8)) ++ [0, 0, 0, 0] := by
  have low : (UInt32.ofNat (length * 8)).toNat = 8 * length := by
    rw [UInt32.toNat_ofNat']
    omega
  have high : 8 * length / 2 ^ 32 = 0 := by omega
  unfold lengthField
  rw [md5Bytes_lowBytes, low, high]
  rfl

/-- The registers as bytes. -/
theorem output_registers (buffer : Buffer) :
    output buffer = md5Bytes (registers buffer).a ++ md5Bytes (registers buffer).b ++
      md5Bytes (registers buffer).c ++ md5Bytes (registers buffer).d := by
  simp only [md5Bytes_lowBytes, registers, output]

/-- The last block is taken in. -/
theorem md5Update_last (chunks : Nat) (buffer : Buffer) (text : Bytes) (fits : text.length ≤ 56)
    (length : UInt32) :
    md5Update ⟨chunks, registers buffer⟩
        ((text ++ List.replicate (64 - text.length) 0).take 56 ++ md5Bytes length ++
          (text ++ List.replicate (64 - text.length) 0).drop 60) =
      ⟨chunks + 1, registers (absorb compress 64 buffer
        (text ++ (List.replicate (56 - text.length) 0 ++ (md5Bytes length ++ [0, 0, 0, 0]))))⟩ := by
  have block : (text ++ (List.replicate (56 - text.length) 0 ++
      (md5Bytes length ++ [0, 0, 0, 0]))).length = 64 := by
    simp only [List.length_append, List.length_replicate, md5Bytes, List.length_cons, List.length_nil]
    omega
  rw [lastBlock fits, md5Update_compress block, absorb_block compress (by decide) block]

/-- `md5_compute` after whole blocks computes the digest of them and the data. -/
theorem md5Compute_digest {front data : Bytes} {chunks : Nat} (whole : front.length = 64 * chunks)
    (short : front.length + data.length < 2 ^ 29) :
    md5Compute ⟨chunks, registers (absorb compress 64 initial front)⟩ data =
      digest (front ++ data) := by
  have enough : data.length / 64 * 64 ≤ data.length := Nat.div_mul_le_self data.length 64
  have taking := takeBlocks_take compress 64 enough (absorb compress 64 initial front)
  have divided : 64 ∣ (data.take (data.length / 64 * 64)).length := by
    rw [List.length_take_of_le enough]
    exact Nat.dvd_mul_left _ _
  obtain ⟨tail, cut⟩ : ∃ tail, data.drop (data.length / 64 * 64) = tail := ⟨_, rfl⟩
  have rest : tail.length = data.length % 64 := by
    rw [← cut, List.length_drop]
    omega
  obtain ⟨buffer, taken⟩ : ∃ buffer, takeBlocks compress 64 (data.length / 64)
      (absorb compress 64 initial front) data = buffer := ⟨_, rfl⟩
  have absorbed : absorb compress 64 initial (front ++ data.take (data.length / 64 * 64)) = buffer := by
    rw [absorb_append compress (by decide) ⟨chunks, whole⟩, ← taken, taking]
    unfold absorb
    rw [List.length_take_of_le enough, Nat.mul_div_cancel _ (by decide)]
  have counted : tail.length + (chunks + data.length / 64) * 64 = (front ++ data).length := by
    rw [List.length_append]
    omega
  have field : lengthField (front ++ data).length =
      md5Bytes (UInt32.ofNat ((tail.length + (chunks + data.length / 64) * 64) * 8)) ++ [0, 0, 0, 0] := by
    rw [counted, lengthField_short (by rw [List.length_append]; exact short)]
  -- What is left for the last blocks, in the description.
  have last : digest (front ++ data) = output (absorb compress 64 buffer
      (tail ++ 0x80 :: (List.replicate (padZeros 64 8 (front ++ data).length) 0 ++
        lengthField (front ++ data).length))) := by
    have parts : front ++ data = front ++ data.take (data.length / 64 * 64) ++ tail := by
      rw [← cut, List.append_assoc, List.take_append_drop]
    have blocks : 64 ∣ (front ++ data.take (data.length / 64 * 64)).length := by
      rw [List.length_append]
      exact Nat.dvd_add ⟨chunks, whole⟩ divided
    unfold digest padded
    generalize List.replicate _ 0 ++ lengthField _ = behind
    rw [parts, List.append_assoc, absorb_append compress (by decide) blocks, absorbed]
  rw [last, field]
  unfold md5Compute
  rw [md5Chunks_blocks enough, taken, cut]
  dsimp only
  by_cases long : tail.length > 55
  · -- The mark fills the block, and a block of zeros follows for the length.
    rw [if_pos long]
    dsimp only
    have zeros : padZeros 64 8 (front ++ data).length = (63 - tail.length) + 56 := by
      apply padZeros_unique (by decide) (by omega)
      omega
    have block : (tail ++ [0x80] ++ List.replicate (63 - tail.length) (0 : UInt8)).length = 64 := by
      simp only [List.length_append, List.length_replicate, List.length_cons, List.length_nil]
      omega
    have final := md5Update_last (chunks + data.length / 64) (compress buffer
      (tail ++ [0x80] ++ List.replicate (63 - tail.length) 0)) [] (by decide)
      (UInt32.ofNat ((tail.length + (chunks + data.length / 64) * 64) * 8))
    simp only [List.nil_append, List.length_nil, Nat.sub_zero] at final
    rw [md5Update_compress block, Nat.add_sub_cancel]
    dsimp only
    rw [final, zeros, List.replicate_add]
    generalize md5Bytes (UInt32.ofNat _) ++ [0, 0, 0, 0] = length
    have parts : tail ++ 0x80 :: (List.replicate (63 - tail.length) 0 ++ List.replicate 56 0 ++ length) =
        (tail ++ [0x80] ++ List.replicate (63 - tail.length) 0) ++ (List.replicate 56 0 ++ length) := by
      simp only [List.append_assoc, List.cons_append, List.nil_append]
    have divides : 64 ∣ (tail ++ [0x80] ++ List.replicate (63 - tail.length) (0 : UInt8)).length := by
      rw [block]
    rw [parts, absorb_append compress (by decide) divides, absorb_block compress (by decide) block,
      output_registers]
  · rw [if_neg long]
    have marked : (tail ++ [(0x80 : UInt8)]).length = tail.length + 1 := by
      rw [List.length_append]
      rfl
    have zeros : padZeros 64 8 (front ++ data).length = 56 - (tail ++ [(0x80 : UInt8)]).length := by
      rw [marked]
      apply padZeros_unique (by decide) (by omega)
      omega
    have width : 63 - tail.length = 64 - (tail ++ [(0x80 : UInt8)]).length := by
      rw [marked]
      omega
    dsimp only
    rw [width, md5Update_last _ _ _ (by rw [marked]; omega), zeros, output_registers,
      List.append_assoc tail]
    rfl

/-- The masked key is one block. -/
theorem md5Cram_block {key : Bytes} (block : key.length = 64) :
    md5Update md5Init key = ⟨1, registers (absorb compress 64 initial key)⟩ := by
  rw [absorb_block compress (by decide) block, ← Nat.zero_add 1, ← md5Update_compress block]
  rfl

/-- A digest has 16 bytes. -/
theorem digest_length (message : Bytes) : (digest message).length = 16 := by
  simp only [digest, output, List.length_append, lowBytes, List.length_cons, List.length_nil]

/-- `md5_get` computes the digest. -/
theorem md5Get_digest {data : Bytes} (short : data.length < 2 ^ 29) : md5Get data = digest data := by
  have behind : ([] : Bytes).length + data.length < 2 ^ 29 := by
    rwa [List.length_nil, Nat.zero_add]
  have start : md5Init = ⟨0, registers (absorb compress 64 initial [])⟩ := rfl
  have none_ : ([] : Bytes).length = 64 * 0 := rfl
  unfold md5Get
  rw [start, md5Compute_digest none_ behind, List.nil_append]

/-- `md5_get` is the digest of RFC-1321, and `md5_cram_get` the keyed digest with it. -/
theorem md5_digests :
    (∀ data : Bytes, data.length < 2 ^ 29 → md5Get data = digest data) ∧
      ∀ secret challenge : Bytes, secret.length < 2 ^ 29 → challenge.length + 64 < 2 ^ 29 →
        md5CramGet secret challenge =
          hmac 64 0 (· ^^^ 0x36) (· ^^^ 0x5c) digest secret challenge := by
  refine ⟨fun data short => md5Get_digest short, ?_⟩
  intro secret challenge short fits
  have block : (keyBlock 64 0 digest secret).length = 64 := by
    apply keyBlock_length
    rw [digest_length]
    decide
  have masked (mask : UInt8) (text : Bytes) (inside : text.length + 64 < 2 ^ 29) :
      md5Compute (md5Update md5Init ((keyBlock 64 0 digest secret).map (· ^^^ mask))) text =
        digest ((keyBlock 64 0 digest secret).map (· ^^^ mask) ++ text) := by
    have length : ((keyBlock 64 0 digest secret).map (· ^^^ mask)).length = 64 := by
      rw [List.length_map, block]
    rw [md5Cram_block length]
    apply md5Compute_digest length
    omega
  have key : keyBlock 64 0 digest secret =
      (if secret.length > 64 then md5Get secret else secret) ++
        List.replicate (64 - (if secret.length > 64 then md5Get secret else secret).length) 0 := by
    rw [md5Get_digest short]
    rfl
  unfold md5CramGet hmac
  dsimp only
  rw [← key, masked 0x36 challenge fits, masked 0x5c _ (by rw [digest_length]; decide)]

/-- The digest of no bytes, and a key of a whole block. -/
theorem md5_digests_empty :
    md5Get [] = digest [] ∧
      md5CramGet (List.replicate 64 112) [] =
        hmac 64 0 (· ^^^ 0x36) (· ^^^ 0x5c) digest (List.replicate 64 112) [] :=
  ⟨md5_digests.1 [] (by decide), md5_digests.2 (List.replicate 64 112) [] (by simp) (by simp)⟩

end Binkleyforce
