import Binkleyforce.Util.CheckSums

/-!
# What check sums leave at the receiver

A frame ends with its check sum, and the receiver takes in both. Hydra and Zmodem send the
complement of a sum, the low byte first, and look for a constant; the CRC with 16 bits of Zmodem is
sent as it is, the high byte first, and nothing is to be left. The table of the latter is
used in two ways: `getcrc16xmodem` takes a byte at the top of the register, and `updcrc16` shifts it
in from below.
-/

namespace Binkleyforce

open Library

/-- `updcrc16`, as it is assigned to an `unsigned short`. -/
def updcrc16 (cp : UInt8) (crc : UInt16) : UInt16 :=
  crc16XmodemTab.getD ((crc >>> 8) &&& 0xff).toNat 0 ^^^ (crc <<< 8) ^^^ cp.toUInt16

/-- The sum that `zsdata` and `zrdat16` keep of their bytes. -/
def zmodemCrc16 (buffer : Bytes) : UInt16 := buffer.foldl (fun crc char => updcrc16 char crc) 0

/-- The bytes `zsdata` ends a frame with: those of the sum after two zeros, the high one first. -/
def zmodemCrc16Bytes (buffer : Bytes) : Bytes :=
  let crc := updcrc16 0 (updcrc16 0 (zmodemCrc16 buffer))
  [(crc >>> 8).toUInt8, crc.toUInt8]

/-- The bytes of the CRC, the high one first. -/
def crc16XmodemBytes (buffer : Bytes) : Bytes :=
  let crc := getcrc16xmodem buffer
  [(crc >>> 8).toUInt8, crc.toUInt8]

/-- A frame that ends with its sum leaves the residue, and no longer does after one byte was changed. -/
def Guards {σ : Type} (sum : Bytes → σ) (ending : Bytes → Bytes) (residue : σ) : Prop :=
  ∀ buffer, sum (buffer ++ ending buffer) = residue ∧
    ∀ index byte old, (buffer ++ ending buffer)[index]? = some old → byte ≠ old →
      sum ((buffer ++ ending buffer).set index byte) ≠ residue

/-! ## The tables -/

/-- The entries of the table of `getcrc16xmodem`. -/
def crc16XmodemEntry (byte : BitVec 8) : BitVec 16 := (crc16XmodemTab.getD byte.toNat 0).toBitVec

/-- What holds of all numbers below 256 holds of all bytes. -/
theorem byte_forall {property : BitVec 8 → Prop} (all : ∀ value < 256, property (BitVec.ofNat 8 value))
    (byte : BitVec 8) : property byte := by
  have one := all byte.toNat byte.isLt
  rwa [BitVec.ofNat_toNat, BitVec.setWidth_eq] at one

/-- The entry of a table is what its place in the list makes it. -/
theorem entry_remainder {word : Type} {w : Nat} {table : List word} {zero : word} {register : word → BitVec w}
    {remainder : BitVec 8 → BitVec w}
    (all : table.map register = (List.range 256).map fun value => remainder (BitVec.ofNat 8 value)) (byte : BitVec 8) :
    register (table.getD byte.toNat zero) = remainder byte := by
  have inside : byte.toNat < 256 := byte.isLt
  have size : table.length = 256 := by
    have sizes := congrArg List.length all
    rwa [List.length_map, List.length_map, List.length_range] at sizes
  have one := congrArg (fun list => list[byte.toNat]?) all
  simp only [List.getElem?_map, List.getElem?_range inside, Option.map_some, BitVec.ofNat_toNat,
    BitVec.setWidth_eq] at one
  rw [List.getElem?_eq_getElem (by omega), Option.map_some] at one
  rw [List.getD_eq_getElem?_getD, List.getElem?_eq_getElem (by omega), Option.getD_some]
  exact Option.some.inj one

/-- The tables hold the results of eight shifts. -/
theorem tables_remainders :
    (crc16Tab.map UInt16.toBitVec = (List.range 256).map fun value => remainderLow 0x8408#16 (BitVec.ofNat 8 value)) ∧
      (crc32Tab.map UInt64.toBitVec =
        (List.range 256).map fun value => remainderLow 0xedb88320#64 (BitVec.ofNat 8 value)) ∧
      (crc16XmodemTab.map UInt16.toBitVec =
        (List.range 256).map fun value => remainderHigh 0x1021#16 (BitVec.ofNat 8 value)) := by
  decide +kernel

/-- The feedback terms are the results of eight shifts, for the polynomial `0x8408`, -/
theorem crc16Entry_remainder (byte : BitVec 8) : crc16Entry byte = remainderLow 0x8408#16 byte :=
  entry_remainder tables_remainders.1 byte

/-- for `0xedb88320`, -/
theorem crc32Entry_remainder (byte : BitVec 8) : crc32Entry byte = remainderLow 0xedb88320#64 byte :=
  entry_remainder tables_remainders.2.1 byte

/-- and from the other side for `0x1021`. -/
theorem crc16XmodemEntry_remainder (byte : BitVec 8) : crc16XmodemEntry byte = remainderHigh 0x1021#16 byte :=
  entry_remainder tables_remainders.2.2 byte

theorem crc16Entry_xor (one other : BitVec 8) : crc16Entry (one ^^^ other) = crc16Entry one ^^^ crc16Entry other := by
  simp only [crc16Entry_remainder, remainderLow_xor]

theorem crc32Entry_xor (one other : BitVec 8) : crc32Entry (one ^^^ other) = crc32Entry one ^^^ crc32Entry other := by
  simp only [crc32Entry_remainder, remainderLow_xor]

theorem crc16XmodemEntry_xor (one other : BitVec 8) :
    crc16XmodemEntry (one ^^^ other) = crc16XmodemEntry one ^^^ crc16XmodemEntry other := by
  simp only [crc16XmodemEntry_remainder, remainderHigh_xor]

/-- A part of a remainder is zero for no other byte than zero, and the second one has no more than 32 bits. -/
theorem remainders_known (byte : BitVec 8) : (remainderLow 0x8408#16 byte >>> 8 = 0#16 → byte = 0#8) ∧
    (remainderLow 0xedb88320#64 byte >>> 24 = 0#64 → byte = 0#8) ∧ remainderLow 0xedb88320#64 byte >>> 32 = 0#64 ∧
    ((remainderHigh 0x1021#16 byte).setWidth 8 = 0#8 → byte = 0#8) := by
  revert byte
  apply byte_forall
  decide +kernel

/-- No byte goes unnoticed in the sum of 16 bits, -/
theorem crc16_separates : Separates (takeByte crc16Entry) fun register => register >>> 16 = 0#16 := by
  apply takeByte_separates crc16Entry 8
  · apply known_entry (fun register => register >>> 8) crc16Entry_xor
    · intro one other
      exact BitVec.ushiftRight_xor_distrib one other 8
    · simp only [crc16Entry_remainder]
      exact fun byte => (remainders_known byte).1
  · intro byte
    exact BitVec.ushiftRight_eq_zero (Nat.le_refl 16)

/-- nor in that of 32 bits, -/
theorem crc32_separates : Separates (takeByte crc32Entry) fun register => register >>> 32 = 0#64 := by
  apply takeByte_separates crc32Entry 24
  · apply known_entry (fun register => register >>> 24) crc32Entry_xor
    · intro one other
      exact BitVec.ushiftRight_xor_distrib one other 24
    · simp only [crc32Entry_remainder]
      exact fun byte => (remainders_known byte).2.1
  · simp only [crc32Entry_remainder]
    exact fun byte => (remainders_known byte).2.2.1

/-- and the low byte of an entry of the third table tells which one it is. -/
theorem crc16XmodemEntry_known (one other : BitVec 8)
    (same : (crc16XmodemEntry one).setWidth 8 = (crc16XmodemEntry other).setWidth 8) : one = other := by
  apply known_entry (BitVec.setWidth 8) crc16XmodemEntry_xor
  · intro one other
    exact BitVec.setWidth_xor
  · simp only [crc16XmodemEntry_remainder]
    exact fun byte => (remainders_known byte).2.2.2
  · exact same

/-! ## The registers -/

/-- The index of an entry is the high byte of the register. -/
theorem high_index (crc : UInt16) : ((crc >>> 8) &&& 0xff).toNat = (highByte crc.toBitVec).toNat := by
  have low : ((crc >>> 8) &&& 0xff).toNat = (crc >>> 8).toNat % 2 ^ 8 := by
    rw [UInt16.toNat_and]
    exact Nat.and_two_pow_sub_one_eq_mod _ 8
  unfold highByte
  rw [low, BitVec.toNat_setWidth]
  rfl

/-- A byte is shifted into the sum of Zmodem. -/
theorem updcrc16_step (crc : UInt16) (char : UInt8) :
    (updcrc16 char crc).toBitVec = shiftIn crc16XmodemEntry crc.toBitVec char.toBitVec := by
  unfold updcrc16 shiftIn crc16XmodemEntry
  rw [UInt16.toBitVec_xor, UInt16.toBitVec_xor, high_index]
  rfl

/-- A byte is taken into the sum at the top. -/
theorem crc16Xmodem_step (crc : UInt16) (char : UInt8) :
    (crc16XmodemTab.getD ((((crc >>> 8) &&& 0xff) ^^^ char.toUInt16) &&& 0xff).toNat 0 ^^^ (crc <<< 8)).toBitVec =
      takeHigh crc16XmodemEntry crc.toBitVec char.toBitVec := by
  have low : ((((crc >>> 8) &&& 0xff) ^^^ char.toUInt16) &&& 0xff).toNat =
      (((crc >>> 8) &&& 0xff) ^^^ char.toUInt16).toNat % 2 ^ 8 := by
    rw [UInt16.toNat_and]
    exact Nat.and_two_pow_sub_one_eq_mod _ 8
  have index : ((((crc >>> 8) &&& 0xff) ^^^ char.toUInt16) &&& 0xff).toNat =
      (highByte crc.toBitVec ^^^ char.toBitVec).toNat := by
    rw [low, UInt16.toNat_xor, high_index, UInt8.toNat_toUInt16, BitVec.toNat_xor]
    exact Nat.mod_eq_of_lt (Nat.xor_lt_two_pow (highByte crc.toBitVec).isLt char.toBitVec.isLt)
  unfold takeHigh crc16XmodemEntry
  rw [UInt16.toBitVec_xor, index]
  rfl

theorem zmodemCrc16_register (buffer : Bytes) (crc : UInt16) :
    (buffer.foldl (fun crc char => updcrc16 char crc) crc).toBitVec =
      (buffer.map UInt8.toBitVec).foldl (shiftIn crc16XmodemEntry) crc.toBitVec := by
  induction buffer generalizing crc with
  | nil => rfl
  | cons char rest inductionHypothesis =>
    rw [List.foldl_cons, inductionHypothesis, updcrc16_step]
    rfl

theorem getcrc16xmodem_register (buffer : Bytes) (crc : UInt16) :
    (buffer.foldl (fun (crc : UInt16) char =>
        crc16XmodemTab.getD ((((crc >>> 8) &&& 0xff) ^^^ char.toUInt16) &&& 0xff).toNat 0 ^^^ (crc <<< 8))
          crc).toBitVec =
      (buffer.map UInt8.toBitVec).foldl (takeHigh crc16XmodemEntry) crc.toBitVec := by
  induction buffer generalizing crc with
  | nil => rfl
  | cons char rest inductionHypothesis =>
    rw [List.foldl_cons, inductionHypothesis, crc16Xmodem_step]
    rfl

/-- The sum of Zmodem after two zeros is the CRC. -/
theorem zmodemCrc16_xmodem (buffer : Bytes) :
    updcrc16 0 (updcrc16 0 (zmodemCrc16 buffer)) = getcrc16xmodem buffer := by
  apply UInt16.toBitVec_inj.mp
  have start : shiftIn crc16XmodemEntry (shiftIn crc16XmodemEntry 0#16 0#8) 0#8 = 0#16 := by decide
  have moved := shiftIn_takeHigh crc16XmodemEntry_xor (buffer.map UInt8.toBitVec) 0#16
  rw [start] at moved
  unfold zmodemCrc16 getcrc16xmodem
  rw [updcrc16_step, updcrc16_step, zmodemCrc16_register, getcrc16xmodem_register]
  exact moved

/-- So the bytes sent are those of the CRC. -/
theorem zmodemCrc16Bytes_xmodem (buffer : Bytes) : zmodemCrc16Bytes buffer = crc16XmodemBytes buffer := by
  unfold zmodemCrc16Bytes crc16XmodemBytes
  rw [zmodemCrc16_xmodem]

/-- The bytes of a sum as they are sent, the high one first. -/
theorem high_bytes (crc : UInt16) : [(crc >>> 8).toUInt8, crc.toUInt8].map UInt8.toBitVec =
    [highByte crc.toBitVec, crc.toBitVec.setWidth 8] := rfl

/-! ## The frames -/

/-- A sum that is a register which keeps its states apart guards its frames, if all of them leave the
residue. -/
theorem guards_of {σ : Type} {w : Nat} {step : BitVec w → BitVec 8 → BitVec w} {valid : BitVec w → Prop}
    (separates : Separates step valid) {start : BitVec w} (begins : valid start) {sum : Bytes → σ}
    {register : σ → BitVec w}
    (registers : ∀ buffer, register (sum buffer) = (buffer.map UInt8.toBitVec).foldl step start)
    {ending : Bytes → Bytes} {residue : σ} (whole : ∀ buffer, sum (buffer ++ ending buffer) = residue) :
    Guards sum ending residue := by
  intro buffer
  refine ⟨whole buffer, fun index byte old stands changed same => ?_⟩
  have sums := congrArg register (same.trans (whole buffer).symm)
  rw [registers, registers, List.map_set] at sums
  apply separates.foldl_set begins _ _ sums
  · exact old.toBitVec
  · rw [List.getElem?_map, stands]
    rfl
  · exact fun bytes => changed (UInt8.toBitVec_inj.mp bytes)

/-- The sum of Zmodem leaves nothing. -/
theorem zmodemCrc16_appended (buffer : Bytes) : zmodemCrc16 (buffer ++ crc16XmodemBytes buffer) = 0 := by
  apply UInt16.toBitVec_inj.mp
  have own := shiftIn_own crc16XmodemEntry_xor (zmodemCrc16 buffer).toBitVec
  have sum := congrArg UInt16.toBitVec (zmodemCrc16_xmodem buffer)
  have zero : (0 : UInt8).toBitVec = 0#8 := rfl
  rw [updcrc16_step, updcrc16_step, zero] at sum
  rw [sum] at own
  unfold zmodemCrc16 at own ⊢
  unfold crc16XmodemBytes
  rw [List.foldl_append, zmodemCrc16_register, high_bytes]
  exact own

/-- Nor does the CRC where the bytes are taken at the top. -/
theorem crc16Xmodem_appended (buffer : Bytes) : getcrc16xmodem (buffer ++ crc16XmodemBytes buffer) = 0 := by
  apply UInt16.toBitVec_inj.mp
  have own := takeHigh_own (linear_zero crc16XmodemEntry_xor) (getcrc16xmodem buffer).toBitVec
  unfold crc16XmodemBytes
  generalize sum : getcrc16xmodem buffer = crc at own ⊢
  unfold getcrc16xmodem at sum ⊢
  rw [List.foldl_append, sum, getcrc16xmodem_register, high_bytes]
  exact own

/-- The CRCs of Hydra and Zmodem leave their residues, and do so for no frame in which one byte was
changed. -/
theorem crc_residues :
    Guards getcrc16ccitt crc16Bytes 0xf0b8 ∧ Guards getcrc32ccitt crc32Bytes 0xdebb20e3 ∧
      Guards zmodemCrc16 crc16XmodemBytes 0 ∧ Guards getcrc16xmodem crc16XmodemBytes 0 ∧
        ∀ buffer, zmodemCrc16Bytes buffer = crc16XmodemBytes buffer := by
  refine ⟨?_, ?_, ?_, ?_, zmodemCrc16Bytes_xmodem⟩
  · have begins : 0xffff#16 >>> 16 = 0#16 := by decide
    apply guards_of crc16_separates begins
    · intro buffer
      exact getcrc16ccitt_register buffer 0xffff
    · exact fun buffer => of_decide_eq_true (crc16Test_appended buffer)
  · have begins : 0xffffffff#64 >>> 32 = 0#64 := by decide
    apply guards_of crc32_separates begins
    · intro buffer
      exact (getcrc32ccitt_register buffer 0xffffffff (by decide)).2
    · exact fun buffer => of_decide_eq_true (crc32Test_appended buffer)
  · apply guards_of (shiftIn_separates crc16XmodemEntry (by decide) crc16XmodemEntry_known) trivial
    · intro buffer
      exact zmodemCrc16_register buffer 0
    · exact zmodemCrc16_appended
  · apply guards_of (takeHigh_separates crc16XmodemEntry (by decide) crc16XmodemEntry_known) trivial
    · intro buffer
      exact getcrc16xmodem_register buffer 0
    · exact crc16Xmodem_appended

end Binkleyforce
