import Binkleyforce.Library.Checksum
import Binkleyforce.Util.FileNames

/-!
# The check sums of packets

The two CRCs with 16 bits, and what the sums of Hydra come to over a packet that ends with
its own.
-/

namespace Binkleyforce

open Library

/-- `TableCRC16CCITT`. -/
def crc16Tab : List UInt16 :=
  [0x0000, 0x1189, 0x2312, 0x329b, 0x4624, 0x57ad, 0x6536, 0x74bf, 0x8c48, 0x9dc1, 0xaf5a,
   0xbed3, 0xca6c, 0xdbe5, 0xe97e, 0xf8f7, 0x1081, 0x0108, 0x3393, 0x221a, 0x56a5, 0x472c,
   0x75b7, 0x643e, 0x9cc9, 0x8d40, 0xbfdb, 0xae52, 0xdaed, 0xcb64, 0xf9ff, 0xe876, 0x2102,
   0x308b, 0x0210, 0x1399, 0x6726, 0x76af, 0x4434, 0x55bd, 0xad4a, 0xbcc3, 0x8e58, 0x9fd1,
   0xeb6e, 0xfae7, 0xc87c, 0xd9f5, 0x3183, 0x200a, 0x1291, 0x0318, 0x77a7, 0x662e, 0x54b5,
   0x453c, 0xbdcb, 0xac42, 0x9ed9, 0x8f50, 0xfbef, 0xea66, 0xd8fd, 0xc974, 0x4204, 0x538d,
   0x6116, 0x709f, 0x0420, 0x15a9, 0x2732, 0x36bb, 0xce4c, 0xdfc5, 0xed5e, 0xfcd7, 0x8868,
   0x99e1, 0xab7a, 0xbaf3, 0x5285, 0x430c, 0x7197, 0x601e, 0x14a1, 0x0528, 0x37b3, 0x263a,
   0xdecd, 0xcf44, 0xfddf, 0xec56, 0x98e9, 0x8960, 0xbbfb, 0xaa72, 0x6306, 0x728f, 0x4014,
   0x519d, 0x2522, 0x34ab, 0x0630, 0x17b9, 0xef4e, 0xfec7, 0xcc5c, 0xddd5, 0xa96a, 0xb8e3,
   0x8a78, 0x9bf1, 0x7387, 0x620e, 0x5095, 0x411c, 0x35a3, 0x242a, 0x16b1, 0x0738, 0xffcf,
   0xee46, 0xdcdd, 0xcd54, 0xb9eb, 0xa862, 0x9af9, 0x8b70, 0x8408, 0x9581, 0xa71a, 0xb693,
   0xc22c, 0xd3a5, 0xe13e, 0xf0b7, 0x0840, 0x19c9, 0x2b52, 0x3adb, 0x4e64, 0x5fed, 0x6d76,
   0x7cff, 0x9489, 0x8500, 0xb79b, 0xa612, 0xd2ad, 0xc324, 0xf1bf, 0xe036, 0x18c1, 0x0948,
   0x3bd3, 0x2a5a, 0x5ee5, 0x4f6c, 0x7df7, 0x6c7e, 0xa50a, 0xb483, 0x8618, 0x9791, 0xe32e,
   0xf2a7, 0xc03c, 0xd1b5, 0x2942, 0x38cb, 0x0a50, 0x1bd9, 0x6f66, 0x7eef, 0x4c74, 0x5dfd,
   0xb58b, 0xa402, 0x9699, 0x8710, 0xf3af, 0xe226, 0xd0bd, 0xc134, 0x39c3, 0x284a, 0x1ad1,
   0x0b58, 0x7fe7, 0x6e6e, 0x5cf5, 0x4d7c, 0xc60c, 0xd785, 0xe51e, 0xf497, 0x8028, 0x91a1,
   0xa33a, 0xb2b3, 0x4a44, 0x5bcd, 0x6956, 0x78df, 0x0c60, 0x1de9, 0x2f72, 0x3efb, 0xd68d,
   0xc704, 0xf59f, 0xe416, 0x90a9, 0x8120, 0xb3bb, 0xa232, 0x5ac5, 0x4b4c, 0x79d7, 0x685e,
   0x1ce1, 0x0d68, 0x3ff3, 0x2e7a, 0xe70e, 0xf687, 0xc41c, 0xd595, 0xa12a, 0xb0a3, 0x8238,
   0x93b1, 0x6b46, 0x7acf, 0x4854, 0x59dd, 0x2d62, 0x3ceb, 0x0e70, 0x1ff9, 0xf78f, 0xe606,
   0xd49d, 0xc514, 0xb1ab, 0xa022, 0x92b9, 0x8330, 0x7bc7, 0x6a4e, 0x58d5, 0x495c, 0x3de3,
   0x2c6a, 0x1ef1, 0x0f78]

/-- `getcrc16ccitt`. -/
def getcrc16ccitt (buffer : Bytes) : UInt16 :=
  buffer.foldl (fun crc char =>
    crc16Tab.getD ((crc ^^^ char.toUInt16) &&& 0xff).toNat 0 ^^^ ((crc >>> 8) &&& 0x00ff)) 0xffff

/-- `TableCRC16Xmodem`. -/
def crc16XmodemTab : List UInt16 :=
  [0x0000, 0x1021, 0x2042, 0x3063, 0x4084, 0x50a5, 0x60c6, 0x70e7, 0x8108, 0x9129, 0xa14a,
   0xb16b, 0xc18c, 0xd1ad, 0xe1ce, 0xf1ef, 0x1231, 0x0210, 0x3273, 0x2252, 0x52b5, 0x4294,
   0x72f7, 0x62d6, 0x9339, 0x8318, 0xb37b, 0xa35a, 0xd3bd, 0xc39c, 0xf3ff, 0xe3de, 0x2462,
   0x3443, 0x0420, 0x1401, 0x64e6, 0x74c7, 0x44a4, 0x5485, 0xa56a, 0xb54b, 0x8528, 0x9509,
   0xe5ee, 0xf5cf, 0xc5ac, 0xd58d, 0x3653, 0x2672, 0x1611, 0x0630, 0x76d7, 0x66f6, 0x5695,
   0x46b4, 0xb75b, 0xa77a, 0x9719, 0x8738, 0xf7df, 0xe7fe, 0xd79d, 0xc7bc, 0x48c4, 0x58e5,
   0x6886, 0x78a7, 0x0840, 0x1861, 0x2802, 0x3823, 0xc9cc, 0xd9ed, 0xe98e, 0xf9af, 0x8948,
   0x9969, 0xa90a, 0xb92b, 0x5af5, 0x4ad4, 0x7ab7, 0x6a96, 0x1a71, 0x0a50, 0x3a33, 0x2a12,
   0xdbfd, 0xcbdc, 0xfbbf, 0xeb9e, 0x9b79, 0x8b58, 0xbb3b, 0xab1a, 0x6ca6, 0x7c87, 0x4ce4,
   0x5cc5, 0x2c22, 0x3c03, 0x0c60, 0x1c41, 0xedae, 0xfd8f, 0xcdec, 0xddcd, 0xad2a, 0xbd0b,
   0x8d68, 0x9d49, 0x7e97, 0x6eb6, 0x5ed5, 0x4ef4, 0x3e13, 0x2e32, 0x1e51, 0x0e70, 0xff9f,
   0xefbe, 0xdfdd, 0xcffc, 0xbf1b, 0xaf3a, 0x9f59, 0x8f78, 0x9188, 0x81a9, 0xb1ca, 0xa1eb,
   0xd10c, 0xc12d, 0xf14e, 0xe16f, 0x1080, 0x00a1, 0x30c2, 0x20e3, 0x5004, 0x4025, 0x7046,
   0x6067, 0x83b9, 0x9398, 0xa3fb, 0xb3da, 0xc33d, 0xd31c, 0xe37f, 0xf35e, 0x02b1, 0x1290,
   0x22f3, 0x32d2, 0x4235, 0x5214, 0x6277, 0x7256, 0xb5ea, 0xa5cb, 0x95a8, 0x8589, 0xf56e,
   0xe54f, 0xd52c, 0xc50d, 0x34e2, 0x24c3, 0x14a0, 0x0481, 0x7466, 0x6447, 0x5424, 0x4405,
   0xa7db, 0xb7fa, 0x8799, 0x97b8, 0xe75f, 0xf77e, 0xc71d, 0xd73c, 0x26d3, 0x36f2, 0x0691,
   0x16b0, 0x6657, 0x7676, 0x4615, 0x5634, 0xd94c, 0xc96d, 0xf90e, 0xe92f, 0x99c8, 0x89e9,
   0xb98a, 0xa9ab, 0x5844, 0x4865, 0x7806, 0x6827, 0x18c0, 0x08e1, 0x3882, 0x28a3, 0xcb7d,
   0xdb5c, 0xeb3f, 0xfb1e, 0x8bf9, 0x9bd8, 0xabbb, 0xbb9a, 0x4a75, 0x5a54, 0x6a37, 0x7a16,
   0x0af1, 0x1ad0, 0x2ab3, 0x3a92, 0xfd2e, 0xed0f, 0xdd6c, 0xcd4d, 0xbdaa, 0xad8b, 0x9de8,
   0x8dc9, 0x7c26, 0x6c07, 0x5c64, 0x4c45, 0x3ca2, 0x2c83, 0x1ce0, 0x0cc1, 0xef1f, 0xff3e,
   0xcf5d, 0xdf7c, 0xaf9b, 0xbfba, 0x8fd9, 0x9ff8, 0x6e17, 0x7e36, 0x4e55, 0x5e74, 0x2e93,
   0x3eb2, 0x0ed1, 0x1ef0]

/-- `getcrc16xmodem`. -/
def getcrc16xmodem (buffer : Bytes) : UInt16 :=
  buffer.foldl (fun crc char =>
    crc16XmodemTab.getD ((((crc >>> 8) &&& 0xff) ^^^ char.toUInt16) &&& 0xff).toNat 0 ^^^
      (crc <<< 8)) 0

/-- `CRC16TEST`. -/
def crc16Test (crc : UInt16) : Bool := crc = 0xf0b8

/-- `CRC32TEST`. -/
def crc32Test (crc : UInt64) : Bool := crc = 0xdebb20e3

/-- The bytes of a complemented CRC of 16 bits, the low one first. -/
def crc16Bytes (buffer : Bytes) : Bytes :=
  let crc16 := ~~~getcrc16ccitt buffer
  [crc16.toUInt8, (crc16 >>> 8).toUInt8]

/-- The bytes of a complemented CRC of 32 bits, the low one first. -/
def crc32Bytes (buffer : Bytes) : Bytes :=
  let crc32 := ~~~getcrc32ccitt buffer
  [crc32.toUInt8, (crc32 >>> 8).toUInt8, (crc32 >>> 16).toUInt8, (crc32 >>> 24).toUInt8]

/-! ## The residues -/

/-- The entries of the table of the CRC with 16 bits. -/
def crc16Entry (byte : BitVec 8) : BitVec 16 := (crc16Tab.getD byte.toNat 0).toBitVec

/-- The entries of the table of the CRC with 32 bits. -/
def crc32Entry (byte : BitVec 8) : BitVec 64 := (crc32Tab.getD byte.toNat 0).toBitVec

/-- A byte is taken into the sum of 16 bits. -/
theorem crc16_step (crc : UInt16) (char : UInt8) :
    (crc16Tab.getD ((crc ^^^ char.toUInt16) &&& 0xff).toNat 0 ^^^
        ((crc >>> 8) &&& 0x00ff)).toBitVec =
      takeByte crc16Entry crc.toBitVec char.toBitVec := by
  have low : ((crc ^^^ char.toUInt16) &&& 0xff).toNat = (crc ^^^ char.toUInt16).toNat % 2 ^ 8 := by
    rw [UInt16.toNat_and]
    exact Nat.and_two_pow_sub_one_eq_mod _ 8
  have byte : char.toNat % 2 ^ 8 = char.toNat := Nat.mod_eq_of_lt char.toNat_lt
  have index : ((crc ^^^ char.toUInt16) &&& 0xff).toNat =
      (crc.toBitVec.setWidth 8 ^^^ char.toBitVec).toNat := by
    rw [low, UInt16.toNat_xor, Nat.xor_mod_two_pow, UInt8.toNat_toUInt16, byte, BitVec.toNat_xor,
      BitVec.toNat_setWidth]
    rfl
  have shifted : ((crc >>> 8) &&& 0x00ff).toBitVec = crc.toBitVec >>> 8 := by
    apply BitVec.eq_of_toNat_eq
    have rest : ((crc >>> 8) &&& 0x00ff).toNat = (crc.toNat >>> 8) % 2 ^ 8 := by
      rw [UInt16.toNat_and]
      exact Nat.and_two_pow_sub_one_eq_mod _ 8
    have bound := crc.toNat_lt
    change ((crc >>> 8) &&& 0x00ff).toNat = crc.toNat >>> 8
    rw [rest, Nat.shiftRight_eq_div_pow]
    omega
  unfold takeByte crc16Entry
  rw [UInt16.toBitVec_xor, index, shifted]

/-- A byte is taken into the sum of 32 bits, which has no others. -/
theorem crc32_step (crc : UInt64) (char : UInt8) (short : crc.toNat < 2 ^ 32) :
    (updcrc32 char crc).toBitVec = takeByte crc32Entry crc.toBitVec char.toBitVec := by
  have low : ((crc ^^^ char.toUInt64) &&& 0xff).toNat = (crc ^^^ char.toUInt64).toNat % 2 ^ 8 := by
    rw [UInt64.toNat_and]
    exact Nat.and_two_pow_sub_one_eq_mod _ 8
  have byte : char.toNat % 2 ^ 8 = char.toNat := Nat.mod_eq_of_lt char.toNat_lt
  have index : ((crc ^^^ char.toUInt64) &&& 0xff).toNat =
      (crc.toBitVec.setWidth 8 ^^^ char.toBitVec).toNat := by
    rw [low, UInt64.toNat_xor, Nat.xor_mod_two_pow, UInt8.toNat_toUInt64, byte, BitVec.toNat_xor,
      BitVec.toNat_setWidth]
    rfl
  have shifted : ((crc >>> 8) &&& 0xffffff).toBitVec = crc.toBitVec >>> 8 := by
    apply BitVec.eq_of_toNat_eq
    have rest : ((crc >>> 8) &&& 0xffffff).toNat = (crc.toNat >>> 8) % 2 ^ 24 := by
      rw [UInt64.toNat_and]
      exact Nat.and_two_pow_sub_one_eq_mod _ 24
    change ((crc >>> 8) &&& 0xffffff).toNat = crc.toNat >>> 8
    rw [rest, Nat.shiftRight_eq_div_pow]
    omega
  unfold updcrc32 takeByte crc32Entry
  rw [UInt64.toBitVec_xor, index, shifted]

/-- The sum stays within 32 bits. -/
theorem updcrc32_short (crc : UInt64) (char : UInt8) : (updcrc32 char crc).toNat < 2 ^ 32 := by
  have rest : ((crc >>> 8) &&& 0xffffff).toNat < 2 ^ 32 := by
    rw [UInt64.toNat_and]
    exact Nat.lt_of_le_of_lt Nat.and_le_right (by decide)
  unfold updcrc32
  rw [UInt64.toNat_xor]
  exact Nat.xor_lt_two_pow (crc32Tab_narrow _) rest

theorem getcrc16ccitt_register (buffer : Bytes) (crc : UInt16) :
    (buffer.foldl (fun (crc : UInt16) char => crc16Tab.getD ((crc ^^^ char.toUInt16) &&& 0xff).toNat 0 ^^^
      ((crc >>> 8) &&& 0x00ff)) crc).toBitVec =
      (buffer.map UInt8.toBitVec).foldl (takeByte crc16Entry) crc.toBitVec := by
  induction buffer generalizing crc with
  | nil => rfl
  | cons char rest inductionHypothesis =>
    rw [List.foldl_cons, inductionHypothesis, crc16_step]
    rfl

theorem getcrc32ccitt_register (buffer : Bytes) (crc : UInt64) (short : crc.toNat < 2 ^ 32) :
    (buffer.foldl (fun crc char => updcrc32 char crc) crc).toNat < 2 ^ 32 ∧
      (buffer.foldl (fun crc char => updcrc32 char crc) crc).toBitVec =
        (buffer.map UInt8.toBitVec).foldl (takeByte crc32Entry) crc.toBitVec := by
  induction buffer generalizing crc with
  | nil => exact ⟨short, rfl⟩
  | cons char rest inductionHypothesis =>
    obtain ⟨bound, register⟩ := inductionHypothesis (updcrc32 char crc) (updcrc32_short crc char)
    refine ⟨bound, ?_⟩
    rw [List.foldl_cons, register, crc32_step crc char short]
    rfl

/-- A packet that ends with its sum of 16 bits passes the test. -/
theorem crc16Test_appended (buffer : Bytes) :
    crc16Test (getcrc16ccitt (buffer ++ crc16Bytes buffer)) = true := by
  have bytes : (crc16Bytes buffer).map UInt8.toBitVec =
      complementBytes (getcrc16ccitt buffer).toBitVec 2 := by
    generalize sums : getcrc16ccitt buffer = crc
    unfold crc16Bytes
    rw [sums]
    simp [complementBytes, complement_byte]
  have whole : (getcrc16ccitt buffer).toBitVec >>> (8 * 2) = 0#16 := by
    apply BitVec.eq_of_toNat_eq
    have bound := (getcrc16ccitt buffer).toBitVec.isLt
    rw [BitVec.toNat_ushiftRight, Nat.shiftRight_eq_div_pow]
    exact Nat.div_eq_of_lt bound
  have register : (getcrc16ccitt (buffer ++ crc16Bytes buffer)).toBitVec =
      residue crc16Entry 0#16 2 := by
    rw [← take_whole_complement crc16Entry _ 2 whole, ← bytes]
    unfold getcrc16ccitt
    rw [List.foldl_append, getcrc16ccitt_register]
  have known : residue crc16Entry 0#16 2 = 0xf0b8 := by decide
  unfold crc16Test
  rw [decide_eq_true_iff]
  exact UInt16.toBitVec_inj.mp (register.trans known)

/-- A packet that ends with its sum of 32 bits passes the test. -/
theorem crc32Test_appended (buffer : Bytes) :
    crc32Test (getcrc32ccitt (buffer ++ crc32Bytes buffer)) = true := by
  have bytes : (crc32Bytes buffer).map UInt8.toBitVec =
      complementBytes (getcrc32ccitt buffer).toBitVec 4 := by
    generalize sums : getcrc32ccitt buffer = crc
    unfold crc32Bytes
    rw [sums]
    simp [complementBytes, complement_byte, ← BitVec.shiftRight_add]
  obtain ⟨bound, _⟩ := getcrc32ccitt_register buffer 0xffffffff (by decide)
  have whole : (getcrc32ccitt buffer).toBitVec >>> (8 * 4) = 0#64 := by
    apply BitVec.eq_of_toNat_eq
    rw [BitVec.toNat_ushiftRight, Nat.shiftRight_eq_div_pow]
    exact Nat.div_eq_of_lt bound
  have register : (getcrc32ccitt (buffer ++ crc32Bytes buffer)).toBitVec =
      residue crc32Entry 0#64 4 := by
    rw [← take_whole_complement crc32Entry _ 4 whole, ← bytes]
    unfold getcrc32ccitt
    rw [List.foldl_append]
    exact (getcrc32ccitt_register _ _ bound).2
  have known : residue crc32Entry 0#64 4 = 0xdebb20e3 := by decide
  unfold crc32Test
  rw [decide_eq_true_iff]
  exact UInt64.toBitVec_inj.mp (register.trans known)

end Binkleyforce
