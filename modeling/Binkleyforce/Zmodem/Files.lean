import Mathlib.Data.List.TakeWhile
import Binkleyforce.Util.CheckSums
import Binkleyforce.Util.Scan
import Binkleyforce.Util.Words

/-!
# What the ends of Zmodem tell about a file

The sender answers a ZCRC frame with the CRC of the file, and describes the file in the
sub-packet of its ZFILE frame, which `zmodem_proc_ZFILE` reads. A `char` is signed.
-/

namespace Binkleyforce

/-! ## The answer to ZCRC -/

/-- The loop of the answer, over what is left of the file: the byte `0xff` is `EOF` as a `char`. -/
def zcrcLoop (rxpos : Int) (crc32 : UInt64) : Bytes → UInt64
  | [] => crc32
  | c :: rest =>
    if c = 255 then crc32
    else if rxpos - 1 = 0 then crc32
    else zcrcLoop (rxpos - 1) (updcrc32 c crc32) rest

/-- The header that answers a ZCRC frame, and the position in the file behind it. -/
def zcrcAnswer (content : Bytes) (rxpos : Int) : Bytes × Nat :=
  let crc32 := ~~~zcrcLoop rxpos 0xffffffff content
  (lowBytes (crc32.toNat : Int), 0)

/-- The header with the CRC-32 of a text. -/
def crc32Header (text : Bytes) : Bytes := lowBytes ((~~~getcrc32ccitt text).toNat : Int)

/-- The bytes a ZCRC frame asks for: so many from the beginning, or all. -/
def zcrcAsked (content : Bytes) (n : Nat) : Bytes := if n = 0 then content else content.take n

/-- The bytes the answer takes. -/
def zcrcTaken (content : Bytes) (n : Nat) : Bytes :=
  (if n = 0 then content else content.take (n - 1)).takeWhile (· ≠ 255)

/-- The bytes that are asked for and not taken. -/
def zcrcMissed (content : Bytes) (n : Nat) : Bytes :=
  (zcrcAsked content n).drop (zcrcTaken content n).length

/-- The loop takes the sum of the bytes before the first `0xff`, and of fewer than it is to count. -/
theorem zcrcLoop_taken (content : Bytes) (count : Nat) (crc32 : UInt64) :
    zcrcLoop (count + 1 : Nat) crc32 content =
      ((content.take count).takeWhile (· ≠ 255)).foldl (fun crc char => updcrc32 char crc) crc32 := by
  induction content generalizing count crc32 with
  | nil =>
    rw [List.take_nil]
    rfl
  | cons c rest later =>
    unfold zcrcLoop
    have less : ((count + 1 : Nat) : Int) - 1 = (count : Nat) := by omega
    rw [less]
    cases count with
    | zero =>
      rw [List.take_zero]
      split <;> rfl
    | succ count =>
      rw [List.take_succ_cons]
      split
      case isTrue end_ =>
        rw [List.takeWhile_cons_of_neg (by simpa using end_)]
        rfl
      case isFalse more =>
        rw [if_neg (by omega), later, List.takeWhile_cons_of_pos (by simpa using more)]
        rfl

/-- Without a number of bytes, or below it, the loop takes all before the first `0xff`. -/
theorem zcrcLoop_all (content : Bytes) (rxpos : Int) (crc32 : UInt64) (below : rxpos ≤ 0) :
    zcrcLoop rxpos crc32 content =
      (content.takeWhile (· ≠ 255)).foldl (fun crc char => updcrc32 char crc) crc32 := by
  induction content generalizing rxpos crc32 with
  | nil => rfl
  | cons c rest later =>
    unfold zcrcLoop
    split
    case isTrue end_ =>
      rw [List.takeWhile_cons_of_neg (by simpa using end_)]
      rfl
    case isFalse more =>
      rw [if_neg (by omega), later _ _ (by omega), List.takeWhile_cons_of_pos (by simpa using more)]
      rfl

/-- The sum of the answer is that of the bytes it takes. -/
theorem zcrcLoop_eq (content : Bytes) (n : Nat) :
    zcrcLoop n 0xffffffff content = getcrc32ccitt (zcrcTaken content n) := by
  unfold zcrcTaken getcrc32ccitt
  cases n with
  | zero => exact zcrcLoop_all content _ _ (le_refl _)
  | succ count => exact zcrcLoop_taken content count _

/-- What is taken is asked for. -/
theorem zcrcAsked_split (content : Bytes) (n : Nat) :
    zcrcAsked content n = zcrcTaken content n ++ zcrcMissed content n := by
  have begins : zcrcTaken content n <+: zcrcAsked content n := by
    apply (List.takeWhile_prefix _).trans
    unfold zcrcAsked
    split
    · exact List.prefix_refl _
    · exact List.take_prefix_take_left (Nat.sub_le n 1)
  unfold zcrcMissed
  exact (List.prefix_iff_eq_append.mp begins).symm

/-- The answer is right: the header has the CRC of what was asked for, and the file is at its
beginning, where it was when the frame came. -/
def ZcrcRight (content : Bytes) (n : Nat) : Prop :=
  zcrcAnswer content n = (crc32Header (zcrcAsked content n), 0)

/-- All bytes that are asked for are taken. -/
def ZcrcWhole (content : Bytes) (n : Nat) : Prop := 255 ∉ content ∧ (n = 0 ∨ content.length < n)

/-- The bytes that are not taken leave the sum as it is. -/
def ZcrcUnchanged (content : Bytes) (n : Nat) : Prop :=
  (zcrcMissed content n).foldl (fun crc char => updcrc32 char crc) (getcrc32ccitt (zcrcTaken content n)) =
    getcrc32ccitt (zcrcTaken content n)

/-- Headers with sums are the same where the sums are. -/
theorem crc32Header_inj {one other : Bytes} :
    crc32Header one = crc32Header other ↔ getcrc32ccitt one = getcrc32ccitt other := by
  constructor
  · intro same
    have low : ∀ text, (getcrc32ccitt text).toNat < 2 ^ 32 :=
      fun text => (getcrc32ccitt_register text 0xffffffff (by decide)).1
    have read : (fourBytes (crc32Header one) : Int) = fourBytes (crc32Header other) := by rw [same]
    have bytes := fourBytes_lowBytes
    have one' := bytes ((~~~getcrc32ccitt one).toNat : Int) []
    have other' := bytes ((~~~getcrc32ccitt other).toNat : Int) []
    rw [List.append_nil] at one' other'
    unfold crc32Header at read
    rw [one', other'] at read
    apply UInt64.toNat_inj.mp
    have first := low one
    have second := low other
    have complement : ∀ crc : UInt64, (~~~crc).toNat = 2 ^ 64 - 1 - crc.toNat := UInt64.toNat_not
    simp only [complement] at read
    omega
  · intro same
    unfold crc32Header
    rw [same]

/-- All bytes are taken where there is no byte `0xff` and fewer bytes than are asked for. -/
theorem zcrcMissed_nil (content : Bytes) (n : Nat) : zcrcMissed content n = [] ↔ ZcrcWhole content n := by
  have plain : 255 ∉ content ↔ content.takeWhile (· ≠ 255) = content := by
    rw [List.takeWhile_eq_self_iff]
    simp only [decide_eq_true_eq]
    exact ⟨fun none_ char member same => none_ (same ▸ member), fun all member => all 255 member rfl⟩
  unfold ZcrcWhole
  rw [plain]
  constructor
  · intro none_
    have same := zcrcAsked_split content n
    rw [none_, List.append_nil] at same
    unfold zcrcAsked zcrcTaken at same
    by_cases every : n = 0
    · rw [if_pos every, if_pos every] at same
      exact ⟨same.symm, .inl every⟩
    · rw [if_neg every, if_neg every] at same
      have short := (List.takeWhile_prefix (· ≠ 255) (l := content.take (n - 1))).length_le
      rw [← same, List.length_take, List.length_take] at short
      have fewer : content.length < n := by omega
      rw [List.take_of_length_le (by omega), List.take_of_length_le (by omega)] at same
      exact ⟨same.symm, .inr fewer⟩
  · rintro ⟨same, fewer⟩
    unfold zcrcMissed
    apply List.drop_eq_nil_of_le
    unfold zcrcAsked zcrcTaken
    by_cases every : n = 0
    · rw [if_pos every, if_pos every, same]
    · have fewer := fewer.resolve_left every
      rw [if_neg every, if_neg every, List.take_of_length_le (by omega), List.take_of_length_le (by omega), same]

/-- The answer to ZCRC is right exactly where all bytes are taken that are asked for, or the others
leave the sum as it is. -/
theorem zcrc_answer (content : Bytes) (n : Nat) :
    ZcrcRight content n ↔ ZcrcWhole content n ∨ ZcrcUnchanged content n := by
  have sum : zcrcAnswer content n = (crc32Header (zcrcTaken content n), 0) := by
    unfold zcrcAnswer crc32Header
    rw [zcrcLoop_eq]
  have asked : getcrc32ccitt (zcrcAsked content n) =
      (zcrcMissed content n).foldl (fun crc char => updcrc32 char crc) (getcrc32ccitt (zcrcTaken content n)) := by
    conv_lhs => rw [zcrcAsked_split]
    unfold getcrc32ccitt
    rw [List.foldl_append]
  have right : ZcrcRight content n ↔ ZcrcUnchanged content n := by
    unfold ZcrcRight ZcrcUnchanged
    rw [sum, Prod.mk.injEq, crc32Header_inj, asked]
    constructor
    · rintro ⟨same, -⟩
      exact same.symm
    · intro same
      exact ⟨same.symm, rfl⟩
  rw [right]
  constructor
  · exact Or.inr
  · rintro (whole | same)
    · unfold ZcrcUnchanged
      rw [(zcrcMissed_nil content n).mpr whole]
      rfl
    · exact same

/-- The last byte is left out where all of them are asked for by their number. -/
theorem zcrc_short : ¬ ∀ content n, ZcrcRight content n := by
  intro all
  have wrong := (zcrc_answer (ascii "ab") 2).mp (all _ _)
  rcases wrong with ⟨-, none_ | fewer⟩ | same
  · cases none_
  · exact absurd fewer (by decide)
  · exact absurd same (by unfold ZcrcUnchanged; decide)

/-! ## The sub-packet of ZFILE -/

/-- `ZMAXFNAME`. -/
def zmaxfname : Nat := 4096

/-- The data of the sub-packet: the name, a zero, and the numbers of the file and of the batch. -/
def zfileData (netName : Bytes) (bytesTotal : Nat) (modTime mode : Int) (leftNum leftSize : Int) : Bytes :=
  strnxcpy netName zmaxfname ++ 0 :: (printInt bytesTotal ++ 32 :: (printOct modTime ++ 32 ::
    (printOct mode ++ ascii " 0 " ++ printInt leftNum ++ 32 :: printInt leftSize)))

/-- `zmodem_proc_ZFILE` up to `p_rx_fopen`: the name, the size and the time it is given. The
size is stored as an `int` into the low half of a `size_t`. -/
def zmodemProcZFILE (blk : Bytes) : Option (Bytes × Nat × Int) :=
  let name := cstring blk
  let fileinfo := cstring (blk.drop (name.length + 1))
  if blk.length ≤ name.length + 1 then none
  else
    match scanInt fileinfo with
    | none => none
    | some (filesize, rest) =>
      let filetime := (scanOct rest).elim 0 fun (filetime, _) => toLong (filetime % 2 ^ 64).toNat
      some (name, storeLowHalf 0 filesize, filetime)

/-- A `long` comes back from the `unsigned long` it was printed as. -/
theorem toLong_unsigned {value : Int} (low : -(2 ^ 63) ≤ value) (high : value < 2 ^ 63) :
    toLong (value % 2 ^ 64 % 2 ^ 64).toNat = value := by
  unfold toLong
  split <;> omega

/-- The size of 32 bits that is read from a sub-packet. -/
theorem zmodemProcZFILE_data {netName : Bytes} {bytesTotal : Nat} {modTime : Int} (mode leftNum leftSize : Int)
    (text : 0 ∉ netName) (short : netName.length < zmaxfname) (size : bytesTotal < 2 ^ 63)
    (time : -(2 ^ 63) ≤ modTime ∧ modTime < 2 ^ 63) :
    zmodemProcZFILE (zfileData netName bytesTotal modTime mode leftNum leftSize) =
      some (netName, bytesTotal % 2 ^ 32, modTime) := by
  have nonzero : ∀ char ∈ netName, char ≠ 0 := fun char member same => text (same ▸ member)
  have copied : strnxcpy netName zmaxfname = netName := by
    unfold strnxcpy
    rw [cstring_whole netName nonzero, List.take_of_length_le (Nat.le_sub_one_of_lt short)]
  unfold zfileData
  rw [copied]
  generalize printOct mode ++ ascii " 0 " ++ printInt leftNum ++ 32 :: printInt leftSize = others
  have name : cstring (netName ++ 0 :: (printInt bytesTotal ++ 32 :: (printOct modTime ++ 32 :: others))) =
      netName := by
    rw [cstring_append _ _ nonzero]
    exact List.append_nil _
  have digits : ∀ char ∈ printInt bytesTotal ++ 32 :: (printOct modTime ++ [32]), char ≠ 0 := by
    intro char member
    rcases List.mem_append.mp member with size | others
    · unfold printInt at size
      rw [if_neg (by omega)] at size
      rintro rfl
      exact absurd (printNat_isdigit _ 0 size) (by decide)
    · rcases List.mem_cons.mp others with rfl | others
      · decide
      · rcases List.mem_append.mp others with time | blank
        · rintro rfl
          exact absurd (printOct_isoctal _ 0 time) (by decide)
        · rw [List.mem_singleton.mp blank]
          decide
  have numbers : cstring (printInt bytesTotal ++ 32 :: (printOct modTime ++ 32 :: others)) =
      printInt bytesTotal ++ 32 :: (printOct modTime ++ 32 :: cstring others) := by
    have both := cstring_append _ others digits
    simpa only [List.append_assoc, List.cons_append, List.nil_append] using both
  have info : (netName ++ 0 :: (printInt bytesTotal ++ 32 :: (printOct modTime ++ 32 :: others))).drop
      (netName.length + 1) = printInt bytesTotal ++ 32 :: (printOct modTime ++ 32 :: others) := by
    rw [← List.drop_drop, List.drop_left]
    rfl
  have first := scanInt_printInt bytesTotal (32 :: (printOct modTime ++ 32 :: cstring others)) (by omega)
    (by omega) (by rintro char ⟨⟩; rfl)
  rw [scanInt_blank] at first
  have second := scanOct_printOct modTime (32 :: cstring others) (by rintro char ⟨⟩; rfl)
  unfold zmodemProcZFILE
  dsimp only
  rw [name, info, numbers, first, if_neg (by simp)]
  dsimp only
  rw [second]
  dsimp only [Option.elim]
  rw [toLong_unsigned time.1 time.2]
  refine congrArg some (Prod.ext rfl (Prod.ext ?_ rfl))
  dsimp only [storeLowHalf]
  simp only [Int.bmod_def]
  omega

/-- The name, the size and the time of a file are recovered exactly where the size has 32 bits. -/
theorem zfile_recovered (netName : Bytes) (bytesTotal : Nat) (modTime mode leftNum leftSize : Int)
    (text : 0 ∉ netName) (short : netName.length < zmaxfname) (size : bytesTotal < 2 ^ 63)
    (time : -(2 ^ 63) ≤ modTime ∧ modTime < 2 ^ 63) :
    zmodemProcZFILE (zfileData netName bytesTotal modTime mode leftNum leftSize) =
      some (netName, bytesTotal, modTime) ↔ bytesTotal < 2 ^ 32 := by
  rw [zmodemProcZFILE_data mode leftNum leftSize text short size time]
  simp only [Option.some.injEq, Prod.mk.injEq, true_and, and_true]
  omega

/-- A file of the year 1998 with a blank in its name. -/
theorem zfile_recovered_blank :
    (0 ∉ ascii "a file" ∧ (ascii "a file").length < zmaxfname ∧ 70000 < 2 ^ 63) ∧
      zmodemProcZFILE (zfileData (ascii "a file") 70000 900000000 33188 1 70000) =
        some (ascii "a file", 70000, 900000000) := by
  have text : 0 ∉ ascii "a file" := by decide
  have short : (ascii "a file").length < zmaxfname := by decide
  exact ⟨⟨text, short, by decide⟩,
    (zfile_recovered _ 70000 900000000 33188 1 70000 text short (by decide) (by decide)).mpr (by decide)⟩

/-- The size of a file of four gigabytes is lost. -/
theorem zfile_size_lost :
    ¬ ∀ netName (bytesTotal : Nat) (modTime mode leftNum leftSize : Int), 0 ∉ netName →
      netName.length < zmaxfname → bytesTotal < 2 ^ 63 → -(2 ^ 63) ≤ modTime ∧ modTime < 2 ^ 63 →
      zmodemProcZFILE (zfileData netName bytesTotal modTime mode leftNum leftSize) =
        some (netName, bytesTotal, modTime) := by
  intro all
  have recovered := all (ascii "a") (2 ^ 32) 900000000 33188 1 (2 ^ 32) (by decide)
    (by decide) (by decide) (by decide)
  rw [zmodemProcZFILE_data _ _ _ (by decide) (by decide) (by decide) (by decide)] at recovered
  cases recovered

end Binkleyforce
