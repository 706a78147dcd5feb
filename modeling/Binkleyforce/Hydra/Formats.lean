import Binkleyforce.Hydra.Encoding
import Mathlib.Tactic.IntervalCases

/-!
# The formats of Hydra packets

Each of the formats gives back what was encoded, where the destination is large enough.
-/

namespace Binkleyforce

/-! ## HEX -/

/-- The characters of a byte in the format HEX once escapes are resolved. -/
def hexStored (c : UInt8) : Bytes :=
  if c &&& 0x80 ≠ 0 then [92, hexdigit ((c >>> 4) &&& 0x0f), hexdigit (c &&& 0x0f)]
  else if c = 92 then [92, 92]
  else [c]

theorem hexStored_short (c : UInt8) : (hexStored c).length ≤ 3 := by
  unfold hexStored
  split
  · exact Nat.le_refl 3
  · split
    · exact Nat.le_succ 2
    · exact Nat.le_add_left 1 2

/-- The digits of a byte are read back, and none of them is a backslash. -/
theorem hexdigits_read (c : UInt8) :
    hexdigit ((c >>> 4) &&& 0x0f) ≠ 92 ∧
      (hexvalue (hexdigit ((c >>> 4) &&& 0x0f)) <<< 4) ||| hexvalue (hexdigit (c &&& 0x0f)) = c := by
  revert c
  exact byte_cases (by decide)

/-- A byte is read back from its characters. -/
theorem hexLoop_byte (room left : Nat) (c : UInt8) (rest : Bytes) :
    hexLoop (room + 1) ((hexStored c).length + left) (hexStored c ++ rest) =
      c :: hexLoop room left rest := by
  unfold hexStored
  split
  · obtain ⟨digit, value⟩ := hexdigits_read c
    simp [hexLoop, digit, value]
  · split
    · rename_i backslash
      simp [hexLoop, backslash]
    · rename_i plain
      simp [hexLoop, plain]

/-- The format HEX gives back what was encoded. -/
theorem hexLoop_encoded (data behind : Bytes) (room : Nat) (fits : data.length ≤ room) :
    hexLoop room (data.flatMap hexStored).length (data.flatMap hexStored ++ behind) = data := by
  induction data generalizing room with
  | nil =>
    cases room with
    | zero => rfl
    | succ room => simp [hexLoop]
  | cons c rest inductionHypothesis =>
    cases room with
    | zero => simp at fits
    | succ room =>
      have shorter : rest.length ≤ room := by simpa using fits
      rw [List.flatMap_cons, List.length_append, List.append_assoc, hexLoop_byte,
        inductionHypothesis room shorter]

/-! ## ASC -/

theorem sevenBits_toNat (ch : Nat) : (sevenBits ch).toNat = ch % 128 := by
  have mask : (0x7f : UInt8).toNat = 2 ^ 7 - 1 := rfl
  unfold sevenBits
  rw [UInt8.toNat_and, mask, Nat.and_two_pow_sub_one_eq_mod, UInt8.toNat_ofNat']
  omega

theorem sevenBits_masked (ch : Nat) : (sevenBits ch &&& 0x7f) = sevenBits ch := by
  unfold sevenBits
  rw [UInt8.and_assoc]
  rfl

/-- A byte is given by its value in eight bits. -/
theorem ofNat_low {value byte : Nat} (same : value % 256 = byte) :
    UInt8.ofNat (value &&& 0xff) = UInt8.ofNat byte := by
  have mask : (0xff : Nat) = 2 ^ 8 - 1 := rfl
  rw [mask, Nat.and_two_pow_sub_one_eq_mod]
  exact congrArg UInt8.ofNat same

/-- The encoder takes in a byte. -/
theorem ascChars_cons (ch bitshift : Nat) (c : UInt8) (src : Bytes) (small : ch < 2 ^ bitshift) :
    ascChars ch bitshift (c :: src) =
      sevenBits (ch + c.toNat * 2 ^ bitshift) ::
        if 7 ≤ bitshift + 1 then
          sevenBits ((ch + c.toNat * 2 ^ bitshift) / 128) :: ascChars 0 0 src
        else ascChars ((ch + c.toNat * 2 ^ bitshift) / 128) (bitshift + 1) src := by
  rw [ascChars, or_shifted c.toNat small, Nat.shiftRight_eq_div_pow]

/-- The decoder takes in a character; with the eighth bit a byte is complete. -/
theorem ascLoop_cons (room c n ch : Nat) (src : Bytes) (small : c < 2 ^ n) :
    ascLoop (room + 1) c n (sevenBits ch :: src) =
      if 1 ≤ n then
        UInt8.ofNat ((c + ch % 128 * 2 ^ n) &&& 0xff) ::
          ascLoop room ((c + ch % 128 * 2 ^ n) / 256) (n - 1) src
      else ascLoop (room + 1) (c + ch % 128 * 2 ^ n) (n + 7) src := by
  rw [ascLoop, sevenBits_masked, sevenBits_toNat, or_shifted (ch % 128) small,
    Nat.shiftRight_eq_div_pow]
  have enough : 8 ≤ n + 7 ↔ 1 ≤ n := by omega
  have left : n + 7 - 8 = n - 1 := by omega
  simp only [enough, left]

/-- The decoder has the low bits of the last byte and the encoder the high ones. -/
theorem ascLoop_chars (src : Bytes) :
    (∀ room, src.length ≤ room → ascLoop room 0 0 (ascChars 0 0 src) = src) ∧
      ∀ bitshift room (last : Nat), 1 ≤ bitshift → bitshift ≤ 6 → last < 256 → src.length < room →
        ascLoop room (last % 2 ^ (8 - bitshift)) (8 - bitshift)
            (ascChars (last / 2 ^ (8 - bitshift)) bitshift src) =
          UInt8.ofNat last :: src := by
  induction src with
  | nil =>
    refine ⟨fun room _ => by simp [ascChars, ascLoop], ?_⟩
    intro bitshift room last positive few byte fits
    obtain ⟨room, rfl⟩ : ∃ less, room = less + 1 := ⟨room - 1, by omega⟩
    rw [ascChars, if_pos (show 0 < bitshift from positive),
      ascLoop_cons _ _ _ _ _ (Nat.mod_lt _ (Nat.two_pow_pos _)),
      if_pos (show 1 ≤ 8 - bitshift by omega), ascLoop]
    congr 1
    refine ofNat_low ?_
    interval_cases bitshift <;> omega
  | cons c src inductionHypothesis =>
    obtain ⟨empty, waiting⟩ := inductionHypothesis
    have byte := c.toNat_lt
    constructor
    · intro room fits
      obtain ⟨room, rfl⟩ : ∃ less, room = less + 1 := ⟨room - 1, by simp at fits; omega⟩
      simp only [List.length_cons, Nat.add_le_add_iff_right] at fits
      have rest := waiting 1 (room + 1) c.toNat (Nat.le_refl 1) (by decide) byte (by omega)
      rw [ascChars_cons 0 0 c src (by decide), if_neg (by decide),
        ascLoop_cons room 0 0 _ _ (by decide), if_neg (by decide)]
      simp only [Nat.pow_zero, Nat.mul_one, Nat.zero_add]
      simpa using rest
    · intro bitshift room last positive few small fits
      obtain ⟨room, rfl⟩ : ∃ less, room = less + 1 := ⟨room - 1, by omega⟩
      simp only [List.length_cons, Nat.add_lt_add_iff_right] at fits
      have high : last / 2 ^ (8 - bitshift) < 2 ^ bitshift := by
        interval_cases bitshift <;> omega
      rw [ascChars_cons _ _ c src high, ascLoop_cons _ _ _ _ _ (Nat.mod_lt _ (Nat.two_pow_pos _)),
        if_pos (show 1 ≤ 8 - bitshift by omega)]
      refine List.cons_eq_cons.mpr ⟨ofNat_low (by interval_cases bitshift <;> omega), ?_⟩
      by_cases six : bitshift = 6
      · -- The seventh byte completes another character.
        subst six
        obtain ⟨room, rfl⟩ : ∃ less, room = less + 1 := ⟨room - 1, by omega⟩
        rw [if_pos (by decide), ascLoop_cons _ _ _ _ _ (by omega), if_pos (by decide)]
        refine List.cons_eq_cons.mpr ⟨?_, ?_⟩
        · rw [@ofNat_low _ c.toNat (by omega), UInt8.ofNat_toNat]
        · have nothing : ∀ v, v = 0 → ascLoop room v (8 - 6 - 1 - 1) (ascChars 0 0 src) = src := by
            rintro _ rfl
            exact empty room (by omega)
          exact nothing _ (by omega)
      · rw [if_neg (by omega)]
        have rest := waiting (bitshift + 1) room c.toNat (by omega) (by omega) byte fits
        rw [UInt8.ofNat_toNat] at rest
        have waits : (last % 2 ^ (8 - bitshift) +
            (last / 2 ^ (8 - bitshift) + c.toNat * 2 ^ bitshift) % 128 * 2 ^ (8 - bitshift)) / 256 =
              c.toNat % 2 ^ (8 - (bitshift + 1)) := by
          interval_cases bitshift <;> omega
        have goes : (last / 2 ^ (8 - bitshift) + c.toNat * 2 ^ bitshift) / 128 =
            c.toNat / 2 ^ (8 - (bitshift + 1)) := by
          interval_cases bitshift <;> omega
        rw [waits, goes, Nat.sub_sub]
        exact rest

/-- The format ASC gives back what was encoded. -/
theorem ascLoop_encoded (data : Bytes) (room : Nat) (fits : data.length ≤ room) :
    ascLoop room 0 0 (ascChars 0 0 data) = data := (ascLoop_chars data).1 room fits

/-- Its characters have seven bits, and there are at most twice as many as bytes. -/
theorem ascChars_short (data : Bytes) (ch bitshift : Nat) :
    (∀ c ∈ ascChars ch bitshift data, c < 128) ∧
      (ascChars ch bitshift data).length ≤ 2 * data.length + 1 := by
  have seven : ∀ ch, sevenBits ch < 128 := by
    intro ch
    have small := sevenBits_toNat ch
    exact UInt8.lt_iff_toNat_lt.mpr (by rw [small]; exact Nat.mod_lt _ (by decide))
  induction data generalizing ch bitshift with
  | nil =>
    rw [ascChars]
    split
    · exact ⟨fun c member => List.mem_singleton.mp member ▸ seven ch, Nat.le_refl 1⟩
    · exact ⟨nofun, Nat.zero_le 1⟩
  | cons c src inductionHypothesis =>
    rw [ascChars]
    split
    · obtain ⟨small, short⟩ := inductionHypothesis 0 0
      refine ⟨fun other member => ?_, by simp; omega⟩
      rcases List.mem_cons.mp member with rfl | member
      · exact seven _
      · rcases List.mem_cons.mp member with rfl | member
        · exact seven _
        · exact small other member
    · obtain ⟨small, short⟩ := inductionHypothesis
        ((ch ||| (c.toNat <<< bitshift)) >>> 7) (bitshift + 1)
      refine ⟨fun other member => ?_, by simp; omega⟩
      rcases List.mem_cons.mp member with rfl | member
      · exact seven _
      · exact small other member

/-! ## UUE -/

/-- A character stands for six bits. -/
theorem uudec_uuenc (c : UInt8) :
    hydraUudec (hydraUuenc c) = (c &&& 0x3f) ∧ hydraIsuue (hydraUuenc c) = true := by
  revert c
  exact byte_cases (by decide)

/-- The six bits of the characters make up the bytes. -/
theorem uue_bits (first second third : UInt8) :
    (((first >>> 2) &&& (0x3f : UInt8)) <<< 2) |||
        (((((first <<< 4) &&& (0x30 : UInt8)) ||| ((second >>> 4) &&& (0x0f : UInt8))) &&& 0x3f) >>> 4) =
      first ∧
    (((((first <<< 4) &&& (0x30 : UInt8)) ||| ((second >>> 4) &&& (0x0f : UInt8))) &&& 0x3f) <<< 4) |||
        (((((second <<< 2) &&& (0x3c : UInt8)) ||| ((third >>> 6) &&& (0x03 : UInt8))) &&& 0x3f) >>> 2) =
      second ∧
    (((((second <<< 2) &&& (0x3c : UInt8)) ||| ((third >>> 6) &&& (0x03 : UInt8))) &&& 0x3f) <<< 6) |||
        ((third &&& 0x3f) &&& 0x3f) = third := by
  refine ⟨?_, ?_, ?_⟩
  all_goals
    apply UInt8.toBitVec_inj.mp
    ext i small
    interval_cases i <;> simp

/-- The format UUE gives back what was encoded. -/
theorem uueLoop_encoded (behind : UInt8) (data : Bytes) :
    uueLoop (hydraPutuueblock behind data) = (data, true) := by
  induction data using hydraPutuueblock.induct with
  | case1 first second third src inductionHypothesis =>
    obtain ⟨one, two, three⟩ := uue_bits first second third
    rw [hydraPutuueblock, uueLoop]
    simp only [uudec_uuenc, Bool.and_self, if_true, inductionHypothesis, one, two, three]
  | case2 first second =>
    obtain ⟨one, two, _⟩ := uue_bits first second 0
    rw [hydraPutuueblock, uueLoop]
    simp only [uudec_uuenc, Bool.and_self, if_true, one]
    simpa using two
  | case3 first =>
    obtain ⟨one, _, _⟩ := uue_bits first behind 0
    rw [hydraPutuueblock, uueLoop]
    simp only [uudec_uuenc, Bool.and_self, if_true, one]
  | case4 => rfl

/-- How many characters there are. -/
theorem hydraPutuueblock_length (behind : UInt8) (data : Bytes) :
    (hydraPutuueblock behind data).length =
      data.length / 3 * 4 + if data.length % 3 = 0 then 0 else data.length % 3 + 1 := by
  induction data using hydraPutuueblock.induct with
  | case1 first second third src inductionHypothesis =>
    simp only [hydraPutuueblock, List.length_cons, inductionHypothesis]
    split <;> split <;> omega
  | case2 first second => simp [hydraPutuueblock]
  | case3 first => simp [hydraPutuueblock]
  | case4 => rfl

/-- They are none that the link does not carry. -/
theorem hydraPutuueblock_printable (behind : UInt8) (data : Bytes) :
    ∀ c ∈ hydraPutuueblock behind data, hydraIsuue c = true := by
  have printable := fun c => (uudec_uuenc c).2
  induction data using hydraPutuueblock.induct with
  | case1 first second third src inductionHypothesis =>
    intro c member
    simp only [hydraPutuueblock, List.mem_cons] at member
    rcases member with rfl | rfl | rfl | rfl | member
    · exact printable _
    · exact printable _
    · exact printable _
    · exact printable _
    · exact inductionHypothesis c member
  | case2 first second =>
    intro c member
    simp only [hydraPutuueblock, List.mem_cons, List.not_mem_nil, or_false] at member
    rcases member with rfl | rfl | rfl
    · exact printable _
    · exact printable _
    · exact printable _
  | case3 first =>
    intro c member
    simp only [hydraPutuueblock, List.mem_cons, List.not_mem_nil, or_false] at member
    rcases member with rfl | rfl
    · exact printable _
    · exact printable _
  | case4 =>
    intro c member
    cases member

/-- Where the characters fit into the destination, `hydra_getuueblock` gives back what was
encoded. -/
theorem hydraGetuueblock_encoded (szdst : Nat) (behind : UInt8) (data : Bytes) :
    hydraGetuueblock szdst (hydraPutuueblock behind data) =
      if szdst < (hydraPutuueblock behind data).length then ([], false) else (data, true) := by
  have length := hydraPutuueblock_length behind data
  have whole : (hydraPutuueblock behind data).length % 4 ≠ 1 := by
    rw [length]
    split <;> omega
  have parts : (hydraPutuueblock behind data).length / 4 * 4 +
      (hydraPutuueblock behind data).length % 4 = (hydraPutuueblock behind data).length := by omega
  unfold hydraGetuueblock
  rw [if_neg whole, parts, uueLoop_encoded]

end Binkleyforce
