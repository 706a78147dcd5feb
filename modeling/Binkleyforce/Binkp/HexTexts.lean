import Mathlib.Data.List.Induction
import Binkleyforce.Binkp.Challenge
import Binkleyforce.Util.Dequoting

/-!
# Hexadecimal texts

Challenges and digests travel as two digits for each byte. The reader takes a digit wherever
`string_casechr` finds it and stops at the first character that is none; the terminator of a text
with a digit left over is such a character. The length of the text is kept in an `int`.
-/

namespace Binkleyforce

/-- The loop of `string_hex_to_bin`, for so many turns: the value returned and the bytes stored. What
is left of the string stands for the pointer, and behind it is the terminator. -/
def hexToBinLoop : Nat → Bytes → Bytes → Nat × Bytes
  | 0, _, dest => (dest.length, dest)
  | turns + 1, string, dest =>
    match stringCasechr hexdigits (string.headD 0) with
    | none => (0, dest)
    | some high =>
      match stringCasechr hexdigits (string.tail.headD 0) with
      | none => (0, dest)
      | some low => hexToBinLoop turns (string.drop 2) (dest ++ [UInt8.ofNat ((high * 16 + low) % 256)])

/-- `string_hex_to_bin`: the value returned and the bytes stored. The loop goes on while twice the
number of its turns is below the length as an `int`. -/
def stringHexToBinStored (string : Bytes) : Nat × Bytes :=
  let len := Int.bmod (cstring string).length (2 ^ 32)
  hexToBinLoop ((len + 1) / 2).toNat (cstring string) []

/-- A text that is to be decoded: digits only, and an even number of them. -/
def HexText (text : Bytes) : Prop := text.length % 2 = 0 ∧ ∀ char ∈ text, (xdigit char).isSome

/-- The bytes that two digits each stand for. -/
def hexBytes (text : Bytes) : Bytes :=
  (List.range (text.length / 2)).map fun index =>
    UInt8.ofNat (16 * (xdigit (text.getD (2 * index) 0)).getD 0 + (xdigit (text.getD (2 * index + 1) 0)).getD 0)

/-! ## The loop -/

/-- A turn of the loop. -/
theorem hexToBinLoop_turn (turns : Nat) (string dest : Bytes) : hexToBinLoop (turns + 1) string dest =
    match stringCasechr hexdigits (string.headD 0) with
    | none => (0, dest)
    | some high =>
      match stringCasechr hexdigits (string.tail.headD 0) with
      | none => (0, dest)
      | some low => hexToBinLoop turns (string.drop 2) (dest ++ [UInt8.ofNat ((high * 16 + low) % 256)]) := rfl

/-- The length as an `int` is the length of a text that is not too long. -/
theorem hexToBin_turns {length : Nat} (short : length < 2 ^ 31) :
    ((Int.bmod length (2 ^ 32) + 1) / 2).toNat = (length + 1) / 2 := by
  have same : Int.bmod length (2 ^ 32) = length := Int.bmod_eq_of_le (by omega) (by omega)
  rw [same]
  omega

/-- The bytes of a text with one more pair of digits. -/
theorem hexBytes_cons (high low : UInt8) (text : Bytes) :
    hexBytes (high :: low :: text) =
      UInt8.ofNat (16 * (xdigit high).getD 0 + (xdigit low).getD 0) :: hexBytes text := by
  have more : (high :: low :: text).length / 2 = text.length / 2 + 1 := by
    rw [List.length_cons, List.length_cons]
    omega
  unfold hexBytes
  rw [more, List.range_succ_eq_map, List.map_cons, List.map_map]
  rfl

/-- A text of digits is decoded. -/
theorem hexToBinLoop_decodes (text dest : Bytes) (digits : HexText text) :
    hexToBinLoop ((text.length + 1) / 2) text dest =
      (dest.length + text.length / 2, dest ++ hexBytes text) := by
  obtain ⟨even, digits⟩ := digits
  induction text using List.twoStepInduction generalizing dest with
  | nil =>
    rw [hexBytes, List.length_nil, List.range_zero, List.map_nil, List.append_nil]
    rfl
  | singleton char => cases even
  | cons_cons high low text later _ =>
    rw [List.length_cons, List.length_cons] at even
    obtain ⟨one, first⟩ := Option.isSome_iff_exists.mp (digits high List.mem_cons_self)
    obtain ⟨two, second⟩ := Option.isSome_iff_exists.mp
      (digits low (List.mem_cons_of_mem high List.mem_cons_self))
    have small := xdigit_lt first
    have small' := xdigit_lt second
    have turns : ((high :: low :: text).length + 1) / 2 = (text.length + 1) / 2 + 1 := by
      rw [List.length_cons, List.length_cons]
      omega
    have value : (one * 16 + two) % 256 = 16 * one + two := by omega
    have rest := later (dest ++ [UInt8.ofNat ((one * 16 + two) % 256)]) (by omega)
      fun char member => digits char (List.mem_cons_of_mem high (List.mem_cons_of_mem low member))
    rw [turns, hexToBinLoop_turn, List.headD_cons, List.tail_cons, List.headD_cons, stringCasechr_hexdigits,
      stringCasechr_hexdigits, first, second]
    dsimp only
    rw [List.drop_succ_cons, List.drop_succ_cons, List.drop_zero, rest, hexBytes_cons, first, second, value]
    rw [Prod.mk.injEq]
    constructor
    · rw [List.length_append, List.length_singleton]
      simp only [List.length_cons]
      omega
    · rw [List.append_assoc]
      rfl

/-- Every other text is rejected. -/
theorem hexToBinLoop_rejects (text dest : Bytes) (other : ¬ HexText text) :
    (hexToBinLoop ((text.length + 1) / 2) text dest).1 = 0 := by
  induction text using List.twoStepInduction generalizing dest with
  | nil => exact absurd ⟨rfl, nofun⟩ other
  | singleton char =>
    have turns : ([char].length + 1) / 2 = 0 + 1 := by
      rw [List.length_singleton]
    rw [turns, hexToBinLoop_turn]
    split
    · rfl
    · -- The second character is the terminator.
      rfl
  | cons_cons high low text later _ =>
    have turns : ((high :: low :: text).length + 1) / 2 = (text.length + 1) / 2 + 1 := by
      rw [List.length_cons, List.length_cons]
      omega
    rw [turns, hexToBinLoop_turn, List.headD_cons, List.tail_cons, List.headD_cons, stringCasechr_hexdigits,
      stringCasechr_hexdigits]
    cases first : xdigit high with
    | none => rfl
    | some one =>
      cases second : xdigit low with
      | none => rfl
      | some two =>
        apply later
        rintro ⟨even, digits⟩
        apply other
        constructor
        · rw [List.length_cons, List.length_cons]
          omega
        · intro char member
          rcases List.mem_cons.mp member with rfl | member
          · rw [first]
            rfl
          · rcases List.mem_cons.mp member with rfl | member
            · rw [second]
              rfl
            · exact digits char member

/-- The case of the letters is of no matter. -/
theorem hexToBinLoop_case (turns : Nat) (one other dest : Bytes) (same : one.map tolower = other.map tolower) :
    hexToBinLoop turns one dest = hexToBinLoop turns other dest := by
  have head : ∀ {left right : Bytes}, left.map tolower = right.map tolower →
      stringCasechr hexdigits (left.headD 0) = stringCasechr hexdigits (right.headD 0) := by
    intro left right same
    have first : tolower (left.headD 0) = tolower (right.headD 0) := by
      have heads := congrArg (fun text => List.headD text (tolower 0)) same
      cases left <;> cases right <;> exact heads
    unfold stringCasechr
    rw [first]
  induction turns generalizing one other dest with
  | zero => rfl
  | succ turns later =>
    have tails : one.tail.map tolower = other.tail.map tolower := by
      rw [List.map_tail, List.map_tail, same]
    have rests : (one.drop 2).map tolower = (other.drop 2).map tolower := by
      rw [List.map_drop, List.map_drop, same]
    rw [hexToBinLoop_turn, hexToBinLoop_turn, head same, head tails]
    split
    · rfl
    · split
      · rfl
      · exact later _ _ _ rests

/-- A C string ends at the same place in either case. -/
theorem cstring_tolower (text : Bytes) : (cstring text).map tolower = cstring (text.map tolower) := by
  have zero : ∀ char, (tolower char ≠ 0) = (char ≠ 0) := by
    intro char
    have all : ∀ char, (tolower char = 0 ↔ char = 0) := byte_cases (by decide)
    rw [ne_eq, ne_eq, all char]
  unfold cstring
  rw [List.takeWhile_map]
  congr 2
  funext char
  simp only [Function.comp_apply, zero]

/-- The digits of a challenge are found by the same search. -/
theorem hexDigit_xdigit (char : UInt8) : hexDigit char = (xdigit char).map UInt8.ofNat := by
  revert char
  exact byte_cases (by decide)

/-- The loop decodes what a session takes for its challenge, and returns zero where it does not get to
the end. -/
theorem hexToBinLoop_stringHexToBin (text dest : Bytes) :
    hexToBinLoop ((text.length + 1) / 2) text dest =
      (if (stringHexToBin text).2 then dest.length + (stringHexToBin text).1.length else 0,
        dest ++ (stringHexToBin text).1) := by
  induction text using List.twoStepInduction generalizing dest with
  | nil =>
    rw [stringHexToBin, List.append_nil]
    rfl
  | singleton char =>
    have turns : ([char].length + 1) / 2 = 0 + 1 := by
      rw [List.length_singleton]
    have none_ : stringHexToBin [char] = ([], false) := by
      simp [stringHexToBin]
    rw [turns, hexToBinLoop_turn, none_, List.append_nil]
    split
    · rfl
    · rfl
  | cons_cons high low text later _ =>
    have turns : ((high :: low :: text).length + 1) / 2 = (text.length + 1) / 2 + 1 := by
      rw [List.length_cons, List.length_cons]
      omega
    rw [turns, hexToBinLoop_turn, stringHexToBin, List.headD_cons, List.tail_cons, List.headD_cons,
      stringCasechr_hexdigits, stringCasechr_hexdigits, hexDigit_xdigit, hexDigit_xdigit]
    cases first : xdigit high with
    | none => exact congrArg (Prod.mk 0) (List.append_nil dest).symm
    | some one =>
      cases second : xdigit low with
      | none => exact congrArg (Prod.mk 0) (List.append_nil dest).symm
      | some two =>
        have byte : UInt8.ofNat ((one * 16 + two) % 256) = UInt8.ofNat one * 16 + UInt8.ofNat two := by
          apply UInt8.toNat_inj.mp
          simp only [UInt8.toNat_add, UInt8.toNat_mul, UInt8.toNat_ofNat', UInt8.reduceToNat]
          omega
        simp only [Option.map_some, List.drop_succ_cons, List.drop_zero]
        rw [later, byte, List.append_assoc, List.length_append, List.length_singleton, List.length_cons]
        congr 2
        omega

/-! ## Both directions -/

/-- What is written in hexadecimal consists of digits, two for each byte. -/
theorem hexText_binToHex (binary : Bytes) :
    HexText (stringBinToHex binary) ∧ hexBytes (stringBinToHex binary) = binary := by
  constructor
  · constructor
    · rw [stringBinToHex_length]
      omega
    · apply stringBinToHex_chars
      decide
  · induction binary with
    | nil => rfl
    | cons byte binary later =>
      have text : stringBinToHex (byte :: binary) = hexdigits.getD (byte.toNat / 16) 0 ::
          hexdigits.getD (byte.toNat % 16) 0 :: stringBinToHex binary := rfl
      have digit : ∀ value < 16, xdigit (hexdigits.getD value 0) = some value := by decide
      have bound := byte.toNat_lt
      rw [text, hexBytes_cons, later, digit _ (by omega), digit _ (by omega), Option.getD_some, Option.getD_some,
        Nat.div_add_mod, UInt8.ofNat_toNat]

/-- The characters of such a text are none of them the terminator. -/
theorem cstring_binToHex (binary : Bytes) : cstring (stringBinToHex binary) = stringBinToHex binary := by
  apply cstring_whole
  apply stringBinToHex_chars
  decide

/-- There is a turn for each pair of characters, and for one left over. -/
theorem stringHexToBinStored_short {string : Bytes} (short : (cstring string).length < 2 ^ 31) :
    stringHexToBinStored string = hexToBinLoop (((cstring string).length + 1) / 2) (cstring string) [] := by
  unfold stringHexToBinStored
  dsimp only
  rw [hexToBin_turns short]

/-- The decoder of a challenge is the loop, if the length of the text is an `int`. -/
theorem stringHexToBinStored_decodes {string : Bytes} (short : (cstring string).length < 2 ^ 31) :
    stringHexToBinStored string =
      (if (stringHexToBin (cstring string)).2 then (stringHexToBin (cstring string)).1.length else 0,
        (stringHexToBin (cstring string)).1) := by
  rw [stringHexToBinStored_short short, hexToBinLoop_stringHexToBin, List.length_nil, Nat.zero_add,
    List.nil_append]

/-- A text of digits is decoded, if its length is an `int`. -/
theorem hex_decoded {string : Bytes} (short : (cstring string).length < 2 ^ 31) (digits : HexText (cstring string)) :
    stringHexToBinStored string = ((cstring string).length / 2, hexBytes (cstring string)) := by
  rw [stringHexToBinStored_short short, hexToBinLoop_decodes _ _ digits, List.length_nil, Nat.zero_add,
    List.nil_append]

/-- Any other text is rejected, if its length is an `int`. -/
theorem hex_rejected {string : Bytes} (short : (cstring string).length < 2 ^ 31)
    (other : ¬ HexText (cstring string)) : (stringHexToBinStored string).1 = 0 := by
  rw [stringHexToBinStored_short short]
  exact hexToBinLoop_rejects _ _ other

/-- The case of the letters is of no matter. -/
theorem hex_case {one other : Bytes} (same : one.map tolower = other.map tolower) :
    stringHexToBinStored one = stringHexToBinStored other := by
  have texts : (cstring one).map tolower = (cstring other).map tolower := by
    rw [cstring_tolower, cstring_tolower, same]
  have lengths : (cstring one).length = (cstring other).length := by
    have sizes := congrArg List.length texts
    rwa [List.length_map, List.length_map] at sizes
  unfold stringHexToBinStored
  dsimp only
  rw [lengths]
  exact hexToBinLoop_case _ _ _ _ texts

/-- What is written is read back, if the length of the text is an `int`. -/
theorem hex_read_back {binary : Bytes} (short : binary.length < 2 ^ 30) :
    stringHexToBinStored (stringBinToHex binary) = (binary.length, binary) := by
  obtain ⟨digits, bytes⟩ := hexText_binToHex binary
  have same := cstring_binToHex binary
  have length := stringBinToHex_length binary
  have fits : (cstring (stringBinToHex binary)).length < 2 ^ 31 := by
    rw [same, length]
    omega
  have whole : HexText (cstring (stringBinToHex binary)) := by
    rw [same]
    exact digits
  have decoded := hex_decoded fits whole
  rw [same, bytes, length, Nat.mul_div_cancel_left _ (by decide : 0 < 2)] at decoded
  exact decoded

/-- For fewer than 2^30 bytes what is written is read back. A text of fewer than 2^31 characters is
decoded where it consists of an even number of digits, and rejected where not. The case of the letters
is of no matter in any text. -/
theorem hex_codec :
    (∀ binary : Bytes, binary.length < 2 ^ 30 →
      stringHexToBinStored (stringBinToHex binary) = (binary.length, binary)) ∧
    (∀ string : Bytes, (cstring string).length < 2 ^ 31 →
      (HexText (cstring string) →
        stringHexToBinStored string = ((cstring string).length / 2, hexBytes (cstring string))) ∧
      (¬ HexText (cstring string) → (stringHexToBinStored string).1 = 0)) ∧
    ∀ one other : Bytes, one.map tolower = other.map tolower →
      stringHexToBinStored one = stringHexToBinStored other := by
  refine ⟨?_, fun string short => ⟨?_, ?_⟩, ?_⟩
  · intro binary short
    exact hex_read_back short
  · exact hex_decoded short
  · exact hex_rejected short
  · intro one other same
    exact hex_case same

/-- Two bytes, in upper case, with a digit too many, and with a letter that is no digit. -/
theorem hex_codec_bytes :
    stringHexToBinStored (stringBinToHex [0xfe, 0x05]) = (2, [0xfe, 0x05]) ∧
      stringHexToBinStored (ascii "FE05") = stringHexToBinStored (ascii "fe05") ∧
      (stringHexToBinStored (ascii "fe050")).1 = 0 ∧ (stringHexToBinStored (ascii "fg05")).1 = 0 := by
  refine ⟨hex_codec.1 [0xfe, 0x05] (by decide), hex_codec.2.2 _ _ (by decide), ?_, ?_⟩
  · apply (hex_codec.2.1 (ascii "fe050") (by decide)).2
    rintro ⟨even, -⟩
    exact absurd even (by decide)
  · apply (hex_codec.2.1 (ascii "fg05") (by decide)).2
    rintro ⟨-, digits⟩
    exact absurd (digits 103 (by decide)) (by decide)

/-- The text of 2^30 bytes is too long for an `int`, and taken for an empty one. -/
theorem long_hex_text_lost :
    ¬ ∀ binary : Bytes, stringHexToBinStored (stringBinToHex binary) = (binary.length, binary) := by
  intro all
  have many : (List.replicate (2 ^ 30) (0 : UInt8)).length = 2 ^ 30 := List.length_replicate
  generalize List.replicate (2 ^ 30) (0 : UInt8) = binary at many
  have stored : stringHexToBinStored (stringBinToHex binary) = hexToBinLoop 0 (stringBinToHex binary) [] := by
    unfold stringHexToBinStored
    rw [cstring_binToHex, stringBinToHex_length, many]
    rfl
  have returned := congrArg Prod.fst (stored.symm.trans (all binary))
  have zero : (hexToBinLoop 0 (stringBinToHex binary) []).1 = 0 := rfl
  rw [zero, many] at returned
  cases returned

end Binkleyforce
