import Binkleyforce.Util.Scan

/-!
# Escapes in the configuration

`string_dequote` copies a string and takes its escapes out, which `string_get_escape` reads.
The latter always ends one character behind the last one it looked at. That is the end of the
escape if all digits it may have are there, and one character too far if not: at the end of the
string the terminator is passed over.
-/

namespace Binkleyforce

/-- `string_casechr`, with the place of the character. -/
def stringCasechr (str : Bytes) (ch : UInt8) : Option Nat :=
  str.findIdx? fun char => tolower char = tolower ch

/-- The value of a `char`, which may have a sign. -/
def charInt (signed : Bool) (char : UInt8) : Int :=
  if signed && 128 ≤ char then (char.toNat : Int) - 256 else char.toNat

/-- The octal digits as `string_get_escape` knows them. -/
def octalChar (char : UInt8) : Bool := isdigit char && char ≠ 56 && char ≠ 57

/-- The value and the last place that `string_get_escape` comes to. What is left of the string
stands for a pointer, and nothing for the one at the terminator. -/
def escapeScan (signed : Bool) (p : Bytes) : Int × Bytes :=
  if p.headD 0 = 120 then
    let p := p.tail
    match stringCasechr hexdigits (p.headD 0) with
    | none => (0, p)
    | some high =>
      let p := p.tail
      match stringCasechr hexdigits (p.headD 0) with
      | none => (high, p)
      | some low => (high * 16 + low, p)
  else if p.headD 0 = 48 ∨ p.headD 0 = 49 ∨ p.headD 0 = 50 ∨ p.headD 0 = 51 then
    let ch := (p.headD 0).toNat - 48
    let p := p.tail
    if octalChar (p.headD 0) then
      let ch := ch * 8 + ((p.headD 0).toNat - 48)
      let p := p.tail
      if octalChar (p.headD 0) then ((ch * 8 + ((p.headD 0).toNat - 48) : Nat), p) else (ch, p)
    else (ch, p)
  else
    let ch : Int :=
      if p.headD 0 = 97 then 7
      else if p.headD 0 = 98 then 8
      else if p.headD 0 = 102 then 12
      else if p.headD 0 = 110 then 10
      else if p.headD 0 = 114 then 13
      else if p.headD 0 = 116 then 9
      else charInt signed (p.headD 0)
    (ch, p)

/-- `string_get_escape`, with the place behind the last one, which there is none of behind the
terminator. -/
def stringGetEscape (signed : Bool) (p : Bytes) : Int × Option Bytes :=
  let (ch, last) := escapeScan signed p
  (if 0 < ch then ch % 256 else -1, last.tail?)

/-- The loop of `string_dequote`. It fails where it reads behind the terminator. -/
def dequoteLoop (signed : Bool) : Nat → Bytes → Option Bytes
  | 0, _ => none
  | _ + 1, [] => some []
  | fuel + 1, char :: s =>
    if char = 92 ∧ s ≠ [] then
      let (ch, after) := stringGetEscape signed s
      after.bind fun after => (dequoteLoop signed fuel after).map fun d =>
        if ch = -1 then d else UInt8.ofNat ch.toNat :: d
    else (dequoteLoop signed fuel s).map (char :: ·)

/-- `string_dequote`. -/
def stringDequote (signed : Bool) (src : Bytes) : Option Bytes :=
  dequoteLoop signed (src.length + 1) src

/-- What the loop calls `string_get_escape` with. -/
def escapeCalls (signed : Bool) : Nat → Bytes → List Bytes
  | 0, _ => []
  | _ + 1, [] => []
  | fuel + 1, char :: s =>
    if char = 92 ∧ s ≠ [] then
      s :: match (stringGetEscape signed s).2 with
        | none => []
        | some after => escapeCalls signed fuel after
    else escapeCalls signed fuel s

/-- All calls of `string_get_escape` for a string. -/
def dequoteCalls (signed : Bool) (src : Bytes) : List Bytes := escapeCalls signed (src.length + 1) src

/-! ## What escapes mean -/

/-- A number in digits of a base. -/
def ofDigits (base : Nat) (digits : List Nat) : Nat := digits.foldl (fun value digit => value * base + digit) 0

/-- The digits of an octal escape. -/
def octalEscape (text : Bytes) : Bytes := (text.takeWhile isoctal).take 3

/-- The digits of a hexadecimal escape. -/
def hexEscape (text : Bytes) : Bytes := (text.takeWhile fun char => (xdigit char).isSome).take 2

/-- The character that a letter is the name of. -/
def namedEscape (char : UInt8) : UInt8 :=
  if char = 97 then 7
  else if char = 98 then 8
  else if char = 102 then 12
  else if char = 110 then 10
  else if char = 114 then 13
  else if char = 116 then 9
  else char

/-- The value and the length of the escape at the start of a text. -/
def escapeMeaning : Bytes → Nat × Nat
  | [] => (0, 0)
  | char :: rest =>
    if char = 120 ∧ hexEscape rest ≠ [] then
      (ofDigits 16 ((hexEscape rest).filterMap xdigit), 1 + (hexEscape rest).length)
    else if 48 ≤ char ∧ char ≤ 51 then
      (ofDigits 8 ((octalEscape (char :: rest)).map fun digit => digit.toNat - 48),
        (octalEscape (char :: rest)).length)
    else ((namedEscape char).toNat, 1)

/-- The text without its escapes, where as many characters are passed over first. -/
def unescapeFrom : Nat → Bytes → Bytes
  | _, [] => []
  | skip + 1, _ :: text => unescapeFrom skip text
  | 0, char :: text =>
    if char = 92 ∧ text ≠ [] then
      let (value, length) := escapeMeaning text
      if value = 0 then unescapeFrom length text else UInt8.ofNat value :: unescapeFrom length text
    else char :: unescapeFrom 0 text

/-- The text without its escapes. -/
def unescaped (text : Bytes) : Bytes := unescapeFrom 0 text

/-- The escapes of a text, each with what follows it. -/
def escapesFrom : Nat → Bytes → List Bytes
  | _, [] => []
  | skip + 1, _ :: text => escapesFrom skip text
  | 0, char :: text =>
    if char = 92 ∧ text ≠ [] then text :: escapesFrom (escapeMeaning text).2 text else escapesFrom 0 text

/-- The escapes of a text. -/
def escapes (text : Bytes) : List Bytes := escapesFrom 0 text

/-- An escape with all the digits that it may have, or of a character that is not negative. -/
def CompleteEscape (signed : Bool) : Bytes → Prop
  | [] => False
  | char :: rest =>
    if char = 120 then (hexEscape rest).length = 2
    else if 48 ≤ char ∧ char ≤ 51 then (octalEscape (char :: rest)).length = 3
    else signed = true → char < 128

/-- `string_get_escape` gives the value of the escape, and ends behind it. -/
def EscapeRight (signed : Bool) (text : Bytes) : Prop :=
  stringGetEscape signed text =
    (if (escapeMeaning text).1 = 0 then -1 else ((escapeMeaning text).1 : Int),
      some (text.drop (escapeMeaning text).2))

/-! ## One escape -/

/-- The search for a digit gives its value. -/
theorem stringCasechr_hexdigits (char : UInt8) : stringCasechr hexdigits char = xdigit char := by
  revert char
  exact byte_cases (by decide)

/-- Both tests know the same octal digits. -/
theorem octalChar_eq (char : UInt8) : octalChar char = isoctal char := by
  rw [Bool.eq_iff_iff]
  simp only [octalChar, isoctal, isdigit, Bool.and_eq_true, decide_eq_true_eq, ne_eq, ← UInt8.toNat_inj,
    UInt8.le_iff_toNat_le, UInt8.reduceToNat]
  omega

/-- The value and the place that are returned. -/
theorem stringGetEscape_scan {signed : Bool} {text last : Bytes} {ch : Int}
    (scan : escapeScan signed text = (ch, last)) :
    stringGetEscape signed text = (if 0 < ch then ch % 256 else -1, last.tail?) := by
  unfold stringGetEscape
  rw [scan]

/-- An escape is read right if its value is, and if it ends where it should. -/
theorem escapeRight_iff {signed : Bool} {text last : Bytes} {ch : Int}
    (scan : escapeScan signed text = (ch, last)) {value length : Nat}
    (meaning : escapeMeaning text = (value, length)) (byte : value < 256) :
    EscapeRight signed text ↔
      (ch = value ∨ ch ≤ 0 ∧ value = 0 ∨ 0 < ch ∧ ch % 256 = value ∧ value ≠ 0) ∧
        last.tail? = some (text.drop length) := by
  unfold EscapeRight
  rw [stringGetEscape_scan scan, meaning, Prod.mk.injEq]
  refine and_congr ?_ Iff.rfl
  dsimp only
  split
  · split
    · omega
    · omega
  · split
    · omega
    · omega

/-- A hexadecimal escape is read right if it has two digits. -/
theorem escapeRight_hex (signed : Bool) (rest : Bytes) :
    EscapeRight signed (120 :: rest) ↔ (hexEscape rest).length = 2 := by
  cases rest with
  | nil => exact iff_of_false (by cases signed <;> (unfold EscapeRight; decide)) (by decide)
  | cons high rest =>
    cases first : xdigit high with
    | none =>
      have scan : escapeScan signed (120 :: high :: rest) = (0, high :: rest) := by
        unfold escapeScan
        simp [stringCasechr_hexdigits, first]
      have digits : hexEscape (high :: rest) = [] := by
        unfold hexEscape
        rw [List.takeWhile_cons, first]
        rfl
      have meaning : escapeMeaning (120 :: high :: rest) = (120, 1) := by
        unfold escapeMeaning
        simp only [digits, ne_eq, not_true_eq_false, and_false, if_false]
        rfl
      rw [escapeRight_iff scan meaning (by decide), digits]
      exact iff_of_false (by omega) (by decide)
    | some value =>
      have small := xdigit_lt first
      cases rest with
      | nil =>
        have scan : escapeScan signed [120, high] = ((value : Int), []) := by
          unfold escapeScan
          simp [stringCasechr_hexdigits, first, show xdigit 0 = none from rfl]
        have digits : hexEscape [high] = [high] := by
          unfold hexEscape
          rw [List.takeWhile_cons, first]
          rfl
        have meaning : escapeMeaning [120, high] = (value, 2) := by
          unfold escapeMeaning ofDigits
          simp [digits, first]
        rw [escapeRight_iff scan meaning (by omega), digits]
        exact iff_of_false (fun right => nomatch right.2) (by simp)
      | cons low rest =>
        cases second : xdigit low with
        | none =>
          have scan : escapeScan signed (120 :: high :: low :: rest) = ((value : Int), low :: rest) := by
            unfold escapeScan
            simp [stringCasechr_hexdigits, first, second]
          have digits : hexEscape (high :: low :: rest) = [high] := by
            unfold hexEscape
            rw [List.takeWhile_cons, first, Option.isSome_some, if_pos rfl, List.takeWhile_cons, second]
            rfl
          have meaning : escapeMeaning (120 :: high :: low :: rest) = (value, 2) := by
            unfold escapeMeaning ofDigits
            simp [digits, first]
          rw [escapeRight_iff scan meaning (by omega), digits]
          refine iff_of_false (fun right => ?_) (by simp)
          have same := congrArg List.length (Option.some.inj right.2)
          simp at same
        | some digit =>
          have less := xdigit_lt second
          have scan : escapeScan signed (120 :: high :: low :: rest) =
              (((value * 16 + digit : Nat) : Int), low :: rest) := by
            unfold escapeScan
            simp [stringCasechr_hexdigits, first, second]
          have digits : hexEscape (high :: low :: rest) = [high, low] := by
            unfold hexEscape
            rw [List.takeWhile_cons, first, Option.isSome_some, if_pos rfl, List.takeWhile_cons, second,
              Option.isSome_some, if_pos rfl]
            rfl
          have meaning : escapeMeaning (120 :: high :: low :: rest) = (value * 16 + digit, 3) := by
            unfold escapeMeaning ofDigits
            simp [digits, first, second]
          rw [escapeRight_iff scan meaning (by omega), digits]
          exact iff_of_true ⟨.inl rfl, rfl⟩ rfl

/-- The value of an octal digit. -/
theorem isoctal_value {char : UInt8} (octal : isoctal char) : char.toNat - 48 < 8 := by
  unfold isoctal at octal
  simp only [Bool.and_eq_true, decide_eq_true_eq, UInt8.le_iff_toNat_le] at octal
  have high := octal.2
  rw [show (55 : UInt8).toNat = 55 from rfl] at high
  omega

/-- An octal escape is read right if it has three digits. -/
theorem escapeRight_octal (signed : Bool) {char : UInt8} (rest : Bytes) (starts : 48 ≤ char ∧ char ≤ 51) :
    EscapeRight signed (char :: rest) ↔ (octalEscape (char :: rest)).length = 3 := by
  obtain ⟨four, noHex, octal, small⟩ : (char = 48 ∨ char = 49 ∨ char = 50 ∨ char = 51) ∧ char ≠ 120 ∧
      isoctal char = true ∧ char.toNat - 48 < 4 := by
    simp only [isoctal, Bool.and_eq_true, decide_eq_true_eq, ne_eq, ← UInt8.toNat_inj, UInt8.le_iff_toNat_le,
      UInt8.reduceToNat] at starts ⊢
    omega
  -- The escape is what its digits are, whatever follows.
  have meaning {length : Nat} {digits : Bytes} (rest : Bytes) (are : octalEscape (char :: rest) = digits)
      (long : digits.length = length) : escapeMeaning (char :: rest) =
        (ofDigits 8 (digits.map fun digit => digit.toNat - 48), length) := by
    unfold escapeMeaning
    dsimp only
    rw [if_neg (fun hex => noHex hex.1), if_pos starts, are, long]
  cases rest with
  | nil =>
    have scan : escapeScan signed [char] = (((char.toNat - 48 : Nat) : Int), []) := by
      unfold escapeScan
      simp [noHex, four, octalChar_eq, show isoctal 0 = false from rfl]
    have digits : octalEscape [char] = [char] := by
      unfold octalEscape
      rw [List.takeWhile_cons, octal]
      rfl
    rw [escapeRight_iff scan (meaning [] digits rfl) (by simp [ofDigits]; omega), digits]
    exact iff_of_false (fun right => nomatch right.2) (by simp)
  | cons second rest =>
    cases next : isoctal second with
    | false =>
      have scan : escapeScan signed (char :: second :: rest) =
          (((char.toNat - 48 : Nat) : Int), second :: rest) := by
        unfold escapeScan
        simp [noHex, four, octalChar_eq, next]
      have digits : octalEscape (char :: second :: rest) = [char] := by
        unfold octalEscape
        rw [List.takeWhile_cons, octal, if_pos rfl, List.takeWhile_cons, next]
        rfl
      rw [escapeRight_iff scan (meaning _ digits rfl) (by simp [ofDigits]; omega), digits]
      refine iff_of_false (fun right => ?_) (by simp)
      have same := congrArg List.length (Option.some.inj right.2)
      simp at same
    | true =>
      have few := isoctal_value next
      cases rest with
      | nil =>
        have scan : escapeScan signed [char, second] =
            ((((char.toNat - 48) * 8 + (second.toNat - 48) : Nat) : Int), []) := by
          unfold escapeScan
          simp [noHex, four, octalChar_eq, next, show isoctal 0 = false from rfl]
        have digits : octalEscape [char, second] = [char, second] := by
          unfold octalEscape
          rw [List.takeWhile_cons, octal, if_pos rfl, List.takeWhile_cons, next]
          rfl
        rw [escapeRight_iff scan (meaning _ digits rfl) (by simp [ofDigits]; omega), digits]
        exact iff_of_false (fun right => nomatch right.2) (by simp)
      | cons third rest =>
        cases last : isoctal third with
        | false =>
          have scan : escapeScan signed (char :: second :: third :: rest) =
              ((((char.toNat - 48) * 8 + (second.toNat - 48) : Nat) : Int), third :: rest) := by
            unfold escapeScan
            simp [noHex, four, octalChar_eq, next, last]
          have digits : octalEscape (char :: second :: third :: rest) = [char, second] := by
            unfold octalEscape
            rw [List.takeWhile_cons, octal, if_pos rfl, List.takeWhile_cons, next, if_pos rfl,
              List.takeWhile_cons, last]
            rfl
          rw [escapeRight_iff scan (meaning _ digits rfl) (by simp [ofDigits]; omega), digits]
          refine iff_of_false (fun right => ?_) (by simp)
          have same := congrArg List.length (Option.some.inj right.2)
          simp at same
        | true =>
          have less := isoctal_value last
          have scan : escapeScan signed (char :: second :: third :: rest) =
              (((((char.toNat - 48) * 8 + (second.toNat - 48)) * 8 + (third.toNat - 48) : Nat) : Int),
                third :: rest) := by
            unfold escapeScan
            simp [noHex, four, octalChar_eq, next, last]
          have digits : octalEscape (char :: second :: third :: rest) = [char, second, third] := by
            unfold octalEscape
            rw [List.takeWhile_cons, octal, if_pos rfl, List.takeWhile_cons, next, if_pos rfl,
              List.takeWhile_cons, last, if_pos rfl]
            rfl
          rw [escapeRight_iff scan (meaning _ digits rfl) (by simp [ofDigits]; omega), digits]
          exact iff_of_true ⟨.inl (by simp [ofDigits]), rfl⟩ rfl

/-- The value of a character that is no digit, as `string_get_escape` sees it. -/
def otherValue (signed : Bool) (char : UInt8) : Int :=
  if char = 97 then 7
  else if char = 98 then 8
  else if char = 102 then 12
  else if char = 110 then 10
  else if char = 114 then 13
  else if char = 116 then 9
  else charInt signed char

/-- That is what it means, or negative. -/
theorem otherValue_iff (signed : Bool) {char : UInt8} (some : char ≠ 0) :
    (otherValue signed char = (namedEscape char).toNat ∧ (signed = true → char < 128)) ∨
      (otherValue signed char < 0 ∧ (namedEscape char).toNat ≠ 0 ∧ signed = true ∧ ¬ char < 128) := by
  have all : ∀ char, char ≠ 0 →
      (otherValue signed char = (namedEscape char).toNat ∧ (signed = true → char < 128)) ∨
        (otherValue signed char < 0 ∧ (namedEscape char).toNat ≠ 0 ∧ signed = true ∧ ¬ char < 128) := by
    cases signed with
    | false => exact byte_cases (by decide)
    | true => exact byte_cases (by decide)
  exact all char some

/-- Any other character is read right if it is not negative. -/
theorem escapeRight_other (signed : Bool) {char : UInt8} (rest : Bytes) (some : char ≠ 0) (noHex : char ≠ 120)
    (noOctal : ¬ (48 ≤ char ∧ char ≤ 51)) :
    EscapeRight signed (char :: rest) ↔ (signed = true → char < 128) := by
  have four : ¬ (char = 48 ∨ char = 49 ∨ char = 50 ∨ char = 51) := by
    rintro (rfl | rfl | rfl | rfl)
    all_goals exact noOctal (by decide)
  have scan : escapeScan signed (char :: rest) = (otherValue signed char, char :: rest) := by
    unfold escapeScan
    rw [List.headD_cons, if_neg noHex, if_neg four]
    rfl
  have meaning : escapeMeaning (char :: rest) = ((namedEscape char).toNat, 1) := by
    unfold escapeMeaning
    dsimp only
    rw [if_neg (fun hex => noHex hex.1), if_neg noOctal]
  rw [escapeRight_iff scan meaning (namedEscape char).toNat_lt]
  rcases otherValue_iff signed some with ⟨value, plain⟩ | ⟨negative, nonzero, sign, high⟩
  · exact iff_of_true ⟨.inl value, rfl⟩ plain
  · exact iff_of_false (by omega) fun plain => high (plain sign)

/-- `string_get_escape` reads an escape right, exactly if it is complete. -/
theorem escapeRight_complete (signed : Bool) {text : Bytes} (filled : text ≠ []) (plain : 0 ∉ text) :
    EscapeRight signed text ↔ CompleteEscape signed text := by
  obtain ⟨char, rest, rfl⟩ := List.exists_cons_of_ne_nil filled
  rw [List.mem_cons, not_or] at plain
  unfold CompleteEscape
  dsimp only
  split
  · rename_i hex
    subst hex
    exact escapeRight_hex signed rest
  · rename_i noHex
    split
    · rename_i octal
      exact escapeRight_octal signed rest octal
    · rename_i noOctal
      exact escapeRight_other signed rest (Ne.symm plain.1) noHex noOctal

/-! ## Whole strings -/

/-- The length of an escape is not zero. -/
theorem escapeMeaning_length {text : Bytes} (filled : text ≠ []) : 0 < (escapeMeaning text).2 := by
  obtain ⟨char, rest, rfl⟩ := List.exists_cons_of_ne_nil filled
  unfold escapeMeaning
  dsimp only
  split
  · exact Nat.add_pos_left Nat.one_pos _
  · split
    · rename_i octal
      have starts : isoctal char = true := by
        unfold isoctal
        rw [Bool.and_eq_true, decide_eq_true_eq, decide_eq_true_eq]
        exact ⟨octal.1, UInt8.le_trans octal.2 (by decide)⟩
      unfold octalEscape
      dsimp only
      rw [List.takeWhile_cons, if_pos starts]
      exact Nat.succ_pos _
    · exact Nat.one_pos

/-- Characters that are passed over do not matter. -/
theorem unescapeFrom_skip (skip : Nat) (text : Bytes) : unescapeFrom skip text = unescaped (text.drop skip) := by
  induction text generalizing skip with
  | nil =>
    rw [List.drop_nil]
    cases skip with
    | zero => rfl
    | succ skip => rfl
  | cons char text inductionHypothesis =>
    cases skip with
    | zero => rfl
    | succ skip => exact inductionHypothesis skip

/-- Nor do they for the escapes. -/
theorem escapesFrom_skip (skip : Nat) (text : Bytes) : escapesFrom skip text = escapes (text.drop skip) := by
  induction text generalizing skip with
  | nil =>
    rw [List.drop_nil]
    cases skip with
    | zero => rfl
    | succ skip => rfl
  | cons char text inductionHypothesis =>
    cases skip with
    | zero => rfl
    | succ skip => exact inductionHypothesis skip

/-- While all calls are right, the loop does what the escapes mean. -/
theorem dequoteLoop_right (signed : Bool) {fuel : Nat} {text : Bytes} (enough : text.length < fuel)
    (plain : 0 ∉ text) :
    ((∀ call ∈ escapeCalls signed fuel text, EscapeRight signed call) ↔
        ∀ escape ∈ escapes text, CompleteEscape signed escape) ∧
      ((∀ escape ∈ escapes text, CompleteEscape signed escape) →
        dequoteLoop signed fuel text = some (unescaped text)) := by
  induction fuel generalizing text with
  | zero => exact absurd enough (Nat.not_lt_zero _)
  | succ fuel inductionHypothesis =>
    cases text with
    | nil => exact ⟨iff_of_true nofun nofun, fun _ => rfl⟩
    | cons char text =>
      rw [List.length_cons] at enough
      rw [List.mem_cons, not_or] at plain
      unfold escapes unescaped
      rw [escapeCalls, dequoteLoop, escapesFrom, unescapeFrom]
      by_cases starts : char = 92 ∧ text ≠ []
      · rw [if_pos starts, if_pos starts, if_pos starts, if_pos starts]
        have one := escapeRight_complete signed starts.2 plain.2
        have longer := escapeMeaning_length starts.2
        rw [List.forall_mem_cons, List.forall_mem_cons, one, escapesFrom_skip]
        by_cases complete : CompleteEscape signed text
        · have right := one.mpr complete
          have short : (text.drop (escapeMeaning text).2).length < fuel := by
            rw [List.length_drop]
            omega
          obtain ⟨calls, gives⟩ := inductionHypothesis short fun zero => plain.2 (List.mem_of_mem_drop zero)
          unfold EscapeRight at right
          rw [right]
          dsimp only
          refine ⟨and_congr_right fun _ => calls, fun all => ?_⟩
          rw [Option.bind_some, gives all.2, Option.map_some]
          refine congrArg some ?_
          rw [unescapeFrom_skip]
          by_cases zero : (escapeMeaning text).1 = 0
          · rw [if_pos zero, if_pos rfl, if_pos zero]
          · rw [if_neg zero, if_neg (by omega), if_neg zero, Int.toNat_natCast]
        · exact ⟨iff_of_false (fun all => complete all.1) fun all => complete all.1,
            fun all => absurd all.1 complete⟩
      · rw [if_neg starts, if_neg starts, if_neg starts, if_neg starts]
        obtain ⟨calls, gives⟩ := inductionHypothesis (by omega) plain.2
        refine ⟨calls, fun complete => ?_⟩
        rw [gives complete]
        rfl

/-- `string_get_escape` reads an escape right, exactly if it has all the digits it may have, or
is of a character that is not negative. In a run of `string_dequote` all escapes are read right
exactly if they are such ones, and then the result is the text without its escapes, with nothing
read behind the terminator. -/
theorem dequote_right (signed : Bool) {text : Bytes} (plain : 0 ∉ text) :
    (text ≠ [] → (EscapeRight signed text ↔ CompleteEscape signed text)) ∧
    ((stringDequote signed text = some (unescaped text) ∧
        ∀ call ∈ dequoteCalls signed text, EscapeRight signed call) ↔
      ∀ escape ∈ escapes text, CompleteEscape signed escape) := by
  obtain ⟨calls, gives⟩ := dequoteLoop_right signed (Nat.lt_succ_self text.length) plain
  refine ⟨fun filled => escapeRight_complete signed filled plain, ?_⟩
  constructor
  · intro right
    exact calls.mp right.2
  · intro complete
    exact ⟨gives complete, calls.mpr complete⟩

/-- A string with complete escapes. -/
theorem dequote_right_complete : stringDequote true (ascii "\\033[0m\\x41\\n\\q") =
    some ([27] ++ ascii "[0mA" ++ [10, 113]) := by
  have plain : 0 ∉ ascii "\\033[0m\\x41\\n\\q" := by decide
  have complete : ∀ escape ∈ escapes (ascii "\\033[0m\\x41\\n\\q"), CompleteEscape true escape := by
    have all : escapes (ascii "\\033[0m\\x41\\n\\q") =
        [ascii "033[0m\\x41\\n\\q", ascii "x41\\n\\q", ascii "n\\q", ascii "q"] := by decide
    rw [all]
    simp only [List.forall_mem_cons, List.not_mem_nil, false_imp_iff, implies_true, and_true]
    refine ⟨?_, ?_, ?_, ?_⟩
    · exact (by decide : (octalEscape (ascii "033[0m\\x41\\n\\q")).length = 3)
    · exact (by decide : (hexEscape (ascii "41\\n\\q")).length = 2)
    · exact fun _ => by decide
    · exact fun _ => by decide
  exact ((dequote_right true plain).2.mpr complete).1

/-- After a short escape a character is lost, and at the end of a string the terminator is
passed over. -/
theorem short_escape_loses : unescaped (ascii "\\33[0m") = [27] ++ ascii "[0m" ∧
    stringDequote true (ascii "\\33[0m") = some ([27] ++ ascii "0m") ∧
    unescaped (ascii "\\x4") = [4] ∧ stringDequote true (ascii "\\x4") = none := by
  decide

end Binkleyforce
