import Binkleyforce.Util.Address

/-!
# Scanned and printed texts

The conversions of `sscanf` and `sprintf` the protocols use. A conversion takes
what it wants from the front of the text and leaves the rest; `none` is a
matching failure. Integers are those of an LP64 system: an `int` has 32 bits,
`long` and `size_t` have 64.
-/

namespace Binkleyforce

/-- Skip leading white space, as most conversions do. -/
def skipSpace (text : Bytes) : Bytes := text.dropWhile isspace

/-- The number read by `strtol` where digits start, saturated. -/
def strtolMagnitude (negative : Bool) (text : Bytes) : Int :=
  if negative then -(min (leadingNumber text : Int) (2 ^ 63))
  else min (leadingNumber text : Int) (2 ^ 63 - 1)

/-- `%d`: the value as it is stored in an `int`. -/
def scanInt (text : Bytes) : Option (Int × Bytes) :=
  let text := skipSpace text
  let negative := text.head? = some 45
  let digits := if negative || text.head? = some 43 then text.tail else text
  if (digits.takeWhile isdigit).isEmpty then none
  else some (Int.bmod (strtolMagnitude negative digits) (2 ^ 32), digits.dropWhile isdigit)

/-- `%s`: a word without white space. -/
def scanWord (text : Bytes) : Option (Bytes × Bytes) :=
  let text := skipSpace text
  let word := text.takeWhile (fun char => !isspace char)
  if word.isEmpty then none else some (word, text.drop word.length)

/-- The value of a `size_t` after an `int` was stored in its low half, the high
half keeping what it held. -/
def storeLowHalf (high : Nat) (value : Int) : Nat :=
  high % 2 ^ 32 * 2 ^ 32 + (value % 2 ^ 32).toNat

/-- The `long` with the same 64 bits. -/
def toLong (value : Nat) : Int :=
  if value % 2 ^ 64 < 2 ^ 63 then (value % 2 ^ 64 : Nat) else (value % 2 ^ 64 : Nat) - 2 ^ 64

/-- The value of a hexadecimal digit. -/
def xdigit (char : UInt8) : Option Nat :=
  if isdigit char then some (char.toNat - 48)
  else if 97 ≤ char && char ≤ 102 then some (char.toNat - 87)
  else if 65 ≤ char && char ≤ 70 then some (char.toNat - 55)
  else none

/-- `%lx` and `%x` with a field width: the number before it is stored, negative
where a sign stands before it. -/
def scanHex (width : Nat) (text : Bytes) : Option (Int × Bytes) :=
  let text := skipSpace text
  let field := text.take width
  let unsigned := if field.head? = some 45 || field.head? = some 43 then field.tail else field
  let digits :=
    if unsigned.take 2 = [48, 120] || unsigned.take 2 = [48, 88] then unsigned.drop 2
    else unsigned
  let taken := digits.takeWhile fun char => (xdigit char).isSome
  if taken.isEmpty then none
  else
    let magnitude : Nat := (taken.filterMap xdigit).foldl (fun value digit => value * 16 + digit) 0
    some (if field.head? = some 45 then -(magnitude : Int) else magnitude,
      text.drop (field.length - digits.length + taken.length))

/-- `%08lx`: the lower-case hexadecimal digits of a number, at least eight. -/
def printHex (value : Nat) : Bytes :=
  let digits := (Nat.toDigits 16 value).map (fun digit => UInt8.ofNat digit.toNat)
  List.replicate (8 - digits.length) 48 ++ digits

/-- An octal digit. -/
def isoctal (char : UInt8) : Bool := 48 ≤ char && char ≤ 55

/-- `%lo` of `sscanf`: the number before it is stored, the greatest one for what is too great. -/
def scanOct (text : Bytes) : Option (Int × Bytes) :=
  let text := skipSpace text
  let negative := text.head? = some 45
  let digits := if negative || text.head? = some 43 then text.tail else text
  let taken := digits.takeWhile isoctal
  if taken.isEmpty then none
  else
    let magnitude : Nat := taken.foldl (fun value digit => 8 * value + (digit.toNat - 48)) 0
    let value : Int :=
      if 2 ^ 64 ≤ magnitude then 2 ^ 64 - 1 else if negative then -(magnitude : Int) else magnitude
    some (value, digits.dropWhile isoctal)

/-- `%lo`. -/
def printOct (value : Int) : Bytes :=
  (Nat.toDigits 8 (value % 2 ^ 64).toNat).map fun digit => UInt8.ofNat digit.toNat

/-- The decimal digits of a number. -/
def printNat (value : Nat) : Bytes :=
  (Nat.toDigits 10 value).map (fun digit => UInt8.ofNat digit.toNat)

/-- `%ld` and `%d`. -/
def printInt (value : Int) : Bytes :=
  if value < 0 then 45 :: printNat value.natAbs else printNat value.natAbs

/-- A 64-bit number has at most twenty digits. -/
theorem printNat_length (value : Nat) (inside : value < 2 ^ 64) :
    (printNat value).length ≤ 20 := by
  unfold printNat
  rw [List.length_map, Nat.length_toDigits_le_iff (by decide) (by decide)]
  omega

/-- A 64-bit integer is printed in at most 21 characters. -/
theorem printInt_length (value : Int) (inside : value.natAbs < 2 ^ 64) :
    (printInt value).length ≤ 21 := by
  have digits := printNat_length value.natAbs inside
  unfold printInt
  split
  · simp only [List.length_cons]
    omega
  · omega

/-- A `long` stays within its 64 bits. -/
theorem toLong_natAbs (value : Nat) : (toLong value).natAbs < 2 ^ 64 := by
  unfold toLong
  split <;> omega

/-- A `size_t` filled from below stays within its 64 bits. -/
theorem storeLowHalf_lt (high : Nat) (value : Int) : storeLowHalf high value < 2 ^ 64 := by
  unfold storeLowHalf
  have top : high % 2 ^ 32 < 2 ^ 32 := Nat.mod_lt _ (by decide)
  have low : value % 2 ^ 32 < 2 ^ 32 := Int.emod_lt_of_pos _ (by decide)
  omega

/-! ## Scanning what was printed -/

/-- A run of characters of one kind before one of another kind is what a scan
takes. -/
theorem takeWhile_run (kind : UInt8 → Bool) (front rest : Bytes)
    (inside : ∀ char ∈ front, kind char = true) (ends : ∀ char ∈ rest.head?, kind char = false) :
    (front ++ rest).takeWhile kind = front ∧ (front ++ rest).dropWhile kind = rest := by
  rw [List.takeWhile_append_of_pos inside, List.dropWhile_append_of_pos inside]
  cases rest with
  | nil => exact ⟨by simp, rfl⟩
  | cons char later =>
    have stops := ends char rfl
    constructor
    · rw [List.takeWhile_cons_of_neg (by simp [stops]), List.append_nil]
    · rw [List.dropWhile_cons_of_neg (by simp [stops])]

/-- The digits by their codes. -/
theorem isdigit_iff (char : UInt8) :
    isdigit char = true ↔ 48 ≤ char.toNat ∧ char.toNat ≤ 57 := by
  simp [isdigit, UInt8.le_iff_toNat_le]

/-- A digit is neither white space nor a sign. -/
theorem isdigit_unsigned (char : UInt8) (digit : isdigit char = true) :
    isspace char = false ∧ char ≠ 45 ∧ char ≠ 43 := by
  have codes := (isdigit_iff char).mp digit
  have other : ∀ code : UInt8, ¬ (48 ≤ code.toNat) → char ≠ code := by
    rintro code outside rfl
    exact outside codes.1
  refine ⟨?_, other 45 (by decide), other 43 (by decide)⟩
  have late : ¬ char ≤ 13 := by
    intro early
    have := UInt8.le_iff_toNat_le.mp early
    simp only [UInt8.toNat_ofNat] at this
    omega
  simp [isspace, other 32 (by decide), late]

/-- The decimal digits by their codes. -/
theorem toDigits_code (value : Nat) :
    ∀ digit ∈ Nat.toDigits 10 value, 48 ≤ digit.toNat ∧ digit.toNat ≤ 57 := by
  intro digit printed
  have decimal := Nat.isDigit_of_mem_toDigits (by decide) (by decide) printed
  simp only [Char.isDigit, Bool.and_eq_true, decide_eq_true_eq, UInt32.le_iff_toNat_le] at decimal
  exact decimal

/-- A number is printed in digits. -/
theorem printNat_isdigit (value : Nat) : ∀ char ∈ printNat value, isdigit char = true := by
  intro char member
  obtain ⟨digit, printed, made⟩ := List.mem_map.mp member
  have bounds := toDigits_code value digit printed
  rw [isdigit_iff, ← made, UInt8.toNat_ofNat']
  omega

/-- A printed number is not empty. -/
theorem printNat_ne_nil (value : Nat) : printNat value ≠ [] := by
  unfold printNat
  rw [ne_eq, List.map_eq_nil_iff]
  exact Nat.toDigits_ne_nil

/-- The characters of a number are its digits in the base. -/
theorem toDigits_digitChar {base : Nat} (large : 1 < base) (value : Nat) :
    ∀ char ∈ Nat.toDigits base value, ∃ digit < base, char = Nat.digitChar digit := by
  induction value using Nat.strongRecOn with
  | ind value later =>
    rw [Nat.toDigits_eq_if large]
    split
    case isTrue small =>
      intro char member
      exact ⟨value, small, List.mem_singleton.mp member⟩
    case isFalse more =>
      intro char member
      rcases List.mem_append.mp member with front | last
      · exact later (value / base) (Nat.div_lt_self (by omega) large) char front
      · exact ⟨value % base, Nat.mod_lt _ (by omega), List.mem_singleton.mp last⟩

/-- Digits as bytes are worth what they are worth as characters. -/
theorem foldl_digits (base : Nat) (digits : List Char) (init : Nat)
    (small : ∀ digit ∈ digits, digit.toNat < 256) :
    (digits.map fun digit => UInt8.ofNat digit.toNat).foldl
        (fun value digit => base * value + (digit.toNat - 48)) init =
      Nat.ofDigitChars base digits init := by
  induction digits generalizing init with
  | nil => rw [Nat.ofDigitChars_nil]; rfl
  | cons digit later inductionHypothesis =>
    have low := small digit List.mem_cons_self
    rw [Nat.ofDigitChars_cons, List.map_cons, List.foldl_cons,
      inductionHypothesis _ fun other member => small other (List.mem_cons_of_mem _ member),
      UInt8.toNat_ofNat', Nat.mod_eq_of_lt low]
    rfl

/-- The digits of a number read back give the number. -/
theorem leadingNumber_printNat (value : Nat) (rest : Bytes)
    (ends : ∀ char ∈ rest.head?, isdigit char = false) :
    leadingNumber (printNat value ++ rest) = value := by
  unfold leadingNumber
  rw [(takeWhile_run isdigit _ rest (printNat_isdigit value) ends).1]
  have small : ∀ digit ∈ Nat.toDigits 10 value, digit.toNat < 256 := by
    intro digit printed
    have codes := toDigits_code value digit printed
    omega
  rw [printNat, foldl_digits 10 _ _ small, Nat.ofDigitChars_ten_toDigits]

/-- The first digit of a printed number. -/
theorem printNat_cons (value : Nat) :
    ∃ first later, printNat value = first :: later ∧ isdigit first = true := by
  obtain ⟨first, later, printed⟩ := List.exists_cons_of_ne_nil (printNat_ne_nil value)
  exact ⟨first, later, printed, printNat_isdigit value first (printed ▸ List.mem_cons_self)⟩

/-- `%d` reads back what `%ld` printed, cut to 32 bits. -/
theorem scanInt_printInt (value : Int) (rest : Bytes) (low : -(2 ^ 63) ≤ value)
    (high : value < 2 ^ 63) (ends : ∀ char ∈ rest.head?, isdigit char = false) :
    scanInt (32 :: (printInt value ++ rest)) = some (Int.bmod value (2 ^ 32), rest) := by
  obtain ⟨first, later, printed, digit⟩ := printNat_cons value.natAbs
  have unsigned := isdigit_unsigned first digit
  have run := takeWhile_run isdigit _ rest (printNat_isdigit value.natAbs) ends
  have number := leadingNumber_printNat value.natAbs rest ends
  have start : skipSpace (32 :: (printInt value ++ rest)) = printInt value ++ rest := by
    unfold skipSpace printInt
    rw [List.dropWhile_cons_of_pos (by decide)]
    split
    · rw [List.cons_append, List.dropWhile_cons_of_neg (by decide)]
    · rw [printed, List.cons_append, List.dropWhile_cons_of_neg (by simp [unsigned.1])]
  unfold scanInt
  rw [start]
  by_cases negative : value < 0
  · have text : printInt value = 45 :: printNat value.natAbs := by
      unfold printInt
      rw [if_pos negative]
    rw [text]
    simp only [List.cons_append, List.head?_cons, decide_true, Bool.true_or, if_true, List.tail_cons,
      run.1, run.2, strtolMagnitude, number]
    rw [if_neg (by simpa using printNat_ne_nil _)]
    congr 3
    omega
  · have text : printInt value = printNat value.natAbs := by
      unfold printInt
      rw [if_neg negative]
    have plain : ¬ ((printNat value.natAbs ++ rest).head? = some 45) ∧
        ¬ ((printNat value.natAbs ++ rest).head? = some 43) := by
      rw [printed]
      simpa using unsigned.2
    rw [text]
    simp only [plain.1, plain.2, decide_false, Bool.or_self, Bool.false_eq_true, if_false,
      run.1, run.2, strtolMagnitude, number]
    rw [if_neg (by simpa using printNat_ne_nil _)]
    congr 3
    omega

/-- Blanks before a number are skipped. -/
theorem scanInt_blank (text : Bytes) : scanInt (32 :: text) = scanInt text := by
  have blank : skipSpace (32 :: text) = skipSpace text := List.dropWhile_cons_of_pos (by decide)
  unfold scanInt
  rw [blank]

/-- The octal digits by their codes. -/
theorem toDigits_octal (value : Nat) : ∀ digit ∈ Nat.toDigits 8 value, 48 ≤ digit.toNat ∧ digit.toNat ≤ 55 := by
  have codes : ∀ digit < 8, 48 ≤ (Nat.digitChar digit).toNat ∧ (Nat.digitChar digit).toNat ≤ 55 := by decide
  intro char printed
  obtain ⟨digit, small, rfl⟩ := toDigits_digitChar (by decide) value char printed
  exact codes digit small

/-- A number is printed in octal digits. -/
theorem printOct_isoctal (value : Int) : ∀ char ∈ printOct value, isoctal char = true := by
  intro char member
  obtain ⟨digit, printed, made⟩ := List.mem_map.mp member
  obtain ⟨low, high⟩ := toDigits_octal _ digit printed
  have number : char.toNat = digit.toNat := by
    rw [← made, UInt8.toNat_ofNat']
    omega
  unfold isoctal
  simp only [Bool.and_eq_true, decide_eq_true_eq, UInt8.le_iff_toNat_le, number]
  exact ⟨low, high⟩

/-- `%lo` reads back what `%lo` printed, as an `unsigned long`. -/
theorem scanOct_printOct (value : Int) (rest : Bytes) (ends : ∀ char ∈ rest.head?, isoctal char = false) :
    scanOct (32 :: (printOct value ++ rest)) = some (value % 2 ^ 64, rest) := by
  obtain ⟨first, later, printed⟩ : ∃ first later, printOct value = first :: later := by
    apply List.exists_cons_of_ne_nil
    unfold printOct
    rw [ne_eq, List.map_eq_nil_iff]
    exact Nat.toDigits_ne_nil
  have octal := printOct_isoctal value first (printed ▸ List.mem_cons_self)
  have digit : isdigit first = true := by
    unfold isoctal at octal
    unfold isdigit
    simp only [Bool.and_eq_true, decide_eq_true_eq, UInt8.le_iff_toNat_le] at octal ⊢
    exact ⟨octal.1, Nat.le_trans octal.2 (by decide)⟩
  obtain ⟨blank, minus, plus⟩ := isdigit_unsigned first digit
  obtain ⟨taken, left⟩ := takeWhile_run isoctal _ rest (printOct_isoctal value) ends
  have start : skipSpace (32 :: (printOct value ++ rest)) = printOct value ++ rest := by
    unfold skipSpace
    rw [List.dropWhile_cons_of_pos (by decide), printed, List.cons_append,
      List.dropWhile_cons_of_neg (by simp [blank])]
  have small : ∀ digit ∈ Nat.toDigits 8 (value % 2 ^ 64).toNat, digit.toNat < 256 := by
    intro digit printed
    have codes := toDigits_octal _ digit printed
    omega
  have magnitude : (printOct value).foldl (fun value digit => 8 * value + (digit.toNat - 48)) 0 =
      (value % 2 ^ 64).toNat := by
    unfold printOct
    rw [foldl_digits 8 _ _ small, Nat.ofDigitChars_toDigits (by decide) (by decide)]
  have head : (printOct value ++ rest).head? = some first := by
    rw [printed]
    rfl
  unfold scanOct
  rw [start]
  simp only [head, Option.some.injEq, minus, plus, decide_false, Bool.or_self, Bool.false_eq_true, if_false,
    taken, left, magnitude]
  rw [if_neg (by rw [printed]; exact Bool.false_ne_true), if_neg (by omega)]
  refine congrArg some (Prod.ext ?_ rfl)
  dsimp only
  omega

/-! ## Hexadecimal numbers -/

/-- The number digits stand for. -/
def hexNumber (digits : Bytes) : Nat :=
  (digits.filterMap xdigit).foldl (fun value digit => value * 16 + digit) 0

/-- The hexadecimal digits are in three ranges, and each is worth less than sixteen. -/
theorem xdigit_some {char : UInt8} {digit : Nat} (is : xdigit char = some digit) :
    ((48 ≤ char.toNat ∧ char.toNat ≤ 57) ∨ (97 ≤ char.toNat ∧ char.toNat ≤ 102) ∨
      (65 ≤ char.toNat ∧ char.toNat ≤ 70)) ∧ digit < 16 := by
  unfold xdigit isdigit at is
  simp only [Bool.and_eq_true, decide_eq_true_eq, UInt8.le_iff_toNat_le, UInt8.reduceToNat] at is
  split at is
  · obtain rfl := Option.some.inj is
    omega
  · split at is
    · obtain rfl := Option.some.inj is
      omega
    · split at is
      · obtain rfl := Option.some.inj is
        omega
      · cases is

/-- A hexadecimal digit is neither a blank nor a sign nor an `x`. -/
theorem xdigit_facts {char : UInt8} (digit : (xdigit char).isSome) :
    isspace char = false ∧ char ≠ 45 ∧ char ≠ 43 ∧ char ≠ 120 ∧ char ≠ 88 := by
  obtain ⟨value, is⟩ := Option.isSome_iff_exists.mp digit
  obtain ⟨ranges, -⟩ := xdigit_some is
  have other : ∀ one : UInt8, char.toNat ≠ one.toNat → char ≠ one := fun one different same => different (same ▸ rfl)
  refine ⟨?_, other 45 ?_, other 43 ?_, other 120 ?_, other 88 ?_⟩
  · rw [isspace, Bool.or_eq_false_iff, beq_eq_false_iff_ne, Bool.and_eq_false_iff, decide_eq_false_iff_not,
      decide_eq_false_iff_not, UInt8.le_iff_toNat_le, UInt8.le_iff_toNat_le]
    refine ⟨other 32 ?_, ?_⟩
    all_goals
      simp only [UInt8.reduceToNat]
      omega
  all_goals
    simp only [UInt8.reduceToNat]
    omega

/-- A field of digits is read as its number. -/
theorem scanHex_field {width : Nat} {text : Bytes} (full : text.length = width) (positive : 0 < width)
    (digits : ∀ char ∈ text, (xdigit char).isSome) (rest : Bytes) :
    scanHex width (text ++ rest) = some ((hexNumber text : Int), rest) := by
  obtain ⟨first, later, begins⟩ : ∃ first later, text = first :: later := by
    apply List.exists_cons_of_ne_nil
    rintro rfl
    exact absurd full (Nat.ne_of_lt positive)
  obtain ⟨blank, minus, plus, -⟩ := xdigit_facts (digits first (begins ▸ List.mem_cons_self))
  have start : skipSpace (text ++ rest) = text ++ rest := by
    unfold skipSpace
    rw [begins, List.cons_append, List.dropWhile_cons_of_neg (by simp [blank])]
  have head : text.head? = some first := by
    rw [begins]
    rfl
  have plain (char : UInt8) (other : char = 120 ∨ char = 88) : text.take 2 ≠ [48, char] := by
    intro same
    have member : char ∈ text := List.mem_of_mem_take (i := 2) (by rw [same]; simp)
    obtain ⟨-, -, -, small, great⟩ := xdigit_facts (digits char member)
    rcases other with rfl | rfl
    · exact small rfl
    · exact great rfl
  have taken : text.takeWhile (fun char => (xdigit char).isSome) = text := by
    have run := (takeWhile_run (fun char => (xdigit char).isSome) text [] digits nofun).1
    rwa [List.append_nil] at run
  have filled : ¬ text.isEmpty = true := by
    rw [begins]
    exact Bool.false_ne_true
  unfold scanHex
  rw [start]
  simp only [List.take_left' full, head, Option.some.injEq, minus, plus, decide_false, Bool.or_self,
    Bool.false_eq_true, if_false, plain 120 (.inl rfl), plain 88 (.inr rfl), taken, filled,
    Nat.sub_self, Nat.zero_add]
  rw [List.drop_left]
  rfl

/-- A digit is less than the base. -/
theorem xdigit_lt {char : UInt8} {digit : Nat} (is : xdigit char = some digit) : digit < 16 :=
  (xdigit_some is).2

/-- Digits behind a number. -/
theorem foldl_hex (digits : List Nat) (small : ∀ digit ∈ digits, digit < 16) (init : Nat) :
    digits.foldl (fun value digit => value * 16 + digit) init =
        init * 16 ^ digits.length + digits.foldl (fun value digit => value * 16 + digit) 0 ∧
      digits.foldl (fun value digit => value * 16 + digit) 0 < 16 ^ digits.length := by
  induction digits generalizing init with
  | nil => simp
  | cons digit later inductionHypothesis =>
    rw [List.forall_mem_cons] at small
    obtain ⟨front, -⟩ := inductionHypothesis small.2 (init * 16 + digit)
    obtain ⟨alone, below⟩ := inductionHypothesis small.2 (0 * 16 + digit)
    rw [List.foldl_cons, List.foldl_cons, List.length_cons, front, alone, Nat.pow_succ]
    have room := Nat.mul_le_mul_right (16 ^ later.length) (Nat.le_of_lt_succ small.1)
    constructor
    · rw [Nat.add_mul, Nat.zero_mul, Nat.zero_add, Nat.mul_assoc, Nat.mul_comm 16, Nat.add_assoc]
    · rw [Nat.zero_mul, Nat.zero_add]
      omega

/-- A number of digits is that of the first ones and that of the others. -/
theorem hexNumber_append (front : Bytes) {back : Bytes} (digits : ∀ char ∈ back, (xdigit char).isSome) :
    hexNumber (front ++ back) = hexNumber front * 16 ^ back.length + hexNumber back ∧
      hexNumber back < 16 ^ back.length := by
  have length : (back.filterMap xdigit).length = back.length := by
    rw [List.length_filterMap_eq_countP, List.countP_eq_length]
    exact digits
  have small : ∀ digit ∈ back.filterMap xdigit, digit < 16 := by
    intro digit member
    obtain ⟨char, -, is⟩ := List.mem_filterMap.mp member
    exact xdigit_lt is
  unfold hexNumber
  rw [List.filterMap_append, List.foldl_append, ← length]
  exact foldl_hex (back.filterMap xdigit) small _

/-- The digits of a number as bytes. -/
theorem xdigit_digitChar : ∀ digit < 16,
    xdigit (UInt8.ofNat (Nat.digitChar digit).toNat) = some digit := by
  decide

/-- The digits of a number stand for it. -/
theorem hexNumber_toDigits (value : Nat) :
    (∀ char ∈ (Nat.toDigits 16 value).map (fun digit => UInt8.ofNat digit.toNat), (xdigit char).isSome) ∧
      hexNumber ((Nat.toDigits 16 value).map fun digit => UInt8.ofNat digit.toNat) = value := by
  induction value using Nat.strongRecOn with
  | ind value later =>
    have digit := xdigit_digitChar (value % 16) (Nat.mod_lt value (by decide))
    have last : ∀ char ∈ [UInt8.ofNat (Nat.digitChar (value % 16)).toNat], (xdigit char).isSome := by
      intro char member
      rw [List.mem_singleton.mp member, digit]
      rfl
    have single : hexNumber [UInt8.ofNat (Nat.digitChar (value % 16)).toNat] = value % 16 := by
      simp [hexNumber, digit]
    rw [Nat.toDigits_eq_if (by decide)]
    split
    case isTrue small =>
      rw [Nat.mod_eq_of_lt small] at last single
      exact ⟨last, single⟩
    case isFalse more =>
      obtain ⟨digits, number⟩ := later (value / 16) (Nat.div_lt_self (by omega) (by decide))
      rw [List.map_append, List.map_singleton]
      constructor
      · intro char member
        rcases List.mem_append.mp member with front | back
        · exact digits char front
        · exact last char back
      · rw [(hexNumber_append _ last).1, number, single, List.length_singleton]
        omega

/-- What `%08lx` prints are digits, and they stand for the number. -/
theorem hexNumber_printHex (value : Nat) :
    (∀ char ∈ printHex value, (xdigit char).isSome) ∧ hexNumber (printHex value) = value := by
  obtain ⟨digits, number⟩ := hexNumber_toDigits value
  have zeros (count : Nat) : hexNumber (List.replicate count 48) = 0 := by
    induction count with
    | zero => rfl
    | succ count inductionHypothesis =>
      have zero : ∀ char ∈ [(48 : UInt8)], (xdigit char).isSome := by
        rw [List.forall_mem_singleton]
        decide
      rw [List.replicate_succ', (hexNumber_append _ zero).1, inductionHypothesis]
      rfl
  unfold printHex
  dsimp only
  constructor
  · intro char member
    rcases List.mem_append.mp member with front | back
    · rw [List.eq_of_mem_replicate front]
      rfl
    · exact digits char back
  · rw [(hexNumber_append _ digits).1, zeros, number, Nat.zero_mul, Nat.zero_add]

/-- A number of 32 bits has eight digits, and a greater one has more. -/
theorem printHex_length (value : Nat) :
    8 ≤ (printHex value).length ∧ ((printHex value).length = 8 ↔ value < 2 ^ 32) := by
  have digits := Nat.length_toDigits_le_iff (n := value) (k := 8) (b := 16) (by decide) (by decide)
  unfold printHex
  dsimp only
  rw [List.length_append, List.length_replicate, List.length_map]
  omega

end Binkleyforce
