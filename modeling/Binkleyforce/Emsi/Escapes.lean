import Binkleyforce.Emsi.Fields

/-!
# Values the reader gets back

A value is seen by the reader piece by piece. The pieces it sees as they are make up the
values that are read back; after any other piece the two texts never meet again.
-/

namespace Binkleyforce

/-- A character in front of a text is seen as it is. -/
def Kept (locale : Locale) (char : UInt8) (rest : Bytes) : Prop :=
  if char = 92 then
    rest.head? ≠ some 92 ∧ (∀ next ∈ rest.head?, locale.isprint next = true) ∧ hexSpan rest ≠ 2
  else locale.isprint char = true ∨ char < 10 ∧ hexSpan rest = 0

/-- Every character of a value is seen as it is. -/
def ReadsBack (locale : Locale) : Bytes → Prop
  | [] => True
  | char :: rest => Kept locale char rest ∧ ReadsBack locale rest

instance (locale : Locale) (char : UInt8) (rest : Bytes) : Decidable (Kept locale char rest) :=
  have := @Option.decidableForallMem _ (fun next => locale.isprint next = true) _ rest.head?
  inferInstanceAs (Decidable (if char = 92 then
    rest.head? ≠ some 92 ∧ (∀ next ∈ rest.head?, locale.isprint next = true) ∧ hexSpan rest ≠ 2
    else locale.isprint char = true ∨ char < 10 ∧ hexSpan rest = 0))

instance (locale : Locale) : (value : Bytes) → Decidable (ReadsBack locale value)
  | [] => isTrue trivial
  | char :: rest =>
    have := instDecidableReadsBack locale rest
    inferInstanceAs (Decidable (Kept locale char rest ∧ ReadsBack locale rest))

/-- The characters of a code for a backslash, and of the codes for those. -/
def spelling (char : UInt8) : Bool := [51, 52, 53, 54, 67, 92, 99].contains char

/-- What is to be checked of the two digits of a character. -/
def escapeSound (char : UInt8) : Bool :=
  match escapeChar char with
  | [slash, high, low] =>
    slash = 92 && isdigit high && isdigit low
      && (if char < 10 then hexChar high low = char else hexChar high low ≠ char)
      && hexChar high low ≠ 93 && hexChar high low ≠ 92
      && ((32 ≤ char && char ≤ 126) || !(spelling high && spelling low) && !spelling (hexChar high low))
  | _ => false

theorem escapeSound_all (char : UInt8) : escapeSound char = true := by
  revert char
  exact byte_cases (by decide)

/-- The two digits of a character. -/
theorem escapeChar_digits (char : UInt8) : ∃ high low : UInt8, escapeChar char = [92, high, low] ∧
    isdigit high = true ∧ isdigit low = true ∧ (char < 10 → hexChar high low = char) ∧
    (¬ char < 10 → hexChar high low ≠ char) ∧ hexChar high low ≠ 93 ∧ hexChar high low ≠ 92 ∧
    (¬ (32 ≤ char ∧ char ≤ 126) →
      ¬ (spelling high = true ∧ spelling low = true) ∧ spelling (hexChar high low) = false) := by
  have sound := escapeSound_all char
  unfold escapeSound at sound
  split at sound
  case h_2 => cases sound
  case h_1 slash high low digits =>
    simp only [Bool.and_eq_true, decide_eq_true_eq, Bool.or_eq_true, Bool.not_eq_true'] at sound
    obtain ⟨⟨⟨⟨⟨⟨rfl, first⟩, second⟩, value⟩, bracket⟩, backslash⟩, far⟩ := sound
    refine ⟨high, low, digits, first, second, ?_, ?_, bracket, backslash, ?_⟩
    · intro small
      rw [if_pos small] at value
      exact of_decide_eq_true value
    · intro large
      rw [if_neg large] at value
      exact of_decide_eq_true value
    · intro outside
      obtain inside | ⟨apart, seen⟩ := far
      · exact absurd inside outside
      · refine ⟨fun both => ?_, seen⟩
        rw [both.1, both.2] at apart
        cases apart

/-- Codes for such characters are made of them. -/
theorem spelling_hexChar {high low : UInt8} (first : (xdigit high).isSome) (second : (xdigit low).isSome)
    (spells : spelling (hexChar high low) = true) : spelling high = true ∧ spelling low = true := by
  have digits : ∀ char, ∀ digit ∈ xdigit char, digit < 16 ∧ (digit ∈ [3, 4, 5, 6, 12] → spelling char = true) := by
    have all : ∀ char, (xdigit char).all (fun digit =>
        decide (digit < 16 ∧ (digit ∈ [3, 4, 5, 6, 12] → spelling char = true))) = true := byte_cases (by decide)
    intro char digit member
    have one := all char
    rw [Option.mem_def.mp member] at one
    exact of_decide_eq_true one
  have codes : ∀ high low : Fin 16, spelling (UInt8.ofNat (high.val * 16 + low.val)) = true →
      high.val ∈ [3, 4, 5, 6, 12] ∧ low.val ∈ [3, 4, 5, 6, 12] := by
    decide
  obtain ⟨upper, isUpper⟩ := Option.isSome_iff_exists.mp first
  obtain ⟨lower, isLower⟩ := Option.isSome_iff_exists.mp second
  have ofUpper := digits high upper isUpper
  have ofLower := digits low lower isLower
  rw [hexChar, isUpper, isLower] at spells
  obtain ⟨up, down⟩ := codes ⟨upper, ofUpper.1⟩ ⟨lower, ofLower.1⟩ spells
  exact ⟨ofUpper.2 up, ofLower.2 down⟩

/-! ## What is written -/

theorem addStr_cons (locale : Locale) (char : UInt8) (rest : Bytes) :
    addStr locale (char :: rest) =
      (if char = 93 || char = 125 then [char] else []) ++
        ((if locale.isprint char then [char] else escapeChar char) ++ addStr locale rest) := rfl

/-- A character that is not printable is written as its code. -/
theorem addStr_code {locale : Locale} {char : UInt8} (rest : Bytes) (code : locale.isprint char = false) :
    addStr locale (char :: rest) = escapeChar char ++ addStr locale rest := by
  have other : ¬ (char = 93 || char = 125) = true := by
    rw [Bool.or_eq_true, decide_eq_true_eq, decide_eq_true_eq]
    rintro (rfl | rfl)
    · rw [locale.ascii 93 (by decide) (by decide)] at code
      cases code
    · rw [locale.ascii 125 (by decide) (by decide)] at code
      cases code
  rw [addStr_cons, if_neg other, code]
  rfl

/-- A closing character is written twice. -/
theorem addStr_close {locale : Locale} {char : UInt8} (rest : Bytes) (close : char = 93 ∨ char = 125) :
    addStr locale (char :: rest) = char :: char :: addStr locale rest := by
  obtain rfl | rfl := close
  · rw [addStr_cons, locale.ascii 93 (by decide) (by decide)]
    rfl
  · rw [addStr_cons, locale.ascii 125 (by decide) (by decide)]
    rfl

/-- Another printable character is written as it is. -/
theorem addStr_plain {locale : Locale} {char : UInt8} (rest : Bytes) (plain : locale.isprint char = true)
    (bracket : char ≠ 93) (brace : char ≠ 125) :
    addStr locale (char :: rest) = char :: addStr locale rest := by
  rw [addStr_cons, if_neg (by simp [bracket, brace]), plain]
  rfl

/-- What is printable stands in front of what is written. -/
theorem addStr_head {locale : Locale} {char : UInt8} (rest : Bytes) (plain : locale.isprint char = true) :
    ∃ more, addStr locale (char :: rest) = char :: more := by
  by_cases close : char = 93 ∨ char = 125
  · exact ⟨_, addStr_close rest close⟩
  · rw [not_or] at close
    exact ⟨_, addStr_plain rest plain close.1 close.2⟩

/-- Hexadecimal digits are printable. -/
theorem Locale.digit (locale : Locale) {char : UInt8} (digit : (xdigit char).isSome) :
    locale.isprint char = true := by
  have inside : ∀ char, (xdigit char).isSome → 32 ≤ char ∧ char ≤ 126 := byte_cases (by decide)
  exact locale.ascii char (inside char digit).1 (inside char digit).2

/-- The writer leaves the digits at the beginning of a value alone. -/
theorem hexSpan_addStr (locale : Locale) (value : Bytes) : hexSpan (addStr locale value) = hexSpan value := by
  induction value with
  | nil => rfl
  | cons char rest later =>
    by_cases digit : (xdigit char).isSome
    · rw [addStr_plain rest (locale.digit digit) (digit_ne (by decide) digit) (digit_ne (by decide) digit),
        hexSpan_cons, hexSpan_cons, later]
    · rw [hexSpan_cons char rest, if_neg digit]
      by_cases plain : locale.isprint char = true
      · obtain ⟨more, written⟩ := addStr_head rest plain
        rw [written, hexSpan_cons, if_neg digit]
      · obtain ⟨high, low, digits, _⟩ := escapeChar_digits char
        rw [addStr_code rest (Bool.eq_false_iff.mpr plain), digits, List.cons_append, hexSpan_cons,
          if_neg (by decide)]

/-- What closes a field is doubled in what is written. -/
theorem doubled_addStr (locale : Locale) {close : UInt8} (closes : close = 93 ∨ close = 125)
    (value : Bytes) : Doubled close (addStr locale value) := by
  induction value with
  | nil => trivial
  | cons char rest later =>
    by_cases same : char = close
    · rw [addStr_close rest (same ▸ closes), same]
      exact (doubled_pair close close _).mpr ⟨rfl, later⟩
    · by_cases plain : locale.isprint char = true
      · by_cases ends : char = 93 ∨ char = 125
        · rw [addStr_close rest ends]
          exact (doubled_cons _ same).mpr ((doubled_cons _ same).mpr later)
        · rw [not_or] at ends
          rw [addStr_plain rest plain ends.1 ends.2]
          exact (doubled_cons _ same).mpr later
      · obtain ⟨high, low, digits, first, second, _⟩ := escapeChar_digits char
        have apart : ∀ {digit : UInt8}, isdigit digit = true → digit ≠ close := by
          rintro digit is rfl
          obtain rfl | rfl := closes <;> cases is
        rw [addStr_code rest (Bool.eq_false_iff.mpr plain), digits]
        refine (doubled_cons _ ?_).mpr ((doubled_cons _ (apart first)).mpr
          ((doubled_cons _ (apart second)).mpr later))
        obtain rfl | rfl := closes <;> decide

/-! ## What is seen -/

/-- What the reader of a field in braces makes of a value. -/
def seen (locale : Locale) (value : Bytes) : Bytes := unescape 125 (addStr locale value)

/-- The characters that stand for one character in brackets. -/
def twice (char : UInt8) : Bytes := if char = 93 then [93, 93] else [char]

/-- A piece of a value, what is seen of it, and the rest of the value. -/
inductive Sees (locale : Locale) : Bytes → Bytes → Bytes → Prop
  | kept (char : UInt8) (rest : Bytes) (keeps : Kept locale char rest) :
      Sees locale (char :: rest) (twice char) rest
  | slashes (rest : Bytes) : Sees locale (92 :: 92 :: rest) [92] rest
  | escaped (next : UInt8) (rest : Bytes) (code : locale.isprint next = false) :
      Sees locale (92 :: next :: rest) (escapeChar next) rest
  | code (high low : UInt8) (rest : Bytes) (two : hexSpan (high :: low :: rest) = 2) :
      Sees locale (92 :: high :: low :: rest) (twice (hexChar high low)) rest
  | another (char high low : UInt8) (rest : Bytes) (code : locale.isprint char = false)
      (digits : escapeChar char = [92, high, low]) (large : ¬ char < 10) :
      Sees locale (char :: rest) [hexChar high low] rest
  | spelled (char : UInt8) (rest : Bytes) (code : locale.isprint char = false) :
      Sees locale (char :: rest) (escapeChar char) rest

/-- A digit is neither a backslash nor what closes a field. -/
theorem isdigit_ne {digit : UInt8} (is : isdigit digit = true) :
    digit ≠ 92 ∧ digit ≠ 93 ∧ digit ≠ 125 := by
  refine ⟨?_, ?_, ?_⟩ <;> rintro rfl <;> cases is

/-- Decimal digits are hexadecimal ones. -/
theorem isdigit_xdigit {digit : UInt8} (is : isdigit digit = true) : (xdigit digit).isSome := by
  rw [xdigit, if_pos is]
  rfl

/-- What is kept is seen, brackets twice. -/
theorem seen_kept {locale : Locale} {char : UInt8} {rest : Bytes} (keeps : Kept locale char rest) :
    seen locale (char :: rest) = twice char ++ seen locale rest := by
  unfold seen twice
  by_cases slash : char = 92
  · subst slash
    rw [Kept, if_pos rfl] at keeps
    obtain ⟨alone, plain, span⟩ := keeps
    rw [addStr_plain rest (locale.ascii 92 (by decide) (by decide)) (by decide) (by decide)]
    cases rest with
    | nil =>
      rw [addStr, unescape.eq_def]
      rfl
    | cons next more =>
      obtain ⟨written, shape⟩ := addStr_head more (plain next rfl)
      have other : next ≠ 92 := fun same => alone (congrArg some same)
      rw [shape, unescape_slash written (by decide) other
        (by rw [← shape, hexSpan_addStr]; exact span)]
      rfl
  · rw [Kept, if_neg slash] at keeps
    by_cases plain : locale.isprint char = true
    · by_cases bracket : char = 93
      · subst bracket
        rw [addStr_close rest (.inl rfl), unescape_plain _ (by decide) (by decide),
          unescape_plain _ (by decide) (by decide)]
        rfl
      · rw [if_neg bracket]
        by_cases brace : char = 125
        · subst brace
          rw [addStr_close rest (.inr rfl), unescape_pair]
          rfl
        · rw [addStr_plain rest plain bracket brace, unescape_plain _ brace slash]
          rfl
    · obtain printable | ⟨small, span⟩ := keeps
      · exact absurd printable plain
      obtain ⟨high, low, digits, first, second, value, _, bracket, _⟩ := escapeChar_digits char
      have two : hexSpan (high :: low :: addStr locale rest) = 2 := by
        rw [hexSpan_cons, if_pos (isdigit_xdigit first), hexSpan_cons, if_pos (isdigit_xdigit second),
          hexSpan_addStr, span]
      rw [addStr_code rest (Bool.eq_false_iff.mpr plain), digits]
      change unescape 125 (92 :: high :: low :: addStr locale rest) = _
      rw [unescape_code _ (by decide) (isdigit_ne first).1 two, value small]

/-- What the reader sees, piece by piece. -/
theorem seen_piece (locale : Locale) (char : UInt8) (rest : Bytes) : ∃ shown later,
    Sees locale (char :: rest) shown later ∧
      seen locale (char :: rest) = shown ++ seen locale later := by
  by_cases keeps : Kept locale char rest
  · exact ⟨_, _, .kept char rest keeps, seen_kept keeps⟩
  by_cases slash : char = 92
  · subst slash
    rw [Kept, if_pos rfl] at keeps
    have first := @addStr_plain locale 92 rest (locale.ascii 92 (by decide) (by decide))
      (by decide) (by decide)
    cases rest with
    | nil => exact absurd ⟨nofun, nofun, by decide⟩ keeps
    | cons next more =>
      by_cases same : next = 92
      · subst same
        refine ⟨_, _, .slashes more, ?_⟩
        unfold seen
        rw [first, addStr_plain more (locale.ascii 92 (by decide) (by decide)) (by decide) (by decide),
          unescape_slashes _ (by decide)]
        rfl
      by_cases plain : locale.isprint next = true
      · have two : hexSpan (next :: more) = 2 := by
          by_contra other
          refine keeps ⟨fun head => same (Option.some.inj head), ?_, other⟩
          rintro _ ⟨⟩
          exact plain
        cases more with
        | nil => exact absurd two (hexSpan_single next)
        | cons low more =>
          obtain ⟨upper, lower, _⟩ := hexSpan_two two
          refine ⟨_, _, .code next low more two, ?_⟩
          unfold seen
          have written : addStr locale (next :: low :: more) = next :: low :: addStr locale more := by
            rw [addStr_plain _ plain (digit_ne (by decide) upper) (digit_ne (by decide) upper),
              addStr_plain _ (locale.digit lower) (digit_ne (by decide) lower)
                (digit_ne (by decide) lower)]
          rw [first, written, unescape_code _ (by decide) same
            (by rw [← written, hexSpan_addStr]; exact two)]
          rfl
      · have code := Bool.eq_false_iff.mpr plain
        obtain ⟨high, low, digits, upper, lower, _⟩ := escapeChar_digits next
        refine ⟨_, _, .escaped next more code, ?_⟩
        unfold seen
        rw [first, addStr_code more code, digits]
        change unescape 125 (92 :: 92 :: high :: low :: addStr locale more) = _
        rw [unescape_slashes _ (by decide), unescape_plain _ (isdigit_ne upper).2.2 (isdigit_ne upper).1,
          unescape_plain _ (isdigit_ne lower).2.2 (isdigit_ne lower).1]
        rfl
  · rw [Kept, if_neg slash, not_or] at keeps
    have code := Bool.eq_false_iff.mpr keeps.1
    obtain ⟨high, low, digits, upper, lower, _, _, bracket, _⟩ := escapeChar_digits char
    have span : hexSpan (high :: low :: addStr locale rest) = hexSpan rest + 2 := by
      rw [hexSpan_cons, if_pos (isdigit_xdigit upper), hexSpan_cons, if_pos (isdigit_xdigit lower),
        hexSpan_addStr]
    by_cases alone : hexSpan rest = 0
    · refine ⟨_, _, .another char high low rest code digits fun small => keeps.2 ⟨small, alone⟩, ?_⟩
      unfold seen
      rw [addStr_code rest code, digits]
      change unescape 125 (92 :: high :: low :: addStr locale rest) = _
      rw [unescape_code _ (by decide) (isdigit_ne upper).1 (by rw [span, alone]), if_neg bracket]
    · refine ⟨_, _, .spelled char rest code, ?_⟩
      unfold seen
      rw [addStr_code rest code, digits]
      change unescape 125 (92 :: high :: low :: addStr locale rest) = _
      rw [unescape_slash _ (by decide) (isdigit_ne upper).1 (by rw [span]; omega),
        unescape_plain _ (isdigit_ne upper).2.2 (isdigit_ne upper).1,
        unescape_plain _ (isdigit_ne lower).2.2 (isdigit_ne lower).1]
      rfl

/-! ## Values that are not read back -/

/-- A backslash is spelled with itself. -/
theorem slashes_spell (count : Nat) : ∀ one ∈ List.replicate count (92 : UInt8), spelling one = true := by
  intro one member
  rw [List.eq_of_mem_replicate member]
  decide

/-- A code that is seen in the place of characters a backslash is spelled with ends among what
follows them. -/
theorem escape_ahead {locale : Locale} {char : UInt8} {front text tail : Bytes}
    (code : locale.isprint char = false) (some_ : front ≠ [])
    (spells : ∀ one ∈ front, spelling one = true)
    (same : cstring (escapeChar char ++ text) = front ++ tail) :
    ∃ digit ∈ tail.head?, isdigit digit = true := by
  obtain ⟨high, low, digits, upper, lower, _, _, _, _, far⟩ := escapeChar_digits char
  have outside : ¬ (32 ≤ char ∧ char ≤ 126) := by
    rintro ⟨above, below⟩
    rw [locale.ascii char above below] at code
    cases code
  rw [digits] at same
  change cstring (92 :: high :: low :: text) = _ at same
  match front with
  | [] => exact absurd rfl some_
  | first :: [] =>
    obtain ⟨_, same⟩ := cstring_cons same
    change _ = tail at same
    cases tail with
    | nil =>
      have long : cstring (high :: low :: text) ≠ [] := by
        unfold cstring
        rw [List.takeWhile_cons_of_pos (by rw [decide_eq_true_eq]; rintro rfl; cases upper)]
        exact List.cons_ne_nil _ _
      exact absurd same long
    | cons head more => exact ⟨head, rfl, (cstring_cons same).1 ▸ upper⟩
  | first :: second :: [] =>
    obtain ⟨_, same⟩ := cstring_cons same
    obtain ⟨_, same⟩ := cstring_cons same
    change _ = tail at same
    cases tail with
    | nil =>
      have long : cstring (low :: text) ≠ [] := by
        unfold cstring
        rw [List.takeWhile_cons_of_pos (by rw [decide_eq_true_eq]; rintro rfl; cases lower)]
        exact List.cons_ne_nil _ _
      exact absurd same long
    | cons head more => exact ⟨head, rfl, (cstring_cons same).1 ▸ lower⟩
  | first :: second :: third :: front =>
    obtain ⟨_, same⟩ := cstring_cons same
    obtain ⟨isHigh, same⟩ := cstring_cons same
    obtain ⟨isLow, same⟩ := cstring_cons same
    have both : spelling high = true ∧ spelling low = true :=
      ⟨isHigh ▸ spells second (by simp), isLow ▸ spells third (by simp)⟩
    exact absurd both (far outside).1

/-- A digit is printable. -/
theorem Locale.decimal (locale : Locale) {digit : UInt8} (is : isdigit digit = true) :
    locale.isprint digit = true :=
  locale.digit (isdigit_xdigit is)

/-- Once the reader is short of characters a backslash is spelled with, it stays so. -/
theorem seen_ahead (locale : Locale) (value front : Bytes) (some_ : front ≠ [])
    (spells : ∀ one ∈ front, spelling one = true) : cstring (seen locale value) ≠ front ++ value := by
  induction size : value.length using Nat.strongRecOn generalizing value front with
  | ind size later =>
  subst size
  intro same
  obtain ⟨head, front, rfl⟩ := List.exists_cons_of_ne_nil some_
  have headSpells := spells head List.mem_cons_self
  have frontSpells := fun one member => spells one (List.mem_cons_of_mem head member)
  -- a piece that shows the first character moves to the end of what the reader is short of
  have moves : ∀ (char : UInt8) (piece rest : Bytes), value = piece ++ rest →
      piece ≠ [] → (∀ one ∈ piece, spelling one = true) →
      cstring (char :: seen locale rest) = head :: front ++ value → False := by
    intro char piece rest split_ pieces pieceSpells same
    obtain ⟨_, same⟩ := cstring_cons same
    refine later rest.length ?_ rest (front ++ piece) ?_ ?_ rfl ?_
    · rw [split_, List.length_append]
      have := List.length_pos_of_ne_nil pieces
      omega
    · exact List.append_ne_nil_of_right_ne_nil front pieces
    · intro one member
      exact (List.mem_append.mp member).elim (frontSpells one) (pieceSpells one)
    · change cstring (seen locale rest) = front ++ value at same
      rw [same, split_, List.append_assoc]
  cases value with
  | nil => cases same
  | cons char rest =>
    obtain ⟨shown, left, piece, read⟩ := seen_piece locale char rest
    rw [read] at same
    cases piece with
    | kept _ _ keeps =>
      by_cases bracket : char = 93
      · subst bracket
        exact absurd ((cstring_cons same).1 ▸ headSpells) (by decide)
      · rw [twice, if_neg bracket] at same
        have is := (cstring_cons same).1
        exact moves char [char] rest rfl (List.cons_ne_nil _ _)
          (fun one member => by rw [List.mem_singleton.mp member, is]; exact headSpells) same
    | slashes rest =>
      exact moves 92 [92, 92] left rfl (List.cons_ne_nil _ _) (slashes_spell 2) same
    | escaped next rest code =>
      obtain ⟨digit, head, is⟩ := escape_ahead code some_ spells same
      cases head
      cases is
    | code high low rest two =>
      by_cases bracket : hexChar high low = 93
      · rw [twice, if_pos bracket] at same
        exact absurd ((cstring_cons same).1 ▸ headSpells) (by decide)
      · rw [twice, if_neg bracket] at same
        have is := (cstring_cons same).1
        obtain ⟨upper, lower, _⟩ := hexSpan_two two
        obtain ⟨first, second⟩ := spelling_hexChar upper lower (is ▸ headSpells)
        refine moves _ [92, high, low] left rfl (List.cons_ne_nil _ _) ?_ same
        intro one member
        simp only [List.mem_cons, List.not_mem_nil, or_false] at member
        obtain rfl | rfl | rfl := member
        · decide
        · exact first
        · exact second
    | another _ high low _ code digits _ =>
      obtain ⟨upper, lower, is, _, _, _, _, _, _, far⟩ := escapeChar_digits char
      rw [digits] at is
      obtain ⟨rfl, rfl⟩ : high = upper ∧ low = lower := by simpa using is
      have outside : ¬ (32 ≤ char ∧ char ≤ 126) := by
        rintro ⟨above, below⟩
        rw [locale.ascii char above below] at code
        cases code
      rw [(cstring_cons same).1, headSpells] at far
      cases (far outside).2
    | spelled _ _ code =>
      obtain ⟨digit, head, is⟩ := escape_ahead code some_ spells same
      cases head
      rw [locale.decimal is] at code
      cases code

/-- Once the reader is ahead by a bracket, it stays so. -/
theorem seen_behind (locale : Locale) (value : Bytes) (count : Nat) :
    value ≠ List.replicate (count + 1) 93 ++ cstring (seen locale value) := by
  induction value generalizing count with
  | nil => exact nofun
  | cons char rest later =>
    intro same
    rw [List.replicate_succ, List.cons_append] at same
    obtain ⟨rfl, same⟩ := List.cons.inj same
    have keeps : Kept locale 93 rest := by
      rw [Kept, if_neg (by decide)]
      exact .inl (locale.ascii 93 (by decide) (by decide))
    rw [seen_kept keeps] at same
    have pair : cstring (twice 93 ++ seen locale rest) = [93, 93] ++ cstring (seen locale rest) := by
      unfold cstring twice
      rw [if_pos rfl]
      rfl
    rw [pair, ← List.append_assoc] at same
    rw [show List.replicate count (93 : UInt8) ++ [93, 93] = List.replicate (count + 1 + 1) 93 from
      (List.replicate_append_replicate (n := count) (m := 2))] at same
    exact later (count + 1) same

/-- A value without brackets is read back from a field in braces exactly where every character of
it is seen as it is. -/
theorem seen_iff (locale : Locale) (value : Bytes) (whole : 0 ∉ value) :
    cstring (seen locale value) = value ↔ ReadsBack locale value ∧ 93 ∉ value := by
  induction value with
  | nil => exact ⟨fun _ => ⟨trivial, List.not_mem_nil⟩, fun _ => rfl⟩
  | cons char rest later =>
    have charWhole : char ≠ 0 := fun is => whole (is ▸ List.mem_cons_self)
    have later := later fun member => whole (List.mem_cons_of_mem char member)
    by_cases keeps : Kept locale char rest
    · have step : ReadsBack locale (char :: rest) ↔ ReadsBack locale rest := and_iff_right keeps
      rw [step, seen_kept keeps]
      by_cases bracket : char = 93
      · subst bracket
        constructor
        · intro same
          obtain ⟨_, same⟩ := cstring_cons same
          have one : cstring (93 :: seen locale rest) = 93 :: cstring (seen locale rest) := by
            unfold cstring
            rw [List.takeWhile_cons_of_pos (by decide)]
          exact absurd (same.symm.trans one) (seen_behind locale rest 0)
        · rintro ⟨_, none_⟩
          exact absurd List.mem_cons_self none_
      · have one : cstring (twice char ++ seen locale rest) = char :: cstring (seen locale rest) := by
          rw [twice, if_neg bracket]
          exact List.takeWhile_cons_of_pos (decide_eq_true charWhole)
        rw [one, List.cons_inj_right, later, List.mem_cons, not_or]
        exact ⟨fun ⟨back, none_⟩ => ⟨back, Ne.symm bracket, none_⟩, fun ⟨back, _, none_⟩ => ⟨back, none_⟩⟩
    · constructor
      · intro same
        exfalso
        obtain ⟨shown, left, piece, read⟩ := seen_piece locale char rest
        rw [read] at same
        cases piece with
        | kept _ _ kept => exact keeps kept
        | slashes =>
          exact seen_ahead locale left [92] (List.cons_ne_nil _ _) (slashes_spell 1) (cstring_cons same).2
        | escaped next _ code =>
          obtain ⟨digit, head, is⟩ := @escape_ahead _ _ [92] _ _ code (List.cons_ne_nil _ _) (slashes_spell 1) same
          cases head
          rw [locale.decimal is] at code
          cases code
        | code high low _ two =>
          obtain ⟨upper, lower, _⟩ := hexSpan_two two
          by_cases bracket : hexChar high low = 93
          · rw [twice, if_pos bracket] at same
            exact absurd (cstring_cons same).1 (by decide)
          · rw [twice, if_neg bracket] at same
            obtain ⟨slash, same⟩ := cstring_cons same
            obtain ⟨first, second⟩ := spelling_hexChar upper lower (slash ▸ rfl)
            refine seen_ahead locale left [high, low] (List.cons_ne_nil _ _) ?_ same
            intro one member
            simp only [List.mem_cons, List.not_mem_nil, or_false] at member
            obtain rfl | rfl := member
            · exact first
            · exact second
        | another _ high low _ code digits large =>
          obtain ⟨upper, lower, is, _, _, _, other, _⟩ := escapeChar_digits char
          rw [digits] at is
          obtain ⟨rfl, rfl⟩ : high = upper ∧ low = lower := by simpa using is
          exact other large (cstring_cons same).1
        | spelled _ _ code =>
          obtain ⟨high, low, digits, _⟩ := escapeChar_digits char
          rw [digits] at same
          have is := (cstring_cons same).1
          rw [← is, locale.ascii 92 (by decide) (by decide)] at code
          cases code
      · rintro ⟨⟨kept, _⟩, _⟩
        exact absurd kept keeps

/-! ## Fields in brackets -/

/-- The brackets of a value, doubled. -/
def doubleBrackets (value : Bytes) : Bytes := value.flatMap twice

/-- What the reader of a field in brackets in braces makes of a value. -/
def seenNested (locale : Locale) (value : Bytes) : Bytes := cstring (unescape 93 (seen locale value))

/-- Where every character is seen as it is, the brackets are still doubled. -/
theorem seen_readsBack {locale : Locale} {value : Bytes} (back : ReadsBack locale value) :
    seen locale value = doubleBrackets value := by
  induction value with
  | nil => rfl
  | cons char rest later =>
    rw [seen_kept back.1, later back.2]
    rfl

/-- Doubled brackets do not touch the digits at the beginning of a value. -/
theorem hexSpan_doubleBrackets (value : Bytes) : hexSpan (doubleBrackets value) = hexSpan value := by
  induction value with
  | nil => rfl
  | cons char rest later =>
    change hexSpan (twice char ++ doubleBrackets rest) = _
    by_cases bracket : char = 93
    · subst bracket
      rfl
    · rw [twice, if_neg bracket]
      change hexSpan (char :: doubleBrackets rest) = _
      rw [hexSpan_cons, hexSpan_cons, later]

/-- A field in brackets gives back a value whose characters are seen as they are. -/
theorem unescape_doubleBrackets {locale : Locale} {value : Bytes} (back : ReadsBack locale value) :
    unescape 93 (doubleBrackets value) = value := by
  induction value with
  | nil => rfl
  | cons char rest later =>
    obtain ⟨keeps, back⟩ := back
    change unescape 93 (twice char ++ doubleBrackets rest) = _
    by_cases bracket : char = 93
    · subst bracket
      change unescape 93 (93 :: 93 :: doubleBrackets rest) = _
      rw [unescape_pair, later back]
    rw [twice, if_neg bracket]
    change unescape 93 (char :: doubleBrackets rest) = _
    by_cases slash : char = 92
    · subst slash
      rw [Kept, if_pos rfl] at keeps
      obtain ⟨alone, _, span⟩ := keeps
      cases rest with
      | nil =>
        rw [unescape.eq_def]
        rfl
      | cons next more =>
        have other : next ≠ 92 := fun same => alone (congrArg some same)
        obtain ⟨written, shape⟩ : ∃ written, doubleBrackets (next :: more) = next :: written := by
          change ∃ written, twice next ++ doubleBrackets more = next :: written
          unfold twice
          split
          case isTrue is => exact ⟨_, by rw [is]; rfl⟩
          case isFalse => exact ⟨_, rfl⟩
        rw [shape, unescape_slash written (by decide) other
          (by rw [← shape, hexSpan_doubleBrackets]; exact span), ← shape, later back]
    · rw [unescape_plain _ bracket slash, later back]

/-- The text of a field in brackets, as the reader of the braces leaves it, has its brackets
doubled. -/
theorem doubled_seen (locale : Locale) (value : Bytes) : Doubled 93 (seen locale value) := by
  have twice_ : ∀ char, Doubled 93 (twice char) := by
    intro char
    unfold twice
    split
    case isTrue => exact (doubled_pair 93 93 []).mpr ⟨rfl, trivial⟩
    case isFalse other => exact (doubled_cons [] other).mpr trivial
  have spelled : ∀ char, Doubled 93 (escapeChar char) := by
    intro char
    obtain ⟨high, low, digits, upper, lower, _⟩ := escapeChar_digits char
    rw [digits]
    exact (doubled_cons _ (by decide)).mpr ((doubled_cons _ (isdigit_ne upper).2.1).mpr
      ((doubled_cons _ (isdigit_ne lower).2.1).mpr trivial))
  induction size : value.length using Nat.strongRecOn generalizing value with
  | ind size later =>
  subst size
  cases value with
  | nil => trivial
  | cons char rest =>
    obtain ⟨shown, left, piece, read⟩ := seen_piece locale char rest
    rw [read]
    have short : left.length < (char :: rest).length := by
      cases piece <;> simp only [List.length_cons] <;> omega
    refine Doubled.append ?_ (later _ short left rfl)
    cases piece with
    | kept => exact twice_ char
    | slashes => exact (doubled_cons [] (by decide)).mpr trivial
    | escaped next => exact spelled next
    | code high low => exact twice_ _
    | another _ high low _ _ digits =>
      obtain ⟨upper, lower, is, _, _, _, _, bracket, _⟩ := escapeChar_digits char
      rw [digits] at is
      obtain ⟨rfl, rfl⟩ : high = upper ∧ low = lower := by simpa using is
      exact (doubled_cons [] bracket).mpr trivial
    | spelled => exact spelled char

end Binkleyforce
