import Mathlib.Data.List.Induction
import Binkleyforce.Util.Scan

/-!
# The fields of an EMSI packet

A field stands in braces, or in brackets inside of braces. The writer doubles what closes a
field and writes what is not printable as a backslash and the first two decimal digits; the
reader takes two hexadecimal digits after a backslash, and two backslashes for one.
-/

namespace Binkleyforce

/-- `isprint` in a locale, where what ASCII prints is printable. -/
structure Locale where
  isprint : UInt8 → Bool
  ascii : ∀ char, 32 ≤ char → char ≤ 126 → isprint char = true

/-- `sprintf` of a character with `\\%02hd`, of which the first three characters stay: the
next one is written over the third digit. -/
def escapeChar (char : UInt8) : Bytes :=
  92 :: ((if char < 10 then [48] else []) ++ printNat char.toNat).take 2

/-- `add_str`, over the text that is added. -/
def addStr (locale : Locale) : Bytes → Bytes
  | [] => []
  | char :: rest =>
    let twice := if char = 93 || char = 125 then [char] else []
    let written := if locale.isprint char then [char] else escapeChar char
    twice ++ (written ++ addStr locale rest)

/-- `strspn` with the hexadecimal digits. -/
def hexSpan (text : Bytes) : Nat := (text.takeWhile fun char => (xdigit char).isSome).length

/-- Two hexadecimal digits, as a character. -/
def hexChar (high low : UInt8) : UInt8 :=
  UInt8.ofNat ((xdigit high).getD 0 * 16 + (xdigit low).getD 0)

/-- `get_field` after the opening character: the field, and what is behind its end. -/
def fieldBody (close : UInt8) : Bytes → Option (Bytes × Bytes)
  | [] => none
  | char :: rest =>
    if char = close then
      match rest with
      | next :: more =>
        if next = close then (fieldBody close more).map fun (field, left) => (close :: field, left)
        else some ([], next :: more)
      | [] => some ([], [])
    else if char = 92 then
      match rest with
      | next :: more =>
        if next = 92 then (fieldBody close more).map fun (field, left) => (92 :: field, left)
        else if hexSpan (next :: more) = 2 then
          match more with
          | low :: more =>
            let char := hexChar next low
            (fieldBody close more).map fun (field, left) =>
              ((if char = 93 then [93, 93] else [char]) ++ field, left)
          | [] => none
        else (fieldBody close (next :: more)).map fun (field, left) => (92 :: field, left)
      | [] => none
    else (fieldBody close rest).map fun (field, left) => (char :: field, left)

/-- `get_field`: the field, a C string, and where to go on. -/
def getField (str : Bytes) (start close : UInt8) : Option (Bytes × Bytes) :=
  match str with
  | char :: rest =>
    if char = start then (fieldBody close rest).map fun (field, left) => (cstring field, left)
    else none
  | [] => none

/-- A field in braces. -/
def braced (text : Bytes) : Bytes := 123 :: (text ++ [125])

/-- A field in brackets. -/
def bracketed (text : Bytes) : Bytes := 91 :: (text ++ [93])

/-- The fields in brackets one after another. -/
def getBracketed : Nat → Bytes → Option (List Bytes)
  | 0, _ => some []
  | count + 1, str => do
    let (field, left) ← getField str 91 93
    let more ← getBracketed count left
    return field :: more

/-! ## The reader inside of a field -/

/-- What closes a field stands in pairs only. -/
def Doubled (close : UInt8) : Bytes → Prop
  | [] => True
  | char :: rest =>
    if char = close then
      match rest with
      | next :: more => next = close ∧ Doubled close more
      | [] => False
    else Doubled close rest

/-- What `get_field` makes of the text of a field. -/
def unescape (close : UInt8) : Bytes → Bytes
  | [] => []
  | char :: rest =>
    if char = close then
      match rest with
      | _ :: more => close :: unescape close more
      | [] => []
    else if char = 92 then
      match rest with
      | next :: more =>
        if next = 92 then 92 :: unescape close more
        else if hexSpan (next :: more) = 2 then
          match more with
          | low :: more =>
            (if hexChar next low = 93 then [93, 93] else [hexChar next low]) ++ unescape close more
          | [] => []
        else 92 :: unescape close (next :: more)
      | [] => [92]
    else char :: unescape close rest

/-- The digits at the beginning of a text, where no digit follows it. -/
theorem hexSpan_append (text : Bytes) (sep : UInt8) (tail : Bytes) (plain : xdigit sep = none) :
    hexSpan (text ++ sep :: tail) = hexSpan text := by
  unfold hexSpan
  induction text with
  | nil =>
    rw [List.nil_append, List.takeWhile_cons_of_neg (by rw [plain]; exact Bool.false_ne_true)]
    rfl
  | cons char rest later =>
    rw [List.cons_append, List.takeWhile_cons, List.takeWhile_cons]
    split
    · rw [List.length_cons, List.length_cons, later]
    · rfl

/-- Another character has no part in the pairs. -/
theorem doubled_cons {close char : UInt8} (rest : Bytes) (other : char ≠ close) :
    Doubled close (char :: rest) ↔ Doubled close rest := by
  cases rest <;> simp [Doubled, other]

/-- A pair. -/
theorem doubled_pair (close next : UInt8) (more : Bytes) :
    Doubled close (close :: next :: more) ↔ next = close ∧ Doubled close more := by
  rw [Doubled, if_pos rfl]

/-- There is no half of a pair. -/
theorem doubled_half (close : UInt8) : ¬ Doubled close [close] := by
  rw [Doubled, if_pos rfl]
  exact not_false

/-- What is doubled in two texts is doubled in both together. -/
theorem Doubled.append {close : UInt8} {first second : Bytes} (left : Doubled close first)
    (right : Doubled close second) : Doubled close (first ++ second) := by
  induction first using List.twoStepInduction with
  | nil => exact right
  | singleton char =>
    by_cases is : char = close
    · subst is
      exact absurd left (doubled_half char)
    · exact (doubled_cons second is).mpr right
  | cons_cons char next rest later later' =>
    by_cases is : char = close
    · subst is
      obtain ⟨same, more⟩ := (doubled_pair char next rest).mp left
      exact (doubled_pair char next _).mpr ⟨same, later more⟩
    · exact (doubled_cons _ is).mpr (later' next ((doubled_cons _ is).mp left))

alias fieldBody_step := fieldBody.eq_def

alias unescape_step := unescape.eq_def

/-- A pair is read as one character. -/
theorem fieldBody_pair (close : UInt8) (more : Bytes) :
    fieldBody close (close :: close :: more) =
      (fieldBody close more).map fun (field, left) => (close :: field, left) := by
  rw [fieldBody_step]
  simp

/-- A field ends at a closing character that is alone. -/
theorem fieldBody_end (close : UInt8) (rest : Bytes) (alone : rest.head? ≠ some close) :
    fieldBody close (close :: rest) = some ([], rest) := by
  cases rest with
  | nil =>
    rw [fieldBody_step]
    simp
  | cons next more =>
    have other : next ≠ close := fun same => alone (congrArg some same)
    rw [fieldBody_step]
    simp [other]

/-- Two backslashes are read as one. -/
theorem fieldBody_slashes {close : UInt8} (more : Bytes) (slash : 92 ≠ close) :
    fieldBody close (92 :: 92 :: more) =
      (fieldBody close more).map fun (field, left) => (92 :: field, left) := by
  rw [fieldBody_step]
  simp [slash]

/-- Two digits after a backslash are a character. -/
theorem fieldBody_code {close next low : UInt8} (more : Bytes) (slash : 92 ≠ close)
    (other : next ≠ 92) (two : hexSpan (next :: low :: more) = 2) :
    fieldBody close (92 :: next :: low :: more) = (fieldBody close more).map fun (field, left) =>
      ((if hexChar next low = 93 then [93, 93] else [hexChar next low]) ++ field, left) := by
  rw [fieldBody_step]
  simp [slash, other, two]

/-- Another backslash is read as it is. -/
theorem fieldBody_slash {close next : UInt8} (more : Bytes) (slash : 92 ≠ close) (other : next ≠ 92)
    (alone : hexSpan (next :: more) ≠ 2) :
    fieldBody close (92 :: next :: more) =
      (fieldBody close (next :: more)).map fun (field, left) => (92 :: field, left) := by
  conv_lhs => rw [fieldBody_step]
  simp [slash, other, alone]

/-- So are all other characters. -/
theorem fieldBody_plain {close char : UInt8} (rest : Bytes) (other : char ≠ close) (slash : char ≠ 92) :
    fieldBody close (char :: rest) =
      (fieldBody close rest).map fun (field, left) => (char :: field, left) := by
  conv_lhs => rw [fieldBody_step]
  simp [slash, other]

/-- Two backslashes. -/
theorem unescape_slashes {close : UInt8} (more : Bytes) (slash : 92 ≠ close) :
    unescape close (92 :: 92 :: more) = 92 :: unescape close more := by
  rw [unescape_step]
  simp [slash]

/-- A pair. -/
theorem unescape_pair (close next : UInt8) (more : Bytes) :
    unescape close (close :: next :: more) = close :: unescape close more := by
  rw [unescape_step]
  simp

/-- A backslash with two digits. -/
theorem unescape_code {close next low : UInt8} (more : Bytes) (slash : 92 ≠ close)
    (other : next ≠ 92) (two : hexSpan (next :: low :: more) = 2) :
    unescape close (92 :: next :: low :: more) =
      (if hexChar next low = 93 then [93, 93] else [hexChar next low]) ++ unescape close more := by
  rw [unescape_step]
  simp [slash, other, two]

/-- Another backslash. -/
theorem unescape_slash {close next : UInt8} (more : Bytes) (slash : 92 ≠ close) (other : next ≠ 92)
    (alone : hexSpan (next :: more) ≠ 2) :
    unescape close (92 :: next :: more) = 92 :: unescape close (next :: more) := by
  conv_lhs => rw [unescape_step]
  simp [slash, other, alone]

/-- Another character. -/
theorem unescape_plain {close char : UInt8} (rest : Bytes) (other : char ≠ close) (slash : char ≠ 92) :
    unescape close (char :: rest) = char :: unescape close rest := by
  conv_lhs => rw [unescape_step]
  simp [slash, other]

/-- Digits at the beginning. -/
theorem hexSpan_cons (char : UInt8) (rest : Bytes) :
    hexSpan (char :: rest) = if (xdigit char).isSome then hexSpan rest + 1 else 0 := by
  unfold hexSpan
  rw [List.takeWhile_cons]
  split <;> rfl

/-- Two digits need a second character. -/
theorem hexSpan_single (char : UInt8) : hexSpan [char] ≠ 2 := by
  rw [hexSpan_cons]
  split <;> decide

/-- Where two digits stand, both are digits and no third one follows. -/
theorem hexSpan_two {high low : UInt8} {more : Bytes} (two : hexSpan (high :: low :: more) = 2) :
    (xdigit high).isSome ∧ (xdigit low).isSome ∧ hexSpan more = 0 := by
  rw [hexSpan_cons, hexSpan_cons] at two
  by_cases first : (xdigit high).isSome
  · by_cases second : (xdigit low).isSome
    · rw [if_pos first, if_pos second] at two
      exact ⟨first, second, by omega⟩
    · rw [if_pos first, if_neg second] at two
      omega
  · rw [if_neg first] at two
    omega

/-- A digit does not close a field. -/
theorem digit_ne {close char : UInt8} (hex : xdigit close = none) (digit : (xdigit char).isSome) :
    char ≠ close := by
  rintro rfl
  rw [hex] at digit
  cases digit

/-- The reader takes a text in which the closing character is doubled up to its end. -/
theorem fieldBody_doubled (close : UInt8) (text : Bytes) (doubled : Doubled close text) (sep : UInt8)
    (tail : Bytes) (slash : sep ≠ 92) (plain : xdigit sep = none) (hex : xdigit close = none) :
    fieldBody close (text ++ sep :: tail) =
      (fieldBody close (sep :: tail)).map fun (field, left) => (unescape close text ++ field, left) := by
  have compose : ∀ (front text : Bytes),
      ((fieldBody close (sep :: tail)).map fun (field, left) => (unescape close text ++ field, left)).map
        (fun (field, left) => (front ++ field, left)) =
      (fieldBody close (sep :: tail)).map fun (field, left) =>
        ((front ++ unescape close text) ++ field, left) := by
    intro front text
    rw [Option.map_map]
    refine congrFun (congrArg Option.map (funext fun read => ?_)) _
    exact congrArg (·, read.2) (List.append_assoc _ _ _).symm
  induction text using unescape.induct close with
  | case1 =>
    rw [List.nil_append, unescape]
    exact (Option.map_id').symm
  | case2 next more later =>
    obtain ⟨rfl, inner⟩ := (doubled_pair close next more).mp doubled
    rw [List.cons_append, List.cons_append, fieldBody_pair, later inner, unescape_pair]
    exact compose [next] more
  | case3 => exact absurd doubled (doubled_half close)
  | case4 more other later =>
    have inner := (doubled_cons _ other).mp ((doubled_cons _ other).mp doubled)
    rw [List.cons_append, List.cons_append, fieldBody_slashes _ other, later inner,
      unescape_slashes _ other]
    exact compose [92] more
  | case5 next further low more other two later =>
    obtain ⟨first, second, _⟩ := hexSpan_two two
    have inner := (doubled_cons _ (digit_ne hex second)).mp
      ((doubled_cons _ (digit_ne hex first)).mp ((doubled_cons _ other).mp doubled))
    have still : hexSpan (next :: low :: (more ++ sep :: tail)) = 2 := by
      rw [← List.cons_append, ← List.cons_append, hexSpan_append _ _ _ plain]
      exact two
    rw [List.cons_append, List.cons_append, List.cons_append, fieldBody_code _ other further still,
      later inner, unescape_code _ other further two]
    exact compose _ more
  | case6 next further other two => exact absurd two (hexSpan_single next)
  | case7 next more further alone other later =>
    have inner := (doubled_cons _ other).mp doubled
    have still : hexSpan (next :: (more ++ sep :: tail)) ≠ 2 := by
      rw [← List.cons_append, hexSpan_append _ _ _ plain]
      exact alone
    rw [List.cons_append, List.cons_append, fieldBody_slash _ other further still, ← List.cons_append,
      later inner, unescape_slash _ other further alone]
    exact compose [92] (next :: more)
  | case8 other =>
    have still : hexSpan (sep :: tail) ≠ 2 := by
      rw [hexSpan_cons, plain, if_neg (by decide)]
      decide
    have read : unescape close [92] = [92] := by
      rw [unescape_step]
      simp [other]
    rw [List.singleton_append, fieldBody_slash _ other slash still, read]
    rfl
  | case9 char rest other further later =>
    have inner := (doubled_cons _ other).mp doubled
    rw [List.cons_append, fieldBody_plain _ other further, later inner, unescape_plain _ other further]
    exact compose [char] rest

/-- The reader takes a field in which the closing character is doubled, and goes on behind it. -/
theorem getField_doubled {start close : UInt8} (text rest : Bytes) (doubled : Doubled close text)
    (alone : rest.head? ≠ some close) (slash : close ≠ 92) (hex : xdigit close = none) :
    getField (start :: (text ++ close :: rest)) start close = some (cstring (unescape close text), rest) := by
  unfold getField
  dsimp only
  rw [if_pos rfl, fieldBody_doubled close text doubled close rest slash hex hex,
    fieldBody_end close rest alone]
  dsimp only [Option.map_some]
  rw [List.append_nil]

end Binkleyforce
