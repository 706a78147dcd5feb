import Mathlib.Data.List.Infix
import Binkleyforce.Expression.Evaluator

/-!
# Expressions as they are written

A token is written as an operator or a name in any case, as digits, or as a text with
quotes or without. The lexer reads what was written but for a few kinds of tokens: it finds
`>` before `>=`, takes digits for a number also in quotes, and looks for names and for `Xor`
in the middle of words.
-/

namespace Binkleyforce

/-- How a token is written. -/
inductive Written where
  | operator (spelled : Bytes)
  | name (spelled : Bytes)
  | number (digits : Bytes)
  | bare (text : Bytes)
  | quoted (text : Bytes)
  deriving DecidableEq, Repr

/-- What stands in the text. -/
def Written.spelling : Written → Bytes
  | .operator spelled => spelled
  | .name spelled => spelled
  | .number digits => digits
  | .bare text => text
  | .quoted text => 34 :: (text ++ [34])

/-- The token that is meant. A text stands for itself. -/
def Written.token : Written → Option ExprToken
  | .operator spelled => (exprOperators.find? fun entry => strcasecmp entry.1 spelled).map (·.2)
  | .name spelled => (exprElements.find? fun entry => strcasecmp entry.1 spelled).map (·.2)
  | .number digits => some (.number (atolInt digits))
  | .bare text => some (.text text)
  | .quoted text => some (.text text)

/-- A word ends here: at the end, a blank or an operator. -/
def endsWord (after : Bytes) : Bool :=
  match after with
  | [] => true
  | char :: _ => isspace char || (matchEntry exprOperators after).isSome

/-- The operators that are not a word. -/
def exprSymbols : List LexEntry := exprOperators.filter fun entry => entry.2 ≠ .logop .xor

/-- No entry of the table stands in the text, which something follows. -/
def Free (table : List LexEntry) (text after : Bytes) : Prop :=
  ∀ place, place < text.length → matchEntry table ((text ++ after).drop place) = none

/-- The token is written so that it can be told from what follows: an operator is the
longest one there, a word ends, and a text without quotes has no blank or symbol in it. -/
def Written.Placed (written : Written) (after : Bytes) : Prop :=
  match written with
  | .operator spelled => (∃ entry ∈ exprOperators, strcasecmp entry.1 spelled = true) ∧
      ∀ entry ∈ exprOperators, beginsWith entry.1 (spelled ++ after) = true →
        entry.1.length ≤ spelled.length
  | .name spelled => (∃ entry ∈ exprElements, strcasecmp entry.1 spelled = true) ∧
      (endsWord after = true ∨ after.head? = some 34)
  | .number digits => digits ≠ [] ∧ isDec digits = true ∧ endsWord after = true
  | .bare text => text ≠ [] ∧ text.head? ≠ some 34 ∧ (∀ char ∈ text, isspace char = false) ∧
      Free exprSymbols text after ∧ endsWord after = true
  | .quoted text => 34 ∉ text

/-- The token is none that the lexer takes for another: it is not `>=` or `<=`, and a text
is not all digits and, without quotes, has no `Xor` in it and no name at its beginning. -/
def Written.Plain (written : Written) (after : Bytes) : Prop :=
  match written with
  | .operator spelled => strcasecmp (ascii ">=") spelled = false ∧ strcasecmp (ascii "<=") spelled = false
  | .bare text => isDec text = false ∧ Free exprOperators text after ∧
      matchEntry exprElements (text ++ after) = none
  | .quoted text => isDec text = false
  | _ => True

instance (table : List LexEntry) (text after : Bytes) : Decidable (Free table text after) :=
  inferInstanceAs (Decidable (∀ place, place < text.length → _))

instance (written : Written) (after : Bytes) : Decidable (written.Placed after) :=
  match written with
  | .operator _ | .name _ | .number _ | .bare _ => inferInstanceAs (Decidable (_ ∧ _))
  | .quoted text => inferInstanceAs (Decidable (34 ∉ text))

instance (written : Written) (after : Bytes) : Decidable (written.Plain after) :=
  match written with
  | .operator _ | .bare _ => inferInstanceAs (Decidable (_ ∧ _))
  | .quoted text => inferInstanceAs (Decidable (isDec text = false))
  | .name _ | .number _ => inferInstanceAs (Decidable True)

/-- The text of written tokens with blanks before them, and blanks at the end. -/
def writtenText (last : Bytes) : List (Bytes × Written) → Bytes
  | [] => last
  | (blanks, written) :: rest => blanks ++ (written.spelling ++ writtenText last rest)

/-- Every token meets a condition, with what follows it. -/
def Throughout (condition : Written → Bytes → Prop) (last : Bytes) : List (Bytes × Written) → Prop
  | [] => True
  | (_, written) :: rest =>
    condition written (writtenText last rest) ∧ Throughout condition last rest

/-- A condition that can be decided for each token can be for all. -/
def Throughout.decide (condition : Written → Bytes → Prop)
    [∀ written after, Decidable (condition written after)] (last : Bytes) :
    (words : List (Bytes × Written)) → Decidable (Throughout condition last words)
  | [] => inferInstanceAs (Decidable True)
  | (_, written) :: rest =>
    have := Throughout.decide condition last rest
    inferInstanceAs (Decidable (condition written (writtenText last rest) ∧ Throughout condition last rest))

instance (condition : Written → Bytes → Prop) [∀ written after, Decidable (condition written after)]
    (last : Bytes) (words : List (Bytes × Written)) : Decidable (Throughout condition last words) :=
  Throughout.decide condition last words

/-- The blanks are blanks, and every token can be told from what follows. -/
def WellWritten (words : List (Bytes × Written)) (last : Bytes) : Prop :=
  (∀ word ∈ words, ∀ char ∈ word.1, isspace char = true) ∧ (∀ char ∈ last, isspace char = true) ∧
    Throughout Written.Placed last words

instance (words : List (Bytes × Written)) (last : Bytes) : Decidable (WellWritten words last) :=
  inferInstanceAs (Decidable (_ ∧ _))

/-! ## The tables -/

/-- An entry is at the beginning of a text in any case. -/
theorem beginsWith_iff (str text : Bytes) :
    beginsWith str text = true ↔ str.map tolower <+: text.map tolower := by
  unfold beginsWith
  rw [beq_iff_eq, List.prefix_iff_eq_take, List.length_map, List.map_take]

/-- An earlier operator is the beginning of a later one only for two of them. -/
theorem exprOperators_prefix : exprOperators.Pairwise fun former later =>
    former.1.map tolower <+: later.1.map tolower → later.1 = ascii ">=" ∨ later.1 = ascii "<=" := by
  decide

/-- No name is the beginning of another. -/
theorem exprElements_prefix : exprElements.Pairwise fun former later =>
    ¬ (former.1.map tolower <+: later.1.map tolower) ∧
      ¬ (later.1.map tolower <+: former.1.map tolower) := by
  decide

/-- The characters that the entries of the tables begin with. -/
theorem entries_heads :
    exprOperators.map (fun entry => (entry.1.map tolower).head?) = (ascii "=!>><<()&&||x!,").map some ∧
      exprElements.map (fun entry => (entry.1.map tolower).head?) = (ascii "tatpfiolpceepm").map some := by
  decide

/-- An entry begins with one of them. -/
theorem entry_head {table : List LexEntry} {heads : Bytes} {entry : LexEntry}
    (begin : table.map (fun entry => (entry.1.map tolower).head?) = heads.map some) (member : entry ∈ table) :
    ∃ char ∈ heads, (entry.1.map tolower).head? = some char := by
  have there : (entry.1.map tolower).head? ∈ heads.map some := begin ▸ List.mem_map_of_mem member
  obtain ⟨char, inside, same⟩ := List.mem_map.mp there
  exact ⟨char, inside, same.symm⟩

/-- How the entries begin: none with a blank, a quote or a digit, and names with none of the
characters of operators. -/
theorem entries_begin :
    (∀ entry ∈ exprOperators ++ exprElements, ∀ char ∈ (entry.1.map tolower).head?,
      isspace char = false ∧ char ≠ 34 ∧ isdigit char = false) ∧
    (∀ entry ∈ exprElements, ∀ other ∈ exprOperators,
      (entry.1.map tolower).head? ≠ (other.1.map tolower).head?) ∧
    ∀ entry ∈ exprOperators ++ exprElements, 0 < entry.1.length := by
  have plain : (ascii "=!>><<()&&||x!," ++ ascii "tatpfiolpceepm").all
      (fun char => isspace char = false ∧ char ≠ 34 ∧ isdigit char = false) = true := by decide
  have apart : (ascii "tatpfiolpceepm").all
      (fun char => (ascii "=!>><<()&&||x!,").all fun other => char ≠ other) = true := by decide
  have one : ∀ entry ∈ exprOperators ++ exprElements,
      ∃ char ∈ ascii "=!>><<()&&||x!," ++ ascii "tatpfiolpceepm", (entry.1.map tolower).head? = some char := by
    intro entry member
    rcases List.mem_append.mp member with operator | element
    · obtain ⟨char, inside, same⟩ := entry_head entries_heads.1 operator
      exact ⟨char, List.mem_append_left _ inside, same⟩
    · obtain ⟨char, inside, same⟩ := entry_head entries_heads.2 element
      exact ⟨char, List.mem_append_right _ inside, same⟩
  refine ⟨?_, ?_, ?_⟩
  · intro entry member char first
    obtain ⟨other, inside, same⟩ := one entry member
    obtain rfl : other = char := Option.some.inj (same.symm.trans first)
    exact of_decide_eq_true (List.all_eq_true.mp plain other inside)
  · intro entry element other operator same
    obtain ⟨char, inside, begins⟩ := entry_head entries_heads.2 element
    obtain ⟨sign, within, starts⟩ := entry_head entries_heads.1 operator
    have different := List.all_eq_true.mp (List.all_eq_true.mp apart char inside) sign within
    exact of_decide_eq_true different (Option.some.inj (begins.symm.trans (same.trans starts)))
  · intro entry member
    obtain ⟨char, -, begins⟩ := one entry member
    cases empty : entry.1 with
    | nil =>
      rw [empty] at begins
      cases begins
    | cons first rest => exact Nat.zero_lt_succ _

/-- The first entry of a table at a text, where no earlier one is there. -/
theorem matchEntry_first (table before after : List LexEntry) (entry : LexEntry) (text : Bytes)
    (split : table = before ++ entry :: after) (there : beginsWith entry.1 text = true)
    (none_ : ∀ other ∈ before, beginsWith other.1 text = false) :
    matchEntry table text = some entry := by
  unfold matchEntry
  rw [List.find?_eq_some_iff_append]
  exact ⟨there, before, after, split, fun other member => by rw [none_ other member]; rfl⟩

/-- An entry that was written in any case, found by its spelling. -/
theorem find_spelled (table before after : List LexEntry) (entry : LexEntry) (spelled : Bytes)
    (split : table = before ++ entry :: after) (same : strcasecmp entry.1 spelled = true)
    (none_ : ∀ other ∈ before, strcasecmp other.1 spelled = false) :
    table.find? (fun entry => strcasecmp entry.1 spelled) = some entry := by
  rw [List.find?_eq_some_iff_append]
  exact ⟨same, before, after, split, fun other member => by rw [none_ other member]; rfl⟩

/-- A spelling is that of its entry in lower case. -/
theorem strcasecmp_iff (left right : Bytes) :
    strcasecmp left right = true ↔ left.map tolower = right.map tolower := by
  unfold strcasecmp
  exact beq_iff_eq

/-- A spelled entry begins the text it stands at. -/
theorem spelled_begins {entry : LexEntry} {spelled after : Bytes}
    (same : strcasecmp entry.1 spelled = true) :
    entry.1.map tolower <+: (spelled ++ after).map tolower := by
  rw [(strcasecmp_iff _ _).mp same, List.map_append]
  exact List.prefix_append _ _

/-- The operator that was written is found, if it is the longest there. -/
theorem matchEntry_operator (spelled after : Bytes)
    (placed : (Written.operator spelled).Placed after) (plain : (Written.operator spelled).Plain after) :
    ∃ entry, matchEntry exprOperators (spelled ++ after) = some entry ∧
      entry.1.length = spelled.length ∧ (Written.operator spelled).token = some entry.2 := by
  obtain ⟨⟨entry, member, same⟩, longest⟩ := placed
  obtain ⟨ge, le⟩ := plain
  obtain ⟨before, later, split⟩ := List.append_of_mem member
  have order := exprOperators_prefix
  rw [split, List.pairwise_append] at order
  have lower := (strcasecmp_iff entry.1 spelled).mp same
  have usual : entry.1 ≠ ascii ">=" ∧ entry.1 ≠ ascii "<=" := by
    constructor
    · intro is
      rw [is, ge] at same
      cases same
    · intro is
      rw [is, le] at same
      cases same
  have shorter : ∀ other ∈ before, ¬ other.1.map tolower <+: entry.1.map tolower := by
    intro other earlier begins
    rcases order.2.2 other earlier entry List.mem_cons_self begins with is | is
    · exact usual.1 is
    · exact usual.2 is
  refine ⟨entry, matchEntry_first _ before later entry _ split
    ((beginsWith_iff _ _).mpr (spelled_begins same)) fun other earlier => ?_, ?_, ?_⟩
  · rw [Bool.eq_false_iff]
    intro begins
    have short := longest other (split ▸ List.mem_append_left _ earlier) begins
    rw [beginsWith_iff, List.map_append, ← lower] at begins
    refine shorter other earlier (List.prefix_of_prefix_length_le begins (List.prefix_append _ _) ?_)
    rw [List.length_map, lower, List.length_map]
    exact short
  · rw [← List.length_map (f := tolower), lower, List.length_map]
  · unfold Written.token
    dsimp only
    rw [find_spelled _ before later entry spelled split same fun other earlier => ?_, Option.map_some]
    rw [Bool.eq_false_iff]
    intro also
    exact shorter other earlier (by rw [(strcasecmp_iff _ _).mp also, lower])

/-- The name that was written is found, and it is no operator. -/
theorem matchEntry_name (spelled after : Bytes) (placed : (Written.name spelled).Placed after) :
    ∃ entry, matchEntry exprElements (spelled ++ after) = some entry ∧
      matchEntry exprOperators (spelled ++ after) = none ∧
      entry.1.length = spelled.length ∧ (Written.name spelled).token = some entry.2 := by
  obtain ⟨⟨entry, member, same⟩, -⟩ := placed
  obtain ⟨before, later, split⟩ := List.append_of_mem member
  have order := exprElements_prefix
  rw [split, List.pairwise_append] at order
  have lower := (strcasecmp_iff entry.1 spelled).mp same
  have text : entry.1.map tolower <+: (spelled ++ after).map tolower := spelled_begins same
  have others : ∀ other ∈ before, ¬ other.1.map tolower <+: (spelled ++ after).map tolower := by
    intro other earlier begins
    have apart := order.2.2 other earlier entry List.mem_cons_self
    rcases List.prefix_or_prefix_of_prefix begins text with first | second
    · exact apart.1 first
    · exact apart.2 second
  refine ⟨entry, matchEntry_first _ before later entry _ split ((beginsWith_iff _ _).mpr text)
    fun other earlier => ?_, ?_, ?_, ?_⟩
  · rw [Bool.eq_false_iff, ne_eq, beginsWith_iff]
    exact others other earlier
  · unfold matchEntry
    rw [List.find?_eq_none]
    intro other operator begins
    rw [beginsWith_iff] at begins
    have differ := entries_begin.2.1 entry member other operator
    have long := entries_begin.2.2 entry (List.mem_append_right _ member)
    have long' := entries_begin.2.2 other (List.mem_append_left _ operator)
    obtain ⟨front, same⟩ := text
    obtain ⟨front', same'⟩ := begins
    have both := same.trans same'.symm
    cases first : entry.1.map tolower with
    | nil =>
      rw [← List.length_map (f := tolower), first] at long
      cases long
    | cons char rest =>
      cases second : other.1.map tolower with
      | nil =>
        rw [← List.length_map (f := tolower), second] at long'
        cases long'
      | cons char' rest' =>
        rw [first, second] at both differ
        injection both with head
        exact differ (congrArg some head)
  · rw [← List.length_map (f := tolower), lower, List.length_map]
  · unfold Written.token
    dsimp only
    rw [find_spelled _ before later entry spelled split same fun other earlier => ?_, Option.map_some]
    rw [Bool.eq_false_iff]
    intro also
    exact others other earlier (spelled_begins also)

/-- A blank, a quote or a digit is itself in lower case. -/
theorem odd_lower (char : UInt8) (odd : isspace char = true ∨ char = 34 ∨ isdigit char = true) :
    tolower char = char := by
  unfold isspace isdigit at odd
  unfold tolower
  grind

/-- A digit is no blank. -/
theorem digit_solid (char : UInt8) (digit : isdigit char = true) : isspace char = false := by
  unfold isdigit at digit
  unfold isspace
  grind

/-- An entry is not at a character that none begins with. -/
theorem matchEntry_apart (table : List LexEntry) (char : UInt8) (rest : Bytes)
    (apart : ∀ entry ∈ table, entry.1 ≠ [] ∧ (entry.1.map tolower).head? ≠ some (tolower char)) :
    matchEntry table (char :: rest) = none := by
  unfold matchEntry
  rw [List.find?_eq_none]
  intro entry member begins
  obtain ⟨filled, differ⟩ := apart entry member
  rw [beginsWith_iff] at begins
  obtain ⟨front, same⟩ := begins
  cases spelled : entry.1 with
  | nil => exact filled spelled
  | cons first more =>
    rw [spelled] at same differ
    injection same with head
    exact differ (congrArg some head)

/-- No entry is at a blank, a quote or a digit. -/
theorem matchEntry_odd (char : UInt8) (rest : Bytes)
    (odd : isspace char = true ∨ char = 34 ∨ isdigit char = true) :
    matchEntry exprOperators (char :: rest) = none ∧ matchEntry exprElements (char :: rest) = none := by
  have apart : ∀ entry ∈ exprOperators ++ exprElements,
      entry.1 ≠ [] ∧ (entry.1.map tolower).head? ≠ some (tolower char) := by
    intro entry member
    refine ⟨List.ne_nil_of_length_pos (entries_begin.2.2 entry member), fun same => ?_⟩
    obtain ⟨blank, quote, digit⟩ := entries_begin.1 entry member (tolower char) same
    rw [odd_lower char odd] at blank quote digit
    rcases odd with is | is | is
    · rw [is] at blank
      cases blank
    · exact quote is
    · rw [is] at digit
      cases digit
  exact ⟨matchEntry_apart _ char rest fun entry member =>
      apart entry (List.mem_append_left _ member),
    matchEntry_apart _ char rest fun entry member => apart entry (List.mem_append_right _ member)⟩

/-! ## A word -/

/-- The operator where a word ends. -/
def wordOperator (after : Bytes) : Option LexEntry :=
  match after with
  | [] => none
  | char :: _ => if isspace char then none else matchEntry exprOperators after

/-- A text without quotes is taken up to its end. -/
theorem bareText_word (text after : Bytes) (solid : ∀ char ∈ text, isspace char = false)
    (free : Free exprOperators text after) (ends : endsWord after = true) :
    bareText (text ++ after) = (text, after, wordOperator after) := by
  induction text with
  | nil =>
    cases after with
    | nil => rfl
    | cons char rest =>
      change bareText (char :: rest) = _
      unfold bareText wordOperator
      dsimp only
      by_cases blank : isspace char = true
      · rw [if_pos blank, if_pos blank]
      · rw [if_neg blank, if_neg blank]
        unfold endsWord at ends
        rw [Bool.or_eq_true, or_iff_right blank, Option.isSome_iff_exists] at ends
        obtain ⟨entry, there⟩ := ends
        rw [there]
  | cons char text later =>
    have none_ : matchEntry exprOperators (char :: (text ++ after)) = none :=
      free 0 (Nat.zero_lt_succ _)
    rw [List.cons_append]
    unfold bareText
    rw [if_neg (by rw [solid char List.mem_cons_self]; exact Bool.false_ne_true), none_]
    dsimp only
    rw [later (fun other member => solid other (List.mem_cons_of_mem _ member))
      fun place inside => free (place + 1) (Nat.succ_lt_succ inside)]

/-- The lexer goes on after a word as if the operator there were not kept. -/
theorem yylex_word (after : Bytes) (ends : endsWord after = true) :
    yylex ⟨afterText after (wordOperator after), wordOperator after⟩ = yylex ⟨after, none⟩ := by
  cases after with
  | nil => rfl
  | cons char rest =>
    unfold wordOperator
    dsimp only
    by_cases blank : isspace char = true
    · rw [if_pos blank]
      change yylex ⟨rest, none⟩ = yylex ⟨char :: rest, none⟩
      unfold yylex
      dsimp only
      rw [List.dropWhile_cons_of_pos blank]
    · unfold endsWord at ends
      rw [Bool.or_eq_true, or_iff_right blank, Option.isSome_iff_exists] at ends
      obtain ⟨entry, there⟩ := ends
      rw [if_neg blank, there]
      unfold yylex afterText
      dsimp only
      rw [List.dropWhile_cons_of_neg blank]
      dsimp only
      rw [there, Option.some_or]
      have long := entries_begin.2.2 entry
        (List.mem_append_left _ (List.mem_of_find?_eq_some there))
      have length : (if 1 < entry.1.length then entry.1.length else 1) = entry.1.length := by
        split <;> omega
      rw [length]

/-- Blanks before a token are left out. -/
theorem yylex_blanks (blanks text : Bytes) (blank : ∀ char ∈ blanks, isspace char = true) :
    yylex ⟨blanks ++ text, none⟩ = yylex ⟨text, none⟩ := by
  unfold yylex
  dsimp only
  rw [List.dropWhile_append_of_pos blank]

/-- An entry of the tables at the place is the token there. -/
theorem yylex_entry (char : UInt8) (rest : Bytes) (entry : LexEntry)
    (there : (matchEntry exprOperators (char :: rest)).or (matchEntry exprElements (char :: rest)) =
      some entry) :
    yylex ⟨char :: rest, none⟩ = some (entry.2, ⟨(char :: rest).drop entry.1.length, none⟩) := by
  have solid : ¬ isspace char = true := by
    intro blank
    obtain ⟨operators, elements⟩ := matchEntry_odd char rest (.inl blank)
    rw [operators, elements] at there
    cases there
  unfold yylex
  dsimp only
  rw [List.dropWhile_cons_of_neg solid]
  dsimp only
  rw [there]

/-- Where no entry is at the place, a text is. -/
theorem yylex_text (char : UInt8) (rest : Bytes) (solid : isspace char = false)
    (operators : matchEntry exprOperators (char :: rest) = none)
    (elements : matchEntry exprElements (char :: rest) = none) :
    yylex ⟨char :: rest, none⟩ = some (lexText (char :: rest)) := by
  unfold yylex
  dsimp only
  rw [List.dropWhile_cons_of_neg (by rw [solid]; exact Bool.false_ne_true)]
  dsimp only
  rw [operators, elements, Option.or_none]

/-- A text without quotes that has no entry of the tables in it is the token. -/
theorem yylex_bare (text after : Bytes) (filled : text ≠ []) (unquoted : text.head? ≠ some 34)
    (solid : ∀ char ∈ text, isspace char = false) (free : Free exprOperators text after)
    (elements : matchEntry exprElements (text ++ after) = none) (ends : endsWord after = true) :
    ∃ s, yylex ⟨text ++ after, none⟩ = some (textToken text, s) ∧ yylex s = yylex ⟨after, none⟩ := by
  cases text with
  | nil => exact absurd rfl filled
  | cons char rest =>
    have operators : matchEntry exprOperators (char :: (rest ++ after)) = none :=
      free 0 (Nat.zero_lt_succ _)
    have word := bareText_word rest after (fun other member => solid other (List.mem_cons_of_mem _ member))
      (fun place inside => free (place + 1) (Nat.succ_lt_succ inside)) ends
    refine ⟨⟨afterText after (wordOperator after), wordOperator after⟩, ?_, yylex_word after ends⟩
    rw [List.cons_append,
      yylex_text char (rest ++ after) (solid char List.mem_cons_self) operators elements]
    unfold lexText
    dsimp only
    rw [if_neg fun quote => unquoted (congrArg some quote), word]

/-- A text in quotes is taken up to the other quote. -/
theorem yylex_quoted (text after : Bytes) (inside : 34 ∉ text) :
    yylex ⟨34 :: (text ++ [34]) ++ after, none⟩ = some (textToken text, ⟨after, none⟩) := by
  obtain ⟨operators, elements⟩ := matchEntry_odd 34 (text ++ [34] ++ after) (.inr (.inl rfl))
  have other : ∀ char ∈ text, decide (char ≠ 34) = true := by
    intro char member
    rw [decide_eq_true_eq]
    exact ne_of_mem_of_not_mem member inside
  rw [List.cons_append, yylex_text 34 _ rfl operators elements]
  unfold lexText
  dsimp only
  rw [if_pos rfl, List.append_assoc, List.takeWhile_append_of_pos other,
    List.dropWhile_append_of_pos other]
  rw [List.singleton_append, List.takeWhile_cons_of_neg (by decide),
    List.dropWhile_cons_of_neg (by decide), List.append_nil]
  rfl

/-- Something is written for a token. -/
theorem Written.Placed.filled {written : Written} {after : Bytes} (placed : written.Placed after) :
    0 < written.spelling.length := by
  have entry : ∀ (table : List LexEntry), (∀ entry ∈ table, 0 < entry.1.length) → ∀ spelled,
      (∃ entry ∈ table, strcasecmp entry.1 spelled = true) → 0 < spelled.length := by
    rintro table long spelled ⟨entry, member, same⟩
    have lower := congrArg List.length ((strcasecmp_iff entry.1 spelled).mp same)
    rw [List.length_map, List.length_map] at lower
    exact lower ▸ long entry member
  cases written with
  | operator spelled =>
    exact entry exprOperators (fun entry member => entries_begin.2.2 entry
      (List.mem_append_left _ member)) spelled placed.1
  | name spelled =>
    exact entry exprElements (fun entry member => entries_begin.2.2 entry
      (List.mem_append_right _ member)) spelled placed.1
  | number digits => exact List.length_pos_of_ne_nil placed.1
  | bare text => exact List.length_pos_of_ne_nil placed.1
  | quoted text => exact Nat.zero_lt_succ _

/-- A token that is written plainly is the one that the lexer finds. -/
theorem yylex_plain (written : Written) (after : Bytes) (placed : written.Placed after)
    (plain : written.Plain after) :
    ∃ token s, written.token = some token ∧
      yylex ⟨written.spelling ++ after, none⟩ = some (token, s) ∧ yylex s = yylex ⟨after, none⟩ := by
  have dropped : ∀ (spelled : Bytes) (entry : LexEntry), entry.1.length = spelled.length →
      (matchEntry exprOperators (spelled ++ after)).or (matchEntry exprElements (spelled ++ after)) =
        some entry → 0 < entry.1.length →
      yylex ⟨spelled ++ after, none⟩ = some (entry.2, ⟨after, none⟩) := by
    intro spelled entry length there long
    cases spelled with
    | nil =>
      rw [length] at long
      cases long
    | cons char rest =>
      rw [List.cons_append] at there ⊢
      rw [yylex_entry char (rest ++ after) entry there, length, ← List.cons_append, List.drop_left]
  cases written with
  | operator spelled =>
    obtain ⟨entry, there, length, token⟩ := matchEntry_operator spelled after placed plain
    have long := entries_begin.2.2 entry (List.mem_append_left _ (List.mem_of_find?_eq_some there))
    exact ⟨entry.2, ⟨after, none⟩, token,
      dropped spelled entry length (by rw [there, Option.some_or]) long, rfl⟩
  | name spelled =>
    obtain ⟨entry, there, none_, length, token⟩ := matchEntry_name spelled after placed
    have long := entries_begin.2.2 entry (List.mem_append_right _ (List.mem_of_find?_eq_some there))
    exact ⟨entry.2, ⟨after, none⟩, token,
      dropped spelled entry length (by rw [there, none_, Option.none_or]) long, rfl⟩
  | number digits =>
    obtain ⟨filled, decimal, ends⟩ := placed
    have digit : ∀ char ∈ digits, isdigit char = true := List.all_eq_true.mp decimal
    have free : Free exprOperators digits after := by
      intro place inside
      rw [List.drop_append_of_le_length (Nat.le_of_lt inside), List.drop_eq_getElem_cons inside]
      exact (matchEntry_odd _ _ (.inr (.inr (digit _ (List.getElem_mem inside))))).1
    have elements : matchEntry exprElements (digits ++ after) = none := by
      cases digits with
      | nil => exact absurd rfl filled
      | cons char rest =>
        exact (matchEntry_odd char _ (.inr (.inr (digit char List.mem_cons_self)))).2
    have unquoted : digits.head? ≠ some 34 := by
      intro quote
      have is := digit 34 (List.mem_of_mem_head? quote)
      cases is
    obtain ⟨s, lexed, goes⟩ := yylex_bare digits after filled unquoted
      (fun char member => digit_solid char (digit char member)) free elements ends
    refine ⟨.number (atolInt digits), s, rfl, ?_, goes⟩
    unfold textToken at lexed
    rw [if_pos decimal] at lexed
    exact lexed
  | bare text =>
    obtain ⟨filled, unquoted, solid, -, ends⟩ := placed
    obtain ⟨decimal, free, elements⟩ := plain
    obtain ⟨s, lexed, goes⟩ := yylex_bare text after filled unquoted solid free elements ends
    refine ⟨.text text, s, rfl, ?_, goes⟩
    unfold textToken at lexed
    rw [decimal] at lexed
    exact lexed
  | quoted text =>
    have decimal : isDec text = false := plain
    refine ⟨.text text, ⟨after, none⟩, rfl, ?_, rfl⟩
    have lexed := yylex_quoted text after placed
    unfold textToken at lexed
    rw [decimal] at lexed
    exact lexed

/-! ## Where the lexer finds another token -/

/-- The token of a text. -/
def ExprToken.isText : ExprToken → Bool
  | .text _ => true
  | _ => false

/-- No entry of the tables is a text. -/
theorem entries_untexted (entry : LexEntry) (member : entry ∈ exprOperators ++ exprElements)
    (text : Bytes) : entry.2 ≠ .text text := by
  have none_ : ∀ entry ∈ exprOperators ++ exprElements, entry.2.isText = false := by decide
  intro same
  have is := none_ entry member
  rw [same] at is
  cases is

/-- A text that was taken whole has no operator in it. -/
theorem bareText_free (text after : Bytes) (whole : (bareText (text ++ after)).1 = text) :
    Free exprOperators text after := by
  induction text with
  | nil => exact fun place inside => absurd inside (Nat.not_lt_zero _)
  | cons char text later =>
    rw [List.cons_append] at whole
    unfold bareText at whole
    split at whole
    · cases whole
    · split at whole
      · cases whole
      · rename_i none_
        have rest := later (List.cons.inj whole).2
        intro place inside
        cases place with
        | zero => exact none_
        | succ place => exact rest place (Nat.lt_of_succ_lt_succ inside)

/-- A spelling without letters is written in one way. -/
theorem strcasecmp_symbols (str spelled : Bytes) (low : ∀ char ∈ str, char < 65)
    (same : strcasecmp str spelled = true) : spelled = str := by
  have itself : ∀ char : UInt8, char < 65 ∨ tolower char < 65 → tolower char = char := by
    intro char below
    unfold tolower at below ⊢
    grind
  have lower := (strcasecmp_iff str spelled).mp same
  have first : str.map tolower = str :=
    (List.map_congr_left fun char member => itself char (.inl (low char member))).trans (List.map_id str)
  have second : spelled.map tolower = spelled := by
    refine (List.map_congr_left fun char member => itself char (.inr ?_)).trans (List.map_id spelled)
    have among := List.mem_map_of_mem (f := tolower) member
    rw [← lower, first] at among
    exact low _ among
  rw [← second, ← lower, first]

/-- `>=` and `<=` are taken for `>` and `<`. -/
theorem matchEntry_short (spelled after : Bytes)
    (twice : strcasecmp (ascii ">=") spelled = true ∨ strcasecmp (ascii "<=") spelled = true) :
    ∃ entry, matchEntry exprOperators (spelled ++ after) = some entry ∧
      (Written.operator spelled).token ≠ some entry.2 := by
  have same : spelled = ascii ">=" ∨ spelled = ascii "<=" :=
    twice.imp (strcasecmp_symbols _ spelled (by decide +kernel)) (strcasecmp_symbols _ spelled (by decide +kernel))
  rcases same with rfl | rfl
  · exact ⟨(ascii ">", .arop .gt), rfl, by decide⟩
  · exact ⟨(ascii "<", .arop .lt), rfl, by decide⟩

/-- A token that is not written plainly is not the one that the lexer finds. -/
theorem yylex_misread (written : Written) (after : Bytes) (placed : written.Placed after)
    (wrong : ¬ written.Plain after) :
    ∃ token s, written.token ≠ some token ∧
      yylex ⟨written.spelling ++ after, none⟩ = some (token, s) := by
  have decimal : ∀ text text', isDec text = true → some (ExprToken.text text') ≠ some (textToken text) := by
    intro text text' digits
    unfold textToken
    rw [if_pos digits]
    exact nofun
  cases written with
  | operator spelled =>
    have twice : strcasecmp (ascii ">=") spelled = true ∨ strcasecmp (ascii "<=") spelled = true := by
      change ¬ (_ = false ∧ _ = false) at wrong
      rw [not_and_or, Bool.not_eq_false, Bool.not_eq_false] at wrong
      exact wrong
    obtain ⟨entry, there, differs⟩ := matchEntry_short spelled after twice
    cases spelled with
    | nil => rcases twice with is | is <;> cases is
    | cons char rest =>
      exact ⟨entry.2, _, differs, yylex_entry char (rest ++ after) entry (by
        rw [← List.cons_append, there, Option.some_or])⟩
  | name spelled => exact absurd trivial wrong
  | number digits => exact absurd trivial wrong
  | bare text =>
    obtain ⟨filled, unquoted, solid, -, ends⟩ := placed
    cases text with
    | nil => exact absurd rfl filled
    | cons char rest =>
      cases there : (matchEntry exprOperators (char :: (rest ++ after))).or
          (matchEntry exprElements (char :: (rest ++ after))) with
      | some entry =>
        have member : entry ∈ exprOperators ++ exprElements := by
          rcases Option.or_eq_some_iff.mp there with first | ⟨-, second⟩
          · exact List.mem_append_left _ (List.mem_of_find?_eq_some first)
          · exact List.mem_append_right _ (List.mem_of_find?_eq_some second)
        refine ⟨entry.2, _, fun same => ?_, yylex_entry char (rest ++ after) entry there⟩
        exact entries_untexted entry member _ (Option.some.inj same).symm
      | none =>
        obtain ⟨operators, elements⟩ := Option.or_eq_none_iff.mp there
        have lexed := yylex_text char (rest ++ after) (solid char List.mem_cons_self) operators elements
        unfold lexText at lexed
        dsimp only at lexed
        rw [if_neg fun quote => unquoted (congrArg some quote)] at lexed
        refine ⟨_, _, fun same => ?_, lexed⟩
        by_cases digits : isDec (char :: (bareText (rest ++ after)).1) = true
        · exact decimal _ _ digits same
        · unfold textToken at same
          rw [if_neg digits] at same
          injection same with same
          injection same with same
          have whole := (List.cons.inj same).2.symm
          rw [whole, Bool.not_eq_true] at digits
          refine wrong ⟨digits, fun place inside => ?_, elements⟩
          cases place with
          | zero => exact operators
          | succ place =>
            exact bareText_free rest after whole place (Nat.lt_of_succ_lt_succ inside)
  | quoted text =>
    have digits : isDec text = true := by
      rw [← Bool.not_eq_false]
      exact wrong
    exact ⟨textToken text, _, decimal text text digits, yylex_quoted text after placed⟩

/-! ## The tokens of a text -/

/-- The lexer finds the tokens that were written, if all of them are written plainly, and
not if one is not. -/
theorem lexTokens_written (last : Bytes) (blank : ∀ char ∈ last, isspace char = true)
    (words : List (Bytes × Written)) (blanks : ∀ word ∈ words, ∀ char ∈ word.1, isspace char = true)
    (placed : Throughout Written.Placed last words) (calls : Nat) (enough : words.length < calls)
    (s : LexState) (here : yylex s = yylex ⟨writtenText last words, none⟩) :
    (lexTokens calls s).map some = words.map (·.2.token) ↔ Throughout Written.Plain last words := by
  induction words generalizing calls s with
  | nil =>
    cases calls with
    | zero => exact absurd enough (Nat.not_lt_zero _)
    | succ calls =>
      have ends : yylex s = none := by
        rw [here]
        change yylex ⟨last, none⟩ = none
        rw [← List.append_nil last, yylex_blanks last [] blank]
        rfl
      unfold lexTokens
      rw [ends]
      exact iff_of_true rfl trivial
  | cons word words later =>
    obtain ⟨before, written⟩ := word
    obtain ⟨placed, others⟩ := placed
    cases calls with
    | zero => exact absurd enough (Nat.not_lt_zero _)
    | succ calls =>
      have start : yylex s = yylex ⟨written.spelling ++ writtenText last words, none⟩ := by
        rw [here]
        exact yylex_blanks before _ (blanks _ List.mem_cons_self)
      unfold lexTokens
      by_cases plain : written.Plain (writtenText last words)
      · obtain ⟨token, s', means, lexed, goes⟩ := yylex_plain written _ placed plain
        rw [start, lexed, List.map_cons, List.map_cons, means, List.cons_eq_cons, eq_self, true_and,
          later (fun word member => blanks word (List.mem_cons_of_mem _ member)) others calls
            (Nat.lt_of_succ_lt_succ enough) s' goes]
        exact (and_iff_right plain).symm
      · obtain ⟨token, s', differs, lexed⟩ := yylex_misread written _ placed plain
        rw [start, lexed, List.map_cons, List.map_cons, List.cons_eq_cons]
        exact iff_of_false (fun same => differs same.1.symm) fun all => plain all.1

/-- Every token takes a character of the text. -/
theorem writtenText_length (last : Bytes) (words : List (Bytes × Written))
    (placed : Throughout Written.Placed last words) :
    words.length ≤ (writtenText last words).length := by
  induction words with
  | nil => exact Nat.zero_le _
  | cons word words later =>
    obtain ⟨before, written⟩ := word
    obtain ⟨placed, others⟩ := placed
    have filled := placed.filled
    have rest := later others
    unfold writtenText
    rw [List.length_cons, List.length_append, List.length_append]
    omega

/-- The tokens of a written text. -/
theorem exprTokens_written (words : List (Bytes × Written)) (last : Bytes)
    (well : WellWritten words last) :
    (exprTokens none (writtenText last words)).map some = words.map (·.2.token) ↔
      Throughout Written.Plain last words := by
  obtain ⟨blanks, blank, placed⟩ := well
  have length := writtenText_length last words placed
  exact lexTokens_written last blank words blanks placed _ (by omega) _ rfl

/-! ## What an expression says -/

/-- A text that is written plainly is the expression it should be, and no other text is.
An expression that the parser builds, from any text, is true where it should be, if no
element in it is a test for a file or a list of more than one text; the truth is that of
two values where nothing unknown is negated. The elements that are left out are not true
where they should be. -/
theorem eventexpr_holds (tree : Expression) :
    (∀ (words : List (Bytes × Written)) (last : Bytes),
      WellWritten words last → words.map (·.2.token) = tree.tokens.map some → tree.Shifted →
      (yyparse (exprTokens none (writtenText last words)) = some tree ↔
        Throughout Written.Plain last words) ∧
      (Throughout Written.Plain last words → tree.kept = true → ∀ state,
        eventexpr state none ⟨some (writtenText last words), false⟩ = tree.holds state)) ∧
    (∀ (state : ExprState) (next : Option LexEntry) (text : Bytes),
      yyparse (exprTokens next text) = some tree → tree.kept = true →
      eventexpr state next ⟨some text, false⟩ = tree.holds state ∧
        (tree.negatesKnown state = true →
          tree.holds state = (tree.sound state && tree.truth state))) ∧
    ∀ element : ElemExp, element.Formed →
      ((∀ state, decide (element.value state = some 1) = (Expression.elemexp element).holds state) ↔
        element.kept = true) := by
  have parsed : ∀ (state : ExprState) (next : Option LexEntry) (text : Bytes),
      yyparse (exprTokens next text) = some tree → tree.kept = true →
      eventexpr state next ⟨some text, false⟩ = tree.holds state := by
    intro state next text parsed kept
    have shifted := ((yyparse_iff _ tree).mp parsed).2
    unfold eventexpr
    dsimp only
    rw [if_neg Bool.false_ne_true, parsed, Option.bind_some]
    exact value_holds state tree kept shifted
  refine ⟨fun words last well means shifted => ?_, fun state next text built kept => ?_,
    element_kept_iff⟩
  · have lexed : yyparse (exprTokens none (writtenText last words)) = some tree ↔
        Throughout Written.Plain last words := by
      rw [yyparse_iff, and_iff_left shifted, ← exprTokens_written words last well, means,
        (List.map_injective_iff.mpr (Option.some_injective _)).eq_iff]
      exact eq_comm
    exact ⟨lexed, fun plain kept state => parsed state none _ (lexed.mpr plain) kept⟩
  · refine ⟨parsed state next text built kept, fun known => ?_⟩
    unfold Expression.holds
    rw [means_truth state tree known]

/-- `Connspeed > 9600 & !Flag "ZYX"` on a fast line to a system without the flag. -/
theorem eventexpr_holds_fast :
    eventexpr { valid := true, connspeed := 33600, node := { addr := {}, flags := ascii "CM,V34" } } none
      ⟨some (ascii "Connspeed > 9600 & !Flag \"ZYX\""), false⟩ = true :=
  (((eventexpr_holds
    (.logic (.elemexp (.compare .connspeed .gt 9600)) .and
      (.not (.elemexp (.several .flag (ascii "ZYX") []))))).1
    [([], .name (ascii "Connspeed")), ([32], .operator [62]), ([32], .number (ascii "9600")),
      ([32], .operator [38]), ([32], .operator [33]), ([], .name (ascii "Flag")),
      ([32], .quoted (ascii "ZYX"))] []
    (by decide +kernel) (by decide) ⟨rfl, rfl, rfl⟩).2
    (by decide) rfl _).trans (by decide)

/-- A list of flags is true though the system has neither; a file that exists does not; and
`Connspeed >= 9600` is no expression for the parser. -/
theorem expressions_miss :
    (let state : ExprState := { valid := true, node := { addr := {}, flags := ascii "CM" } }
      let tree : Expression := .elemexp (.several .flag (ascii "ZYX") [ascii "V34"])
      yyparse (exprTokens none (ascii "Flag ZYX,V34")) = some tree ∧
        eventexpr state none ⟨some (ascii "Flag ZYX,V34"), false⟩ = true ∧ tree.holds state = false) ∧
    (let state : ExprState := { exists_ := fun text => text == ascii "/tmp/flag" }
      let tree : Expression := .elemexp (.single .exist (ascii "/tmp/flag"))
      yyparse (exprTokens none (ascii "Exist /tmp/flag")) = some tree ∧
        eventexpr state none ⟨some (ascii "Exist /tmp/flag"), false⟩ = false ∧
        tree.holds state = true) ∧
    (let state : ExprState := { valid := true, connspeed := 33600 }
      let tree : Expression := .elemexp (.compare .connspeed .ge 9600)
      let words : List (Bytes × Written) := [([], .name (ascii "Connspeed")), ([32], .operator [62, 61]),
        ([32], .number (ascii "9600"))]
      WellWritten words [] ∧ writtenText [] words = ascii "Connspeed >= 9600" ∧
        words.map (·.2.token) = tree.tokens.map some ∧
        eventexpr state none ⟨some (ascii "Connspeed >= 9600"), false⟩ = false ∧
        tree.holds state = true) := by
  refine ⟨⟨?_, ?_, ?_⟩, ⟨?_, ?_, ?_⟩, ?_, ?_, ?_, ?_, ?_⟩ <;> decide +kernel

end Binkleyforce
