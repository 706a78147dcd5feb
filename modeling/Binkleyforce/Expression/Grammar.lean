import Binkleyforce.Expression.Lexer

/-!
# The grammar of expressions

The grammar has no precedences, and where it leaves a choice the parser shifts: what
follows a NOT or a logical operator belongs to it as far as it goes. A descent over the
tokens builds the same trees.
-/

namespace Binkleyforce

/-- `elemexp`. A list of texts has one at least. -/
inductive ElemExp where
  | plain (name : ElementName)
  | compare (name : ElementName) (op : Arop) (number : Int)
  | single (name : ElementName) (text : Bytes)
  | several (name : ElementName) (first : Bytes) (rest : List Bytes)
  | address (text : Bytes)
  deriving DecidableEq, Repr

/-- `expression`. -/
inductive Expression where
  | elemexp (element : ElemExp)
  | not (operand : Expression)
  | logic (left : Expression) (op : Logop) (right : Expression)
  | brackets (inner : Expression)
  deriving DecidableEq, Repr

/-- How an element goes on after its name. -/
inductive ElementForm where
  | plain
  | compare
  | single
  | several
  | missing
  deriving DecidableEq, Repr

/-- The productions of `elemexp` with a name. -/
def ElementName.form : ElementName → ElementForm
  | .incoming | .outgoing | .listed | .protected_ => .plain
  | .connspeed | .speed | .tz => .compare
  | .phone | .exec | .exist | .port | .mailer => .single
  | .flag | .time => .several
  | .address => .missing

/-- The texts of a list after the first. -/
def moreTexts (rest : List Bytes) : List ExprToken :=
  rest.flatMap fun text => [.comma, .text text]

/-- The tokens of an element. -/
def ElemExp.tokens : ElemExp → List ExprToken
  | .plain name => [.element name]
  | .compare name op number => [.element name, .arop op, .number number]
  | .single name text => [.element name, .text text]
  | .several name first rest => .element name :: .text first :: moreTexts rest
  | .address text => [.text text]

/-- The tokens of an expression. -/
def Expression.tokens : Expression → List ExprToken
  | .elemexp element => element.tokens
  | .not operand => .not :: operand.tokens
  | .logic left op right => left.tokens ++ .logop op :: right.tokens
  | .brackets inner => .openb :: inner.tokens ++ [.closeb]

/-- Each name stands in a production that is its own. -/
def ElemExp.Formed : ElemExp → Prop
  | .plain name => name.form = .plain
  | .compare name _ _ => name.form = .compare
  | .single name _ => name.form = .single
  | .several name _ _ => name.form = .several
  | .address _ => True

/-- The expression ends where its first element or bracket does. -/
def Expression.closed : Expression → Bool
  | .elemexp _ => true
  | .brackets _ => true
  | _ => false

/-- The trees that the parser builds: what is left of a logical operator is closed. -/
def Expression.Shifted : Expression → Prop
  | .elemexp element => element.Formed
  | .not operand => operand.Shifted
  | .logic left _ right => left.closed = true ∧ left.Shifted ∧ right.Shifted
  | .brackets inner => inner.Shifted

/-- The rest of a list of texts: a comma is always shifted. -/
def parseTexts : List ExprToken → Option (List Bytes × List ExprToken)
  | .comma :: .text text :: rest => (parseTexts rest).map fun (texts, left) => (text :: texts, left)
  | .comma :: _ => none
  | left => some ([], left)

/-- `elemexp`. -/
def parseElement : List ExprToken → Option (ElemExp × List ExprToken)
  | .element name :: rest =>
    match name.form, rest with
    | .plain, rest => some (.plain name, rest)
    | .compare, .arop op :: .number number :: rest => some (.compare name op number, rest)
    | .single, .text text :: rest => some (.single name text, rest)
    | .several, .text first :: rest =>
      (parseTexts rest).map fun (texts, left) => (.several name first texts, left)
    | _, _ => none
  | .text text :: rest => some (.address text, rest)
  | _ => none

/-- What goes on after an element or a bracket. -/
def parseLogic (parse : List ExprToken → Option (Expression × List ExprToken)) (left : Expression) :
    List ExprToken → Option (Expression × List ExprToken)
  | .logop op :: rest => (parse rest).map fun (right, rest) => (.logic left op right, rest)
  | rest => some (left, rest)

/-- `expression`, to a depth. -/
def parseExpression : Nat → List ExprToken → Option (Expression × List ExprToken)
  | 0, _ => none
  | depth + 1, .not :: rest =>
    (parseExpression depth rest).map fun (operand, rest) => (.not operand, rest)
  | depth + 1, .openb :: rest =>
    match parseExpression depth rest with
    | some (inner, .closeb :: rest) => parseLogic (parseExpression depth) (.brackets inner) rest
    | _ => none
  | depth + 1, tokens =>
    match parseElement tokens with
    | some (element, rest) => parseLogic (parseExpression depth) (.elemexp element) rest
    | none => none

/-- `yyparse`: all tokens are an expression. -/
def yyparse (tokens : List ExprToken) : Option Expression :=
  match parseExpression (tokens.length + 1) tokens with
  | some (tree, []) => some tree
  | _ => none

/-- A list of texts is taken up to its end. -/
theorem parseTexts_iff (tokens left : List ExprToken) (texts : List Bytes) :
    parseTexts tokens = some (texts, left) ↔
      tokens = moreTexts texts ++ left ∧ left.head? ≠ some .comma := by
  induction tokens using parseTexts.induct generalizing texts with
  | case1 text rest later =>
    unfold parseTexts
    rw [Option.map_eq_some_iff]
    constructor
    · rintro ⟨⟨more, last⟩, parsed, same⟩
      obtain ⟨rfl, rfl⟩ := Prod.mk.inj same
      obtain ⟨rfl, ends⟩ := (later more).mp parsed
      exact ⟨rfl, ends⟩
    · rintro ⟨same, ends⟩
      cases texts with
      | nil =>
        rw [moreTexts, List.flatMap_nil, List.nil_append] at same
        rw [← same] at ends
        exact absurd rfl ends
      | cons first more =>
        rw [moreTexts, List.flatMap_cons] at same
        injection same with _ same
        injection same with head same
        obtain rfl := ExprToken.text.inj head
        exact ⟨(more, left), (later more).mpr ⟨same, ends⟩, rfl⟩
  | case2 rest other =>
    unfold parseTexts
    split
    · rename_i text later same
      injection same with _ same
      exact absurd same (other text later)
    · refine ⟨nofun, fun ⟨same, ends⟩ => ?_⟩
      cases texts with
      | nil =>
        rw [moreTexts, List.flatMap_nil, List.nil_append] at same
        rw [← same] at ends
        exact absurd rfl ends
      | cons first more =>
        rw [moreTexts, List.flatMap_cons] at same
        injection same with _ same
        exact absurd same (other first _)
    · rename_i plain
      exact absurd rfl (plain rest)
  | case3 tokens plain other =>
    have whole : parseTexts tokens = some ([], tokens) := by
      unfold parseTexts
      split
      · rename_i text rest
        exact absurd rfl (plain text rest)
      · rename_i rest _
        exact absurd rfl (other rest)
      · rfl
    rw [whole]
    have starts : tokens.head? ≠ some .comma := by
      intro comma
      cases tokens with
      | nil => cases comma
      | cons first rest =>
        obtain rfl := Option.some.inj comma
        exact other rest rfl
    constructor
    · intro same
      obtain ⟨rfl, rfl⟩ := Prod.mk.inj (Option.some.inj same)
      exact ⟨rfl, starts⟩
    · rintro ⟨rfl, ends⟩
      cases texts with
      | nil => rfl
      | cons first more => exact absurd rfl starts

/-- An element is taken whole. -/
theorem parseElement_iff (tokens left : List ExprToken) (element : ElemExp) :
    parseElement tokens = some (element, left) ↔
      tokens = element.tokens ++ left ∧ element.Formed ∧
        ((∃ name first rest, element = .several name first rest) → left.head? ≠ some .comma) := by
  constructor
  · intro parsed
    unfold parseElement at parsed
    split at parsed
    · rename_i name rest
      split at parsed
      · rename_i form
        obtain ⟨rfl, rfl⟩ := Prod.mk.inj (Option.some.inj parsed)
        exact ⟨rfl, form, nofun⟩
      · rename_i form
        obtain ⟨rfl, rfl⟩ := Prod.mk.inj (Option.some.inj parsed)
        exact ⟨rfl, form, nofun⟩
      · rename_i form
        obtain ⟨rfl, rfl⟩ := Prod.mk.inj (Option.some.inj parsed)
        exact ⟨rfl, form, nofun⟩
      · rename_i first later form
        rw [Option.map_eq_some_iff] at parsed
        obtain ⟨⟨texts, last⟩, list, same⟩ := parsed
        obtain ⟨rfl, rfl⟩ := Prod.mk.inj same
        obtain ⟨rfl, ends⟩ := (parseTexts_iff later last texts).mp list
        exact ⟨rfl, form, fun _ => ends⟩
      · cases parsed
    · obtain ⟨rfl, rfl⟩ := Prod.mk.inj (Option.some.inj parsed)
      exact ⟨rfl, trivial, nofun⟩
    · cases parsed
  · rintro ⟨rfl, formed, ends⟩
    cases element with
    | plain name | compare name op number | single name text =>
      change _ = _ at formed
      simp only [ElemExp.tokens, List.cons_append, List.nil_append, parseElement, formed]
    | several name first rest =>
      change _ = _ at formed
      simp only [ElemExp.tokens, List.cons_append, parseElement, formed]
      rw [(parseTexts_iff (moreTexts rest ++ left) left rest).mpr ⟨rfl, ends ⟨name, first, rest, rfl⟩⟩]
      rfl
    | address text => rfl

/-- An element starts with its name or its text. -/
theorem ElemExp.tokens_head (element : ElemExp) :
    ∃ first rest, element.tokens = first :: rest ∧
      ((∃ name, first = .element name) ∨ ∃ text, first = .text text) := by
  cases element with
  | plain name | compare name op number | single name text | several name first rest =>
    exact ⟨_, _, rfl, .inl ⟨name, rfl⟩⟩
  | address text => exact ⟨_, _, rfl, .inr ⟨text, rfl⟩⟩

/-- What was parsed is the tree's tokens. -/
theorem parseExpression_sound (depth : Nat) :
    ∀ (tokens left : List ExprToken) (tree : Expression),
      parseExpression depth tokens = some (tree, left) → tokens = tree.tokens ++ left ∧ tree.Shifted := by
  induction depth with
  | zero => exact fun _ _ _ parsed => nomatch parsed
  | succ depth deeper =>
    intro tokens left tree parsed
    have logic : ∀ (start : Expression) (rest : List ExprToken), start.closed = true →
        start.Shifted → parseLogic (parseExpression depth) start rest = some (tree, left) →
        start.tokens ++ rest = tree.tokens ++ left ∧ tree.Shifted := by
      intro start rest closed shifted goes
      unfold parseLogic at goes
      split at goes
      · rename_i op later
        rw [Option.map_eq_some_iff] at goes
        obtain ⟨⟨right, last⟩, next, same⟩ := goes
        obtain ⟨rfl, rfl⟩ := Prod.mk.inj same
        obtain ⟨rfl, fine⟩ := deeper later last right next
        refine ⟨?_, closed, shifted, fine⟩
        simp only [Expression.tokens, List.append_assoc, List.cons_append]
      · obtain ⟨rfl, rfl⟩ := Prod.mk.inj (Option.some.inj goes)
        exact ⟨rfl, shifted⟩
    unfold parseExpression at parsed
    split at parsed
    · rename_i same
      cases same
    · rename_i rest same
      injection same with same
      subst same
      rw [Option.map_eq_some_iff] at parsed
      obtain ⟨⟨operand, last⟩, next, same⟩ := parsed
      obtain ⟨rfl, rfl⟩ := Prod.mk.inj same
      obtain ⟨rfl, fine⟩ := deeper rest last operand next
      exact ⟨rfl, fine⟩
    · rename_i rest same
      injection same with same
      subst same
      split at parsed
      · rename_i inner later next
        obtain ⟨rfl, fine⟩ := deeper rest _ inner next
        obtain ⟨same, shifted⟩ := logic (.brackets inner) later rfl fine parsed
        rw [← same]
        refine ⟨?_, shifted⟩
        simp only [Expression.tokens, List.append_assoc, List.cons_append, List.nil_append]
      · cases parsed
    · rename_i same _ _
      injection same with same
      subst same
      split at parsed
      · rename_i element later next
        obtain ⟨rfl, formed, -⟩ := (parseElement_iff _ later element).mp next
        exact logic (.elemexp element) later rfl formed parsed
      · cases parsed

/-- The tree is parsed from its tokens, where nothing follows that would be shifted. -/
def Expression.Parsed (tree : Expression) : Prop :=
  ∀ (depth : Nat) (left : List ExprToken), tree.Shifted → tree.tokens.length < depth →
    left.head? ≠ some .comma → (∀ op, left.head? ≠ some (.logop op)) →
    parseExpression depth (tree.tokens ++ left) = some (tree, left)

/-- An element or a bracket is parsed, and then it may go on. -/
theorem parseExpression_closed (tree : Expression) (depth : Nat) (left : List ExprToken)
    (closed : tree.closed = true) (shifted : tree.Shifted) (enough : tree.tokens.length < depth + 1)
    (ends : left.head? ≠ some .comma) (within : ∀ inner, tree = .brackets inner → inner.Parsed) :
    parseExpression (depth + 1) (tree.tokens ++ left) =
      parseLogic (parseExpression depth) tree left := by
  cases tree with
  | elemexp element =>
    have parsed := (parseElement_iff (element.tokens ++ left) left element).mpr
      ⟨rfl, shifted, fun _ => ends⟩
    obtain ⟨first, rest, starts, kind⟩ := element.tokens_head
    change parseExpression (depth + 1) (element.tokens ++ left) = _
    rw [starts, List.cons_append] at parsed ⊢
    rcases kind with ⟨name, rfl⟩ | ⟨text, rfl⟩ <;> simp only [parseExpression, parsed]
  | brackets inner =>
    have length : (Expression.brackets inner).tokens.length = inner.tokens.length + 2 := by
      simp [Expression.tokens]
    have parsed := within inner rfl depth (.closeb :: left) shifted (by omega) nofun nofun
    change parseExpression (depth + 1) (.openb :: (inner.tokens ++ [.closeb]) ++ left) = _
    rw [List.cons_append, List.append_assoc, List.singleton_append]
    simp only [parseExpression, parsed]
  | not | logic => cases closed

/-- What may go on does not where nothing follows. -/
theorem parseLogic_ends (parse : List ExprToken → Option (Expression × List ExprToken))
    (tree : Expression) (left : List ExprToken) (stops : ∀ op, left.head? ≠ some (.logop op)) :
    parseLogic parse tree left = some (tree, left) := by
  unfold parseLogic
  split
  · rename_i op rest
    exact absurd rfl (stops op)
  · rfl

/-- Every tree of the parser is parsed from its tokens, and so is what a bracket has in it. -/
theorem parseExpression_complete (tree : Expression) :
    tree.Parsed ∧ ∀ inner, tree = .brackets inner → inner.Parsed := by
  induction tree with
  | elemexp element =>
    refine ⟨fun depth left shifted enough ends stops => ?_, nofun⟩
    cases depth with
    | zero => exact absurd enough (Nat.not_lt_zero _)
    | succ depth =>
      rw [parseExpression_closed _ depth left rfl shifted enough ends nofun]
      exact parseLogic_ends _ _ _ stops
  | not operand inner =>
    refine ⟨fun depth left shifted enough ends stops => ?_, nofun⟩
    cases depth with
    | zero => exact absurd enough (Nat.not_lt_zero _)
    | succ depth =>
      have parsed := inner.1 depth left shifted (Nat.lt_of_succ_lt_succ enough) ends stops
      change parseExpression (depth + 1) (.not :: (operand.tokens ++ left)) = _
      unfold parseExpression
      rw [parsed]
      rfl
  | logic start op right first second =>
    refine ⟨fun depth left shifted enough ends stops => ?_, nofun⟩
    obtain ⟨begins, fine, more⟩ := shifted
    have length : start.tokens.length + (right.tokens.length + 1) < depth := by
      rw [← List.length_cons, ← List.length_append]
      exact enough
    cases depth with
    | zero => exact absurd enough (Nat.not_lt_zero _)
    | succ depth =>
      have parsed := second.1 depth left more (by omega) ends stops
      have whole : (Expression.logic start op right).tokens ++ left =
          start.tokens ++ (.logop op :: (right.tokens ++ left)) := by
        simp only [Expression.tokens, List.append_assoc, List.cons_append]
      rw [whole, parseExpression_closed start depth _ begins fine (by omega) (fun same => by cases same)
        first.2]
      unfold parseLogic
      dsimp only
      rw [parsed]
      rfl
  | brackets operand inner =>
    refine ⟨fun depth left shifted enough ends stops => ?_, fun other same => ?_⟩
    · cases depth with
      | zero => exact absurd enough (Nat.not_lt_zero _)
      | succ depth =>
        rw [parseExpression_closed _ depth left rfl shifted enough ends fun other same =>
          Expression.brackets.inj same ▸ inner.1]
        exact parseLogic_ends _ _ _ stops
    · exact Expression.brackets.inj same ▸ inner.1

/-- The parser follows the grammar. -/
theorem yyparse_iff (tokens : List ExprToken) (tree : Expression) :
    yyparse tokens = some tree ↔ tree.tokens = tokens ∧ tree.Shifted := by
  unfold yyparse
  constructor
  · intro parsed
    split at parsed
    · rename_i found whole
      obtain rfl := Option.some.inj parsed
      obtain ⟨same, shifted⟩ := parseExpression_sound _ tokens [] found whole
      exact ⟨(same.trans (List.append_nil _)).symm, shifted⟩
    · cases parsed
  · rintro ⟨rfl, shifted⟩
    have parsed := (parseExpression_complete tree).1 (tree.tokens.length + 1) [] shifted
      (Nat.lt_succ_self _) nofun nofun
    rw [List.append_nil] at parsed
    rw [parsed]

end Binkleyforce
