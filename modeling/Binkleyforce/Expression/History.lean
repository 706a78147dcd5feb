import Mathlib.Logic.Function.Basic
import Binkleyforce.Expression.Tables

/-!
# Evaluations one after another

What stays from one evaluation to the next is the operator the scanner kept, and the mark of
an expression that was given up. An operator stays where an expression is given up right
after a text without quotes that the operator ended.
-/

namespace Binkleyforce

open Library

/-- An expression is evaluated in a state of the session. -/
structure Evaluation where
  expr : Nat
  session : ExprState

/-- What stays: `next` of the scanner and `error` of each expression. -/
structure ExprWorld where
  next : Option LexEntry := none
  error : Nat → Bool := fun _ => false

/-- `eventexpr`, over expressions with numbers. -/
def evaluate (texts : Nat → Option Bytes) (world : ExprWorld) (evaluation : Evaluation) :
    Bool × ExprWorld :=
  match texts evaluation.expr with
  | none => (true, world)
  | some text =>
    if world.error evaluation.expr then (false, world)
    else
      match yyparseTables evaluation.session world.next text with
      | .halt final accepted =>
        (accepted && decide (final.result = 1),
          { next := final.lex.next
            error := if accepted then world.error else Function.update world.error evaluation.expr true })
      | .more _ => (false, world)

/-- What stays after a history. -/
def worldAfter (texts : Nat → Option Bytes) (history : List Evaluation) : ExprWorld :=
  history.foldl (fun world evaluation => (evaluate texts world evaluation).2) {}

/-- The scanner has just read a text without quotes, which an operator ended. -/
def LexState.AtOperator (s : LexState) : Prop :=
  s.next ≠ none ∧ ∃ before token, before.next = none ∧ yylex before = some (token, s)

/-- The text is given up, or it is accepted. -/
def GivesUp (session : ExprState) (text : Bytes) : Prop :=
  ∃ final, yyparseTables session none text = .halt final false

/-- The text is given up right after a text without quotes that an operator ended. -/
def GivesUpAtOperator (session : ExprState) (text : Bytes) : Prop :=
  ∃ final, yyparseTables session none text = .halt final false ∧ final.lex.AtOperator

/-! ## What a parse leaves -/

/-- The scanner kept nothing, or an operator that ended a text; at the end it kept nothing. -/
def YyState.Kept (s : YyState) : Prop :=
  (s.yychar = some none → s.lex.next = none) ∧ (s.lex.next = none ∨ s.lex.AtOperator)

/-- An operator that was kept is taken before anything is kept. -/
theorem yylex_taken {s after : LexState} {token : ExprToken} (lexed : yylex s = some (token, after)) :
    s.next = none ∨ after.next = none := by
  unfold yylex at lexed
  split at lexed
  · obtain ⟨-, rfl⟩ := Prod.mk.inj (Option.some.inj lexed)
    exact .inr rfl
  · exact .inl ‹_›

/-- Reading a token keeps this. -/
theorem YyState.Kept.look {s : YyState} (kept : s.Kept) : s.look.Kept := by
  obtain ⟨ends, operator⟩ := kept
  unfold YyState.look
  split
  · exact ⟨ends, operator⟩
  · split
    · rename_i none_
      exact ⟨fun _ => yylex_end s.lex none_, operator⟩
    · rename_i token lex lexed
      refine ⟨nofun, ?_⟩
      by_cases nothing : lex.next = none
      · exact .inl nothing
      · exact .inr ⟨nothing, s.lex, token, (yylex_taken lexed).resolve_right nothing, lexed⟩

/-- Only the end of the text is taken for the end. -/
theorem yytoken_end {char : Option ExprToken} (ends : yytoken char = 0) : char = none := by
  cases char with
  | none => rfl
  | some token =>
    cases token with
    | element name => cases name <;> cases ends
    | comma | text | number | not | openb | closeb | arop | logop => cases ends

/-- The tokens are less than the symbols. -/
theorem yytoken_lt (char : Option ExprToken) : yytoken char < yyntokens := by
  cases char with
  | none => decide
  | some token =>
    cases token with
    | element name => cases name <;> decide
    | comma | text | number | not | openb | closeb | arop | logop => exact Nat.le_of_ble_eq_true rfl

/-- A reduction leaves the scanner where it is, and accepts nothing. -/
theorem yydefault_kept (session : ExprState) (s : YyState) (kept : s.Kept) :
    (yydefault session s).Ends YyState.Kept fun final accepted =>
      final.Kept ∧ (accepted = true → final.lex.next = none) := by
  unfold yydefault
  split
  · exact ⟨kept, nofun⟩
  · unfold yyreduce
    dsimp only
    split
    · exact kept
    · exact ⟨kept, nofun⟩

/-- A token was read. -/
theorem look_read (s : YyState) : s.look.yychar ≠ none := by
  unfold YyState.look
  split
  · rename_i char there
    rw [there]
    exact Option.some_ne_none _
  · split <;> exact Option.some_ne_none _

/-- A turn keeps what the scanner may have kept, and accepts at the end only. -/
theorem yybackup_kept (session : ExprState) (s : YyState) (kept : s.Kept) (sane : s.Sane) :
    (yybackup session s).Ends YyState.Kept fun final accepted =>
      final.Kept ∧ (accepted = true → final.lex.next = none) := by
  have looked := kept.look
  have still : s.look.Sane := fun state member => sane state ((look_left s).2 ▸ member)
  unfold yybackup
  split
  · exact yydefault_kept session s kept
  · dsimp only
    split
    · exact yydefault_kept session s.look looked
    · exact ⟨looked, nofun⟩
    · rename_i state _ there
      split
      · rename_i final
        rw [final] at there
        have ends := yytoken_end (yyentry_final _ still.top _ (yytoken_lt _) there)
        refine ⟨looked, fun _ => looked.1 ?_⟩
        cases char : s.look.yychar with
        | none => exact absurd char (look_read s)
        | some read =>
          rw [char] at ends
          exact congrArg some ends
      · refine ⟨fun ends => ?_, looked.2⟩
        dsimp only at ends
        split at ends
        · exact looked.1 ends
        · cases ends

/-- A parse leaves an operator only where it gives up, and from a clean scanner only right
after a text that the operator ended. -/
theorem yyparseTables_kept (session : ExprState) (next : Option LexEntry) (text : Bytes)
    (final : YyState) (accepted : Bool)
    (parsed : yyparseTables session next text = .halt final accepted) (clean : next = none) :
    (accepted = true → final.lex.next = none) ∧ (final.lex.next = none ∨ final.lex.AtOperator) := by
  have carried := @run_invariant YyState Unit Bool (fun _ _ => True) (fun s (_ : Unit) => yybackup session s)
    (fun s => YyState.Kept s ∧ YyState.Sane s)
    (fun final accepted => YyState.Kept final ∧ (accepted = true → final.lex.next = none))
    (fun before _ after kept _ goes => by
      have ends := yybackup_kept session before kept.1 kept.2
      rw [goes] at ends
      exact ⟨ends, (yybackup_left session before after kept.2 goes).1⟩)
    (fun before _ after result kept _ goes => by
      have ends := yybackup_kept session before kept.1 kept.2
      rw [goes] at ends
      exact ends)
    { lex := ⟨text, next⟩ } ⟨⟨nofun, .inl clean⟩, fun state member => by
      obtain rfl := List.mem_singleton.mp member
      decide⟩ (List.replicate (5 * (text.length + 2)) ()) (along_of_forall _ _ (fun _ _ => trivial) _ _)
  unfold yyparseTables at parsed
  rw [parsed] at carried
  exact ⟨carried.2, carried.1.2⟩

/-! ## Histories -/

/-- The expression was given up in the history. -/
def GivenUp (texts : Nat → Option Bytes) (history : List Evaluation) (expr : Nat) : Prop :=
  ∃ evaluation ∈ history, evaluation.expr = expr ∧
    ∃ text, texts expr = some text ∧ GivesUp evaluation.session text

/-- No text of the history is given up at an operator. -/
def Calm (texts : Nat → Option Bytes) (history : List Evaluation) : Prop :=
  ∀ evaluation ∈ history, ∀ text, texts evaluation.expr = some text →
    ¬ GivesUpAtOperator evaluation.session text

/-- An evaluation with a clean scanner leaves it clean, unless it gives up at an operator, and
marks the expression that is given up. -/
theorem evaluate_clean (texts : Nat → Option Bytes) (world : ExprWorld) (evaluation : Evaluation)
    (clean : world.next = none)
    (calm : ∀ text, texts evaluation.expr = some text → ¬ GivesUpAtOperator evaluation.session text) :
    (evaluate texts world evaluation).2.next = none ∧
      ∀ expr, ((evaluate texts world evaluation).2.error expr = true ↔ world.error expr = true ∨
        evaluation.expr = expr ∧ ∃ text, texts expr = some text ∧ GivesUp evaluation.session text) := by
  unfold evaluate
  cases there : texts evaluation.expr with
  | none =>
    refine ⟨clean, fun expr => (or_iff_left ?_).symm⟩
    rintro ⟨rfl, text, same, -⟩
    rw [there] at same
    cases same
  | some text =>
    dsimp only
    split
    · rename_i marked
      refine ⟨clean, fun expr => (or_iff_left_of_imp ?_).symm⟩
      rintro ⟨rfl, -⟩
      exact marked
    · obtain ⟨final, accepted, parsed⟩ := yyparseTables_halts evaluation.session none text
      have kept := yyparseTables_kept evaluation.session none text final accepted parsed rfl
      rw [clean, parsed]
      dsimp only
      cases accepted with
      | true =>
        refine ⟨kept.1 rfl, fun expr => (or_iff_left ?_).symm⟩
        rintro ⟨rfl, text', same, final', gives⟩
        obtain rfl := Option.some.inj (there.symm.trans same)
        rw [parsed] at gives
        cases gives
      | false =>
        refine ⟨kept.2.resolve_right fun operator => calm text there ⟨final, parsed, operator⟩,
          fun expr => ?_⟩
        rw [if_neg Bool.false_ne_true]
        by_cases same : expr = evaluation.expr
        · subst same
          rw [Function.update_self]
          exact iff_of_true rfl (.inr ⟨rfl, text, there, final, parsed⟩)
        · rw [Function.update_of_ne same]
          exact (or_iff_left fun other => same other.1.symm).symm

/-- So a calm history leaves the scanner clean, and marks the expressions it gave up. -/
theorem worldAfter_clean (texts : Nat → Option Bytes) (history : List Evaluation)
    (calm : Calm texts history) :
    (worldAfter texts history).next = none ∧
      ∀ expr, ((worldAfter texts history).error expr = true ↔ GivenUp texts history expr) := by
  have general : ∀ (history : List Evaluation) (world : ExprWorld), Calm texts history →
      world.next = none →
      (history.foldl (fun world evaluation => (evaluate texts world evaluation).2) world).next = none ∧
        ∀ expr, ((history.foldl (fun world evaluation => (evaluate texts world evaluation).2) world).error
          expr = true ↔ world.error expr = true ∨ GivenUp texts history expr) := by
    intro history
    induction history with
    | nil =>
      refine fun world _ clean => ⟨clean, fun expr => (or_iff_left ?_).symm⟩
      rintro ⟨evaluation, member, -⟩
      exact absurd member List.not_mem_nil
    | cons evaluation rest later =>
      intro world calm clean
      obtain ⟨next, marked⟩ := evaluate_clean texts world evaluation clean
        (calm evaluation List.mem_cons_self)
      obtain ⟨final, marks⟩ := later (evaluate texts world evaluation).2
        (fun other member => calm other (List.mem_cons_of_mem _ member)) next
      refine ⟨final, fun expr => (marks expr).trans ?_⟩
      rw [marked expr, or_assoc]
      refine or_congr_right ?_
      unfold GivenUp
      rw [List.exists_mem_cons_iff]
  have all := general history {} calm rfl
  exact ⟨all.1, fun expr => (all.2 expr).trans (or_iff_right Bool.false_ne_true)⟩

/-! ## What an operator that was kept does -/

/-- How the scanner stands: clean, or with an operator that can begin an expression, or with
another one. -/
inductive Standing where
  | clean
  | negated
  | opened
  | spoilt
  deriving DecidableEq, Repr

/-- The standing of the scanner. -/
def standing : Option LexEntry → Standing
  | none => .clean
  | some (_, .not) => .negated
  | some (_, .openb) => .opened
  | some _ => .spoilt

/-- The result of an expression that was not given up before. -/
def freshResult (next : Option LexEntry) (session : ExprState) (text : Bytes) : Bool :=
  (evaluate (fun _ => some text) { next := next } ⟨0, session⟩).1

/-- A caller has called. -/
def incomingSession : ExprState := { valid := true }

/-- Three expressions tell the standings apart. -/
theorem freshResult_tells (next : Option LexEntry) (among : ∀ entry ∈ next, entry ∈ exprOperators) :
    freshResult next incomingSession (ascii "Incoming") = decide (standing next = .clean) ∧
      freshResult next incomingSession (ascii "Outgoing") = decide (standing next = .negated) ∧
      freshResult next incomingSession (ascii "Incoming)") = decide (standing next = .opened) := by
  cases next with
  | none => decide
  | some entry =>
    have all : ∀ entry ∈ exprOperators,
        freshResult (some entry) incomingSession (ascii "Incoming") =
          decide (standing (some entry) = .clean) ∧
        freshResult (some entry) incomingSession (ascii "Outgoing") =
          decide (standing (some entry) = .negated) ∧
        freshResult (some entry) incomingSession (ascii "Incoming)") =
          decide (standing (some entry) = .opened) := by
      decide
    exact all entry (among entry rfl)

/-- A parse begins with its first turn. -/
theorem yyparseTables_first (session : ExprState) (next : Option LexEntry) (text : Bytes) :
    yyparseTables session next text = (yybackup session { lex := ⟨text, next⟩ }).andThen fun s =>
      run (fun s (_ : Unit) => yybackup session s) s (List.replicate (5 * text.length + 9) ()) :=
  rfl

/-- The first turn takes the token of an operator that was kept. -/
theorem yybackup_first (session : ExprState) (entry : LexEntry) (text : Bytes) :
    yybackup session { lex := ⟨text, some entry⟩ } =
      yybackup session { yychar := some (some entry.2), lex := ⟨text, none⟩ } :=
  rfl

/-- The standing of the scanner is all that counts. -/
theorem freshResult_standing (left right : Option LexEntry) (same : standing left = standing right)
    (among : ∀ entry ∈ left, entry ∈ exprOperators) (among' : ∀ entry ∈ right, entry ∈ exprOperators)
    (session : ExprState) (text : Bytes) :
    freshResult left session text = freshResult right session text := by
  have tokens : ∀ entry ∈ exprOperators, standing (some entry) ≠ .clean ∧
      (standing (some entry) = .negated → entry.2 = .not) ∧
      (standing (some entry) = .opened → entry.2 = .openb) ∧
      (standing (some entry) = .spoilt → yyentry 0 (yytoken (some entry.2)) = none) := by
    decide
  have spoilt : ∀ entry, yyentry 0 (yytoken (some entry.2)) = none →
      freshResult (some entry) session text = false := by
    intro entry none_
    have stops : yybackup session { lex := ⟨text, some entry⟩ } =
        .halt { yychar := some (some entry.2), lex := ⟨text, none⟩ } false := by
      rw [yybackup_first]
      have shifts : yypact.getD 0 yypactNinf ≠ yypactNinf := by decide
      refine (if_neg shifts).trans ?_
      dsimp only
      split
      · rfl
      · rename_i found
        cases none_.symm.trans found
      · rename_i found
        cases none_.symm.trans found
    unfold freshResult evaluate
    dsimp only
    rw [if_neg Bool.false_ne_true, yyparseTables_first, stops]
    rfl
  have equal : ∀ entry entry' : LexEntry, entry.2 = entry'.2 →
      freshResult (some entry) session text = freshResult (some entry') session text := by
    intro entry entry' token
    unfold freshResult evaluate
    dsimp only
    rw [if_neg Bool.false_ne_true, if_neg Bool.false_ne_true, yyparseTables_first,
      yyparseTables_first, yybackup_first, yybackup_first, token]
    generalize (yybackup session { yychar := some (some entry'.2), lex := ⟨text, none⟩ }).andThen _ = turn
    cases turn <;> rfl
  cases left with
  | none =>
    cases right with
    | none => rfl
    | some entry' => exact absurd same.symm (tokens entry' (among' entry' rfl)).1
  | some entry =>
    obtain ⟨clean, negated, opened, other⟩ := tokens entry (among entry rfl)
    cases right with
    | none => exact absurd same clean
    | some entry' =>
      obtain ⟨clean', negated', opened', other'⟩ := tokens entry' (among' entry' rfl)
      cases stands : standing (some entry) with
      | clean => exact absurd stands clean
      | negated => exact equal _ _ ((negated stands).trans (negated' (same.symm.trans stands)).symm)
      | opened => exact equal _ _ ((opened stands).trans (opened' (same.symm.trans stands)).symm)
      | spoilt =>
        rw [spoilt entry (other stands), spoilt entry' (other' (same.symm.trans stands))]

/-! ## Independence -/

/-- After two histories in which no text is given up at an operator, an expression that was
given up in both or in none has the same result, in every state of the session. The operator
that another history leaves counts by its standing alone, and different standings give some
expression different results. -/
theorem eventexpr_independent (texts : Nat → Option Bytes) :
    (∀ first second : List Evaluation, Calm texts first →
      Calm texts second → ∀ expr, (GivenUp texts first expr ↔ GivenUp texts second expr) →
      ∀ session, (evaluate texts (worldAfter texts first) ⟨expr, session⟩).1 =
        (evaluate texts (worldAfter texts second) ⟨expr, session⟩).1) ∧
    ∀ left right : Option LexEntry, (∀ entry ∈ left, entry ∈ exprOperators) →
      (∀ entry ∈ right, entry ∈ exprOperators) →
      ((∀ session text, freshResult left session text = freshResult right session text) ↔
        standing left = standing right) := by
  constructor
  · intro first second calm calm' expr given session
    obtain ⟨clean, marked⟩ := worldAfter_clean texts first calm
    obtain ⟨clean', marked'⟩ := worldAfter_clean texts second calm'
    have marks : (worldAfter texts first).error expr = (worldAfter texts second).error expr := by
      rw [Bool.eq_iff_iff, marked, marked']
      exact given
    unfold evaluate
    cases texts expr with
    | none => rfl
    | some text =>
      dsimp only
      rw [marks, clean, clean']
      split
      · rfl
      · obtain ⟨final, accepted, parsed⟩ := yyparseTables_halts session none text
        rw [parsed]
  · intro left right among among'
    constructor
    · intro always
      obtain ⟨clean, negated, opened⟩ := freshResult_tells left among
      obtain ⟨clean', negated', opened'⟩ := freshResult_tells right among'
      rw [always, clean', decide_eq_decide] at clean
      rw [always, negated', decide_eq_decide] at negated
      rw [always, opened', decide_eq_decide] at opened
      revert clean negated opened
      cases standing left <;> cases standing right <;> decide
    · exact fun same session text => freshResult_standing left right same among among' session text

/-- An expression, one that ends too early, and one that is given up at an operator. -/
def sampleTexts : Nat → Option Bytes
  | 0 => some (ascii "Incoming")
  | 1 => some (ascii "Outgoing &")
  | 2 => some (ascii "foo&Outgoing")
  | 3 => some (ascii "TZ == 0 | foo")
  | _ => none

/-- A text that ends too early changes nothing. -/
theorem eventexpr_independent_early :
    (evaluate sampleTexts (worldAfter sampleTexts []) ⟨0, incomingSession⟩).1 =
      (evaluate sampleTexts (worldAfter sampleTexts [⟨1, incomingSession⟩]) ⟨0, incomingSession⟩).1 := by
  refine (eventexpr_independent sampleTexts).1 [] [⟨1, incomingSession⟩]
    (fun _ member => absurd member List.not_mem_nil) ?_ 0 ?_ incomingSession
  · intro evaluation member text there
    obtain rfl := List.mem_singleton.mp member
    obtain rfl := Option.some.inj there
    rintro ⟨final, parsed, operator, -⟩
    have ends : (match yyparseTables incomingSession none (ascii "Outgoing &") with
        | .halt final _ => final.lex.next
        | .more s => s.lex.next) = none := by
      decide
    rw [parsed] at ends
    exact operator ends
  · refine iff_of_false (fun ⟨_, member, _⟩ => absurd member List.not_mem_nil) ?_
    rintro ⟨evaluation, member, same, -⟩
    rw [List.mem_singleton.mp member] at same
    cases same

/-- After `foo&Outgoing`, which is given up at the address, `Incoming` is false for a caller
who has called; and an expression that was given up in one state of the session is false in
another, where it was true. -/
theorem eventexpr_dependent :
    ((evaluate sampleTexts (worldAfter sampleTexts []) ⟨0, incomingSession⟩).1 = true ∧
      (evaluate sampleTexts (worldAfter sampleTexts [⟨2, incomingSession⟩]) ⟨0, incomingSession⟩).1 =
        false) ∧
    (evaluate sampleTexts (worldAfter sampleTexts []) ⟨3, {}⟩).1 = true ∧
      (evaluate sampleTexts (worldAfter sampleTexts [⟨3, incomingSession⟩]) ⟨3, {}⟩).1 = false := by
  decide

end Binkleyforce
