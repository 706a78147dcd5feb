import Binkleyforce.Expression.Writing
import Binkleyforce.Library.Runs

/-!
# The generated parser

The parser of `expression.tab.c` is driven by tables. It reads a token where its state needs
one and not before, and where it gives up it leaves the scanner where it stands: the text
is gone, but an operator that ended the last text stays for the next call.
-/

namespace Binkleyforce

open Library

/-- `yypact`. -/
def yypact : List Int :=
  [-4, -33, -33, -33, -33, -33, -32, 15, 17, 18, 19, -9, 22, -5, 25, 26, -4, -4, 31, -2, -33, 28, -33,
    -33, -33, -33, 29, 32, -33, 33, -33, 34, -33, -2, -14, -33, -4, -33, -33, 22, -33, 26, -33, -2, -33,
    -33]

/-- `YYPACT_NINF`. -/
def yypactNinf : Int := -33

/-- `yydefact`. -/
def yydefact : List Nat :=
  [0, 21, 7, 8, 9, 10, 0, 0, 0, 0, 0, 0, 0, 0, 0, 0, 0, 0, 0, 2, 3, 0, 17, 18, 19, 20, 0, 22, 11, 0, 15,
    24, 16, 4, 0, 1, 0, 12, 14, 0, 13, 0, 6, 5, 23, 25]

/-- `yytable`. -/
def yytable : List Nat :=
  [1, 21, 2, 3, 4, 5, 6, 7, 8, 9, 10, 11, 12, 13, 14, 15, 33, 34, 42, 22, 36, 23, 24, 25, 26, 16, 27, 17,
    29, 30, 31, 35, 36, 37, 38, 39, 43, 41, 40, 0, 44, 0, 0, 45]

/-- `yycheck`. -/
def yycheck : List Int :=
  [4, 33, 6, 7, 8, 9, 10, 11, 12, 13, 14, 15, 16, 17, 18, 19, 16, 17, 32, 4, 34, 4, 4, 4, 33, 29, 4, 31,
    33, 4, 4, 0, 34, 5, 5, 3, 36, 3, 5, -1, 39, -1, -1, 41]

/-- `yyr1`. -/
def yyr1 : List Nat :=
  [0, 35, 36, 37, 37, 37, 37, 38, 38, 38, 38, 38, 38, 38, 38, 38, 38, 38, 38, 38, 38, 38, 39, 39, 40, 40]

/-- `yyr2`. -/
def yyr2 : List Nat :=
  [0, 2, 1, 1, 2, 3, 3, 1, 1, 1, 1, 2, 3, 3, 3, 2, 2, 2, 2, 2, 2, 1, 1, 3, 1, 3]

/-- `yypgoto`. -/
def yypgoto : List Int := [-33, -33, 0, -33, 1, 2]

/-- `yydefgoto`. The first entry, -1, is for the symbol of the whole. -/
def yydefgoto : List Nat := [0, 18, 19, 20, 28, 32]

/-- `YYFINAL`. -/
def yyfinal : Nat := 35

/-- `YYNTOKENS`. -/
def yyntokens : Nat := 35

/-- The number of an element's name among the tokens. -/
def ElementName.number : ElementName → Nat
  | .incoming => 6
  | .outgoing => 7
  | .listed => 8
  | .protected_ => 9
  | .connspeed => 10
  | .exec => 11
  | .exist => 12
  | .port => 13
  | .mailer => 14
  | .tz => 15
  | .flag => 16
  | .speed => 17
  | .phone => 18
  | .time => 19
  | .address => 20

/-- The code of a comparison. -/
def Arop.code : Arop → Int
  | .eq => 276
  | .ne => 277
  | .gt => 278
  | .ge => 279
  | .lt => 280
  | .le => 281

/-- The code of a logical operator. -/
def Logop.code : Logop → Int
  | .and => 282
  | .or => 283
  | .xor => 285

/-- `YYTRANSLATE` of a token, zero at the end. -/
def yytoken : Option ExprToken → Nat
  | none => 0
  | some .comma => 3
  | some (.text _) => 4
  | some (.number _) => 5
  | some (.element name) => name.number
  | some .not => 29
  | some .openb => 31
  | some .closeb => 32
  | some (.arop _) => 33
  | some (.logop _) => 34

/-- `yylval`. -/
def yylval : ExprToken → Int
  | .comma => 258
  | .text _ => textValue
  | .number value => value
  | .element name => 255 + name.number
  | .not => 284
  | .openb => 286
  | .closeb => 287
  | .arop op => op.code
  | .logop op => op.code

/-- The parser: `yyss` and `yyvs` from the top down, `yychar` where a token was read, the
scanner, `expr_p_text` and `expr_result`. -/
structure YyState where
  yyss : List Nat := [0]
  yyvs : List Int := []
  yychar : Option (Option ExprToken) := none
  lex : LexState
  text : Bytes := []
  result : Int := 0
  deriving DecidableEq

/-- `expr_p_text` after a call of `yylex`: only a text moves it. -/
def exprPText (s : LexState) (before : Bytes) : Bytes :=
  match s.next, s.pos.dropWhile isspace with
  | none, char :: rest =>
    if ((matchEntry exprOperators (char :: rest)).or (matchEntry exprElements (char :: rest))).isSome then
      before
    else if char = 34 then rest.takeWhile (· ≠ 34)
    else char :: (bareText rest).1
  | _, _ => before

/-- A token is read, if none is there. At the end the scanner stays where it is. -/
def YyState.look (s : YyState) : YyState :=
  match s.yychar with
  | some _ => s
  | none =>
    match yylex s.lex with
    | none => { s with yychar := some none }
    | some (token, lex) => { s with yychar := some (some token), lex := lex, text := exprPText s.lex s.text }

/-- The comparison of a code. -/
def aropOf (code : Int) : Option Arop := [Arop.eq, .ne, .gt, .ge, .lt, .le].find? (·.code == code)

/-- The logical operator of a code. -/
def logopOf (code : Int) : Option Logop := [Logop.and, .or, .xor].find? (·.code == code)

/-- `expr_check_logic`, with the code of its operator. -/
def checkLogic (e1 op e2 : Int) : Int := ((logopOf op).map (exprCheckLogic e1 · e2)).getD 0

/-- A comparison of an element, with the code of its operator. -/
def checkCompare (session : ExprState) (name : ElementName) (op number : Int) : Option Int :=
  match aropOf op with
  | some op => (ElemExp.compare name op number).value session
  | none => some 0

/-- The action of a rule, over the values from the top down; there is none at `YYABORT`. -/
def yyaction (session : ExprState) (rule : Nat) (text : Bytes) (yyvs : List Int) : Option Int :=
  match rule, yyvs with
  | 4, v :: _ => some (if v < 0 then 0 else boolInt (v = 0))
  | 5, e2 :: op :: e1 :: _ => some (checkLogic e1 op e2)
  | 6, _ :: v :: _ => some v
  | 7, _ => (ElemExp.plain .incoming).value session
  | 8, _ => (ElemExp.plain .outgoing).value session
  | 9, _ => (ElemExp.plain .listed).value session
  | 10, _ => (ElemExp.plain .protected_).value session
  | 11, v :: _ => some v
  | 12, number :: op :: _ => checkCompare session .connspeed op number
  | 13, number :: op :: _ => checkCompare session .speed op number
  | 14, number :: op :: _ => checkCompare session .tz op number
  | 15, _ => (ElemExp.single .phone text).value session
  | 16, v :: _ => some v
  | 17, _ => (ElemExp.single .exec text).value session
  | 18, _ => (ElemExp.single .exist text).value session
  | 19, _ => (ElemExp.single .port text).value session
  | 20, _ => (ElemExp.single .mailer text).value session
  | 21, _ => (ElemExp.address text).value session
  | 22, _ => (ElemExp.several .flag text []).value session
  | 23, e2 :: _ :: e1 :: _ => some (exprCheckLogic e1 .or e2)
  | 24, _ => (ElemExp.several .time text []).value session
  | 25, e2 :: _ :: e1 :: _ => some (exprCheckLogic e1 .or e2)
  | _, v :: _ => some v
  | _, [] => some 0

/-- The state after a reduction, from the state below. -/
def yygoto (symbol below : Nat) : Nat :=
  let place := yypgoto.getD (symbol - yyntokens) 0 + below
  if 0 ≤ place ∧ yycheck.getD place.toNat (-1) = below then yytable.getD place.toNat 0
  else yydefgoto.getD (symbol - yyntokens) 0

/-- `yyreduce`. -/
def yyreduce (session : ExprState) (s : YyState) (rule : Nat) : Turn YyState Bool :=
  let yylen := yyr2.getD rule 0
  match yyaction session rule s.text s.yyvs, s.yyss.drop yylen with
  | some value, below :: rest =>
    .more { s with
      yyss := yygoto (yyr1.getD rule 0) below :: below :: rest
      yyvs := value :: s.yyvs.drop yylen
      result := if rule = 2 then value else s.result }
  | _, _ => .halt s false

/-- `yydefault`. -/
def yydefault (session : ExprState) (s : YyState) : Turn YyState Bool :=
  match yydefact.getD (s.yyss.headD 0) 0 with
  | 0 => .halt s false
  | rule => yyreduce session s rule

/-- What the table says for a state and a token, where it says something. -/
def yyentry (state token : Nat) : Option Nat :=
  let place := yypact.getD state yypactNinf + token
  if 0 ≤ place ∧ yycheck.getD place.toNat (-1) = token then some (yytable.getD place.toNat 0) else none

/-- `yybackup`: one shift or one reduction. A token that is the end is not discarded. -/
def yybackup (session : ExprState) (s : YyState) : Turn YyState Bool :=
  if yypact.getD (s.yyss.headD 0) yypactNinf = yypactNinf then yydefault session s
  else
    let s := s.look
    let char := s.yychar.join
    match yyentry (s.yyss.headD 0) (yytoken char) with
    | none => yydefault session s
    | some 0 => .halt s false
    | some state =>
      if state = yyfinal then .halt s true
      else
        .more { s with
          yyss := state :: s.yyss
          yyvs := (char.map yylval).getD 0 :: s.yyvs
          yychar := if char = none then s.yychar else none }

/-! ## The parser comes to an end -/

/-- The weight of a state, by the symbol it stands for: a token weighs most, and what it is
reduced to less. -/
def yyweight (state : Nat) : Nat :=
  if state ∈ [0, 18, 35] then 1
  else if state ∈ [19, 33, 34, 43] then 2
  else if state ∈ [20, 28, 32, 44, 45] then 3
  else 4

/-- The tokens that can still come, by the characters left. -/
def LexState.left (s : LexState) : Nat := s.pos.length + s.next.isSome.toNat

/-- What is left of a run. -/
def YyState.left (s : YyState) : Nat :=
  5 * (s.lex.left + s.yychar.join.isSome.toNat) + (s.yyss.map yyweight).sum

/-- `yyparse`, where `next` is left from a text that was given up before. -/
def yyparseTables (session : ExprState) (next : Option LexEntry) (text : Bytes) :
    Turn YyState Bool :=
  run (fun s (_ : Unit) => yybackup session s) { lex := ⟨text, next⟩ }
    (List.replicate (5 * (text.length + 2)) ())

/-- The tables have states of the parser only. -/
theorem tables_states : (∀ state ∈ yytable, state < 46) ∧ ∀ state ∈ yydefgoto, state < 46 := by
  decide

/-- An entry of a table, or the default. -/
theorem getD_lt (table : List Nat) (bound place : Nat) (within : ∀ entry ∈ table, entry < bound)
    (positive : 0 < bound) : table.getD place 0 < bound := by
  rw [List.getD_eq_getElem?_getD]
  cases found : table[place]? with
  | none => exact positive
  | some entry => exact within entry (List.mem_of_getElem? found)

/-- So are the states that are gone to. -/
theorem yygoto_lt (symbol below : Nat) : yygoto symbol below < 46 := by
  unfold yygoto
  dsimp only
  split
  · exact getD_lt yytable 46 _ tables_states.1 (by decide)
  · exact getD_lt yydefgoto 46 _ tables_states.2 (by decide)

/-- A reduction by default takes away more than it adds. -/
theorem yygoto_weight : ∀ state < 46, yydefact.getD state 0 ≠ 0 → ∀ below < 46,
    yyweight (yygoto (yyr1.getD (yydefact.getD state 0) 0) below) + 1 <
      yyweight state + yyr2.getD (yydefact.getD state 0) 0 ∧
    0 < yyr2.getD (yydefact.getD state 0) 0 := by
  decide +kernel

/-- Only at the end is the text accepted. -/
theorem yyentry_final : ∀ state < 46, ∀ token < yyntokens, yyentry state token = some yyfinal →
    token = 0 := by
  decide

/-- At the end a state can only accept. -/
theorem yyentry_end : ∀ state < 46, ∀ next, yyentry state 0 = some next → next = 0 ∨ next = yyfinal := by
  have bounded : ∀ state < 46, yyentry state 0 = none ∨ yyentry state 0 = some 0 ∨
      yyentry state 0 = some yyfinal := by
    decide
  intro state within next there
  rcases bounded state within with none_ | zero | final
  · rw [none_] at there
    cases there
  · exact .inl (Option.some.inj (there.symm.trans zero))
  · exact .inr (Option.some.inj (there.symm.trans final))

/-- What a text without quotes leaves. -/
theorem bareText_left (text : Bytes) :
    (bareText text).2.1.length ≤ text.length ∧
      ((bareText text).2.2 ≠ none → (bareText text).2.1 ≠ []) := by
  induction text with
  | nil => exact ⟨Nat.le_refl _, fun some_ => absurd rfl some_⟩
  | cons char rest later =>
    unfold bareText
    split
    · exact ⟨Nat.le_refl _, fun some_ => absurd rfl some_⟩
    · split
      · exact ⟨Nat.le_refl _, fun _ => List.cons_ne_nil _ _⟩
      · exact ⟨Nat.le_succ_of_le later.1, later.2⟩

/-- The place after a text. -/
theorem afterText_left (left : Bytes) (next : Option LexEntry) (filled : left ≠ []) :
    (afterText left next).length + 1 ≤ left.length := by
  have positive := List.length_pos_of_ne_nil filled
  unfold afterText
  cases next with
  | none =>
    rw [List.length_drop]
    omega
  | some entry =>
    dsimp only
    rw [List.length_drop]
    split <;> omega

/-- A token takes something of the text. -/
theorem yylex_left (s after : LexState) (token : ExprToken) (lexed : yylex s = some (token, after)) :
    after.left < s.left := by
  unfold yylex at lexed
  split at lexed
  · rename_i entry next
    obtain ⟨-, rfl⟩ := Prod.mk.inj (Option.some.inj lexed)
    unfold LexState.left
    rw [next]
    exact Nat.lt_succ_self _
  · rename_i next
    have blanks := (List.dropWhile_suffix (l := s.pos) isspace).length_le
    split at lexed
    · cases lexed
    · rename_i char rest here
      rw [here, List.length_cons] at blanks
      have less : after.left ≤ rest.length → after.left < s.left := by
        intro short
        unfold LexState.left at short ⊢
        omega
      apply less
      split at lexed
      · rename_i entry found
        obtain ⟨-, rfl⟩ := Prod.mk.inj (Option.some.inj lexed)
        have long : 0 < entry.1.length := by
          rcases Option.or_eq_some_iff.mp found with first | ⟨-, second⟩
          · exact entries_begin.2.2 entry (List.mem_append_left _ (List.mem_of_find?_eq_some first))
          · exact entries_begin.2.2 entry (List.mem_append_right _ (List.mem_of_find?_eq_some second))
        unfold LexState.left
        rw [List.length_drop, List.length_cons]
        change rest.length + 1 - entry.1.length + 0 ≤ rest.length
        omega
      · have same := Option.some.inj lexed
        unfold lexText at same
        dsimp only at same
        split at same
        · obtain ⟨-, rfl⟩ := Prod.mk.inj same
          have inside := (List.dropWhile_suffix (l := rest) (· ≠ 34)).length_le
          unfold LexState.left
          rw [List.length_drop]
          change _ - 1 + 0 ≤ _
          omega
        · obtain ⟨-, rfl⟩ := Prod.mk.inj same
          obtain ⟨within, filled⟩ := bareText_left rest
          generalize bareText rest = found at within filled
          obtain ⟨text, left, next⟩ := found
          dsimp only at within filled ⊢
          cases next with
          | none =>
            change (left.drop 1).length + 0 ≤ rest.length
            rw [List.length_drop]
            omega
          | some entry =>
            have short := afterText_left left (some entry) (filled (Option.some_ne_none _))
            change (afterText left (some entry)).length + 1 ≤ rest.length
            omega

/-- The scanner is at the end where no token is. -/
theorem yylex_end (s : LexState) (ends : yylex s = none) : s.next = none := by
  unfold yylex at ends
  split at ends
  · cases ends
  · assumption

/-- Reading a token takes nothing from what is left of a run. -/
theorem look_left (s : YyState) : s.look.left ≤ s.left ∧ s.look.yyss = s.yyss := by
  unfold YyState.look
  split
  · exact ⟨Nat.le_refl _, rfl⟩
  · rename_i empty
    split
    · refine ⟨Nat.le_of_eq ?_, rfl⟩
      unfold YyState.left
      rw [empty]
      rfl
    · rename_i token lex lexed
      refine ⟨?_, rfl⟩
      have less := yylex_left s.lex lex token lexed
      unfold YyState.left
      rw [empty]
      change 5 * (lex.left + 1) + (s.yyss.map yyweight).sum ≤
        5 * (s.lex.left + 0) + (s.yyss.map yyweight).sum
      omega

/-- The states of the parser. -/
def YyState.Sane (s : YyState) : Prop := ∀ state ∈ s.yyss, state < 46

/-- The top of the states is one of them. -/
theorem YyState.Sane.top {s : YyState} (sane : s.Sane) : s.yyss.headD 0 < 46 := by
  cases states : s.yyss with
  | nil => exact Nat.zero_lt_succ _
  | cons top rest => exact sane top (states ▸ List.mem_cons_self)

/-- The weights of states that are taken away. -/
theorem sum_drop (states : List Nat) (count : Nat) (within : count ≤ states.length) :
    ((states.drop count).map yyweight).sum + count ≤ (states.map yyweight).sum := by
  induction states generalizing count with
  | nil =>
    obtain rfl := Nat.le_zero.mp within
    exact Nat.le_refl _
  | cons state rest later =>
    cases count with
    | zero => exact Nat.le_refl _
    | succ count =>
      have weight : 1 ≤ yyweight state := by
        unfold yyweight
        split
        · exact Nat.le_refl _
        · split
          · decide
          · split <;> decide
      have more := later count (Nat.le_of_succ_le_succ within)
      rw [List.drop_succ_cons, List.map_cons, List.sum_cons]
      omega

/-- A reduction by default goes on with less, in the states of the parser. -/
theorem yydefault_left (session : ExprState) (s after : YyState) (sane : s.Sane)
    (goes : yydefault session s = .more after) : after.Sane ∧ after.left < s.left := by
  have top := sane.top
  unfold yydefault at goes
  split at goes
  · cases goes
  · rename_i rule same
    unfold yyreduce at goes
    dsimp only at goes
    split at goes
    · rename_i value below rest _ popped
      obtain rfl := Turn.more.inj goes
      have member : below ∈ s.yyss := List.mem_of_mem_drop (popped ▸ List.mem_cons_self)
      have weights := yygoto_weight (s.yyss.headD 0) top same below (sane below member)
      refine ⟨fun state among => ?_, ?_⟩
      · rcases List.mem_cons.mp among with rfl | kept
        · exact yygoto_lt _ _
        · exact sane state (List.mem_of_mem_drop (popped ▸ kept))
      · cases states : s.yyss with
        | nil =>
          rw [states] at member
          exact absurd member List.not_mem_nil
        | cons state more =>
          obtain ⟨less, positive⟩ := weights
          rw [states, List.headD_cons] at less positive popped same
          obtain ⟨count, long⟩ := Nat.exists_eq_succ_of_ne_zero positive.ne'
          rw [long, List.drop_succ_cons] at popped
          have within : count ≤ more.length := by
            have filled := congrArg List.length popped
            rw [List.length_drop, List.length_cons] at filled
            omega
          have taken := sum_drop more count within
          rw [popped] at taken
          unfold YyState.left
          simp only [states, List.headD_cons, List.map_cons, List.sum_cons] at taken ⊢
          omega
    · cases goes

/-- So does every turn. -/
theorem yybackup_left (session : ExprState) (s after : YyState) (sane : s.Sane)
    (goes : yybackup session s = .more after) : after.Sane ∧ after.left < s.left := by
  obtain ⟨looked, same⟩ := look_left s
  have still : s.look.Sane := fun state member => sane state (same ▸ member)
  unfold yybackup at goes
  split at goes
  · exact yydefault_left session s after sane goes
  · dsimp only at goes
    split at goes
    · obtain ⟨kept, less⟩ := yydefault_left session s.look after still goes
      exact ⟨kept, Nat.lt_of_lt_of_le less looked⟩
    · cases goes
    · rename_i state other there
      split at goes
      · cases goes
      · rename_i further
        obtain rfl := Turn.more.inj goes
        have known : state < 46 := by
          unfold yyentry at there
          dsimp only at there
          split at there
          · exact Option.some.inj there ▸ getD_lt yytable 46 _ tables_states.1 (by decide)
          · cases there
        refine ⟨fun entry among => ?_, ?_⟩
        · rcases List.mem_cons.mp among with rfl | kept
          · exact known
          · exact still entry kept
        · have heavy : yyweight state ≤ 4 := by
            unfold yyweight
            split
            · decide
            · split
              · decide
              · split <;> decide
          cases char : s.look.yychar.join with
          | none =>
            rw [char] at there
            rcases yyentry_end _ still.top state there with zero | final
            · exact absurd zero other
            · exact absurd final further
          | some token =>
            refine Nat.lt_of_lt_of_le ?_ looked
            unfold YyState.left
            rw [char, if_neg (Option.some_ne_none token)]
            change 5 * (s.look.lex.left + 0) + (yyweight state + (s.look.yyss.map yyweight).sum) <
              5 * (s.look.lex.left + 1) + (s.look.yyss.map yyweight).sum
            omega

/-- The parser accepts a text or gives it up. -/
theorem yyparseTables_halts (session : ExprState) (next : Option LexEntry) (text : Bytes) :
    ∃ final accepted, yyparseTables session next text = .halt final accepted := by
  refine run_halts YyState.Sane YyState.left
    (fun before _ after sane goes => yybackup_left session before after sane goes) _ ?_ _ ?_
  · intro state member
    obtain rfl := List.mem_singleton.mp member
    decide
  · rw [List.length_replicate]
    unfold YyState.left LexState.left
    cases next <;> simp [yyweight] <;> omega

end Binkleyforce
