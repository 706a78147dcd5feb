import Binkleyforce.Daemon.Systems
import Binkleyforce.Expression.Grammar

/-!
# The values of expressions

The actions of the parser compute a number for each node: one for true, zero for false, -1
where something is not known yet, and -2 where the element is invalid, at which the parser
gives up. Beside them stands what an expression means.
-/

namespace Binkleyforce

/-- What the elements look at: the session, and the system outside. `timeCheck` is
`time_check` at the present time, and a null mailer or terminal is `none`. -/
structure ExprState where
  valid : Bool := false
  caller : Bool := false
  protected_ : Bool := false
  connspeed : Int := 0
  inet : Bool := false
  modemport : Option Bytes := none
  node : Node := { addr := {} }
  speed : Int := 0
  mailer : Option (Option Bytes) := none
  tty : Option Bytes := none
  gmtoffset : Int := 0
  timeCheck : Bytes → Int := fun _ => 0
  run : Bytes → Int := fun _ => 0
  exists_ : Bytes → Bool := fun _ => false

/-- `ftn_addrcomp_mask(addr, mask) == 0`. -/
def ftnAddrcompMask (addr mask : Faddr) : Bool :=
  (addr.zone == mask.zone || mask.zone == -1) && (addr.net == mask.net || mask.net == -1) &&
    (addr.node == mask.node || mask.node == -1) && (addr.point == mask.point || mask.point == -1)

/-- A condition as the number it is in C. -/
def boolInt (holds : Bool) : Int := if holds then 1 else 0

/-- The comparison. -/
def Arop.compare (op : Arop) (num1 num2 : Int) : Bool :=
  match op with
  | .eq => num1 = num2
  | .ne => num1 ≠ num2
  | .gt => num2 < num1
  | .ge => num2 ≤ num1
  | .lt => num1 < num2
  | .le => num1 ≤ num2

/-- `expr_check_arop`. -/
def exprCheckArop (num1 : Int) (op : Arop) (num2 : Int) : Int := boolInt (op.compare num1 num2)

/-- `expr_check_logic`. -/
def exprCheckLogic (e1 : Int) (op : Logop) (e2 : Int) : Int :=
  let e1 := if e1 < 0 then 0 else e1
  let e2 := if e2 < 0 then 0 else e2
  match op with
  | .and => boolInt (e1 ≠ 0 && e2 ≠ 0)
  | .or => boolInt (e1 ≠ 0 || e2 ≠ 0)
  | .xor => (e1.toNat ^^^ e2.toNat : Nat)

/-- The element looks for a text in another. -/
def found (text inside : Bytes) : Int := boolInt (strstr text inside).isSome

/-- `expr_check_phone`. -/
def exprCheckPhone (state : ExprState) (phone : Bytes) : Int :=
  if state.valid then found phone state.node.phone else 0

/-- `expr_check_flag`. -/
def exprCheckFlag (state : ExprState) (str : Bytes) : Int :=
  if state.valid then boolInt (nodelistCheckflag str state.node.flags true) else 0

/-- `expr_check_exec`. -/
def exprCheckExec (state : ExprState) (str : Bytes) : Int := boolInt (state.run str = 0)

/-- `expr_check_exist`: `access` returns zero for a file that exists. -/
def exprCheckExist (state : ExprState) (str : Bytes) : Int :=
  let access : Int := if state.exists_ str then 0 else -1
  boolInt (access ≠ 0)

/-- `expr_check_port`. -/
def exprCheckPort (state : ExprState) (str : Bytes) : Int :=
  if !state.valid then -1
  else if strcasecmp str (ascii "tcpip") then boolInt state.inet
  else
    match state.modemport, state.tty with
    | some name, _ => found str name
    | none, some name => found str name
    | none, none => -1

/-- `expr_check_mailer`. -/
def exprCheckMailer (state : ExprState) (str : Bytes) : Int :=
  if !state.valid then -1
  else
    match state.mailer with
    | some mailer => boolInt (mailer.any (stringCasestr · str))
    | none => -1

/-- `expr_check_addr`. -/
def exprCheckAddr (state : ExprState) (str : Bytes) : Int :=
  if !state.valid then -1
  else
    match ftnAddrparse str true with
    | some addr => boolInt (ftnAddrcompMask state.node.addr addr)
    | none => -2

/-- `expr_check_time`. -/
def exprCheckTime (state : ExprState) (str : Bytes) : Int :=
  if state.timeCheck str = -1 then -2 else boolInt (state.timeCheck str = 0)

/-- The value of the token `TEXT` itself, which is not zero. -/
def textValue : Int := 259

/-- `flagstring` and `timestring`: what stands for a text before a comma is the value of its
token. -/
def listValue (check : Bytes → Int) (first : Bytes) : List Bytes → Option Int
  | [] => if check first = -2 then none else some (check first)
  | second :: rest => (listValue check second rest).map (exprCheckLogic textValue .or)

/-- The value of an element, unless the parser gives up. -/
def ElemExp.value (state : ExprState) : ElemExp → Option Int
  | .plain .incoming => some (if state.valid then boolInt !state.caller else -1)
  | .plain .outgoing => some (if state.valid then boolInt state.caller else -1)
  | .plain .listed =>
    some (if state.valid && state.node.addr.zone ≠ 0 then boolInt state.node.listed else -1)
  | .plain _ =>
    some (if state.valid && state.node.addr.zone ≠ 0 then boolInt state.protected_ else -1)
  | .compare .connspeed op number =>
    some (if state.valid && 0 < state.connspeed then exprCheckArop state.connspeed op number else -1)
  | .compare .speed op number =>
    some (if state.valid && 0 < state.speed then exprCheckArop state.speed op number else -1)
  | .compare _ op number => some (exprCheckArop state.gmtoffset op number)
  | .single .phone text => some (exprCheckPhone state text)
  | .single .exec text => some (exprCheckExec state text)
  | .single .exist text => some (exprCheckExist state text)
  | .single .port text => some (exprCheckPort state text)
  | .single _ text => some (exprCheckMailer state text)
  | .several .flag first rest => listValue (exprCheckFlag state) first rest
  | .several _ first rest => listValue (exprCheckTime state) first rest
  | .address text =>
    if exprCheckAddr state text = -2 then none else some (exprCheckAddr state text)

/-- The value of an expression. -/
def Expression.value (state : ExprState) : Expression → Option Int
  | .elemexp element => element.value state
  | .not operand => (operand.value state).map fun value => if value < 0 then 0 else boolInt (value = 0)
  | .logic left op right =>
    (left.value state).bind fun e1 => (right.value state).map fun e2 => exprCheckLogic e1 op e2
  | .brackets inner => inner.value state

/-- `s_expr`. -/
structure Expr where
  expr : Option Bytes := none
  error : Bool := false

/-- `eventexpr`, where `next` is left from a text that was given up before. -/
def eventexpr (state : ExprState) (next : Option LexEntry) (expr : Expr) : Bool :=
  match expr.expr with
  | none => true
  | some text =>
    if expr.error then false
    else ((yyparse (exprTokens next text)).bind (Expression.value state)) = some 1

/-! ## What an expression means -/

/-- An item of a list matches. -/
def itemMatches (state : ExprState) (name : ElementName) (text : Bytes) : Bool :=
  match name with
  | .flag => state.valid && nodelistCheckflag text state.node.flags true
  | _ => state.timeCheck text = 0

/-- What an element means, where that is known. -/
def ElemExp.means (state : ExprState) : ElemExp → Option Bool
  | .plain .incoming => if state.valid then some !state.caller else none
  | .plain .outgoing => if state.valid then some state.caller else none
  | .plain .listed => if state.valid && state.node.addr.zone ≠ 0 then some state.node.listed else none
  | .plain _ => if state.valid && state.node.addr.zone ≠ 0 then some state.protected_ else none
  | .compare .connspeed op number =>
    if state.valid && 0 < state.connspeed then some (op.compare state.connspeed number) else none
  | .compare .speed op number =>
    if state.valid && 0 < state.speed then some (op.compare state.speed number) else none
  | .compare _ op number => some (op.compare state.gmtoffset number)
  | .single .phone text => some (state.valid && (strstr text state.node.phone).isSome)
  | .single .exec text => some (state.run text = 0)
  | .single .exist text => some (state.exists_ text)
  | .single .port text =>
    if !state.valid then none
    else if strcasecmp text (ascii "tcpip") then some state.inet
    else (state.modemport.or state.tty).map fun name => (strstr text name).isSome
  | .single _ text =>
    if state.valid then state.mailer.map fun mailer => mailer.any (stringCasestr · text) else none
  | .several name first rest => some ((first :: rest).any (itemMatches state name))
  | .address text =>
    if state.valid then (ftnAddrparse text true).map (ftnAddrcompMask state.node.addr) else none

/-- What an operator says of two truth values. -/
def Logop.apply (op : Logop) (left right : Bool) : Bool :=
  match op with
  | .and => left && right
  | .or => left || right
  | .xor => left != right

/-- What an expression means. An operand that is not known counts as false, and its
negation is false too. -/
def Expression.means (state : ExprState) : Expression → Option Bool
  | .elemexp element => element.means state
  | .not operand => some ((operand.means state).any (!·))
  | .logic left op right =>
    some (op.apply ((left.means state).getD false) ((right.means state).getD false))
  | .brackets inner => inner.means state

/-- The element is one that can be checked: an address is an address, and a time a time. -/
def ElemExp.sound (state : ExprState) : ElemExp → Bool
  | .several .time first rest => (first :: rest).all fun text => state.timeCheck text ≠ -1
  | .address text => !state.valid || (ftnAddrparse text true).isSome
  | _ => true

/-- All elements can be checked. An expression where one cannot is false. -/
def Expression.sound (state : ExprState) : Expression → Bool
  | .elemexp element => element.sound state
  | .not operand => operand.sound state
  | .logic left _ right => left.sound state && right.sound state
  | .brackets inner => inner.sound state

/-- The truth of an expression. -/
def Expression.holds (state : ExprState) (tree : Expression) : Bool :=
  tree.sound state && (tree.means state).getD false

/-- The truth of two values alone, where what is not known is false. -/
def Expression.truth (state : ExprState) : Expression → Bool
  | .elemexp element => (element.means state).getD false
  | .not operand => !operand.truth state
  | .logic left op right => op.apply (left.truth state) (right.truth state)
  | .brackets inner => inner.truth state

/-- What is negated is known. -/
def Expression.negatesKnown (state : ExprState) : Expression → Bool
  | .elemexp _ => true
  | .not operand => (operand.means state).isSome && operand.negatesKnown state
  | .logic left _ right => left.negatesKnown state && right.negatesKnown state
  | .brackets inner => inner.negatesKnown state

/-- Only a negation sets what is not known apart from what is false. -/
theorem means_truth (state : ExprState) (tree : Expression) (known : tree.negatesKnown state = true) :
    (tree.means state).getD false = tree.truth state := by
  induction tree with
  | elemexp element => rfl
  | not operand inner =>
    obtain ⟨here, later⟩ := Bool.and_eq_true_iff.mp known
    obtain ⟨truth, means⟩ := Option.isSome_iff_exists.mp here
    have same := inner later
    rw [means, Option.getD_some] at same
    unfold Expression.means Expression.truth
    rw [means, ← same]
    rfl
  | logic left op right first second =>
    obtain ⟨here, there⟩ := Bool.and_eq_true_iff.mp known
    unfold Expression.means Expression.truth
    rw [Option.getD_some, first here, second there]
  | brackets inner hypothesis => exact hypothesis known

/-! ## Where the values are what is meant -/

/-- The element is not one whose action misses what it means: the test for a file, and a
list of more than one text. -/
def ElemExp.kept : ElemExp → Bool
  | .single .exist _ => false
  | .several _ _ rest => rest.isEmpty
  | _ => true

/-- No element is one of these. -/
def Expression.kept : Expression → Bool
  | .elemexp element => element.kept
  | .not operand => operand.kept
  | .logic left _ right => left.kept && right.kept
  | .brackets inner => inner.kept

/-- A truth value as the number for it. -/
def truthInt : Option Bool → Int
  | some holds => boolInt holds
  | none => -1

/-- The number of a truth value, cut at zero. -/
theorem truthInt_counts (truth : Option Bool) :
    (if truthInt truth < 0 then 0 else truthInt truth) = boolInt (truth.getD false) := by
  rcases truth with _ | _ | _ <;> rfl

/-- The operators compute what they say. -/
theorem exprCheckLogic_truth (left right : Option Bool) (op : Logop) :
    exprCheckLogic (truthInt left) op (truthInt right) =
      boolInt (op.apply (left.getD false) (right.getD false)) := by
  unfold exprCheckLogic
  rw [truthInt_counts, truthInt_counts]
  cases op <;> cases left.getD false <;> cases right.getD false <;> rfl

/-- A truth value is not the number of an invalid element. -/
theorem truthInt_valid (truth : Option Bool) : truthInt truth ≠ -2 := by
  rcases truth with _ | _ | _ <;> decide

/-- A known number, or -1. -/
theorem truthInt_if (known : Prop) [Decidable known] (holds : Bool) :
    (if known then boolInt holds else -1) = truthInt (if known then some holds else none) := by
  split <;> rfl

/-- An element that is kept has the value of what it means; one that cannot be checked
makes the parser give up. -/
theorem ElemExp.value_means (state : ExprState) (element : ElemExp) (kept : element.kept = true)
    (formed : element.Formed) :
    element.value state =
      if element.sound state then some (truthInt (element.means state)) else none := by
  cases element with
  | plain name =>
    cases name <;> first
      | (cases formed; done)
      | exact congrArg some (truthInt_if _ _)
  | compare name op number =>
    cases name <;> first
      | (cases formed; done)
      | exact congrArg some (truthInt_if _ _)
      | rfl
  | single name text =>
    cases name <;> first | (cases formed; done) | (cases kept; done) | skip
    · change some (if state.valid = true then boolInt _ else 0) = some (boolInt _)
      cases state.valid <;> rfl
    · rfl
    · change some (exprCheckPort state text) = some (truthInt _)
      unfold exprCheckPort ElemExp.means
      dsimp only
      cases state.valid with
      | false => rfl
      | true =>
        cases strcasecmp text (ascii "tcpip") with
        | true => rfl
        | false => cases state.modemport <;> cases state.tty <;> rfl
    · change some (exprCheckMailer state text) = some (truthInt _)
      unfold exprCheckMailer ElemExp.means
      dsimp only
      cases state.valid with
      | false => rfl
      | true => cases state.mailer <;> rfl
  | several name first rest =>
    obtain rfl := List.isEmpty_iff.mp kept
    cases name <;> first | (cases formed; done) | skip
    · change (if exprCheckTime state first = -2 then none else some (exprCheckTime state first)) = _
      unfold exprCheckTime ElemExp.means ElemExp.sound itemMatches
      by_cases invalid : state.timeCheck first = -1
      · simp [invalid]
      · by_cases now : state.timeCheck first = 0 <;> simp [now, invalid, boolInt, truthInt]
    · change (if exprCheckFlag state first = -2 then none else some (exprCheckFlag state first)) = _
      unfold exprCheckFlag ElemExp.means ElemExp.sound itemMatches
      cases state.valid with
      | false => simp [truthInt, boolInt]
      | true =>
        cases there : nodelistCheckflag first state.node.flags true <;>
          simp [truthInt, boolInt, there]
  | address text =>
    change (if exprCheckAddr state text = -2 then none else some (exprCheckAddr state text)) =
      if (!state.valid || (ftnAddrparse text true).isSome) = true then
        some (truthInt (if state.valid then
          (ftnAddrparse text true).map (ftnAddrcompMask state.node.addr) else none)) else none
    unfold exprCheckAddr
    cases state.valid with
    | false => rfl
    | true =>
      cases ftnAddrparse text true with
      | none => rfl
      | some addr => exact if_neg (truthInt_valid (some _))

/-- So does an expression. -/
theorem Expression.value_means (state : ExprState) (tree : Expression) (kept : tree.kept = true)
    (shifted : tree.Shifted) :
    tree.value state = if tree.sound state then some (truthInt (tree.means state)) else none := by
  induction tree with
  | elemexp element => exact element.value_means state kept shifted
  | not operand inner =>
    change (operand.value state).map _ = if operand.sound state then _ else none
    rw [inner kept shifted]
    split
    · rw [Option.map_some]
      change some _ = some (boolInt ((operand.means state).any (!·)))
      rcases operand.means state with _ | _ | _ <;> rfl
    · rfl
  | logic left op right first second =>
    obtain ⟨-, fine, fine'⟩ := shifted
    obtain ⟨here, there⟩ := Bool.and_eq_true_iff.mp kept
    change (left.value state).bind _ = if (left.sound state && right.sound state) = true then _ else none
    rw [first here fine, second there fine']
    cases left.sound state with
    | false => rfl
    | true =>
      cases right.sound state with
      | false => rfl
      | true => exact congrArg some (exprCheckLogic_truth _ _ op)
  | brackets inner hypothesis => exact hypothesis kept shifted

/-- The number one is the truth. -/
theorem value_holds (state : ExprState) (tree : Expression) (kept : tree.kept = true)
    (shifted : tree.Shifted) : decide (tree.value state = some 1) = tree.holds state := by
  rw [tree.value_means state kept shifted]
  unfold Expression.holds
  cases tree.sound state with
  | false => rfl
  | true => rcases tree.means state with _ | _ | _ <;> rfl

/-- A list of texts that can be checked has a value. -/
theorem listValue_known (check : Bytes → Int) (valid : ∀ text, check text ≠ -2) (first : Bytes)
    (rest : List Bytes) : ∃ value, listValue check first rest = some value := by
  induction rest generalizing first with
  | nil => exact ⟨check first, if_neg (valid first)⟩
  | cons second rest later =>
    obtain ⟨value, more⟩ := later second
    refine ⟨exprCheckLogic textValue .or value, ?_⟩
    unfold listValue
    rw [more, Option.map_some]

/-- A list of more than one text is always true. -/
theorem listValue_several (check : Bytes → Int) (valid : ∀ text, check text ≠ -2)
    (first second : Bytes) (rest : List Bytes) :
    listValue check first (second :: rest) = some 1 := by
  obtain ⟨value, more⟩ := listValue_known check valid second rest
  unfold listValue
  rw [more, Option.map_some]
  rfl

/-- No text matches where nothing is known and it is never the time. -/
theorem itemMatches_never (name : ElementName) (texts : List Bytes) :
    texts.any (itemMatches { timeCheck := fun _ => 1 } name) = false := by
  rw [List.any_eq_false]
  intro text _
  cases name <;> exact Bool.false_ne_true

/-- An element on its own is true where it should be, in every state, if it is one that is
kept, and no other is. -/
theorem element_kept_iff (element : ElemExp) (formed : element.Formed) :
    (∀ state, decide (element.value state = some 1) = (Expression.elemexp element).holds state) ↔
      element.kept = true := by
  constructor
  · intro always
    cases element with
    | single name text =>
      cases name <;> first
        | rfl
        | cases always { exists_ := fun _ => true }
    | several name first rest =>
      cases rest with
      | nil => rfl
      | cons second rest =>
        have here := always { timeCheck := fun _ => 1 }
        have never := itemMatches_never name (first :: second :: rest)
        have wrong : (Expression.elemexp (.several name first (second :: rest))).holds
            { timeCheck := fun _ => 1 } = false := by
          change (_ && (first :: second :: rest).any (itemMatches _ name)) = false
          rw [never, Bool.and_false]
        rw [wrong] at here
        have value : (ElemExp.several name first (second :: rest)).value
            { timeCheck := fun _ => 1 } = some 1 := by
          cases name <;>
            exact listValue_several _ (fun _ => show (0 : Int) ≠ -2 by decide) first second rest
        rw [value] at here
        cases here
    | plain | compare | address => rfl
  · intro kept state
    exact value_holds state (.elemexp element) kept formed

end Binkleyforce
