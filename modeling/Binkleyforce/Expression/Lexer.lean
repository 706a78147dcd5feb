import Binkleyforce.Util.Address

/-!
# The lexer of expressions

`yylex` takes the first entry of its tables that the text begins with, operators before
element names, and otherwise a text: in quotes, or up to a blank or an operator. The
operator that ended a text is kept for the next call.
-/

namespace Binkleyforce

/-- The comparisons. -/
inductive Arop where
  | eq
  | ne
  | gt
  | ge
  | lt
  | le
  deriving DecidableEq, Repr

/-- The logical operators. -/
inductive Logop where
  | and
  | or
  | xor
  deriving DecidableEq, Repr

/-- The names of elements. The grammar has a name `SPEED` that the lexer does not make, and
the lexer one `ADDRESS` that the grammar does not take. -/
inductive ElementName where
  | tz
  | address
  | time
  | phone
  | flag
  | incoming
  | outgoing
  | listed
  | protected_
  | connspeed
  | speed
  | exec
  | exist
  | port
  | mailer
  deriving DecidableEq, Repr

/-- The tokens. A number and a text come with what stands in the text. -/
inductive ExprToken where
  | arop (op : Arop)
  | openb
  | closeb
  | logop (op : Logop)
  | not
  | comma
  | element (name : ElementName)
  | number (value : Int)
  | text (string : Bytes)
  deriving DecidableEq, Repr

/-- `s_lextable`. -/
abbrev LexEntry := Bytes × ExprToken

/-- `operators`. -/
def exprOperators : List LexEntry :=
  [(ascii "==", .arop .eq), (ascii "!=", .arop .ne), (ascii ">", .arop .gt), (ascii ">=", .arop .ge),
    (ascii "<", .arop .lt), (ascii "<=", .arop .le), (ascii "(", .openb), (ascii ")", .closeb),
    (ascii "&&", .logop .and), (ascii "&", .logop .and), (ascii "||", .logop .or),
    (ascii "|", .logop .or), (ascii "Xor", .logop .xor), (ascii "!", .not), (ascii ",", .comma)]

/-- `elements`. -/
def exprElements : List LexEntry :=
  [(ascii "TZ", .element .tz), (ascii "Address", .element .address), (ascii "Time", .element .time),
    (ascii "Phone", .element .phone), (ascii "Flag", .element .flag),
    (ascii "Incoming", .element .incoming), (ascii "Outgoing", .element .outgoing),
    (ascii "Listed", .element .listed), (ascii "Protected", .element .protected_),
    (ascii "Connspeed", .element .connspeed), (ascii "Exec", .element .exec),
    (ascii "Exist", .element .exist), (ascii "Port", .element .port),
    (ascii "Mailer", .element .mailer)]

/-- `strncasecmp(text, str, strlen(str)) == 0`. -/
def beginsWith (str text : Bytes) : Bool := str.map tolower == (text.take str.length).map tolower

/-- The first entry of a table that the text begins with. -/
def matchEntry (table : List LexEntry) (text : Bytes) : Option LexEntry :=
  table.find? fun entry => beginsWith entry.1 text

/-- `expr_p_pos` and `next`. -/
structure LexState where
  pos : Bytes
  next : Option LexEntry := none
  deriving DecidableEq, Repr

/-- The loop over a text without quotes: the text, what is left, and the operator there. -/
def bareText : Bytes → Bytes × Bytes × Option LexEntry
  | [] => ([], [], none)
  | char :: rest =>
    if isspace char then ([], char :: rest, none)
    else
      match matchEntry exprOperators (char :: rest) with
      | some entry => ([], char :: rest, some entry)
      | none =>
        let (text, left, next) := bareText rest
        (char :: text, left, next)

/-- `ISDEC`. -/
def isDec (text : Bytes) : Bool := text.all isdigit

/-- `atol`, as it is stored in `yylval`. -/
def atolInt (text : Bytes) : Int := Int.bmod (min (leadingNumber text) (2 ^ 63 - 1)) (2 ^ 32)

/-- A text is a number where it has digits only. -/
def textToken (text : Bytes) : ExprToken := if isDec text then .number (atolInt text) else .text text

/-- `enough`: the place after the end of a text, or after the operator there. -/
def afterText (left : Bytes) (next : Option LexEntry) : Bytes :=
  match next with
  | some entry => left.drop (if 1 < entry.1.length then entry.1.length else 1)
  | none => left.drop 1

/-- The text at the place. -/
def lexText (pos : Bytes) : ExprToken × LexState :=
  match pos with
  | [] => (textToken [], ⟨[], none⟩)
  | char :: rest =>
    if char = 34 then
      (textToken (rest.takeWhile (· ≠ 34)), ⟨(rest.dropWhile (· ≠ 34)).drop 1, none⟩)
    else
      let (text, left, next) := bareText rest
      (textToken (char :: text), ⟨afterText left next, next⟩)

/-- `yylex`. There is no token at the end. -/
def yylex (s : LexState) : Option (ExprToken × LexState) :=
  match s.next with
  | some entry => some (entry.2, ⟨s.pos, none⟩)
  | none =>
    match s.pos.dropWhile isspace with
    | [] => none
    | char :: rest =>
      match (matchEntry exprOperators (char :: rest)).or (matchEntry exprElements (char :: rest)) with
      | some entry => some (entry.2, ⟨(char :: rest).drop entry.1.length, none⟩)
      | none => some (lexText (char :: rest))

/-- The tokens of a number of calls at most. -/
def lexTokens : Nat → LexState → List ExprToken
  | 0, _ => []
  | calls + 1, s =>
    match yylex s with
    | none => []
    | some (token, s) => token :: lexTokens calls s

/-- The tokens of a text, where an operator may be left from a call before. A token has a
character of the text at least. -/
def exprTokens (next : Option LexEntry) (text : Bytes) : List ExprToken :=
  lexTokens (text.length + 2) ⟨text, next⟩

end Binkleyforce
