import Mathlib.Data.List.Basic
import Binkleyforce.Util.Text

/-!
# File masks

Lists of masks as the configuration has them, matched against file names.
-/

namespace Binkleyforce

/-- `toupper` in the C locale. -/
def toupper (char : UInt8) : UInt8 := if 97 ≤ char && char ≤ 122 then char - 32 else char

/-- `strcasemask(str, mask) == 0`. An asterisk that ends the mask matches only
while there is text left for it. -/
def strcasemask : Bytes → Bytes → Bool
  | [], mask => mask.isEmpty
  | _ :: _, [] => false
  | char :: str, m :: mask =>
    if m = 92 then
      match mask with
      | quoted :: mask => toupper quoted == toupper char && strcasemask str mask
      | [] => char == 92 && str.isEmpty
    else if m = 63 then strcasemask str mask
    else if m = 42 then
      mask.isEmpty ||
        (List.range (str.length + 1)).any fun start =>
          strcasemask ((char :: str).drop start) (mask.dropWhile (· = 42))
    else toupper m == toupper char && strcasemask str mask
termination_by _ mask => mask.length
decreasing_by
  all_goals simp only [List.length_cons]
  all_goals first
    | omega
    | exact Nat.lt_succ_of_le (List.dropWhile_sublist _).length_le

/-- `string_token` with white space and quotes, called to the end of a text: the
tokens of the rest, where one may have been begun. -/
def stringTokens : Bytes → Option (Bool × Bytes) → List Bytes
  | [], none => []
  | [], some (_, token) => [token]
  | char :: text, none =>
    if isspace char then stringTokens text none
    else if char = 34 then stringTokens text (some (true, []))
    else stringTokens text (some (false, [char]))
  | char :: text, some (quoted, token) =>
    if (if quoted then char = 34 else isspace char) then token :: stringTokens text none
    else stringTokens text (some (quoted, token ++ [char]))

/-- The loop of `checkmasks`, with what a single mask says: a match, a mismatch,
or nothing for an alias that does not exist. An exclamation mark inverts. -/
def checkTokens (verdict : Bytes → Option Bool) : List Bytes → Bool → Bool
  | [], yield => yield
  | token :: rest, yield =>
    let not := token.head? = some 33
    match verdict (if not then token.drop 1 else token) with
    | some true => !not
    | some false => checkTokens verdict rest (yield || not)
    | none => checkTokens verdict rest yield

/-- The aliases for lists of masks. -/
def magfname : List (Bytes × Bytes) :=
  [(ascii "netmail", ascii "*.pkt *.out *.cut *.hut *.dut *.iut"),
    (ascii "arcmail", ascii "*.su? *.mo? *.tu? *.we? *.th? *.fr? *.sa?"),
    (ascii "ticfile", ascii "*.tic"),
    (ascii "archive", ascii "*.tgz *.bz2 *.zip *.rar *.arj *.lha *.ha")]

/-- `checkmasks(masks, str) == 0`: the name matches the list. The lists behind
the aliases use no alias themselves. -/
def checkmasks (masks str : Bytes) : Bool :=
  checkTokens
    (fun mask =>
      if mask.head? = some 37 then
        (magfname.find? (fun entry => strcasecmp (mask.drop 1) entry.1)).map fun entry =>
          checkTokens (fun mask => some (strcasemask str mask)) (stringTokens entry.2 none) false
      else some (strcasemask str mask))
    (stringTokens masks none) false

end Binkleyforce
