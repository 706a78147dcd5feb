import Binkleyforce.Util.Text

/-!
# Tokens

Texts cut into tokens, as `strtok` and `string_token` do. No token is empty.
-/

namespace Binkleyforce

/-- `string_token` without quotes, called to the end of a text. -/
def splitTokens (delim : UInt8 → Bool) : Bytes → Bytes → List Bytes
  | [], [] => []
  | [], token => [token]
  | char :: text, token =>
    if delim char then
      if token.isEmpty then splitTokens delim text [] else token :: splitTokens delim text []
    else splitTokens delim text (token ++ [char])

/-- A text without spaces is one token. -/
theorem splitTokens_word (delim : UInt8 → Bool) (word token : Bytes)
    (whole : ∀ char ∈ word, delim char = false) (some : token ++ word ≠ []) :
    splitTokens delim word token = [token ++ word] := by
  induction word generalizing token with
  | nil =>
    cases token with
    | nil => exact absurd rfl some
    | cons char token => simp [splitTokens]
  | cons char word inductionHypothesis =>
    have here := whole char List.mem_cons_self
    rw [splitTokens, here]
    simp only [Bool.false_eq_true, if_false]
    rw [inductionHypothesis (token ++ [char])
      (fun char member => whole char (List.mem_cons_of_mem _ member)) (by simp)]
    simp

/-- `strtok` with a comma. -/
def commaTokens (text : Bytes) : List Bytes := splitTokens (· = 44) text []

end Binkleyforce
