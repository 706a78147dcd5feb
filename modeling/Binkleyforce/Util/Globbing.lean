import Binkleyforce.Library.Globs
import Binkleyforce.Util.Masks

/-!
# What a mask matches

A mask is a pattern: an asterisk takes any run of characters, a question mark takes one, and
any other character, or one behind a backslash, takes itself in either case. The matcher of
the source agrees but for the asterisks at the end of a mask: one of them wants something
left for it, and several of them match nothing.
-/

namespace Binkleyforce

open Library

/-- Letters are the same in either case. -/
def sameLetter (wanted char : UInt8) : Bool := toupper wanted == toupper char

/-- What a character of a mask means that is not quoted. -/
def wildcard (char : UInt8) : GlobPart UInt8 :=
  if char = 63 then .one else if char = 42 then .run else .like char

/-- The parts of a mask. A backslash at its end quotes nothing and means itself. -/
def maskParts : Bytes → List (GlobPart UInt8)
  | [] => []
  | [last] => [wildcard last]
  | char :: next :: mask =>
    if char = 92 then .like next :: maskParts mask else wildcard char :: maskParts (next :: mask)

/-- The mask matches the text. -/
def MaskMatches (mask str : Bytes) : Prop := Globs sameLetter (maskParts mask) str

/-- The asterisks at the end of the mask lack something: there are several, and the mask
before them matches a first part of the text; or there is one, and the mask before it matches
the whole text, but no first part that leaves something. -/
def StarsLack (mask str : Bytes) : Prop :=
  ∃ body, maskParts mask = body ++ [.run] ∧
    ((¬ Solid body ∧ ∃ front rest, str = front ++ rest ∧ Globs sameLetter body front) ∨
      (Solid body ∧ Globs sameLetter body str ∧
        ∀ front rest, str = front ++ rest → rest ≠ [] → ¬ Globs sameLetter body front))

/-- A character that quotes nothing is a part of its own. -/
theorem maskParts_cons {char : UInt8} (mask : Bytes) (plain : char ≠ 92) :
    maskParts (char :: mask) = wildcard char :: maskParts mask := by
  cases mask with
  | nil => rfl
  | cons next mask => rw [maskParts, if_neg plain]

/-- A mask has parts if it has characters. -/
theorem maskParts_eq_nil {mask : Bytes} : maskParts mask = [] ↔ mask = [] := by
  constructor
  · intro none
    rcases mask with - | ⟨char, - | ⟨next, mask⟩⟩
    · rfl
    · cases none
    · rw [maskParts] at none
      split at none <;> cases none
  · rintro rfl
    rfl

/-- Asterisks that are skipped are runs that are dropped. -/
theorem maskParts_dropWhile (mask : Bytes) :
    maskParts (mask.dropWhile (· = 42)) = (maskParts mask).dropWhile GlobPart.isRun := by
  induction mask with
  | nil => rfl
  | cons char mask inductionHypothesis =>
    by_cases star : char = 42
    · subst star
      rw [List.dropWhile_cons_of_pos (by decide), maskParts_cons mask (by decide), inductionHypothesis]
      exact (List.dropWhile_cons_of_pos rfl).symm
    · rw [List.dropWhile_cons_of_neg (by simpa using star)]
      rcases mask with - | ⟨next, mask⟩
      · rw [maskParts, List.dropWhile_cons_of_neg]
        unfold wildcard
        rw [if_neg star]
        split <;> exact Bool.false_ne_true
      · rw [maskParts]
        split
        · rw [List.dropWhile_cons_of_neg]
          exact Bool.false_ne_true
        · rw [List.dropWhile_cons_of_neg]
          unfold wildcard
          rw [if_neg star]
          split <;> exact Bool.false_ne_true

/-- No other character is the backslash in either case. -/
theorem backslash_toupper (char : UInt8) : toupper 92 = toupper char ↔ char = 92 := by
  revert char
  exact byte_cases (by decide)

/-- The matcher accepts what the pattern takes, where something is left for the run at the
end.

Induct as the matcher goes on: over the mask, and behind an asterisk from any place. -/
theorem strcasemask_iff (str mask : Bytes) :
    strcasemask str mask = true ↔ GlobsFilled sameLetter (maskParts mask) str := by
  induction str, mask using strcasemask.induct with
  | case1 mask =>
    rw [strcasemask, List.isEmpty_iff, globsFilled_empty, maskParts_eq_nil]
  | case2 char str =>
    rw [strcasemask]
    exact iff_of_false Bool.false_ne_true (not_globsFilled_nil (List.cons_ne_nil char str))
  | case3 char str quoted mask inductionHypothesis =>
    rw [strcasemask, if_pos rfl, maskParts, if_pos rfl,
      globsFilled_single_iff (show GlobPart.like quoted ≠ .run from nofun), Bool.and_eq_true, inductionHypothesis]
    rfl
  | case4 char str =>
    have letter : sameLetter 92 char = true ↔ char = 92 := by
      unfold sameLetter
      rw [beq_iff_eq]
      exact backslash_toupper char
    rw [strcasemask, if_pos rfl, maskParts]
    change _ ↔ GlobsFilled sameLetter [.like 92] (char :: str)
    rw [globsFilled_single_iff (show GlobPart.like (92 : UInt8) ≠ .run from nofun), Bool.and_eq_true, beq_iff_eq,
      List.isEmpty_iff, ← letter]
    refine and_congr_right fun _ => ?_
    constructor
    · rintro rfl
      exact globsFilled_empty.mpr rfl
    · intro accepted
      exact globs_nil_iff.mp accepted.globs
  | case5 char str mask _ inductionHypothesis =>
    rw [strcasemask.eq_def, maskParts_cons mask (by decide)]
    change strcasemask str mask = true ↔ GlobsFilled sameLetter (.one :: maskParts mask) (char :: str)
    rw [globsFilled_single_iff (show GlobPart.one ≠ .run from nofun), inductionHypothesis]
    exact (and_iff_right rfl).symm
  | case6 char str mask _ _ inductionHypothesis =>
    rw [strcasemask.eq_def, maskParts_cons mask (by decide)]
    dsimp only
    rw [if_neg (by decide), if_neg (by decide), if_pos rfl]
    change _ ↔ GlobsFilled sameLetter (.run :: maskParts mask) (char :: str)
    rw [globsFilled_run_iff (List.cons_ne_nil char str), Bool.or_eq_true, List.isEmpty_iff, maskParts_eq_nil,
      List.any_eq_true, ← maskParts_dropWhile]
    refine or_congr Iff.rfl ?_
    constructor
    · rintro ⟨start, inside, accepted⟩
      rw [List.mem_range] at inside
      refine ⟨(char :: str).take start, (char :: str).drop start, (List.take_append_drop ..).symm, ?_,
        (inductionHypothesis start).mp accepted⟩
      rw [ne_eq, List.drop_eq_nil_iff, List.length_cons]
      omega
    · rintro ⟨front, rest, taken, filled, accepted⟩
      have back : (char :: str).drop front.length = rest := by rw [taken, List.drop_left]
      have length := congrArg List.length taken
      rw [List.length_append, List.length_cons] at length
      have more := List.length_pos_iff.mpr filled
      refine ⟨front.length, List.mem_range.mpr (by omega), (inductionHypothesis front.length).mpr ?_⟩
      rwa [back]
  | case7 char str m mask slash one star inductionHypothesis =>
    have single : wildcard m = .like m := by
      unfold wildcard
      rw [if_neg one, if_neg star]
    rw [strcasemask.eq_def, maskParts_cons mask slash, single,
      globsFilled_single_iff (show GlobPart.like m ≠ .run from nofun), ← inductionHypothesis]
    dsimp only
    rw [if_neg slash, if_neg one, if_neg star, Bool.and_eq_true]
    rfl

/-- The matcher misses a match just where the asterisks at the end lack something. -/
theorem strcasemask_matches (str mask : Bytes) :
    (strcasemask str mask = true ↔ MaskMatches mask str) ↔ ¬ StarsLack mask str := by
  unfold MaskMatches StarsLack
  rw [strcasemask_iff]
  rcases solid_or_snoc (maskParts mask) with solid | ⟨body, ends⟩
  · refine iff_of_true ⟨GlobsFilled.globs, fun whole => .inl ⟨solid, whole⟩⟩ ?_
    rintro ⟨body, ends, -⟩
    rw [ends] at solid
    exact not_solid_snoc body solid
  · rw [ends, globsFilled_snoc_iff, globs_snoc_iff]
    constructor
    · rintro agrees ⟨other, same, lacks⟩
      obtain ⟨rfl, -⟩ := List.append_inj' same rfl
      rcases lacks with ⟨several, matched⟩ | ⟨solid, whole, nothing⟩
      · exact several (agrees.mpr matched).1
      · obtain ⟨-, front, rest, taken, filled, begins⟩ := agrees.mpr ⟨str, [], (List.append_nil str).symm, whole⟩
        exact nothing front rest taken filled begins
    · intro enough
      constructor
      · rintro ⟨-, front, rest, taken, -, begins⟩
        exact ⟨front, rest, taken, begins⟩
      · intro matched
        have solid : Solid body := by
          by_contra several
          exact enough ⟨body, rfl, .inl ⟨several, matched⟩⟩
        refine ⟨solid, ?_⟩
        by_contra nothing
        push Not at nothing
        obtain ⟨front, rest, rfl, begins⟩ := matched
        by_cases filled : rest = []
        · subst filled
          rw [List.append_nil] at enough nothing
          exact enough ⟨body, rfl, .inr ⟨solid, begins, nothing⟩⟩
        · exact nothing front rest rfl filled begins

/-! ## Lists of masks -/

/-- The mask behind an exclamation mark, or the whole token. -/
def plainMask (token : Bytes) : Bytes := if token.head? = some 33 then token.drop 1 else token

/-- The first token whose mask takes the name decides: it accepts the name if no exclamation
mark stands before it. Where none does, the list accepts the name if it rejects another one
through a mask that is known. -/
def FirstDecides (takes known : Bytes → Prop) (tokens : List Bytes) : Prop :=
  (∃ front token back, tokens = front ++ token :: back ∧ (∀ other ∈ front, ¬ takes (plainMask other)) ∧
    takes (plainMask token) ∧ token.head? ≠ some 33) ∨
    (∀ token ∈ tokens, ¬ takes (plainMask token)) ∧
      ∃ token ∈ tokens, token.head? = some 33 ∧ known (plainMask token)

/-- The entry of an alias, where a mask is one that is known. -/
def aliasOf (mask : Bytes) : Option (Bytes × Bytes) :=
  magfname.find? fun entry => strcasecmp (mask.drop 1) entry.1

/-- A mask takes a name that the matcher accepts; an alias takes what its own list accepts. -/
def MaskTakes (str mask : Bytes) : Prop :=
  if mask.head? = some 37 then
    ∃ entry, aliasOf mask = some entry ∧
      FirstDecides (fun mask => strcasemask str mask = true) (fun _ => True) (stringTokens entry.2 none)
  else strcasemask str mask = true

/-- A mask is known if it is not an alias without an entry. -/
def MaskKnown (mask : Bytes) : Prop := mask.head? = some 37 → (aliasOf mask).isSome

/-- The first token decides where its mask takes the name. -/
theorem firstDecides_taken {takes known : Bytes → Prop} {token : Bytes} (rest : List Bytes)
    (taken : takes (plainMask token)) :
    FirstDecides takes known (token :: rest) ↔ token.head? ≠ some 33 := by
  constructor
  · rintro (⟨front, first, back, same, before, -, accepts⟩ | ⟨none, -⟩)
    · cases front with
      | nil =>
        obtain ⟨rfl, -⟩ := List.cons.inj same
        exact accepts
      | cons other front =>
        obtain ⟨rfl, -⟩ := List.cons.inj same
        exact absurd taken (before token List.mem_cons_self)
    · exact absurd taken (none token List.mem_cons_self)
  · intro accepts
    exact .inl ⟨[], token, rest, rfl, nofun, taken, accepts⟩

/-- A token whose mask does not take the name leaves it to the others, but for a rejection it
may have been. -/
theorem firstDecides_passed {takes known : Bytes → Prop} {token : Bytes} (rest : List Bytes)
    (passed : ¬ takes (plainMask token)) :
    FirstDecides takes known (token :: rest) ↔
      FirstDecides takes known rest ∨
        (token.head? = some 33 ∧ known (plainMask token)) ∧ ∀ other ∈ rest, ¬ takes (plainMask other) := by
  constructor
  · rintro (⟨front, first, back, same, before, taken, accepts⟩ | ⟨none, other, member, rejects, known⟩)
    · cases front with
      | nil =>
        obtain ⟨rfl, -⟩ := List.cons.inj same
        exact absurd taken passed
      | cons other front =>
        obtain ⟨rfl, rfl⟩ := List.cons.inj same
        rw [List.forall_mem_cons] at before
        exact .inl (.inl ⟨front, first, back, rfl, before.2, taken, accepts⟩)
    · rw [List.forall_mem_cons] at none
      rcases List.mem_cons.mp member with rfl | member
      · exact .inr ⟨⟨rejects, known⟩, none.2⟩
      · exact .inl (.inr ⟨none.2, other, member, rejects, known⟩)
  · rintro ((⟨front, first, back, rfl, before, taken, accepts⟩ | ⟨none, other, member, rejects, known⟩) |
      ⟨⟨rejects, known⟩, none⟩)
    · exact .inl ⟨token :: front, first, back, rfl, List.forall_mem_cons.mpr ⟨passed, before⟩, taken, accepts⟩
    · exact .inr ⟨List.forall_mem_cons.mpr ⟨passed, none⟩, other, List.mem_cons_of_mem token member, rejects, known⟩
    · exact .inr ⟨List.forall_mem_cons.mpr ⟨passed, none⟩, token, List.mem_cons_self, rejects, known⟩

/-- The loop over the tokens lets the first one decide.

Induct over the tokens; what is yielded at the end tells that a rejection was passed. -/
theorem checkTokens_iff {verdict : Bytes → Option Bool} {takes known : Bytes → Prop}
    (agrees : ∀ mask, (verdict mask = some true ↔ takes mask) ∧ (verdict mask ≠ none ↔ known mask))
    (tokens : List Bytes) (yield : Bool) :
    checkTokens verdict tokens yield = true ↔
      FirstDecides takes known tokens ∨ yield = true ∧ ∀ token ∈ tokens, ¬ takes (plainMask token) := by
  induction tokens generalizing yield with
  | nil =>
    have nothing : ¬ FirstDecides takes known [] := by
      rintro (⟨front, token, back, same, -⟩ | ⟨-, token, member, -⟩)
      · exact List.append_ne_nil_of_right_ne_nil front (List.cons_ne_nil token back) same.symm
      · cases member
    rw [checkTokens, or_iff_right nothing]
    exact (and_iff_left nofun).symm
  | cons token rest inductionHypothesis =>
    obtain ⟨takes_iff, known_iff⟩ := agrees (plainMask token)
    rw [checkTokens, show (if token.head? = some 33 then token.drop 1 else token) = plainMask token from rfl,
      List.forall_mem_cons]
    split
    case h_1 found =>
      have taken := takes_iff.mp found
      rw [firstDecides_taken rest taken, or_iff_left fun none => none.2.1 taken]
      simp
    case h_2 found =>
      have passed : ¬ takes (plainMask token) := by
        rw [← takes_iff, found]
        exact nofun
      have known : known (plainMask token) := by
        rw [← known_iff, found]
        exact nofun
      rw [inductionHypothesis, firstDecides_passed rest passed, Bool.or_eq_true, decide_eq_true_iff, or_assoc]
      refine or_congr Iff.rfl ?_
      rw [and_iff_left known, and_iff_right passed, ← or_and_right, or_comm]
    case h_3 found =>
      have passed : ¬ takes (plainMask token) := by
        rw [← takes_iff, found]
        exact nofun
      have unknown : ¬ known (plainMask token) := by
        rw [← known_iff, found]
        exact fun other => other rfl
      rw [inductionHypothesis, firstDecides_passed rest passed, and_iff_right passed, or_assoc]
      refine or_congr Iff.rfl ?_
      rw [or_iff_right fun rejected => unknown rejected.1.2]

/-- A list without aliases decides by the masks the matcher accepts. -/
theorem checkTokens_plain (str : Bytes) (tokens : List Bytes) :
    checkTokens (fun mask => some (strcasemask str mask)) tokens false = true ↔
      FirstDecides (fun mask => strcasemask str mask = true) (fun _ => True) tokens := by
  have agrees (mask : Bytes) : (some (strcasemask str mask) = some true ↔ strcasemask str mask = true) ∧
      (some (strcasemask str mask) ≠ none ↔ True) := ⟨by rw [Option.some.injEq], iff_of_true nofun trivial⟩
  have decides := checkTokens_iff agrees tokens false
  rwa [or_iff_left fun none => Bool.false_ne_true none.1] at decides

/-- The list of masks decides by the first one that takes the name. -/
theorem checkmasks_iff (masks str : Bytes) :
    checkmasks masks str = true ↔ FirstDecides (MaskTakes str) MaskKnown (stringTokens masks none) := by
  have agrees (mask : Bytes) :
      ((if mask.head? = some 37 then
          (aliasOf mask).map fun entry =>
            checkTokens (fun mask => some (strcasemask str mask)) (stringTokens entry.2 none) false
        else some (strcasemask str mask)) = some true ↔ MaskTakes str mask) ∧
      ((if mask.head? = some 37 then
          (aliasOf mask).map fun entry =>
            checkTokens (fun mask => some (strcasemask str mask)) (stringTokens entry.2 none) false
        else some (strcasemask str mask)) ≠ none ↔ MaskKnown mask) := by
    unfold MaskTakes MaskKnown
    split
    case isTrue named =>
      rw [Option.map_eq_some_iff, imp_iff_right named]
      constructor
      · refine exists_congr fun entry => and_congr_right fun _ => checkTokens_plain str _
      · rw [ne_eq, Option.map_eq_none_iff, ← ne_eq, Option.isSome_iff_ne_none]
    case isFalse plain =>
      refine ⟨by rw [Option.some.injEq], iff_of_true nofun fun named => absurd named plain⟩
  have decides := checkTokens_iff agrees (stringTokens masks none) false
  rw [or_iff_left fun none => Bool.false_ne_true none.1] at decides
  exact decides

/-- The matcher agrees with the patterns just where the asterisks at the end lack nothing,
and a list of masks lets the first one decide that the matcher accepts. -/
theorem masks_decide (str mask masks : Bytes) :
    ((strcasemask str mask = true ↔ MaskMatches mask str) ∧
      (checkmasks masks str = true ↔ FirstDecides (MaskTakes str) MaskKnown (stringTokens masks none))) ↔
      ¬ StarsLack mask str := by
  rw [strcasemask_matches, and_iff_left (checkmasks_iff masks str)]

/-- An asterisk behind the whole name matches nothing, and the matcher does not let it. -/
theorem star_lacks :
    ¬ (strcasemask (ascii "mail") (ascii "mail*") = true ↔ MaskMatches (ascii "mail*") (ascii "mail")) := by
  have refused : ¬ strcasemask (ascii "mail") (ascii "mail*") = true := by decide +kernel
  have parts : maskParts (ascii "mail*") = [.like 109, .like 97, .like 105, .like 108] ++ [.run] := by
    decide
  have letters : Globs sameLetter [.like 109, .like 97, .like 105, .like 108] (ascii "mail") :=
    .single rfl (.single rfl (.single rfl (.single rfl .nil)))
  intro agrees
  apply refused
  rw [agrees, MaskMatches, parts, globs_snoc_iff]
  exact ⟨ascii "mail", [], (List.append_nil _).symm, letters⟩

end Binkleyforce
