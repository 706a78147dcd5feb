import Binkleyforce.Util.DosNames
import Binkleyforce.Util.Masks
import Binkleyforce.Util.Translation

/-!
# Translation of paths

The paths of an FLO file are translated by the rules of the configuration, one after another.
The configuration reader takes a rule without a replacement, and `flo_translate` fails on it
where its text occurs. A path that grows out of its buffer is cut.
-/

namespace Binkleyforce

open Library

/-- `s_translate`. -/
structure Translate where
  find : Bytes
  repl : Option Bytes
  deriving DecidableEq

/-- `proc_translate`: the value has two words, of which the second may be missing. -/
def procTranslate (value : Bytes) : Option Translate :=
  match stringTokens value none with
  | [] => none
  | find :: rest => if find = [] then none else some ⟨find, rest.head?⟩

/-- `flo_translate`, with the rules that `conf_first` and `conf_next` give. -/
def floTranslate (beyond : Nat → UInt8) (buflen : Nat) : List Translate → Bytes → Option Bytes
  | [], buffer => some buffer
  | rule :: rules, buffer =>
    if (strstr rule.find buffer).isSome then
      (stringTranslate beyond buffer rule.find rule.repl).bind fun new =>
        floTranslate beyond buflen rules (strnxcpy new buflen)
    else floTranslate beyond buflen rules buffer

/-- `BFORCE_MAX_PATH`. -/
def bforceMaxPath : Nat := 256

/-! ## What the rules say -/

/-- What a rule makes of a text, where no replacement means deletion. -/
def Translate.means (rule : Translate) (text : Bytes) : Bytes :=
  replaceAll rule.find (rule.repl.getD []) text

/-- What rules make of a text, one after another. -/
def translated (rules : List Translate) (text : Bytes) : Bytes :=
  rules.foldl (fun text rule => rule.means text) text

/-- The rule can be carried out: where its text occurs, it has a replacement, and what comes
out goes into the buffer. -/
def Translate.Fits (buflen : Nat) (rule : Translate) (text : Bytes) : Prop :=
  rule.find <:+: text → rule.repl.isSome ∧ (rule.means text).length < buflen

/-! ## The configuration reader -/

/-- The tokens have the characters of the text. -/
theorem stringTokens_plain (text : Bytes) (begun : Option (Bool × Bytes)) (plain : 0 ∉ text)
    (plainBegun : ∀ token ∈ begun, 0 ∉ token.2) : ∀ token ∈ stringTokens text begun, 0 ∉ token := by
  induction text generalizing begun with
  | nil =>
    cases begun with
    | none => exact nofun
    | some begun => exact List.forall_mem_singleton.mpr (plainBegun begun rfl)
  | cons char text inductionHypothesis =>
    rw [List.mem_cons, not_or] at plain
    have one (quoted : Bool) (token : Bytes) (before : 0 ∉ token) :
        ∀ begun ∈ some (quoted, token ++ [char]), 0 ∉ begun.2 := by
      rintro begun ⟨⟩ member
      rcases List.mem_append.mp member with front | last
      · exact before front
      · exact plain.1 (List.mem_singleton.mp last)
    cases begun with
    | none =>
      unfold stringTokens
      split
      · exact inductionHypothesis none plain.2 nofun
      · split
        · refine inductionHypothesis _ plain.2 ?_
          rintro begun ⟨⟩ member
          cases member
        · exact inductionHypothesis _ plain.2 (one false [] List.not_mem_nil)
    | some begun =>
      obtain ⟨quoted, token⟩ := begun
      have before : 0 ∉ token := plainBegun _ rfl
      unfold stringTokens
      by_cases ends : if quoted then char = 34 else isspace char
      · rw [if_pos ends, List.forall_mem_cons]
        exact ⟨before, inductionHypothesis none plain.2 nofun⟩
      · rw [if_neg ends]
        exact inductionHypothesis _ plain.2 (one quoted token before)

/-- A rule that the reader takes searches for some text, and its texts are strings. -/
theorem procTranslate_some {value : Bytes} {rule : Translate} (plain : 0 ∉ value)
    (accepted : procTranslate value = some rule) :
    rule.find ≠ [] ∧ 0 ∉ rule.find ∧ ∀ repl ∈ rule.repl, 0 ∉ repl := by
  have tokens := stringTokens_plain value none plain nofun
  unfold procTranslate at accepted
  split at accepted
  · cases accepted
  · rename_i find rest is
    rw [is, List.forall_mem_cons] at tokens
    split at accepted
    · cases accepted
    · rename_i filled
      cases accepted
      refine ⟨filled, tokens.1, fun repl first => tokens.2 repl (List.mem_of_mem_head? first)⟩

/-- The rules of a configuration. -/
def Accepted (rules : List Translate) : Prop :=
  ∀ rule ∈ rules, ∃ value, 0 ∉ value ∧ procTranslate value = some rule

/-! ## Carrying out the rules -/

/-- Where the text to find stands, `strstr` finds it. -/
theorem strstr_isSome {find text : Bytes} : (strstr find text).isSome ↔ find <:+: text := by
  refine ⟨ strstr_infix, ?_⟩
  intro inside
  induction text with
  | nil =>
    unfold strstr
    rw [List.infix_nil.mp inside]
    rfl
  | cons char text inductionHypothesis =>
    unfold strstr
    split
    · rfl
    · rename_i other
      rw [Option.isSome_map]
      exact inductionHypothesis ((List.infix_cons_iff.mp inside).resolve_left other)

/-- The texts of a rule that was read stay strings. -/
theorem Translate.means_plain {rule : Translate} {text : Bytes} (plain : 0 ∉ text)
    (plainRepl : ∀ repl ∈ rule.repl, 0 ∉ repl) : 0 ∉ rule.means text := by
  intro member
  rcases mem_replaceAll member with new | old
  · cases is : rule.repl with
    | none =>
      rw [is] at new
      cases new
    | some repl =>
      rw [is] at new
      exact plainRepl repl is new
  · exact plain old

/-- `string_translate` gives what the rule says, exactly if the rule has a replacement. -/
theorem stringTranslate_means (beyond : Nat → UInt8) {rule : Translate} {text : Bytes} (plain : 0 ∉ text)
    (filled : rule.find ≠ []) (plainFind : 0 ∉ rule.find) (plainRepl : ∀ repl ∈ rule.repl, 0 ∉ repl) :
    stringTranslate beyond text rule.find rule.repl = some (rule.means text) ↔ rule.repl.isSome := by
  obtain ⟨find, repl⟩ := rule
  cases repl with
  | none => exact iff_of_false nofun nofun
  | some repl =>
    exact iff_of_true (stringTranslate_replaces beyond filled plain plainFind (plainRepl repl rfl)) rfl

/-- The rule replaces the leftmost occurrences, and those behind them. -/
theorem Translate.means_replaced {rule : Translate} (filled : rule.find ≠ []) (text : Bytes) :
    Replaced rule.find (rule.repl.getD []) text (rule.means text) :=
  (replaced_iff filled).mpr rfl

/-- One rule is carried out as it says, exactly if it fits. -/
theorem floTranslate_one (beyond : Nat → UInt8) {buflen : Nat} {rule : Translate} {text : Bytes}
    (plain : 0 ∉ text) (filled : rule.find ≠ []) (plainFind : 0 ∉ rule.find)
    (plainRepl : ∀ repl ∈ rule.repl, 0 ∉ repl) (room : text.length < buflen) :
    floTranslate beyond buflen [rule] text = some (rule.means text) ↔ rule.Fits buflen text := by
  unfold Translate.Fits floTranslate
  by_cases found : rule.find <:+: text
  · rw [if_pos (strstr_isSome.mpr found)]
    cases is : rule.repl with
    | none =>
      refine iff_of_false nofun fun fits => ?_
      exact absurd (fits found).1 Bool.false_ne_true
    | some repl =>
      have done := (stringTranslate_means beyond plain filled plainFind plainRepl).mpr (by rw [is]; rfl)
      have string : cstring (rule.means text) = rule.means text :=
        cstring_whole _ fun char member zero => Translate.means_plain plain plainRepl (zero ▸ member)
      rw [is] at done
      rw [done, Option.bind_some, floTranslate, Option.some_inj, strnxcpy, string, List.take_eq_self_iff]
      constructor
      · intro short
        exact fun _ => ⟨rfl, by omega⟩
      · intro fits
        have := (fits found).2
        omega
  · have still : rule.means text = text := replaceAll_absent _ found
    rw [if_neg (mt strstr_isSome.mp found), floTranslate, still]
    exact iff_of_true rfl fun there => absurd there found

/-- What fits leaves a text that goes into the buffer. -/
theorem Translate.Fits.room {buflen : Nat} {rule : Translate} {text : Bytes} (fits : rule.Fits buflen text)
    (room : text.length < buflen) : (rule.means text).length < buflen := by
  by_cases found : rule.find <:+: text
  · exact (fits found).2
  · rwa [show rule.means text = text from replaceAll_absent _ found]

/-- The rules are carried out one after another. -/
theorem floTranslate_append (beyond : Nat → UInt8) (buflen : Nat) (earlier later : List Translate) (text : Bytes) :
    floTranslate beyond buflen (earlier ++ later) text =
      (floTranslate beyond buflen earlier text).bind (floTranslate beyond buflen later) := by
  induction earlier generalizing text with
  | nil => rfl
  | cons rule earlier inductionHypothesis =>
    rw [List.cons_append, floTranslate, floTranslate]
    split
    · rw [Option.bind_assoc]
      exact congrArg (Option.bind _) (funext fun new => inductionHypothesis _)
    · exact inductionHypothesis text

/-- The path is translated as the rules say, rule after rule, exactly if each rule fits what the
rules before it lead to. -/
theorem floTranslate_iff (beyond : Nat → UInt8) {buflen : Nat} {rules : List Translate} {buffer : Bytes}
    (accepted : Accepted rules) (plain : 0 ∉ buffer) (room : buffer.length < buflen) :
    (∀ count, floTranslate beyond buflen (rules.take count) buffer =
        some (translated (rules.take count) buffer)) ↔
      ∀ earlier rule later, rules = earlier ++ rule :: later →
        rule.Fits buflen (translated earlier buffer) := by
  induction rules generalizing buffer with
  | nil =>
    refine iff_of_true (fun count => ?_) fun earlier rule later nothing => ?_
    · rw [List.take_nil]
      rfl
    · exact absurd nothing.symm (by simp)
  | cons rule rules inductionHypothesis =>
    obtain ⟨⟨value, plainValue, is⟩, acceptedLater⟩ := List.forall_mem_cons.mp accepted
    obtain ⟨filled, plainFind, plainRepl⟩ := procTranslate_some plainValue is
    have one := floTranslate_one beyond plain filled plainFind plainRepl room
    have later (fits : rule.Fits buflen buffer) := inductionHypothesis acceptedLater
      (Translate.means_plain plain plainRepl) (fits.room room)
    have shifted (fits : rule.Fits buflen buffer) (count : Nat) :
        floTranslate beyond buflen ((rule :: rules).take (count + 1)) buffer =
          floTranslate beyond buflen (rules.take count) (rule.means buffer) := by
      rw [List.take_succ_cons, ← List.singleton_append, floTranslate_append, one.mpr fits, Option.bind_some]
    constructor
    · intro right
      have fits : rule.Fits buflen buffer := by
        have first := right 1
        rw [List.take_succ_cons, List.take_zero] at first
        exact one.mp first
      intro earlier other rest whole
      cases earlier with
      | nil =>
        rw [List.nil_append, List.cons.injEq] at whole
        exact whole.1 ▸ fits
      | cons first earlier =>
        rw [List.cons_append, List.cons.injEq] at whole
        obtain ⟨rfl, whole⟩ := whole
        refine (later fits).mp (fun count => ?_) earlier other rest whole
        rw [← shifted fits]
        exact right (count + 1)
    · intro all
      have fits : rule.Fits buflen buffer := all [] rule rules rfl
      intro count
      cases count with
      | zero => rfl
      | succ count =>
        rw [shifted fits]
        refine (later fits).mpr (fun earlier other rest whole => ?_) count
        exact all (rule :: earlier) other rest (congrArg (rule :: ·) whole)

/-- A rule replaces the leftmost occurrences of its text. `string_translate` does that exactly if
the rule has a replacement. `flo_translate` does it with one rule after another, exactly if every
rule whose text occurs in what the rules before it lead to has a replacement, with which the text
goes into the buffer. -/
theorem paths_translated (beyond : Nat → UInt8) {buflen : Nat} {rules : List Translate} {buffer : Bytes}
    (accepted : Accepted rules) (plain : 0 ∉ buffer) (room : buffer.length < buflen) :
    (∀ rule ∈ rules, ∀ str, 0 ∉ str →
      Replaced rule.find (rule.repl.getD []) str (rule.means str) ∧
        (stringTranslate beyond str rule.find rule.repl = some (rule.means str) ↔ rule.repl.isSome)) ∧
    ((∀ count, floTranslate beyond buflen (rules.take count) buffer =
        some (translated (rules.take count) buffer)) ↔
      ∀ earlier rule later, rules = earlier ++ rule :: later →
        rule.Fits buflen (translated earlier buffer)) := by
  refine ⟨?_, floTranslate_iff beyond accepted plain room⟩
  intro rule member str plainStr
  obtain ⟨value, plainValue, is⟩ := accepted rule member
  obtain ⟨filled, plainFind, plainRepl⟩ := procTranslate_some plainValue is
  exact ⟨rule.means_replaced filled str, stringTranslate_means beyond plainStr filled plainFind plainRepl⟩

/-- A drive and the directory where it is mounted. -/
def driveRule : Translate := ⟨ascii "d:", some (ascii "/mnt")⟩

/-- A drive letter is translated. -/
theorem paths_translated_drive :
    floTranslate (fun _ => 0) bforceMaxPath [driveRule] (ascii "d:/mail.pkt") =
      some (ascii "/mnt/mail.pkt") := by
  have accepted : Accepted [driveRule] :=
    List.forall_mem_singleton.mpr ⟨ascii "d: /mnt", by decide, by decide⟩
  have plain : 0 ∉ ascii "d:/mail.pkt" := by decide
  have room : (ascii "d:/mail.pkt").length < bforceMaxPath := by decide
  have fits : ∀ earlier rule later, [driveRule] = earlier ++ rule :: later →
      rule.Fits bforceMaxPath (translated earlier (ascii "d:/mail.pkt")) := by
    intro earlier rule later whole
    cases earlier with
    | nil =>
      rw [List.nil_append, List.cons.injEq] at whole
      obtain ⟨rfl, -⟩ := whole
      exact fun _ => ⟨rfl, by decide⟩
    | cons first earlier =>
      rw [List.cons_append, List.cons.injEq] at whole
      exact absurd whole.2.symm (by simp)
  exact (paths_translated (fun _ => 0) accepted plain room).2.mpr fits 1

/-- A rule without a replacement is taken, and fails where its text occurs. -/
theorem deletion_fails : procTranslate (ascii "d:") = some ⟨ascii "d:", none⟩ ∧
    translated [⟨ascii "d:", none⟩] (ascii "d:/mail.pkt") = ascii "/mail.pkt" ∧
    floTranslate (fun _ => 0) bforceMaxPath [⟨ascii "d:", none⟩] (ascii "d:/mail.pkt") = none := by
  decide

end Binkleyforce
