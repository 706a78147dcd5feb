import Binkleyforce.Outbound.Translation

/-!
# FLO files

The files that wait for a system, one on each line of its FLO file. What has been sent is marked
in place: the first character of its line becomes a tilde. The offset of the line is taken before
it is read, so that the mark goes where the line starts, whatever was taken off its path.
-/

namespace Binkleyforce

open Library

/-- What becomes of a file that was sent. -/
inductive FloAction
  | nothing
  | unlink
  | truncate
  deriving DecidableEq

/-- `s_FLO`, with the place of its stream. -/
structure Flo where
  pos : Nat
  attOffs : Nat
  attPath : Bytes
  attAction : FloAction
  deriving DecidableEq

/-- `string_is_empty`. -/
def stringIsEmpty (string : Bytes) : Bool := string.all isspace

/-- `string_chomp`: the line end is taken off. -/
def stringChomp (str : Bytes) : Bytes :=
  let str := if str.getLast? = some 10 then str.dropLast else str
  if str.getLast? = some 13 then str.dropLast else str

/-- `fgets`: a line with its end, or as much of it as goes into the buffer. -/
def fgets (size : Nat) (rest : Bytes) : Option Bytes :=
  if rest.isEmpty then none
  else some ((rest.takeWhile (· ≠ 10) ++ (rest.dropWhile (· ≠ 10)).take 1).take (size - 1))

/-- What the first character of a line says is done with the file. -/
def floAction (line : Bytes) : FloAction :=
  if line.head? = some 94 || line.head? = some 45 then .unlink
  else if line.head? = some 35 then .truncate
  else .nothing

/-- The path of a line: neither the line end belongs to it, nor the character for the action. -/
def floPath (line : Bytes) : Bytes :=
  let path := stringChomp line
  if path.head? = some 64 || path.head? = some 94 || path.head? = some 45 || path.head? = some 35 then
    path.drop 1
  else path

/-- Lines of white space are passed over, and lines that are marked. -/
def floPassed (line : Bytes) : Bool := stringIsEmpty line || line.head? = some 126

section

variable (beyond : Nat → UInt8) (rules : List Translate) (content : Bytes)

/-- `flo_next`: the next line that is not passed over, or nothing at the end of the file. It
fails where `flo_translate` fails. -/
def floNext : Nat → Nat → Option (Option Flo)
  | 0, _ => none
  | fuel + 1, pos =>
    match fgets bforceMaxPath (content.drop pos) with
    | none => some none
    | some line =>
      let attPath := cstring line
      if floPassed attPath then floNext fuel (pos + line.length)
      else (floTranslate beyond bforceMaxPath rules (floPath attPath)).map fun path =>
        some ⟨pos + line.length, pos, path, floAction (stringChomp attPath)⟩

/-- A loop over the file, which a line ends that it looks for. -/
def floLoop (stop : Flo → Bool) : Nat → Nat → Option (Option Flo)
  | 0, _ => none
  | fuel + 1, pos =>
    match floNext beyond rules content (content.length + 1) pos with
    | none => none
    | some none => some none
    | some (some flo) => if stop flo then some (some flo) else floLoop stop fuel flo.pos

/-- All that the file lists. -/
def floList : Nat → Nat → Option (List Flo)
  | 0, _ => none
  | fuel + 1, pos =>
    match floNext beyond rules content (content.length + 1) pos with
    | none => none
    | some none => some []
    | some (some flo) => (floList fuel flo.pos).map (flo :: ·)

/-- The files that are listed, and what is done with them. -/
def floEntries : Option (List (FloAction × Bytes)) :=
  (floList beyond rules content (content.length + 1) 0).map (List.map fun flo => (flo.attAction, flo.attPath))

/-- `out_flo_isempty`, where `access` says which files there are. -/
def outFloIsempty (access : Bytes → Bool) : Option Bool :=
  (floLoop beyond rules content (fun flo => access flo.attPath) (content.length + 1) 0).map Option.isNone

/-- `out_flo_marksent`, with the file that it leaves. -/
def outFloMarksent (fname : Bytes) : Option Bytes :=
  (floLoop beyond rules content (fun flo => fname == flo.attPath) (content.length + 1) 0).map fun found =>
    match found with
    | none => content
    | some flo => content.set flo.attOffs 126

end

/-! ## What the lines say -/

/-- The lines of a file, each with its end. -/
def floLines : Bytes → List Bytes
  | [] => []
  | char :: rest =>
    if char = 10 then [10] :: floLines rest
    else
      match floLines rest with
      | [] => [[char]]
      | line :: lines => (char :: line) :: lines

/-- What rules make of a path, in its buffer. -/
def pathTranslated (rules : List Translate) (path : Bytes) : Bytes :=
  rules.foldl (fun path rule => (rule.means path).take (bforceMaxPath - 1)) path

/-- Every rule whose text occurs has a replacement. -/
def Translatable : List Translate → Bytes → Prop
  | [], _ => True
  | rule :: rules, path =>
    (rule.find <:+: path → rule.repl.isSome) ∧
      Translatable rules ((rule.means path).take (bforceMaxPath - 1))

/-- The entry of a line. -/
def floEntry (rules : List Translate) (line : Bytes) : Option (FloAction × Bytes) :=
  if floPassed line then none
  else some (floAction (stringChomp line), pathTranslated rules (floPath line))

/-- The line names the file. -/
def Names (rules : List Translate) (fname line : Bytes) : Prop :=
  ∃ action, floEntry rules line = some (action, fname)

/-! ## Lines -/

/-- The lines are the file. -/
theorem floLines_flatten (content : Bytes) : (floLines content).flatten = content := by
  induction content with
  | nil => rfl
  | cons char rest inductionHypothesis =>
    unfold floLines
    split
    · rename_i newline
      rw [List.flatten_cons, inductionHypothesis, newline]
      rfl
    · split
      · rename_i nothing
        rw [nothing] at inductionHypothesis
        rw [← inductionHypothesis]
        rfl
      · rename_i line lines is
        rw [is] at inductionHypothesis
        rw [← inductionHypothesis]
        rfl

/-- The first line is what `fgets` reads, and the others follow it. -/
theorem floLines_cons {content line : Bytes} {lines : List Bytes} (is : floLines content = line :: lines) :
    content.takeWhile (· ≠ 10) ++ (content.dropWhile (· ≠ 10)).take 1 = line ∧
      floLines (content.drop line.length) = lines ∧ line ≠ [] := by
  induction content generalizing line lines with
  | nil => cases is
  | cons char rest inductionHypothesis =>
    unfold floLines at is
    split at is
    · rename_i newline
      cases is
      subst newline
      exact ⟨rfl, rfl, List.cons_ne_nil _ _⟩
    · rename_i other
      have goes : (decide (char ≠ 10)) = true := decide_eq_true other
      rw [List.takeWhile_cons, List.dropWhile_cons, if_pos goes, if_pos goes]
      split at is
      · rename_i nothing
        cases is
        have empty : rest = [] := by
          rw [← floLines_flatten rest, nothing]
          rfl
        subst empty
        exact ⟨rfl, rfl, List.cons_ne_nil _ _⟩
      · rename_i first others lines'
        cases is
        obtain ⟨read, later, -⟩ := inductionHypothesis lines'
        refine ⟨?_, later, List.cons_ne_nil _ _⟩
        rw [List.cons_append, read]

/-- There are no more lines than characters. -/
theorem floLines_length (content : Bytes) : (floLines content).length ≤ content.length := by
  induction content with
  | nil => exact Nat.le_refl 0
  | cons char rest inductionHypothesis =>
    unfold floLines
    split
    · exact Nat.succ_le_succ inductionHypothesis
    · split
      · exact Nat.succ_le_succ (Nat.zero_le _)
      · rename_i is
        rw [is] at inductionHypothesis
        exact Nat.le_succ_of_le inductionHypothesis

/-- A line ends with the first line end, and the others are those of the rest. -/
theorem floLines_ended {text : Bytes} (rest : Bytes) (plain : 10 ∉ text) :
    floLines (text ++ 10 :: rest) = (text ++ [10]) :: floLines rest := by
  induction text with
  | nil => rfl
  | cons char text inductionHypothesis =>
    rw [List.mem_cons, not_or] at plain
    rw [List.cons_append, floLines, if_neg (Ne.symm plain.1), inductionHypothesis plain.2]
    rfl

/-- What has no line end is one line. -/
theorem floLines_open {text : Bytes} (plain : 10 ∉ text) (filled : text ≠ []) : floLines text = [text] := by
  induction text with
  | nil => exact absurd rfl filled
  | cons char text inductionHypothesis =>
    rw [List.mem_cons, not_or] at plain
    rw [floLines, if_neg (Ne.symm plain.1)]
    cases text with
    | nil => rfl
    | cons next text => rw [inductionHypothesis plain.2 (List.cons_ne_nil _ _)]

/-- Every line has its end behind it, apart from the last one. -/
theorem floLines_form {content line : Bytes} {lines : List Bytes} (is : floLines content = line :: lines) :
    (∃ text, 10 ∉ text ∧ line = text ++ [10]) ∨ (10 ∉ line ∧ lines = []) := by
  induction content generalizing line lines with
  | nil => cases is
  | cons char rest inductionHypothesis =>
    unfold floLines at is
    split at is
    · cases is
      exact .inl ⟨[], List.not_mem_nil, rfl⟩
    · rename_i other
      split at is
      · cases is
        refine .inr ⟨fun member => other ?_, rfl⟩
        exact (List.mem_singleton.mp member).symm
      · rename_i first others lines'
        cases is
        rcases inductionHypothesis lines' with ⟨text, plain, rfl⟩ | ⟨plain, nothing⟩
        · refine .inl ⟨char :: text, ?_, rfl⟩
          rw [List.mem_cons, not_or]
          exact ⟨Ne.symm other, plain⟩
        · refine .inr ⟨?_, nothing⟩
          rw [List.mem_cons, not_or]
          exact ⟨Ne.symm other, plain⟩

/-- A line that starts with a line end is empty. -/
theorem floLines_newline {content rest : Bytes} (member : 10 :: rest ∈ floLines content) : rest = [] := by
  induction content with
  | nil => cases member
  | cons char content inductionHypothesis =>
    unfold floLines at member
    split at member
    · rcases List.mem_cons.mp member with here | later
      · exact (List.cons.inj here).2
      · exact inductionHypothesis later
    · rename_i other
      split at member
      · have here := List.mem_singleton.mp member
        exact absurd (List.cons.inj here).1.symm other
      · rename_i line lines is
        rcases List.mem_cons.mp member with here | later
        · exact absurd (List.cons.inj here).1.symm other
        · exact inductionHypothesis (is ▸ List.mem_cons_of_mem _ later)

/-- The lines behind a line are those of the file behind it. -/
theorem floLines_later {content line : Bytes} {lines : List Bytes} (is : floLines content = line :: lines) :
    floLines lines.flatten = lines := by
  have later := (floLines_cons is).2.1
  rw [← later, floLines_flatten, later]

/-- A line may start with another character, and the lines stay where they are. -/
theorem floLines_marked {content : Bytes} {first : UInt8} {rest : Bytes} {earlier later : List Bytes}
    (is : floLines content = earlier ++ (first :: rest) :: later) (other : first ≠ 10) :
    floLines (earlier.flatten ++ (126 :: rest ++ later.flatten)) = earlier ++ (126 :: rest) :: later := by
  induction earlier generalizing content with
  | nil =>
    rw [List.flatten_nil, List.nil_append, List.nil_append]
    rw [List.nil_append] at is
    rcases floLines_form is with ⟨text, plain, line⟩ | ⟨plain, rfl⟩
    · cases text with
      | nil =>
        rw [List.nil_append, List.cons.injEq] at line
        exact absurd line.1 other
      | cons char text =>
        rw [List.cons_append, List.cons.injEq] at line
        rw [List.mem_cons, not_or] at plain
        have marked : 10 ∉ (126 : UInt8) :: text := by
          rw [List.mem_cons, not_or]
          exact ⟨by decide, plain.2⟩
        have lines := floLines_ended later.flatten marked
        rw [floLines_later is] at lines
        rw [line.2, ← List.cons_append, List.append_assoc, List.singleton_append, lines]
    · rw [List.mem_cons, not_or] at plain
      rw [List.flatten_nil, List.append_nil]
      apply floLines_open _ (List.cons_ne_nil _ _)
      rw [List.mem_cons, not_or]
      exact ⟨by decide, plain.2⟩
  | cons line earlier inductionHypothesis =>
    rw [List.cons_append] at is
    rcases floLines_form is with ⟨text, plain, rfl⟩ | ⟨-, nothing⟩
    · have further := inductionHypothesis (floLines_cons is).2.1
      rw [List.flatten_cons, List.append_assoc, List.append_assoc, List.singleton_append,
        floLines_ended _ plain, further]
      rfl
    · exact absurd nothing (by simp)

/-! ## Paths -/

/-- What a path is made of stands in its line. -/
theorem floPath_sublist (line : Bytes) : (floPath line).Sublist line := by
  have chomped : (stringChomp line).Sublist line := by
    unfold stringChomp
    dsimp only
    split
    · split
      · exact (List.dropLast_sublist _).trans (List.dropLast_sublist _)
      · exact List.dropLast_sublist _
    · split
      · exact List.dropLast_sublist _
      · exact List.Sublist.refl _
  unfold floPath
  dsimp only
  split
  · exact (List.drop_sublist _ _).trans chomped
  · exact chomped

/-- `flo_translate` gives what the rules say in the buffer, exactly if every rule whose text
occurs has a replacement. -/
theorem floTranslate_translatable (beyond : Nat → UInt8) {rules : List Translate} {path : Bytes}
    (accepted : Accepted rules) (plain : 0 ∉ path) (room : path.length < bforceMaxPath) :
    (Translatable rules path →
        floTranslate beyond bforceMaxPath rules path = some (pathTranslated rules path)) ∧
      ((floTranslate beyond bforceMaxPath rules path).isSome → Translatable rules path) := by
  induction rules generalizing path with
  | nil => exact ⟨fun _ => rfl, fun _ => trivial⟩
  | cons rule rules inductionHypothesis =>
    obtain ⟨⟨value, plainValue, is⟩, acceptedLater⟩ := List.forall_mem_cons.mp accepted
    obtain ⟨filled, plainFind, plainRepl⟩ := procTranslate_some plainValue is
    have means := stringTranslate_means beyond plain filled plainFind plainRepl
    have plainMeans := Translate.means_plain plain plainRepl
    have plainCut : 0 ∉ (rule.means path).take (bforceMaxPath - 1) :=
      fun member => plainMeans (List.mem_of_mem_take member)
    have short : ((rule.means path).take (bforceMaxPath - 1)).length < bforceMaxPath := by
      rw [List.length_take]
      exact Nat.lt_of_le_of_lt (Nat.min_le_left _ _) (by decide)
    obtain ⟨gives, needs⟩ := inductionHypothesis acceptedLater plainCut short
    unfold floTranslate Translatable
    by_cases found : rule.find <:+: path
    · rw [if_pos (strstr_isSome.mpr found)]
      cases some : rule.repl with
      | none =>
        constructor
        · intro translatable
          exact absurd (translatable.1 found) Bool.false_ne_true
        · intro given
          cases given
      | some repl =>
        rw [some] at means
        have string : cstring (rule.means path) = rule.means path :=
          cstring_whole _ fun char member zero => plainMeans (zero ▸ member)
        rw [means.mpr rfl, Option.bind_some, strnxcpy, string]
        exact ⟨fun translatable => gives translatable.2, fun given => ⟨fun _ => rfl, needs given⟩⟩
    · have still : rule.means path = path := replaceAll_absent _ found
      have whole : path.take (bforceMaxPath - 1) = path := List.take_of_length_le (by omega)
      rw [if_neg (mt strstr_isSome.mp found)]
      rw [still, whole] at gives needs ⊢
      refine ⟨fun translatable => ?_, fun given => ⟨fun there => absurd there found, needs given⟩⟩
      rw [gives translatable.2]
      unfold pathTranslated
      rw [List.foldl_cons, still, whole]

/-! ## Reading -/

/-- A line that goes into the buffer, without NUL. -/
def GoodLine (line : Bytes) : Prop := line.length < bforceMaxPath ∧ 0 ∉ line

/-- The path of a good line is good. -/
theorem GoodLine.path {line : Bytes} (good : GoodLine line) :
    (floPath line).length < bforceMaxPath ∧ 0 ∉ floPath line :=
  ⟨Nat.lt_of_le_of_lt (floPath_sublist line).length_le good.1,
    fun member => good.2 ((floPath_sublist line).subset member)⟩

/-- A good line is read as it is. -/
theorem fgets_line {content line : Bytes} {lines : List Bytes} (is : floLines content = line :: lines)
    (good : GoodLine line) : fgets bforceMaxPath content = some line ∧ cstring line = line := by
  obtain ⟨read, -, -⟩ := floLines_cons is
  constructor
  · unfold fgets
    rw [read, if_neg, List.take_of_length_le]
    · have := good.1
      omega
    · intro empty
      rw [List.isEmpty_iff.mp empty] at is
      cases is
  · exact cstring_whole _ fun char member zero => good.2 (zero ▸ member)

/-- At the end of the file nothing is read. -/
theorem fgets_end {content : Bytes} (is : floLines content = []) : fgets bforceMaxPath content = none := by
  have empty : content = [] := by
    rw [← floLines_flatten content, is]
    rfl
  rw [empty]
  rfl

section

variable (beyond : Nat → UInt8) {rules : List Translate} {content : Bytes}

/-- More steps than there are lines are as good as any others. -/
theorem floNext_enough {pos : Nat} {lines : List Bytes} (is : floLines (content.drop pos) = lines)
    (good : ∀ line ∈ lines, GoodLine line) {fuel other : Nat} (enough : lines.length < fuel)
    (enoughToo : lines.length < other) :
    floNext beyond rules content fuel pos = floNext beyond rules content other pos := by
  induction lines generalizing pos fuel other with
  | nil =>
    cases fuel with
    | zero => exact absurd enough (Nat.not_lt_zero _)
    | succ fuel =>
      cases other with
      | zero => exact absurd enoughToo (Nat.not_lt_zero _)
      | succ other => rw [floNext, floNext, fgets_end is]
  | cons line lines inductionHypothesis =>
    rw [List.forall_mem_cons] at good
    cases fuel with
    | zero => exact absurd enough (Nat.not_lt_zero _)
    | succ fuel =>
      cases other with
      | zero => exact absurd enoughToo (Nat.not_lt_zero _)
      | succ other =>
        obtain ⟨-, later, -⟩ := floLines_cons is
        rw [List.drop_drop] at later
        have same := inductionHypothesis later good.2 (Nat.lt_of_succ_lt_succ enough)
          (Nat.lt_of_succ_lt_succ enoughToo)
        rw [floNext, floNext, (fgets_line is good.1).1]
        dsimp only
        rw [same]

variable {pos : Nat} {line : Bytes} {lines : List Bytes}

/-- A line that is passed over makes no difference. -/
theorem floNext_passed (is : floLines (content.drop pos) = line :: lines)
    (good : ∀ other ∈ line :: lines, GoodLine other) (passed : floPassed line) :
    floNext beyond rules content (content.length + 1) pos =
      floNext beyond rules content (content.length + 1) (pos + line.length) := by
  obtain ⟨-, later, -⟩ := floLines_cons is
  rw [List.drop_drop] at later
  have few := floLines_length (content.drop pos)
  rw [is, List.length_cons, List.length_drop] at few
  rw [List.forall_mem_cons] at good
  obtain ⟨read, string⟩ := fgets_line is good.1
  rw [floNext, read]
  dsimp only
  rw [string, if_pos passed]
  exact floNext_enough beyond later good.2 (by omega) (by omega)

/-- Any other line is read, and its path translated. -/
theorem floNext_read (is : floLines (content.drop pos) = line :: lines) (good : GoodLine line)
    (other : floPassed line = false) :
    floNext beyond rules content (content.length + 1) pos =
      (floTranslate beyond bforceMaxPath rules (floPath line)).map fun path =>
        some ⟨pos + line.length, pos, path, floAction (stringChomp line)⟩ := by
  obtain ⟨read, string⟩ := fgets_line is good
  rw [floNext, read]
  dsimp only
  rw [string, if_neg (by rw [other]; exact Bool.false_ne_true)]

/-- Behind the last line the file ends. -/
theorem floNext_end (is : floLines (content.drop pos) = []) :
    floNext beyond rules content (content.length + 1) pos = some none := by
  rw [floNext, fgets_end is]

end

/-- What is read of the lines from a place of the file on. -/
def listed (rules : List Translate) : List Bytes → Nat → List Flo
  | [], _ => []
  | line :: lines, pos =>
    let later := listed rules lines (pos + line.length)
    if floPassed line then later
    else ⟨pos + line.length, pos, pathTranslated rules (floPath line), floAction (stringChomp line)⟩ :: later

/-- The paths of all lines that are not passed over can be translated. -/
def AllTranslatable (rules : List Translate) (lines : List Bytes) : Prop :=
  ∀ line ∈ lines, floPassed line = false → Translatable rules (floPath line)

section

variable (beyond : Nat → UInt8) {rules : List Translate} {content : Bytes}

/-- The path of a line is translated. -/
theorem floTranslate_line {line : Bytes} (accepted : Accepted rules) (good : GoodLine line)
    (translatable : Translatable rules (floPath line)) :
    floTranslate beyond bforceMaxPath rules (floPath line) = some (pathTranslated rules (floPath line)) :=
  (floTranslate_translatable beyond accepted good.path.2 good.path.1).1 translatable

/-- The loop ends at the first line that it looks for. -/
theorem floLoop_listed (accepted : Accepted rules) (stop : Flo → Bool) {pos : Nat} {lines : List Bytes}
    (is : floLines (content.drop pos) = lines) (good : ∀ line ∈ lines, GoodLine line)
    (translatable : AllTranslatable rules lines) {fuel : Nat} (enough : lines.length < fuel) :
    floLoop beyond rules content stop fuel pos = some ((listed rules lines pos).find? stop) := by
  induction lines generalizing pos fuel with
  | nil =>
    cases fuel with
    | zero => exact absurd enough (Nat.not_lt_zero _)
    | succ fuel =>
      rw [floLoop, floNext_end beyond is]
      rfl
  | cons line lines inductionHypothesis =>
    obtain ⟨-, later, -⟩ := floLines_cons is
    rw [List.drop_drop] at later
    obtain ⟨goodHere, goodLater⟩ := List.forall_mem_cons.mp good
    obtain ⟨here, translatableLater⟩ := List.forall_mem_cons.mp translatable
    rw [List.length_cons] at enough
    unfold listed
    dsimp only
    cases passed : floPassed line with
    | true =>
      rw [if_pos rfl, ← inductionHypothesis later goodLater translatableLater (Nat.lt_of_succ_lt enough)]
      cases fuel with
      | zero => exact absurd enough (Nat.not_lt_zero _)
      | succ fuel => rw [floLoop, floLoop, floNext_passed beyond is good passed]
    | false =>
      rw [if_neg Bool.false_ne_true, List.find?_cons]
      cases fuel with
      | zero => exact absurd enough (Nat.not_lt_zero _)
      | succ fuel =>
        rw [floLoop, floNext_read beyond is goodHere passed,
          floTranslate_line beyond accepted goodHere (here passed), Option.map_some]
        dsimp only
        rw [inductionHypothesis later goodLater translatableLater (Nat.lt_of_succ_lt_succ enough)]
        cases stop _ with
        | true => rfl
        | false => rfl

/-- All that can be translated is listed. -/
theorem floList_listed (accepted : Accepted rules) {pos : Nat} {lines : List Bytes}
    (is : floLines (content.drop pos) = lines) (good : ∀ line ∈ lines, GoodLine line)
    (translatable : AllTranslatable rules lines) {fuel : Nat} (enough : lines.length < fuel) :
    floList beyond rules content fuel pos = some (listed rules lines pos) := by
  induction lines generalizing pos fuel with
  | nil =>
    cases fuel with
    | zero => exact absurd enough (Nat.not_lt_zero _)
    | succ fuel =>
      rw [floList, floNext_end beyond is]
      rfl
  | cons line lines inductionHypothesis =>
    obtain ⟨-, later, -⟩ := floLines_cons is
    rw [List.drop_drop] at later
    obtain ⟨goodHere, goodLater⟩ := List.forall_mem_cons.mp good
    obtain ⟨here, translatableLater⟩ := List.forall_mem_cons.mp translatable
    rw [List.length_cons] at enough
    unfold listed
    dsimp only
    cases passed : floPassed line with
    | true =>
      rw [if_pos rfl, ← inductionHypothesis later goodLater translatableLater (Nat.lt_of_succ_lt enough)]
      cases fuel with
      | zero => exact absurd enough (Nat.not_lt_zero _)
      | succ fuel => rw [floList, floList, floNext_passed beyond is good passed]
    | false =>
      rw [if_neg Bool.false_ne_true]
      cases fuel with
      | zero => exact absurd enough (Nat.not_lt_zero _)
      | succ fuel =>
        rw [floList, floNext_read beyond is goodHere passed,
          floTranslate_line beyond accepted goodHere (here passed), Option.map_some]
        dsimp only
        rw [inductionHypothesis later goodLater translatableLater (Nat.lt_of_succ_lt_succ enough)]
        rfl

/-- What has been listed could be translated. -/
theorem floList_translatable (accepted : Accepted rules) {pos : Nat} {lines : List Bytes}
    (is : floLines (content.drop pos) = lines) (good : ∀ line ∈ lines, GoodLine line) {fuel : Nat}
    (all : (floList beyond rules content fuel pos).isSome) : AllTranslatable rules lines := by
  induction lines generalizing pos fuel with
  | nil => exact nofun
  | cons line lines inductionHypothesis =>
    obtain ⟨-, later, -⟩ := floLines_cons is
    rw [List.drop_drop] at later
    obtain ⟨goodHere, goodLater⟩ := List.forall_mem_cons.mp good
    cases fuel with
    | zero => cases all
    | succ fuel =>
      refine List.forall_mem_cons.mpr ?_
      cases passed : floPassed line with
      | true =>
        have same : (floList beyond rules content (fuel + 1) (pos + line.length)).isSome := by
          rw [floList, floNext_passed beyond is good passed] at all
          rw [floList]
          exact all
        exact ⟨nofun, inductionHypothesis later goodLater same⟩
      | false =>
        rw [floList, floNext_read beyond is goodHere passed] at all
        cases given : floTranslate beyond bforceMaxPath rules (floPath line) with
        | none =>
          rw [given] at all
          cases all
        | some path =>
          rw [given, Option.map_some] at all
          dsimp only at all
          rw [Option.isSome_map] at all
          refine ⟨fun _ => ?_, inductionHypothesis later goodLater all⟩
          apply (floTranslate_translatable beyond accepted goodHere.path.2 goodHere.path.1).2
          rw [given]
          rfl

end

/-! ## Marking -/

/-- The entries of the lines are what is read of them. -/
theorem listed_entries (rules : List Translate) (lines : List Bytes) (pos : Nat) :
    (listed rules lines pos).map (fun flo => (flo.attAction, flo.attPath)) =
      lines.filterMap (floEntry rules) := by
  induction lines generalizing pos with
  | nil => rfl
  | cons line lines inductionHypothesis =>
    unfold listed
    dsimp only
    rw [List.filterMap_cons, floEntry]
    split
    · exact inductionHypothesis _
    · rw [List.map_cons, inductionHypothesis]

/-- A line that is passed over names nothing. -/
theorem not_names_passed {rules : List Translate} {fname line : Bytes} (passed : floPassed line) :
    ¬ Names rules fname line := by
  rintro ⟨action, entry⟩
  rw [floEntry, if_pos passed] at entry
  cases entry

/-- Any other line names its translated path. -/
theorem names_iff {rules : List Translate} {fname line : Bytes} (other : ¬ floPassed line) :
    Names rules fname line ↔ fname = pathTranslated rules (floPath line) := by
  unfold Names floEntry
  rw [if_neg other]
  constructor
  · rintro ⟨action, entry⟩
    cases entry
    rfl
  · rintro rfl
    exact ⟨_, rfl⟩

/-- The loop that looks for a name ends at the first line that names it, or finds none. -/
theorem listed_find (rules : List Translate) (fname : Bytes) (lines : List Bytes) (pos : Nat) :
    (((listed rules lines pos).find? fun flo => fname == flo.attPath) = none ∧
        ∀ line ∈ lines, ¬ Names rules fname line) ∨
      ∃ earlier line later flo, lines = earlier ++ line :: later ∧
        (∀ other ∈ earlier, ¬ Names rules fname other) ∧ Names rules fname line ∧
        ((listed rules lines pos).find? fun flo => fname == flo.attPath) = some flo ∧
        flo.attOffs = pos + earlier.flatten.length := by
  induction lines generalizing pos with
  | nil => exact .inl ⟨rfl, nofun⟩
  | cons line lines inductionHypothesis =>
    -- Where the line does not name the file, the loop goes on behind it.
    have further (unnamed : ¬ Names rules fname line)
        (goes : ((listed rules (line :: lines) pos).find? fun flo => fname == flo.attPath) =
          (listed rules lines (pos + line.length)).find? fun flo => fname == flo.attPath) :
        (((listed rules (line :: lines) pos).find? fun flo => fname == flo.attPath) = none ∧
            ∀ other ∈ line :: lines, ¬ Names rules fname other) ∨
          ∃ earlier first later flo, line :: lines = earlier ++ first :: later ∧
            (∀ other ∈ earlier, ¬ Names rules fname other) ∧ Names rules fname first ∧
            ((listed rules (line :: lines) pos).find? fun flo => fname == flo.attPath) = some flo ∧
            flo.attOffs = pos + earlier.flatten.length := by
      rw [goes]
      rcases inductionHypothesis (pos + line.length) with
        ⟨nothing, none⟩ | ⟨earlier, first, later, flo, whole, before, named, found, offset⟩
      · exact .inl ⟨nothing, List.forall_mem_cons.mpr ⟨unnamed, none⟩⟩
      · refine .inr ⟨line :: earlier, first, later, flo, ?_, ?_, named, found, ?_⟩
        · rw [whole, List.cons_append]
        · exact List.forall_mem_cons.mpr ⟨unnamed, before⟩
        · rw [offset, List.flatten_cons, List.length_append, Nat.add_assoc]
    by_cases passed : floPassed line
    · apply further (not_names_passed passed)
      rw [listed, if_pos passed]
    · by_cases named : Names rules fname line
      · refine .inr ⟨[], line, lines, ⟨pos + line.length, pos, pathTranslated rules (floPath line),
          floAction (stringChomp line)⟩, rfl, nofun, named, ?_, rfl⟩
        rw [listed, if_neg passed, List.find?_cons, beq_iff_eq.mpr ((names_iff passed).mp named)]
      · apply further named
        have different : (fname == pathTranslated rules (floPath line)) = false :=
          beq_eq_false_iff_ne.mpr (mt (names_iff passed).mpr named)
        rw [listed, if_neg passed, List.find?_cons, different]

/-- The mark goes to the first character of the line. -/
theorem set_marked {content : Bytes} {first : UInt8} {rest : Bytes} {earlier later : List Bytes}
    (is : floLines content = earlier ++ (first :: rest) :: later) :
    content.set earlier.flatten.length 126 = earlier.flatten ++ (126 :: rest ++ later.flatten) := by
  rw [← floLines_flatten content, is, List.flatten_append, List.flatten_cons,
    List.set_append_right _ _ (Nat.le_refl _), Nat.sub_self]
  rfl

/-- What the functions on FLO files do: all entries are listed, the first character of the first
line that names the file is marked and no other is changed, so that the entries of the other
lines stay, and a file is empty if none of its entries names a file that exists. -/
structure FloRight (beyond : Nat → UInt8) (rules : List Translate) (content fname : Bytes)
    (access : Bytes → Bool) : Prop where
  entries : floEntries beyond rules content = some ((floLines content).filterMap (floEntry rules))
  marked : (outFloMarksent beyond rules content fname = some content ∧
      ∀ line ∈ floLines content, ¬ Names rules fname line) ∨
    ∃ earlier line later, floLines content = earlier ++ line :: later ∧
      (∀ other ∈ earlier, ¬ Names rules fname other) ∧ Names rules fname line ∧
      outFloMarksent beyond rules content fname = some (content.set earlier.flatten.length 126) ∧
      floEntries beyond rules (content.set earlier.flatten.length 126) =
        some ((earlier ++ later).filterMap (floEntry rules))
  empty : ∃ empty, outFloIsempty beyond rules content access = some empty ∧
    (empty = true ↔ ∀ entry ∈ (floLines content).filterMap (floEntry rules), access entry.2 = false)

section

variable (beyond : Nat → UInt8) {rules : List Translate} {content : Bytes}

/-- All entries are listed. -/
theorem floEntries_all (accepted : Accepted rules) (good : ∀ line ∈ floLines content, GoodLine line)
    (translatable : AllTranslatable rules (floLines content)) :
    floEntries beyond rules content = some ((floLines content).filterMap (floEntry rules)) := by
  have start : floLines (content.drop 0) = floLines content := rfl
  unfold floEntries
  rw [floList_listed beyond accepted start good translatable (Nat.lt_succ_of_le (floLines_length content)),
    Option.map_some]
  exact congrArg some (listed_entries rules _ 0)

/-- The entries of the other lines stay. -/
theorem floEntries_marked (accepted : Accepted rules) (good : ∀ line ∈ floLines content, GoodLine line)
    (translatable : AllTranslatable rules (floLines content)) {earlier later : List Bytes} {line : Bytes}
    (is : floLines content = earlier ++ line :: later) (other : ¬ floPassed line) :
    floEntries beyond rules (content.set earlier.flatten.length 126) =
      some ((earlier ++ later).filterMap (floEntry rules)) := by
  cases line with
  | nil => exact absurd rfl other
  | cons first rest =>
    have kept : first ≠ 10 := by
      rintro rfl
      have nothing := floLines_newline (is ▸ List.mem_append_right _ List.mem_cons_self)
      subst nothing
      exact other rfl
    have lines := floLines_marked is kept
    rw [← set_marked is] at lines
    have member {text : Bytes} (there : text ∈ earlier ++ later) : text ∈ floLines content := by
      rw [is]
      rcases List.mem_append.mp there with front | back
      · exact List.mem_append_left _ front
      · exact List.mem_append_right _ (List.mem_cons_of_mem _ back)
    have passed : floPassed (126 :: rest) = true := by
      unfold floPassed
      rw [List.head?_cons, decide_eq_true rfl, Bool.or_true]
    have split {text : Bytes} (there : text ∈ earlier ++ (126 :: rest) :: later) :
        text = 126 :: rest ∨ text ∈ earlier ++ later := by
      rcases List.mem_append.mp there with front | back
      · exact .inr (List.mem_append_left _ front)
      · exact (List.mem_cons.mp back).imp_right (List.mem_append_right _)
    rw [floEntries_all beyond accepted, lines, List.filterMap_append, List.filterMap_cons, floEntry,
      if_pos passed, List.filterMap_append]
    · intro text there
      rw [lines] at there
      rcases split there with rfl | there
      · have whole := good (first :: rest) (is ▸ List.mem_append_right _ List.mem_cons_self)
        refine ⟨whole.1, ?_⟩
        rw [List.mem_cons, not_or]
        exact ⟨by decide, fun zero => whole.2 (List.mem_cons_of_mem _ zero)⟩
      · exact good text (member there)
    · intro text there unpassed
      rw [lines] at there
      rcases split there with rfl | there
      · rw [passed] at unpassed
        cases unpassed
      · exact translatable text (member there) unpassed

/-- All lists and marks are right, exactly if every path of a line that is not passed over can be
translated. -/
theorem flo_right (fname : Bytes) (access : Bytes → Bool) (accepted : Accepted rules)
    (good : ∀ line ∈ floLines content, GoodLine line) :
    FloRight beyond rules content fname access ↔ AllTranslatable rules (floLines content) := by
  have start : floLines (content.drop 0) = floLines content := rfl
  have enough : (floLines content).length < content.length + 1 := Nat.lt_succ_of_le (floLines_length content)
  constructor
  · intro right
    apply floList_translatable beyond accepted start good
    have all := right.entries
    unfold floEntries at all
    obtain ⟨flos, listed, -⟩ := Option.map_eq_some_iff.mp all
    exact Option.isSome_of_mem listed
  · intro translatable
    refine ⟨floEntries_all beyond accepted good translatable, ?_, ?_⟩
    · have loop := floLoop_listed beyond accepted (fun flo => fname == flo.attPath) start good translatable enough
      rcases listed_find rules fname (floLines content) 0 with
        ⟨nothing, none⟩ | ⟨earlier, line, later, flo, whole, before, named, found, offset⟩
      · refine .inl ⟨?_, none⟩
        unfold outFloMarksent
        rw [loop, nothing]
        rfl
      · refine .inr ⟨earlier, line, later, whole, before, named, ?_, ?_⟩
        · unfold outFloMarksent
          rw [Nat.zero_add] at offset
          rw [loop, found, Option.map_some, ← offset]
        · exact floEntries_marked beyond accepted good translatable whole fun passed =>
            not_names_passed passed named
    · have loop := floLoop_listed beyond accepted (fun flo => access flo.attPath) start good translatable enough
      refine ⟨((listed rules (floLines content) 0).find? fun flo => access flo.attPath).isNone, ?_, ?_⟩
      · unfold outFloIsempty
        rw [loop]
        rfl
      · rw [← listed_entries rules (floLines content) 0, Option.isNone_iff_eq_none, List.find?_eq_none,
          List.forall_mem_map]
        simp only [Bool.not_eq_true]

end

/-- A file with a marked line, and another with white space only. -/
def floExample : Bytes :=
  ascii "^d:/mail.pkt" ++ [13, 10] ++ ascii "~/out/sent.pkt" ++ [10, 32, 10] ++ ascii "/out/last.pkt"

/-- The first entry of the file is marked. -/
theorem flo_right_example : FloRight (fun _ => 0) [driveRule] floExample (ascii "/mnt/mail.pkt") fun _ => false := by
  have accepted : Accepted [driveRule] :=
    List.forall_mem_singleton.mpr ⟨ascii "d: /mnt", by decide, by decide⟩
  have good : ∀ line ∈ floLines floExample, GoodLine line := by
    unfold GoodLine
    decide
  exact (flo_right _ _ _ accepted good).mpr fun line _ _ => ⟨fun _ => rfl, trivial⟩

/-- A rule without a replacement makes the functions fail, and nothing is marked. -/
theorem flo_deletion_fails : procTranslate (ascii "d:") = some ⟨ascii "d:", none⟩ ∧
    Names [⟨ascii "d:", none⟩] (ascii "/mail.pkt") (ascii "d:/mail.pkt") ∧
    outFloMarksent (fun _ => 0) [⟨ascii "d:", none⟩] (ascii "d:/mail.pkt") (ascii "/mail.pkt") = none := by
  refine ⟨by decide, ⟨.nothing, ?_⟩, ?_⟩
  · decide
  · decide

end Binkleyforce
