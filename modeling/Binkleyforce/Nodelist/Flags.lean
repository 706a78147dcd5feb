import Binkleyforce.Library.Segments
import Binkleyforce.Util.Flags

/-!
# The fields of the nodelist flags

Commas cut the flags into fields. A field has a flag if it is the flag, or the flag with a
colon and a value behind it. The search of the source looks for the text of the flag and then
at its neighbours, so that it also takes other fields for the flag: the last one where it
only begins with the flag, and any one where the flag comes twice, one character apart.
-/

namespace Binkleyforce

open Library

/-- The field has the flag. -/
def hasFlag (flag field : Bytes) : Bool := field == flag || (flag ++ [58]).isPrefixOf field

/-- The value of a flag in a field that has it, empty where it has none. -/
def fieldValue (flag field : Bytes) : Bytes := field.drop (flag.length + 1)

/-- The text goes on with a colon, or it is empty. -/
def EndsFlag (back : Bytes) : Prop := back = [] ∨ back.head? = some 58

/-- The field is taken for the flag without having it. `last` says that no field follows. -/
def Lure (flag field : Bytes) (last : Bool) : Prop :=
  (last = true ∧ flag <+: field) ∨
    ∃ before char back, field = before ++ char :: (flag ++ back) ∧ flag <+: char :: (flag ++ back) ∧
      (last = true ∨ EndsFlag back)

/-- A field of the flags is taken for the flag without having it. -/
def Lures (flag flags : Bytes) : Prop :=
  (∃ field ∈ (flags.splitOn 44).dropLast, Lure flag field false) ∨
    ∃ field, (flags.splitOn 44).getLast? = some field ∧ Lure flag field true

/-! ## Fields -/

/-- A field with the flag begins with it. -/
theorem hasFlag_iff {flag field : Bytes} :
    hasFlag flag field = true ↔ ∃ back, field = flag ++ back ∧ EndsFlag back := by
  unfold hasFlag EndsFlag
  rw [Bool.or_eq_true, beq_iff_eq, List.isPrefixOf_iff_prefix]
  constructor
  · rintro (rfl | ⟨value, rfl⟩)
    · exact ⟨[], (List.append_nil field).symm, .inl rfl⟩
    · exact ⟨58 :: value, by rw [List.append_assoc, List.singleton_append], .inr rfl⟩
  · rintro ⟨back, rfl, none | colon⟩
    · subst none
      exact .inl (List.append_nil flag)
    · obtain ⟨value, rfl⟩ := List.head?_eq_some_iff.mp colon
      exact .inr ⟨value, by rw [List.append_assoc, List.singleton_append]⟩

/-- A flag without a comma stands inside of one field. -/
theorem flag_prefix_field {flag field tail : Bytes} (plain : 44 ∉ flag) (cut : tail = [] ∨ tail.head? = some 44) :
    flag <+: field ++ tail ↔ flag <+: field := by
  constructor
  · rintro ⟨rest, found⟩
    rcases List.append_eq_append_iff.mp found with ⟨back, rfl, -⟩ | ⟨more, rfl, later⟩
    · exact List.prefix_append flag back
    · cases more with
      | nil =>
        simp
      | cons char more =>
        subst later
        rcases cut with none | comma
        · cases none
        · obtain rfl : char = 44 := Option.some.inj comma
          exact absurd (List.mem_append_right field List.mem_cons_self) plain
  · intro inside
    exact inside.trans (List.prefix_append field tail)

/-- What must follow a flag that was found. -/
theorem flagEnds_iff {flag back tail : Bytes} (plain : 44 ∉ flag) (whole : 44 ∉ back)
    (cut : tail = [] ∨ tail.head? = some 44) :
    flagEnds flag (flag ++ (back ++ tail)) = true ↔ tail = [] ∨ EndsFlag back := by
  unfold flagEnds EndsFlag
  dsimp only
  rw [List.drop_left]
  rcases cut with rfl | comma
  · have none : (flag ++ (back ++ [])).contains 44 = false := by simp [plain, whole]
    rw [none]
    simp
  · obtain ⟨rest, rfl⟩ := List.head?_eq_some_iff.mp comma
    have there : (flag ++ (back ++ 44 :: rest)).contains 44 = true := by simp
    rw [there]
    cases back with
    | nil => simp
    | cons char back =>
      have other : char ≠ 44 := fun same => whole (same ▸ List.mem_cons_self)
      simp [other]

/-! ## The search for a flag -/

/-- What the search finds in a field. `start` says that a search begins with it or that a
comma stands before. -/
def FoundIn (flag field : Bytes) (start last : Bool) : Prop :=
  ∃ front back, field = front ++ (flag ++ back) ∧
    ((front = [] ∧ start = true) ∨ ∃ before char, front = before ++ [char] ∧ flag <+: char :: (flag ++ back)) ∧
    (last = true ∨ EndsFlag back)

/-- The flag is found at the first character, or behind it. -/
theorem foundIn_cons {flag field : Bytes} {char : UInt8} {start last : Bool} :
    FoundIn flag (char :: field) start last ↔
      (start = true ∧ ∃ back, char :: field = flag ++ back ∧ (last = true ∨ EndsFlag back)) ∨
        FoundIn flag field (decide (flag <+: char :: field)) last := by
  constructor
  · rintro ⟨front, back, same, before, ends⟩
    cases front with
    | nil =>
      rcases before with ⟨-, start⟩ | ⟨before, other, none, -⟩
      · exact .inl ⟨start, back, same, ends⟩
      · exact absurd none.symm (List.append_ne_nil_of_right_ne_nil before (List.cons_ne_nil other []))
    | cons first front =>
      obtain ⟨rfl, rfl⟩ := List.cons.inj same
      refine .inr ⟨front, back, rfl, ?_, ends⟩
      rcases before with ⟨none, -⟩ | ⟨before, other, same, twice⟩
      · cases none
      · cases before with
        | nil =>
          obtain ⟨rfl, rfl⟩ := List.cons.inj same
          exact .inl ⟨rfl, decide_eq_true twice⟩
        | cons first before =>
          obtain ⟨-, rfl⟩ := List.cons.inj same
          exact .inr ⟨before, other, rfl, twice⟩
  · rintro (⟨start, back, same, ends⟩ | ⟨front, back, rfl, before, ends⟩)
    · exact ⟨[], back, same, .inl ⟨rfl, start⟩, ends⟩
    · refine ⟨char :: front, back, rfl, .inr ?_, ends⟩
      rcases before with ⟨rfl, twice⟩ | ⟨before, other, rfl, twice⟩
      · exact ⟨[], char, rfl, of_decide_eq_true twice⟩
      · exact ⟨char :: before, other, rfl, twice⟩

/-- The search goes through a field, and on behind the comma.

Induct over the field. -/
theorem nodelistCheckflag_field {flag field tail : Bytes} (plain : 44 ∉ flag) (whole : 44 ∉ field)
    (cut : tail = [] ∨ tail.head? = some 44) (start : Bool) :
    nodelistCheckflag flag (field ++ tail) start = true ↔
      FoundIn flag field start tail.isEmpty ∨
        ∃ rest, tail = 44 :: rest ∧ nodelistCheckflag flag rest true = true := by
  induction field generalizing start with
  | nil =>
    have found : FoundIn flag [] start tail.isEmpty ↔ flag = [] ∧ start = true := by
      constructor
      · rintro ⟨front, back, same, before, -⟩
        obtain ⟨rfl, none⟩ := List.append_eq_nil_iff.mp same.symm
        rcases before with ⟨-, start⟩ | ⟨before, char, none, -⟩
        · exact ⟨(List.append_eq_nil_iff.mp none).1, start⟩
        · exact absurd none.symm (List.append_ne_nil_of_right_ne_nil before (List.cons_ne_nil char []))
      · rintro ⟨rfl, start⟩
        exact ⟨[], [], rfl, .inl ⟨rfl, start⟩, .inr (.inl rfl)⟩
    rw [found, List.nil_append]
    rcases cut with rfl | comma
    · simp [nodelistCheckflag]
    · obtain ⟨rest, rfl⟩ := List.head?_eq_some_iff.mp comma
      rw [nodelistCheckflag]
      by_cases empty : flag = []
      · subst empty
        simp [flagEnds]
      · have none : ¬ flag <+: 44 :: rest := by
          intro there
          obtain ⟨char, flag, rfl⟩ := List.exists_cons_of_ne_nil empty
          exact plain ((List.cons_prefix_cons.mp there).1 ▸ List.mem_cons_self)
        simp [none, empty]
  | cons char field inductionHypothesis =>
    have inside : 44 ∉ field := fun member => whole (List.mem_cons_of_mem char member)
    have other : (char == 44) = false := beq_eq_false_iff_ne.mpr fun same => whole (same ▸ List.mem_cons_self)
    have prefixed := @flag_prefix_field flag (char :: field) tail plain cut
    rw [List.cons_append] at prefixed ⊢
    rw [nodelistCheckflag, foundIn_cons, or_assoc]
    by_cases there : flag <+: char :: field
    · rw [if_pos (prefixed.mpr there), decide_eq_true there, Bool.or_eq_true, Bool.and_eq_true,
        inductionHypothesis inside true]
      refine or_congr (and_congr_right fun _ => ?_) Iff.rfl
      obtain ⟨back, same⟩ := there
      have behind : 44 ∉ back := by
        intro member
        exact whole (same ▸ List.mem_append_right flag member)
      rw [← List.cons_append, ← same, List.append_assoc, flagEnds_iff plain behind cut, List.isEmpty_iff]
      constructor
      · exact fun ends => ⟨back, rfl, ends⟩
      · rintro ⟨after, same, ends⟩
        rwa [List.append_cancel_left same]
    · rw [if_neg (mt prefixed.mp there), other, decide_eq_false there, inductionHypothesis inside false]
      refine (or_iff_right ?_).symm
      rintro ⟨-, back, same, -⟩
      exact there ⟨back, same.symm⟩

/-- A field is found because it has the flag, or as a lure. -/
theorem foundIn_iff {flag field : Bytes} {last : Bool} :
    FoundIn flag field true last ↔ hasFlag flag field = true ∨ Lure flag field last := by
  rw [hasFlag_iff]
  constructor
  · rintro ⟨front, back, rfl, ⟨rfl, -⟩ | ⟨before, char, rfl, twice⟩, ends⟩
    · rcases ends with last | ends
      · exact .inr (.inl ⟨last, List.prefix_append flag back⟩)
      · exact .inl ⟨back, rfl, ends⟩
    · refine .inr (.inr ⟨before, char, back, ?_, twice, ends⟩)
      rw [List.append_assoc, List.singleton_append]
  · rintro (⟨back, rfl, ends⟩ | ⟨last, back, rfl⟩ | ⟨before, char, back, rfl, twice, ends⟩)
    · exact ⟨[], back, rfl, .inl ⟨rfl, rfl⟩, .inr ends⟩
    · exact ⟨[], back, rfl, .inl ⟨rfl, rfl⟩, .inl last⟩
    · refine ⟨before ++ [char], back, ?_, .inr ⟨before, char, rfl, twice⟩, ends⟩
      rw [List.append_assoc, List.singleton_append]

/-- The search finds a field that has the flag, or one that is a lure.

Induct over the fields of the flags. -/
theorem nodelistCheckflag_iff {flag : Bytes} (plain : 44 ∉ flag) (flags : Bytes) :
    nodelistCheckflag flag flags true = true ↔
      (∃ field ∈ flags.splitOn 44, hasFlag flag field = true) ∨ Lures flag flags := by
  induction flags using segments_induction (44 : UInt8) with
  | last field whole =>
    have search := nodelistCheckflag_field plain whole (.inl rfl) true
    rw [List.append_nil] at search
    rw [search, or_iff_left fun later => nomatch later.choose_spec.1]
    unfold Lures
    rw [List.splitOn_eq_singleton whole]
    simpa using foundIn_iff
  | more field rest whole inductionHypothesis =>
    have search := @nodelistCheckflag_field flag field (44 :: rest) plain whole (.inr rfl) true
    have later : (∃ other, 44 :: rest = 44 :: other ∧ nodelistCheckflag flag other true = true) ↔
        nodelistCheckflag flag rest true = true := by simp
    rw [search, later, inductionHypothesis]
    change FoundIn flag field true false ∨ _ ↔ _
    unfold Lures
    rw [foundIn_iff, List.splitOn_append_cons_self_of_not_mem whole]
    obtain ⟨first, others, fields⟩ := List.exists_cons_of_ne_nil (List.splitOn_ne_nil (44 : UInt8) rest)
    rw [fields, List.dropLast_cons_cons, List.getLast?_cons_cons, List.exists_mem_cons_iff _ field (first :: others),
      List.exists_mem_cons_iff (fun field => Lure flag field false) field]
    exact or_or_or_comm.trans (or_congr Iff.rfl or_assoc.symm)

/-- The search agrees with the fields where one has the flag or none is a lure. -/
theorem nodelistCheckflag_agrees {flag : Bytes} (plain : 44 ∉ flag) (flags : Bytes) :
    (nodelistCheckflag flag flags true = true ↔ ∃ field ∈ flags.splitOn 44, hasFlag flag field = true) ↔
      (∃ field ∈ flags.splitOn 44, hasFlag flag field = true) ∨ ¬ Lures flag flags := by
  rw [nodelistCheckflag_iff plain]
  by_cases there : ∃ field ∈ flags.splitOn 44, hasFlag flag field = true
  · exact iff_of_true (iff_of_true (.inl there) there) (.inl there)
  · rw [or_iff_right there, or_iff_right there, iff_false_right there]

/-! ## The value of a flag -/

/-- The answer and the value the fields give: those of the first field that has the flag. -/
def flagAnswer (flag flags : Bytes) : Bool × Bytes :=
  match (flags.splitOn 44).find? (hasFlag flag) with
  | some field => (true, fieldValue flag field)
  | none => (false, [])

/-- A field without the flag is passed. -/
theorem nodelistFlagvalue_passed (flag res field rest : Bytes) (whole : 44 ∉ field) :
    nodelistFlagvalue flag res (field ++ 44 :: rest) false = nodelistFlagvalue flag res rest true := by
  induction field with
  | nil =>
    rw [List.nil_append, nodelistFlagvalue]
    simp
  | cons char field inductionHypothesis =>
    have inside : 44 ∉ field := fun member => whole (List.mem_cons_of_mem char member)
    have other : (char == 44) = false := beq_eq_false_iff_ne.mpr fun same => whole (same ▸ List.mem_cons_self)
    rw [List.cons_append, nodelistFlagvalue, other]
    simp [inductionHypothesis inside]

/-- The last field without the flag ends the search. -/
theorem nodelistFlagvalue_ended (flag res field : Bytes) (whole : 44 ∉ field) :
    nodelistFlagvalue flag res field false =
      if flag.isEmpty then none else some (false, 0 :: res.drop 1) := by
  induction field with
  | nil =>
    rw [nodelistFlagvalue]
    cases flag <;> rfl
  | cons char field inductionHypothesis =>
    have inside : 44 ∉ field := fun member => whole (List.mem_cons_of_mem char member)
    have other : (char == 44) = false := beq_eq_false_iff_ne.mpr fun same => whole (same ▸ List.mem_cons_self)
    rw [nodelistFlagvalue, other]
    simp [inductionHypothesis inside]

/-- What the buffer holds after a field with the flag. -/
def valueBuffer (flag field res : Bytes) : Bytes :=
  if field = flag then 0 :: res.drop 1 else fieldValue flag field ++ res.drop (fieldValue flag field).length

/-- A text without a comma is taken up to the cut. -/
theorem takeWhile_comma {value tail : Bytes} (whole : 44 ∉ value) (cut : tail = [] ∨ tail.head? = some 44) :
    (value ++ tail).takeWhile (· ≠ 44) = value := by
  have inside : ∀ char ∈ value, decide (char ≠ 44) = true := by
    intro char member
    exact decide_eq_true fun same => whole (same ▸ member)
  have nothing : tail.takeWhile (· ≠ 44) = [] := by
    rcases cut with rfl | comma
    · rfl
    · obtain ⟨rest, rfl⟩ := List.head?_eq_some_iff.mp comma
      rfl
  rw [List.takeWhile_append_of_pos inside, nothing, List.append_nil]

/-- A field with the flag gives its value. -/
theorem nodelistFlagvalue_found {flag field : Bytes} (res tail : Bytes) (whole : 44 ∉ field)
    (cut : tail = [] ∨ tail.head? = some 44) (there : hasFlag flag field = true) :
    nodelistFlagvalue flag res (field ++ tail) true = some (true, valueBuffer flag field res) := by
  obtain ⟨back, rfl, ends⟩ := hasFlag_iff.mp there
  have behind : (flag ++ back ++ tail).drop flag.length = back ++ tail := by
    rw [List.append_assoc, List.drop_left]
  have prefixed : flag <+: flag ++ back ++ tail := by
    rw [List.append_assoc]
    exact List.prefix_append flag (back ++ tail)
  rcases ends with rfl | colon
  · have clear : valueBuffer flag (flag ++ []) res = 0 :: res.drop 1 := if_pos (List.append_nil flag)
    have closed : (([] ++ tail).isEmpty || ([] ++ tail).head? == some 44) = true := by
      rcases cut with rfl | comma
      · rfl
      · rw [List.nil_append, comma]
        exact Bool.or_true _
    rw [clear]
    generalize text : flag ++ [] ++ tail = whole at behind prefixed
    cases whole with
    | nil =>
      have empty := List.prefix_nil.mp prefixed
      subst empty
      rfl
    | cons char rest =>
      rw [nodelistFlagvalue]
      dsimp only
      rw [behind, if_pos]
      rw [closed, decide_eq_true prefixed]
      rfl
  · obtain ⟨value, rfl⟩ := List.head?_eq_some_iff.mp colon
    have plain : 44 ∉ value := fun member => whole (List.mem_append_right flag (List.mem_cons_of_mem 58 member))
    have part : fieldValue flag (flag ++ 58 :: value) = value := by
      unfold fieldValue
      rw [List.drop_append]
      simp
    have full : valueBuffer flag (flag ++ 58 :: value) res = value ++ res.drop value.length := by
      unfold valueBuffer
      rw [if_neg, part]
      intro same
      simpa using congrArg List.length same
    rw [full]
    generalize text : flag ++ 58 :: value ++ tail = whole at behind prefixed
    cases whole with
    | nil =>
      have empty := List.append_eq_nil_iff.mp (List.append_eq_nil_iff.mp text).1
      cases empty.2
    | cons char rest =>
      rw [nodelistFlagvalue]
      dsimp only
      rw [behind, List.cons_append, decide_eq_true prefixed, if_neg (by simp),
        if_pos (show (true && true && (58 :: (value ++ tail)).head? == some 58) = true from rfl), List.tail_cons,
        takeWhile_comma plain cut]

/-- A flag that begins a field and has an end belongs to it. -/
theorem hasFlag_of_ends {flag field tail : Bytes} (plain : 44 ∉ flag) (whole : 44 ∉ field)
    (cut : tail = [] ∨ tail.head? = some 44) (prefixed : flag <+: field ++ tail)
    (ends : (field ++ tail).drop flag.length = [] ∨ ((field ++ tail).drop flag.length).head? = some 44 ∨
      ((field ++ tail).drop flag.length).head? = some 58) : hasFlag flag field = true := by
  obtain ⟨back, rfl⟩ := (flag_prefix_field plain cut).mp prefixed
  rw [List.append_assoc, List.drop_left] at ends
  rw [hasFlag_iff]
  refine ⟨back, rfl, ?_⟩
  cases back with
  | nil => exact .inl rfl
  | cons char back =>
    rcases ends with none | comma | colon
    · cases none
    · obtain rfl : char = 44 := Option.some.inj comma
      exact absurd (List.mem_append_right flag List.mem_cons_self) whole
    · exact .inr colon

/-- A field without the flag is not taken for it. -/
theorem nodelistFlagvalue_other {flag field : Bytes} (res tail : Bytes) (plain : 44 ∉ flag) (whole : 44 ∉ field)
    (cut : tail = [] ∨ tail.head? = some 44) (other : ¬ hasFlag flag field = true) :
    nodelistFlagvalue flag res (field ++ tail) true = nodelistFlagvalue flag res (field ++ tail) false := by
  have refused (prefixed : flag <+: field ++ tail) := mt (hasFlag_of_ends plain whole cut prefixed) other
  generalize text : field ++ tail = joined at refused ⊢
  cases joined with
  | nil =>
    have filled : flag.isEmpty = false := by
      cases flag with
      | nil => exact absurd (.inl rfl) (refused List.prefix_rfl)
      | cons => rfl
    rw [nodelistFlagvalue, nodelistFlagvalue, filled]
    rfl
  | cons char rest =>
    rw [nodelistFlagvalue, nodelistFlagvalue]
    dsimp only
    by_cases prefixed : flag <+: char :: rest
    · obtain ⟨none, others⟩ := not_or.mp (refused prefixed)
      obtain ⟨comma, colon⟩ := not_or.mp others
      rw [← List.isEmpty_iff, Bool.not_eq_true] at none
      rw [none, beq_eq_false_iff_ne.mpr comma, beq_eq_false_iff_ne.mpr colon]
      simp
    · simp [prefixed]

/-- The search stops at the first field that has the flag.

Induct over the fields of the flags. -/
theorem nodelistFlagvalue_eq {flag : Bytes} (plain : 44 ∉ flag) (res flags : Bytes) :
    nodelistFlagvalue flag res flags true =
      match (flags.splitOn 44).find? (hasFlag flag) with
      | some field => some (true, valueBuffer flag field res)
      | none => if flag.isEmpty then none else some (false, 0 :: res.drop 1) := by
  induction flags using segments_induction (44 : UInt8) with
  | last field whole =>
    rw [List.splitOn_eq_singleton whole]
    by_cases there : hasFlag flag field = true
    · have found := nodelistFlagvalue_found res [] whole (.inl rfl) there
      rw [List.append_nil] at found
      rw [found, List.find?_cons_of_pos there]
    · have passed := nodelistFlagvalue_other res [] plain whole (.inl rfl) there
      rw [List.append_nil] at passed
      rw [passed, nodelistFlagvalue_ended flag res field whole, List.find?_cons_of_neg there]
      rfl
  | more field rest whole inductionHypothesis =>
    rw [List.splitOn_append_cons_self_of_not_mem whole]
    by_cases there : hasFlag flag field = true
    · rw [nodelistFlagvalue_found res (44 :: rest) whole (.inr rfl) there, List.find?_cons_of_pos there]
    · rw [nodelistFlagvalue_other res (44 :: rest) plain whole (.inr rfl) there,
        nodelistFlagvalue_passed flag res field rest whole, List.find?_cons_of_neg there]
      exact inductionHypothesis

/-- The first field with the flag has its value, and the buffer holds a NUL where that value
ends. -/
def RoomFor (flag flags res : Bytes) : Prop :=
  ∀ field, (flags.splitOn 44).find? (hasFlag flag) = some field → field ≠ flag →
    cstring (res.drop (fieldValue flag field).length) = []

/-- The search answers with the value of the first field. -/
def Answers (flag flags res : Bytes) : Prop :=
  ∃ buffer, nodelistFlagvalue flag res flags true = some ((flagAnswer flag flags).1, buffer) ∧
    cstring buffer = (flagAnswer flag flags).2

/-- The value is answered where the flag is not empty or some field has it, and where the
buffer ends what is copied. -/
theorem answers_iff {flag flags : Bytes} (plain : 44 ∉ flag) (text : 0 ∉ flags) (res : Bytes) :
    Answers flag flags res ↔
      (flag ≠ [] ∨ ∃ field ∈ flags.splitOn 44, hasFlag flag field = true) ∧ RoomFor flag flags res := by
  unfold Answers RoomFor flagAnswer
  rw [nodelistFlagvalue_eq plain]
  cases first : (flags.splitOn 44).find? (hasFlag flag) with
  | none =>
    have nowhere : ¬ ∃ field ∈ flags.splitOn 44, hasFlag flag field = true := by
      rintro ⟨field, member, there⟩
      exact List.find?_eq_none.mp first field member there
    rw [or_iff_left nowhere, and_iff_left nofun]
    dsimp only
    cases flag with
    | nil => exact iff_of_false nofun (· rfl)
    | cons char flag =>
      refine iff_of_true ⟨0 :: res.drop 1, rfl, ?_⟩ (List.cons_ne_nil char flag)
      exact cstring_ended [] (res.drop 1)
  | some field =>
    have member := List.mem_of_find?_eq_some first
    have somewhere : flag ≠ [] ∨ ∃ field ∈ flags.splitOn 44, hasFlag flag field = true :=
      .inr ⟨field, member, List.find?_some first⟩
    have whole : ∀ char ∈ fieldValue flag field, char ≠ 0 := by
      rintro char inside rfl
      exact text ((mem_of_segment member).2 0 (List.mem_of_mem_drop inside))
    have only : (∀ other, some field = some other → other ≠ flag →
        cstring (res.drop (fieldValue flag other).length) = []) ↔
        (field ≠ flag → cstring (res.drop (fieldValue flag field).length) = []) := by
      constructor
      · exact fun all => all field rfl
      · rintro one other ⟨⟩
        exact one
    rw [and_iff_right somewhere, only]
    have copied : cstring (valueBuffer flag field res) = fieldValue flag field ↔
        (field ≠ flag → cstring (res.drop (fieldValue flag field).length) = []) := by
      unfold valueBuffer
      split
      case isTrue same =>
        subst same
        refine iff_of_true ?_ fun other => absurd rfl other
        unfold fieldValue
        rw [List.drop_eq_nil_of_le (Nat.le_succ field.length)]
        exact cstring_ended [] (res.drop 1)
      case isFalse other =>
        rw [cstring_append _ _ whole, imp_iff_right other]
        exact List.append_right_eq_self
    rw [← copied]
    constructor
    · rintro ⟨buffer, same, value⟩
      obtain ⟨-, rfl⟩ := Prod.mk.inj (Option.some.inj same)
      exact value
    · exact fun value => ⟨valueBuffer flag field res, rfl, value⟩

/-- Both searches agree with the fields where one has the flag or none is a lure, where an
empty flag is found, and where the buffer ends what is copied. -/
theorem nodelist_flags (flag flags res : Bytes) (plain : 44 ∉ flag ∧ 58 ∉ flag) (text : 0 ∉ flags) :
    ((nodelistCheckflag flag flags true = true ↔ ∃ field ∈ flags.splitOn 44, hasFlag flag field = true) ∧
      Answers flag flags res) ↔
      ((∃ field ∈ flags.splitOn 44, hasFlag flag field = true) ∨ ¬ Lures flag flags) ∧
        (flag ≠ [] ∨ ∃ field ∈ flags.splitOn 44, hasFlag flag field = true) ∧ RoomFor flag flags res := by
  rw [nodelistCheckflag_agrees plain.1, answers_iff plain.1 text]

/-- The flag of a system that answers all day is found, and its host is copied into an empty
buffer. -/
theorem nodelist_flags_host :
    ((nodelistCheckflag (ascii "INA") (ascii "CM,INA:bbs.example,IBN") true = true ↔
        ∃ field ∈ (ascii "CM,INA:bbs.example,IBN").splitOn 44, hasFlag (ascii "INA") field = true) ∧
      Answers (ascii "INA") (ascii "CM,INA:bbs.example,IBN") (List.replicate 200 0)) := by
  refine (nodelist_flags _ _ _ (by decide) (by decide)).mpr ⟨.inl ?_, .inl (by decide), ?_⟩
  · decide
  · intro field first _
    obtain rfl : ascii "INA:bbs.example" = field := Option.some.inj ((by decide : _ = _).symm.trans first)
    decide

/-- A longer flag at the end of the flags is taken for a shorter one. -/
theorem flag_lured :
    ¬ (nodelistCheckflag (ascii "CM") (ascii "XA,CMX") true = true ↔
      ∃ field ∈ (ascii "XA,CMX").splitOn 44, hasFlag (ascii "CM") field = true) := by
  decide

end Binkleyforce
