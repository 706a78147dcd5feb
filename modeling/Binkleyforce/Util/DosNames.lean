import Binkleyforce.Util.FileNames

/-!
# The 8+3 names

What `file_get_dos_name` makes of any name: a stem of at most eight characters, and where there
is a point, an extension of at most three behind it. A name that has that form stays what it
is, in lower case. The one exception is a point with nothing behind it, which the code does not
take for the start of an extension.
-/

namespace Binkleyforce

/-- The characters that stay in a short name, the point apart. -/
def dosChar (char : UInt8) : Bool := !(char ≤ 32 || char = 42 || char = 63) && char ≠ 46

/-- The 8+3 names. -/
inductive DosName : Bytes → Prop
  | bare {stem : Bytes} (short : stem.length ≤ 8) (plain : ∀ char ∈ stem, dosChar char) :
      DosName stem
  | extended {stem extension : Bytes} (short : stem.length ≤ 8) (plain : ∀ char ∈ stem, dosChar char)
      (few : extension.length ≤ 3) (plainExtension : ∀ char ∈ extension, dosChar char) :
      DosName (stem ++ 46 :: extension)

/-- The characters of a short name are neither dropped ones nor points. -/
theorem dosChar_iff (char : UInt8) :
    dosChar char ↔ ¬ (char ≤ 32 || char = 42 || char = 63) ∧ char ≠ 46 := by
  unfold dosChar
  rw [Bool.and_eq_true, Bool.not_eq_true', Bool.eq_false_iff, decide_eq_true_eq]

/-- The case of a letter does not matter. -/
theorem dosChar_tolower {char : UInt8} (plain : dosChar char) : dosChar (tolower char) := by
  have all : ∀ char, dosChar char → dosChar (tolower char) := byte_cases (by decide)
  exact all char plain

/-- A name keeps its form in lower case. -/
theorem lower_plain {text : Bytes} (plain : ∀ char ∈ text, dosChar char) :
    ∀ char ∈ text.map tolower, dosChar char := by
  intro char member
  obtain ⟨upper, there, rfl⟩ := List.mem_map.mp member
  exact dosChar_tolower (plain upper there)

/-- Without a point, the name does not end in one. -/
theorem bare_last {stem : Bytes} (plain : ∀ char ∈ stem, dosChar char) :
    stem.getLast? ≠ some 46 := by
  intro last
  have kept := plain 46 (List.mem_of_getLast? last)
  exact absurd kept (by decide)

/-- With characters behind the point, the name does not end in it. -/
theorem extended_last {stem extension : Bytes} (filled : extension ≠ [])
    (plain : ∀ char ∈ extension, dosChar char) :
    (stem ++ 46 :: extension).getLast? ≠ some 46 := by
  obtain ⟨first, rest, rfl⟩ := List.exists_cons_of_ne_nil filled
  rw [List.getLast?_append_of_ne_nil _ (List.cons_ne_nil _ _), List.getLast?_cons_cons]
  exact bare_last plain

/-! ## The loop -/

/-- The loop leaves at most one point, and counts what stands behind it. -/
theorem plainName_form (filename : Bytes) :
    (plainName filename).2 = 0 ∧ (∀ char ∈ (plainName filename).1, dosChar char) ∨
      ∃ stem extension, (plainName filename).1 = stem ++ 46 :: extension ∧
        (plainName filename).2 = extension.length ∧ extension ≠ [] ∧ extension.length ≤ 3 ∧
        (∀ char ∈ stem, dosChar char) ∧ ∀ char ∈ extension, dosChar char := by
  induction filename with
  | nil => exact .inl ⟨rfl, nofun⟩
  | cons head rest inductionHypothesis =>
    -- A character that stays goes to the stem, where the point is behind it.
    have stays (first : UInt8) (kept : dosChar first) :
        (plainName rest).2 = 0 ∧ (∀ char ∈ first :: (plainName rest).1, dosChar char) ∨
          ∃ stem extension, first :: (plainName rest).1 = stem ++ 46 :: extension ∧
            (plainName rest).2 = extension.length ∧ extension ≠ [] ∧ extension.length ≤ 3 ∧
            (∀ char ∈ stem, dosChar char) ∧ ∀ char ∈ extension, dosChar char := by
      rcases inductionHypothesis with ⟨zero, plain⟩ | ⟨stem, extension, whole, long, filled, few, plain, behind⟩
      · exact .inl ⟨zero, List.forall_mem_cons.mpr ⟨kept, plain⟩⟩
      · refine .inr ⟨first :: stem, extension, ?_, long, filled, few, ?_, behind⟩
        · rw [whole, List.cons_append]
        · exact List.forall_mem_cons.mpr ⟨kept, plain⟩
    unfold plainName
    dsimp only
    split
    · exact stays 95 (by decide)
    · rename_i kept
      split
      · split
        · rename_i starts
          simp only [Bool.and_eq_true, decide_eq_true_eq] at starts
          obtain ⟨⟨few, filled⟩, zero⟩ := starts
          rcases inductionHypothesis with ⟨-, plain⟩ | ⟨stem, extension, -, long, nonempty, -⟩
          · exact .inr ⟨[], (plainName rest).1, rfl, rfl, List.ne_nil_of_length_pos filled, few,
              nofun, plain⟩
          · rw [zero] at long
            exact absurd (List.eq_nil_of_length_eq_zero long.symm) nonempty
        · exact stays 95 (by decide)
      · rename_i other
        exact stays head ((dosChar_iff head).mpr ⟨kept, other⟩)

/-- Plain characters stay what they are. -/
theorem plainName_plain {text : Bytes} (plain : ∀ char ∈ text, dosChar char) :
    plainName text = (text, 0) := by
  induction text with
  | nil => rfl
  | cons head rest inductionHypothesis =>
    obtain ⟨here, later⟩ := List.forall_mem_cons.mp plain
    obtain ⟨kept, other⟩ := (dosChar_iff head).mp here
    unfold plainName
    dsimp only
    rw [inductionHypothesis later, if_neg kept, if_neg other]

/-- An extension of one to three characters is counted. -/
theorem plainName_extended {stem extension : Bytes} (plain : ∀ char ∈ stem, dosChar char)
    (filled : extension ≠ []) (few : extension.length ≤ 3)
    (behind : ∀ char ∈ extension, dosChar char) :
    plainName (stem ++ 46 :: extension) = (stem ++ 46 :: extension, extension.length) := by
  induction stem with
  | nil =>
    rw [List.nil_append]
    unfold plainName
    dsimp only
    rw [plainName_plain behind, if_neg (by decide), if_pos rfl, if_pos]
    simp only [Bool.and_eq_true, decide_eq_true_eq]
    exact ⟨⟨few, List.length_pos_of_ne_nil filled⟩, trivial⟩
  | cons head rest inductionHypothesis =>
    obtain ⟨here, later⟩ := List.forall_mem_cons.mp plain
    obtain ⟨kept, other⟩ := (dosChar_iff head).mp here
    rw [List.cons_append]
    unfold plainName
    dsimp only
    rw [inductionHypothesis later, if_neg kept, if_neg other]

/-! ## The endings of the table -/

/-- Where the text is found, it stands in the name. -/
theorem strstr_infix {find text : Bytes} (found : (strstr find text).isSome) : find <:+: text := by
  induction text with
  | nil =>
    unfold strstr at found
    split at found
    · rename_i empty
      obtain rfl : find = [] := List.isEmpty_iff.mp empty
      exact List.infix_rfl
    · cases found
  | cons head rest inductionHypothesis =>
    unfold strstr at found
    split at found
    · rename_i here
      exact here.isInfix
    · rw [Option.isSome_map] at found
      exact (inductionHypothesis found).trans (List.suffix_cons head rest).isInfix

/-- A name in which no ending of the table occurs is not changed. -/
theorem shortenEnding_absent {filename : Bytes} {table : List (Bytes × Bytes)}
    (absent : ∀ ending ∈ table, ¬ ending.1 <:+: filename) : shortenEnding filename table = filename := by
  induction table with
  | nil => rfl
  | cons ending table inductionHypothesis =>
    obtain ⟨here, later⟩ := List.forall_mem_cons.mp absent
    obtain ⟨find, repl⟩ := ending
    unfold shortenEnding
    split
    · exact inductionHypothesis later
    · rename_i found
      exact absurd ( strstr_infix (Option.isSome_of_mem found)) here

/-- What stands in an 8+3 name from its point on has at most four characters. -/
theorem DosName.behind_point {filename before after : Bytes} (short : DosName filename)
    (whole : filename = before ++ 46 :: after) :
    after.length ≤ 3 ∧ ∀ char ∈ after, dosChar char := by
  cases short with
  | bare _ plain =>
    have point := plain 46 (whole ▸ List.mem_append_right _ List.mem_cons_self)
    exact absurd point (by decide)
  | @extended stem extension _ plain few behind =>
    have notIn {text : Bytes} (plain : ∀ char ∈ text, dosChar char) : 46 ∉ text := by
      intro point
      exact absurd (plain 46 point) (by decide)
    rcases List.append_eq_append_iff.mp whole with ⟨gap, front, back⟩ | ⟨gap, front, back⟩
    · cases gap with
      | nil =>
        rw [List.nil_append, List.cons.injEq] at back
        exact back.2 ▸ ⟨few, behind⟩
      | cons first gap =>
        rw [List.cons_append, List.cons.injEq] at back
        exact absurd (back.2 ▸ List.mem_append_right _ List.mem_cons_self) (notIn behind)
    · cases gap with
      | nil =>
        rw [List.nil_append, List.cons.injEq] at back
        exact back.2 ▸ ⟨few, behind⟩
      | cons first gap =>
        rw [List.cons_append, List.cons.injEq] at back
        refine absurd (front ▸ List.mem_append_right _ ?_) (notIn plain)
        exact back.1 ▸ List.mem_cons_self

/-- The endings of the table are too long for an 8+3 name. -/
theorem DosName.shortenEnding {filename : Bytes} (short : DosName filename) :
    shortenEnding filename fnctab = filename := by
  have long : ∀ ending ∈ fnctab, ∃ rest, ending.1 = 46 :: rest ∧ 3 < rest.length := by
    intro ending member
    simp only [fnctab, List.mem_cons, List.not_mem_nil, or_false] at member
    rcases member with rfl | rfl | rfl | rfl
    · exact ⟨ascii "tar.gz", rfl, by decide⟩
    · exact ⟨ascii "tar.bz2", rfl, by decide⟩
    · exact ⟨ascii "html", rfl, by decide⟩
    · exact ⟨ascii "desc", rfl, by decide⟩
  apply shortenEnding_absent
  rintro ending member ⟨before, after, whole⟩
  obtain ⟨rest, is, more⟩ := long ending member
  rw [is, List.append_assoc, List.cons_append] at whole
  have few := (short.behind_point whole.symm).1
  rw [List.length_append] at few
  omega

/-! ## The name that is returned -/

/-- The start, a tilde and the end of a long name are a short one. -/
theorem marked_plain {stem : Bytes} (plain : ∀ char ∈ stem, dosChar char) (last : Nat) :
    ∀ char ∈ stem.take 5 ++ [126] ++ stem.drop last, dosChar char := by
  intro char member
  rcases List.mem_append.mp member with front | back
  · rcases List.mem_append.mp front with front | mark
    · exact plain char (List.mem_of_mem_take front)
    · rw [List.mem_singleton.mp mark]
      decide
  · exact plain char (List.mem_of_mem_drop back)

/-- Any name becomes a short one, which does not end in a point. -/
theorem fileGetDosName_form (filename : Bytes) :
    DosName (fileGetDosName filename) ∧ (fileGetDosName filename).getLast? ≠ some 46 := by
  have bare {text : Bytes} (plain : ∀ char ∈ text, dosChar char) (short : text.length ≤ 8) :
      DosName (text.map tolower) ∧ (text.map tolower).getLast? ≠ some 46 := by
    constructor
    · exact .bare (by rwa [List.length_map]) (lower_plain plain)
    · exact bare_last (lower_plain plain)
  have extended {stem extension : Bytes} (plain : ∀ char ∈ stem, dosChar char)
      (short : stem.length ≤ 8) (filled : extension ≠ []) (few : extension.length ≤ 3)
      (behind : ∀ char ∈ extension, dosChar char) :
      DosName ((stem ++ 46 :: extension).map tolower) ∧
        ((stem ++ 46 :: extension).map tolower).getLast? ≠ some 46 := by
    rw [List.map_append, List.map_cons, show tolower 46 = 46 by decide]
    constructor
    · exact .extended (by rwa [List.length_map]) (lower_plain plain) (by rwa [List.length_map])
        (lower_plain behind)
    · exact extended_last (by rwa [ne_eq, List.map_eq_nil_iff]) (lower_plain behind)
  have form := plainName_form (Binkleyforce.shortenEnding filename fnctab)
  unfold fileGetDosName
  generalize plainName (Binkleyforce.shortenEnding filename fnctab) = copied at form ⊢
  obtain ⟨copy, count⟩ := copied
  dsimp only at form ⊢
  rcases form with ⟨rfl, plain⟩ | ⟨stem, extension, rfl, rfl, filled, few, plain, behind⟩
  · split
    · rename_i fits
      simp only [lt_irrefl, decide_false, Bool.false_and, Bool.false_or, decide_true, Bool.true_and,
        decide_eq_true_eq] at fits
      exact bare plain fits
    · rw [if_neg (lt_irrefl 0)]
      apply bare (marked_plain plain _)
      simp only [List.length_append, List.length_take, List.length_drop, List.length_singleton]
      omega
  · have some := List.length_pos_of_ne_nil filled
    have whole : (stem ++ 46 :: extension).length = stem.length + 1 + extension.length := by
      rw [List.length_append, List.length_cons]
      omega
    split
    · rename_i fits
      simp only [Bool.or_eq_true, Bool.and_eq_true, decide_eq_true_eq] at fits
      exact extended plain (by omega) filled few behind
    · rename_i long
      simp only [Bool.or_eq_true, Bool.and_eq_true, decide_eq_true_eq] at long
      have front : (stem ++ 46 :: extension).take 5 = stem.take 5 :=
        List.take_append_of_le_length (by omega)
      have back : (stem ++ 46 :: extension).drop ((stem ++ 46 :: extension).length - 3 - extension.length) =
          stem.drop (stem.length - 2) ++ 46 :: extension := by
        rw [whole, show stem.length + 1 + extension.length - 3 - extension.length = stem.length - 2 by omega]
        exact List.drop_append_of_le_length (by omega)
      rw [front, back, ← List.append_assoc]
      apply extended (marked_plain plain _) _ filled few behind
      simp only [List.length_append, List.length_take, List.length_drop, List.length_singleton]
      omega

/-- A short name has at most twelve characters. -/
theorem DosName.length_le {name : Bytes} (short : DosName name) : name.length ≤ 12 := by
  cases short with
  | bare short => omega
  | extended short _ few =>
    rw [List.length_append, List.length_cons]
    omega

/-- A short name that does not end in a point stays, in lower case. -/
theorem DosName.kept {filename : Bytes} (short : DosName filename)
    (settled : filename.getLast? ≠ some 46) : fileGetDosName filename = filename.map tolower := by
  unfold fileGetDosName
  rw [short.shortenEnding]
  cases short with
  | bare short plain =>
    rw [plainName_plain plain]
    dsimp only
    rw [if_pos]
    simpa using short
  | @extended stem extension short plain few behind =>
    have filled : extension ≠ [] := by
      rintro rfl
      exact settled List.getLast?_concat
    rw [plainName_extended plain filled few behind]
    dsimp only
    rw [if_pos]
    simp only [Bool.or_eq_true, Bool.and_eq_true, decide_eq_true_eq]
    refine .inl ⟨List.length_pos_of_ne_nil filled, ?_⟩
    rw [List.length_append, List.length_cons]
    omega

/-- What has been made short once stays as it is. -/
theorem fileGetDosName_again (filename : Bytes) :
    fileGetDosName (fileGetDosName filename) = (fileGetDosName filename).map tolower :=
  (fileGetDosName_form filename).1.kept (fileGetDosName_form filename).2

/-- Every name becomes an 8+3 name that fits into thirteen bytes with its end. An 8+3 name
stays, in lower case, unless it ends in a point. -/
theorem dos_name (filename : Bytes) :
    DosName (fileGetDosName filename) ∧ (fileGetDosName filename).length < 13 ∧
      (DosName filename →
        (fileGetDosName filename = filename.map tolower ↔ filename.getLast? ≠ some 46)) := by
  obtain ⟨form, last⟩ := fileGetDosName_form filename
  refine ⟨form, Nat.lt_succ_of_le form.length_le, fun short => ⟨?_, short.kept⟩⟩
  intro same point
  rw [same, List.getLast?_map, point] at last
  exact last (by decide)

/-- The name of a text file stays. -/
theorem dos_name_readme : fileGetDosName (ascii "README.TXT") = ascii "readme.txt" := by
  have short : DosName (ascii "README" ++ 46 :: ascii "TXT") :=
    .extended (by decide) (List.all_eq_true.mp (by decide)) (by decide) (List.all_eq_true.mp (by decide))
  exact ((dos_name (ascii "README.TXT")).2.2 short).mpr (by decide)

/-- A point with nothing behind it becomes an underscore. -/
theorem last_point_replaced : DosName (ascii "readme.") ∧
    fileGetDosName (ascii "readme.") = ascii "readme_" := by
  constructor
  · exact (.extended (by decide) (List.all_eq_true.mp (by decide)) (by decide) nofun :
      DosName (ascii "readme" ++ 46 :: []))
  · decide

end Binkleyforce
