import Mathlib.Data.List.GetD
import Binkleyforce.Outbound.FileTypes
import Binkleyforce.Transfer.Sharing

/-!
# Other names for files that come in

`prot_unique_name` looks for a free name in the inbound directory. The names of bundles count on
in their last character, through the digits and letters. When that has come to its end, the
letters of the day of the week are counted on, and the file is no bundle any more.
-/

namespace Binkleyforce

open Library Library.Program

/-- The characters that extensions of bundles count in, in their order: the digits, the small
letters and the capital ones. -/
def rotation : Bytes := (List.range' 48 10 ++ List.range' 97 26 ++ List.range' 65 26).map UInt8.ofNat

/-- The characters that a character is counted on to. -/
def countedOn (char : UInt8) : Bytes := (rotation.dropWhile (· ≠ char)).drop 1

/-- The last one of them, or the character itself. -/
def countedLast (char : UInt8) : UInt8 := (char :: countedOn char).getLast (List.cons_ne_nil _ _)

/-- A turn for bundles, as a function. -/
def nextName : Bytes × Nat → Option (Bytes × Bytes × Nat)
  | (result, p) =>
    match rotateChar (result.getD p 0) with
    | some char => some (result.set p char, result.set p char, p)
    | none =>
      if p = 0 ∨ result.getD (p - 1) 0 = 46 ∨ result.getD (p - 1) 0 = 47 then none
      else some (result, result, p - 1)

/-- The names that a number of turns makes. -/
def rotatedNames : Nat → Bytes × Nat → List Bytes
  | 0, _ => []
  | turns + 1, place =>
    match nextName place with
    | none => []
    | some (name, place) => name :: rotatedNames turns place

/-- A directory that does not change and a source of random numbers, with the names that were
looked up and the numbers that were drawn. -/
def inboundWorld (taken : Bytes → Bool) (draws : Nat → Nat) : Handler InboundCall InboundReply (Nat × Nat) :=
  fun counts request =>
    match request with
    | .access path => ((counts.1 + 1, counts.2), taken path)
    | .rand => ((counts.1, counts.2 + 1), draws counts.2)
    | .stat _ => (counts, none)
    | .getfreespace _ => (counts, (0 : Nat))
    | .reqProc _ => (counts, ())
    | .fopen _ _ => (counts, false)
    | .fclose => (counts, false)
    | .rename _ _ => (counts, false)
    | .unlink _ => (counts, false)
    | .chmod _ _ => (counts, false)
    | .utime _ => (counts, false)

/-! ## Counting on -/

/-- Only the characters of the rotation are counted on. -/
theorem countedOn_outside {char : UInt8} (outside : char ∉ rotation) : countedOn char = [] := by
  have all : rotation.dropWhile (· ≠ char) = [] := by
    rw [List.dropWhile_eq_nil_iff]
    intro other member
    have different : other ≠ char := by
      rintro rfl
      exact outside member
    simpa using different
  unfold countedOn
  rw [all]
  rfl

/-- A character that is counted on is one of the rotation. -/
theorem rotateChar_outside {char : UInt8} (outside : char ∉ rotation) : rotateChar char = none := by
  cases counted : rotateChar char with
  | none => rfl
  | some next =>
    have ranges : (48 ≤ char.toNat ∧ char.toNat < 58) ∨ (97 ≤ char.toNat ∧ char.toNat < 123) ∨
        (65 ≤ char.toNat ∧ char.toNat < 91) := by
      unfold rotateChar at counted
      simp only [Bool.or_eq_true, Bool.and_eq_true, decide_eq_true_eq, ← UInt8.toNat_inj, UInt8.le_iff_toNat_le,
        UInt8.reduceToNat] at counted
      split at counted
      · omega
      · split at counted
        · omega
        · split at counted
          · omega
          · cases counted
    have inside : char ∈ rotation := by
      refine List.mem_map.mpr ⟨char.toNat, ?_, UInt8.ofNat_toNat⟩
      simp only [List.mem_append, List.mem_range'_1]
      omega
    exact absurd inside outside

/-- What is known of the characters of the rotation. -/
theorem rotation_facts {char : UInt8} (inside : char ∈ rotation) :
    ((rotateChar char = none → countedOn char = []) ∧
        ∀ next ∈ rotateChar char, countedOn char = next :: countedOn next) ∧
      (countedOn char).length ≤ 61 ∧ rotateChar (countedLast char) = none := by
  have all : rotation.all (fun char =>
      (match rotateChar char with
        | none => countedOn char == []
        | some next => countedOn char == next :: countedOn next) &&
      (decide ((countedOn char).length ≤ 61) && (rotateChar (countedLast char) == none))) = true := by
    decide
  have known := List.all_eq_true.mp all char inside
  rw [Bool.and_eq_true, Bool.and_eq_true, decide_eq_true_eq, beq_iff_eq] at known
  refine ⟨?_, known.2⟩
  have first := known.1
  cases turned : rotateChar char with
  | none =>
    rw [turned] at first
    exact ⟨fun _ => beq_iff_eq.mp first, fun next member => absurd member (Option.not_mem_none next)⟩
  | some following =>
    rw [turned] at first
    refine ⟨fun none => absurd none (Option.some_ne_none following), fun next member => ?_⟩
    obtain rfl : following = next := Option.mem_some_iff.mp member
    exact beq_iff_eq.mp first

/-- A character is counted on to the next one, and from there on. -/
theorem rotateChar_counted (char : UInt8) :
    (rotateChar char = none → countedOn char = []) ∧
      ∀ next ∈ rotateChar char, countedOn char = next :: countedOn next := by
  by_cases inside : char ∈ rotation
  · exact (rotation_facts inside).1
  · rw [rotateChar_outside inside]
    exact ⟨fun _ => countedOn_outside inside, nofun⟩

/-- There are not many of them, and none is a point or a separator. -/
theorem countedOn_few (char : UInt8) : (countedOn char).length ≤ 61 ∧ 46 ∉ countedOn char ∧ 47 ∉ countedOn char := by
  have plain : 46 ∉ rotation ∧ 47 ∉ rotation := by decide
  have part : ∀ next ∈ countedOn char, next ∈ rotation := fun next member =>
    (List.dropWhile_sublist _).subset (List.mem_of_mem_drop member)
  refine ⟨?_, fun member => plain.1 (part 46 member), fun member => plain.2 (part 47 member)⟩
  by_cases inside : char ∈ rotation
  · exact (rotation_facts inside).2.1
  · rw [countedOn_outside inside]
    exact Nat.zero_le _

/-- The last one is not counted on. -/
theorem rotateChar_last (char : UInt8) : rotateChar (countedLast char) = none := by
  by_cases inside : char ∈ rotation
  · exact (rotation_facts inside).2.2
  · unfold countedLast
    simp only [countedOn_outside inside, List.getLast_singleton]
    exact rotateChar_outside inside

/-- A turn is finished at once. -/
theorem rotateName_next (place : Bytes × Nat) : rotateName place = .done (nextName place) := by
  obtain ⟨result, p⟩ := place
  unfold rotateName nextName
  dsimp only
  cases rotateChar (result.getD p 0) with
  | some char => rfl
  | none =>
    dsimp only
    split
    · rfl
    · rfl

/-- The turns at one character count it on to the last one. -/
theorem rotatedNames_counted (front back : Bytes) (char : UInt8) (turns : Nat) :
    rotatedNames ((countedOn char).length + turns) (front ++ char :: back, front.length) =
      (countedOn char).map (fun next => front ++ next :: back) ++
        rotatedNames turns (front ++ countedLast char :: back, front.length) := by
  induction long : countedOn char generalizing char with
  | nil =>
    have last : countedLast char = char := by
      unfold countedLast
      simp only [long, List.getLast_singleton]
    rw [last, List.length_nil, Nat.zero_add]
    rfl
  | cons next later inductionHypothesis =>
    have turn : rotateChar char = some next := by
      cases counted : rotateChar char with
      | none => exact absurd ((rotateChar_counted char).1 counted) (by rw [long]; exact List.cons_ne_nil _ _)
      | some other =>
        have on := (rotateChar_counted char).2 other counted
        rw [long, List.cons.injEq] at on
        rw [on.1]
    have rest := (rotateChar_counted char).2 next turn
    rw [long, List.cons.injEq] at rest
    have last : countedLast char = countedLast next := by
      unfold countedLast
      simp only [long, rest.2, List.getLast_cons_cons]
    have here : nextName (front ++ char :: back, front.length) =
        some (front ++ next :: back, front ++ next :: back, front.length) := by
      unfold nextName
      dsimp only
      rw [List.getD_append_right _ _ _ _ (Nat.le_refl _), Nat.sub_self, List.getD_cons_zero, turn]
      dsimp only
      rw [List.set_append_right _ _ (Nat.le_refl _), Nat.sub_self]
      rfl
    rw [List.length_cons, Nat.add_right_comm, rotatedNames, here]
    dsimp only
    rw [inductionHypothesis next rest.2.symm, last]
    rfl

/-- At the last one the turns go on from the character before, with the same name. -/
theorem rotatedNames_before (front back : Bytes) {before last : UInt8} (turns : Nat)
    (ended : rotateChar last = none) (plain : before ≠ 46 ∧ before ≠ 47) :
    rotatedNames (turns + 1) (front ++ before :: last :: back, front.length + 1) =
      (front ++ before :: last :: back) ::
        rotatedNames turns (front ++ before :: last :: back, front.length) := by
  have here : nextName (front ++ before :: last :: back, front.length + 1) =
      some (front ++ before :: last :: back, front ++ before :: last :: back, front.length) := by
    unfold nextName
    dsimp only
    rw [List.getD_append_right _ _ _ _ (Nat.le_add_right _ 1), Nat.add_sub_cancel_left, List.getD_cons_succ,
      List.getD_cons_zero, ended]
    dsimp only
    rw [Nat.add_sub_cancel, List.getD_append_right _ _ _ _ (Nat.le_refl _), Nat.sub_self,
      List.getD_cons_zero, if_neg]
    rintro (zero | point | separator)
    · exact absurd zero (Nat.succ_ne_zero _)
    · exact plain.1 point
    · exact plain.2 separator
  rw [rotatedNames, here]

/-- Where the extension starts, no more names are made. -/
theorem rotatedNames_start (front back : Bytes) {last : UInt8} (turns : Nat) (ended : rotateChar last = none) :
    rotatedNames turns (front ++ 46 :: last :: back, front.length + 1) = [] := by
  cases turns with
  | zero => rfl
  | succ turns =>
    have here : nextName (front ++ 46 :: last :: back, front.length + 1) = none := by
      unfold nextName
      dsimp only
      rw [List.getD_append_right _ _ _ _ (Nat.le_add_right _ 1), Nat.add_sub_cancel_left, List.getD_cons_succ,
        List.getD_cons_zero, ended]
      dsimp only
      rw [Nat.add_sub_cancel, List.getD_append_right _ _ _ _ (Nat.le_refl _), Nat.sub_self,
        List.getD_cons_zero, if_pos (.inr (.inl rfl))]
    rw [rotatedNames, here]

/-- The names of a bundle: the last character is counted on, then the second letter of the day,
then the first. -/
theorem rotatedNames_bundle (front : Bytes) {first second : UInt8} (third : UInt8) (plain : second ≠ 46 ∧ second ≠ 47)
    (plainToo : first ≠ 46 ∧ first ≠ 47) {turns : Nat} (enough : 185 ≤ turns) :
    rotatedNames turns (front ++ [46, first, second, third], (front ++ [46, first, second]).length) =
      (countedOn third).map (fun next => front ++ [46, first, second, next]) ++
        (front ++ [46, first, second, countedLast third]) ::
        ((countedOn second).map (fun next => front ++ [46, first, next, countedLast third]) ++
          (front ++ [46, first, countedLast second, countedLast third]) ::
          (countedOn first).map fun next =>
            front ++ [46, next, countedLast second, countedLast third]) := by
  obtain ⟨left, is⟩ : ∃ left, turns = (countedOn third).length + ((countedOn second).length +
      ((countedOn first).length + left + 1) + 1) := by
    have one := (countedOn_few third).1
    have two := (countedOn_few second).1
    have three := (countedOn_few first).1
    exact ⟨turns - ((countedOn third).length + (countedOn second).length + (countedOn first).length + 2), by omega⟩
  subst is
  have a := rotatedNames_counted (front ++ [46, first, second]) [] third
    ((countedOn second).length + ((countedOn first).length + left + 1) + 1)
  have b := rotatedNames_before (front ++ [46, first]) [] ((countedOn second).length + ((countedOn first).length + left + 1))
    (rotateChar_last third) plain
  have c := rotatedNames_counted (front ++ [46, first]) [countedLast third] second ((countedOn first).length + left + 1)
  have d := rotatedNames_before (front ++ [46]) [countedLast third] ((countedOn first).length + left)
    (rotateChar_last second) plainToo
  have e := rotatedNames_counted (front ++ [46]) [countedLast second, countedLast third] first left
  have f := rotatedNames_start front [countedLast second, countedLast third] left (rotateChar_last first)
  simp only [List.append_assoc, List.cons_append, List.nil_append, List.length_append, List.length_cons,
    List.length_nil, Nat.add_assoc, Nat.zero_add] at a b c d e f ⊢
  rw [a, b, c, d, e, f, List.append_nil]

/-! ## The search -/

section

variable (taken : Bytes → Bool) (draws : Nat → Nat)

/-- The search for the name of a bundle ends with the first of its names that is free. -/
theorem tryNames_rotated (turns : Nat) (place : Bytes × Nat) (counts : Nat × Nat) :
    (exec (inboundWorld taken draws) (tryNames rotateName (turns + 1) place) counts).2 =
      (rotatedNames turns place).find? fun name => !taken name := by
  induction turns generalizing place counts with
  | zero =>
    rw [tryNames, rotateName_next, done_bind]
    cases nextName place with
    | none => rfl
    | some found =>
      obtain ⟨name, place⟩ := found
      have reply : (inboundWorld taken draws counts (.access name)).2 = taken name := rfl
      rw [exec_call, reply]
      cases taken name with
      | true => rfl
      | false => rfl
  | succ turns inductionHypothesis =>
    rw [tryNames, rotateName_next, done_bind, rotatedNames]
    cases nextName place with
    | none => rfl
    | some found =>
      obtain ⟨name, place⟩ := found
      dsimp only
      rw [exec_call, List.find?_cons]
      have reply : (inboundWorld taken draws counts (.access name)).2 = taken name := rfl
      rw [reply]
      cases taken name with
      | true => exact inductionHypothesis place _
      | false => rfl

/-- A search looks up no more names than it has tries, and ends with a free one. -/
theorem tryNames_found {σ : Type} {turn : σ → InboundProgram (Option (Bytes × σ))}
    (quiet : ∀ state counts, (exec (inboundWorld taken draws) (turn state) counts).1.1 = counts.1)
    (tries : Nat) (state : σ) (counts : Nat × Nat) :
    (exec (inboundWorld taken draws) (tryNames turn tries state) counts).1.1 ≤ counts.1 + tries ∧
      ∀ path ∈ (exec (inboundWorld taken draws) (tryNames turn tries state) counts).2,
        taken path = false := by
  induction tries generalizing state counts with
  | zero => exact ⟨Nat.le_refl _, nofun⟩
  | succ tries inductionHypothesis =>
    have same := quiet state counts
    rw [tryNames, exec_bind]
    generalize exec (inboundWorld taken draws) (turn state) counts = made at same
    obtain ⟨after, result⟩ := made
    dsimp only at same ⊢
    cases result with
    | none =>
      rw [exec_done]
      refine ⟨?_, nofun⟩
      dsimp only
      omega
    | some found =>
      obtain ⟨name, state⟩ := found
      rw [exec_call]
      have reply : inboundWorld taken draws after (.access name) = ((after.1 + 1, after.2), taken name) := rfl
      rw [reply]
      cases free : taken name with
      | true =>
        obtain ⟨few, ends⟩ := inductionHypothesis state (after.1 + 1, after.2)
        refine ⟨?_, ends⟩
        dsimp only at few ⊢
        omega
      | false =>
        rw [exec_done]
        refine ⟨by dsimp only; omega, ?_⟩
        intro path member
        split at member
        · cases member
        · cases member
          exact free

end

/-! ## Classes -/

/-- The type of a file in a directory, by its extension. -/
theorem outFiletype_ending {dirname stem ext : Bytes} (separated : dirname.getLast? = some 47)
    (single : 47 ∉ stem ++ 46 :: ext) (plain : 46 ∉ ext) :
    outFiletype (dirname ++ (stem ++ 46 :: ext)) = extensionType (46 :: ext) := by
  unfold outFiletype
  rw [getname_append _ _ separated single, fileExtension_last plain]

/-- The type does not depend on the directory. -/
theorem outFiletype_inside {dirname fname : Bytes} (separated : dirname.getLast? = some 47) (single : 47 ∉ fname) :
    outFiletype (dirname ++ fname) = outFiletype fname := by
  have whole := getname_append (ascii "/") fname rfl single
  have bare : fileGetname fname = fname := by
    unfold fileGetname
    rw [List.takeWhile_eq_self_iff.mpr, List.reverse_reverse]
    intro char member
    have other : char ≠ 47 := by
      rintro rfl
      exact single (List.mem_reverse.mp member)
    simpa using other
  unfold outFiletype
  rw [getname_append _ _ separated single, bare]

/-- After the last character of a day has been counted on to the end, no day is left. -/
theorem weekday_last {first second : UInt8} (day : Weekday first second) (next : UInt8) :
    ¬ Weekday next (countedLast second) := by
  have all : ∀ char, toupper char ∈ weekdays.map Prod.snd →
      toupper (countedLast char) ∉ weekdays.map Prod.snd := byte_cases (by decide)
  intro another
  exact all second (List.mem_map_of_mem day) (List.mem_map_of_mem another)

/-- The letters of a day are neither points nor separators. -/
theorem Weekday.letters {first second : UInt8} (day : Weekday first second) :
    (first ≠ 46 ∧ first ≠ 47) ∧ (second ≠ 46 ∧ second ≠ 47) := by
  have all : weekdays.all (fun pair => (pair.1 ≠ 46 ∧ pair.1 ≠ 47) ∧ (pair.2 ≠ 46 ∧ pair.2 ≠ 47)) = true := by decide
  have one := of_decide_eq_true (List.all_eq_true.mp all _ day)
  refine ⟨⟨?_, ?_⟩, ⟨?_, ?_⟩⟩
  · rintro rfl
    exact one.1.1 rfl
  · rintro rfl
    exact one.1.2 rfl
  · rintro rfl
    exact one.2.1 rfl
  · rintro rfl
    exact one.2.2 rfl

/-- A name with three characters behind its point is a bundle if they start with a day. -/
theorem fileClass_bundle {dirname stem : Bytes} (first second third : UInt8)
    (separated : dirname.getLast? = some 47) (single : 47 ∉ stem)
    (plain : ∀ char ∈ [first, second, third], char ≠ 46 ∧ char ≠ 47) :
    fileClass (outFiletype (dirname ++ (stem ++ [46, first, second, third]))) = .arcmail ↔
      Weekday first second := by
  rw [outFiletype_ending separated, extensionType_weekday]
  · intro member
    rcases List.mem_append.mp member with front | back
    · exact single front
    · rcases List.mem_cons.mp back with point | letter
      · exact absurd point (by decide)
      · exact (plain 47 letter).2 rfl
  · intro member
    exact (plain 46 member).1 rfl

/-! ## The result -/

/-- `prot_unique_name` for a name that came in, in a directory with the names in it. -/
def uniqueName (taken : Bytes → Bool) (draws : Nat → Nat) (dirname fname : Bytes) : (Nat × Nat) × Option Bytes :=
  exec (inboundWorld taken draws) (protUniqueName dirname fname (outFiletype fname)) (0, 0)

/-- The search is over after a number of tries, and a name that it finds is that of a file in the
directory, is free, and leaves the file in its class. -/
structure UniqueRight (taken : Bytes → Bool) (draws : Nat → Nat) (dirname fname : Bytes) : Prop where
  bounded : (uniqueName taken draws dirname fname).1.1 ≤ maxTries
  free : ∀ path ∈ (uniqueName taken draws dirname fname).2, Inside dirname path ∧ taken path = false
  sameClass : ∀ path ∈ (uniqueName taken draws dirname fname).2,
    fileClass (outFiletype path) = fileClass (outFiletype fname)

/-- For a bundle, a name is free in which the last character is counted on. Else the first name
that is free with the second letter of the day counted on has another day, or there is none, nor
one with the first letter counted on. -/
def RotatesRight (taken : Bytes → Bool) (dirname fname : Bytes) : Prop :=
  ∀ stem first second third, fname = stem ++ [46, first, second, third] → Weekday first second → third ≠ 46 →
    (∃ next ∈ countedOn third, taken (dirname ++ (stem ++ [46, first, second, next])) = false) ∨
    match (countedOn second).find? fun next =>
        !taken (dirname ++ (stem ++ [46, first, next, countedLast third])) with
    | some next => Weekday first next
    | none => ∀ next ∈ countedOn first,
        taken (dirname ++ (stem ++ [46, next, countedLast second, countedLast third])) = true

section

variable {taken : Bytes → Bool} {draws : Nat → Nat} {dirname fname : Bytes}

/-- The last name that a character is counted on to is taken, if all names before it are. -/
theorem countedLast_taken {char : UInt8} (made : UInt8 → Bytes) (here : taken (made char) = true)
    (all : ∀ next ∈ countedOn char, taken (made next) = true) : taken (made (countedLast char)) = true := by
  have member := List.getLast_mem (List.cons_ne_nil char (countedOn char))
  rcases List.mem_cons.mp member with first | later
  · unfold countedLast
    rwa [first]
  · exact all _ later

/-- What rotating right means for a name that has been taken apart. -/
theorem rotatesRight_iff {stem : Bytes} {first second third : UInt8} (day : Weekday first second)
    (plain : third ≠ 46) : RotatesRight taken dirname (stem ++ [46, first, second, third]) ↔
      (∃ next ∈ countedOn third, taken (dirname ++ (stem ++ [46, first, second, next])) = false) ∨
      match (countedOn second).find? fun next =>
          !taken (dirname ++ (stem ++ [46, first, next, countedLast third])) with
      | some next => Weekday first next
      | none => ∀ next ∈ countedOn first,
          taken (dirname ++ (stem ++ [46, next, countedLast second, countedLast third])) = true := by
  constructor
  · intro right
    exact right stem first second third rfl day plain
  · intro right other one two three same _ _
    obtain ⟨rfl, ends⟩ := List.append_inj' same rfl
    simp only [List.cons.injEq, and_true, true_and] at ends
    obtain ⟨rfl, rfl, rfl⟩ := ends
    exact right

/-- The first name of a list that is free. -/
theorem find_made (made : UInt8 → Bytes) (chars : Bytes) :
    (chars.map made).find? (fun name => !taken name) = (chars.find? fun next => !taken (made next)).map made :=
  List.find?_map

/-- If all names of a list are taken, none is found. -/
theorem find_taken {chars : Bytes} (made : UInt8 → Bytes) (all : ∀ next ∈ chars, taken (made next) = true) :
    chars.find? (fun next => !taken (made next)) = none := by
  rw [List.find?_eq_none]
  intro next member
  rw [all next member]
  exact Bool.false_ne_true

/-- The search for the name of a bundle, when the last character has come to its end. -/
theorem bundle_found (made last : UInt8 → Bytes) {first second third : UInt8} (front : Bytes)
    (names : rotatedNames 1023 (front ++ [46, first, second, third], (front ++ [46, first, second]).length) =
      (countedOn third).map last ++ last (countedLast third) ::
        ((countedOn second).map made ++ made (countedLast second) ::
          (countedOn first).map fun next => front ++ [46, next, countedLast second, countedLast third]))
    (here : taken (last third) = true) (start : made second = last (countedLast third))
    (all : ∀ next ∈ countedOn third, taken (last next) = true) :
    (rotatedNames 1023 (front ++ [46, first, second, third], (front ++ [46, first, second]).length)).find?
        (fun name => !taken name) =
      match (countedOn second).find? fun next => !taken (made next) with
      | some next => some (made next)
      | none => ((countedOn first).find? fun next =>
          !taken (front ++ [46, next, countedLast second, countedLast third])).map fun next =>
            front ++ [46, next, countedLast second, countedLast third] := by
  have lastTaken := countedLast_taken last here all
  rw [names, List.find?_append, find_made, find_taken last all, Option.map_none, Option.none_or, List.find?_cons,
    lastTaken, Bool.not_true, List.find?_append, find_made]
  cases found : (countedOn second).find? fun next => !taken (made next) with
  | some next => rfl
  | none =>
    have allMade : ∀ next ∈ countedOn second, taken (made next) = true := by
      intro next member
      have one := List.find?_eq_none.mp found next member
      simpa using one
    have madeTaken := countedLast_taken made (start ▸ lastTaken) allMade
    rw [Option.map_none, Option.none_or, List.find?_cons, madeTaken]
    exact find_made _ _

/-- The name of a bundle keeps its class exactly if it rotates right. -/
theorem bundle_keeps (separated : dirname.getLast? = some 47) {stem : Bytes} {first second third : UInt8}
    (single : 47 ∉ stem ++ [46, first, second, third]) (day : Weekday first second) (plain : third ≠ 46)
    (collides : taken (dirname ++ (stem ++ [46, first, second, third])) = true) :
    (∀ path ∈ (exec (inboundWorld taken draws) (tryNames rotateName maxTries
        (dirname ++ (stem ++ [46, first, second, third]),
          (dirname ++ (stem ++ [46, first, second, third])).length - 1)) (0, 0)).2,
      fileClass (outFiletype path) = .arcmail) ↔
    RotatesRight taken dirname (stem ++ [46, first, second, third]) := by
  have assoc (a b c : UInt8) : dirname ++ (stem ++ [46, a, b, c]) = (dirname ++ stem) ++ [46, a, b, c] :=
    (List.append_assoc _ _ _).symm
  have place : (dirname ++ (stem ++ [46, first, second, third])).length - 1 =
      ((dirname ++ stem) ++ [46, first, second]).length := by
    simp only [List.length_append, List.length_cons, List.length_nil]
    omega
  have value : (exec (inboundWorld taken draws) (tryNames rotateName maxTries
      (dirname ++ (stem ++ [46, first, second, third]),
        (dirname ++ (stem ++ [46, first, second, third])).length - 1)) (0, 0)).2 =
      (rotatedNames 1023 ((dirname ++ stem) ++ [46, first, second, third],
        ((dirname ++ stem) ++ [46, first, second]).length)).find? fun name => !taken name := by
    rw [← place, ← assoc]
    exact tryNames_rotated taken draws 1023 _ _
  have names := rotatedNames_bundle (dirname ++ stem) third day.letters.2 day.letters.1
    (show 185 ≤ 1023 by decide)
  have stemSingle : 47 ∉ stem := fun member => single (List.mem_append_left _ member)
  have thirdSingle : third ≠ 47 := by
    rintro rfl
    exact single (by simp)
  -- The characters that are counted on are not those that part a name.
  have plainOn {char next : UInt8} (member : next ∈ countedOn char) : next ≠ 46 ∧ next ≠ 47 := by
    obtain ⟨-, noPoint, noSeparator⟩ := countedOn_few char
    refine ⟨?_, ?_⟩
    · rintro rfl
      exact noPoint member
    · rintro rfl
      exact noSeparator member
  have plainLast {char : UInt8} (here : char ≠ 46 ∧ char ≠ 47) : countedLast char ≠ 46 ∧ countedLast char ≠ 47 := by
    have member := List.getLast_mem (List.cons_ne_nil char (countedOn char))
    rcases List.mem_cons.mp member with itself | later
    · unfold countedLast
      rwa [itself]
    · exact plainOn later
  rw [rotatesRight_iff day plain, value]
  simp only [assoc] at collides ⊢
  by_cases free : ∃ next ∈ countedOn third, taken ((dirname ++ stem) ++ [46, first, second, next]) = false
  · refine iff_of_true ?_ (.inl free)
    intro path member
    rw [names, List.find?_append, find_made (fun next => (dirname ++ stem) ++ [46, first, second, next])] at member
    cases found : (countedOn third).find? fun next => !taken ((dirname ++ stem) ++ [46, first, second, next]) with
    | none =>
      obtain ⟨next, there, is⟩ := free
      have none := List.find?_eq_none.mp found next there
      rw [is] at none
      exact absurd rfl none
    | some next =>
      rw [found, Option.map_some, Option.some_or] at member
      cases member
      have there := plainOn (List.mem_of_find?_eq_some found)
      rw [← assoc]
      refine (fileClass_bundle first second next separated stemSingle ?_).mpr day
      exact List.forall_mem_cons.mpr ⟨day.letters.1, List.forall_mem_cons.mpr ⟨day.letters.2,
        List.forall_mem_singleton.mpr there⟩⟩
  · have all : ∀ next ∈ countedOn third, taken ((dirname ++ stem) ++ [46, first, second, next]) = true := by
      intro next member
      by_contra other
      exact free ⟨next, member, Bool.eq_false_iff.mpr other⟩
    rw [bundle_found (fun next => (dirname ++ stem) ++ [46, first, next, countedLast third])
      (fun next => (dirname ++ stem) ++ [46, first, second, next]) (dirname ++ stem) names collides rfl all,
      or_iff_right free]
    cases found : (countedOn second).find? fun next =>
        !taken ((dirname ++ stem) ++ [46, first, next, countedLast third]) with
    | some next =>
      have there := plainOn (List.mem_of_find?_eq_some found)
      have named := fileClass_bundle first next (countedLast third) separated stemSingle
        (List.forall_mem_cons.mpr ⟨day.letters.1, List.forall_mem_cons.mpr ⟨there,
          List.forall_mem_singleton.mpr (plainLast ⟨plain, thirdSingle⟩)⟩⟩)
      rw [assoc] at named
      constructor
      · intro keeps
        exact named.mp (keeps _ rfl)
      · rintro weekday path ⟨⟩
        exact named.mpr weekday
    | none =>
      dsimp only
      constructor
      · intro keeps next member
        by_contra other
        cases last : (countedOn first).find? fun next =>
            !taken ((dirname ++ stem) ++ [46, next, countedLast second, countedLast third]) with
        | none =>
          have none := List.find?_eq_none.mp last next member
          rw [Bool.eq_false_iff.mpr other] at none
          exact none rfl
        | some found =>
          have there := plainOn (List.mem_of_find?_eq_some last)
          have named := fileClass_bundle found (countedLast second) (countedLast third) separated
            stemSingle (List.forall_mem_cons.mpr ⟨there,
              List.forall_mem_cons.mpr ⟨plainLast day.letters.2,
                List.forall_mem_singleton.mpr (plainLast ⟨plain, thirdSingle⟩)⟩⟩)
          rw [assoc] at named
          rw [last] at keeps
          exact weekday_last day found (named.mp (keeps _ rfl))
      · intro all path member
        rw [find_taken (fun next => (dirname ++ stem) ++ [46, next, countedLast second, countedLast third]) all]
          at member
        cases member

/-- Other names than those of bundles need no condition. -/
theorem rotatesRight_other (separated : dirname.getLast? = some 47) (single : 47 ∉ fname)
    (other : fileClass (outFiletype fname) ≠ .arcmail) : RotatesRight taken dirname fname := by
  rintro stem first second third rfl day plain
  refine absurd ?_ other
  rw [← outFiletype_inside separated single]
  have thirdSingle : third ≠ 47 := by
    rintro rfl
    exact single (by simp)
  refine (fileClass_bundle first second third separated (fun member => single (List.mem_append_left _ member)) ?_).mpr day
  exact List.forall_mem_cons.mpr ⟨day.letters.1, List.forall_mem_cons.mpr ⟨day.letters.2,
    List.forall_mem_singleton.mpr ⟨plain, thirdSingle⟩⟩⟩

/-- A random name has the type of its extension. -/
theorem randomName_type (separated : dirname.getLast? = some 47) {ext : Bytes} (single : 47 ∉ ext) (plain : 46 ∉ ext) :
    Ensures (fun _ => True) (fun made => ∀ found ∈ made, outFiletype found.1 = extensionType (46 :: ext) ∧ True)
      (randomName dirname ext ()) := by
  refine (ensures_call _ _ _ _).mpr ⟨trivial, fun number => (ensures_done _ _ _).mpr ?_⟩
  rintro _ ⟨⟩
  refine ⟨?_, trivial⟩
  have digits : 47 ∉ printHex number := by
    intro member
    unfold printHex at member
    rcases List.mem_append.mp member with padding | digit
    · exact absurd (List.eq_of_mem_replicate padding) (by decide)
    · exact absurd (toDigits_graphic 16 number (by decide) (by decide) 47 digit) (by decide)
  have shape : dirname ++ printHex number ++ ascii "." ++ ext = dirname ++ (printHex number ++ 46 :: ext) := by
    rw [List.append_assoc, List.append_assoc]
    rfl
  dsimp only
  rw [shape, outFiletype_ending separated _ plain]
  intro member
  rcases List.mem_append.mp member with front | back
  · exact digits front
  · rcases List.mem_cons.mp back with point | rest
    · exact absurd point (by decide)
    · exact single rest

/-- A name with a number has no type. -/
theorem numberName_type (separated : dirname.getLast? = some 47) {stem : Bytes} (single : 47 ∉ stem) (number : Nat) :
    Ensures (fun _ => True) (fun made => ∀ found ∈ made, outFiletype found.1 = 0 ∧ True)
      (numberName (dirname ++ (stem ++ [46])) number) := by
  refine (ensures_done _ _ _).mpr ?_
  rintro _ ⟨⟩
  refine ⟨?_, trivial⟩
  have digits := printNat_isdigit (number + 1)
  obtain ⟨digit, rest, is⟩ := List.exists_cons_of_ne_nil (printNat_ne_nil (number + 1))
  rw [is] at digits
  have plain : 46 ∉ digit :: rest ∧ 47 ∉ digit :: rest := by
    refine ⟨fun member => ?_, fun member => ?_⟩
    · exact absurd (digits 46 member) (by decide)
    · exact absurd (digits 47 member) (by decide)
  have shape : dirname ++ (stem ++ [46]) ++ digit :: rest = dirname ++ (stem ++ 46 :: digit :: rest) := by
    simp only [List.append_assoc, List.singleton_append]
  dsimp only
  rw [is, shape, outFiletype_ending separated _ plain.1]
  · exact extensionType_digit rest (digits digit List.mem_cons_self)
  · intro member
    rcases List.mem_append.mp member with front | back
    · exact single front
    · rcases List.mem_cons.mp back with point | number
      · exact absurd point (by decide)
      · exact plain.2 number

/-- The search is bounded, and ends with a name that is free. -/
theorem uniqueName_search (request : hasType (outFiletype fname) typeRequest = false) :
    (uniqueName taken draws dirname fname).1.1 ≤ maxTries ∧
      ∀ path ∈ (uniqueName taken draws dirname fname).2, taken path = false := by
  have search {σ : Type} (turn : σ → InboundProgram (Option (Bytes × σ)))
      (quiet : ∀ state counts, (exec (inboundWorld taken draws) (turn state) counts).1.1 = counts.1) (state : σ) :
      (exec (inboundWorld taken draws) (tryNames turn maxTries state) (0, 0)).1.1 ≤ maxTries ∧
        ∀ path ∈ (exec (inboundWorld taken draws) (tryNames turn maxTries state) (0, 0)).2, taken path = false := by
    have found := tryNames_found taken draws quiet maxTries state (0, 0)
    rwa [Nat.zero_add] at found
  unfold uniqueName protUniqueName
  dsimp only
  rw [if_neg (by rw [request]; exact Bool.false_ne_true)]
  split
  · exact search _ (fun _ _ => rfl) ()
  · split
    · exact search _ (fun place counts => by rw [rotateName_next, exec_done]) _
    · exact search _ (fun _ _ => rfl) 0

/-- A file that is no bundle stays in its class. -/
theorem uniqueName_other (separated : dirname.getLast? = some 47) (filled : fname ≠ []) (single : 47 ∉ fname)
    (request : hasType (outFiletype fname) typeRequest = false)
    (other : fileClass (outFiletype fname) ≠ .arcmail) :
    ∀ path ∈ (uniqueName taken draws dirname fname).2,
      fileClass (outFiletype path) = fileClass (outFiletype fname) := by
  -- Whatever the directory has in it, the names have one type.
  have typed {σ : Type} {turn : σ → InboundProgram (Option (Bytes × σ))} (type : Nat)
      (turns : ∀ state, Ensures (fun _ => True) (fun made => ∀ found ∈ made, outFiletype found.1 = type ∧ True)
        (turn state)) (state : σ) :
      ∀ path ∈ (exec (inboundWorld taken draws) (tryNames turn maxTries state) (0, 0)).2,
        outFiletype path = type := by
    have names : Ensures (fun _ => True) (fun result => ∀ path ∈ result, outFiletype path = type)
        (tryNames turn maxTries state) :=
      tryNames_ensures (fun _ => trivial) (fun state (_ : True) => turns state) maxTries state trivial
    exact names.2 _ (yields_exec _ _ _)
  intro path member
  unfold uniqueName protUniqueName at member
  dsimp only at member
  rw [if_neg (by rw [request]; exact Bool.false_ne_true)] at member
  have known := outFiletype_known fname
  simp only [List.mem_cons, List.not_mem_nil, or_false] at known
  have numbered : outFiletype fname = 0 ∨ outFiletype fname = typeFlofile →
      fileClass (outFiletype path) = fileClass (outFiletype fname) := by
    intro type
    have noMail : (hasType (outFiletype fname) typeNetmail || hasType (outFiletype fname) typeTicfile) = false := by
      rcases type with type | type
      all_goals
        rw [type]
        decide
    have noBundle : hasType (outFiletype fname) typeArcmail = false := by
      rcases type with type | type
      all_goals
        rw [type]
        decide
    rw [if_neg (by rw [noMail]; exact Bool.false_ne_true), if_neg (by rw [noBundle]; exact Bool.false_ne_true)]
      at member
    have none : outFiletype path = 0 := by
      split at member
      · rename_i point
        rw [List.getLast?_append_of_ne_nil _ filled, List.getLast?_eq_some_iff] at point
        obtain ⟨stem, rfl⟩ := point
        exact typed 0 (numberName_type separated fun there => single (List.mem_append_left _ there)) 0 path member
      · rw [List.append_assoc] at member
        exact typed 0 (numberName_type separated single) 0 path member
    rw [none]
    rcases type with type | type
    · rw [type]
    · rw [type]
      decide
  rcases known with type | type | type | type | type | type
  · exact numbered (.inl type)
  · rw [type] at member ⊢
    rw [if_pos (by decide), if_pos (by decide)] at member
    have packet := typed _ (fun _ => randomName_type separated (by decide) (by decide)) () path member
    rw [packet]
    decide +kernel
  · exact numbered (.inr type)
  · rw [type] at request
    exact absurd request (by decide)
  · rw [type] at member ⊢
    rw [if_pos (by decide), if_neg (by decide)] at member
    have tic := typed _ (fun _ => randomName_type separated (by decide) (by decide)) () path member
    rw [tic]
    decide +kernel
  · rw [type] at other
    exact absurd (by decide) other

/-- A received name that is taken is given another one after at most so many tries, which is
that of a file in the directory and free. The file stays in its class exactly if the name of a
bundle rotates right. -/
theorem unique_name_right (separated : dirname.getLast? = some 47) (name : FileName fname)
    (request : hasType (outFiletype fname) typeRequest = false) (collides : taken (dirname ++ fname) = true) :
    UniqueRight taken draws dirname fname ↔ RotatesRight taken dirname fname := by
  obtain ⟨bounded, free⟩ := @uniqueName_search taken draws dirname fname request
  have within : ∀ path ∈ (uniqueName taken draws dirname fname).2, Inside dirname path :=
    (@uniqueName_inside (fun _ => True) dirname separated trivial (fun _ => trivial) fname name
      (outFiletype fname)).2 _ (yields_exec _ _ _)
  have right (same : ∀ path ∈ (uniqueName taken draws dirname fname).2,
      fileClass (outFiletype path) = fileClass (outFiletype fname)) : UniqueRight taken draws dirname fname :=
    ⟨bounded, fun path member => ⟨within path member, free path member⟩, same⟩
  by_cases bundle : fileClass (outFiletype fname) = .arcmail
  · obtain ⟨stem, first, second, third, rfl, day, plain⟩ := arcmail_form name.single bundle
    have keeps := @bundle_keeps taken draws dirname separated stem first second third name.single day plain collides
    have arcmail : outFiletype (stem ++ [46, first, second, third]) = typeArcmail := by
      have known := outFiletype_known (stem ++ [46, first, second, third])
      simp only [List.mem_cons, List.not_mem_nil, or_false] at known
      rcases known with type | type | type | type | type | type
      all_goals first
        | exact type
        | (rw [type] at bundle; exact absurd bundle (by decide))
    have search : uniqueName taken draws dirname (stem ++ [46, first, second, third]) =
        exec (inboundWorld taken draws) (tryNames rotateName maxTries
          (dirname ++ (stem ++ [46, first, second, third]),
            (dirname ++ (stem ++ [46, first, second, third])).length - 1)) (0, 0) := by
      unfold uniqueName protUniqueName
      rw [arcmail]
      rfl
    rw [← keeps]
    constructor
    · intro unique path member
      rw [← search] at member
      rw [unique.sameClass path member, bundle]
    · intro all
      refine right fun path member => ?_
      rw [search] at member
      rw [all path member, bundle]
  · exact iff_of_true (right (uniqueName_other separated name.named name.single request bundle))
      (rotatesRight_other separated name.single bundle)

end

/-- A bundle that came in before is in the directory. -/
def oneBundle (path : Bytes) : Bool := path == ascii "/in/057d63a6.su0"

/-- Many bundles of one sender and day are. -/
def manyBundles (path : Bytes) : Bool := path.take 15 == ascii "/in/057d63a6.su"

/-- Another bundle of the day stays a bundle. -/
theorem unique_name_right_one : UniqueRight oneBundle id (ascii "/in/") (ascii "057d63a6.su0") := by
  have name : FileName (ascii "057d63a6.su0") := by decide
  refine (unique_name_right (by decide) name (by decide +kernel) (by decide)).mpr ?_
  intro stem first second third same day plain
  obtain ⟨rfl, ends⟩ := List.append_inj' (show ascii "057d63a6" ++ [46, 115, 117, 48] = _ from same) rfl
  simp only [List.cons.injEq, and_true, true_and] at ends
  obtain ⟨rfl, rfl, rfl⟩ := ends
  exact .inl ⟨49, by decide, by decide⟩

/-- After all digits and letters, the bundle becomes a file of another kind. -/
theorem bundle_lost :
    (uniqueName manyBundles id (ascii "/in/") (ascii "057d63a6.su0")).2 = some (ascii "/in/057d63a6.svZ") ∧
      fileClass (outFiletype (ascii "057d63a6.su0")) = .arcmail ∧
      fileClass (outFiletype (ascii "/in/057d63a6.svZ")) = .other := by
  decide +kernel

end Binkleyforce
