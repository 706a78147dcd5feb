import Mathlib.Data.List.TakeWhile
import Binkleyforce.Daemon.Queues
import Binkleyforce.Transfer.Inbound
import Binkleyforce.Util.Masks

/-!
# File types

What a file is, by the extension of its name: packets of netmail, bundles of compressed mail,
whose extension starts with a day of the week, and others.
-/

namespace Binkleyforce

/-- `outtab`, without what it says of outgoing files. -/
def outtab : List (Bytes × Nat) :=
  [(ascii ".iut", typeNetmail), (ascii ".cut", typeNetmail), (ascii ".dut", typeNetmail),
    (ascii ".out", typeNetmail), (ascii ".hut", typeNetmail), (ascii ".ikt", typeNetmail),
    (ascii ".ckt", typeNetmail), (ascii ".dkt", typeNetmail), (ascii ".pkt", typeNetmail),
    (ascii ".hkt", typeNetmail), (ascii ".ilo", typeFlofile), (ascii ".clo", typeFlofile),
    (ascii ".dlo", typeFlofile), (ascii ".flo", typeFlofile), (ascii ".hlo", typeFlofile),
    (ascii ".req", typeRequest)]

/-- `exttab`, likewise. -/
def exttab : List (Bytes × Nat) :=
  [(ascii ".tic", typeTicfile), (ascii ".su?", typeArcmail), (ascii ".mo?", typeArcmail),
    (ascii ".tu?", typeArcmail), (ascii ".we?", typeArcmail), (ascii ".th?", typeArcmail),
    (ascii ".fr?", typeArcmail), (ascii ".sa?", typeArcmail)]

/-- The extension of a name: what follows from the last point on. -/
def fileExtension (name : Bytes) : Option Bytes :=
  if 46 ∈ name then some (46 :: (name.reverse.takeWhile (· ≠ 46)).reverse) else none

/-- The type that the tables give an extension. -/
def extensionType (ext : Bytes) : Nat :=
  match outtab.find? fun entry => strcasemask ext entry.1 with
  | some entry => entry.2
  | none =>
    match exttab.find? fun entry => strcasemask ext entry.1 with
    | some entry => entry.2
    | none => 0

/-- `out_filetype`. -/
def outFiletype (fname : Bytes) : Nat :=
  match fileExtension (fileGetname fname) with
  | none => 0
  | some ext => extensionType ext

/-- What a tosser takes a file for. -/
inductive FileClass
  | netmail
  | arcmail
  | other
  deriving DecidableEq

/-- The class of a type. -/
def fileClass (type : Nat) : FileClass :=
  if hasType type typeNetmail then .netmail
  else if hasType type typeArcmail then .arcmail
  else .other

/-- The days of the week that the extensions of bundles start with. -/
def weekdays : List (UInt8 × UInt8) :=
  [(83, 85), (77, 79), (84, 85), (87, 69), (84, 72), (70, 82), (83, 65)]

/-- Two letters that stand for a day of the week, in either case. -/
def Weekday (first second : UInt8) : Prop := (toupper first, toupper second) ∈ weekdays

instance (first second : UInt8) : Decidable (Weekday first second) := by
  unfold Weekday
  infer_instance

/-- The extension starts at the last point. -/
theorem fileExtension_last {stem ext : Bytes} (plain : 46 ∉ ext) :
    fileExtension (stem ++ 46 :: ext) = some (46 :: ext) := by
  have whole : ext.reverse.takeWhile (· ≠ 46) = ext.reverse := by
    rw [List.takeWhile_eq_self_iff]
    intro char member
    have other : char ≠ 46 := by
      rintro rfl
      exact plain (List.mem_reverse.mp member)
    simpa using other
  unfold fileExtension
  rw [if_pos (List.mem_append_right _ List.mem_cons_self), List.reverse_append, List.reverse_cons,
    List.append_assoc, List.takeWhile_append, whole, if_pos rfl, List.singleton_append,
    List.takeWhile_cons_of_neg (by simp), List.append_nil, List.reverse_reverse]

/-- Letters that stand for themselves in a mask. -/
def maskLetters (letters : Bytes) : Bool := letters.all fun letter => letter != 92 && letter != 63 && letter != 42

theorem maskLetters_cons {letter : UInt8} {letters : Bytes} :
    maskLetters (letter :: letters) = true ↔
      (letter ≠ 92 ∧ letter ≠ 63 ∧ letter ≠ 42) ∧ maskLetters letters = true := by
  simp only [maskLetters, List.all_cons, Bool.and_eq_true, bne_iff_ne, and_assoc]

/-- A mask of three letters behind a point. -/
theorem strcasemask_letters (first second third : UInt8) {x y z : UInt8} (plain : maskLetters [x, y, z] = true) :
    strcasemask [46, first, second, third] [46, x, y, z] =
      (toupper x == toupper first && (toupper y == toupper second && toupper z == toupper third)) := by
  simp only [maskLetters_cons] at plain
  simp [strcasemask, plain]

/-- A mask of two letters behind a point, and any character. -/
theorem strcasemask_bundle (first second third : UInt8) {x y : UInt8} (plain : maskLetters [x, y] = true) :
    strcasemask [46, first, second, third] [46, x, y, 63] =
      (toupper x == toupper first && toupper y == toupper second) := by
  simp only [maskLetters_cons] at plain
  simp [strcasemask, plain]

/-- A mask of the first table stands for no day of the week. -/
theorem outtab_weekday {first second : UInt8} (third : UInt8) (day : Weekday first second) :
    outtab.find? (fun entry => strcasemask [46, first, second, third] entry.1) = none := by
  unfold Weekday weekdays at day
  simp only [List.mem_cons, Prod.mk.injEq, List.not_mem_nil, or_false] at day
  rw [List.find?_eq_none]
  intro entry member
  unfold outtab at member
  simp only [List.mem_cons, List.not_mem_nil, or_false] at member
  rcases member with rfl | rfl | rfl | rfl | rfl | rfl | rfl | rfl | rfl | rfl | rfl | rfl | rfl | rfl | rfl | rfl
  all_goals
    refine ne_true_of_eq_false ((strcasemask_letters first second third (by decide)).trans ?_)
    rcases day with ⟨a, b⟩ | ⟨a, b⟩ | ⟨a, b⟩ | ⟨a, b⟩ | ⟨a, b⟩ | ⟨a, b⟩ | ⟨a, b⟩
    all_goals
      rw [a, b]
      rfl

/-- Extensions that start with a day of the week are those of bundles. -/
theorem extensionType_weekday (first second third : UInt8) :
    fileClass (extensionType [46, first, second, third]) = .arcmail ↔ Weekday first second := by
  have others : ∀ entry ∈ outtab, fileClass entry.2 ≠ .arcmail := by decide
  constructor
  · intro bundle
    unfold extensionType at bundle
    split at bundle
    · rename_i entry found
      exact absurd bundle (others entry (List.mem_of_find?_eq_some found))
    · split at bundle
      · rename_i entry found
        have masked := List.find?_some found
        have member := List.mem_of_find?_eq_some found
        unfold exttab at member
        rw [List.mem_cons] at member
        rcases member with rfl | member
        · exact absurd bundle (by decide)
        · simp only [List.mem_cons, List.not_mem_nil, or_false] at member
          unfold Weekday weekdays
          rcases member with rfl | rfl | rfl | rfl | rfl | rfl | rfl
          all_goals
            have letters := (strcasemask_bundle first second third (by decide)).symm.trans masked
            rw [Bool.and_eq_true, beq_iff_eq, beq_iff_eq] at letters
            rw [← letters.1, ← letters.2]
            decide
      · exact absurd bundle (by decide)
  · intro day
    have none := outtab_weekday third day
    unfold extensionType
    rw [none]
    dsimp only
    -- The mask of the day is found, at the latest.
    have masked : ∃ entry ∈ exttab.tail, strcasemask [46, first, second, third] entry.1 = true := by
      unfold Weekday weekdays at day
      simp only [List.mem_cons, Prod.mk.injEq, List.not_mem_nil, or_false] at day
      rcases day with ⟨a, b⟩ | ⟨a, b⟩ | ⟨a, b⟩ | ⟨a, b⟩ | ⟨a, b⟩ | ⟨a, b⟩ | ⟨a, b⟩
      · exact ⟨(ascii ".su?", typeArcmail), by decide,
          (strcasemask_bundle _ _ _ (by decide)).trans (by rw [a, b]; rfl)⟩
      · exact ⟨(ascii ".mo?", typeArcmail), by decide,
          (strcasemask_bundle _ _ _ (by decide)).trans (by rw [a, b]; rfl)⟩
      · exact ⟨(ascii ".tu?", typeArcmail), by decide,
          (strcasemask_bundle _ _ _ (by decide)).trans (by rw [a, b]; rfl)⟩
      · exact ⟨(ascii ".we?", typeArcmail), by decide,
          (strcasemask_bundle _ _ _ (by decide)).trans (by rw [a, b]; rfl)⟩
      · exact ⟨(ascii ".th?", typeArcmail), by decide,
          (strcasemask_bundle _ _ _ (by decide)).trans (by rw [a, b]; rfl)⟩
      · exact ⟨(ascii ".fr?", typeArcmail), by decide,
          (strcasemask_bundle _ _ _ (by decide)).trans (by rw [a, b]; rfl)⟩
      · exact ⟨(ascii ".sa?", typeArcmail), by decide,
          (strcasemask_bundle _ _ _ (by decide)).trans (by rw [a, b]; rfl)⟩
    -- The description before it is none.
    have noTic : strcasemask [46, first, second, third] (ascii ".tic") = false := by
      refine (strcasemask_letters _ _ _ (by decide)).trans ?_
      unfold Weekday weekdays at day
      simp only [List.mem_cons, Prod.mk.injEq, List.not_mem_nil, or_false] at day
      rcases day with ⟨a, b⟩ | ⟨a, b⟩ | ⟨a, b⟩ | ⟨a, b⟩ | ⟨a, b⟩ | ⟨a, b⟩ | ⟨a, b⟩
      all_goals
        rw [a, b]
        rfl
    have bundles : ∀ entry ∈ exttab.tail, fileClass entry.2 = .arcmail := by decide
    have start : exttab = (ascii ".tic", typeTicfile) :: exttab.tail := rfl
    rw [start, List.find?_cons, noTic]
    dsimp only
    cases found : exttab.tail.find? fun entry => strcasemask [46, first, second, third] entry.1 with
    | none =>
      obtain ⟨entry, member, is⟩ := masked
      exact absurd is (List.find?_eq_none.mp found entry member)
    | some entry => exact bundles entry (List.mem_of_find?_eq_some found)

/-- A mask that a letter follows the point in is no mask for numbers. -/
theorem strcasemask_digit {digit letter : UInt8} (rest mask : Bytes)
    (plain : letter ≠ 92 ∧ letter ≠ 63 ∧ letter ≠ 42) (other : (toupper letter == toupper digit) = false) :
    strcasemask (46 :: digit :: rest) (46 :: letter :: mask) = false := by
  have second : strcasemask (digit :: rest) (letter :: mask) = false := by
    rw [strcasemask.eq_def]
    dsimp only
    rw [if_neg plain.1, if_neg plain.2.1, if_neg plain.2.2, other]
    rfl
  simp [strcasemask, second]

/-- A number is no extension of the tables. -/
theorem extensionType_digit {digit : UInt8} (rest : Bytes) (is : isdigit digit) :
    extensionType (46 :: digit :: rest) = 0 := by
  have one : ∀ letter, (65 ≤ toupper letter) → (toupper letter == toupper digit) = false := by
    intro letter great
    have small : digit.toNat ≤ 57 := by
      unfold isdigit at is
      exact UInt8.le_iff_toNat_le.mp (of_decide_eq_true (Bool.and_eq_true_iff.mp is).2)
    have same : toupper digit = digit := by
      unfold toupper
      rw [if_neg]
      simp only [Bool.and_eq_true, decide_eq_true_eq, UInt8.le_iff_toNat_le, UInt8.reduceToNat]
      omega
    rw [same, beq_eq_false_iff_ne]
    rintro rfl
    have large := UInt8.le_iff_toNat_le.mp great
    simp only [UInt8.reduceToNat] at large
    omega
  have unmasked : ∀ entry ∈ outtab ++ exttab, ¬ strcasemask (46 :: digit :: rest) entry.1 = true := by
    intro entry member
    unfold outtab exttab at member
    simp only [List.cons_append, List.nil_append, List.mem_cons, List.not_mem_nil, or_false] at member
    apply ne_true_of_eq_false
    rcases member with rfl | rfl | rfl | rfl | rfl | rfl | rfl | rfl | rfl | rfl | rfl | rfl | rfl | rfl |
      rfl | rfl | rfl | rfl | rfl | rfl | rfl | rfl | rfl | rfl
    all_goals exact strcasemask_digit _ _ (by decide) (one _ (by decide))
  have none (table : List (Bytes × Nat)) (inside : ∀ entry ∈ table, entry ∈ outtab ++ exttab) :
      table.find? (fun entry => strcasemask (46 :: digit :: rest) entry.1) = none :=
    List.find?_eq_none.mpr fun entry member => unmasked entry (inside entry member)
  unfold extensionType
  rw [none outtab fun _ => List.mem_append_left _, none exttab fun _ => List.mem_append_right _]

/-- The types that the tables give. -/
theorem outFiletype_known (fname : Bytes) :
    outFiletype fname ∈ [0, typeNetmail, typeFlofile, typeRequest, typeTicfile, typeArcmail] := by
  have first : ∀ entry ∈ outtab,
      entry.2 ∈ [0, typeNetmail, typeFlofile, typeRequest, typeTicfile, typeArcmail] := by decide
  have second : ∀ entry ∈ exttab,
      entry.2 ∈ [0, typeNetmail, typeFlofile, typeRequest, typeTicfile, typeArcmail] := by decide
  unfold outFiletype
  split
  · decide
  · unfold extensionType
    split
    · rename_i found
      exact first _ (List.mem_of_find?_eq_some found)
    · split
      · rename_i found
        exact second _ (List.mem_of_find?_eq_some found)
      · decide

/-- The mask of a bundle has four characters. -/
theorem strcasemask_four {ext : Bytes} {x y : UInt8} (plain : maskLetters [x, y] = true)
    (masked : strcasemask (46 :: ext) [46, x, y, 63] = true) :
    ∃ first second third, ext = [first, second, third] := by
  simp only [maskLetters_cons] at plain
  match ext with
  | [] => simp [strcasemask] at masked
  | [first] => simp [strcasemask, plain] at masked
  | [first, second] => simp [strcasemask, plain] at masked
  | [first, second, third] => exact ⟨first, second, third, rfl⟩
  | first :: second :: third :: fourth :: rest => simp [strcasemask, plain] at masked

/-- The name of a bundle ends with a day of the week and one more character. -/
theorem arcmail_form {fname : Bytes} (single : 47 ∉ fname)
    (bundle : fileClass (outFiletype fname) = .arcmail) :
    ∃ stem first second third, fname = stem ++ [46, first, second, third] ∧ Weekday first second ∧
      third ≠ 46 := by
  have others : ∀ entry ∈ outtab, fileClass entry.2 ≠ .arcmail := by decide
  have whole : fileGetname fname = fname := by
    unfold fileGetname
    rw [List.takeWhile_eq_self_iff.mpr, List.reverse_reverse]
    intro char member
    have other : char ≠ 47 := by
      rintro rfl
      exact single (List.mem_reverse.mp member)
    simpa using other
  unfold outFiletype at bundle
  rw [whole] at bundle
  by_cases point : 46 ∈ fname
  · -- The name is cut at its last point.
    obtain ⟨behind, before, reversed, plain⟩ := List.eq_append_cons_of_mem (List.mem_reverse.mpr point)
    have parts : fname = before.reverse ++ 46 :: behind.reverse := by
      rw [← List.reverse_reverse fname, reversed, List.reverse_append, List.reverse_cons, List.append_assoc,
        List.singleton_append]
    have plainBehind : 46 ∉ behind.reverse := fun member => plain (List.mem_reverse.mp member)
    rw [parts, fileExtension_last plainBehind] at bundle
    dsimp only at bundle
    have four : ∃ first second third, behind.reverse = [first, second, third] := by
      unfold extensionType at bundle
      split at bundle
      · rename_i entry found
        exact absurd bundle (others entry (List.mem_of_find?_eq_some found))
      · split at bundle
        · rename_i entry found
          have masked := List.find?_some found
          have member := List.mem_of_find?_eq_some found
          unfold exttab at member
          rw [List.mem_cons] at member
          rcases member with rfl | member
          · exact absurd bundle (by decide)
          · simp only [List.mem_cons, List.not_mem_nil, or_false] at member
            rcases member with rfl | rfl | rfl | rfl | rfl | rfl | rfl
            all_goals exact strcasemask_four (by decide) masked
        · exact absurd bundle (by decide)
    obtain ⟨first, second, third, is⟩ := four
    rw [is] at bundle plainBehind parts
    refine ⟨before.reverse, first, second, third, parts, ?_, ?_⟩
    · exact (extensionType_weekday first second third).mp bundle
    · rintro rfl
      exact plainBehind (by simp)
  · unfold fileExtension at bundle
    rw [if_neg point] at bundle
    exact absurd bundle (by decide)

end Binkleyforce
