import Binkleyforce.Binkp.State
import Binkleyforce.Transfer.NetNames

/-!
# File information on the line

What the commands about files print, `binkp_parsfinfo` reads on the other side. The
name is scanned as a word and the numbers as `int`s into variables of 64 bits whose
high halves nobody sets. So the information survives exactly where the name is one
word without separators and every number's high half is what the variable happens to
hold.
-/

namespace Binkleyforce

/-- The forms in which a file is described: announced from its start, announced to be
asked for, at an offset (M_FILE and M_GET), acknowledged or refused (M_GOT and M_SKIP),
and refused where another file was asked for, which prints an argument that was not
passed. -/
inductive FileArgument where
  | fromStart
  | toBeAsked
  | atOffset (offs : Nat)
  | answered
  | notAsked (garbage : Nat)

namespace FileArgument

/-- The text printed for a file. -/
def print (file : FileHint) : FileArgument → Bytes
  | fromStart => fileText file ++ ascii " 0"
  | toBeAsked => fileText file ++ ascii " -1"
  | atOffset offs => fileText file ++ ascii " " ++ printInt (toLong offs)
  | answered => fileText file
  | notAsked garbage => fileText file ++ ascii " " ++ printInt (toLong garbage)

/-- Does the reader of the command look for an offset? -/
def withOffset : FileArgument → Bool
  | answered | notAsked _ => false
  | _ => true

/-- The offset that is meant, as a `size_t`. -/
def offset : FileArgument → Nat
  | toBeAsked => 2 ^ 64 - 1
  | atOffset offs => offs
  | _ => 0

/-- What follows name, size and time. -/
def tail : FileArgument → Bytes
  | fromStart => 32 :: printInt (toLong 0)
  | toBeAsked => 32 :: printInt (toLong (2 ^ 64 - 1))
  | atOffset offs => 32 :: printInt (toLong offs)
  | answered => []
  | notAsked garbage => 32 :: printInt (toLong garbage)

/-- The same name, size, time and offset are recovered. -/
def Recovers (argument : FileArgument) (file : FileHint) (found : Option Bpfinfo) : Prop :=
  ∃ fi, found = some fi ∧ fi.fn = file.fn ∧ fi.sz = file.sz ∧ fi.tm = file.tm ∧
    (argument.withOffset = true → fi.offs = argument.offset)

end FileArgument

/-- A name the scan gives back: one word without separators. -/
def PlainName (fn : Bytes) : Prop := fn ≠ [] ∧ ∀ char ∈ fn, isspace char = false ∧ char ≠ 47

/-- The uninitialised high half of a number is that of the value printed. -/
def HalfMatches (high value : Nat) : Prop := high % 2 ^ 32 = value / 2 ^ 32

instance (high value : Nat) : Decidable (HalfMatches high value) :=
  inferInstanceAs (Decidable (high % 2 ^ 32 = value / 2 ^ 32))

/-- All commands print the name, then the size, the time and what is left. -/
theorem print_shape (argument : FileArgument) (file : FileHint) :
    argument.print file =
      file.fn ++ (32 :: (printInt (toLong file.sz) ++ (32 :: (printInt file.tm ++ argument.tail)))) := by
  have zero : ascii " 0" = 32 :: printInt (toLong 0) := by decide
  have last : ascii " -1" = 32 :: printInt (toLong (2 ^ 64 - 1)) := by decide
  have blank : ascii " " = [32] := by decide
  cases argument <;>
    simp only [FileArgument.print, FileArgument.tail, fileText, zero, last, blank,
      List.append_assoc, List.cons_append, List.nil_append, List.append_nil]

/-- What is left begins with no digit. -/
theorem tail_ends (argument : FileArgument) :
    ∀ char ∈ argument.tail.head?, isdigit char = false := by
  cases argument <;> simp [FileArgument.tail, isdigit]

/-- A printed number is a string. -/
theorem printInt_terminated (value : Int) : 0 ∉ printInt value := by
  have digits : 0 ∉ printNat value.natAbs := by
    intro present
    exact absurd (printNat_isdigit _ 0 present) (by decide)
  unfold printInt
  split
  · simpa using digits
  · exact digits

/-- What is printed about a file is the string that stands before the terminator. -/
theorem print_text (argument : FileArgument) (file : FileHint) (str : Pointer) (after : Bytes)
    (name : 0 ∉ file.fn) (holds : str.memory = argument.print file ++ 0 :: after) :
    str.text = argument.print file := by
  have tail : 0 ∉ argument.tail := by
    cases argument <;> simp [FileArgument.tail, printInt_terminated]
  have none : 0 ∉ argument.print file := by
    rw [print_shape]
    simp [name, tail, printInt_terminated]
  unfold Pointer.text cstring
  rw [holds]
  refine (takeWhile_run (fun char => decide (char ≠ 0)) _ (0 :: after) ?_ (by simp)).1
  intro char member
  simp only [ne_eq, decide_eq_true_eq]
  rintro rfl
  exact none member

/-- A plain name is what a word scan takes. -/
theorem scanWord_plain (fn rest : Bytes) (plain : PlainName fn) :
    scanWord (fn ++ 32 :: rest) = some (fn, 32 :: rest) := by
  obtain ⟨present, chars⟩ := plain
  have start : skipSpace (fn ++ 32 :: rest) = fn ++ 32 :: rest := by
    obtain ⟨first, later, rfl⟩ := List.exists_cons_of_ne_nil present
    unfold skipSpace
    rw [List.cons_append, List.dropWhile_cons_of_neg (by simp [chars first List.mem_cons_self])]
  have run := takeWhile_run (fun char => !isspace char) fn (32 :: rest)
    (fun char member => by simp [chars char member]) (by simp [isspace])
  unfold scanWord
  rw [start]
  dsimp only
  rw [run.1, if_neg (by simpa using present), List.drop_left]

/-- A plain name has no separator to replace. -/
theorem separators_plain (fn : Bytes) (plain : PlainName fn) :
    (fn.map fun char => if char = 47 then 95 else char) = fn := by
  conv_rhs => rw [← List.map_id fn]
  apply List.map_congr_left
  intro char member
  rw [if_neg (plain.2 char member).2]
  rfl

/-- A name that was found is plain: the scan stops at white space, and separators
are replaced. -/
theorem found_plain (text word rest : Bytes) (scanned : scanWord text = some (word, rest)) :
    PlainName (word.map fun char => if char = 47 then 95 else char) := by
  unfold scanWord at scanned
  dsimp only at scanned
  split at scanned
  · exact absurd scanned (by simp)
  · rename_i present
    obtain ⟨rfl, -⟩ := Prod.mk.inj (Option.some.inj scanned)
    refine ⟨by simpa using present, ?_⟩
    intro char member
    obtain ⟨original, inside, made⟩ := List.mem_map.mp member
    have graphic := List.mem_takeWhile_imp inside
    split at made
    · subst made
      exact ⟨rfl, by decide⟩
    · rename_i other
      subst made
      exact ⟨by simpa using graphic, other⟩

/-- The half that is scanned is right; the number is if the other half is. -/
theorem stored_matches (high value : Nat) (inside : value < 2 ^ 64) :
    storeLowHalf high (Int.bmod (toLong value) (2 ^ 32)) = value ↔ HalfMatches high value := by
  unfold storeLowHalf HalfMatches
  have cut : Int.bmod (toLong value) (2 ^ 32) % 2 ^ 32 = toLong value % 2 ^ 32 :=
    Int.bmod_emod
  rw [cut]
  have low : toLong value % 2 ^ 32 = ((value % 2 ^ 32 : Nat) : Int) := by
    unfold toLong
    split <;> omega
  rw [low]
  omega

/-- The time is right if its high half is. -/
theorem time_matches (high : Nat) (tm : Int) (low : -(2 ^ 63) ≤ tm) (inside : tm < 2 ^ 63) :
    toLong (storeLowHalf high (Int.bmod tm (2 ^ 32))) = tm ↔ HalfMatches high (longBits tm) := by
  have bits : longBits tm < 2 ^ 64 := by
    unfold longBits
    omega
  have same : toLong (longBits tm) = tm := by
    unfold toLong longBits
    split <;> omega
  have stored := storeLowHalf_lt high (Int.bmod tm (2 ^ 32))
  rw [← stored_matches high _ bits, same]
  constructor
  · intro equal
    unfold toLong at equal
    unfold longBits
    split at equal <;> omega
  · intro equal
    rw [equal, same]

/-- What the reader makes of a plain name and what is printed after it. -/
theorem parsfinfo_plain (argument : FileArgument) (file : FileHint) (high : BpfinfoHigh)
    (str : Pointer) (holds : str.text = argument.print file) (fits : str.text.length ≤ pathMax)
    (plain : PlainName file.fn) (early : -(2 ^ 63) ≤ file.tm) (late : file.tm < 2 ^ 63) :
    (binkpParsfinfo str argument.withOffset high).1 =
      some ⟨file.fn, storeLowHalf high.sz (Int.bmod (toLong file.sz) (2 ^ 32)),
        toLong (storeLowHalf high.tm (Int.bmod file.tm (2 ^ 32))),
        if argument.withOffset then
          storeLowHalf high.offs (Int.bmod (toLong argument.offset) (2 ^ 32)) else 0⟩ := by
  have range : ∀ value, -(2 ^ 63) ≤ toLong value ∧ toLong value < 2 ^ 63 := by
    intro value
    unfold toLong
    split <;> omega
  have time := scanInt_printInt file.tm argument.tail early late (tail_ends argument)
  have size := scanInt_printInt (toLong file.sz) (32 :: (printInt file.tm ++ argument.tail))
    (range _).1 (range _).2 (by simp [isdigit])
  have word := scanWord_plain file.fn
    (printInt (toLong file.sz) ++ 32 :: (printInt file.tm ++ argument.tail)) plain
  have offset : argument.withOffset = true →
      scanInt argument.tail = some (Int.bmod (toLong argument.offset) (2 ^ 32), []) := by
    intro looked
    have printed := fun value => scanInt_printInt (toLong value) [] (range _).1 (range _).2 (by simp)
    simp only [List.append_nil] at printed
    cases argument
    · exact printed 0
    · exact printed (2 ^ 64 - 1)
    · exact printed _
    · exact absurd looked (by decide)
    · exact absurd looked (by simp [FileArgument.withOffset])
  unfold binkpParsfinfo
  rw [if_neg (Nat.not_lt.mpr fits), holds, print_shape, word]
  dsimp only
  rw [size]
  dsimp only
  rw [time]
  dsimp only
  rw [separators_plain _ plain]
  by_cases looked : argument.withOffset = true
  · rw [if_pos looked, if_pos looked, offset looked]
  · rw [if_neg looked, if_neg looked]

/-- What was recovered was found in the text, so the name is plain and the text not
too long. -/
theorem recovered_plain (argument : FileArgument) (file : FileHint) (high : BpfinfoHigh)
    (str : Pointer)
    (recovered : argument.Recovers file (binkpParsfinfo str argument.withOffset high).1) :
    PlainName file.fn ∧ str.text.length ≤ pathMax := by
  obtain ⟨fi, found, name, -⟩ := recovered
  unfold binkpParsfinfo at found
  split at found
  · exact absurd found (by simp)
  · rename_i fits
    refine ⟨?_, Nat.le_of_not_lt fits⟩
    split at found
    · exact absurd found (by simp)
    · rename_i word rest scanned
      have plain := found_plain _ _ _ scanned
      have taken : fi.fn = word.map fun char => if char = 47 then 95 else char := by
        dsimp only at found
        repeat' split at found
        all_goals first
          | exact (congrArg Bpfinfo.fn (Option.some.inj found)).symm
          | exact nomatch found
      rw [← name, taken]
      exact plain

/-- The information about a file survives the line exactly where its name is one word
without separators, the text fits, and the high halves of size, time and offset are
what the variables read into held before. -/
theorem parsfinfo_recovers_iff (fnc : Bool) (table : UInt8 → UInt8) (rand : Nat)
    (origname : Bytes) (type : Nat) (file : FileHint) (argument : FileArgument)
    (high : BpfinfoHigh) (str : Pointer) (after : Bytes)
    (produced : netName fnc table rand origname type = some file.fn) (size : file.sz < 2 ^ 64)
    (early : -(2 ^ 63) ≤ file.tm) (late : file.tm < 2 ^ 63) (offset : argument.offset < 2 ^ 64)
    (holds : str.memory = argument.print file ++ 0 :: after) :
    argument.Recovers file (binkpParsfinfo str argument.withOffset high).1 ↔
      PlainName file.fn ∧ (argument.print file).length ≤ pathMax ∧ HalfMatches high.sz file.sz ∧
        HalfMatches high.tm (longBits file.tm) ∧
        (argument.withOffset = true → HalfMatches high.offs argument.offset) := by
  have name := netName_terminated fnc table rand origname type file.fn produced
  have text := print_text argument file str after name holds
  constructor
  · intro recovered
    obtain ⟨plain, fits⟩ := recovered_plain argument file high str recovered
    obtain ⟨fi, found, -, sz, tm, offs⟩ := recovered
    rw [parsfinfo_plain argument file high str text fits plain early late] at found
    obtain rfl := Option.some.inj found
    refine ⟨plain, text ▸ fits, (stored_matches _ _ size).mp sz, (time_matches _ _ early late).mp tm,
      ?_⟩
    intro looked
    have meant := offs looked
    dsimp only at meant
    rw [if_pos looked] at meant
    exact (stored_matches _ _ offset).mp meant
  · rintro ⟨plain, fits, sz, tm, offs⟩
    refine ⟨_, parsfinfo_plain argument file high str text (text ▸ fits) plain early late, rfl,
      (stored_matches _ _ size).mpr sz, (time_matches _ _ early late).mpr tm, ?_⟩
    intro looked
    dsimp only
    rw [if_pos looked]
    exact (stored_matches _ _ offset).mpr (offs looked)

/-- The file "mail.zip" of ten bytes, asked for from byte three, into variables that
were zero. -/
theorem parsfinfo_recovers_mail :
    netName false id 0 (ascii "mail.zip") 0 = some (ascii "mail.zip") ∧
      (FileArgument.atOffset 3).Recovers ⟨ascii "mail.zip", 10, 1700000000⟩
        (binkpParsfinfo ⟨0, 0, ascii "mail.zip 10 1700000000 3" ++ [0]⟩ true {}).1 :=
  ⟨by decide, (parsfinfo_recovers_iff false id 0 (ascii "mail.zip") 0
    ⟨ascii "mail.zip", 10, 1700000000⟩ (.atOffset 3) {} ⟨0, 0, ascii "mail.zip 10 1700000000 3" ++ [0]⟩
    [] (by decide) (by decide) (by decide) (by decide) (by decide) (by decide)).mpr
    ⟨⟨by decide, by decide +kernel⟩, by decide, by decide, by decide, by decide⟩⟩

/-- A name with a blank in it is not recovered, nor is a size of four gigabytes or the
offset -1, even into variables that were zero. -/
theorem parsfinfo_loses :
    (netName false id 0 (ascii "new mail.zip") 0 = some (ascii "new mail.zip") ∧
      ¬ FileArgument.fromStart.Recovers ⟨ascii "new mail.zip", 10, 1700000000⟩
        (binkpParsfinfo ⟨0, 0, ascii "new mail.zip 10 1700000000 0" ++ [0]⟩ true {}).1) ∧
    netName false id 0 (ascii "mail.zip") 0 = some (ascii "mail.zip") ∧
      ¬ FileArgument.answered.Recovers ⟨ascii "mail.zip", 2 ^ 32, 1700000000⟩
        (binkpParsfinfo ⟨0, 0, ascii "mail.zip 4294967296 1700000000" ++ [0]⟩ false {}).1 ∧
      ¬ FileArgument.toBeAsked.Recovers ⟨ascii "mail.zip", 10, 1700000000⟩
        (binkpParsfinfo ⟨0, 0, ascii "mail.zip 10 1700000000 -1" ++ [0]⟩ true {}).1 := by
  have blank : (binkpParsfinfo ⟨0, 0, ascii "new mail.zip 10 1700000000 0" ++ [0]⟩ true {}).1 =
      none := by decide
  have large : (binkpParsfinfo ⟨0, 0, ascii "mail.zip 4294967296 1700000000" ++ [0]⟩ false {}).1 =
      some ⟨ascii "mail.zip", 0, 1700000000, 0⟩ := by decide
  have asked : (binkpParsfinfo ⟨0, 0, ascii "mail.zip 10 1700000000 -1" ++ [0]⟩ true {}).1 =
      some ⟨ascii "mail.zip", 10, 1700000000, 2 ^ 32 - 1⟩ := by decide
  refine ⟨⟨by decide, ?_⟩, by decide, ?_, ?_⟩
  · rintro ⟨fi, found, -⟩
    exact absurd (blank.symm.trans found) (by simp)
  · rintro ⟨fi, found, -, sz, -⟩
    obtain rfl := Option.some.inj (large.symm.trans found)
    exact absurd sz (by decide)
  · rintro ⟨fi, found, -, -, -, offs⟩
    obtain rfl := Option.some.inj (asked.symm.trans found)
    exact absurd (offs rfl) (by decide)

end Binkleyforce
