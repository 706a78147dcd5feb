import Mathlib.Data.List.Basic
import Mathlib.Tactic.NormNum
import Binkleyforce.Util.Address
import Binkleyforce.Util.Crc

/-!
# File names

The names remotes give to files, and what is made of them before the disk sees them:
the last component, in the local character set, without the characters that are not
safe. Further the 8+3 names, and the numbers and addresses that are printed into names.
-/

namespace Binkleyforce

/-- `file_getname`: what follows the last separator. -/
def fileGetname (filename : Bytes) : Bytes := (filename.reverse.takeWhile (· ≠ 47)).reverse

/-- `recode`: every byte of the string is looked up in the table. A byte may become the
terminator. -/
def recode (table : UInt8 → UInt8) (str : Bytes) : Bytes := cstring (str.map table)

/-- `file_name_issafe`. -/
def fileNameIssafe (ch : UInt8) : Bool :=
  (ascii "!\"#$&+,-.@_^~").contains ch || (47 < ch && ch < 58) || (64 < ch && ch < 91) ||
    (96 < ch && ch < 123) || 127 < ch

/-- `file_name_makesafe`. -/
def fileNameMakesafe (filename : Bytes) : Bytes :=
  filename.map fun ch => if fileNameIssafe ch then ch else 95

/-- `string_isupper`: there is no lower case letter. -/
def stringIsupper (str : Bytes) : Bool := str.all fun ch => !(97 ≤ ch && ch ≤ 122)

/-- `fnctab`: endings that have a shorter form. -/
def fnctab : List (Bytes × Bytes) :=
  [(ascii ".tar.gz", ascii ".tgz"), (ascii ".tar.bz2", ascii ".tbz"),
    (ascii ".html", ascii ".htm"), (ascii ".desc", ascii ".dsc")]

/-- `strstr`: what stands before and after the first occurrence. -/
def strstr (find : Bytes) : Bytes → Option (Bytes × Bytes)
  | [] => if find.isEmpty then some ([], []) else none
  | char :: rest =>
    if find <+: char :: rest then some ([], (char :: rest).drop find.length)
    else (strstr find rest).map fun parts => (char :: parts.1, parts.2)

/-- Replace the first ending of the table that occurs. -/
def shortenEnding (filename : Bytes) : List (Bytes × Bytes) → Bytes
  | [] => filename
  | (find, repl) :: rest =>
    match strstr find filename with
    | none => shortenEnding filename rest
    | some (before, after) => before ++ repl ++ after

/-- The loop of `file_get_dos_name`, from the end of the name: unwanted characters
become underscores, and so does each point but one before an extension of one to
three characters, whose length is returned. -/
def plainName : Bytes → Bytes × Nat
  | [] => ([], 0)
  | char :: rest =>
    let (after, extension) := plainName rest
    if char ≤ 32 || char = 42 || char = 63 then (95 :: after, extension)
    else if char = 46 then
      if after.length ≤ 3 && 0 < after.length && extension = 0 then (46 :: after, after.length)
      else (95 :: after, extension)
    else (char :: after, extension)

/-- `file_get_dos_name`. -/
def fileGetDosName (filename : Bytes) : Bytes :=
  let (copy, extension) := plainName (shortenEnding filename fnctab)
  if (0 < extension && copy.length ≤ 9 + extension) || (extension = 0 && copy.length ≤ 8) then
    copy.map tolower
  else if 0 < extension then
    (copy.take 5 ++ [126] ++ copy.drop (copy.length - 3 - extension)).map tolower
  else (copy.take 5 ++ [126] ++ copy.drop (copy.length - 2)).map tolower

/-- `%lx`: the hexadecimal digits of a number. -/
def printLongHex (value : Nat) : Bytes :=
  (Nat.toDigits 16 value).map fun digit => UInt8.ofNat digit.toNat

/-- The bits of a `long`. -/
def longBits (value : Int) : Nat := (value % 2 ^ 64).toNat

/-- `getcrc32ccitt`. -/
def getcrc32ccitt (buffer : Bytes) : UInt64 :=
  buffer.foldl (fun crc char => updcrc32 char crc) 0xffffffff

/-- `addrint2str`. -/
def addrint2str (val : Int) : Bytes :=
  if val = -1 then ascii "*"
  else if val < 0 then ascii "MIN"
  else if 0x7fff < val then ascii "MAX"
  else ascii (toString val)

/-- The domain that ends an address, cut to the length of one (`BF_MAXADDRSTR`). -/
def addrDomain (separator : String) (text domain : Bytes) : Bytes :=
  if domain.isEmpty then text else strnxcat (strnxcat text (ascii separator) 80) domain 80

/-- `ftn_addrstr_fido`. -/
def ftnAddrstrFido (addr : Faddr) : Bytes :=
  let node := addrint2str addr.zone ++ ascii ":" ++ addrint2str addr.net ++ ascii "/" ++
    addrint2str addr.node
  addrDomain "@" (if addr.point ≠ 0 then node ++ ascii "." ++ addrint2str addr.point else node)
    addr.domain

/-- `ftn_addrstr_inet`. -/
def ftnAddrstrInet (addr : Faddr) : Bytes :=
  let node := ascii "f" ++ addrint2str addr.node ++ ascii ".n" ++ addrint2str addr.net ++
    ascii ".z" ++ addrint2str addr.zone
  addrDomain "." (if addr.point ≠ 0 then ascii "p" ++ addrint2str addr.point ++ ascii "." ++ node
    else node) addr.domain

/-- `ftn_addrstr`. -/
def ftnAddrstr (addr : Faddr) : Bytes :=
  if addr.inetform then ftnAddrstrInet addr else ftnAddrstrFido addr

/-- No separator is left in a name made safe. -/
theorem makesafe_no_separator (filename : Bytes) : 47 ∉ fileNameMakesafe filename := by
  intro present
  unfold fileNameMakesafe at present
  obtain ⟨ch, -, made⟩ := List.mem_map.mp present
  split at made
  · rename_i safe
    subst made
    exact absurd safe (by decide)
  · exact absurd made (by decide)

/-- Lower case letters are no separators. -/
theorem tolower_no_separator (str : Bytes) (none : 47 ∉ str) : 47 ∉ str.map tolower := by
  intro present
  obtain ⟨ch, member, made⟩ := List.mem_map.mp present
  unfold tolower at made
  split at made
  · rename_i upper
    simp only [Bool.and_eq_true, decide_eq_true_eq, UInt8.le_iff_toNat_le] at upper
    have sum := congrArg UInt8.toNat made
    simp only [UInt8.toNat_add, UInt8.toNat_ofNat] at sum upper
    omega
  · exact none (made ▸ member)

/-- The digits of a number are digits and letters. -/
theorem toDigits_graphic (base value : Nat) (low : 1 < base) (high : base ≤ 16) :
    ∀ byte ∈ (Nat.toDigits base value).map (fun digit => UInt8.ofNat digit.toNat),
      48 ≤ byte.toNat := by
  have graphic : ∀ digit, digit < 16 → 48 ≤ (UInt8.ofNat (Nat.digitChar digit).toNat).toNat := by
    decide
  induction value using Nat.strongRecOn with
  | _ value inductionHypothesis =>
    rw [Nat.toDigits_eq_if low]
    split
    · rename_i single
      simpa using graphic value (by omega)
    · intro byte member
      rw [List.map_append, List.mem_append] at member
      rcases member with front | last
      · exact inductionHypothesis (value / base) (Nat.div_lt_self (by omega) low) byte front
      · have digit : value % base < 16 := by
          have := Nat.mod_lt value (show 0 < base by omega)
          omega
        rw [List.map_singleton, List.mem_singleton] at last
        exact last ▸ graphic _ digit

/-- A printed number is not empty. -/
theorem printLongHex_ne_nil (value : Nat) : printLongHex value ≠ [] := by
  unfold printLongHex
  rw [ne_eq, List.map_eq_nil_iff]
  exact Nat.toDigits_ne_nil

end Binkleyforce
