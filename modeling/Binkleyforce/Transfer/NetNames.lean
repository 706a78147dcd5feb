import Mathlib.Data.List.TakeWhile
import Binkleyforce.Transfer.Queue
import Binkleyforce.Util.FileNames
import Binkleyforce.Util.Scan

/-!
# The names files are sent under

`p_convfilename` gives each file the name the remote is told: netmail gets a new
packet name, arcmail and requests of an AmigaDOS style outbound get names made from
their addresses, and every other file goes under its own name, or under an 8+3 one
for a remote without long names. The name is then recoded.
-/

namespace Binkleyforce

/-- A file of an AmigaDOS style outbound, as a bit of a file's type. -/
def typeAsoname : Nat := 0x200

/-- `out_parse_name_aso`: the net and node of the address. -/
def outParseNameAso (filename : Bytes) : Option (Int × Int) := do
  let (_, rest) ← scanInt filename
  let rest ← if rest.head? = some 46 then some rest.tail else none
  let (net, rest) ← scanInt rest
  let rest ← if rest.head? = some 46 then some rest.tail else none
  let (node, rest) ← scanInt rest
  let rest ← if rest.head? = some 46 then some rest.tail else none
  let _ ← scanInt rest
  some (net, node)

/-- `%04x` of an `int`. -/
def printWordHex (value : Int) : Bytes :=
  let digits := printLongHex (value % 2 ^ 32).toNat
  List.replicate (4 - digits.length) 48 ++ digits

/-- `strrchr(name, '.')`: the characters before the last dot, and the rest of the
name from it on. -/
def lastDot (name : Bytes) : Option (Nat × Bytes) :=
  let extension := name.reverse.takeWhile (· ≠ 46)
  if extension.length = name.length then none
  else some (name.length - extension.length - 1, 46 :: extension.reverse)

/-- `p_convfilename`, with what `rand` gives; `fnc` is the remote's option for 8+3
names. `none` is an access outside of memory: the name of an arcmail file starts with
its last dot, or what follows the dot does not fit the 32 bytes of the new name. -/
def pConvfilename (fnc : Bool) (rand : Nat) (origname : Bytes) (type : Nat) : Option Bytes :=
  if hasType type typeNetmail then some (printHex rand ++ ascii ".pkt")
  else if hasType type typeAsoname && hasType type typeArcmail then
    match lastDot origname with
    | some (0, _) => none
    | some (stem, p) =>
      let dest := printHex (getcrc32ccitt (origname.take (stem - 1))).toNat ++ p
      if dest.length + 1 ≤ 32 then some dest else none
    | none => some (printHex (getcrc32ccitt origname).toNat ++ ascii ".fr0")
  else if hasType type typeAsoname && hasType type typeRequest then
    match outParseNameAso origname with
    | some (net, node) => some (printWordHex net ++ printWordHex node ++ ascii ".req")
    | none => some (printHex rand ++ ascii ".req")
  else if fnc then some (fileGetDosName origname)
  else some (if stringIsupper origname then origname.map tolower else origname)

/-- The name `p_tx_fopen` sends a file under: what `p_convfilename` makes of its own
name, recoded with the table of `recode_file_out`. -/
def netName (fnc : Bool) (table : UInt8 → UInt8) (rand : Nat) (origname : Bytes) (type : Nat) :
    Option Bytes :=
  (pConvfilename fnc rand origname type).map (recode table)

/-- A name is a C string. -/
theorem netName_terminated (fnc : Bool) (table : UInt8 → UInt8) (rand : Nat) (origname : Bytes)
    (type : Nat) (fn : Bytes) (produced : netName fnc table rand origname type = some fn) :
    0 ∉ fn := by
  obtain ⟨name, -, recoded⟩ := Option.map_eq_some_iff.mp produced
  intro present
  rw [← recoded] at present
  have nonzero := List.mem_takeWhile_imp present
  exact absurd rfl (of_decide_eq_true nonzero)

end Binkleyforce
