import Binkleyforce.Util.Text

/-!
# Flags of the nodelist

The flags of a system stand in one text, with commas between them and a value after some.
-/

namespace Binkleyforce

/-- Is the flag there with nothing, a value or another flag after it? -/
def flagEnds (flag found : Bytes) : Bool :=
  let after := found.drop flag.length
  !found.contains 44 || after.head? == some 44 || after.head? == some 58 || after.isEmpty

/-- `nodelist_checkflag(flags, flag) == 0`, over the rest of the flags; `start`
says that a search begins here or that a comma stands before. -/
def nodelistCheckflag (flag : Bytes) : Bytes → Bool → Bool
  | [], start => flag.isEmpty && start
  | char :: rest, start =>
    if flag <+: char :: rest then
      (start && flagEnds flag (char :: rest)) || nodelistCheckflag flag rest true
    else nodelistCheckflag flag rest (char == 44)

/-- `nodelist_flagvalue`, over the rest of the flags; `start` says that they begin here or that
a comma stands before. The answer is that it returned zero, and the buffer after it. An empty
flag that is not found before the terminator is searched for behind it. -/
def nodelistFlagvalue (flag res : Bytes) : Bytes → Bool → Option (Bool × Bytes)
  | [], start =>
    if flag.isEmpty && !start then none else some (flag.isEmpty, 0 :: res.drop 1)
  | char :: rest, start =>
    let after := (char :: rest).drop flag.length
    if flag <+: char :: rest && start && (after.isEmpty || after.head? == some 44) then
      some (true, 0 :: res.drop 1)
    else if flag <+: char :: rest && start && after.head? == some 58 then
      let value := after.tail.takeWhile (· ≠ 44)
      some (true, value ++ res.drop value.length)
    else nodelistFlagvalue flag res rest (char == 44)

end Binkleyforce
