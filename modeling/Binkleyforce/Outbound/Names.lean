import Binkleyforce.Util.Address

/-!
# Outbound names

Where the files of a node lie: an outbound name is a path without its suffix.
There are up to three for an address, in the main outbound or the one of the
node's zone, in the outbound of the zone's domain, and in the Amiga outbound.
-/

namespace Binkleyforce

/-- The configuration the names are made from: `outbound_directory`, the first
`address`, the `domain` lines and `amiga_outbound_directory`. -/
structure OutboundConf where
  outboundDirectory : Option Bytes
  address : Option Faddr
  domains : List (Int × Bytes)
  amigaOutboundDirectory : Option Bytes

/-- `sprintf("%0*x")` of a 32-bit `int`. -/
def hexPadded (width : Nat) (value : Int) : Bytes :=
  let digits := ascii (String.ofList (Nat.toDigits 16 (value % 2 ^ 32).toNat))
  List.replicate (width - digits.length) 48 ++ digits

/-- `sprintf("%d")`. -/
def decimal (value : Int) : Bytes := ascii (toString value)

/-- `out_get_root`: the directory of the outbounds and the main outbound's name
in it. A separator at the end of the path is dropped first. -/
def outGetRoot (path : Bytes) : Option (Bytes × Bytes) :=
  let outb := if path.getLast? = some 47 then path.dropLast else path
  let main := (outb.reverse.takeWhile (· ≠ 47)).reverse
  if 47 ∈ outb then some (outb.take (outb.length - main.length), main) else none

/-- The name of a node in the directory of its outbound, with the directory of
its points where it is one. -/
def nodeName (addr : Faddr) : Bytes :=
  let node := hexPadded 4 addr.net ++ hexPadded 4 addr.node
  if addr.point = 0 then node else node ++ ascii ".pnt/" ++ hexPadded 8 addr.point

/-- `out_getname_4d`. -/
def outGetname4d (conf : OutboundConf) (addr : Faddr) : Option Bytes :=
  match conf.outboundDirectory, conf.address with
  | some outbound, some mainaddr =>
    if outbound = [] then none
    else
      match outGetRoot outbound with
      | none => none
      | some (root, main) =>
        if root = [] ∨ main = [] then none
        else if addr.zone = mainaddr.zone then some (outbound ++ nodeName addr)
        else some (root ++ main ++ ascii "." ++ hexPadded 3 addr.zone ++ ascii "/" ++ nodeName addr)
  | _, _ => none

/-- `out_getname_domain`. -/
def outGetnameDomain (conf : OutboundConf) (addr : Faddr) : Option Bytes :=
  (conf.domains.find? (·.1 = addr.zone)).map fun domain => domain.2 ++ nodeName addr

/-- `out_getname_amiga`. -/
def outGetnameAmiga (conf : OutboundConf) (addr : Faddr) : Option Bytes :=
  match conf.amigaOutboundDirectory with
  | none | some [] => none
  | some outbound =>
    some (outbound ++ decimal addr.zone ++ ascii "." ++ decimal addr.net ++ ascii "." ++
      decimal addr.node ++ ascii "." ++ decimal addr.point)

/-- The names of an address in the order the lock routines take them. -/
def outNames (conf : OutboundConf) (addr : Faddr) : List Bytes :=
  [outGetname4d conf addr, outGetnameDomain conf addr, outGetnameAmiga conf addr].reduceOption

example : outGetname4d
    { outboundDirectory := some (ascii "/var/spool/outb/")
      address := some { zone := 2, net := 5020, node := 1398 }
      domains := []
      amigaOutboundDirectory := none }
    { zone := 1, net := 5020, node := 1398, point := 11 } =
      some (ascii "/var/spool/outb.001/139c0576.pnt/0000000b") := by decide

end Binkleyforce
