import Binkleyforce.Daemon.Systems

/-!
# How a system is called

`call_system` finds out on its own how a system can be called: it starts from the ways the
options allow, leaves out those for which it knows no phone or host, at which the system
does not work now or that its flags do not name, and tries what is left one after another.
-/

namespace Binkleyforce

/-- The bits of `call_mayuse`, in the order the ways are tried. -/
inductive CallWay where
  | stdio
  | binkp
  | ifcico
  | telnet
  | modem
  deriving DecidableEq, Repr

/-- `CALL_TCPIP_ANY`. -/
def CallWay.isTcpip : CallWay → Bool
  | .binkp | .ifcico | .telnet => true
  | _ => false

/-- `opts->runmode`, as far as a system is called. -/
inductive RunMode where
  | callDefault
  | callModem
  | callIp
  | callStdio
  deriving DecidableEq, Repr

/-- `s_bforce_opts`: the texts are null or given. -/
structure BforceOpts where
  runmode : RunMode
  hiddline : Nat := 0
  ipproto : Option Bytes := none
  phone : Option Bytes := none
  iphost : Option Bytes := none
  force : Bool := false

/-- Why a way was left out, or the call given up. -/
inductive CallRefusal where
  | hiddline
  | protocol_
  | phone
  | worktime
  | host
  deriving DecidableEq, Repr

/-- What `call_system` finds outside: the time, the zone of the configuration, the lock of the
address, a port for the modem, and how the calls go. -/
structure ChildWorld where
  now : Tm
  fidodnszone : Option Bytes := none
  bsyLock : Bool := true
  port : Bool := true
  rc : CallWay → Int := fun _ => 0

/-- The ways that were tried, each with its phone or host, and what was left out. -/
structure CallReport where
  attempts : List (CallWay × Bytes) := []
  refusals : List CallRefusal := []
  deriving DecidableEq, Repr

/-- `override_get`, over the lines of the system. -/
def overrideGet (overrides : List Override) (line : Nat) : Option Override :=
  match overrides[line]? with
  | some p => some p
  | none => if line = 0 then some {} else none

/-- `call_mayuse` and `call_mustuse`. A null protocol is compared before it is looked at. -/
def BforceOpts.ways (opts : BforceOpts) : Option (List CallWay × List CallWay) :=
  match opts.runmode with
  | .callDefault => some ([.binkp, .ifcico, .telnet, .modem], [])
  | .callStdio => some ([.stdio], [.stdio])
  | .callModem => some ([.modem], [.modem])
  | .callIp =>
    match opts.ipproto with
    | none => none
    | some ipproto =>
      if strcasecmp ipproto (ascii "binkp") then some ([.binkp], [.binkp])
      else if strcasecmp ipproto (ascii "ifcico") then some ([.ifcico], [.ifcico])
      else if strcasecmp ipproto (ascii "telnet") then some ([.telnet], [.telnet])
      else none

/-- `BNI_MAXPHONE`, `BNI_MAXHOST` and `BNI_MAXFLAGS`. -/
def bniMaxphone : Nat := 48

/-- The room for a host. -/
def bniMaxhost : Nat := 200

/-- The room for the flags. -/
def bniMaxflags : Nat := 200

/-- The phone of the options, of the override, or of the nodelist. -/
def phoneToCall (opts : BforceOpts) (override : Override) (node : Node) : Node :=
  match opts.phone with
  | some (char :: rest) => { node with phone := strnxcpy (char :: rest) (bniMaxphone + 1) }
  | _ =>
    match override.sPhone with
    | some phone => { node with phone := strnxcpy phone (bniMaxphone + 1) }
    | none => node

/-- The system works now. -/
def worksNow (now : Tm) (opts : BforceOpts) (override : Override) (node : Node) : Bool :=
  if timevecIsdefined override.worktime then timevecIsnow override.worktime now
  else
    match override.sFlags with
    | some flags => nodelistCheckflag (ascii "CM") flags true
    | none =>
      opts.hiddline = 0 &&
        (nodelistCheckflag (ascii "CM") node.flags true || timevecIsnow node.worktime now)

/-- Why the modem is left out. -/
def modemRefusal (now : Tm) (opts : BforceOpts) (override : Override) (node : Node) :
    Option CallRefusal :=
  if !modemIsgoodPhone node.phone then some .phone
  else if !opts.force && !worksNow now opts override node then some .worktime
  else none

/-- The flags of the override are added to those of the nodelist. -/
def withFlags (override : Override) (node : Node) : Node :=
  match override.sFlags with
  | some flags =>
    { node with
      flags := strnxcat (strnxcat node.flags (ascii ",") (bniMaxflags + 1)) flags (bniMaxflags + 1) }
  | none => node

/-- The flags name the way. -/
def CallWay.named (way : CallWay) (flags : Bytes) : Bool :=
  match way with
  | .binkp => nodelistCheckflag (ascii "BINKP") flags true || nodelistCheckflag (ascii "IBN") flags true
  | .ifcico => nodelistCheckflag (ascii "IFC") flags true
  | .telnet => nodelistCheckflag (ascii "TELN") flags true || nodelistCheckflag (ascii "TLN") flags true
  | _ => true

/-- The host of the options, of the override, or of the nodelist. -/
def hostToCall (opts : BforceOpts) (override : Override) (node : Node) : Node :=
  match opts.iphost with
  | some (char :: rest) => { node with host := strnxcpy (char :: rest) (bniMaxhost + 1) }
  | _ =>
    match override.sIpaddr with
    | some host => { node with host := strnxcpy host (bniMaxhost + 1) }
    | none => node

/-- The name of a system in the zone, as `snprintf` leaves it. -/
def zoneHost (addr : Faddr) (zone : Bytes) : Bytes :=
  let point := if addr.point ≠ 0 then ascii "p" ++ printInt addr.point ++ ascii "." else []
  (point ++ ascii "f" ++ printInt addr.node ++ ascii ".n" ++ printInt addr.net ++ ascii ".z" ++
    printInt addr.zone ++ ascii "." ++ zone).take (bniMaxhost - 1)

/-- The zone stands in for a host that is not known, where TCP/IP is used. -/
def zoneToCall (zone : Option Bytes) (addr : Faddr) (mayuse : List CallWay) (node : Node) : Node :=
  match zone with
  | some zone =>
    if mayuse.any CallWay.isTcpip && !tcpipIsgoodHost node.host then
      { node with host := zoneHost addr zone }
    else node
  | none => node

/-- The phone or the host that a way calls. -/
def CallWay.address (way : CallWay) (node : Node) : Bytes :=
  match way with
  | .stdio => []
  | .modem => node.phone
  | _ => node.host

/-- The ways are tried until one goes. The modem needs a port. -/
def tryWays (world : ChildWorld) (node : Node) : List CallWay → List (CallWay × Bytes)
  | [] => []
  | way :: rest =>
    if way = .modem && !world.port then tryWays world node rest
    else (way, way.address node) :: if world.rc way = 0 then [] else tryWays world node rest

/-- `call_system`, from the entry of the nodelist and the lines of the configuration. -/
def callSystem (world : ChildWorld) (opts : BforceOpts) (addr : Faddr) (node : Node)
    (overrides : List Override) : CallReport :=
  match overrideGet overrides opts.hiddline, opts.ways with
  | none, _ => { refusals := [.hiddline] }
  | _, none => { refusals := [.protocol_] }
  | some override, some (mayuse, mustuse) =>
    let node := if .modem ∈ mayuse then phoneToCall opts override node else node
    let why := if .modem ∈ mayuse then modemRefusal world.now opts override node else none
    if why.isSome && .modem ∈ mustuse then { refusals := why.toList }
    else
      let mayuse := if why.isSome then mayuse.filter (· ≠ .modem) else mayuse
      let node := withFlags override node
      let mayuse := mayuse.filter fun way => way ∈ mustuse || way.named node.flags
      let node := zoneToCall world.fidodnszone addr mayuse (hostToCall opts override node)
      let noHost := mayuse.any CallWay.isTcpip && !tcpipIsgoodHost node.host
      if noHost && mustuse.any CallWay.isTcpip then { refusals := why.toList ++ [.host] }
      else
        let mayuse := if noHost then mayuse.filter (!·.isTcpip) else mayuse
        { attempts := if world.bsyLock then tryWays world node mayuse else []
          refusals := why.toList ++ if noHost then [.host] else [] }

/-- `daemon_call_branch`: the options are the same for all lines, and `iphost` is what the
stack has there. -/
def daemonCallBranch (world : ChildWorld) (iphost : Option Bytes) (syst : SysEntry) : CallReport :=
  callSystem world { runmode := .callDefault, iphost := iphost } syst.node.addr syst.node
    syst.overrides

end Binkleyforce
