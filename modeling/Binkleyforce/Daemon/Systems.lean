import Mathlib.Logic.Function.Basic
import Binkleyforce.Session.Status
import Binkleyforce.Transfer.Queue
import Binkleyforce.Util.FileNames
import Binkleyforce.Util.Flags
import Binkleyforce.Util.Times

/-!
# The systems of the daemon's queue

What the daemon knows of a system it has mail for, and how it decides whether to call it:
the marks of the entry, the calls that run, the holds of its status and one of its lines
with a phone or a host that works now.
-/

namespace Binkleyforce

/-- `nodelist_keyword`, as far as it keeps a system from being called. -/
inductive NodelistKeyword where
  | hold
  | down
  | other
  deriving DecidableEq, Repr

/-- `s_node`: the nodelist entry of a system. -/
structure Node where
  addr : Faddr
  keyword : NodelistKeyword := .other
  listed : Bool := false
  phone : Bytes := ascii "<none>"
  flags : Bytes := []
  host : Bytes := []
  worktime : List TimeInt := []
  deriving DecidableEq, Repr

/-- `s_override`: the texts are null or given. -/
structure Override where
  sIpaddr : Option Bytes := none
  sPhone : Option Bytes := none
  sFlags : Option Bytes := none
  worktime : List TimeInt := []
  deriving DecidableEq, Repr

/-- `string_casestr` finds the text. -/
def stringCasestr (string substr : Bytes) : Bool :=
  !string.isEmpty && (strstr (substr.map tolower) (string.map tolower)).isSome

/-- `modem_isgood_phone`. -/
def modemIsgoodPhone (str : Bytes) : Bool :=
  !str.isEmpty && str != ascii "-" && !stringCasestr str (ascii "unpublished") &&
    !stringCasestr str (ascii "unknown") && !stringCasestr str (ascii "none") &&
    !stringCasestr str (ascii "00-00-000000")

/-- `tcpip_isgood_host`. -/
def tcpipIsgoodHost (str : Bytes) : Bool := !str.isEmpty && str != ascii "-"

/-- `daemon_node_cancall_line` has a phone number to dial. -/
def goodPhone (node : Option Node) (ovrd : Option Override) : Bool :=
  match ovrd.bind (·.sPhone) with
  | some (char :: rest) => modemIsgoodPhone (char :: rest)
  | _ => node.any fun node => !node.phone.isEmpty && modemIsgoodPhone node.phone

/-- It has a host to connect to. -/
def goodHost (ovrd : Option Override) : Bool :=
  match ovrd.bind (·.sIpaddr) with
  | some (char :: rest) => tcpipIsgoodHost (char :: rest)
  | _ => false

/-- The line works now. -/
def goodTime (now : Tm) (node : Option Node) (ovrd : Option Override) : Bool :=
  if ovrd.any (timevecIsdefined ·.worktime) then ovrd.any (timevecIsnow ·.worktime now)
  else if (ovrd.bind (·.sFlags)).any (nodelistCheckflag (ascii "CM") · true) then true
  else node.any fun node => timevecIsdefined node.worktime && timevecIsnow node.worktime now

/-- `daemon_node_cancall_line`. The values 2 for a good host and 1 for a good phone become
the same in the `bool` it returns. -/
def daemonNodeCancallLine (now : Tm) (node : Option Node) (ovrd : Option Override) : Bool :=
  goodTime now node ovrd && (goodHost ovrd || goodPhone node ovrd)

/-- `s_sysentry`. The pointer to the current line is its place in the list of lines. -/
structure SysEntry where
  node : Node
  overrides : List Override := []
  lineptr : Option Nat := none
  line : Nat := 0
  stat : SessStat := {}
  tcpip : Bool := false
  busy : Bool := false
  lastcall : UInt64 := 0
  flavors : Nat := 0
  types : Nat := 0
  deriving DecidableEq, Repr

/-- Immediate mail, as a bit of the flavours. -/
def flavorImmed : Nat := 0x008

/-- Crash mail. -/
def flavorCrash : Nat := 0x010

/-- Direct mail. -/
def flavorDirect : Nat := 0x004

/-- Normal mail. -/
def flavorNormal : Nat := 0x002

/-- The four numbers of an address: `ftn_addrcomp` compares them, and they make the name of
the status file. -/
def Faddr.numbers (addr : Faddr) : Int × Int × Int × Int :=
  (addr.zone, addr.net, addr.node, addr.point)

/-- What `ftn_addrcomp` compares. -/
theorem ftnAddrcomp_iff (addr1 addr2 : Faddr) :
    ftnAddrcomp addr1 addr2 = true ↔ addr1.numbers = addr2.numbers := by
  simp only [ftnAddrcomp, Faddr.numbers, Bool.and_eq_true, beq_iff_eq, Prod.mk.injEq, and_assoc]

/-- The status files, by the numbers of an address. -/
abbrev StsFiles := Int × Int × Int × Int → Option Bytes

/-- What becomes of an access to a status file: it may fail to be written, and to be read. -/
structure StsAccess where
  written : Bool := true
  readable : Bool := true
  deriving DecidableEq, Repr

/-- `session_stat_get`. -/
def sessionStatGet (files : StsFiles) (readable : Bool) (addr : Faddr) : SessStat :=
  if readable then statOf (files addr.numbers) else {}

/-- `session_stat_apply_diff`. -/
def sessionStatApplyDiff (files : StsFiles) (written : Bool) (addr : Faddr) (stat : SessStat) :
    StsFiles :=
  if written then
    Function.update files addr.numbers (some (updatedStsfile stat (files addr.numbers)))
  else files

/-- `session_stat_reset_counters`. -/
def sessionStatResetCounters (stat : SessStat) : SessStat :=
  { stat with
    tries := triesReset
    triesNoansw := triesReset
    triesNoconn := triesReset
    triesNodial := triesReset
    triesHshake := triesReset
    triesSessns := triesReset }

/-- What `daemon_unhold_system` writes, to give up the hold of calls or the one of file
requests. -/
def unholdDiff (freqs : Bool) : SessStat :=
  let diff := sessionStatResetCounters {}
  if freqs then { diff with holdFreqs := holdReset } else { diff with holdUntil := holdReset }

/-- `daemon_unhold_system`. -/
def daemonUnholdSystem (access : StsAccess) (files : StsFiles) (syst : SysEntry) (freqs : Bool) :
    SysEntry × StsFiles :=
  let files := sessionStatApplyDiff files access.written syst.node.addr (unholdDiff freqs)
  ({ syst with stat := sessionStatGet files access.readable syst.node.addr }, files)

/-- What `daemon_node_cancall` finds outside: the configuration, the clock, and how its
accesses to the status file go. -/
structure Look where
  mailonly : Bool := false
  holdTime : UInt64 := 0
  unhold : StsAccess := {}
  freqTime : UInt64 := 0
  unholdFreqs : StsAccess := {}
  now : Nat → Tm := fun _ => ⟨0, 0, 0⟩

/-- The calls of the system are held: the hold is lifted where the time is past it. -/
def passHold (look : Look) (files : StsFiles) (syst : SysEntry) : Option (SysEntry × StsFiles) :=
  if 0 < syst.stat.holdUntil then
    if syst.stat.holdUntil < look.holdTime then
      some (daemonUnholdSystem look.unhold files syst false)
    else none
  else some (syst, files)

/-- The same for file requests, which alone are held. -/
def passFreqHold (look : Look) (files : StsFiles) (syst : SysEntry) :
    Bool × SysEntry × StsFiles :=
  if 0 < syst.stat.holdFreqs then
    if syst.stat.holdFreqs < look.freqTime then
      (true, daemonUnholdSystem look.unholdFreqs files syst true)
    else (!(syst.flavors == 0 && hasType syst.types typeRequest), syst, files)
  else (true, syst, files)

/-- The line can be called through the transport of the queue. -/
def lineAnswers (now : Tm) (node : Option Node) (ovrd : Option Override) (tcpip : Bool) : Bool :=
  let rc := (daemonNodeCancallLine now node ovrd).toNat
  rc != 0 && rc == if tcpip then 2 else 1

/-- The lines of the system in the order they are looked at: those after the current one,
and then from the first one to it. -/
def linesAfter (syst : SysEntry) : List Nat :=
  match syst.lineptr with
  | some line => (List.range syst.overrides.length).drop (line + 1)
  | none => []

/-- The lines up to the current one, or all where there is none or it is the last. -/
def linesBefore (syst : SysEntry) : List Nat :=
  match syst.lineptr with
  | some line => (List.range syst.overrides.length).take (line + 1)
  | none => List.range syst.overrides.length

/-- The first line that can be called. The nodelist counts for the first line alone, and
not where the search goes on from a current line. -/
def findLine (look : Look) (syst : SysEntry) (tcpip : Bool) : Option Nat :=
  ((linesAfter syst).find? fun line =>
    lineAnswers (look.now line) none syst.overrides[line]? tcpip).or
  ((linesBefore syst).find? fun line =>
    lineAnswers (look.now line) (if line = 0 then some syst.node else none) syst.overrides[line]?
      tcpip)

/-- The end of `daemon_node_cancall`: a line is chosen. -/
def chooseLine (look : Look) (syst : SysEntry) (tcpip : Bool) : Bool × SysEntry :=
  if syst.overrides.isEmpty then
    (daemonNodeCancallLine (look.now 0) (some syst.node) none, { syst with line := 0 })
  else
    match findLine look syst tcpip with
    | some line =>
      let ovrd := syst.overrides[line]?
      let rc := (daemonNodeCancallLine (look.now line)
        (if line = 0 then some syst.node else none) ovrd).toNat
      (true, { syst with line := line, lineptr := some line, tcpip := rc == 2 })
    | none => (false, if syst.lineptr = none then { syst with line := 0 } else syst)

/-- `daemon_node_cancall`, where `called` says that a call to the system runs. -/
def daemonNodeCancall (look : Look) (called : Bool) (files : StsFiles) (syst : SysEntry)
    (_ignWtime tcpip : Bool) : Bool × SysEntry × StsFiles :=
  if syst.busy then (false, syst, files)
  else if syst.stat.undialable then (false, syst, files)
  else if called then (false, syst, files)
  else if look.mailonly && !hasType syst.types typeNetmail then (false, syst, files)
  else
    match passHold look files syst with
    | none => (false, syst, files)
    | some (syst, files) =>
      let (goes, syst, files) := passFreqHold look files syst
      if goes then
        let (answer, syst) := chooseLine look syst tcpip
        (answer, syst, files)
      else (false, syst, files)

end Binkleyforce
