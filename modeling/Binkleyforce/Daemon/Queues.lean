import Binkleyforce.Daemon.Systems

/-!
# The queues of the daemon

Two queues, of modem calls and of TCP/IP calls, go through one table of systems. Each has
a current system, a place in the table, which it has marked busy. The outbound is scanned
from time to time, the calls run as children of the daemon, and what a child returned is
reaped later.
-/

namespace Binkleyforce

/-- The two queues. -/
inductive Transport where
  | modem
  | tcpip
  deriving DecidableEq, Repr

/-- The field `tcpip` of a queue. -/
def Transport.isTcpip (which : Transport) : Bool := which = .tcpip

/-- `s_daemon_queue`: without a current system it has -1. -/
structure DaemonQueue where
  current : Option Nat := none
  circle : Int := 0
  deriving DecidableEq, Repr

/-- `s_daemon_branch`: a call that runs, or that has ended and waits. -/
structure Branch where
  addr : Faddr
  tcpip : Bool
  wait : Bool := false
  pid : Int
  rc : Int := 0
  deriving DecidableEq, Repr

/-- The variables of the daemon, and the status files. -/
structure Daemon where
  systab : List SysEntry := []
  holduntil : UInt64 := 0
  queues : Transport → DaemonQueue := fun _ => {}
  branches : List Branch := []
  clients : Transport → Int := fun _ => 0
  maxClients : Transport → Int
  files : StsFiles

/-- `daemon_branch_exist`. -/
def daemonBranchExist (branches : List Branch) (addr : Faddr) : Bool :=
  branches.any fun branch => ftnAddrcomp branch.addr addr

/-- `daemon_branch_exit`, where the child is found. -/
def daemonBranchExit (pid rc : Int) : List Branch → Option (List Branch)
  | [] => none
  | branch :: rest =>
    if branch.pid = pid then some ({ branch with wait := true, rc := rc } :: rest)
    else (daemonBranchExit pid rc rest).map (branch :: ·)

/-- `daemon_branch_add`. -/
def daemonBranchAdd (branches : List Branch) (addr : Faddr) (pid : Int) (tcpip : Bool) :
    List Branch :=
  branches ++ [{ addr := addr, tcpip := tcpip, pid := pid }]

/-- `daemon_branch_get_first_waiting`. -/
def daemonBranchGetFirstWaiting (branches : List Branch) : Option Nat :=
  branches.findIdx? (·.wait)

/-- `daemon_branch_remove`. -/
def daemonBranchRemove (branches : List Branch) (pos : Nat) : List Branch := branches.eraseIdx pos

/-- What `daemon_call` finds outside: whether the address is locked, whether a port is
free, and what `fork` returns to the parent. -/
structure CallWorld where
  bsy : Bool := false
  port : Bool := true
  fork : Option Int := none
  deriving DecidableEq, Repr

/-- What a step of a queue finds outside. `looks` is what the decision about the system at
a place finds, and `circle` the time configured for its flavours. -/
structure StepWorld where
  time : UInt64 := 0
  call : CallWorld := {}
  looks : Nat → Look := fun _ => {}
  circle : Nat → Int := fun _ => 0

namespace Daemon

/-- Change an entry of the table. -/
def put (d : Daemon) (pos : Nat) (entry : SysEntry) : Daemon :=
  { d with systab := d.systab.set pos entry }

/-- Set the mark of the entry at a place. -/
def mark (d : Daemon) (pos : Nat) (busy : Bool) : Daemon :=
  { d with systab := d.systab.modify pos fun entry => { entry with busy := busy } }

/-- Decide about the system at a place. -/
def cancall (d : Daemon) (looks : Nat → Look) (ignWtime tcpip : Bool) (pos : Nat)
    (syst : SysEntry) : Bool × Daemon :=
  let (answer, syst, files) := daemonNodeCancall (looks pos)
    (daemonBranchExist d.branches syst.node.addr) d.files syst ignWtime tcpip
  let d := d.put pos syst
  (answer, { d with files := files })

/-- The two loops of `daemon_getnext` over the places that are left, with the first system
of normal mail so far. -/
def getnextLoop (looks : Nat → Look) (tcpip : Bool) :
    List Nat → Option Nat → Daemon → Option Nat × Daemon
  | [], normal, d => (normal, d)
  | pos :: rest, normal, d =>
    match d.systab[pos]? with
    | none => getnextLoop looks tcpip rest normal d
    | some syst =>
      if hasType syst.flavors flavorImmed || hasType syst.flavors flavorCrash then
        let (answer, d) := d.cancall looks (hasType syst.flavors flavorImmed) tcpip pos syst
        if answer then (some pos, d) else getnextLoop looks tcpip rest normal d
      else if (hasType syst.flavors flavorDirect || hasType syst.flavors flavorNormal) &&
          normal = none then
        let (answer, d) := d.cancall looks false tcpip pos syst
        getnextLoop looks tcpip rest (if answer then some pos else none) d
      else getnextLoop looks tcpip rest normal d

/-- `daemon_getnext`: the systems after the current one, and then those up to it. -/
def daemonGetnext (looks : Nat → Look) (tcpip : Bool) (current : Option Nat) (d : Daemon) :
    Option Nat × Daemon :=
  let places := List.range d.systab.length
  let current := current.getD 0
  d.getnextLoop looks tcpip (places.drop (current + 1) ++ places.take (current + 1)) none

/-- `daemon_getnext2`. -/
def daemonGetnext2 (looks : Nat → Look) (tcpip : Bool) (current : Option Nat) (d : Daemon) :
    Option Nat × Daemon :=
  let d := match current with
    | some pos => d.mark pos false
    | none => d
  let (next, d) := d.daemonGetnext looks tcpip current
  match next with
  | some pos => (some pos, d.mark pos true)
  | none => (none, d)

/-- `daemon_call`: the answer is that it returned zero. -/
def daemonCall (world : CallWorld) (syst : SysEntry) (d : Daemon) : Bool × Daemon :=
  let transport : Transport := if syst.tcpip then .tcpip else .modem
  if d.maxClients transport ≠ 0 && d.maxClients transport ≤ d.clients transport then (false, d)
  else if world.bsy then (true, d)
  else if !syst.tcpip && !world.port then (false, d)
  else
    match world.fork with
    | some pid =>
      (true, { d with
        branches := daemonBranchAdd d.branches syst.node.addr pid syst.tcpip
        clients := Function.update d.clients transport (d.clients transport + 1) })
    | none => (false, d)

/-- The first half of `daemon_queue_do`: the current system is called when its time has
come. The answer is that another one is to be chosen. -/
def callCurrent (world : StepWorld) (which : Transport) (d : Daemon) : Bool × Daemon :=
  match (d.queues which).current with
  | none => (true, d)
  | some pos =>
    match d.systab[pos]? with
    | none => (false, d)
    | some syst =>
      if syst.lastcall = 0 ||
          decide ((syst.lastcall.toNat : Int) + (d.queues which).circle < world.time.toNat) then
        if daemonBranchExist d.branches syst.node.addr then (true, d)
        else d.daemonCall world.call syst
      else (false, d)

/-- The second half of `daemon_queue_do`. -/
def selectNext (world : StepWorld) (which : Transport) (d : Daemon) : Daemon :=
  let queue := d.queues which
  let (next, d) := d.daemonGetnext2 world.looks which.isTcpip queue.current
  let queue := match next with
    | some pos => { current := some pos, circle := world.circle pos }
    | none => { queue with current := none }
  { d with queues := Function.update d.queues which queue }

/-- `daemon_queue_do`. -/
def daemonQueueDo (world : StepWorld) (which : Transport) (d : Daemon) : Daemon :=
  let (next, d) := d.callCurrent world which
  if next then d.selectNext world which else d

/-- `daemon_queues_update_current` of a place that was removed. -/
def updateCurrent (pos : Nat) (queue : DaemonQueue) : DaemonQueue :=
  match queue.current with
  | none => queue
  | some current =>
    if current = pos then { queue with current := none }
    else if pos < current then { queue with current := some (current - 1) }
    else queue

/-- `out_remove_from_sysqueue` with `daemon_queues_update_current` after it. -/
def removeSystem (pos : Nat) (d : Daemon) : Daemon :=
  { d with systab := d.systab.eraseIdx pos, queues := fun which => updateCurrent pos (d.queues which) }

/-- The loops that remove systems. The place goes on also where a system was removed and
the next one has moved to its place. -/
def removeLoop (goes : SysEntry → Bool) : Nat → Nat → Daemon → Daemon
  | 0, _, d => d
  | left + 1, pos, d =>
    match d.systab[pos]? with
    | none => d
    | some syst => removeLoop goes left (pos + 1) (if goes syst then d.removeSystem pos else d)

/-- Remove the systems from the table that a test picks. -/
def removeSystems (goes : SysEntry → Bool) (d : Daemon) : Daemon :=
  d.removeLoop goes d.systab.length 0

end Daemon

/-- A file of the outbound, as `out_handle_sysqueue` takes it: the type and the flavour of
its name. -/
structure Scanned where
  addr : Faddr
  type : Nat
  flavor : Nat
  deriving DecidableEq, Repr

/-- What a new entry is filled from: the nodelist, the overrides and the access to its
status file. -/
structure EntryWorld where
  nodelist : Faddr → Option Node := fun _ => none
  override : Faddr → List Override := fun _ => []
  readable : Faddr → Bool := fun _ => true

/-- `nodelist_lookup`. -/
def nodelistLookup (nodelist : Faddr → Option Node) (addr : Faddr) : Node :=
  match nodelist addr with
  | some node => { node with addr := addr, listed := true }
  | none => { addr := addr }

/-- A new entry after `daemon_sysentry_init`. -/
def daemonSysentryInit (world : EntryWorld) (files : StsFiles) (addr : Faddr) : SysEntry :=
  let node := nodelistLookup world.nodelist addr
  let stat := sessionStatGet files (world.readable addr) addr
  { node := node
    overrides := world.override addr
    stat := if node.keyword = .other then stat else { stat with undialable := true } }

/-- The flow files, as a type. -/
def typeFlofile : Nat := 0x100

/-- A file of a file box, as a type. -/
def typeFilebox : Nat := 0x010

/-- What `out_handle_sysqueue` adds to an entry. -/
def Scanned.addTo (file : Scanned) (entry : SysEntry) : SysEntry :=
  if file.type = typeNetmail || file.type = typeRequest || file.type = typeFilebox then
    { entry with flavors := entry.flavors ||| file.flavor, types := entry.types ||| file.type }
  else if file.type = typeFlofile then { entry with flavors := entry.flavors ||| file.flavor }
  else entry

/-- A configured number of tries, and what is done once it is reached. -/
inductive TriesAction where
  | undialable
  | holdsystem
  | holdall
  deriving DecidableEq, Repr

/-- `s_tries`. -/
structure Tries where
  tries : Int
  action : TriesAction
  arg : Int
  deriving DecidableEq, Repr

/-- The configured tries, in the order they are looked at: all tries, those without an
answer, without a connect, without a dial tone, with a failed handshake, and with a failed
session. -/
structure TriesConf where
  maxtries : Option Tries := none
  noansw : Option Tries := none
  noconn : Option Tries := none
  nodial : Option Tries := none
  hshake : Option Tries := none
  sessns : Option Tries := none
  deriving DecidableEq, Repr

/-- What reaping a call finds outside. -/
structure ReapWorld where
  finish : UInt64 := 0
  conf : TriesConf := {}
  readable : Bool := true
  actTime : UInt64 := 0
  act : StsAccess := {}
  deriving DecidableEq, Repr

/-- A counter of tries as the `int` it is. -/
def triesInt (tries : UInt32) : Int := Int.bmod tries.toNat (2 ^ 32)

/-- The first tries of the configuration that are reached. -/
def TriesConf.reached (conf : TriesConf) (stat : SessStat) : Option Tries :=
  [(conf.maxtries, stat.tries), (conf.noansw, stat.triesNoansw), (conf.noconn, stat.triesNoconn),
    (conf.nodial, stat.triesNodial), (conf.hshake, stat.triesHshake),
    (conf.sessns, stat.triesSessns)].findSome? fun (tries, count) =>
      tries.filter fun tries => decide (tries.tries ≤ triesInt count)

namespace Daemon

/-- `out_getsysentry` and what is added to the entry. -/
def outHandleSysqueue (world : EntryWorld) (d : Daemon) (file : Scanned) : Daemon :=
  if d.systab.any fun entry => ftnAddrcomp entry.node.addr file.addr then
    let pos := d.systab.findIdx fun entry => ftnAddrcomp entry.node.addr file.addr
    { d with systab := d.systab.modify pos file.addTo }
  else
    let entry := file.addTo (daemonSysentryInit world d.files file.addr)
    { d with systab := d.systab ++ [entry] }

/-- `daemon_rescan_sysqueue`. A scan that fails may have found some files before. -/
def daemonRescanSysqueue (world : EntryWorld) (found : List Scanned) (failed : Bool) (d : Daemon) :
    Daemon :=
  let systab := d.systab.map fun entry => { entry with flavors := 0, types := 0 }
  let reset := { d with systab := systab }
  let scanned := found.foldl (outHandleSysqueue world) reset
  if failed then scanned
  else scanned.removeSystems fun entry => entry.types = 0 && entry.flavors = 0

/-- What `daemon_do_tries_action` writes. -/
def triesDiff (act : Tries) (time : UInt64) : SessStat :=
  match act.action with
  | .undialable => { undialable := true }
  | .holdsystem => { holdUntil := time + UInt64.ofInt act.arg }
  | .holdall => {}

/-- `daemon_do_tries_action`. -/
def daemonDoTriesAction (world : ReapWorld) (pos : Nat) (syst : SysEntry) (act : Tries)
    (d : Daemon) : Daemon :=
  let addr := syst.node.addr
  let files := sessionStatApplyDiff d.files world.act.written addr (triesDiff act world.actTime)
  let d := d.put pos { syst with stat := sessionStatGet files world.act.readable addr }
  let holduntil :=
    if act.action = .holdall then world.actTime + UInt64.ofInt act.arg else d.holduntil
  { d with holduntil := holduntil, files := files }

/-- `daemon_process_rc`. -/
def daemonProcessRc (world : ReapWorld) (addr : Faddr) (d : Daemon) : Daemon :=
  let pos := d.systab.findIdx fun entry => ftnAddrcomp entry.node.addr addr
  match d.systab[pos]? with
  | none => d
  | some syst =>
    let syst := { syst with
      lastcall := world.finish
      stat := sessionStatGet d.files world.readable addr }
    match world.conf.reached syst.stat with
    | some act => (d.put pos syst).daemonDoTriesAction world pos syst act
    | none => d.put pos syst

/-- A turn of the loop of `daemon_remove_waiting_branches`. -/
def reapBranch (world : ReapWorld) (d : Daemon) : Daemon :=
  match daemonBranchGetFirstWaiting d.branches with
  | none => d
  | some i =>
    match d.branches[i]? with
    | none => d
    | some branch =>
      let transport : Transport := if branch.tcpip then .tcpip else .modem
      let d := { d with clients := Function.update d.clients transport (d.clients transport - 1) }
      let d := d.daemonProcessRc world branch.addr
      let d := if branch.rc = 0 then
        d.removeSystems fun entry => ftnAddrcomp branch.addr entry.node.addr else d
      { d with branches := daemonBranchRemove d.branches i }

/-- `DM_Restart` with `DM_Start` after it. -/
def restart (maxClients : Transport → Int) (d : Daemon) : Daemon :=
  { d with
    systab := []
    holduntil := 0
    queues := fun _ => {}
    maxClients := maxClients }

end Daemon

/-- What happens to the daemon. Another process may change a status file at any time. -/
inductive DaemonEvent where
  | rescan (world : EntryWorld) (found : List Scanned) (failed : Bool)
  | exits (pid rc : Int)
  | reap (world : ReapWorld)
  | queueDo (which : Transport) (world : StepWorld)
  | restart (maxClients : Transport → Int)
  | elsewhere (addr : Faddr) (content : Option Bytes)

namespace Daemon

/-- The daemon after an event. -/
def step (d : Daemon) : DaemonEvent → Daemon
  | .rescan world found failed => d.daemonRescanSysqueue world found failed
  | .exits pid rc =>
    match daemonBranchExit pid rc d.branches with
    | some branches => { d with branches := branches }
    | none => d
  | .reap world => d.reapBranch world
  | .queueDo which world => if 0 < d.maxClients which then d.daemonQueueDo world which else d
  | .restart maxClients => d.restart maxClients
  | .elsewhere addr content => { d with files := Function.update d.files addr.numbers content }

/-- The daemon as it starts. -/
def starts (maxClients : Transport → Int) (files : StsFiles) : Daemon :=
  { maxClients := maxClients, files := files }

/-- The daemon after some events in order. -/
def after (start : Daemon) (events : List DaemonEvent) : Daemon := events.foldl step start

end Daemon

end Binkleyforce
