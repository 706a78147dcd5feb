import Binkleyforce.Binkp.Sysinfo
import Binkleyforce.Transfer.Files
import Binkleyforce.Util.Flags

/-!
# The state of a BinkP session

One state serves the handshake in either direction and the transfer. Besides the
fields of `s_binkp_state` it holds the parts of the global session state that the
BinkP code changes, and records of what it did: the outcomes of the handshake's
checks, the accesses to memory that remote text causes, the files the remote
acknowledged and the files acknowledged to it.
-/

namespace Binkleyforce

/-- `e_binkp_mode`, the values the loop is called with. -/
inductive BinkpMode where
  | incomingHandshake
  | outgoingHandshake
  | transfer
  deriving DecidableEq, Repr

/-- `e_bpmsg`: the commands. -/
inductive Bpmsg where
  | nul
  | adr
  | pwd
  | file
  | ok
  | eob
  | got
  | err
  | bsy
  | get
  | skip
  deriving DecidableEq, Repr

/-- The command a byte stands for. -/
def Bpmsg.ofByte (byte : UInt8) : Option Bpmsg :=
  [nul, adr, pwd, file, ok, eob, got, err, bsy, get, skip][byte.toNat]?

/-- The byte a command is sent as. -/
def Bpmsg.toByte : Bpmsg → UInt8
  | nul => 0
  | adr => 1
  | pwd => 2
  | file => 3
  | ok => 4
  | eob => 5
  | got => 6
  | err => 7
  | bsy => 8
  | get => 9
  | skip => 10

/-- `e_file_receive_status`. -/
inductive FileReceiveStatus where
  | nothing
  | data
  | didget
  | skipping
  deriving DecidableEq, Repr

/-- The types of a block on the line. -/
inductive BlockType where
  | cmd
  | data
  deriving DecidableEq, Repr

/-- A block with its payload. -/
structure Block where
  type : BlockType
  payload : Bytes
  deriving DecidableEq, Repr

/-- A block with a command and its argument. -/
def commandBlock (command : Bpmsg) (text : Bytes) : Block := ⟨.cmd, command.toByte :: text⟩

/-- The checks of the handshake with their outcomes: whether an address of an
M_ADR could be parsed; whether the called address was among them; the results of
the password checks and of locking the addresses; an M_OK. -/
inductive HandshakeCheck where
  | processADR (parsed : Bool)
  | checkGenuine (genuine : Bool)
  | addrsCheck (passed : Bool)
  | authIncoming (passed : Bool)
  | receivedOK
  | addrsLock (locked : Bool)
  deriving DecidableEq, Repr

/-- The configuration and session data that do not change. `overrideFlags` is what
`override_get` leaves for an address. -/
structure BinkpConf where
  password : PasswordConf := {}
  localaddrs : List Faddr := []
  nodeAddr : Faddr := {}
  nodeFlags : Bytes := []
  overrideFlags : Faddr → Bytes := fun _ => []
  files : TransferConf

/-- `s_binkp_state`. A command to be sent out of order waits in `extracmd`. In a
handshake `pi` is null in the source; the code looks at it only in a transfer. -/
structure BinkpState where
  mode : BinkpMode
  phase : Nat := 0
  subphase : Nat := 0
  localData : BinkpSysinfo := {}
  remoteData : BinkpSysinfo := {}
  pi : Protinfo
  addressEstablished : Bool := false
  extracmd : Option (Bpmsg × Bytes) := none
  extraislast : Bool := false
  passwordReceived : Bool := false
  nr : Bool := false
  mb : Bool := false
  complete : Bool := false
  batchsendcomplete : Nat := 0
  batchreceivecomplete : Nat := 0
  waitingGot : Bool := false
  batchSendCount : Nat := 0
  batchRecvCount : Nat := 0
  frs : FileReceiveStatus := .nothing
  emptyloop : Nat := 0
  continuesend : Bool := false
  rc : Prc := .noerror
  remoteaddrs : List Sysaddr := []
  isProtected : Bool := false
  checks : List HandshakeCheck := []
  accesses : List Access := []
  gots : List FileHint := []
  acknowledged : List FileHint := []
  deriving DecidableEq, Repr

namespace BinkpState

/-- Queue a command to be sent next; the flag says that it ends the session. -/
def queue (b : BinkpState) (command : Bpmsg) (text : Bytes) (last : Bool) : BinkpState :=
  { b with extracmd := some (command, text), extraislast := last }

/-- Record accesses to memory. -/
def touch (b : BinkpState) (accesses : List Access) : BinkpState :=
  { b with accesses := b.accesses ++ accesses }

/-- Record the outcome of a check. -/
def check (b : BinkpState) (outcome : HandshakeCheck) : BinkpState :=
  { b with checks := b.checks ++ [outcome] }

end BinkpState

/-- The name, size and time of a file as the commands print them. -/
def fileText (file : FileHint) : Bytes :=
  file.fn ++ ascii " " ++ printInt (toLong file.sz) ++ ascii " " ++ printInt file.tm

end Binkleyforce
