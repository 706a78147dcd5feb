import Binkleyforce.Hydra.Packet
import Binkleyforce.Transfer.Files

/-!
# The state of a Hydra batch

Hydra sends and receives at once: a transmitter and a receiver with a state each
share the link, the list of files and the queue of packets to be written. A turn
of the batch reads one input, which is what the clock, the line and the disk
answer in it.

Next to what the source keeps there is a record of the answers the remote gave
for the file that is being sent, and of the files that were closed.
-/

namespace Binkleyforce

/-- `HTX_*`: the states of the transmitter. -/
inductive HydraTxstate where
  | done
  | start
  | swait
  | init
  | initack
  | rinit
  | nextFile
  | toFName
  | finfo
  | finfoack
  | data
  | skipFile
  | dataack
  | xwait
  | eof
  | eofack
  | rend
  | «end»
  | endack
  | abort
  deriving DecidableEq, Repr

/-- `HRX_*`: the states of the receiver. -/
inductive HydraRxstate where
  | done
  | init
  | finfo
  | data
  | rpos
  | rposAck
  | skip
  | skipAck
  deriving DecidableEq, Repr

/-- What a sent file was closed as, and whether the last answer of the remote for
it was a refusal. -/
structure HydraClosure where
  refused : Bool
  finf : Finfo
  deriving DecidableEq, Repr

/-- What does not change in a session: the width of a `long`, the version the
program names, and what the file routines use. -/
structure HydraConf where
  wide : Bool
  version : Bytes
  files : TransferConf

/-- The variables of `hydra_batch`. A timer is running or not; `deadtimer` always
runs. `refused` says that the last answer of the remote for the file being sent
was a refusal, and `closures` lists the sent files that were closed. -/
structure HydraState where
  hi : HydraInfo
  pi : Protinfo
  txstate : HydraTxstate := .start
  rxstate : HydraRxstate := .init
  sendEOB : Bool := false
  txtries : Nat := 0
  rxtries : Nat := 0
  txlastack : Int := 0
  rxlastack : Int := 0
  idletimer : Bool := false
  sendtimer : Bool := false
  recvtimer : Bool := false
  lastDatapos : Int := -1
  refused : Bool := false
  closures : List HydraClosure := []
  deriving DecidableEq, Repr

/-- How a batch ends: with a return code, or by following a null pointer. -/
inductive HydraResult where
  | returned (rc : Prc)
  | crashed
  deriving DecidableEq, Repr

/-- What `hydra_recv` returns. For a packet the size of its payload comes with the
memory of the input buffer, which holds older bytes behind it. -/
inductive HydraReceived where
  | nothing
  | junk
  | exit
  | packet (type : HydraPkttype) (isize : Nat) (ibuf : Bytes)
  deriving DecidableEq, Repr

/-- What the files and the spool server answer to the transmitter's part of a
turn. -/
structure HydraTxAnswers where
  told : Bool := true
  opens : TxOpenAnswers
  read : TxReadAnswers := {}

/-- What they answer while a packet is handled: for the file being sent whether
the server is told of its end and a position can be sought; for the file being
received; and what uninitialised variables hold. -/
structure HydraPacketAnswers where
  told : Bool := true
  seeks : Bool := true
  opens : RxOpenAnswers := {}
  writes : RxWriteAnswers := {}
  closes : RxCloseAnswers := {}
  modtime : Int := 0
  filesize : Nat := 0

/-- What they answer when the batch is left. -/
structure HydraExitAnswers where
  told : Bool := true
  closes : RxCloseAnswers := {}

/-- What happens in one turn: which timers have expired; what `p_info` returns;
whether waiting for the line failed; what was received; how many of the waiting
packets were written completely, `none` for an error of the line; and at the end
of the batch whether the rest of them was. -/
structure HydraInput where
  deadExpired : Bool := false
  sendExpired : Bool := false
  recvExpired : Bool := false
  idleExpired : Bool := false
  sending : HydraTxAnswers
  info : Prc := .noerror
  selected : Bool := true
  received : HydraReceived := .nothing
  written : Option Nat := some 0
  handling : HydraPacketAnswers := {}
  flushed : Bool := true
  leaving : HydraExitAnswers := {}

namespace HydraState

/-- `hydra_queuepkt`. -/
def queuepkt (s : HydraState) (type : HydraPkttype) (data : Bytes) : HydraState :=
  { s with hi := s.hi.queuepkt type data }

/-- `p_tx_fclose`, with a record of what the file is closed as. -/
def closeSend (told : Bool) (s : HydraState) : HydraState :=
  { s with
    pi := pTxFclose told s.pi
    closures := s.closures ++ (s.pi.sending.map (HydraClosure.mk s.refused)).toList
    refused := false }

/-- Change the file being sent. -/
def changeSend (change : Finfo → Finfo) (s : HydraState) : HydraState :=
  { s with pi := s.pi.changeSend change }

/-- Change the file being received. -/
def changeRecv (change : Finfo → Finfo) (s : HydraState) : HydraState :=
  { s with pi := s.pi.changeRecv change }

/-- A file to be sent has been announced to the remote and is not closed yet. -/
def announced (s : HydraState) : Bool :=
  !s.sendEOB && s.pi.sending.isSome &&
    match s.txstate with
    | .finfo | .finfoack | .data | .dataack | .xwait | .eof | .eofack => true
    | _ => false

end HydraState

/-- The states in which `hydra_batch` looks at a RPOS packet. -/
def HydraTxstate.takesRpos (txstate : HydraTxstate) : Bool :=
  match txstate with
  | .data | .dataack | .xwait | .eof | .eofack => true
  | _ => false

/-- The offset a packet answers a file with, read as a signed number of 32 bits:
that of a complete FINFOACK or RPOS. -/
def HydraReceived.answer : HydraReceived → Option Int
  | .packet .finfoack isize ibuf => if 4 ≤ isize then some (hydraGetlong false ibuf) else none
  | .packet .rpos isize ibuf => if 10 ≤ isize then some (hydraGetlong false ibuf) else none
  | _ => none

end Binkleyforce
