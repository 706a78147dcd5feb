import Binkleyforce.Binkp.Receive
import Binkleyforce.Binkp.Send
import Binkleyforce.Library.Runs

/-!
# The loop of a BinkP session

Each turn of `binkp_loop` makes the next block to send when nothing is left to be
written, looks whether a batch or the session is over, and reads and writes what
the line accepts. A turn reads one input: what the line, the disk and the other
parts of the program answer in it.
-/

namespace Binkleyforce

open Library

/-- What is in progress in `binkp_loop`. `writebuf` is what remains to be written.
The records keep all bytes read from and written to the line, the blocks made for
sending and the blocks whose handling is done. -/
structure BinkpLoop where
  state : BinkpState
  readbuf : Bytes := []
  readPos : Nat := 0
  wantRead : Nat := 2
  writebuf : Bytes := []
  noMoreToSend : Bool := false
  input : Bytes := []
  output : Bytes := []
  produced : List Block := []
  handed : List Block := []
  deriving DecidableEq, Repr

/-- What happens in one turn. `select` is the readiness for reading and writing,
`read` the bytes received (none at the end of the connection) and `write` the
number of bytes the line takes; a failed call is `none`. -/
structure LoopInput where
  sending : SendAnswers
  receiving : ReceiveAnswers := {}
  select : Option (Bool × Bool) := some (true, true)
  read : Option Bytes := some []
  write : Option Nat := some 65535

/-- A turn in which the line brings these bytes and takes all there are. -/
def LoopInput.ofLine (sending : SendAnswers) (received : Bytes) : LoopInput where
  sending := sending
  select := some (!received.isEmpty, true)
  read := some received

/-- How the loop ends: with a return code, by following a null pointer, or by
leaving the buffer a block is received in. -/
inductive LoopResult where
  | returned (rc : Prc)
  | crashed
  | overrun
  deriving DecidableEq, Repr

/-- The size of a block's header, and the largest block. -/
def binkpHeader : Nat := 2
def binkpMaxblock : Nat := 32768

/-- A block as it is written to the line. -/
def Block.encode (block : Block) : Bytes :=
  let length := block.payload.length % 65536
  let high := UInt8.ofNat (length / 256)
  (match block.type with
    | .cmd => high ||| 0x80
    | .data => high &&& 0x7f) :: UInt8.ofNat length :: block.payload.take length

/-- Turns in which the line brings blocks, each in two pieces, and then quiet
ones. -/
def lineTurns (sending : SendAnswers) (blocks : List Block) (quiet : Nat) : List LoopInput :=
  (blocks.flatMap fun block => [block.encode.take 2, block.encode.drop 2]).map
    (LoopInput.ofLine sending) ++ List.replicate quiet (LoopInput.ofLine sending [])

namespace BinkpLoop

/-- Change the state of the session. -/
def withState (l : BinkpLoop) (state : BinkpState) : BinkpLoop := { l with state }

/-- Are the bytes on the line encrypted? -/
def encrypted (l : BinkpLoop) : Bool :=
  l.state.mode = .transfer && l.state.remoteData.options.crypt

/-- The header of the buffered block: its type and length. -/
def headerType (readbuf : Bytes) : BlockType :=
  if readbuf.headD 0 &&& 0x80 ≠ 0 then .cmd else .data

def headerLength (readbuf : Bytes) : Nat :=
  (readbuf.headD 0 &&& 0x7f).toNat * 256 + (readbuf.getD 1 0).toNat

/-- Encrypt bytes to be written where that was agreed on. -/
def encrypt (l : BinkpLoop) (bytes : Bytes) : BinkpLoop × Bytes :=
  if l.encrypted then
    ({ l with state.remoteData.keysOut := (encryptBuf l.state.remoteData.keysOut bytes).1 },
      (encryptBuf l.state.remoteData.keysOut bytes).2)
  else (l, bytes)

/-- Decrypt bytes that were read where that was agreed on. -/
def decrypt (l : BinkpLoop) (bytes : Bytes) : BinkpLoop × Bytes :=
  if l.encrypted then
    ({ l with state.remoteData.keysIn := (decryptBuf l.state.remoteData.keysIn bytes).1 },
      (decryptBuf l.state.remoteData.keysIn bytes).2)
  else (l, bytes)

/-- Take over a block to be written. -/
def load (l : BinkpLoop) (block : Block) : BinkpLoop :=
  let (l, bytes) := l.encrypt block.encode
  { l with produced := l.produced ++ [block], writebuf := bytes }

/-- The receiving side may have asked for more to be sent. -/
def resume (l : BinkpLoop) : BinkpLoop :=
  if l.state.continuesend then { l with noMoreToSend := false, state.continuesend := false }
  else l

/-- A block is wanted: the last one is written, and not everything is sent. -/
def idle (l : BinkpLoop) : Bool :=
  l.writebuf.isEmpty && (!l.noMoreToSend || l.state.extracmd.isSome)

/-- What becomes of the result of `binkp_getforsend`. -/
def take (l : BinkpLoop) : SendResult → Turn BinkpLoop LoopResult
  | .block block last => .more { l.load block with noMoreToSend := l.noMoreToSend || last }
  | .noMore => .more { l with noMoreToSend := true }
  | .nothing => .more l
  | .error => .halt l (.returned .error)
  | .crashed => .halt l .crashed

/-- Make the next block. -/
def fetchNext (conf : BinkpConf) (input : LoopInput) (l : BinkpLoop) :
    Turn BinkpLoop LoopResult :=
  (l.withState (l.state.getforsend conf input.sending).1).take
    (l.state.getforsend conf input.sending).2

/-- Make the next block where one is wanted. -/
def fetch (conf : BinkpConf) (input : LoopInput) (l : BinkpLoop) : Turn BinkpLoop LoopResult :=
  if l.resume.idle then l.resume.fetchNext conf input else .more l.resume

/-- Both ends of the batch have been seen. -/
def batchComplete (l : BinkpLoop) : Bool :=
  l.state.batchsendcomplete ≠ 0 && l.state.batchreceivecomplete ≠ 0

/-- Another batch follows the one that is complete. -/
def batchRestarts (l : BinkpLoop) : Bool :=
  l.batchComplete && l.state.mb &&
    (l.state.batchSendCount ≠ 0 || l.state.batchRecvCount ≠ 0)

/-- Start another batch. -/
def restart (l : BinkpLoop) : BinkpLoop :=
  { l with
    noMoreToSend := false
    wantRead := binkpHeader
    state := { l.state with
      batchsendcomplete := l.state.batchsendcomplete - 1
      batchreceivecomplete := l.state.batchreceivecomplete - 1
      batchSendCount := 0
      batchRecvCount := 0
      phase := 0
      frs := .nothing } }

/-- The session is over once the last batch is complete and nothing waits for
acknowledgement. -/
def finish (l : BinkpLoop) : BinkpLoop :=
  if l.batchComplete && !l.state.waitingGot then
    { l with wantRead := 0, state.complete := true }
  else l

/-- Wait for the line, or count a turn without it. -/
def await (input : LoopInput) (l : BinkpLoop) : Turn BinkpLoop LoopResult :=
  if l.wantRead ≠ 0 || !l.writebuf.isEmpty then
    match input.select with
    | none => .halt l (.returned .error)
    | some _ => .more l
  else if l.state.emptyloop + 1 = 10 then .halt l (.returned .error)
  else .more { l with state.emptyloop := l.state.emptyloop + 1 }

/-- Put bytes into the buffer. With the header the length of the block becomes
known. -/
def buffer (l : BinkpLoop) (bytes : Bytes) : BinkpLoop :=
  let readbuf := l.readbuf.take l.readPos ++ bytes ++ l.readbuf.drop (l.readPos + bytes.length)
  let readPos := l.readPos + bytes.length
  { l with
    readbuf
    readPos
    wantRead :=
      if readPos = binkpHeader then headerLength readbuf else l.wantRead - bytes.length }

/-- Take over bytes read from the line. -/
def store (l : BinkpLoop) (bytes : Bytes) : BinkpLoop :=
  let (after, plain) := l.decrypt bytes
  { after.buffer plain with input := l.input ++ bytes }

/-- Read from the line. -/
def receive (input : LoopInput) (l : BinkpLoop) : Turn BinkpLoop LoopResult :=
  if l.wantRead ≠ 0 && (input.select.any (·.1)) then
    match input.read with
    | none => .halt l (.returned .error)
    | some [] => .halt l (.returned .remoteaborted)
    | some bytes => .more (l.store (bytes.take l.wantRead))
  else .more l

/-- The length a buffered block is handed over with, an `unsigned short`. -/
def handedLength (l : BinkpLoop) : Nat := (l.readPos + (65536 - binkpHeader)) % 65536

/-- A block is ready to be handed over. -/
def ready (l : BinkpLoop) : Bool := l.wantRead = 0 && l.readPos ≠ 0

/-- The terminator of the handed block, or data that is written from it, would lie
outside the buffer. -/
def outside (l : BinkpLoop) : Bool :=
  match headerType l.readbuf with
  | .cmd => l.handedLength > binkpMaxblock
  | .data =>
    l.state.frs = .data && l.state.extracmd.isNone && l.handedLength > binkpMaxblock + 1

/-- The block that is handed over. -/
def block (l : BinkpLoop) : Block :=
  ⟨headerType l.readbuf, (l.readbuf.drop binkpHeader).take l.handedLength⟩

/-- The command that is handed over, with a pointer to its argument. -/
def command (l : BinkpLoop) : Option (Bpmsg × Pointer) :=
  match headerType l.readbuf with
  | .data => none
  | .cmd =>
    if l.handedLength < 1 then none
    else
      BinkpState.blockCommand (l.readbuf.drop binkpHeader) (l.readPos - binkpHeader) l.handedLength

/-- Hand the buffered block to the session. -/
def hand (conf : BinkpConf) (input : LoopInput) (l : BinkpLoop) : BinkpState × ReceiveResult :=
  l.state.doreceiveblock conf input.receiving (headerType l.readbuf)
    (l.readbuf.drop binkpHeader) (l.readPos - binkpHeader) l.handedLength

/-- What becomes of the buffer after a block was handed over. -/
def settle (l : BinkpLoop) : ReceiveResult → Turn BinkpLoop LoopResult
  | .accepted =>
    .more { l with handed := l.handed ++ [l.block], readPos := 0, wantRead := binkpHeader }
  | .noMore => .more { l with handed := l.handed ++ [l.block], readPos := 0, wantRead := 0 }
  | .keep => .more l
  | .abort => .more { l with state.complete := true }
  | .crashed => .halt l .crashed

/-- Hand a received block over, again in every turn while it is kept. -/
def handle (conf : BinkpConf) (input : LoopInput) (l : BinkpLoop) :
    Turn BinkpLoop LoopResult :=
  if l.ready then
    if l.outside then .halt l .overrun
    else (l.withState (l.hand conf input).1).settle (l.hand conf input).2
  else .more l

/-- Write to the line. -/
def transmit (input : LoopInput) (l : BinkpLoop) : Turn BinkpLoop LoopResult :=
  if !l.writebuf.isEmpty && (input.select.any (·.2)) then
    match input.write with
    | none => .halt l (.returned .error)
    | some 0 => .halt l (.returned .remoteaborted)
    | some count =>
      .more { l with
        output := l.output ++ l.writebuf.take count
        writebuf := l.writebuf.drop count }
  else .more l

/-- The part of a turn up to the handing over of a block. -/
def arrive (input : LoopInput) (l : BinkpLoop) : Turn BinkpLoop LoopResult :=
  (l.finish.await input).andThen fun l => l.receive input

/-- The part of a turn after the batch was looked at. -/
def exchange (conf : BinkpConf) (input : LoopInput) (l : BinkpLoop) :
    Turn BinkpLoop LoopResult :=
  (l.arrive input).andThen fun l => (l.handle conf input).andThen fun l => l.transmit input

/-- The part of a turn from the look at the batch on. -/
def batch (conf : BinkpConf) (input : LoopInput) (l : BinkpLoop) : Turn BinkpLoop LoopResult :=
  if l.batchRestarts then .more l.restart else l.exchange conf input

/-- The session has come to its end. -/
def isOver (l : BinkpLoop) : Bool := l.state.complete && !l.state.waitingGot

/-- One turn of the loop of `binkp_loop`, from its condition on. -/
def step (conf : BinkpConf) (l : BinkpLoop) (input : LoopInput) : Turn BinkpLoop LoopResult :=
  if l.isOver then .halt l (.returned l.state.rc)
  else (l.fetch conf input).andThen fun l => l.batch conf input

/-- `binkp_loop` before its loop. What earlier parts of the session left is taken
over, all else is reset. -/
def start (b : BinkpState) : BinkpLoop where
  state :=
    { mode := b.mode
      localData := b.localData
      remoteData := b.remoteData
      pi := b.pi
      addressEstablished := b.addressEstablished
      nr := b.remoteData.options.nr
      mb := b.remoteData.options.mb
      remoteaddrs := b.remoteaddrs
      isProtected := b.isProtected }

end BinkpLoop

/-- Nothing to send and nothing received. -/
def Protinfo.empty : Protinfo := { lists := { queue := [], filelist := [], reqsOnly := false } }

/-- `binkp_incoming`. -/
def binkpIncoming (localData remoteData : BinkpSysinfo) : BinkpLoop :=
  .start { mode := .incomingHandshake, localData, remoteData, pi := .empty }

/-- `binkp_outgoing`. -/
def binkpOutgoing (localData remoteData : BinkpSysinfo) : BinkpLoop :=
  .start
    { mode := .outgoingHandshake
      localData
      remoteData :=
        { remoteData with
          keysOut := initKeys localData.passwd
          keysIn := updateKeysText (initKeys (ascii "-")) localData.passwd }
      pi := .empty }

/-- `binkp_transfer`. Whether the address is established is not initialised. -/
def binkpTransfer (localData remoteData : BinkpSysinfo) (pi : Protinfo)
    (addressEstablished isProtected : Bool) (remoteaddrs : List Sysaddr) : BinkpLoop :=
  .start
    { mode := .transfer, localData, remoteData, pi, addressEstablished, isProtected, remoteaddrs }

/-- A transfer with nothing special in it. -/
def plainConf : BinkpConf where
  files := { netName := fun name _ => name, filetype := fun _ => 0, localtogmt := id }

/-- Every local file can be opened and has these contents; the spool has nothing. -/
def SendAnswers.ofContent (content : Bytes) : SendAnswers where
  opening := { opens := fun source => if source = .network then none else some ⟨content, 0⟩ }

end Binkleyforce
