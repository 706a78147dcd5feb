import Binkleyforce.Hydra.State
import Binkleyforce.Library.Runs

/-!
# A Hydra batch

The loop of `hydra_batch`. A turn looks at the timers, lets the transmitter and
the receiver do what their states ask for, exchanges bytes with the line and
handles the packet that was received, if any. Each state and each packet type of
the source is a definition of its own.
-/

namespace Binkleyforce

open Library

namespace HydraState

/-- Leave the batch at the label `exit`: open files are closed. -/
def leave (input : HydraInput) (rc : Prc) (s : HydraState) : Turn HydraState HydraResult :=
  let s :=
    if (s.pi.sending.bind (·.fp)).isSome then s.closeSend input.leaving.told else s
  let s :=
    if (s.pi.receiving.bind (·.fp)).isSome then
      { s with pi := ((pRxFclose input.leaving.closes s.pi).map (·.1)).getD s.pi }
    else s
  .halt s (.returned rc)

/-! ## The timers -/

/-- The send timer expired: the last packet is sent again. -/
def sendTimeout (s : HydraState) : HydraState :=
  { s with
    sendtimer := false
    txstate :=
      match s.txstate with
      | .swait => .start
      | .initack => .init
      | .finfoack => .finfo
      | .dataack => .data
      | .eofack => .eof
      | .endack => .end
      | other => other }

/-- Ask for smaller blocks. -/
def shrink (s : HydraState) : HydraState :=
  { s with hi.recvBlockSize := hydraAlignBlockSize (s.hi.recvBlockSize / 2) }

/-- The receive timer expired. -/
def recvTimeout (s : HydraState) : HydraState :=
  match s.rxstate with
  | .rposAck => { s.shrink with recvtimer := false, rxstate := .rpos }
  | .skipAck => { s with recvtimer := false, rxstate := .skip }
  | .data => { s with recvtimer := false, rxstate := .rpos }
  | _ => { s with recvtimer := false }

/-- Look at the timers. -/
def timers (input : HydraInput) (s : HydraState) : Turn HydraState HydraResult :=
  if input.deadExpired then s.leave input .error
  else
    let s := if s.sendtimer && input.sendExpired then s.sendTimeout else s
    .more (if s.recvtimer && input.recvExpired then s.recvTimeout else s)

/-! ## The transmitter -/

/-- Count a try of the transmitter and give up at the tenth. -/
def attempt (input : HydraInput) (send : HydraState → HydraState) (s : HydraState) :
    Turn HydraState HydraResult :=
  if s.txtries + 1 < 10 then .more (send { s with txtries := s.txtries + 1 })
  else { s with txtries := s.txtries + 1 }.leave input .error

/-- `HTX_START`. The text `hydra` with a carriage return goes to the line before
the packet. -/
def sendStart (s : HydraState) : HydraState :=
  { s with sendtimer := true, txstate := .swait }.queuepkt .start []

/-- The payload of the INIT packet: the program, the options it can use and wants,
no windows and no prefix. -/
def initData (conf : HydraConf) : Bytes :=
  printHex 0 ++ ascii "binkleyforce" ++ [44] ++ conf.version ++ [0] ++
    hydraPutflags hydraCanopt 256 ++ [0] ++ hydraPutflags hydraDefopt 256 ++ [0] ++
    printHex 0 ++ printHex 0 ++ [0] ++ [0]

/-- `HTX_INIT`. -/
def sendInit (conf : HydraConf) (s : HydraState) : HydraState :=
  { s with sendtimer := true, txstate := .initack }.queuepkt .init (initData conf)

/-- The payload of the FINFO packet; a single NUL at the end of the batch. -/
def finfoPayload (conf : HydraConf) (s : HydraState) : Bytes :=
  if s.sendEOB then [0]
  else
    match s.pi.sending with
    | none => []
    | some finf => finfoData conf.wide finf.netName finf.bytesTotal finf.modTime

/-- `HTX_FINFO`. -/
def sendFinfo (conf : HydraConf) (s : HydraState) : HydraState :=
  { s with sendtimer := true, txstate := .finfoack }.queuepkt .finfo (s.finfoPayload conf)

/-- Open the next file. What the remote answered was for another one. -/
def openNext (conf : HydraConf) (answers : TxOpenAnswers) (s : HydraState) : HydraState :=
  { s with
    pi := (pTxFopen conf.files answers s.pi).1
    sendEOB := !(pTxFopen conf.files answers s.pi).2
    refused := false
    txtries := 0
    txstate := .finfo }

/-- `HTX_NextFile` up to the state it falls into. -/
def nextFile (conf : HydraConf) (input : HydraInput) (s : HydraState) : HydraState :=
  (if (s.pi.sending.bind (·.fp)).isSome then s.closeSend input.sending.told else s).openNext conf
    input.sending.opens

/-- Raise the size of sent blocks after enough good ones. -/
def raiseBlockSize (hi : HydraInfo) : HydraInfo :=
  let hi := { hi with sendGoodBlocks := hi.sendGoodBlocks + 1 }
  if hi.sendBlockSize < 2048 && 4096 ≤ hi.sendGoodBlocks * hi.sendBlockSize then
    { hi with
      sendGoodBlocks := 0
      sendBlockSize := hydraAlignBlockSize (hi.sendBlockSize * 2) }
  else hi

/-- All that is sent fits into the window of the remote, or it has none. -/
def windowOpen (conf : HydraConf) (s : HydraState) (bytesSent : Nat) : Bool :=
  bytesSent < unsignedLong conf.wide (s.txlastack + s.hi.txwindow)

/-- Put a block read from the file into the output buffer and look at the
window. -/
def sendBlock (conf : HydraConf) (bytes : Bytes) (finf : Finfo) (s : HydraState) : HydraState :=
  let sent : Finfo := { finf with bytesSent := finf.bytesSent + bytes.length }
  let s := (s.queuepkt .data (hydraPutlong finf.bytesSent ++ bytes)).changeSend fun _ => sent
  let s := { s with hi := raiseBlockSize s.hi }
  if 0 < s.hi.txwindow && !s.windowOpen conf sent.bytesSent then
    { s with sendtimer := true, txstate := .dataack }
  else if sent.eofseen then { s with txtries := 0, txstate := .eof }
  else s

/-- Read a block of the file and send it. -/
def readBlock (conf : HydraConf) (input : HydraInput) (s : HydraState) :
    Turn HydraState HydraResult :=
  match pTxReadfile input.sending.read s.hi.sendBlockSize s.pi with
  | none => .halt s .crashed
  | some (pi, read) =>
    match read, pi.sending with
    | .data (byte :: bytes), some finf =>
      .more ({ s with pi, sendtimer := false }.sendBlock conf (byte :: bytes) finf)
    | _, _ => .more { s with pi, sendtimer := false, txtries := 0, txstate := .eof }

/-- `HTX_DATA`. -/
def sendData (conf : HydraConf) (input : HydraInput) (s : HydraState) :
    Turn HydraState HydraResult :=
  match s.pi.sending with
  | none => .halt s .crashed
  | some finf =>
    if finf.eofseen then .more { s with txtries := 0, txstate := .eof }
    else if s.hi.pktqueue.isEmpty then s.readBlock conf input
    else .more s

/-- The offset of the EOF packet. -/
def eofOffset (pi : Protinfo) : Int :=
  match pi.sending with
  | none => -2
  | some finf =>
    if finf.status = Fstat.skipped then -1
    else if finf.status = Fstat.refused then -2
    else if finf.eofseen then finf.bytesSent
    else -2

/-- `HTX_EOF`. -/
def sendEof (s : HydraState) : HydraState :=
  { s with sendtimer := true, txstate := .eofack }.queuepkt .eof (hydraPutlong (eofOffset s.pi))

/-- `HTX_REND`: wait for the receiver, and tell the remote now and then. -/
def awaitReceiver (input : HydraInput) (s : HydraState) : HydraState :=
  if s.rxstate = .done then { s with txtries := 0, txstate := .end }
  else if !s.idletimer || input.idleExpired then { s with idletimer := true }.queuepkt .idle []
  else s

/-- `HTX_END`. -/
def sendEnd (s : HydraState) : HydraState :=
  { s with sendtimer := true, txstate := .endack }.queuepkt .end []

/-- What the transmitter does in its state. -/
def transmit (conf : HydraConf) (input : HydraInput) (s : HydraState) :
    Turn HydraState HydraResult :=
  match s.txstate with
  | .start => s.attempt input sendStart
  | .init => s.attempt input (sendInit conf)
  | .rinit => .more (if s.rxstate ≠ .init then { s with txstate := .nextFile } else s)
  | .nextFile => (s.nextFile conf input).attempt input (sendFinfo conf)
  | .finfo => s.attempt input (sendFinfo conf)
  | .data => s.sendData conf input
  | .eof => s.attempt input sendEof
  | .rend => .more (s.awaitReceiver input)
  | .end => s.attempt input sendEnd
  | _ => .more s

/-! ## The receiver -/

/-- Queue a RPOS packet. -/
def sendRpos (pos : Int) (s : HydraState) : HydraState :=
  s.queuepkt .rpos (hydraPutlong pos ++ hydraPutword s.hi.recvBlockSize ++
    hydraPutlong s.hi.recvRposId)

/-- `HRX_RPOS` and `HRX_Skip`. -/
def reposition (input : HydraInput) (s : HydraState) : Turn HydraState HydraResult :=
  let s := { s with rxtries := s.rxtries + 1 }
  if 10 ≤ s.rxtries then s.leave input .error
  else
    match s.pi.receiving with
    | none => .halt s .crashed
    | some finf =>
      if s.rxstate = .skip then
        .more ({ s with recvtimer := true, rxstate := .skipAck }.sendRpos
          (if finf.status = Fstat.skipped then -1 else -2))
      else
        .more ({ s with recvtimer := true, rxstate := .rposAck }.sendRpos finf.bytesReceived)

/-- What the receiver does in its state. -/
def receive (input : HydraInput) (s : HydraState) : Turn HydraState HydraResult :=
  match s.rxstate with
  | .rpos | .skip => s.reposition input
  | _ => .more s

/-! ## The line -/

/-- Look at the limits of the session and exchange bytes with the line. -/
def exchange (input : HydraInput) (s : HydraState) : Turn HydraState HydraResult :=
  if input.info ≠ .noerror then s.leave input input.info
  else if !input.selected then s.leave input .error
  else if input.received = .exit then s.leave input .error
  else
    match input.written with
    | none => s.leave input .error
    | some count => .more { s with hi.pktqueue := s.hi.pktqueue.drop count }

/-! ## Packets for the receiver -/

/-- Ask for the data again from a position under a new id. -/
def resync (s : HydraState) : HydraState :=
  { s.shrink with
    hi.recvRposId := s.hi.recvRposId + 1
    rxtries := 0
    rxstate := .rpos }

/-- Ask for the file to be skipped. -/
def startSkip (status : Fstat) (s : HydraState) : HydraState :=
  { s.changeRecv fun finf => { finf with status } with
    hi.recvRposId := s.hi.recvRposId + 1
    rxtries := 0
    rxstate := .skip }

/-- Something unreadable was received. -/
def onJunk (s : HydraState) : HydraState := if s.rxstate = .data then s.resync else s

/-- `HPKT_INIT`. -/
def onInit (conf : HydraConf) (input : HydraInput) (pkt : Bytes) (s : HydraState) :
    Turn HydraState HydraResult :=
  if s.rxstate = .init then
    match hydraParseInit conf.wide pkt s.hi with
    | none => s.leave input .error
    | some hi => .more ({ s with hi, rxtries := 0, rxstate := .finfo }.queuepkt .initack [])
  else .more (s.queuepkt .initack [])

/-- Answer a FINFO packet. -/
def answerFinfo (offset : Int) (s : HydraState) : HydraState :=
  s.queuepkt .finfoack (hydraPutlong offset)

/-- Open the file a FINFO packet announces. -/
def openReceived (conf : HydraConf) (answers : HydraPacketAnswers) (pkt : Bytes)
    (s : HydraState) : Turn HydraState HydraResult :=
  let (time, size) := finfoTimeSize conf.wide answers.modtime answers.filesize pkt
  let (pi, result) :=
    pRxFopen conf.files answers.opens ⟨finfoName pkt, size, conf.files.localtogmt time⟩ s.pi
  match result with
  | .refuse => .more ({ s with pi }.answerFinfo (-2))
  | .skip => .more ({ s with pi }.answerFinfo (-1))
  | .accept =>
    match pi.receiving with
    | none => .halt { s with pi } .crashed
    | some finf =>
      .more ({ s with
        pi
        rxlastack := finf.bytesSkipped
        lastDatapos := -1
        recvtimer := true
        rxstate := .data }.answerFinfo finf.bytesSkipped)

/-- `HPKT_FINFO`. -/
def onFinfo (conf : HydraConf) (answers : HydraPacketAnswers) (isize : Nat) (ibuf : Bytes)
    (s : HydraState) : Turn HydraState HydraResult :=
  if s.rxstate = .finfo then
    if ibuf.getD 0 0 = 0 then .more ({ s with rxstate := .done }.answerFinfo 0)
    else if 41 < isize ∧ ibuf.getD (isize - 1) 0 = 0 then
      s.openReceived conf answers (ibuf.take isize)
    else .more s
  else if s.rxstate = .done then .more (s.answerFinfo (-2))
  else .more s

/-- Write the data of a packet that comes at the right position. -/
def writeBlock (answers : HydraPacketAnswers) (bytes : Bytes) (s : HydraState) :
    Turn HydraState HydraResult :=
  match pRxWritefile answers.writes bytes s.pi with
  | none => .halt s .crashed
  | some (pi, .refuse) => .more ({ s with pi }.startSkip .refused)
  | some (pi, .skip) => .more ({ s with pi }.startSkip .skipped)
  | some (pi, .ok) =>
    let position := (pi.receiving.map (·.bytesReceived)).getD 0
    let s := { s with pi }
    let s :=
      if 0 < s.hi.rxwindow then
        { s with rxlastack := position }.queuepkt .dataack (hydraPutlong position)
      else s
    .more (s.changeRecv fun finf =>
      { finf with bytesReceived := finf.bytesReceived + bytes.length })

/-- Data came at another position than the one it is wanted from. -/
def misplaced (pos : Int) (s : HydraState) : HydraState :=
  if s.rxstate = .rposAck then
    { s with rxstate := if pos < s.lastDatapos then .rpos else .rposAck, lastDatapos := pos }
  else { s.resync with lastDatapos := pos }

/-- `HPKT_DATA`. -/
def onData (conf : HydraConf) (answers : HydraPacketAnswers) (isize : Nat) (ibuf : Bytes)
    (s : HydraState) : Turn HydraState HydraResult :=
  if s.rxstate = .data ∨ s.rxstate = .rposAck then
    if isize < 4 then .more s
    else
      match s.pi.receiving with
      | none => .halt s .crashed
      | some finf =>
        let pos := hydraGetlong conf.wide ibuf
        if pos ≠ finf.bytesReceived then .more (s.misplaced pos)
        else
          { s with
            hi.recvBlockSize := isize - 4
            lastDatapos := pos
            recvtimer := true
            rxstate := .data }.writeBlock answers ((ibuf.take isize).drop 4)
  else .more s

/-- The whole file was received: close it. -/
def closeReceived (answers : HydraPacketAnswers) (s : HydraState) :
    Turn HydraState HydraResult :=
  match pRxFclose answers.closes (s.pi.changeRecv fun finf => { finf with status := .success }) with
  | none => .halt s .crashed
  | some (pi, true) => .more ({ s with pi, rxtries := 0, rxstate := .finfo }.queuepkt .eofack [])
  | some (pi, false) =>
    .more ({ s with pi, rxtries := 0, rxstate := .skip }.changeRecv fun finf =>
      { finf with status := .refused })

/-- `HPKT_EOF`. -/
def onEof (conf : HydraConf) (answers : HydraPacketAnswers) (isize : Nat) (ibuf : Bytes)
    (s : HydraState) : Turn HydraState HydraResult :=
  let pos := hydraGetlong conf.wide ibuf
  if s.rxstate = .data then
    if isize < 4 then .more s
    else
      match s.pi.receiving with
      | none => .halt s .crashed
      | some finf =>
        if pos ≠ finf.bytesReceived then .more { s.resync with lastDatapos := pos }
        else s.closeReceived answers
  else if s.rxstate = .skip ∨ s.rxstate = .skipAck then
    if isize < 4 then .more s
    else if 0 ≤ pos then .more { s with rxstate := .skip }
    else
      match pRxFclose answers.closes s.pi with
      | none => .halt s .crashed
      | some (pi, _) =>
        .more ({ s with pi, recvtimer := false, rxtries := 0, rxstate := .finfo }.queuepkt .eofack [])
  else if isize = 4 ∧ pos = -2 then .more (s.queuepkt .eofack [])
  else .more s

/-! ## Packets for the transmitter -/

/-- `HPKT_START`. -/
def onStart (s : HydraState) : HydraState :=
  if s.txstate = .start ∨ s.txstate = .swait then { s with txtries := 0, txstate := .init } else s

/-- `HPKT_INITACK`. -/
def onInitack (s : HydraState) : HydraState :=
  if s.txstate = .init ∨ s.txstate = .initack then { s with txtries := 0, txstate := .rinit }
  else s

/-- Close the file as it stands and go on with the next one. -/
def closeAndNext (answers : HydraPacketAnswers) (s : HydraState) : HydraState :=
  { s.closeSend answers.told with txstate := .nextFile }

/-- Close the file with a status and go on with the next one. -/
def closeAs (answers : HydraPacketAnswers) (status : Fstat) (s : HydraState) : HydraState :=
  (s.changeSend fun finf => { finf with status }).closeAndNext answers

/-- Seek in the file being sent. -/
def seek (pos : Nat) (s : HydraState) : HydraState :=
  s.changeSend fun finf =>
    { finf with fp := finf.fp.map fun stream => { stream with position := pos } }

/-- Send the file from an offset on. -/
def sendFrom (answers : HydraPacketAnswers) (offs : Int) (s : HydraState) :
    Turn HydraState HydraResult :=
  if (s.pi.sending.bind (·.fp)).isNone then .halt s .crashed
  else if answers.seeks then
    .more ({ s.seek offs.toNat with txlastack := offs, txtries := 0, txstate := .data }.changeSend
      fun finf => { finf with bytesSkipped := offs.toNat, bytesSent := offs.toNat })
  else .more (s.closeAndNext answers)

/-- `HPKT_FINFOACK`. -/
def onFinfoack (conf : HydraConf) (answers : HydraPacketAnswers) (isize : Nat) (ibuf : Bytes)
    (s : HydraState) : Turn HydraState HydraResult :=
  if s.txstate = .finfo ∨ s.txstate = .finfoack then
    let offs := hydraGetlong conf.wide ibuf
    if s.sendEOB then
      .more { s with idletimer := true, sendtimer := false, txtries := 0, txstate := .rend }
    else if isize < 4 then .more s
    else if offs = 0 then .more { s with txlastack := 0, txtries := 0, txstate := .data }
    else if s.pi.sending.isNone then .halt s .crashed
    else if 0 < offs then s.sendFrom answers offs
    else if offs = -1 then .more (s.closeAs answers .skipped)
    else .more (s.closeAs answers .refused)
  else .more s

/-- `HPKT_DATAACK`. The position is read also where the packet is too short for
one. -/
def onDataack (conf : HydraConf) (ibuf : Bytes) (s : HydraState) :
    Turn HydraState HydraResult :=
  if s.txstate = .data ∨ s.txstate = .dataack then
    match s.pi.sending with
    | none => .halt s .crashed
    | some finf =>
      let ackpos := hydraGetlong conf.wide ibuf
      -- A negative position is compared as a huge `size_t`.
      if ackpos < 0 ∨ (finf.bytesSent : Int) ≤ ackpos then .more s
      else if ackpos < s.txlastack then .more s
      else
        let s := { s with txlastack := ackpos }
        if s.txstate = .dataack ∧ s.windowOpen conf finf.bytesSent then
          .more { s with txtries := 0, txstate := .data }
        else .more s
  else .more s

/-- End the file with a status after a RPOS packet with an id. -/
def endFile (packetId : Int) (status : Fstat) (s : HydraState) : HydraState :=
  { s.changeSend fun finf => { finf with status } with
    hi.sendRposId := packetId
    txtries := 0
    txstate := .eof }

/-- Use another block size where one is asked for. -/
def useBlockSize (blocksize : Nat) (hi : HydraInfo) : HydraInfo :=
  if blocksize ≠ 0 ∧ blocksize ≠ hi.sendBlockSize then
    { hi with sendBlockSize := blocksize, sendGoodBlocks := 0 }
  else hi

/-- Send the file again from the offset of a RPOS packet. -/
def resend (answers : HydraPacketAnswers) (offset : Int) (blocksize : Nat) (packetId : Int)
    (s : HydraState) : Turn HydraState HydraResult :=
  let s := { s.changeSend fun finf => { finf with eofseen := false } with
    hi.sendRposId := packetId }
  if (s.pi.sending.bind (·.fp)).isNone then .halt s .crashed
  else if answers.seeks then
    .more ({ s.seek offset.toNat with
      txlastack := offset
      hi := useBlockSize blocksize s.hi
      txstate := if s.txstate = HydraTxstate.xwait then .xwait else .data }.changeSend fun finf =>
        { finf with bytesSent := offset.toNat })
  else .more (s.endFile packetId .refused)

/-- `HPKT_RPOS`. -/
def onRpos (conf : HydraConf) (answers : HydraPacketAnswers) (isize : Nat) (ibuf : Bytes)
    (s : HydraState) : Turn HydraState HydraResult :=
  if s.txstate.takesRpos then
    if isize < 10 then .more s
    else
      let offset := hydraGetlong conf.wide ibuf
      let blocksize := hydraGetword (ibuf.drop 4)
      let packetId := hydraGetlong conf.wide (ibuf.drop 6)
      if 0 < packetId ∧ packetId = s.hi.sendRposId then .more s
      else if s.pi.sending.isNone then .halt s .crashed
      else if 0 ≤ offset then
        s.resend answers offset (if 0 < blocksize then hydraAlignBlockSize blocksize else 0)
          packetId
      else if offset = -1 then .more (s.endFile packetId .skipped)
      else .more (s.endFile packetId .refused)
  else .more s

/-- `HPKT_EOFACK`. -/
def onEofack (answers : HydraPacketAnswers) (s : HydraState) : HydraState :=
  if s.txstate = .eof ∨ s.txstate = .eofack then
    match s.pi.sending with
    | none => { s with txtries := 0, txstate := .end }
    | some finf =>
      if finf.eofseen then s.closeAs answers .success else s.closeAndNext answers
  else s

/-- `HPKT_END`. -/
def onEnd (s : HydraState) : HydraState :=
  if s.txstate = .end ∨ s.txstate = .endack then
    { ((s.queuepkt .end []).queuepkt .end []).queuepkt .end [] with
      txtries := 0
      txstate := .done }
  else s

/-! ## A turn -/

/-- Record the answer of the remote for the file being sent. -/
def heed (received : HydraReceived) (s : HydraState) : HydraState :=
  match received.answer with
  | none => s
  | some offset => if s.announced then { s with refused := decide (offset = -2) } else s

/-- Handle what was received. -/
def handle (conf : HydraConf) (input : HydraInput) (s : HydraState) :
    Turn HydraState HydraResult :=
  match input.received with
  | .nothing | .exit => .more s
  | .junk => .more s.onJunk
  | .packet type isize ibuf =>
    match type with
    | .start => .more s.onStart
    | .init => s.onInit conf input (ibuf.take isize)
    | .initack => .more s.onInitack
    | .finfo => s.onFinfo conf input.handling isize ibuf
    | .finfoack => s.onFinfoack conf input.handling isize ibuf
    | .data => s.onData conf input.handling isize ibuf
    | .dataack => s.onDataack conf ibuf
    | .rpos => s.onRpos conf input.handling isize ibuf
    | .eof => s.onEof conf input.handling isize ibuf
    | .eofack => .more (s.onEofack input.handling)
    | .end => .more s.onEnd
    | .idle => .more { s with recvtimer := true }
    | .devdata | .devdack => .more s

/-- The part of a turn before a packet is handled. -/
def prepare (conf : HydraConf) (input : HydraInput) (s : HydraState) :
    Turn HydraState HydraResult :=
  (s.timers input).andThen fun s =>
    (s.transmit conf input).andThen fun s =>
      (s.receive input).andThen fun s => s.exchange input

/-- Both sides are done. -/
def isOver (s : HydraState) : Bool := s.txstate = .done && s.rxstate = .done

/-- One turn of `hydra_batch`, from the condition of its loop on. At the end the
packets that still wait are written. -/
def step (conf : HydraConf) (s : HydraState) (input : HydraInput) : Turn HydraState HydraResult :=
  if s.isOver then
    if input.flushed || s.hi.pktqueue.isEmpty then s.leave input .noerror
    else s.leave input .error
  else
    (s.prepare conf input).andThen fun s => (s.heed input.received).handle conf input

end HydraState

/-- `hydra_batch` before its loop. -/
def hydraBatch (hi : HydraInfo) (pi : Protinfo) : HydraState := { hi, pi }

end Binkleyforce
