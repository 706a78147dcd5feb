import Binkleyforce.Binkp.State

/-!
# What a BinkP session does with a received block

`binkp_doreceiveblock` handles one received block. A block that cannot be handled
while another command waits to be sent is kept, and handed over again later. A
protocol error queues an M_ERR as the last command and sets the return code; some
refusals queue the command without the code.
-/

namespace Binkleyforce

/-- What `binkp_doreceiveblock` returns: 0, 1, 2 or 3. -/
inductive ReceiveResult where
  | keep
  | accepted
  | noMore
  | abort
  | crashed
  deriving DecidableEq, Repr

/-- What the outside answers while a block is handled: the lock of each address,
the disk, the spool server, and what uninitialised memory holds. `garbage` is
what `sprintf` prints for an argument that was not passed. -/
structure ReceiveAnswers where
  high : BpfinfoHigh := {}
  lock : Faddr → Int := fun _ => 0
  rxOpen : RxOpenAnswers := {}
  rxWrite : RxWriteAnswers := {}
  rxClose : RxCloseAnswers := {}
  told : Bool := true
  garbage : Nat := 0

namespace BinkpState

/-- `PROTO_ERROR`. -/
def protoError (b : BinkpState) (msg : Bytes) : BinkpState × ReceiveResult :=
  ({ b with rc := .localaborted }.queue .err msg true, .accepted)

/-- Queue a last command without setting the return code, or keep the block while
another command waits. -/
def refuse (b : BinkpState) (message : Bpmsg) (text : Bytes) (result : ReceiveResult) :
    BinkpState × ReceiveResult :=
  if b.extracmd.isSome then (b, .keep) else (b.queue message text true, result)

/-- Queue a command about a file of the remote. -/
def reply (b : BinkpState) (message : Bpmsg) (text : Bytes) : BinkpState :=
  (b.queue message text false).touch [.store .extracmd (text.length + 2)]

/-! ## The handshake's commands -/

/-- Lock the addresses of the remote; the flag tells that one was locked. -/
def lockAddrs (lock : Faddr → Int) (b : BinkpState) : BinkpState × Bool :=
  let (_, remoteaddrs, rc) := sessionAddrsLock (fun (_ : Unit) addr => ((), lock addr)) ()
    b.remoteaddrs
  ({ b with remoteaddrs }.check (.addrsLock (rc = 0)), rc = 0)

/-- The options an answering session sends on M_ADR. -/
def optionsText (conf : BinkpConf) (b : BinkpState) : Bytes :=
  ascii "OPT MB CRYPT" ++
    if b.remoteaddrs.any fun entry =>
        nodelistCheckflag (ascii "NR") (conf.overrideFlags entry.addr) true
    then ascii " NR" else []

/-- The checks a calling session makes on M_ADR. -/
def checkCalled (conf : BinkpConf) (b : BinkpState) : BinkpState × ReceiveResult :=
  let genuine := sessionAddrsCheckGenuine b.remoteaddrs conf.nodeAddr
  let b := b.check (.checkGenuine genuine)
  if !genuine then (b.queue .err (ascii "Sorry, you are not who I need") true, .accepted)
  else
    let passwd := strnxcpy b.localData.passwd Field.passwd.size
    let result := sessionAddrsCheck conf.password b.remoteaddrs b.isProtected passwd none
    let b := { b with
      remoteData := { b.remoteData with passwd }
      remoteaddrs := result.addrs
      isProtected := result.isProtected }.check (.addrsCheck (result.rc = 0))
    if result.rc ≠ 0 then (b.queue .err (ascii "Security violation") true, .accepted)
    else ({ b with addressEstablished := true }, .accepted)

/-- Add the addresses of an M_ADR to those of the remote. -/
def addAddrs (b : BinkpState) (arg : Pointer) : BinkpState :=
  ({ b with remoteaddrs := (binkpProcessADR b.remoteaddrs arg).1 }.touch
    (binkpProcessADR b.remoteaddrs arg).2).check (.processADR (parsableAddrs arg.text ≠ []))

/-- M_ADR. -/
def receiveADR (conf : BinkpConf) (b : BinkpState) (arg : Pointer) : BinkpState × ReceiveResult :=
  if b.addressEstablished then b.protoError (ascii "remote tries to change address")
  else if b.extracmd.isSome then (b, .keep)
  else
    let b := b.addAddrs arg
    if b.remoteaddrs.isEmpty then b.refuse .bsy (ascii "No addresses was presented") .accepted
    else if b.mode = .outgoingHandshake then checkCalled conf b
    else
      let b :=
        if b.mode = .incomingHandshake then b.queue .nul (optionsText conf b) false else b
      ({ b with addressEstablished := true }, .accepted)

/-- Check the password of an M_PWD; the flag tells that it is right. The copy of
the password is as long as the block. -/
def authenticate (conf : BinkpConf) (b : BinkpState) (arg : Pointer) (blockLength : Nat) :
    BinkpState × Bool :=
  let (passwd, accesses) := copyField .passwd arg blockLength
  let b := { b with
    remoteData := { b.remoteData with passwd, challenge := b.localData.challenge } }.touch
      (accesses ++ [Access.store .challenge Field.challenge.size])
  let result := binkpAuthIncoming conf.password b.remoteaddrs b.isProtected passwd
    b.localData.challenge
  ({ b with remoteaddrs := result.addrs, isProtected := result.isProtected }.check
    (.authIncoming (result.rc = 0)), result.rc = 0)

/-- M_PWD. -/
def receivePWD (conf : BinkpConf) (answers : ReceiveAnswers) (b : BinkpState) (arg : Pointer)
    (blockLength : Nat) : BinkpState × ReceiveResult :=
  if b.mode ≠ .incomingHandshake then b.protoError (ascii "unexpected M_PWD")
  else if !b.addressEstablished then b.protoError (ascii "M_PWD before M_ADR")
  else
    let (b, passed) := b.authenticate conf arg blockLength
    if !passed then b.refuse .err (ascii "Security violation") .accepted
    else
      let (b, locked) := b.lockAddrs answers.lock
      if !locked then b.refuse .bsy (ascii "All addresses are busy") .accepted
      else ({ b with passwordReceived := true }, .noMore)

/-- M_OK. -/
def receiveOK (answers : ReceiveAnswers) (b : BinkpState) : BinkpState × ReceiveResult :=
  if b.mode ≠ .outgoingHandshake then b.protoError (ascii "unexpected M_OK")
  else
    let (b, locked) := (b.check .receivedOK).lockAddrs answers.lock
    if !locked then b.refuse .bsy (ascii "All addresses are busy") .noMore
    else ({ b with complete := true }, .noMore)

/-- M_ERR and M_BSY. -/
def receiveERR (b : BinkpState) (arg : Pointer) : BinkpState × ReceiveResult :=
  ({ b with rc := .remoteaborted }.touch [arg.read], .abort)

/-! ## The transfer's commands for the receiving side -/

/-- Queue a command that names the file being received. -/
def replyRecv (b : BinkpState) (message : Bpmsg) (offset : Bytes) : BinkpState :=
  match b.pi.receiving with
  | none => b
  | some finf => b.reply message (fileText finf.hint ++ offset)

/-- M_FILE where a file may start. -/
def startFile (conf : BinkpConf) (answers : ReceiveAnswers) (b : BinkpState) (recvfi : Bpfinfo) :
    BinkpState × ReceiveResult :=
  let (pi, result) :=
    pRxFopen conf.files answers.rxOpen ⟨recvfi.fn, recvfi.sz, recvfi.tm⟩ b.pi
  let b := { b with pi }
  match b.pi.receiving with
  | none => (b, .crashed)
  | some finf =>
    match result with
    | .accept =>
      if finf.bytesSkipped = recvfi.offs then ({ b with frs := .data }, .accepted)
      else
        ({ b.replyRecv .get (ascii " " ++ printInt (toLong finf.bytesSkipped)) with
          frs := .didget }, .accepted)
    | .refuse => ({ b.replyRecv .skip [] with frs := .skipping }, .accepted)
    | .skip => ({ b.replyRecv .got [] with frs := .skipping }, .accepted)

/-- M_FILE after an M_GET: it is the file asked for, or skipped. -/
def resumeFile (answers : ReceiveAnswers) (b : BinkpState) (recvfi : Bpfinfo) :
    BinkpState × ReceiveResult :=
  if b.pi.receiving.any fun finf =>
      pCompfinfo finf ⟨recvfi.fn, recvfi.sz, recvfi.tm⟩ &&
        decide (finf.bytesSkipped = recvfi.offs) && finf.fp.isSome
  then ({ b with frs := .data }, .accepted)
  else if b.extracmd.isSome then (b, .keep)
  else
    (b.reply .skip (fileText ⟨recvfi.fn, recvfi.sz, recvfi.tm⟩ ++ ascii " " ++
      printInt (toLong answers.garbage)), .accepted)

/-- M_FILE. -/
def receiveFILE (conf : BinkpConf) (answers : ReceiveAnswers) (b : BinkpState) (arg : Pointer) :
    BinkpState × ReceiveResult :=
  if b.mode ≠ .transfer then b.protoError (ascii "unexpected M_FILE")
  else
    let (parsed, accesses) := binkpParsfinfo arg true answers.high
    let b := b.touch accesses
    match parsed with
    | none => b.protoError (ascii "invalid M_FILE")
    | some recvfi =>
      let b := { b with batchRecvCount := b.batchRecvCount + 1 }
      match b.frs with
      | .data => b.protoError (ascii "overlapping M_FILE received")
      | .didget => b.resumeFile answers recvfi
      | .nothing | .skipping =>
        if b.extracmd.isSome then (b, .keep) else b.startFile conf answers recvfi

/-- Received data that could not be written: the file is closed and refused, or
acknowledged where the temporary file has gone. -/
def writeFailed (answers : ReceiveAnswers) (b : BinkpState) (result : RxWrite) :
    BinkpState × ReceiveResult :=
  let b := b.replyRecv (if result = .skip then .got else .skip) []
  let b := { b with
    frs := .skipping
    acknowledged := b.acknowledged ++
      if result = .skip then (b.pi.receiving.map Finfo.hint).toList else [] }
  match pRxFclose answers.rxClose b.pi with
  | none => (b, .crashed)
  | some (pi, _) => ({ b with pi }, .accepted)

/-- Received data that was written: see whether the file is complete. -/
def writeDone (answers : ReceiveAnswers) (b : BinkpState) (blockLength : Nat) :
    BinkpState × ReceiveResult :=
  let b := { b with pi := b.pi.changeRecv fun finf =>
    { finf with bytesReceived := finf.bytesReceived + blockLength } }
  match b.pi.receiving with
  | none => (b, .crashed)
  | some finf =>
    if finf.bytesReceived > finf.bytesTotal then
      let b := { b with
        frs := .skipping
        pi := b.pi.changeRecv fun finf => { finf with status := .refused } }
      match pRxFclose answers.rxClose b.pi with
      | none => (b, .crashed)
      | some (pi, _) => { b with pi }.protoError (ascii "extra data for file")
    else if finf.bytesReceived = finf.bytesTotal then
      let b := { b with
        frs := .nothing
        pi := b.pi.changeRecv fun finf => { finf with status := .success } }
      match pRxFclose answers.rxClose b.pi with
      | none => (b, .crashed)
      | some (pi, true) =>
        ({ { b with pi }.replyRecv .got [] with
          acknowledged := b.acknowledged ++ [finf.hint] }, .accepted)
      | some (pi, false) => ({ b with pi }.replyRecv .skip [], .accepted)
    else (b, .accepted)

/-- A data block. -/
def receiveData (answers : ReceiveAnswers) (b : BinkpState) (buf : Pointer) (blockLength : Nat) :
    BinkpState × ReceiveResult :=
  if blockLength = 0 then (b, .accepted)
  else
    match b.frs with
    | .nothing => b.protoError (ascii "unexpected data block")
    | .didget | .skipping => (b, .accepted)
    | .data =>
      if b.extracmd.isSome then (b, .keep)
      else
        let b := b.touch [.read blockLength buf.blockLength]
        match pRxWritefile answers.rxWrite (buf.memory.take blockLength) b.pi with
        | none => (b, .crashed)
        | some (pi, .ok) => { b with pi }.writeDone answers blockLength
        | some (pi, result) => { b with pi }.writeFailed answers result

/-! ## The transfer's commands for the sending side -/

/-- The check after a file was acknowledged: does one still wait? -/
def checkConfirmed (b : BinkpState) : BinkpState :=
  if b.pi.sentfiles.any (·.status = .waitack) then b else { b with waitingGot := false }

/-- Close the sent file that M_GOT or M_SKIP names, with the status the command
gives it. The current file is another one meanwhile, or the same. -/
def closeNamed (told : Bool) (b : BinkpState) (index : Nat) (status : Fstat) : BinkpState :=
  let pi := pTxFclose told
    ({ b.pi with send := some index }.changeSend fun finf => { finf with status })
  { b with pi := { pi with send := b.pi.send } }.checkConfirmed

/-- The loop of M_GOT and M_SKIP over the files sent. -/
def gotSkipNamed (answers : ReceiveAnswers) (b : BinkpState) (skip : Bool) (fi : FileHint) :
    BinkpState × ReceiveResult :=
  match b.pi.sentfiles.findIdx? (pCompfinfo · fi) with
  | none => b.protoError (ascii "unmatched file name in M_GOT/M_SKIP")
  | some index =>
    let sent := b.pi.sentfiles[index]?
    let there := { b with pi.send := some index }
    if skip then
      if sent.any (·.netspool) then there.protoError (ascii "cannot skip netspool")
      else (b.closeNamed answers.told index .refused, .accepted)
    else if sent.any (·.status = .waitack) then
      ({ b with gots := b.gots ++ [fi] }.closeNamed answers.told index .success, .accepted)
    else if sent.any (·.netspool) then there.protoError (ascii "cannot skip netspool")
    else ({ b with gots := b.gots ++ [fi] }.closeNamed answers.told index .skipped, .accepted)

/-- M_GOT and M_SKIP. The file being sent is aborted if it has that name. -/
def receiveGotSkip (answers : ReceiveAnswers) (b : BinkpState) (skip : Bool) (arg : Pointer) :
    BinkpState × ReceiveResult :=
  if b.mode ≠ .transfer then b.protoError (ascii "unexpected M_GOT/M_SKIP")
  else
    let (parsed, accesses) := binkpParsfinfo arg false answers.high
    let b := b.touch accesses
    match parsed with
    | none => b.protoError (ascii "error parsing M_GOT/M_SKIP")
    | some fi =>
      match b.pi.sending with
      | none => (b, .crashed)
      | some current =>
        if current.netName = fi.fn ∧ current.status ≠ .waitack then
          if current.netspool then b.protoError (ascii "cannot SKIP or REFUSE netspool")
          else
            { b with pi := pTxFclose answers.told b.pi, phase := 0 }.gotSkipNamed answers skip
              ⟨fi.fn, fi.sz, fi.tm⟩
        else b.gotSkipNamed answers skip ⟨fi.fn, fi.sz, fi.tm⟩

/-- Announce the current file at an offset and go on with its data. -/
def announceAt (b : BinkpState) (offset : Nat) : BinkpState :=
  match b.pi.sending with
  | none => b
  | some finf =>
    { b.queue .file (fileText finf.hint ++ ascii " " ++ printInt (toLong offset)) false with
      phase := 2
      continuesend := true }

/-- Go to an offset of the current file and announce it there. -/
def rewindTo (answers : ReceiveAnswers) (b : BinkpState) (offset : Nat) (msg : Bytes) :
    BinkpState × ReceiveResult :=
  match pTxRewind offset b.pi with
  | (pi, false) => { b with pi := pTxFclose answers.told pi }.protoError msg
  | (pi, true) =>
    ({ b with pi := pi.changeSend fun finf =>
        { finf with bytesSkipped := offset, bytesSent := offset } }.announceAt offset, .accepted)

/-- M_GET for a file that is not the current one. -/
def reopenAt (conf : BinkpConf) (answers : ReceiveAnswers) (b : BinkpState) (getfi : Bpfinfo) :
    BinkpState × ReceiveResult :=
  match pTxReopen conf.files.holdall ⟨getfi.fn, getfi.sz, getfi.tm⟩ b.pi with
  | (pi, false) => { b with pi }.protoError (ascii "could not satisfy M_GET")
  | (pi, true) =>
    match pTxRewind getfi.offs pi with
    | (pi, false) =>
      { b with pi := pTxFclose answers.told pi }.protoError (ascii "seek error 2")
    | (pi, true) =>
      ({ b with
          waitingGot := true
          pi := pi.changeSend fun finf =>
            { finf with bytesSkipped := getfi.offs, bytesSent := getfi.offs } }.announceAt
        getfi.offs, .accepted)

/-- M_GET. -/
def receiveGET (conf : BinkpConf) (answers : ReceiveAnswers) (b : BinkpState) (arg : Pointer) :
    BinkpState × ReceiveResult :=
  if b.mode ≠ .transfer then b.protoError (ascii "unexpected M_GET")
  else
    let (parsed, accesses) := binkpParsfinfo arg true answers.high
    let b := b.touch accesses
    match parsed with
    | none => b.protoError (ascii "invalid M_GET")
    | some getfi =>
      if b.extracmd.isSome then (b, .keep)
      else
        match b.pi.sending with
        | none => b.reopenAt conf answers getfi
        | some current =>
          let wanted := pCompfinfo current ⟨getfi.fn, getfi.sz, getfi.tm⟩
          if wanted && decide (getfi.offs = current.bytesSent) then
            (b.announceAt current.bytesSent, .accepted)
          else if current.netspool then ({ b with continuesend := true }, .accepted)
          else if wanted then b.rewindTo answers getfi.offs (ascii "seek error")
          else b.reopenAt conf answers getfi

/-! ## All blocks -/

/-- M_EOB. -/
def receiveEOB (b : BinkpState) : BinkpState × ReceiveResult :=
  if b.mode ≠ .transfer then b.protoError (ascii "unexpected M_EOB")
  else ({ b with batchreceivecomplete := b.batchreceivecomplete + 1 }, .accepted)

/-- M_NUL. -/
def receiveNUL (b : BinkpState) (arg : Pointer) : BinkpState × ReceiveResult :=
  let (remoteData, accesses) := binkpProcessNUL b.remoteData arg
  ({ b with remoteData }.touch accesses, .accepted)

/-- A command with its argument. -/
def receiveCommand (conf : BinkpConf) (answers : ReceiveAnswers) (b : BinkpState)
    (message : Bpmsg) (arg : Pointer) (blockLength : Nat) : BinkpState × ReceiveResult :=
  match message with
  | .nul => b.receiveNUL arg
  | .adr => b.receiveADR conf arg
  | .pwd => b.receivePWD conf answers arg blockLength
  | .file => b.receiveFILE conf answers arg
  | .ok => b.receiveOK answers
  | .eob => b.receiveEOB
  | .got => b.receiveGotSkip answers false arg
  | .err | .bsy => b.receiveERR arg
  | .get => b.receiveGET conf answers arg
  | .skip => b.receiveGotSkip answers true arg

/-- Put a terminator after the block. -/
def fence (memory : Bytes) (blockLength : Nat) : Bytes :=
  memory.take blockLength ++ 0 :: memory.drop (blockLength + 1)

/-- The command of a block with a pointer to its argument. -/
def blockCommand (memory : Bytes) (received blockLength : Nat) : Option (Bpmsg × Pointer) :=
  let buf : Pointer := ⟨received, 0, fence memory blockLength⟩
  (buf.memory.head?.bind Bpmsg.ofByte).map fun message => (message, buf.advance 1)

/-- `binkp_doreceiveblock`: `received` bytes of the block stand in memory, and
`blockLength` is the length it is handed over with. -/
def doreceiveblock (conf : BinkpConf) (answers : ReceiveAnswers) (b : BinkpState)
    (type : BlockType) (memory : Bytes) (received blockLength : Nat) :
    BinkpState × ReceiveResult :=
  match type with
  | .data => b.receiveData answers ⟨received, 0, memory⟩ blockLength
  | .cmd =>
    if blockLength < 1 then b.protoError (ascii "Zero length command received")
    else
      let b := b.touch [.read 1 received]
      match blockCommand memory received blockLength with
      | none => b.protoError (ascii "invalid command")
      | some (message, arg) => b.receiveCommand conf answers message arg blockLength

end BinkpState

end Binkleyforce
