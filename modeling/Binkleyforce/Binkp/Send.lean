import Binkleyforce.Binkp.State

/-!
# What a BinkP session sends next

`binkp_getforsend` is called whenever nothing is left to be written. A command
queued by the receiving side goes first; otherwise the phase decides. The phases
of the source fall through into each other, which is here a call of the next
phase's function.
-/

namespace Binkleyforce

/-- What `binkp_getforsend` returns: 0, 1 or 3 with a block, 2, or -1. A block may
be the last one for now. -/
inductive SendResult where
  | nothing
  | block (block : Block) (last : Bool)
  | noMore
  | error
  | crashed
  deriving DecidableEq, Repr

/-- What the outside answers while the next block is made. -/
structure SendAnswers where
  opening : TxOpenAnswers
  reading : TxReadAnswers := {}

namespace BinkpState

/-- A command block, with nothing said about the end. -/
def command (command : Bpmsg) (text : Bytes) : SendResult :=
  .block (commandBlock command text) false

/-! ## The handshake -/

/-- An address as M_ADR has it. -/
def addressText (addr : Faddr) : Bytes :=
  printInt addr.zone ++ ascii ":" ++ printInt addr.net ++ ascii "/" ++ printInt addr.node ++
    (if addr.point = 0 then [] else ascii "." ++ printInt addr.point) ++ ascii "@" ++ addr.domain

/-- The `strcpy`, `sprintf` and `sprintf` sequence that joins the addresses. -/
def addressesText : List Faddr → Bytes
  | [] => []
  | [addr] => addressText addr
  | addr :: rest => addressText addr ++ ascii " " ++ addressesText rest

/-- Phase 4 of a handshake: an answering session is complete, and its keys are
made from the passwords of the remote's addresses. -/
def handshakeEnd (conf : BinkpConf) (b : BinkpState) : BinkpState × SendResult :=
  if b.mode = .incomingHandshake then
    let remoteData := b.remoteaddrs.foldl (fun remote entry =>
      match sessionGetPassword conf.password entry.addr passwordBufferSize with
      | none => remote
      | some pbuf =>
        { remote with
          keysIn := initKeys pbuf
          keysOut := updateKeysText (initKeys (ascii "-")) pbuf }) b.remoteData
    ({ b with complete := true, remoteData }, .noMore)
  else (b, .noMore)

/-- Phase 3 of a handshake: confirm the password of the remote, or send ours. The
test for an empty password compares the address of the field, which is not null. -/
def sendPassword (b : BinkpState) : BinkpState × SendResult :=
  if b.mode = .incomingHandshake then
    if b.passwordReceived then ({ b with phase := b.phase + 1 }, command .ok [])
    else (b, .nothing)
  else if !b.addressEstablished then (b, .nothing)
  else if b.remoteData.options.md5 then
    if b.remoteData.challenge = [] then (b, .nothing)
    else
      ({ b with phase := b.phase + 1 },
        command .pwd (ascii "CRAM-MD5-" ++
          stringBinToHex (md5CramGet b.localData.passwd b.remoteData.challenge)))
  else ({ b with phase := b.phase + 1 }, command .pwd b.localData.passwd)

/-- Phase 2 of a handshake: send our addresses. -/
def sendAddress (conf : BinkpConf) (b : BinkpState) : BinkpState × SendResult :=
  ({ b with phase := b.phase + 1 }, command .adr (addressesText conf.localaddrs))

/-- The version line. -/
def versionText (data : BinkpSysinfo) : Bytes :=
  ascii "VER " ++ data.progname ++ ascii " " ++ data.protname ++ ascii "/" ++
    printInt data.majorver ++ ascii "." ++ printInt data.minorver

/-- Phase 1 of a handshake: send the system information, one line at a time. A
calling session sends its options as well. -/
def sendSysinfo (conf : BinkpConf) (b : BinkpState) : BinkpState × SendResult :=
  let sub := b.subphase
  let b := { b with subphase := b.subphase + 1 }
  match sub with
  | 0 => (b, command .nul (ascii "SYS " ++ b.localData.systname))
  | 1 => (b, command .nul (ascii "ZYZ " ++ b.localData.sysop))
  | 2 => (b, command .nul (ascii "LOC " ++ b.localData.location))
  | 3 => (b, command .nul (ascii "PHN " ++ b.localData.phone))
  | 4 => (b, command .nul (ascii "NDL " ++ b.localData.flags))
  | 5 => (b, command .nul (ascii "TIME " ++ b.localData.timestr))
  | 6 => (b, command .nul (versionText b.localData))
  | _ =>
    if sub = 7 ∧ b.mode = .outgoingHandshake then
      (b, command .nul (ascii "OPT MB CRYPT" ++
        if nodelistCheckflag (ascii "NR") conf.nodeFlags true then [] else ascii " NR"))
    else sendAddress conf { b with phase := b.phase + 1, subphase := 0 }

/-- Phase 0 of a handshake: an answering session sends its challenge. -/
def sendChallenge (conf : BinkpConf) (b : BinkpState) : BinkpState × SendResult :=
  let b := { b with phase := b.phase + 1, subphase := 0 }
  if b.mode = .incomingHandshake ∧ b.localData.challenge ≠ [] then
    (b, command .nul (ascii "OPT CRAM-MD5-" ++ stringBinToHex b.localData.challenge))
  else sendSysinfo conf b

/-- A phase the source has no case for. -/
def unrecognized (b : BinkpState) : BinkpState × SendResult :=
  ({ b with complete := true }, .noMore)

/-- The handshake's part of `binkp_getforsend`. -/
def handshakeForsend (conf : BinkpConf) (b : BinkpState) : BinkpState × SendResult :=
  match b.phase with
  | 0 => sendChallenge conf b
  | 1 => sendSysinfo conf b
  | 2 => sendAddress conf b
  | 3 => sendPassword b
  | 4 => handshakeEnd conf b
  | _ => unrecognized b

/-! ## The transfer -/

/-- Phase 4 of a transfer: the end of the batch. -/
def sendEOB (b : BinkpState) : BinkpState × SendResult :=
  ({ b with batchsendcomplete := b.batchsendcomplete + 1, phase := b.phase + 1 }, command .eob [])

/-- Phase 1 of a transfer: announce the current file. -/
def sendFile (b : BinkpState) : BinkpState × SendResult :=
  match b.pi.sending with
  | none => (b, .crashed)
  | some finf => ({ b with phase := b.phase + 1 }, command .file (fileText finf.hint ++ ascii " 0"))

/-- Phase 0 of a transfer: take the next file of the queue. In non-reliable mode
it is announced without an offset, and nothing follows until it is asked for. -/
def sendNextFile (conf : BinkpConf) (answers : SendAnswers) (b : BinkpState) :
    BinkpState × SendResult :=
  match pTxFopen { conf.files with noRemoteaddr := b.remoteaddrs.isEmpty } answers.opening b.pi with
  | (pi, false) => sendEOB { b with pi, phase := 4 }
  | (pi, true) =>
    let b := { b with pi, waitingGot := true, batchSendCount := b.batchSendCount + 1 }
    if b.nr then
      match b.pi.sending with
      | none => (b, .crashed)
      | some finf => (b, .block (commandBlock .file (fileText finf.hint ++ ascii " -1")) true)
    else sendFile { b with phase := b.phase + 1 }

/-- Was the current file acknowledged, under its name, size and time? -/
def currentAcknowledged (b : BinkpState) (finf : Finfo) : Bool :=
  b.pi.sentfiles.any fun sent => pCompfinfo sent finf.hint && decide (sent.status = .success)

/-- Phase 3 of a transfer: wait for the acknowledgement of a spool file, then go
on with the next file. -/
def awaitAck (conf : BinkpConf) (answers : SendAnswers) (b : BinkpState) :
    BinkpState × SendResult :=
  match b.pi.sending with
  | none => (b, .crashed)
  | some finf =>
    if finf.waitack && !currentAcknowledged b finf then (b, .nothing)
    else sendNextFile conf answers { b with phase := 0 }

/-- The size of the data blocks sent. -/
def dataBlockSize : Nat := 4096

/-- Phase 2 of a transfer: send the next data of the current file; at its end it
waits for acknowledgement. -/
def sendData (conf : BinkpConf) (answers : SendAnswers) (b : BinkpState) :
    BinkpState × SendResult :=
  match pTxReadfile answers.reading dataBlockSize b.pi with
  | none => (b, .crashed)
  | some (pi, .data []) =>
    awaitAck conf answers
      { b with
        pi := pi.changeSend fun finf => { finf with status := .waitack }
        phase := b.phase + 1 }
  | some (pi, .data bytes) =>
    ({ b with pi := pi.changeSend fun finf =>
        { finf with bytesSent := finf.bytesSent + bytes.length } },
      .block ⟨.data, bytes⟩ false)
  | some (pi, .error) => ({ b with pi }, .error)
  | some (pi, .skip) => ({ b with pi }, .error)

/-- The transfer's part of `binkp_getforsend`. -/
def transferForsend (conf : BinkpConf) (answers : SendAnswers) (b : BinkpState) :
    BinkpState × SendResult :=
  match b.phase with
  | 0 => sendNextFile conf answers b
  | 1 => sendFile b
  | 2 => sendData conf answers b
  | 3 => awaitAck conf answers b
  | 4 => sendEOB b
  | 5 => (b, .noMore)
  | _ => unrecognized b

/-- `binkp_getforsend`. -/
def getforsend (conf : BinkpConf) (answers : SendAnswers) (b : BinkpState) :
    BinkpState × SendResult :=
  match b.extracmd with
  | some (message, text) =>
    let b := { b with extracmd := none }
    (if b.extraislast then { b with phase := 100, complete := true } else b, command message text)
  | none =>
    if b.mode = .transfer then transferForsend conf answers b else handshakeForsend conf b

end BinkpState

end Binkleyforce
