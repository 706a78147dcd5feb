import Binkleyforce.Transfer.Netspool
import Binkleyforce.Transfer.Queue
import Binkleyforce.Util.Masks

/-!
# Files in transfer

The lists of files sent and received in a session and the routines all transfer
protocols open, read, write and close them with. A stream is the contents of the
file behind it with a position. What the disk answers is an input of each call,
so that nothing depends on how other programs use the directories.

A routine that would follow a null pointer has no result.
-/

namespace Binkleyforce

/-- Further bits of a file's type: from a flow file, and an answer to a file
request. -/
def typeFromflo : Nat := 0x020
def typeReqansw : Nat := 0x080

/-- `FSTAT_*`: how far the transfer of a file has come. -/
inductive Fstat where
  | process
  | waitack
  | success
  | skipped
  | refused
  deriving DecidableEq, Repr

/-- `PRC_*`: the return codes of the transfer protocols. -/
inductive Prc where
  | noerror
  | error
  | remoteaborted
  | localaborted
  | cpstoolow
  | stoptime
  deriving DecidableEq, Repr

/-- An open stream. -/
structure Stream where
  content : Bytes
  position : Nat
  deriving DecidableEq, Repr

/-- `s_finfo`: a file being sent or received. -/
structure Finfo where
  fp : Option Stream := none
  netName : Bytes
  fname : Option Bytes := none
  modTime : Int
  bytesTotal : Nat
  bytesSent : Nat := 0
  bytesReceived : Nat := 0
  bytesSkipped : Nat := 0
  eofseen : Bool := false
  status : Fstat := .process
  action : FileAction := .nothing
  type : Nat := 0
  flodsc : Int := 0
  waitack : Bool := false
  netspool : Bool := false
  deriving DecidableEq, Repr

/-- A name, size and time that select a file (`s_filehint`). -/
structure FileHint where
  fn : Bytes
  sz : Nat
  tm : Int
  deriving DecidableEq, Repr

namespace Finfo

/-- The name, size and time a file goes by on the line. -/
def hint (finf : Finfo) : FileHint := ⟨finf.netName, finf.bytesTotal, finf.modTime⟩

/-- The file has been closed with a final status. -/
def closed (finf : Finfo) : Prop :=
  finf.status = .success ∨ finf.status = .skipped ∨ finf.status = .refused

end Finfo

/-- `p_compfinfo(...) == 0`. -/
def pCompfinfo (finf : Finfo) (hint : FileHint) : Bool := decide (finf.hint = hint)

/-- Numbers and sizes of files by class (`s_traffic`, without the times). Sizes
are `size_t`. -/
structure Traffic where
  netmail : Nat × Nat := (0, 0)
  arcmail : Nat × Nat := (0, 0)
  files : Nat × Nat := (0, 0)
  freqed : Nat × Nat := (0, 0)
  deriving DecidableEq, Repr

/-- `prot_traffic_update` for the difference of two byte counts. -/
def Traffic.update (traf : Traffic) (upper lower type : Nat) : Traffic :=
  let size := (upper + 2 ^ 64 - lower % 2 ^ 64) % 2 ^ 64
  let count := fun (entry : Nat × Nat) => (entry.1 + 1, (entry.2 + size) % 2 ^ 64)
  if hasType type typeReqansw then { traf with freqed := count traf.freqed }
  else if hasType type typeNetmail then { traf with netmail := count traf.netmail }
  else if hasType type typeArcmail then { traf with arcmail := count traf.arcmail }
  else { traf with files := count traf.files }

/-- What closing a sent file does to its source. -/
inductive PostSend where
  | marksent (flodsc : Int)
  | unlink
  | truncate
  | acknowledge
  deriving DecidableEq, Repr

/-- A post-send action, with the place of the file in the list of sent files. -/
structure Disposal where
  index : Nat
  action : PostSend
  deriving DecidableEq, Repr

/-- A received file that was put in its final place. -/
structure Committed where
  file : FileHint
  content : Bytes
  deriving DecidableEq, Repr

/-- `s_protinfo` with the parts of the session state the routines use. The
current files are places in the lists. `effects` and `committed` record what was
done to source files and which received files were put in place. -/
structure Protinfo where
  lists : FileLists
  netspool : Netspool := {}
  sentfiles : List Finfo := []
  send : Option Nat := none
  rcvdfiles : List Finfo := []
  recv : Option Nat := none
  trafficSent : Traffic := {}
  trafficRcvd : Traffic := {}
  effects : List Disposal := []
  committed : List Committed := []
  deriving DecidableEq, Repr

namespace Protinfo

/-- The file `pi->send` points at. -/
def sending (pi : Protinfo) : Option Finfo := pi.send.bind (pi.sentfiles[·]?)

/-- The file `pi->recv` points at. -/
def receiving (pi : Protinfo) : Option Finfo := pi.recv.bind (pi.rcvdfiles[·]?)

/-- Change the file at a place of the list of sent files. -/
def changeSent (pi : Protinfo) (index : Nat) (change : Finfo → Finfo) : Protinfo :=
  { pi with sentfiles := pi.sentfiles.modify index change }

/-- Change the file `pi->send` points at. -/
def changeSend (pi : Protinfo) (change : Finfo → Finfo) : Protinfo :=
  match pi.send with
  | none => pi
  | some index => pi.changeSent index change

/-- Change the file `pi->recv` points at. -/
def changeRecv (pi : Protinfo) (change : Finfo → Finfo) : Protinfo :=
  match pi.recv with
  | none => pi
  | some index => { pi with rcvdfiles := pi.rcvdfiles.modify index change }

end Protinfo

/-- The configuration and conversions the routines use: the name a file is sent
under (`p_convfilename` and `recode_file_out`), the class of a file by its name
(`out_filetype`), the conversion of local time, the delay and skip masks, and the
space to keep free. `holdall` is the send option. -/
structure TransferConf where
  netName : Bytes → Nat → Bytes
  filetype : Bytes → Nat
  localtogmt : Int → Int
  holdall : Bool := false
  noRemoteaddr : Bool := false
  delayFilesRecv : Option Bytes := none
  skipFilesRecv : Option Bytes := none
  minFreeSpace : Nat := 0

/-! ## Sending -/

/-- What `stat` and `fopen` find of a file to send. -/
structure SourceFile where
  content : Bytes
  mtime : Int
  deriving DecidableEq, Repr

/-- What the disk, the spool server and the clock answer while the next file is
opened for sending. -/
structure TxOpenAnswers where
  opens : Source → Option SourceFile
  network : NetspoolReplies := {}
  now : Int := 0

/-- The modification time sent for a file, rounded up to an even number. -/
def sentModTime (gmt : Int) : Int := gmt + gmt.tmod 2

/-- The record `p_tx_fopen` makes for a local file. -/
def txLocal (conf : TransferConf) (now : Int) (entry : FileEntry) (file : SourceFile) : Finfo where
  fp := some ⟨file.content, 0⟩
  netName := conf.netName entry.fname entry.type
  fname := some entry.fname
  modTime :=
    sentModTime (conf.localtogmt (if hasType entry.type typeRequest then now else file.mtime))
  bytesTotal := file.content.length
  type := entry.type
  action := entry.action
  flodsc := entry.flodsc

/-- The record `p_tx_fopen` makes for a file of the network spool. -/
def txNetspool (conf : TransferConf) (now : Int) (spool : Netspool) : Finfo where
  netName := conf.netName spool.filename (conf.filetype spool.filename)
  modTime := now
  bytesTotal := spool.length
  type := conf.filetype spool.filename
  action := .acknowledge
  flodsc := -1
  waitack := true
  netspool := true

/-- Append a record to the list of sent files and make it the current one. -/
def Protinfo.begin (pi : Protinfo) (finf : Finfo) : Protinfo :=
  { pi with sentfiles := pi.sentfiles ++ [finf], send := some pi.sentfiles.length }

/-- `p_tx_fopen(pi, NULL)`: open the next file. The flag is the zero return. The
spool is asked only once no local file is left. -/
def pTxFopen (conf : TransferConf) (answers : TxOpenAnswers) (pi : Protinfo) : Protinfo × Bool :=
  let offer := pi.netspool.next answers.network conf.noRemoteaddr
  match pTxFopenNext conf.holdall (fun source => (answers.opens source).isSome) offer.2 pi.lists with
  | (lists, none) =>
    ({ pi with lists, netspool := if conf.holdall then pi.netspool else offer.1 }, false)
  | (lists, some .network) =>
    (Protinfo.begin { pi with lists, netspool := offer.1 }
      (txNetspool conf answers.now offer.1), true)
  | (lists, some source) =>
    match pi.lists.entry source, answers.opens source with
    | some entry, some file =>
      (Protinfo.begin { pi with lists } (txLocal conf answers.now entry file), true)
    | _, _ => ({ pi with lists }, false)

/-- `p_tx_fopen(pi, hint)`: go back to a file sent before that is still open. -/
def pTxReopen (holdall : Bool) (hint : FileHint) (pi : Protinfo) : Protinfo × Bool :=
  if holdall then (pi, false)
  else
    match pi.sentfiles.findIdx? (pCompfinfo · hint) with
    | none => (pi, false)
    | some index =>
      if (pi.sentfiles[index]?.bind (·.fp)).isNone then (pi, false)
      else
        ({ pi with send := some index }.changeSend fun finf =>
          { finf with eofseen := false, status := .process }, true)

/-- `p_tx_rewind(...) == 0`; the seek fails for an offset that is negative as a
`long`. -/
def pTxRewind (pos : Nat) (pi : Protinfo) : Protinfo × Bool :=
  match pi.sending.bind (·.fp) with
  | none => (pi, false)
  | some stream =>
    if 2 ^ 63 ≤ pos then (pi, false)
    else (pi.changeSend fun finf => { finf with fp := some { stream with position := pos } }, true)

/-- The actions `p_tx_fclose` takes for a file with its status. -/
def postSend (finf : Finfo) : List PostSend :=
  if finf.status = .success ∨ finf.status = .skipped then
    (if hasType finf.type typeFromflo then [.marksent finf.flodsc] else []) ++
      match finf.action with
      | .nothing => []
      | .unlink | .forceUnlink => [.unlink]
      | .truncate => [.truncate]
      | .acknowledge => [.acknowledge]
  else []

/-- `p_tx_fclose`. The server may be told of the end of a spool file, which it is
if that line can be sent. -/
def pTxFclose (told : Bool) (pi : Protinfo) : Protinfo :=
  match pi.send, pi.sending with
  | some index, some finf =>
    { pi with
      sentfiles := pi.sentfiles.modify index fun finf => { finf with fp := none }
      send := none
      trafficSent := pi.trafficSent.update finf.bytesSent finf.bytesSkipped finf.type
      effects := pi.effects ++ (postSend finf).map (Disposal.mk index)
      netspool :=
        if .acknowledge ∈ postSend finf then (pi.netspool.acknowledge told).1 else pi.netspool }
  | _, _ => { pi with send := none }

/-- What the disk and the spool server answer while a file is read. -/
structure TxReadAnswers where
  present : Bool := true
  readable : Bool := true
  received : Option Bytes := none
  deriving DecidableEq, Repr

/-- The results of `p_tx_readfile`: data, nothing at the end of the file; -1 for
an error; -2 for a file to be skipped. -/
inductive TxRead where
  | data (bytes : Bytes)
  | error
  | skip
  deriving DecidableEq, Repr

/-- `p_tx_readfile` for a file of the network spool. -/
def readNetspool (answers : TxReadAnswers) (buflen : Nat) (pi : Protinfo) : Protinfo × TxRead :=
  if pi.netspool.state ≠ .recvfile then
    (pi.changeSend fun finf => { finf with status := .skipped }, .skip)
  else
    let (spool, part) := pi.netspool.read answers.received buflen
    let pi := { pi with netspool := spool }.changeSend fun finf =>
      { finf with eofseen := decide (spool.length = 0) }
    match part with
    | none => (pi.changeSend fun finf => { finf with status := .skipped }, .skip)
    | some bytes => (pi, .data bytes)

/-- `p_tx_readfile` for a local file with an open stream. -/
def readLocal (answers : TxReadAnswers) (buflen : Nat) (stream : Stream) (finf : Finfo) :
    Finfo × TxRead :=
  let finf := { finf with eofseen := false }
  if finf.bytesSent ≠ stream.position then
    ({ finf with bytesReceived := stream.position }, .error)
  else if !answers.present then ({ finf with status := .skipped }, .skip)
  else
    let bytes := (stream.content.drop stream.position).take buflen
    let finf := { finf with fp := some { stream with position := stream.position + bytes.length } }
    if bytes.length < buflen then
      if answers.readable then ({ finf with eofseen := true }, .data bytes)
      else ({ finf with status := .refused }, .error)
    else (finf, .data bytes)

/-- `p_tx_readfile`: read the next part of the current file. -/
def pTxReadfile (answers : TxReadAnswers) (buflen : Nat) (pi : Protinfo) :
    Option (Protinfo × TxRead) :=
  match pi.sending with
  | none => none
  | some finf =>
    if finf.netspool then some (readNetspool answers buflen pi)
    else
      match finf.fp with
      | none => some (pi, .error)
      | some stream =>
        let (changed, result) := readLocal answers buflen stream finf
        some (pi.changeSend fun _ => changed, result)

/-! ## Receiving -/

/-- What the disk answers while a file is opened for receiving: the time and size
of a file of that name in the inbound directory; the time and contents of the
temporary file; whether the latter can be moved into the inbound directory; the
free space; whether the temporary file can be opened. -/
structure RxOpenAnswers where
  inbound : Option (Int × Nat) := none
  temporary : Option (Int × Bytes) := none
  moved : Bool := true
  freespace : Nat := 0
  opened : Bool := true
  deriving DecidableEq, Repr

/-- The returns of `p_rx_fopen`: 0, 1 and 2. -/
inductive RxOpen where
  | accept
  | refuse
  | skip
  deriving DecidableEq, Repr

/-- The checks of `p_rx_fopen` for a file that is neither netmail nor a request:
it may be there already, or have been received in part. -/
def rxExisting (conf : TransferConf) (answers : RxOpenAnswers) (finf : Finfo) :
    Finfo × Option RxOpen :=
  if answers.inbound.map (fun there => (conf.localtogmt there.1, there.2)) =
      some (finf.modTime, finf.bytesTotal) then
    ({ finf with status := .skipped }, some .skip)
  else
    match answers.temporary with
    | none => (finf, none)
    | some (mtime, content) =>
      if finf.modTime = conf.localtogmt mtime ∧ finf.bytesTotal = content.length then
        if answers.moved then ({ finf with status := .skipped }, some .skip)
        else ({ finf with status := .refused }, some .refuse)
      else if finf.modTime = conf.localtogmt mtime ∧ content.length ≤ finf.bytesTotal then
        ({ finf with bytesSkipped := content.length, bytesReceived := content.length }, none)
      else (finf, none)

/-- The stream of the temporary file: opened to append where receiving is
resumed, truncated otherwise. -/
def rxStream (answers : RxOpenAnswers) (finf : Finfo) : Stream :=
  if finf.bytesSkipped = 0 then ⟨[], 0⟩
  else
    match answers.temporary with
    | none => ⟨[], 0⟩
    | some (_, content) => ⟨content, content.length⟩

/-- The end of `p_rx_fopen`: check the free space and open the file. -/
def rxOpenStream (conf : TransferConf) (answers : RxOpenAnswers) (finf : Finfo) :
    Finfo × RxOpen :=
  let needed := (conf.minFreeSpace + finf.bytesTotal + 2 ^ 64 - finf.bytesSkipped) % 2 ^ 64
  if 0 < conf.minFreeSpace ∧ answers.freespace < needed then
    ({ finf with status := .refused }, .refuse)
  else if !answers.opened then ({ finf with status := .refused }, .refuse)
  else ({ finf with fp := some (rxStream answers finf) }, .accept)

/-- `p_rx_fopen` for a file that is not the current one: what becomes of its new
record. -/
def rxNew (conf : TransferConf) (answers : RxOpenAnswers) (hint : FileHint) : Finfo × RxOpen :=
  let finf : Finfo :=
    { netName := hint.fn, bytesTotal := hint.sz, modTime := hint.tm, type := conf.filetype hint.fn }
  if conf.delayFilesRecv.any (checkmasks · finf.netName) then
    ({ finf with status := .refused }, .refuse)
  else if conf.skipFilesRecv.any (checkmasks · finf.netName) then
    ({ finf with status := .skipped }, .skip)
  else
    let (finf, decided) :=
      if hasType finf.type typeRequest || hasType finf.type typeNetmail then (finf, none)
      else rxExisting conf answers finf
    match decided with
    | some result => (finf, result)
    | none => rxOpenStream conf answers finf

/-- The answer `p_rx_fopen` gives at once for the current file. -/
def rxDuplicate (pi : Protinfo) (hint : FileHint) : Option RxOpen :=
  match pi.receiving with
  | none => none
  | some finf =>
    if pCompfinfo finf hint then
      if finf.fp.isSome then some .accept
      else if finf.status = .skipped then some .skip
      else if finf.status = .refused then some .refuse
      else none
    else none

/-- `p_rx_fopen`. -/
def pRxFopen (conf : TransferConf) (answers : RxOpenAnswers) (hint : FileHint) (pi : Protinfo) :
    Protinfo × RxOpen :=
  match rxDuplicate pi hint with
  | some result => (pi, result)
  | none =>
    let (finf, result) := rxNew conf answers hint
    ({ pi with rcvdfiles := pi.rcvdfiles ++ [finf], recv := some pi.rcvdfiles.length }, result)

/-- What the disk answers while received data is written. -/
structure RxWriteAnswers where
  present : Bool := true
  written : Bool := true
  deriving DecidableEq, Repr

/-- The returns of `p_rx_writefile`: 0, -1 and -2. -/
inductive RxWrite where
  | ok
  | refuse
  | skip
  deriving DecidableEq, Repr

/-- `p_rx_writefile` on the current file with its open stream. -/
def writeStream (answers : RxWriteAnswers) (buf : Bytes) (stream : Stream) (finf : Finfo) :
    Finfo × RxWrite :=
  if finf.bytesReceived ≠ stream.position then
    ({ finf with bytesReceived := stream.position }, .refuse)
  else if !answers.present then ({ finf with status := .skipped }, .skip)
  else if !answers.written && !buf.isEmpty then ({ finf with status := .refused }, .refuse)
  else
    ({ finf with fp := some ⟨stream.content ++ buf, stream.position + buf.length⟩ }, .ok)

/-- `p_rx_writefile`. -/
def pRxWritefile (answers : RxWriteAnswers) (buf : Bytes) (pi : Protinfo) :
    Option (Protinfo × RxWrite) :=
  match pi.receiving with
  | none => none
  | some finf =>
    match finf.fp with
    | none => none
    | some stream =>
      let (changed, result) := writeStream answers buf stream finf
      some (pi.changeRecv fun _ => changed, result)

/-- What the disk and the request processor answer while a received file is
closed: whether `fclose` succeeds, the size `stat` reports, whether the file can
be moved, and, where file requests are processed, the answers to one. -/
structure RxCloseAnswers where
  closes : Bool := true
  size : Option Nat := none
  moved : Bool := true
  requests : Option (List FileEntry) := none
  deriving DecidableEq, Repr

/-- The last part of `p_rx_fclose`: check the size of a complete file and put it
in place, or process it as a file request. -/
def rxCommit (answers : RxCloseAnswers) (content : Bytes) (finf : Finfo) (pi : Protinfo) :
    Protinfo × Bool :=
  if finf.status ≠ .success then (pi, false)
  else if answers.size ≠ some finf.bytesTotal then
    (pi.changeRecv fun finf => { finf with status := .refused }, false)
  else
    let committed := pi.committed ++ [⟨finf.hint, content⟩]
    match (if hasType finf.type typeRequest then answers.requests else none) with
    | some entries =>
      ({ pi with committed, lists := { pi.lists with filelist := pi.lists.filelist ++ entries } },
        true)
    | none =>
      if answers.moved then ({ pi with committed }, true)
      else (pi.changeRecv fun finf => { finf with status := .refused }, false)

/-- `p_rx_fclose`; the flag is the zero return. -/
def pRxFclose (answers : RxCloseAnswers) (pi : Protinfo) : Option (Protinfo × Bool) :=
  match pi.receiving with
  | none => none
  | some finf =>
    let pi := pi.changeRecv fun finf => { finf with fp := none }
    if finf.fp.isSome && !answers.closes then some (pi, false)
    else
      let content := (finf.fp.map (·.content)).getD []
      some (rxCommit answers content finf
        { pi with
          trafficRcvd := pi.trafficRcvd.update finf.bytesReceived finf.bytesSkipped finf.type })

end Binkleyforce
