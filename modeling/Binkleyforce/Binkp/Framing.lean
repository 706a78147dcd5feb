import Binkleyforce.Binkp.Invariants
import Binkleyforce.Library.Frames

/-!
# The framing of a BinkP stream

`binkp_loop` collects a block piece by piece, as the line delivers it. Against it
stands the framing of the whole stream. Both agree in every run in which no block
is broken: the restart of a batch and the end of the session set the number of
wanted bytes without looking at what is in the buffer.
-/

namespace Binkleyforce

open Library

/-! ## What is agreed on about encryption -/

/-- What was agreed on stays: the option is not taken back, and the keys are the
same. -/
structure BinkpSysinfo.Agreed (before after : BinkpSysinfo) : Prop where
  crypt : before.options.crypt = true → after.options.crypt = true
  keysIn : after.keysIn = before.keysIn
  keysOut : after.keysOut = before.keysOut

namespace BinkpSysinfo.Agreed

theorem refl (data : BinkpSysinfo) : Agreed data data := ⟨id, rfl, rfl⟩

theorem trans {first second third : BinkpSysinfo} (left : Agreed first second)
    (right : Agreed second third) : Agreed first third :=
  ⟨fun on => right.crypt (left.crypt on), right.keysIn.trans left.keysIn,
    right.keysOut.trans left.keysOut⟩

theorem of_eq {before after : BinkpSysinfo} (same : after = before) : Agreed before after :=
  same ▸ refl before

/-- The hash types of a challenge are options of their own. -/
theorem foldl_addHash (hashes : List Bytes) (options : BinkpOptions) :
    (hashes.foldl BinkpOptions.addHash options).crypt = options.crypt := by
  induction hashes generalizing options with
  | nil => rfl
  | cons hash hashes inductionHypothesis =>
    have added : (options.addHash hash).crypt = options.crypt := by
      unfold BinkpOptions.addHash
      repeat' split
      all_goals rfl
    rw [List.foldl_cons, inductionHypothesis, added]

theorem parseOption (data : BinkpSysinfo) (p : Bytes) :
    Agreed data (binkpParseOption data p).1 := by
  unfold binkpParseOption
  dsimp only
  repeat' split
  all_goals first
    | exact ⟨id, rfl, rfl⟩
    | exact ⟨fun _ => rfl, rfl, rfl⟩
    | exact ⟨fun on => (foldl_addHash _ _).trans on, rfl, rfl⟩

theorem parseOptionList (options : List Bytes) (data : BinkpSysinfo) :
    Agreed data (binkpParseOptionList options data).1 := by
  induction options generalizing data with
  | nil => exact refl data
  | cons p rest inductionHypothesis =>
    exact (parseOption data p).trans (inductionHypothesis (binkpParseOption data p).1)

theorem processOPT (data : BinkpSysinfo) (buffer : Pointer) :
    Agreed data (binkpProcessOPT data buffer).1 := by
  have collected : ∀ opt options, Agreed data
      (binkpParseOptionList options { data with opt }).1 := fun opt options =>
    (show Agreed data { data with opt } from ⟨id, rfl, rfl⟩).trans (parseOptionList options _)
  unfold binkpProcessOPT binkpParseOptions
  dsimp only
  split
  · exact collected _ _
  · exact collected _ _

theorem processVER (data : BinkpSysinfo) (buffer : Pointer) :
    Agreed data (binkpProcessVER data buffer).1 := by
  unfold binkpProcessVER
  dsimp only
  repeat' split
  all_goals exact ⟨id, rfl, rfl⟩

theorem processTRF (data : BinkpSysinfo) (buffer : Pointer) :
    Agreed data (binkpProcessTRF data buffer) := by
  unfold binkpProcessTRF
  repeat' split
  all_goals exact ⟨id, rfl, rfl⟩

theorem processNUL (data : BinkpSysinfo) (buffer : Pointer) :
    Agreed data (binkpProcessNUL data buffer).1 := by
  unfold binkpProcessNUL
  dsimp only
  repeat' split
  all_goals first
    | exact ⟨id, rfl, rfl⟩
    | exact processOPT data _
    | exact processVER data _
    | exact processTRF data _

end BinkpSysinfo.Agreed

namespace BinkpState

open BinkpSysinfo (Agreed)

section Agreed

variable (conf : BinkpConf) (answers : ReceiveAnswers) (b : BinkpState) (arg : Pointer)

theorem receiveADR_agreed : Agreed b.remoteData (b.receiveADR conf arg).1.remoteData := by
  unfold receiveADR checkCalled protoError refuse
  dsimp only
  repeat' split
  all_goals exact ⟨id, rfl, rfl⟩

theorem receivePWD_agreed (blockLength : Nat) :
    Agreed b.remoteData (b.receivePWD conf answers arg blockLength).1.remoteData := by
  unfold receivePWD protoError refuse
  dsimp only
  repeat' split
  all_goals exact ⟨id, rfl, rfl⟩

theorem receiveOK_remoteData : (b.receiveOK answers).1.remoteData = b.remoteData := by
  unfold receiveOK protoError refuse
  dsimp only
  repeat' split
  all_goals rfl

theorem receiveFILE_remoteData :
    (b.receiveFILE conf answers arg).1.remoteData = b.remoteData := by
  unfold receiveFILE resumeFile startFile replyRecv protoError
  dsimp only
  repeat' split
  all_goals rfl

theorem receiveEOB_remoteData : b.receiveEOB.1.remoteData = b.remoteData := by
  unfold receiveEOB protoError
  split <;> rfl

theorem gotSkipNamed_remoteData (skip : Bool) (fi : FileHint) :
    (b.gotSkipNamed answers skip fi).1.remoteData = b.remoteData := by
  have closed : ∀ (b : BinkpState) told index status,
      (b.closeNamed told index status).remoteData = b.remoteData := by
    intro b told index status
    unfold closeNamed checkConfirmed
    dsimp only
    split <;> rfl
  unfold gotSkipNamed protoError
  dsimp only
  repeat' split
  all_goals first | rfl | exact closed _ _ _ _

theorem receiveGotSkip_remoteData (skip : Bool) :
    (b.receiveGotSkip answers skip arg).1.remoteData = b.remoteData := by
  unfold receiveGotSkip protoError
  dsimp only
  repeat' split
  all_goals first | rfl | exact gotSkipNamed_remoteData answers _ skip _

theorem receiveGET_remoteData :
    (b.receiveGET conf answers arg).1.remoteData = b.remoteData := by
  unfold receiveGET reopenAt rewindTo announceAt protoError
  dsimp only
  repeat' split
  all_goals rfl

theorem receiveData_remoteData (blockLength : Nat) :
    (b.receiveData answers arg blockLength).1.remoteData = b.remoteData := by
  unfold receiveData writeDone writeFailed protoError replyRecv
  dsimp only
  repeat' split
  all_goals rfl

/-- No block takes the encryption back or changes the keys. -/
theorem doreceiveblock_agreed (type : BlockType) (memory : Bytes) (received blockLength : Nat) :
    Agreed b.remoteData
      (b.doreceiveblock conf answers type memory received blockLength).1.remoteData := by
  unfold doreceiveblock
  cases type with
  | data => exact .of_eq (receiveData_remoteData answers b _ blockLength)
  | cmd =>
    dsimp only
    split
    · exact .refl _
    · split
      · exact .refl _
      · rename_i message arg found
        unfold receiveCommand
        cases message with
        | nul => exact .processNUL _ arg
        | adr => exact receiveADR_agreed conf (b.touch [.read 1 received]) arg
        | pwd => exact receivePWD_agreed conf answers (b.touch [.read 1 received]) arg blockLength
        | file => exact .of_eq (receiveFILE_remoteData conf answers _ arg)
        | ok => exact .of_eq (receiveOK_remoteData answers _)
        | eob => exact .of_eq (receiveEOB_remoteData _)
        | got => exact .of_eq (receiveGotSkip_remoteData answers _ arg false)
        | err => exact .refl _
        | bsy => exact .refl _
        | get => exact .of_eq (receiveGET_remoteData conf answers _ arg)
        | skip => exact .of_eq (receiveGotSkip_remoteData answers _ arg true)

/-- Making a block in a transfer changes nothing of it. -/
theorem getforsend_remoteData (sending : SendAnswers) (transfer : b.mode = .transfer) :
    (b.getforsend conf sending).1.remoteData = b.remoteData := by
  unfold getforsend transferForsend sendData awaitAck sendNextFile sendFile
  dsimp only
  repeat' split
  all_goals rfl

end Agreed

end BinkpState

/-! ## The frames of a stream -/

/-- The first block of a stream: a header of two bytes with the command bit and the
length, and so many bytes more. -/
def splitBlock : Bytes → Option (Block × Bytes)
  | first :: second :: rest =>
    let length := first.toNat % 128 * 256 + second.toNat
    if rest.length < length then none
    else some (⟨if first.toNat < 128 then .data else .cmd, rest.take length⟩, rest.drop length)
  | _ => none

/-- The framing of a BinkP stream. -/
def binkpFraming : Framing UInt8 Block where
  split := splitBlock
  shorter stream block rest found := by
    match stream, found with
    | first :: second :: tail, found =>
      simp only [splitBlock] at found
      split at found
      · cases found
      · injection found with found
        injection found with _ found
        subst found
        simp only [List.length_drop, List.length_cons]
        omega
  stable stream block rest more found := by
    match stream, found with
    | first :: second :: tail, found =>
      simp only [splitBlock] at found
      split at found
      · cases found
      · rename_i complete
        injection found with found
        injection found with whole left
        subst whole left
        have enough : ¬(tail ++ more).length < first.toNat % 128 * 256 + second.toNat := by
          simp only [List.length_append]
          omega
        simp only [splitBlock, List.cons_append, if_neg enough]
        rw [List.take_append_of_le_length (by omega), List.drop_append_of_le_length (by omega)]

/-- The seven low bits of a header's first byte. -/
theorem header_length (first : UInt8) : (first &&& 0x7f).toNat = first.toNat % 128 := by
  rw [UInt8.toNat_and]
  exact Nat.and_two_pow_sub_one_eq_mod first.toNat 7

/-- The high bit of a header's first byte. -/
theorem header_type (first : UInt8) : first &&& 0x80 = 0 ↔ first.toNat < 128 := by
  revert first
  exact byte_cases (by decide)

/-- A block that is not too long is recognised as it is written. -/
theorem splitBlock_encode (block : Block) (fits : block.payload.length ≤ 32767) :
    splitBlock block.encode = some (block, []) := by
  obtain ⟨type, payload⟩ := block
  replace fits : payload.length ≤ 32767 := fits
  have whole : payload.length % 65536 = payload.length := Nat.mod_eq_of_lt (by omega)
  have high : (UInt8.ofNat (payload.length / 256)).toNat = payload.length / 256 := by
    rw [UInt8.toNat_ofNat']
    omega
  have low : (UInt8.ofNat payload.length).toNat = payload.length % 256 := UInt8.toNat_ofNat'
  have command : (UInt8.ofNat (payload.length / 256) ||| 0x80).toNat =
      payload.length / 256 + 128 := by
    rw [UInt8.toNat_or, high, Nat.or_comm]
    have joined := Nat.two_pow_add_eq_or_of_lt
      (show payload.length / 256 < 2 ^ 7 by omega) 1
    exact joined.symm.trans (Nat.add_comm _ _)
  have data : (UInt8.ofNat (payload.length / 256) &&& 0x7f).toNat = payload.length / 256 := by
    rw [header_length, high]
    omega
  have length : payload.length / 256 % 128 * 256 + payload.length % 256 = payload.length := by
    omega
  cases type with
  | cmd =>
    have marked : ¬payload.length / 256 + 128 < 128 := by omega
    have again : (payload.length / 256 + 128) % 128 = payload.length / 256 % 128 := by omega
    simp only [Block.encode, splitBlock, whole, command, low, again, length,
      Nat.lt_irrefl, if_false, if_neg marked, List.take_length, List.drop_length]
  | data =>
    have plain : payload.length / 256 < 128 := by omega
    simp only [Block.encode, splitBlock, whole, data, low, length,
      Nat.lt_irrefl, if_false, if_pos plain, List.take_length, List.drop_length]

namespace BinkpLoop

/-! ## The block that is being received -/

/-- The bytes of the next block that are there. -/
def started (l : BinkpLoop) : Bytes := l.readbuf.take l.readPos

/-- The size of a block that has begun with these bytes, as far as it is known. -/
def blockSize (bytes : Bytes) : Nat :=
  if bytes.length < 2 then 2 else 2 + headerLength bytes

/-- What `want_read` and `read_pos` say about the buffer. Reading may have stopped
between two blocks. -/
structure Buffered (l : BinkpLoop) : Prop where
  inside : l.readPos ≤ l.readbuf.length
  wanted : (l.readPos = 0 ∧ l.wantRead = 0) ∨ l.readPos + l.wantRead = blockSize l.started

theorem headerLength_take (bytes : Bytes) (count : Nat) (header : 2 ≤ count) :
    headerLength (bytes.take count) = headerLength bytes := by
  obtain ⟨more, rfl⟩ : ∃ more, count = more + 2 := ⟨count - 2, by omega⟩
  match bytes with
  | [] => rfl
  | [_] => rfl
  | _ :: _ :: _ => rfl

theorem headerType_take (bytes : Bytes) (count : Nat) (header : 1 ≤ count) :
    headerType (bytes.take count) = headerType bytes := by
  obtain ⟨more, rfl⟩ : ∃ more, count = more + 1 := ⟨count - 1, by omega⟩
  cases bytes <;> rfl

theorem started_length (l : BinkpLoop) (inside : l.readPos ≤ l.readbuf.length) :
    l.started.length = l.readPos := by
  rw [started, List.length_take]
  omega

/-- The buffer's header is the one the framing reads. -/
theorem splitBlock_header (first second : UInt8) (rest : Bytes) :
    splitBlock (first :: second :: rest) =
      if rest.length < headerLength (first :: second :: rest) then none
      else some (⟨headerType (first :: second :: rest),
        rest.take (headerLength (first :: second :: rest))⟩,
        rest.drop (headerLength (first :: second :: rest))) := by
  have length : headerLength (first :: second :: rest) =
      first.toNat % 128 * 256 + second.toNat := by
    rw [← header_length]
    rfl
  have type : headerType (first :: second :: rest) =
      if first.toNat < 128 then .data else .cmd := by
    unfold headerType
    by_cases data : first.toNat < 128
    · have clear : first &&& 0x80 = 0 := (header_type first).mpr data
      simp only [List.headD_cons, clear, ne_eq, not_true_eq_false, if_false, if_pos data]
    · have set : first &&& 0x80 ≠ 0 := fun clear => data ((header_type first).mp clear)
      simp only [List.headD_cons, set, if_neg data, ne_eq, not_false_eq_true, if_true]
  rw [length, type]
  rfl

/-- A block with bytes missing is none yet. -/
theorem splitBlock_missing (bytes : Bytes) (missing : bytes.length < blockSize bytes) :
    splitBlock bytes = none := by
  match bytes with
  | [] => rfl
  | [_] => rfl
  | first :: second :: rest =>
    rw [splitBlock_header]
    unfold blockSize at missing
    simp only [List.length_cons] at missing
    rw [if_neg (by omega)] at missing
    exact if_pos (by omega)

theorem headerLength_bound (bytes : Bytes) : headerLength bytes ≤ 32767 := by
  have high : (bytes.headD 0 &&& 0x7f).toNat < 128 := by
    rw [header_length]
    exact Nat.mod_lt _ (by omega)
  have low : (bytes.getD 1 0).toNat < 256 := UInt8.toNat_lt _
  unfold headerLength
  omega

/-- A complete block is handed over as the framing reads it. -/
theorem splitBlock_started (l : BinkpLoop) (inside : l.readPos ≤ l.readbuf.length)
    (whole : l.readPos = blockSize l.started) : splitBlock l.started = some (l.block, []) := by
  have length : l.started.length = l.readPos := started_length l inside
  have atLeast : 2 ≤ l.readPos := by
    rw [whole]
    unfold blockSize
    split <;> omega
  have size : l.readPos = 2 + headerLength l.started := by
    rw [whole, blockSize, if_neg (by omega)]
  have bound : headerLength l.started ≤ 32767 := headerLength_bound l.started
  have handed : l.handedLength = headerLength l.started := by
    unfold handedLength binkpHeader
    omega
  have type : headerType l.started = headerType l.readbuf :=
    headerType_take l.readbuf l.readPos (by omega)
  have payload : l.started.drop 2 = (l.readbuf.drop binkpHeader).take l.handedLength := by
    have same : l.readPos - 2 = l.handedLength := by omega
    rw [started, List.drop_take, same]
    rfl
  unfold block
  rw [← type, ← payload]
  match bytes : l.started with
  | [] => simp [bytes] at length; omega
  | [_] => simp [bytes] at length; omega
  | first :: second :: rest =>
    rw [bytes] at length size
    simp only [List.length_cons] at length
    rw [splitBlock_header, if_neg (by omega)]
    simp only [List.drop_succ_cons, List.drop_zero]
    rw [List.take_of_length_le (by omega), List.drop_of_length_le (by omega)]

/-! ## The stream that was read -/

/-- The plain bytes behind those read from the line. They are read as they are up
to the moment at which encryption is switched on, and decrypted from then on. -/
def Deciphered (start l : BinkpLoop) (plain : Bytes) : Prop :=
  ∃ clear coded, l.input = clear ++ coded ∧
    plain = clear ++ (decryptBuf start.state.remoteData.keysIn coded).2 ∧
    (start.encrypted = true → clear = []) ∧ (l.encrypted = false → coded = [])

/-- The block that is ready, if one is. -/
def readyBlock (l : BinkpLoop) : List Block := if l.ready then [l.block] else []

/-- The bytes of a block that is not complete yet. -/
def missingBlock (l : BinkpLoop) : Bytes := if l.ready then [] else l.started

/-- What holds between the parts of a turn: the plain stream consists of the blocks
that were handed over and the bytes in the buffer. -/
structure Framed (start l : BinkpLoop) (clear coded consumed : Bytes) : Prop where
  input : l.input = clear ++ coded
  fromStart : start.encrypted = true → clear = [] ∧ l.encrypted = true
  off : l.encrypted = false → coded = []
  keysIn : l.state.mode = .transfer → l.state.remoteData.keysIn =
    (decryptBuf start.state.remoteData.keysIn coded).1
  plain : clear ++ (decryptBuf start.state.remoteData.keysIn coded).2 = consumed ++ l.started
  decoded : binkpFraming.decode consumed = (l.handed, [])
  buffered : l.Buffered

/-- The same, whatever the stream. -/
def InFrames (start l : BinkpLoop) : Prop :=
  ∃ clear coded consumed, Framed start l clear coded consumed

/-- A part of a turn that leaves the received bytes alone. -/
structure Beside (before after : BinkpLoop) : Prop where
  readbuf : after.readbuf = before.readbuf
  readPos : after.readPos = before.readPos
  wantRead : after.wantRead = before.wantRead
  input : after.input = before.input
  handed : after.handed = before.handed
  encrypted : before.encrypted = true → after.encrypted = true
  mode : after.state.mode = before.state.mode
  keysIn : before.state.mode = .transfer →
    after.state.remoteData.keysIn = before.state.remoteData.keysIn

/-- The option to encrypt is not taken back, so encryption that is on stays on. -/
theorem encrypted_of_agreed {before after : BinkpLoop}
    (mode : after.state.mode = before.state.mode)
    (agreed : before.state.mode = .transfer → before.state.remoteData.Agreed after.state.remoteData)
    (on : before.encrypted = true) : after.encrypted = true := by
  unfold encrypted at on ⊢
  simp only [Bool.and_eq_true, decide_eq_true_eq] at on ⊢
  exact ⟨mode.trans on.1, (agreed on.1).crypt on.2⟩

theorem Framed.beside {start before after : BinkpLoop} {clear coded consumed : Bytes}
    (framed : Framed start before clear coded consumed) (same : before.Beside after) :
    Framed start after clear coded consumed := by
  have started : after.started = before.started := by
    rw [BinkpLoop.started, BinkpLoop.started, same.readbuf, same.readPos]
  have wanted := framed.buffered.wanted
  exact
    { input := same.input.trans framed.input
      fromStart := fun on => ⟨(framed.fromStart on).1, same.encrypted (framed.fromStart on).2⟩
      off := fun off => framed.off (by
        cases on : before.encrypted with
        | false => rfl
        | true => exact absurd (same.encrypted on) (by simp [off]))
      keysIn := fun transfer => by
        have earlier : before.state.mode = .transfer := same.mode ▸ transfer
        rw [same.keysIn earlier, framed.keysIn earlier]
      plain := by rw [framed.plain, started]
      decoded := by rw [framed.decoded, same.handed]
      buffered :=
        { inside := by rw [same.readPos, same.readbuf]; exact framed.buffered.inside
          wanted := by rwa [same.readPos, same.wantRead, started] } }

theorem InFrames.beside {start before after : BinkpLoop} (framed : InFrames start before)
    (same : before.Beside after) : InFrames start after := by
  obtain ⟨clear, coded, consumed, framed⟩ := framed
  exact ⟨clear, coded, consumed, framed.beside same⟩

/-! ## The parts of a turn -/

/-- The turn does not restart the batch while a block is in the buffer, nor end the
session while bytes of a block are missing. -/
def Unbroken (conf : BinkpConf) (l : BinkpLoop) (input : LoopInput) : Prop :=
  match l.batching conf input with
  | none => True
  | some made => made.readPos ≠ 0 →
    made.batchRestarts = false ∧
      (made.batchComplete = true → made.state.waitingGot = false → made.wantRead = 0)

instance (conf : BinkpConf) (l : BinkpLoop) (input : LoopInput) :
    Decidable (Unbroken conf l input) := by
  unfold Unbroken
  split <;> infer_instance

variable (conf : BinkpConf) (input : LoopInput)

theorem Beside.of_state (l : BinkpLoop) (state : BinkpState) (mode : state.mode = l.state.mode)
    (agreed : l.state.mode = .transfer → l.state.remoteData.Agreed state.remoteData) :
    l.Beside (l.withState state) :=
  ⟨rfl, rfl, rfl, rfl, rfl, encrypted_of_agreed mode agreed, mode,
    fun transfer => (agreed transfer).keysIn⟩

theorem Beside.trans {first second third : BinkpLoop} (left : first.Beside second)
    (right : second.Beside third) : first.Beside third where
  readbuf := right.readbuf.trans left.readbuf
  readPos := right.readPos.trans left.readPos
  wantRead := right.wantRead.trans left.wantRead
  input := right.input.trans left.input
  handed := right.handed.trans left.handed
  encrypted on := right.encrypted (left.encrypted on)
  mode := right.mode.trans left.mode
  keysIn transfer := (right.keysIn (left.mode.trans transfer)).trans (left.keysIn transfer)

/-- Making a block leaves the received bytes alone. -/
theorem fetch_beside (l : BinkpLoop) :
    (l.fetch conf input).Ends l.Beside (fun after _ => l.Beside after) := by
  have resumed : l.Beside l.resume := by
    unfold resume
    split
    · exact ⟨rfl, rfl, rfl, rfl, rfl, id, rfl, fun _ => rfl⟩
    · exact ⟨rfl, rfl, rfl, rfl, rfl, id, rfl, fun _ => rfl⟩
  unfold fetch
  split
  · have made : l.Beside (l.resume.withState
        (l.resume.state.getforsend conf input.sending).1) :=
      resumed.trans (.of_state _ _
        (BinkpState.getforsend_follows conf l.resume.state input.sending).mode
        fun transfer => .of_eq
          (BinkpState.getforsend_remoteData conf l.resume.state input.sending transfer))
    unfold fetchNext
    generalize l.resume.withState (l.resume.state.getforsend conf input.sending).1 = after at made
    cases (l.resume.state.getforsend conf input.sending).2 with
    | block block last =>
      refine made.trans ?_
      unfold load encrypt
      dsimp only
      split <;> exact ⟨rfl, rfl, rfl, rfl, rfl, id, rfl, fun _ => rfl⟩
    | nothing => exact made
    | noMore => exact made.trans ⟨rfl, rfl, rfl, rfl, rfl, id, rfl, fun _ => rfl⟩
    | error => exact made
    | crashed => exact made
  · exact resumed

theorem await_beside (l : BinkpLoop) :
    (l.await input).Ends l.Beside (fun after _ => l.Beside after) := by
  have same : l.Beside l := ⟨rfl, rfl, rfl, rfl, rfl, id, rfl, fun _ => rfl⟩
  unfold await
  split
  · split
    · exact same
    · exact same
  · split
    · exact same
    · exact ⟨rfl, rfl, rfl, rfl, rfl, id, rfl, fun _ => rfl⟩

theorem transmit_beside (l : BinkpLoop) :
    (l.transmit input).Ends l.Beside (fun after _ => l.Beside after) := by
  have same : l.Beside l := ⟨rfl, rfl, rfl, rfl, rfl, id, rfl, fun _ => rfl⟩
  unfold transmit
  split
  · split
    · exact same
    · exact same
    · exact ⟨rfl, rfl, rfl, rfl, rfl, id, rfl, fun _ => rfl⟩
  · exact same

/-- A restart between two blocks is harmless. -/
theorem restart_framed (start l : BinkpLoop) (framed : InFrames start l) (between : l.readPos = 0) :
    InFrames start l.restart := by
  obtain ⟨clear, coded, consumed, framed⟩ := framed
  have nothing : l.restart.started = [] := by
    simp only [started, restart, between, List.take_zero]
  refine ⟨clear, coded, consumed, { framed with
    plain := ?_
    buffered := ⟨framed.buffered.inside, .inr ?_⟩ }⟩
  · rw [framed.plain, nothing, started, between, List.take_zero]
  · rw [nothing]
    simp only [restart, between, binkpHeader, blockSize]
    decide

/-- The end of the session between two blocks is harmless, and so is one while a
complete block is kept. -/
theorem finish_framed (start l : BinkpLoop) (framed : InFrames start l)
    (between : l.readPos ≠ 0 → l.batchComplete = true → l.state.waitingGot = false →
      l.wantRead = 0) : InFrames start l.finish := by
  obtain ⟨clear, coded, consumed, framed⟩ := framed
  unfold finish
  split
  · rename_i done
    simp only [Bool.and_eq_true, Bool.not_eq_true'] at done
    refine ⟨clear, coded, consumed, { framed with
      buffered := ⟨framed.buffered.inside, ?_⟩ }⟩
    by_cases empty : l.readPos = 0
    · exact .inl ⟨empty, rfl⟩
    · have complete : l.wantRead = 0 := between empty done.1 done.2
      rcases framed.buffered.wanted with ⟨none, _⟩ | wanted
      · exact absurd none empty
      · exact .inr (complete ▸ wanted)
  · exact ⟨clear, coded, consumed, framed⟩

/-- More of a block makes the buffer longer. -/
theorem buffer_started (l : BinkpLoop) (bytes : Bytes) (inside : l.readPos ≤ l.readbuf.length) :
    (l.buffer bytes).started = l.started ++ bytes ∧
      (l.buffer bytes).readPos ≤ (l.buffer bytes).readbuf.length := by
  have length : l.started.length = l.readPos := started_length l inside
  have long : (l.readbuf.take l.readPos ++ bytes).length = l.readPos + bytes.length := by
    rw [List.length_append]
    exact congrArg (· + bytes.length) length
  constructor
  · simp only [started, buffer]
    rw [List.take_append_of_le_length (Nat.le_of_eq long.symm)]
    exact List.take_of_length_le (Nat.le_of_eq long)
  · simp only [buffer]
    rw [List.length_append, long]
    omega

/-- The size of a block is known once its header is there. -/
theorem blockSize_append (bytes more : Bytes) (header : 2 ≤ bytes.length) :
    blockSize (bytes ++ more) = blockSize bytes := by
  have same : headerLength (bytes ++ more) = headerLength bytes := by
    rw [← headerLength_take (bytes ++ more) bytes.length header, List.take_left]
  unfold blockSize
  rw [same, List.length_append, if_neg (by omega), if_neg (by omega)]

/-- Bytes that are wanted keep the count of those that are missing. -/
theorem buffer_buffered (l : BinkpLoop) (bytes : Bytes) (buffered : l.Buffered)
    (wanted : bytes.length ≤ l.wantRead) (some : bytes ≠ []) : (l.buffer bytes).Buffered := by
  obtain ⟨started, inside⟩ := buffer_started l bytes buffered.inside
  have length : l.started.length = l.readPos := started_length l buffered.inside
  have positive : 0 < bytes.length := List.length_pos_iff.mpr some
  have size : l.readPos + l.wantRead = blockSize l.started := by
    rcases buffered.wanted with ⟨_, none⟩ | size
    · omega
    · exact size
  refine ⟨inside, .inr ?_⟩
  have position : (l.buffer bytes).readPos = l.readPos + bytes.length := rfl
  have want : (l.buffer bytes).wantRead =
      if l.readPos + bytes.length = 2 then headerLength (l.buffer bytes).readbuf
      else l.wantRead - bytes.length := rfl
  rw [position, want]
  by_cases header : 2 ≤ l.readPos
  · have same : blockSize (l.buffer bytes).started = blockSize l.started := by
      rw [started, blockSize_append _ _ (by omega)]
    rw [if_neg (by omega), same]
    omega
  · have two : blockSize l.started = 2 := by
      unfold blockSize
      rw [if_pos (by omega)]
    by_cases now : l.readPos + bytes.length = 2
    · have known : headerLength (l.buffer bytes).started =
          headerLength (l.buffer bytes).readbuf :=
        headerLength_take _ _ (by omega)
      rw [if_pos now, blockSize, started, List.length_append, length, if_neg (by omega),
        ← started, known]
      omega
    · rw [if_neg now, blockSize, started, List.length_append, length, if_pos (by omega)]
      omega

/-- Bytes from the line are deciphered and put into the buffer. -/
theorem store_framed (start l : BinkpLoop) (bytes : Bytes) (framed : InFrames start l)
    (wanted : bytes.length ≤ l.wantRead) (some : bytes ≠ []) : InFrames start (l.store bytes) := by
  obtain ⟨clear, coded, consumed, framed⟩ := framed
  unfold store decrypt
  cases on : l.encrypted with
  | false =>
    obtain rfl : coded = [] := framed.off on
    obtain ⟨longer, _⟩ := buffer_started l bytes framed.buffered.inside
    have buffered : (l.buffer bytes).Buffered :=
      buffer_buffered l bytes framed.buffered wanted some
    simp only [Bool.false_eq_true, if_false]
    refine ⟨clear ++ bytes, [], consumed, ?_⟩
    exact
      { input := by simp only [framed.input, List.append_nil]
        fromStart := fun switched => absurd (framed.fromStart switched).2 (by simp [on])
        off := fun _ => rfl
        keysIn := framed.keysIn
        plain := by
          have before := framed.plain
          simp only [decryptBuf, List.append_nil] at before ⊢
          rw [before, List.append_assoc]
          exact congrArg (consumed ++ ·) longer.symm
        decoded := framed.decoded
        buffered := ⟨buffered.inside, buffered.wanted⟩ }
  | true =>
    have transfer : l.state.mode = .transfer := by
      simp only [encrypted, Bool.and_eq_true, decide_eq_true_eq] at on
      exact on.1
    have keys := framed.keysIn transfer
    simp only [if_true]
    generalize given : decryptBuf l.state.remoteData.keysIn bytes = result
    have whole := decryptBuf_append start.state.remoteData.keysIn coded bytes
    rw [← keys, given] at whole
    have same : result.2.length = bytes.length := by
      rw [← given]
      exact decryptBuf_length _ _
    obtain ⟨longer, _⟩ := buffer_started l result.2 framed.buffered.inside
    have buffered : (l.buffer result.2).Buffered :=
      buffer_buffered l result.2 framed.buffered (same ▸ wanted) (by
        intro empty
        rw [empty] at same
        exact some (List.length_eq_zero_iff.mp same.symm))
    refine ⟨clear, coded ++ bytes, consumed, ?_⟩
    exact
      { input := by simp only [framed.input, List.append_assoc]
        fromStart := fun switched => framed.fromStart switched
        off := fun off => absurd on (by
          have still : l.encrypted = false := off
          simp [still])
        keysIn := fun _ => by rw [whole]; rfl
        plain := by
          rw [whole]
          simp only
          rw [← List.append_assoc, framed.plain, List.append_assoc]
          exact congrArg (consumed ++ ·) longer.symm
        decoded := framed.decoded
        buffered := ⟨buffered.inside, buffered.wanted⟩ }

theorem receive_framed (start l : BinkpLoop) (framed : InFrames start l) :
    (l.receive input).Ends (InFrames start) (fun after _ => InFrames start after) := by
  unfold receive
  split
  · rename_i wanted
    simp only [ne_eq, Bool.and_eq_true, decide_not, Bool.not_eq_true',
      decide_eq_false_iff_not] at wanted
    split
    · exact framed
    · exact framed
    · rename_i bytes some given
      refine store_framed start l _ framed ?_ ?_
      · rw [List.length_take]
        exact Nat.min_le_left _ _
      · cases bytes with
        | nil => exact absurd rfl some
        | cons first rest =>
          obtain ⟨more, count⟩ : ∃ more, l.wantRead = more + 1 := ⟨l.wantRead - 1, by omega⟩
          rw [count]
          exact nofun
  · exact framed

/-- A block that is handed over is the next one of the stream. -/
theorem handed_framed (start l after : BinkpLoop) (framed : InFrames start l)
    (ready : l.ready = true) (same : l.Beside after) (wantRead : Nat)
    (next : wantRead = 0 ∨ wantRead = binkpHeader) :
    InFrames start { after with handed := after.handed ++ [l.block], readPos := 0, wantRead } := by
  obtain ⟨clear, coded, consumed, framed⟩ := framed
  have passed : Framed start after clear coded consumed := framed.beside same
  simp only [BinkpLoop.ready, Bool.and_eq_true, decide_eq_true_eq, ne_eq, decide_not,
    Bool.not_eq_true', decide_eq_false_iff_not] at ready
  have whole : l.readPos = blockSize l.started := by
    rcases framed.buffered.wanted with ⟨none, _⟩ | wanted
    · exact absurd none ready.2
    · omega
  have split : splitBlock l.started = some (l.block, []) :=
    splitBlock_started l framed.buffered.inside whole
  have block : binkpFraming.decode l.started = ([l.block], []) :=
    binkpFraming.decode_some l.started [] l.block split
  have started : after.started = l.started := by
    rw [BinkpLoop.started, BinkpLoop.started, same.readbuf, same.readPos]
  refine ⟨clear, coded, consumed ++ l.started, { passed with
    plain := ?_
    decoded := ?_
    buffered := ⟨Nat.zero_le _, ?_⟩ }⟩
  · rw [passed.plain, started]
    simp [BinkpLoop.started]
  · rw [Framing.decode_append_complete _ _ _ _ framed.decoded, block, same.handed]
  · rcases next with rfl | rfl
    · exact .inl ⟨rfl, rfl⟩
    · refine .inr ?_
      simp [BinkpLoop.started, blockSize, binkpHeader]

theorem handle_framed (start l : BinkpLoop) (framed : InFrames start l) :
    (l.handle conf input).Ends (InFrames start) (fun after _ => InFrames start after) := by
  unfold handle
  split
  · rename_i ready
    split
    · exact framed
    · have same : l.Beside (l.withState (l.hand conf input).1) :=
        .of_state l _ (hand_follows conf input l).mode
          fun _ => BinkpState.doreceiveblock_agreed conf input.receiving l.state _ _ _ _
      cases (l.hand conf input).2 with
      | accepted => exact handed_framed start l _ framed ready same binkpHeader (.inr rfl)
      | noMore => exact handed_framed start l _ framed ready same 0 (.inl rfl)
      | keep => exact framed.beside same
      | abort =>
        exact framed.beside (same.trans ⟨rfl, rfl, rfl, rfl, rfl, id, rfl, fun _ => rfl⟩)
      | crashed => exact framed.beside same
  · exact framed

/-- A turn that breaks no block keeps the frames. -/
theorem step_framed (start l : BinkpLoop) (framed : InFrames start l)
    (unbroken : Unbroken conf l input) :
    (step conf l input).Ends (InFrames start) (fun after _ => InFrames start after) := by
  have carried : ∀ {turn : Turn BinkpLoop LoopResult} {l : BinkpLoop}, InFrames start l →
      turn.Ends l.Beside (fun after _ => l.Beside after) →
      turn.Ends (InFrames start) (fun after _ => InFrames start after) := by
    intro turn l framed ends
    cases turn with
    | more after => exact framed.beside ends
    | halt after result => exact framed.beside ends
  refine step_stages _ l (fun _ => framed) (carried framed (fetch_beside conf input l)) ?_ ?_
    (fun l framed => carried framed (await_beside input l)) (receive_framed input start)
    (fun middle framed _ => handle_framed conf input start middle framed)
    (fun l framed => carried framed (transmit_beside input l))
  · intro made here framed again
    unfold Unbroken at unbroken
    simp only [here] at unbroken
    refine restart_framed start made framed ?_
    by_contra half
    rw [(unbroken half).1] at again
    cases again
  · intro made here framed again
    unfold Unbroken at unbroken
    simp only [here] at unbroken
    exact finish_framed start made framed fun half => (unbroken half).2

/-- What the frames in the buffer decode to. -/
theorem decoded_framed (start l : BinkpLoop) (framed : InFrames start l) :
    ∃ plain, Deciphered start l plain ∧
      binkpFraming.decode plain = (l.handed ++ l.readyBlock, l.missingBlock) := by
  obtain ⟨clear, coded, consumed, framed⟩ := framed
  refine ⟨_, ⟨clear, coded, framed.input, rfl, fun on => (framed.fromStart on).1, framed.off⟩, ?_⟩
  rw [framed.plain, Framing.decode_append_complete _ _ _ _ framed.decoded]
  have length : l.started.length = l.readPos := started_length l framed.buffered.inside
  by_cases ready : l.ready = true
  · have split : splitBlock l.started = some (l.block, []) := by
      refine splitBlock_started l framed.buffered.inside ?_
      simp only [BinkpLoop.ready, Bool.and_eq_true, decide_eq_true_eq, ne_eq, decide_not,
        Bool.not_eq_true', decide_eq_false_iff_not] at ready
      rcases framed.buffered.wanted with ⟨none, _⟩ | wanted
      · exact absurd none ready.2
      · omega
    rw [binkpFraming.decode_some l.started [] l.block split]
    simp only [readyBlock, missingBlock, ready, if_true, Framing.decode_nil]
  · have split : splitBlock l.started = none := by
      refine splitBlock_missing l.started ?_
      simp only [BinkpLoop.ready, Bool.and_eq_true, decide_eq_true_eq, ne_eq, decide_not,
        Bool.not_eq_true', decide_eq_false_iff_not, not_and, Decidable.not_not] at ready
      rcases framed.buffered.wanted with ⟨none, _⟩ | wanted
      · rw [length, none, blockSize]
        split <;> omega
      · by_cases missing : l.wantRead = 0
        · have empty : l.readPos = 0 := ready missing
          have two : 2 ≤ blockSize l.started := by
            unfold blockSize
            split <;> omega
          omega
        · omega
    rw [binkpFraming.decode_none l.started split]
    simp only [readyBlock, missingBlock, ready, Bool.false_eq_true, if_false]

/-- A session that has just begun has read nothing. -/
theorem start_framed (b : BinkpState) : InFrames (.start b) (.start b) := by
  refine ⟨[], [], [], ?_⟩
  exact
    { input := rfl
      fromStart := fun on => ⟨rfl, on⟩
      off := fun _ => rfl
      keysIn := fun _ => rfl
      plain := rfl
      decoded := rfl
      buffered := ⟨Nat.zero_le _, .inr rfl⟩ }

/-- Whatever the line delivers and in which pieces, the blocks handed to the session
are the frames of the stream, as long as no block is broken; and a block that is
written as frame of a stream is read as the same block. -/
theorem stream_framed (b : BinkpState) (inputs : List LoopInput)
    (unbroken : Along (Unbroken conf) (step conf) (.start b) inputs) :
    (run (step conf) (.start b) inputs).Leaves (fun l =>
        ∃ plain, Deciphered (.start b) l plain ∧
          binkpFraming.decode plain = (l.handed ++ l.readyBlock, l.missingBlock)) ∧
      ∀ (block : Block) (rest : Bytes), block.payload.length ≤ 32767 →
        binkpFraming.decode (block.encode ++ rest) =
          (block :: (binkpFraming.decode rest).1, (binkpFraming.decode rest).2) := by
  constructor
  · have framed := run_invariant (InFrames (.start b)) (fun after _ => InFrames (.start b) after)
      (fun before input after kept allowed taken => by
        have ends := step_framed conf input (.start b) before kept allowed
        rwa [taken] at ends)
      (fun before input after result kept allowed taken => by
        have ends := step_framed conf input (.start b) before kept allowed
        rwa [taken] at ends)
      (.start b) (start_framed b) inputs unbroken
    cases ended : run (step conf) (.start b) inputs with
    | more final =>
      rw [ended] at framed
      exact decoded_framed _ final framed
    | halt final result =>
      rw [ended] at framed
      exact decoded_framed _ final framed
  · intro block rest fits
    exact binkpFraming.decode_encoded block.encode block rest (splitBlock_encode block fits)

/-- Without encryption the plain stream is what was read. -/
theorem deciphered_clear (start l : BinkpLoop) (plain : Bytes)
    (deciphered : Deciphered start l plain) (clear : l.encrypted = false) : plain = l.input := by
  obtain ⟨first, coded, read, rfl, _, off⟩ := deciphered
  obtain rfl := off clear
  rw [read]
  simp only [decryptBuf]

end BinkpLoop

/-- A file to send in a session with several batches. -/
def sendsOneFile : BinkpLoop :=
  binkpTransfer {} { options := { mb := true } }
    { lists :=
        { queue := [⟨ascii "a", 3, 0, 0, .nothing, .willsend, -1⟩]
          filelist := []
          reqsOnly := false } }
    true false []

/-- A turn in which the line brings these bytes, and takes any or not. -/
def lineTurn (received : Bytes) (takes : Bool) : LoopInput :=
  { LoopInput.ofLine (.ofContent (ascii "abc")) received with
    select := some (!received.isEmpty, takes) }

/-- A session in which the batch restarts between two blocks. -/
def restartsBetween : List LoopInput :=
  [lineTurn [128, 1] true, lineTurn [5] true, lineTurn [] true, lineTurn [128, 6] true,
    lineTurn (6 :: ascii "a 3 0") true]

/-- Then the acknowledgement that follows is read as it was sent. -/
theorem restart_between_blocks_framed :
    (run (BinkpLoop.step plainConf) sendsOneFile restartsBetween).Leaves (fun l =>
      ∃ plain, BinkpLoop.Deciphered sendsOneFile l plain ∧
        binkpFraming.decode plain = (l.handed ++ l.readyBlock, l.missingBlock)) :=
  (BinkpLoop.stream_framed plainConf
    { mode := .transfer
      pi :=
        { lists :=
            { queue := [⟨ascii "a", 3, 0, 0, .nothing, .willsend, -1⟩]
              filelist := []
              reqsOnly := false } }
      remoteData := { options := { mb := true } }
      addressEstablished := true }
    restartsBetween (by decide)).1

/-- A session in which the batch restarts when the first byte of the
acknowledgement has been read. -/
def restartsWithin : List LoopInput :=
  [lineTurn [128, 1] true, lineTurn [5] false, lineTurn [128] true, lineTurn [] true,
    lineTurn [6, 6] true]

/-- Then the header is taken to be complete a byte too late, and the command is
handed over without its argument. -/
theorem restart_within_block_breaks :
    ¬ (run (BinkpLoop.step plainConf) sendsOneFile restartsWithin).Leaves (fun l =>
      ∃ plain, BinkpLoop.Deciphered sendsOneFile l plain ∧
        binkpFraming.decode plain = (l.handed ++ l.readyBlock, l.missingBlock)) := by
  have broken : (run (BinkpLoop.step plainConf) sendsOneFile restartsWithin).Leaves (fun l =>
      l.encrypted = false ∧
        binkpFraming.decode l.input ≠ (l.handed ++ l.readyBlock, l.missingBlock)) := by decide
  intro framed
  cases ended : run (BinkpLoop.step plainConf) sendsOneFile restartsWithin with
  | more final =>
    rw [ended] at broken framed
    obtain ⟨plain, deciphered, decoded⟩ := framed
    rw [BinkpLoop.deciphered_clear _ _ _ deciphered broken.1] at decoded
    exact broken.2 decoded
  | halt final result =>
    rw [ended] at broken framed
    obtain ⟨plain, deciphered, decoded⟩ := framed
    rw [BinkpLoop.deciphered_clear _ _ _ deciphered broken.1] at decoded
    exact broken.2 decoded

end Binkleyforce
