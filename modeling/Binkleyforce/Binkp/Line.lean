import Binkleyforce.Binkp.Challenge
import Binkleyforce.Library.Peers

/-!
# Two sessions on one line

What one session has written is what the other one reads: in order, without loss, and in
whatever pieces. Once both encrypt with the same keys, or neither does, the blocks handed
over at one end are those that were made at the other.
-/

namespace Binkleyforce

open Library

/-- A turn of a session at its end of the line: how many more bytes have arrived at most,
and what everything else answers. -/
structure LineTurn where
  arrives : Nat
  input : LoopInput

/-- The turn where these bytes are on the line. It can only read what is there. -/
def LineTurn.over (turn : LineTurn) (waiting : Bytes) : LoopInput :=
  { turn.input with
    select := turn.input.select.map fun ready =>
      (ready.1 && !(waiting.take turn.arrives).isEmpty, ready.2)
    read := some (waiting.take turn.arrives) }

/-- The command of a block, if it is one. -/
def Block.command (block : Block) : Option Bpmsg :=
  match block.type with
  | .data => none
  | .cmd => Bpmsg.ofByte (block.payload.headD 0)

@[simp] theorem command_commandBlock (message : Bpmsg) (text : Bytes) :
    (commandBlock message text).command = some message := by
  cases message <;> rfl

/-- The block is one of a transfer: data, or a command other than M_NUL. -/
def Block.Transfers (block : Block) : Prop :=
  block.type = .data ∨ ∃ message text, message ≠ .nul ∧ block = commandBlock message text

namespace BinkpLoop

/-- The input of a turn that finds the other session as it is. -/
def hears (l other : BinkpLoop) (turn : LineTurn) : LoopInput :=
  turn.over (other.output.drop l.input.length)

/-- A turn of a session at its end of the line. A session that has come to its end stays
there. -/
def onLine (conf : BinkpConf) (l other : BinkpLoop) (turn : LineTurn) :
    Turn BinkpLoop LoopResult :=
  if l.isOver then .more l else l.step conf (l.hears other turn)

/-- Each session decrypts what the other one encrypts. -/
structure Linked (mine other : BinkpLoop) : Prop where
  encrypted : mine.encrypted = other.encrypted
  keysIn : mine.encrypted = true →
    mine.state.remoteData.keysIn = other.state.remoteData.keysOut
  keysOut : mine.encrypted = true →
    mine.state.remoteData.keysOut = other.state.remoteData.keysIn

instance (mine other : BinkpLoop) : Decidable (Linked mine other) :=
  decidable_of_iff (mine.encrypted = other.encrypted ∧
      (mine.encrypted = true → mine.state.remoteData.keysIn = other.state.remoteData.keysOut) ∧
      (mine.encrypted = true → mine.state.remoteData.keysOut = other.state.remoteData.keysIn))
    ⟨fun ⟨encrypted, keysIn, keysOut⟩ => ⟨encrypted, keysIn, keysOut⟩,
      fun linked => ⟨linked.encrypted, linked.keysIn, linked.keysOut⟩⟩

theorem Linked.symm {mine other : BinkpLoop} (linked : Linked mine other) : Linked other mine where
  encrypted := linked.encrypted.symm
  keysIn on := (linked.keysOut (linked.encrypted.trans on)).symm
  keysOut on := (linked.keysIn (linked.encrypted.trans on)).symm

/-- The block that is made in the turn has a length its header can say. -/
def Fits (conf : BinkpConf) (l : BinkpLoop) (input : LoopInput) : Prop :=
  ∀ made ∈ l.batching conf input, ∀ block ∈ made.produced.drop l.produced.length,
    block.payload.length ≤ 32767

instance (conf : BinkpConf) (l : BinkpLoop) (input : LoopInput) : Decidable (Fits conf l input) := by
  unfold Fits
  infer_instance

/-! ## From one end to the other -/

/-- Blocks that fit are decoded as they were encoded. -/
theorem decode_blocks (blocks : List Block) (fits : ∀ block ∈ blocks, block.payload.length ≤ 32767) :
    binkpFraming.decode (blocks.flatMap Block.encode) = (blocks, []) := by
  induction blocks with
  | nil => rfl
  | cons block blocks inductionHypothesis =>
    have first := splitBlock_encode block (fits block List.mem_cons_self)
    rw [List.flatMap_cons, binkpFraming.decode_encoded block.encode block _ first,
      inductionHypothesis fun other member => fits other (List.mem_cons_of_mem _ member)]

/-- What is decrypted of a first part of an encrypted stream is a first part of the
stream. -/
theorem decrypt_prefix (keys : CryptKeys) (read bytes : Bytes)
    (part : read <+: (encryptBuf keys bytes).2) : (decryptBuf keys read).2 <+: bytes := by
  obtain ⟨rest, whole⟩ := part
  have plain := decryptBuf_encryptBuf keys bytes
  rw [← whole, decryptBuf_append] at plain
  exact ⟨_, congrArg Prod.snd plain⟩

/-- The blocks handed over at one end, with the one that is ready, are the first of those
that were made at the other. -/
theorem handed_produced (start l ends other : BinkpLoop) (linked : Linked start ends)
    (framed : InFrames start l) (clear : start.encrypted = false → l.encrypted = false)
    (sent : Sent ends other) (silent : ends.encrypted = false → other.encrypted = false)
    (fits : ∀ block ∈ other.produced, block.payload.length ≤ 32767)
    (reads : l.input <+: other.output) : l.handed ++ l.readyBlock <+: other.produced := by
  obtain ⟨plain, ⟨early, coded, read, deciphers, fromStart, off⟩, decoded⟩ :=
    decoded_framed start l framed
  obtain ⟨first, later, written⟩ := sent
  have stream : l.input <+: first.flatMap Block.encode ++
      (encryptBuf ends.state.remoteData.keysOut (later.flatMap Block.encode)).2 :=
    written.stream ▸ reads.trans (List.prefix_append _ _)
  have part : plain <+: other.produced.flatMap Block.encode := by
    cases on : start.encrypted with
    | true =>
      have begun := fromStart on
      have early_first := (written.fromStart (linked.encrypted ▸ on)).1
      subst begun early_first
      rw [read, List.nil_append, List.flatMap_nil, List.nil_append] at stream
      rw [deciphers, List.nil_append, written.produced, List.nil_append, linked.keysIn on]
      exact decrypt_prefix _ _ _ stream
    | false =>
      have none := off (clear on)
      have none_later := written.off (silent (linked.encrypted ▸ on))
      subst none none_later
      rw [List.flatMap_nil] at stream
      rw [deciphers, written.produced, List.append_nil]
      simpa [read, decryptBuf, encryptBuf] using stream
  obtain ⟨rest, whole⟩ := part
  have all := decode_blocks other.produced fits
  rw [← whole, binkpFraming.decode_append, decoded] at all
  exact ⟨_, congrArg Prod.fst all⟩

end BinkpLoop

namespace BinkpState

/-! ## What a transfer says -/

section Said

variable (conf : BinkpConf) (answers : ReceiveAnswers) (b : BinkpState) (arg : Pointer)

/-- A command other than M_NUL changes none of the remote's options and queues no M_NUL
in a transfer. -/
structure Reserved (b after : BinkpState) : Prop where
  options : after.remoteData.options = b.remoteData.options
  slot : ∀ text, after.extracmd = some (.nul, text) → b.extracmd = some (.nul, text)

theorem slot_other {message : Bpmsg} {text : Bytes} {goal : Bytes → Prop}
    (other : message ≠ .nul) : ∀ line, some (message, text) = some (.nul, line) → goal line :=
  fun _ same =>
  absurd (congrArg Prod.fst (Option.some.inj same)) other

theorem receiveGotSkip_reserved (skip : Bool) : Reserved b (b.receiveGotSkip answers skip arg).1 := by
  have named : ∀ (b : BinkpState) fi, Reserved b (b.gotSkipNamed answers skip fi).1 := by
    intro b fi
    refine ⟨congrArg _ (gotSkipNamed_remoteData answers b skip fi), ?_⟩
    unfold gotSkipNamed protoError
    dsimp only [queue]
    repeat' split
    all_goals first
      | exact slot_other (by decide)
      | (intro text queued
         dsimp only at queued
         rw [(closeNamed_extracmd _ _ _ _).1] at queued
         exact queued)
  refine ⟨congrArg _ (receiveGotSkip_remoteData answers b arg skip), ?_⟩
  unfold receiveGotSkip protoError
  dsimp only [touch, queue]
  repeat' split
  all_goals first
    | exact slot_other (by decide)
    | exact fun _ queued => queued
    | exact (named _ _).slot

theorem receiveCommand_reserved (transfer : b.mode = .transfer) (message : Bpmsg)
    (blockLength : Nat) (other : message ≠ .nul) :
    Reserved b (b.receiveCommand conf answers message arg blockLength).1 := by
  cases message with
  | nul => exact absurd rfl other
  | adr =>
    have calm : b.mode ≠ .incomingHandshake ∧ b.mode ≠ .outgoingHandshake := by
      rw [transfer]
      exact ⟨nofun, nofun⟩
    unfold receiveCommand receiveADR protoError refuse
    dsimp only [touch, queue, check, addAddrs]
    repeat' split
    all_goals first
      | exact ⟨rfl, slot_other (by decide)⟩
      | exact ⟨rfl, fun _ queued => queued⟩
      | exact absurd ‹_› calm.1
      | exact absurd ‹_› calm.2
  | pwd =>
    have apart : b.mode ≠ .incomingHandshake := by rw [transfer]; exact nofun
    simp only [receiveCommand, receivePWD, if_pos apart]
    exact ⟨rfl, slot_other (by decide)⟩
  | file =>
    refine ⟨congrArg _ (receiveFILE_remoteData conf answers b arg), ?_⟩
    unfold receiveCommand receiveFILE resumeFile startFile replyRecv reply protoError
    dsimp only [touch, queue]
    repeat' split
    all_goals first
      | exact slot_other (by decide)
      | exact fun _ queued => queued
  | ok =>
    have apart : b.mode ≠ .outgoingHandshake := by rw [transfer]; exact nofun
    simp only [receiveCommand, receiveOK, if_pos apart]
    exact ⟨rfl, slot_other (by decide)⟩
  | eob =>
    have here : ¬ b.mode ≠ .transfer := not_not.mpr transfer
    simp only [receiveCommand, receiveEOB, if_neg here]
    exact ⟨rfl, fun _ queued => queued⟩
  | got => exact receiveGotSkip_reserved answers b arg false
  | err => exact ⟨rfl, fun _ queued => queued⟩
  | bsy => exact ⟨rfl, fun _ queued => queued⟩
  | get =>
    refine ⟨congrArg _ (receiveGET_remoteData conf answers b arg), ?_⟩
    unfold receiveCommand receiveGET reopenAt rewindTo announceAt protoError
    dsimp only [touch, queue]
    repeat' split
    all_goals first
      | exact slot_other (by decide)
      | exact fun _ queued => queued
  | skip => exact receiveGotSkip_reserved answers b arg true

theorem receiveData_reserved (blockLength : Nat) :
    Reserved b (b.receiveData answers arg blockLength).1 := by
  refine ⟨congrArg _ (receiveData_remoteData answers b arg blockLength), ?_⟩
  unfold receiveData writeDone writeFailed protoError replyRecv reply
  dsimp only [touch, queue]
  repeat' split
  all_goals first
    | exact slot_other (by decide)
    | exact fun _ queued => queued

/-- What a transfer makes is a block of a transfer, if no M_NUL waits to be made. -/
theorem getforsend_transfers (b : BinkpState) (transfer : b.mode = .transfer)
    (slot : ∀ text, b.extracmd ≠ some (.nul, text)) (sending : SendAnswers) (block : Block)
    (last : Bool) (made : (b.getforsend conf sending).2 = .block block last) :
    block.Transfers := by
  have next : ∀ (b : BinkpState) block last,
      (b.sendNextFile conf sending).2 = .block block last → block.Transfers := by
    intro b block last
    unfold sendNextFile sendFile sendEOB
    dsimp only
    repeat' split
    all_goals
      rintro ⟨⟩
      try exact .inr ⟨_, _, by decide, rfl⟩
  have waits : ∀ (b : BinkpState) block last,
      (b.awaitAck conf sending).2 = .block block last → block.Transfers := by
    intro b block last
    unfold awaitAck
    split
    · rintro ⟨⟩
    · split
      · rintro ⟨⟩
      · exact next _ block last
  revert made
  unfold getforsend
  split
  · rename_i message text waiting
    rintro ⟨⟩
    exact .inr ⟨message, text, fun line => slot text (by rw [waiting, line]), rfl⟩
  · rw [if_pos transfer]
    unfold transferForsend sendData sendFile sendEOB
    repeat' split
    all_goals first
      | exact next _ block last
      | exact waits _ block last
      | (rintro ⟨⟩; done)
      | (rintro ⟨⟩
         exact .inl rfl)
      | (rintro ⟨⟩
         exact .inr ⟨_, _, by decide, rfl⟩)

end Said

end BinkpState

namespace BinkpLoop

variable {conf : BinkpConf} {input : LoopInput}

/-- What holds of a session in a transfer that began so. -/
structure Speaks (start l : BinkpLoop) : Prop where
  mode : l.state.mode = .transfer
  crypt : l.state.remoteData.options.crypt = start.state.remoteData.options.crypt
  slot : ∀ text, l.state.extracmd ≠ some (.nul, text)
  made : ∀ block ∈ l.produced, block.payload.length ≤ 32767 ∧ block.Transfers

/-- A block that is taken over changes of the session's state only the keys of what is
written. -/
theorem load_state (l : BinkpLoop) (block : Block) :
    ∃ keysOut, (l.load block).state =
        { l.state with remoteData := { l.state.remoteData with keysOut } } ∧
      (l.load block).produced = l.produced ++ [block] ∧ (l.load block).handed = l.handed ∧
      (l.load block).input = l.input ∧ (l.load block).output = l.output := by
  unfold load encrypt
  cases l.encrypted with
  | true => exact ⟨_, rfl, rfl, rfl, rfl, rfl⟩
  | false => exact ⟨l.state.remoteData.keysOut, rfl, rfl, rfl, rfl, rfl⟩

/-- Before the look at the batch nothing is read or written, and at most one block is
made. -/
theorem fetch_cases (l made : BinkpLoop) (mode : l.state.mode = .transfer)
    (fetched : l.fetch conf input = .more made) :
    made.handed = l.handed ∧ made.input = l.input ∧ made.output = l.output ∧
      ((l.resume.idle = false ∧ made = l.resume) ∨
        (l.resume.idle = true ∧ ∃ keysOut, made.state =
            { (l.resume.state.getforsend conf input.sending).1 with
              remoteData := { l.state.remoteData with keysOut } } ∧
          ((∃ block last, (l.resume.state.getforsend conf input.sending).2 = .block block last ∧
              made.produced = l.produced ++ [block]) ∨
            (((l.resume.state.getforsend conf input.sending).2 = .nothing ∨
                (l.resume.state.getforsend conf input.sending).2 = .noMore) ∧
              made.produced = l.produced)))) := by
  have resumed : l.resume.state.mode = l.state.mode ∧
      l.resume.state.remoteData = l.state.remoteData ∧ l.resume.handed = l.handed ∧
      l.resume.input = l.input ∧ l.resume.output = l.output ∧ l.resume.produced = l.produced := by
    unfold resume
    split <;> exact ⟨rfl, rfl, rfl, rfl, rfl, rfl⟩
  obtain ⟨transfer, remote, handed, read, wrote, produced⟩ := resumed
  have data := BinkpState.getforsend_remoteData conf l.resume.state input.sending
    (transfer.trans mode)
  rw [remote] at data
  rw [← handed, ← read, ← wrote, ← produced, ← data]
  unfold fetch at fetched
  by_cases wanted : l.resume.idle = true
  · rw [if_pos wanted] at fetched
    unfold fetchNext at fetched
    cases given : (l.resume.state.getforsend conf input.sending).2 with
    | block block last =>
      rw [given] at fetched
      injection fetched with same
      obtain ⟨keysOut, state, more, kept, reads, writes⟩ :=
        load_state (l.resume.withState (l.resume.state.getforsend conf input.sending).1) block
      subst same
      exact ⟨kept, reads, writes, .inr ⟨wanted, keysOut, state, .inl ⟨block, last, rfl, more⟩⟩⟩
    | nothing =>
      rw [given] at fetched
      injection fetched with same
      exact same ▸ ⟨rfl, rfl, rfl, .inr ⟨wanted, _, rfl, .inr ⟨.inl rfl, rfl⟩⟩⟩
    | noMore =>
      rw [given] at fetched
      injection fetched with same
      exact same ▸ ⟨rfl, rfl, rfl, .inr ⟨wanted, _, rfl, .inr ⟨.inr rfl, rfl⟩⟩⟩
    | error =>
      rw [given] at fetched
      cases fetched
    | crashed =>
      rw [given] at fetched
      cases fetched
  · rw [if_neg wanted] at fetched
    injection fetched with same
    exact same ▸ ⟨rfl, rfl, rfl, .inl ⟨by simpa using wanted, rfl⟩⟩

/-- Making a block keeps it. -/
theorem fetch_speaks (start l made : BinkpLoop) (speaks : Speaks start l)
    (here : l.batching conf input = some made) (fits : Fits conf l input) : Speaks start made := by
  obtain ⟨_, _, _, rest⟩ := fetch_cases l made speaks.mode (batching_some l made here).2
  have resumed : l.resume.state.mode = l.state.mode ∧
      l.resume.state.remoteData = l.state.remoteData ∧
      l.resume.state.extracmd = l.state.extracmd ∧ l.resume.produced = l.produced := by
    unfold resume
    split <;> exact ⟨rfl, rfl, rfl, rfl⟩
  obtain ⟨mode, remote, slot, produced⟩ := resumed
  rcases rest with ⟨_, rfl⟩ | ⟨_, keysOut, state, blocks⟩
  · exact ⟨mode.trans speaks.mode, remote ▸ speaks.crypt, slot ▸ speaks.slot,
      produced ▸ speaks.made⟩
  · have follows := BinkpState.getforsend_follows conf l.resume.state input.sending
    have free := getforsend_extracmd conf l.resume.state input.sending
    refine ⟨?_, ?_, ?_, ?_⟩
    · rw [state]
      exact follows.mode.trans (mode.trans speaks.mode)
    · rw [state]
      exact speaks.crypt
    · rw [state]
      intro text waits
      cases free.symm.trans waits
    · rcases blocks with ⟨block, last, given, same⟩ | ⟨_, same⟩
      · intro other member
        rw [same] at member
        rcases List.mem_append.mp member with earlier | now
        · exact speaks.made other earlier
        · rw [List.mem_singleton.mp now]
          refine ⟨fits made here block (by simp [same]), ?_⟩
          exact BinkpState.getforsend_transfers conf l.resume.state (mode.trans speaks.mode)
            (slot ▸ speaks.slot) input.sending block last given
      · exact same ▸ speaks.made

/-- The command that is handed over is that of the block. -/
theorem block_command (middle : BinkpLoop) (message : Bpmsg) (arg : Pointer)
    (found : middle.command = some (message, arg)) : middle.block.command = some message := by
  obtain ⟨type, byte, _⟩ := command_argument middle message arg found
  unfold Block.command
  rw [type]
  exact byte

/-- A block of a transfer that is handed over keeps it. -/
theorem hand_speaks (start middle : BinkpLoop) (speaks : Speaks start middle)
    (transfers : middle.block.Transfers) :
    Speaks start (middle.withState (middle.hand conf input).1) := by
  have mode := (hand_follows conf input middle).mode
  have reserved : middle.state.Reserved (middle.hand conf input).1 := by
    refine hand_cases conf input middle (fun after => middle.state.Reserved after.1) ?_ ?_ ?_
    · exact fun _ => BinkpState.receiveData_reserved input.receiving middle.state _ _
    · exact fun accesses msg _ => ⟨rfl, BinkpState.slot_other (by decide)⟩
    · intro message arg found
      have same := block_command middle message arg found
      have other : message ≠ .nul := by
        rcases transfers with data | ⟨command, text, apart, made⟩
        · rw [Block.command, data] at same
          cases same
        · rw [made, command_commandBlock] at same
          exact Option.some.inj same ▸ apart
      have kept := BinkpState.receiveCommand_reserved conf input.receiving
        (middle.state.touch [.read 1 (middle.readPos - binkpHeader)]) arg speaks.mode message
        middle.handedLength other
      exact ⟨kept.options, kept.slot⟩
  exact ⟨mode.trans speaks.mode, (congrArg BinkpOptions.crypt reserved.options).trans speaks.crypt,
    fun text queued => speaks.slot text (reserved.slot text queued), speaks.made⟩

/-! ## Two sessions -/

/-- What holds of a session whose line ends at the other one. -/
structure Joined (start l other : BinkpLoop) : Prop where
  framed : InFrames start l
  sent : Sent start l
  speaks : Speaks start l
  reads : l.input <+: other.output

/-- Encryption that is off stays off. -/
theorem Speaks.clear {start l : BinkpLoop} (speaks : Speaks start l)
    (mode : start.state.mode = .transfer) (off : start.encrypted = false) :
    l.encrypted = false := by
  unfold encrypted at off ⊢
  rw [speaks.mode, speaks.crypt]
  rwa [mode] at off

/-- Up to the handing over of a block more may be read. -/
theorem arrive_input (made middle : BinkpLoop) (arrived : made.arrive input = .more middle) :
    ∃ count, middle.input = made.input ++ (input.read.getD []).take count ∧
      middle.output = made.output := by
  obtain ⟨waited, awaited, received⟩ := (Turn.andThen_more_iff _ _ _).mp arrived
  have finished : made.finish.input = made.input ∧ made.finish.output = made.output := by
    unfold finish
    split <;> exact ⟨rfl, rfl⟩
  have awaits : waited.input = made.finish.input ∧ waited.output = made.finish.output := by
    unfold await at awaited
    repeat' split at awaited
    all_goals first
      | (injection awaited with same
         exact same ▸ ⟨rfl, rfl⟩)
      | cases awaited
  rw [← finished.1, ← finished.2, ← awaits.1, ← awaits.2]
  unfold receive at received
  split at received
  · split at received
    · cases received
    · cases received
    · rename_i bytes _ given
      injection received with same
      subst same
      rw [given]
      unfold store decrypt
      cases waited.encrypted <;> exact ⟨waited.wantRead, rfl, rfl⟩
  · injection received with same
    exact ⟨0, by simp [same], congrArg output same.symm⟩

/-- What is read next on the line is what comes next there. -/
theorem hears_next (l other : BinkpLoop) (turn : LineTurn) (reads : l.input <+: other.output)
    (count : Nat) :
    l.input ++ ((l.hears other turn).read.getD []).take count <+: other.output := by
  obtain ⟨rest, whole⟩ := reads
  have waiting : other.output.drop l.input.length = rest := by rw [← whole, List.drop_left]
  have read : (l.hears other turn).read.getD [] = rest.take turn.arrives := by
    rw [← waiting]
    rfl
  rw [read, ← whole, List.prefix_append_right_inj, List.take_take]
  exact List.take_prefix _ _

/-- Up to the handing over of a block the frames are kept. -/
theorem arrive_framed (start l made middle : BinkpLoop) (framed : InFrames start l)
    (here : l.batching conf input = some made) (unbroken : Unbroken conf l input)
    (arrived : made.arrive input = .more middle) : InFrames start middle := by
  have begun : InFrames start made := by
    have ends := fetch_beside conf input l
    rw [(batching_some l made here).2] at ends
    exact framed.beside ends
  unfold Unbroken at unbroken
  simp only [here] at unbroken
  have finished := finish_framed start made begun fun half => (unbroken half).2
  obtain ⟨waited, awaited, received⟩ := (Turn.andThen_more_iff _ _ _).mp arrived
  have waits : InFrames start waited := by
    have ends := await_beside input made.finish
    rw [awaited] at ends
    exact finished.beside ends
  have ends := receive_framed input start waited waits
  rwa [received] at ends

/-- The next block that is handed over is the next one the other session made. -/
theorem Joined.next {start ends l made middle other : BinkpLoop} {turn : LineTurn}
    (linked : Linked start ends) (transfer : start.state.mode = .transfer)
    (transfers : ends.state.mode = .transfer) (mine : Joined start l other)
    (theirs : Joined ends other l) (unbroken : Unbroken conf l (l.hears other turn))
    (fits : Fits conf l (l.hears other turn))
    (here : l.batching conf (l.hears other turn) = some made)
    (arrived : made.arrive (l.hears other turn) = .more middle) :
    middle.handed = l.handed ∧ middle.handed ++ middle.readyBlock <+: other.produced := by
  obtain ⟨handed, read, _, _⟩ :=
    fetch_cases l made mine.speaks.mode (batching_some l made here).2
  obtain ⟨complete, emptyloop, keysIn, state, _, _, same⟩ := arrive_more made middle _ arrived
  have speaks := fetch_speaks start l made mine.speaks here fits
  obtain ⟨count, more, _⟩ := arrive_input made middle arrived
  rw [read] at more
  refine ⟨same.trans handed, handed_produced start middle ends other linked
    (arrive_framed start l made middle mine.framed here unbroken arrived) ?_ theirs.sent
    (theirs.speaks.clear transfers) (fun block member => (theirs.speaks.made block member).1)
    (more ▸ hears_next l other turn mine.reads count)⟩
  intro off
  have clear := speaks.clear transfer off
  unfold encrypted at clear ⊢
  rw [state]
  exact clear

/-- The handling of a block does not touch the line. -/
theorem handle_line (middle handled : BinkpLoop)
    (handed : middle.handle conf input = .more handled) :
    handled.input = middle.input ∧ handled.output = middle.output ∧
      handled.produced = middle.produced := by
  rcases handle_more conf input middle handled handed with ⟨_, rfl⟩ | ⟨_, _, settled⟩
  · exact ⟨rfl, rfl, rfl⟩
  · unfold settle at settled
    split at settled
    · injection settled with same
      exact same ▸ ⟨rfl, rfl, rfl⟩
    · injection settled with same
      exact same ▸ ⟨rfl, rfl, rfl⟩
    · injection settled with same
      exact same ▸ ⟨rfl, rfl, rfl⟩
    · injection settled with same
      exact same ▸ ⟨rfl, rfl, rfl⟩
    · cases settled

/-- More may be written. -/
theorem transmit_line (handled after : BinkpLoop)
    (written : handled.transmit input = .more after) :
    after.input = handled.input ∧ handled.output <+: after.output := by
  unfold transmit at written
  split at written
  · split at written
    · cases written
    · cases written
    · injection written with same
      exact same ▸ ⟨rfl, List.prefix_append _ _⟩
  · injection written with same
    exact same ▸ ⟨rfl, List.prefix_refl _⟩

/-- What is said of the state and the blocks made is said of the session. -/
theorem Speaks.of_same {start before after : BinkpLoop} (speaks : Speaks start before)
    (mode : after.state.mode = before.state.mode)
    (options : after.state.remoteData.options = before.state.remoteData.options)
    (slot : after.state.extracmd = before.state.extracmd)
    (produced : after.produced = before.produced) : Speaks start after :=
  ⟨mode.trans speaks.mode, (congrArg BinkpOptions.crypt options).trans speaks.crypt,
    slot ▸ speaks.slot, produced ▸ speaks.made⟩

/-- The handling of the next block of the other session. -/
theorem handle_speaks (start middle handled other : BinkpLoop) (speaks : Speaks start middle)
    (theirs : ∀ block ∈ other.produced, block.Transfers)
    (next : middle.handed ++ middle.readyBlock <+: other.produced)
    (handed : middle.handle conf input = .more handled) : Speaks start handled := by
  obtain ⟨_, _, produced⟩ := handle_line middle handled handed
  rcases handle_more conf input middle handled handed with ⟨_, rfl⟩ | ⟨ready, _, settled⟩
  · exact speaks
  · have transfers : middle.block.Transfers := by
      refine theirs _ (next.subset (List.mem_append_right _ ?_))
      simp [readyBlock, ready]
    have kept := @hand_speaks conf input start middle speaks transfers
    rcases settle_more _ handled _ settled with ⟨_, rfl⟩ | ⟨_, state⟩
    · exact kept.of_same rfl rfl rfl rfl
    · exact kept.of_same (congrArg _ state) (by rw [state]) (congrArg _ state) produced

/-- A turn keeps both sessions joined. -/
theorem step_joined {start ends l after other : BinkpLoop} {turn : LineTurn}
    (linked : Linked start ends) (transfer : start.state.mode = .transfer)
    (transfers : ends.state.mode = .transfer) (mine : Joined start l other)
    (theirs : Joined ends other l) (unbroken : Unbroken conf l (l.hears other turn))
    (fits : Fits conf l (l.hears other turn))
    (stepped : step conf l (l.hears other turn) = .more after) :
    Joined start after other ∧ Joined ends other after := by
  have framed := step_framed conf (l.hears other turn) start l mine.framed unbroken
  have sent := step_sent conf (l.hears other turn) start l mine.sent
  rw [stepped] at framed sent
  obtain ⟨made, here, rest⟩ := step_more l after stepped
  obtain ⟨_, read, wrote, _⟩ := fetch_cases l made mine.speaks.mode (batching_some l made here).2
  have speaks := fetch_speaks start l made mine.speaks here fits
  have done : Speaks start after ∧ after.input <+: other.output ∧ l.output <+: after.output := by
    rcases rest with ⟨_, rfl⟩ | ⟨_, middle, handled, arrived, handed, written⟩
    · exact ⟨speaks.of_same rfl rfl rfl rfl, read.symm ▸ mine.reads,
        wrote ▸ List.prefix_refl _⟩
    · obtain ⟨count, more, kept⟩ := arrive_input made middle arrived
      obtain ⟨complete, emptyloop, keysIn, state, _, produced, _⟩ :=
        arrive_more made middle _ arrived
      obtain ⟨_, next⟩ := Joined.next linked transfer transfers mine theirs unbroken fits here
        arrived
      obtain ⟨reads, writes, _⟩ := handle_line middle handled handed
      obtain ⟨last, longer⟩ := transmit_line handled after written
      obtain ⟨same, blocks, _⟩ := transmit_same handled after _ written
      have before : Speaks start middle :=
        speaks.of_same (by rw [state]) (by rw [state]) (by rw [state]) produced
      have kept_after := handle_speaks start middle handled other before
        (fun block member => (theirs.speaks.made block member).2) next handed
      refine ⟨kept_after.of_same (by rw [same]) (by rw [same]) (by rw [same]) blocks, ?_, ?_⟩
      · rw [last, reads, more, read]
        exact hears_next l other turn mine.reads count
      · rw [← wrote, ← kept, ← writes]
        exact longer
  exact ⟨⟨framed, sent, done.1, done.2.1⟩,
    ⟨theirs.framed, theirs.sent, theirs.speaks, theirs.reads.trans done.2.2⟩⟩

end BinkpLoop

end Binkleyforce
