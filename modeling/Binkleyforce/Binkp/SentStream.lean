import Binkleyforce.Binkp.Output
import Binkleyforce.Binkp.Pending
import Binkleyforce.Transfer.Streams

/-!
# What a BinkP session sends of a file

An announcement says at which offset the data of a file begins. It is made when the
queue yields the file, or answers an M_GET; in between blocks of data, commands of
the receiving side are made. The data that follows an announcement is the file from
the offset to its end, where nothing comes in between that ends it early.
-/

namespace Binkleyforce

open Library

/-- The text that announces a file at an offset, and the block with it. -/
def announcementText (finf : Finfo) (offset : Nat) : Bytes :=
  fileText finf.hint ++ ascii " " ++ printInt (toLong offset)

def announcement (finf : Finfo) (offset : Nat) : Block :=
  commandBlock .file (announcementText finf offset)

/-- The block ends the data of the file before it: M_FILE or M_EOB. -/
def Block.endsFile (block : Block) : Bool :=
  block.type = .cmd && (block.payload.head? = some Bpmsg.file.toByte ||
    block.payload.head? = some Bpmsg.eob.toByte)

/-- Among the commands these two do. -/
theorem endsFile_command (command : Bpmsg) (text : Bytes)
    (ends : (commandBlock command text).endsFile = true) : command = .file ∨ command = .eob := by
  cases command <;> first | exact .inl rfl | exact .inr rfl | cases ends

/-- The data in blocks. -/
def dataSent (blocks : List Block) : Bytes :=
  (blocks.filter (·.type = .data)).flatMap Block.payload

@[simp] theorem dataSent_nil : dataSent [] = [] := rfl

@[simp] theorem dataSent_command (blocks : List Block) (command : Bpmsg) (text : Bytes) :
    dataSent (blocks ++ [commandBlock command text]) = dataSent blocks := by
  simp [dataSent, commandBlock]

@[simp] theorem dataSent_data (blocks : List Block) (bytes : Bytes) :
    dataSent (blocks ++ [⟨.data, bytes⟩]) = dataSent blocks ++ bytes := by
  simp [dataSent]

/-! ## The position of every file -/

namespace BinkpState

section Positions

variable (conf : BinkpConf) (answers : ReceiveAnswers) (b : BinkpState) (arg : Pointer)

theorem streams_of_side {b after : BinkpState} (streams : Streams b.pi)
    (same : after.sendingSide = b.sendingSide) : Streams after.pi := by
  simp only [sendingSide, Protinfo.sendingPart, Prod.mk.injEq] at same
  unfold Streams
  rw [same.1.1]
  exact streams

theorem streams_gotSkipNamed (streams : Streams b.pi) (skip : Bool) (fi : FileHint) :
    Streams (b.gotSkipNamed answers skip fi).1.pi := by
  have closed : ∀ (b : BinkpState) index status, Streams b.pi →
      Streams (b.closeNamed answers.told index status).pi := by
    intro b index status streams
    have marked : Streams ({ b.pi with send := some index }.changeSend fun finf =>
        { finf with status }) :=
      @streams_changeSend_mild { b.pi with send := some index } streams _
        fun _ => ⟨rfl, rfl, rfl, rfl⟩
    have shut := streams_pTxFclose marked answers.told
    unfold closeNamed checkConfirmed
    dsimp only
    split <;> exact shut
  unfold gotSkipNamed
  dsimp only
  split
  · exact streams
  · split
    · split
      · exact streams
      · exact closed _ _ _ streams
    · split
      · exact closed _ _ _ streams
      · split
        · exact streams
        · exact closed _ _ _ streams

theorem streams_receiveGotSkip (streams : Streams b.pi) (skip : Bool) :
    Streams (b.receiveGotSkip answers skip arg).1.pi := by
  unfold receiveGotSkip
  dsimp only
  split
  · exact streams
  · split
    · exact streams
    · split
      · exact streams
      · split
        · split
          · exact streams
          · exact streams_gotSkipNamed answers _ (streams_pTxFclose streams answers.told) skip _
        · exact streams_gotSkipNamed answers (b.touch _) streams skip _

theorem announceAt_pi (offset : Nat) : (b.announceAt offset).pi = b.pi := by
  unfold announceAt
  split <;> rfl

theorem streams_receiveGET (streams : Streams b.pi) :
    Streams (b.receiveGET conf answers arg).1.pi := by
  have reopened : ∀ (b : BinkpState) getfi, Streams b.pi →
      Streams (b.reopenAt conf answers getfi).1.pi := by
    intro b getfi streams
    have opened := streams_pTxReopen streams conf.files.holdall ⟨getfi.fn, getfi.sz, getfi.tm⟩
    unfold reopenAt
    split
    · rename_i found
      rw [found] at opened
      exact opened
    · rename_i pi found
      rw [found] at opened
      have rewound := streams_rewound opened getfi.offs getfi.offs
      have failed := @pTxRewind_failed pi getfi.offs
      split
      · rename_i sought
        rw [sought] at failed
        obtain rfl := failed rfl
        exact streams_pTxFclose opened answers.told
      · rename_i sought
        rw [sought] at rewound
        dsimp only
        rw [announceAt_pi]
        exact rewound rfl
  unfold receiveGET
  dsimp only
  split
  · exact streams
  · split
    · exact streams
    · rename_i getfi parsed
      split
      · exact streams
      · split
        · exact reopened _ _ streams
        · split
          · rw [announceAt_pi]
            exact streams
          · split
            · exact streams
            · split
              · unfold rewindTo
                have rewound := streams_rewound streams getfi.offs getfi.offs
                have failed := @pTxRewind_failed b.pi getfi.offs
                split
                · rename_i sought
                  replace sought : pTxRewind getfi.offs b.pi = _ := sought
                  rw [sought] at failed
                  obtain rfl := failed rfl
                  exact streams_pTxFclose streams answers.told
                · rename_i sought
                  replace sought : pTxRewind getfi.offs b.pi = _ := sought
                  rw [sought] at rewound
                  dsimp only
                  rw [announceAt_pi]
                  exact rewound rfl
              · exact reopened _ _ streams

theorem streams_sendNextFile (streams : Streams b.pi) (sending : SendAnswers) :
    Streams (b.sendNextFile conf sending).1.pi := by
  have opened := streams_pTxFopen streams
    { conf.files with noRemoteaddr := b.remoteaddrs.isEmpty } sending.opening
  unfold sendNextFile sendFile sendEOB
  split
  · rename_i given
    rw [given] at opened
    exact opened
  · rename_i given
    rw [given] at opened
    dsimp only
    repeat' split
    all_goals exact opened

theorem streams_awaitAck (streams : Streams b.pi) (sending : SendAnswers) :
    Streams (b.awaitAck conf sending).1.pi := by
  unfold awaitAck
  split
  · exact streams
  · split
    · exact streams
    · exact streams_sendNextFile conf { b with phase := 0 } streams sending

/-- What is kept anyway is kept where the loop goes on. -/
theorem keeps_unless_failed {invariant : BinkpState → Prop} {after : BinkpState}
    (result : SendResult) (kept : invariant after) :
    result.Keeps invariant (fun _ => True) after := by
  cases result <;> first | exact kept | trivial

theorem streams_sendData (streams : Streams b.pi) (sending : SendAnswers) :
    (b.sendData conf sending).2.Keeps (fun b => Streams b.pi) (fun _ => True)
      (b.sendData conf sending).1 := by
  unfold sendData
  split
  · trivial
  · rename_i pi read
    have counted := streams_pTxReadfile streams sending.reading dataBlockSize [] read
    replace counted : Streams (pi.changeSend fun finf => finf) := counted
    rw [changeSend_id] at counted
    refine keeps_unless_failed _ (streams_awaitAck conf _ ?_ sending)
    exact streams_changeSend_mild counted _ fun _ => ⟨rfl, rfl, rfl, rfl⟩
  · rename_i pi bytes _ read
    exact streams_pTxReadfile streams sending.reading dataBlockSize bytes read
  · trivial
  · trivial

theorem streams_getforsend (streams : Streams b.pi) (sending : SendAnswers) :
    (b.getforsend conf sending).2.Keeps (fun b => Streams b.pi) (fun _ => True)
      (b.getforsend conf sending).1 := by
  unfold getforsend
  split
  · dsimp only
    split <;> exact streams
  · split
    · unfold transferForsend
      split
      · exact keeps_unless_failed _ (streams_sendNextFile conf b streams sending)
      · refine keeps_unless_failed _ ?_
        unfold sendFile
        split <;> exact streams
      · exact streams_sendData conf b streams sending
      · exact keeps_unless_failed _ (streams_awaitAck conf b streams sending)
      · exact streams
      · exact streams
      · exact streams
    · refine keeps_unless_failed _ ?_
      unfold handshakeForsend sendChallenge sendSysinfo sendPassword handshakeEnd
      dsimp only
      repeat' split
      all_goals exact streams

end Positions

end BinkpState

/-- A block that is handed over keeps the positions. -/
theorem streams_hand (conf : BinkpConf) (input : LoopInput) (l : BinkpLoop)
    (streams : Streams l.state.pi) : Streams (l.hand conf input).1.pi := by
  refine BinkpLoop.hand_cases conf input l (fun after => Streams after.1.pi) ?_ ?_ ?_
  · intro _
    exact BinkpState.streams_of_side streams
      (BinkpState.receiveData_sendingSide input.receiving l.state _ _)
  · intro accesses msg _
    exact streams
  · intro message arg found
    have touched : Streams (l.state.touch [.read 1 (l.readPos - binkpHeader)]).pi := streams
    by_cases other : message ≠ .got ∧ message ≠ .skip ∧ message ≠ .get
    · exact BinkpState.streams_of_side touched
        (BinkpState.receiveCommand_sendingSide conf input.receiving _ arg message _ other)
    · cases message with
      | got => exact BinkpState.streams_receiveGotSkip input.receiving _ arg touched false
      | skip => exact BinkpState.streams_receiveGotSkip input.receiving _ arg touched true
      | get => exact BinkpState.streams_receiveGET conf input.receiving _ arg touched
      | _ => exact absurd ⟨nofun, nofun, nofun⟩ other

theorem streams_preserved (conf : BinkpConf) :
    BinkpLoop.Preserved conf (fun _ _ => True) (fun b => Streams b.pi) (fun _ => True) where
  weaken _ _ := trivial
  keys _ _ _ kept := kept
  resume _ kept := kept
  idle _ kept := kept
  fetch b answers kept := BinkpState.streams_getforsend conf b kept answers
  restart _ kept _ := kept
  finish _ kept _ _ := kept
  hand l input _ _ _ kept := by
    have after := streams_hand conf input l kept
    cases (l.hand conf input).2 <;> first | exact after | trivial
  abort _ kept _ := kept

/-! ## What interrupts a file -/

namespace BinkpState

/-- A command that ends the session waits to be sent. -/
def lastWaits (b : BinkpState) : Bool := b.extracmd.isSome && b.extraislast

/-- The handling of a block leaves what is being sent alone: the phase stays, and at
most a command is queued that does not announce a file. Or it ends the session. -/
inductive Undisturbed (b after : BinkpState) : Prop where
  | last (waits : after.lastWaits = true)
  | same (mode : after.mode = b.mode) (phase : after.phase = b.phase)
      (slot : after.extracmd = b.extracmd) (goes : after.extraislast = b.extraislast)
  | replied (mode : after.mode = b.mode) (phase : after.phase = b.phase)
      (free : ¬ b.extracmd.isSome = true) (command : Bpmsg) (text : Bytes)
      (slot : after.extracmd = some (command, text)) (goes : after.extraislast = false)
      (other : command ≠ .file ∧ command ≠ .eob)

section Undisturbed

variable (conf : BinkpConf) (answers : ReceiveAnswers) (b : BinkpState) (arg : Pointer)

theorem Undisturbed.moved {b before after : BinkpState} (calm : Undisturbed before after)
    (mode : before.mode = b.mode) (phase : before.phase = b.phase)
    (slot : before.extracmd = b.extracmd) (goes : before.extraislast = b.extraislast) :
    Undisturbed b after := by
  cases calm with
  | last waits => exact .last waits
  | same sameMode samePhase sameSlot sameGoes =>
    exact .same (sameMode.trans mode) (samePhase.trans phase) (sameSlot.trans slot)
      (sameGoes.trans goes)
  | replied sameMode samePhase free command text waits plain other =>
    exact .replied (sameMode.trans mode) (samePhase.trans phase) (slot ▸ free) command text waits
      plain other

theorem receiveADR_undisturbed : Undisturbed b (b.receiveADR conf arg).1 := by
  unfold receiveADR checkCalled refuse protoError
  dsimp only [touch, queue, check, addAddrs]
  repeat' split
  all_goals first
    | exact .last rfl
    | exact .same rfl rfl rfl rfl
    | exact .replied rfl rfl ‹_› _ _ rfl rfl ⟨nofun, nofun⟩

theorem receivePWD_undisturbed (blockLength : Nat) :
    Undisturbed b (b.receivePWD conf answers arg blockLength).1 := by
  unfold receivePWD refuse protoError authenticate lockAddrs
  dsimp only [touch, queue, check]
  repeat' split
  all_goals first
    | exact .last rfl
    | exact .same rfl rfl rfl rfl

theorem receiveOK_undisturbed : Undisturbed b (b.receiveOK answers).1 := by
  unfold receiveOK refuse protoError lockAddrs
  dsimp only [touch, queue, check]
  repeat' split
  all_goals first
    | exact .last rfl
    | exact .same rfl rfl rfl rfl

theorem startFile_undisturbed (recvfi : Bpfinfo) (free : ¬ b.extracmd.isSome = true) :
    Undisturbed b (b.startFile conf answers recvfi).1 := by
  unfold startFile replyRecv reply
  dsimp only [touch, queue]
  repeat' split
  all_goals first
    | exact .same rfl rfl rfl rfl
    | exact .replied rfl rfl free _ _ rfl rfl ⟨nofun, nofun⟩

theorem resumeFile_undisturbed (recvfi : Bpfinfo) :
    Undisturbed b (b.resumeFile answers recvfi).1 := by
  unfold resumeFile reply
  dsimp only [touch, queue]
  repeat' split
  all_goals first
    | exact .same rfl rfl rfl rfl
    | exact .replied rfl rfl ‹_› _ _ rfl rfl ⟨nofun, nofun⟩

theorem receiveFILE_undisturbed : Undisturbed b (b.receiveFILE conf answers arg).1 := by
  unfold receiveFILE protoError
  dsimp only [touch, queue]
  repeat' split
  all_goals first
    | exact .last rfl
    | exact .same rfl rfl rfl rfl
    | exact (resumeFile_undisturbed answers _ _).moved rfl rfl rfl rfl
    | exact (startFile_undisturbed conf answers _ _ ‹_›).moved rfl rfl rfl rfl

theorem receiveEOB_undisturbed : Undisturbed b b.receiveEOB.1 := by
  unfold receiveEOB protoError
  dsimp only [queue]
  split
  · exact .last rfl
  · exact .same rfl rfl rfl rfl

theorem receiveData_undisturbed (blockLength : Nat) :
    Undisturbed b (b.receiveData answers arg blockLength).1 := by
  unfold receiveData writeDone writeFailed protoError replyRecv reply
  dsimp only [touch, queue]
  repeat' split
  all_goals first
    | exact .last rfl
    | exact .same rfl rfl rfl rfl
    | exact .replied rfl rfl ‹_› _ _ rfl rfl ⟨nofun, nofun⟩

/-- Closing a file that is not the current one leaves the current one. -/
theorem closeNamed_current (told : Bool) (index : Nat) (status : Fstat)
    (elsewhere : b.pi.send ≠ some index) :
    (b.closeNamed told index status).pi.sending = b.pi.sending := by
  have files : ∀ other, other ≠ index →
      (pTxFclose told ({ b.pi with send := some index }.changeSend fun finf =>
        { finf with status })).sentfiles[other]? = b.pi.sentfiles[other]? := by
    intro other apart
    unfold pTxFclose Protinfo.changeSend Protinfo.changeSent
    dsimp only
    split
    · rename_i given _
      obtain rfl := Option.some.inj given
      simp [apart.symm]
    · simp [apart.symm]
  have kept : ({ pTxFclose told ({ b.pi with send := some index }.changeSend fun finf =>
      { finf with status }) with send := b.pi.send } : Protinfo).sending = b.pi.sending := by
    unfold Protinfo.sending
    cases there : b.pi.send with
    | none => rfl
    | some other => exact files other fun same => elsewhere (same ▸ there)
  unfold closeNamed checkConfirmed
  dsimp only
  split <;> exact kept

theorem closeNamed_undisturbed (told : Bool) (index : Nat) (status : Fstat) :
    Undisturbed b (b.closeNamed told index status) := by
  unfold closeNamed checkConfirmed
  dsimp only
  split <;> exact .same rfl rfl rfl rfl

/-- So does an M_GOT or M_SKIP for a file of another name. -/
theorem receiveGotSkip_undisturbed (skip : Bool) (finf : Finfo) (current : b.pi.sending = some finf)
    (other : ∀ fi, (binkpParsfinfo arg false answers.high).1 = some fi → fi.fn ≠ finf.netName) :
    (b.receiveGotSkip answers skip arg).1.lastWaits = true ∨
      ((b.receiveGotSkip answers skip arg).1.pi.sending = b.pi.sending ∧
        Undisturbed b (b.receiveGotSkip answers skip arg).1) := by
  unfold receiveGotSkip
  dsimp only
  split
  · exact .inl rfl
  · split
    · exact .inl rfl
    · rename_i fi parsed
      have apart := other fi parsed
      split
      · exact .inr ⟨rfl, .same rfl rfl rfl rfl⟩
      · rename_i sent sending
        obtain rfl : finf = sent := Option.some.inj (current.symm.trans sending)
        rw [if_neg fun named => apart named.1.symm]
        unfold gotSkipNamed
        dsimp only
        split
        · exact .inl rfl
        · rename_i index found
          have elsewhere : b.pi.send ≠ some index := by
            intro same
            obtain ⟨inside, matched, _⟩ := List.findIdx?_eq_some_iff_getElem.mp found
            replace inside : index < b.pi.sentfiles.length := inside
            have there : b.pi.sentfiles[index] = finf := by
              have current := current
              rw [Protinfo.sending, same] at current
              exact Option.some.inj ((List.getElem?_eq_getElem inside).symm.trans current)
            have named : (b.pi.sentfiles[index]).hint = ⟨fi.fn, fi.sz, fi.tm⟩ :=
              of_decide_eq_true matched
            rw [there] at named
            exact apart (congrArg FileHint.fn named).symm
          have closed := fun b status => closeNamed_current b answers.told index status
          split
          · split
            · exact .inl rfl
            · exact .inr ⟨closed (b.touch _) _ elsewhere,
                (closeNamed_undisturbed _ _ _ _).moved rfl rfl rfl rfl⟩
          · split
            · exact .inr ⟨closed { b.touch _ with gots := _ } _ elsewhere,
                (closeNamed_undisturbed _ _ _ _).moved rfl rfl rfl rfl⟩
            · split
              · exact .inl rfl
              · exact .inr ⟨closed { b.touch _ with gots := _ } _ elsewhere,
                  (closeNamed_undisturbed _ _ _ _).moved rfl rfl rfl rfl⟩

/-- It is handled when it arrives. -/
theorem receiveGotSkip_kept (skip : Bool) : (b.receiveGotSkip answers skip arg).2 ≠ .keep := by
  unfold receiveGotSkip gotSkipNamed protoError
  dsimp only
  repeat' split
  all_goals exact nofun

/-- An M_GET that is not obeyed ends the session or is left for later. -/
theorem receiveGET_left
    (left : b.extracmd.isSome = true ∨ (binkpParsfinfo arg true answers.high).1 = none) :
    (b.receiveGET conf answers arg).1.lastWaits = true ∨
      ((b.receiveGET conf answers arg).1.pi.sending = b.pi.sending ∧
        Undisturbed b (b.receiveGET conf answers arg).1) := by
  unfold receiveGET
  dsimp only [touch]
  split
  · exact .inl rfl
  · split
    · exact .inl rfl
    · rename_i getfi parsed
      rcases left with waits | invalid
      · rw [if_pos waits]
        exact .inr ⟨rfl, .same rfl rfl rfl rfl⟩
      · rw [parsed] at invalid
        cases invalid

/-- An M_GET is kept only while a command waits. -/
theorem receiveGET_kept (free : ¬ b.extracmd.isSome = true) :
    (b.receiveGET conf answers arg).2 ≠ .keep := by
  unfold receiveGET reopenAt rewindTo protoError
  dsimp only [touch]
  repeat' split
  all_goals exact nofun

/-- An M_GET is answered by an announcement in the phase of the file's data. -/
theorem receiveGET_answer (free : b.extracmd = none) (text : Bytes)
    (answered : (b.receiveGET conf answers arg).1.extracmd = some (.file, text)) :
    (b.receiveGET conf answers arg).1.phase = 2 ∧
      (b.receiveGET conf answers arg).1.mode = b.mode ∧
      (b.receiveGET conf answers arg).1.extraislast = false := by
  revert answered
  unfold receiveGET reopenAt rewindTo announceAt protoError
  dsimp only [touch, queue]
  repeat' split
  all_goals first
    | exact fun _ => ⟨rfl, rfl, rfl⟩
    | exact fun answered => absurd (free.symm.trans answered) (Option.some_ne_none _).symm
    | exact nofun

end Undisturbed

/-- The current file is being read: a local one, at a position. -/
structure Reading (finf : Finfo) (content : Bytes) (position : Nat) (b : BinkpState) : Prop where
  mode : b.mode = .transfer
  phase : b.phase = 2
  current : ∃ now, b.pi.sending = some now ∧ now.netName = finf.netName ∧
    now.fp = some ⟨content, position⟩ ∧ now.netspool = false ∧ now.waitack = false

section Reading

variable {conf : BinkpConf} {b after : BinkpState} {finf : Finfo} {content : Bytes} {position : Nat}

theorem Reading.of_same (reading : Reading finf content position b) (mode : after.mode = b.mode)
    (phase : after.phase = b.phase) (current : after.pi.sending = b.pi.sending) :
    Reading finf content position after :=
  ⟨mode.trans reading.mode, phase.trans reading.phase, current ▸ reading.current⟩

/-- The next file of the queue is announced, or the end of the batch. -/
theorem sendNextFile_ends (b : BinkpState) (answers : SendAnswers) :
    (b.sendNextFile conf answers).2 = .crashed ∨
      ∃ block last, (b.sendNextFile conf answers).2 = .block block last ∧ block.endsFile = true := by
  unfold sendNextFile sendFile sendEOB
  dsimp only
  repeat' split
  all_goals first
    | exact .inl rfl
    | exact .inr ⟨_, _, rfl, rfl⟩

/-- The data of a file being read goes on, or its end was reached. -/
theorem sendData_reading (reading : Reading finf content position b) (answers : SendAnswers) :
    ((b.sendData conf answers).2 = .error ∨ (b.sendData conf answers).2 = .crashed) ∨
      (content.drop position = [] ∧ ∃ block last, (b.sendData conf answers).2 = .block block last ∧
        block.endsFile = true) ∨
      ∃ bytes last, (b.sendData conf answers).2 = .block ⟨.data, bytes⟩ last ∧
        content.drop position = bytes ++ content.drop (position + bytes.length) ∧
        (b.sendData conf answers).1.extracmd = b.extracmd ∧
        (b.sendData conf answers).1.extraislast = b.extraislast ∧
        Reading finf content (position + bytes.length) (b.sendData conf answers).1 := by
  obtain ⟨now, sending, named, opened, plain, free⟩ := reading.current
  have read : pTxReadfile answers.reading dataBlockSize b.pi =
      some (b.pi.changeSend fun _ =>
        (readLocal answers.reading dataBlockSize ⟨content, position⟩ now).1,
        (readLocal answers.reading dataBlockSize ⟨content, position⟩ now).2) := by
    unfold pTxReadfile
    rw [sending]
    dsimp only
    rw [plain, opened]
    rfl
  unfold sendData
  rw [read]
  have part := readLocal_data answers.reading dataBlockSize ⟨content, position⟩ now
  generalize readLocal answers.reading dataBlockSize ⟨content, position⟩ now = result at part
  obtain ⟨changed, result⟩ := result
  match result with
  | .error => exact .inl (.inl rfl)
  | .skip => exact .inl (.inl rfl)
  | .data [] =>
    obtain ⟨eofseen, _, here, local_file⟩ := part [] rfl
    dsimp only at here local_file ⊢
    have ended : content.drop position = [] := by
      cases rest : content.drop position with
      | nil => rfl
      | cons byte more =>
        rw [rest] at here
        cases here
    refine .imp .inr (fun found => .inl ⟨ended, found⟩) ?_
    unfold awaitAck
    rw [changeSend_twice, changeSend_sending, sending, local_file]
    dsimp only [Option.map_some]
    rw [free]
    exact sendNextFile_ends _ answers
  | .data (byte :: more) =>
    obtain ⟨eofseen, _, here, local_file⟩ := part (byte :: more) rfl
    dsimp only at here local_file ⊢
    refine .inr (.inr ⟨_, _, rfl, ?_, rfl, rfl, reading.mode, reading.phase, ?_⟩)
    · have front : byte :: more <+: content.drop position := here ▸ List.take_prefix _ _
      rw [← List.drop_drop]
      exact (List.prefix_iff_eq_append.mp front).symm
    · rw [changeSend_twice, changeSend_sending, sending, local_file]
      exact ⟨_, rfl, named, rfl, plain, free⟩

/-- Unless a command waits, the next block comes from the file that is read. -/
theorem getforsend_reading (reading : Reading finf content position b) (free : b.extracmd = none)
    (answers : SendAnswers) : b.getforsend conf answers = b.sendData conf answers := by
  unfold getforsend transferForsend
  rw [free, reading.phase]
  exact if_pos reading.mode

/-- An announcement of the file that was just opened comes before its data. -/
theorem sendNextFile_announces (b : BinkpState) (begins : b.phase = 0) (answers : SendAnswers)
    (last : Bool) (finf : Finfo) (content : Bytes) (offset : Nat)
    (made : (b.sendNextFile conf answers).2 = .block (announcement finf offset) last)
    (current : (b.sendNextFile conf answers).1.pi.sending = some finf)
    (opened : finf.fp = some ⟨content, offset⟩) : (b.sendNextFile conf answers).1.phase = 2 := by
  have fresh := @pTxFopen_begins b.pi
    { conf.files with noRemoteaddr := b.remoteaddrs.isEmpty } answers.opening finf
  unfold sendNextFile at made current ⊢
  generalize pTxFopen { conf.files with noRemoteaddr := b.remoteaddrs.isEmpty } answers.opening b.pi =
    result at made current fresh ⊢
  obtain ⟨pi, found⟩ := result
  cases found with
  | false => cases made
  | true =>
    dsimp only at made current ⊢
    split at made
    · rename_i cautious
      rw [if_pos cautious] at current
      split at made
      · cases made
      · rename_i now sending
        simp only [sending] at current
        obtain rfl := Option.some.inj current
        have zero : offset = 0 := (fresh rfl sending).2 _ opened
        subst zero
        injection made with same
        injection same with _ same
        injection same with _ same
        have other := List.append_cancel_left (same.trans (List.append_assoc _ _ _))
        exact absurd other (by decide)
    · rename_i plain
      rw [if_neg plain] at current ⊢
      unfold sendFile at made ⊢
      split at made
      · cases made
      · dsimp only
        omega

theorem getforsend_announces (b : BinkpState) (mode : b.mode = .transfer)
    (free : b.extracmd = none) (answers : SendAnswers)
    (last : Bool) (finf : Finfo) (content : Bytes) (offset : Nat)
    (made : (b.getforsend conf answers).2 = .block (announcement finf offset) last)
    (current : (b.getforsend conf answers).1.pi.sending = some finf)
    (opened : finf.fp = some ⟨content, offset⟩) : (b.getforsend conf answers).1.phase = 2 := by
  have awaited : ∀ b : BinkpState,
      (b.awaitAck conf answers).2 = .block (announcement finf offset) last →
      (b.awaitAck conf answers).1.pi.sending = some finf →
      (b.awaitAck conf answers).1.phase = 2 := by
    intro b made current
    unfold awaitAck at made current ⊢
    split at made
    · cases made
    · rename_i now sending
      simp only [sending] at current ⊢
      split at made
      · cases made
      · rename_i acknowledged
        rw [if_neg acknowledged] at current ⊢
        exact sendNextFile_announces { b with phase := 0 } rfl answers last finf content offset made
          current opened
  unfold getforsend at made current ⊢
  rw [free] at made current ⊢
  dsimp only at made current ⊢
  rw [if_pos mode] at made current ⊢
  unfold transferForsend at made current ⊢
  split at made
  · rename_i begins
    simp only [begins] at current ⊢
    exact sendNextFile_announces b begins answers last finf content offset made current opened
  · rename_i one
    simp only [one] at current ⊢
    unfold sendFile at made ⊢
    split at made
    · cases made
    · rename_i now sending
      dsimp only
      omega
  · rename_i two
    simp only [two] at current ⊢
    unfold sendData at made current ⊢
    split at made
    · cases made
    · rename_i pi read
      simp only [read] at current ⊢
      exact awaited _ made current
    · cases made
    · cases made
    · cases made
  · rename_i three
    simp only [three] at current ⊢
    exact awaited b made current
  · cases made
  · cases made
  · cases made

end Reading

end BinkpState

namespace BinkpLoop

variable (conf : BinkpConf) (input : LoopInput)

/-- The file an M_GET, M_GOT or M_SKIP that is ready names. -/
def fileNamed (l : BinkpLoop) (input : LoopInput) : Option (Bpmsg × Bpfinfo) :=
  match l.command with
  | some (.get, arg) => (binkpParsfinfo arg true input.receiving.high).1.map (Prod.mk .get)
  | some (.got, arg) => (binkpParsfinfo arg false input.receiving.high).1.map (Prod.mk .got)
  | some (.skip, arg) => (binkpParsfinfo arg false input.receiving.high).1.map (Prod.mk .skip)
  | _ => none

/-- In the turn an M_GET, M_GOT or M_SKIP of this kind is handled, or an error. -/
def Interrupts (about : Bpmsg → Bpfinfo → Bool) (l : BinkpLoop) (input : LoopInput) : Prop :=
  ∃ around ∈ l.handling conf input, around.2.state.lastWaits = true ∨
    (around.1.ready = true ∧ (around.1.hand conf input).2 ≠ .keep ∧
      ∃ named ∈ around.1.fileNamed input, about named.1 named.2 = true)

/-- An M_GET, or an M_GOT or M_SKIP with the name of the file. -/
def turnsFrom (finf : Finfo) (message : Bpmsg) (named : Bpfinfo) : Bool :=
  decide (message = .get) || decide (named.fn = finf.netName)

/-- The batch restarts in the turn. -/
def Restarts (l : BinkpLoop) (input : LoopInput) : Prop :=
  ∃ made ∈ l.batching conf input, made.batchRestarts = true

/-- The turn makes an M_FILE or M_EOB, the blocks of the base being made. -/
def EndsFile (base : List Block) (l : BinkpLoop) (input : LoopInput) : Prop :=
  base.length ≤ l.produced.length ∧ ∃ made ∈ l.batching conf input,
    ∃ block ∈ made.produced.drop l.produced.length, block.endsFile = true

/-- The turn announces the current file at the position it is read from, with the
blocks made up to the announcement: it makes the announcement, or answers an M_GET by
it. -/
def Announces (interrupts : BinkpLoop → LoopInput → Prop) (l : BinkpLoop) (input : LoopInput)
    (finf : Finfo) (offset : Nat) (base : List Block) : Prop :=
  (l.state.extracmd = none ∧ ¬ interrupts l input ∧
    ∃ made ∈ l.batching conf input, made.state.pi.sending = some finf ∧
      made.produced = l.produced ++ [announcement finf offset] ∧ base = made.produced) ∨
  ∃ around ∈ l.handling conf input, around.1.state.extracmd = none ∧
    (∃ arg, around.1.command = some (.get, arg)) ∧ around.2.state.pi.sending = some finf ∧
    around.2.state.extracmd = some (.file, announcementText finf offset) ∧
    base = around.2.produced ++ [announcement finf offset]

/-- After every announcement of a local file, up to the turn that makes the next M_FILE
or M_EOB, the data made is the file from the offset to its end, if nothing interrupts
it. -/
def SentStreams (start : BinkpLoop) (inputs : List LoopInput)
    (interrupts : Finfo → BinkpLoop → LoopInput → Prop) : Prop :=
  ∀ past turn between last rest, inputs = past ++ turn :: (between ++ last :: rest) →
    ∀ before after final, run (step conf) start past = .more before →
      step conf before turn = .more after → run (step conf) after between = .more final →
      ∀ finf content offset base, finf.fp = some ⟨content, offset⟩ →
        Announces conf (interrupts finf) before turn finf offset base →
        Along (fun l input => ¬ interrupts finf l input ∧ ¬ EndsFile conf base l input)
          (step conf) after between →
        EndsFile conf base final last →
        ∃ sent, final.produced = base ++ sent ∧ dataSent sent = content.drop offset

/-- A file is under way: its announcement waits to be made, or it was made and the
data made since is what lies before the position. -/
inductive Underway (finf : Finfo) (content : Bytes) (offset : Nat) (base : List Block)
    (l : BinkpLoop) : Prop where
  | waiting (reading : BinkpState.Reading finf content offset l.state)
      (slot : l.state.extracmd = some (.file, announcementText finf offset))
      (goes : l.state.extraislast = false)
      (made : base = l.produced ++ [announcement finf offset])
  | going (position : Nat) (sent : List Block)
      (reading : BinkpState.Reading finf content position l.state)
      (slot : ∀ command text, l.state.extracmd = some (command, text) →
        l.state.extraislast = false ∧ command ≠ .file ∧ command ≠ .eob)
      (made : l.produced = base ++ sent)
      (far : content.drop offset = dataSent sent ++ content.drop position)

/-- What the sending of a file depends on. -/
def sendingView (l : BinkpLoop) :
    List Block × BinkpMode × Nat × Protinfo × Option (Bpmsg × Bytes) × Bool :=
  (l.produced, l.state.mode, l.state.phase, l.state.pi, l.state.extracmd, l.state.extraislast)

section Underway

variable {conf input} {finf : Finfo} {content : Bytes} {offset : Nat} {base : List Block}

theorem Underway.of_view {l after : BinkpLoop} (underway : Underway finf content offset base l)
    (same : after.sendingView = l.sendingView) : Underway finf content offset base after := by
  simp only [sendingView, Prod.mk.injEq] at same
  obtain ⟨produced, mode, phase, pi, slot, goes⟩ := same
  have current : after.state.pi.sending = l.state.pi.sending := by rw [pi]
  cases underway with
  | waiting reading waits plain made =>
    exact .waiting (reading.of_same mode phase current) (slot.trans waits) (goes.trans plain)
      (produced ▸ made)
  | going position sent reading plain made far =>
    refine .going position sent (reading.of_same mode phase current) ?_ (produced.trans made) far
    rw [slot, goes]
    exact plain

/-- Up to the handing over nothing changes for it, -/
theorem arrive_view (made middle : BinkpLoop) (arrived : made.arrive input = .more middle) :
    middle.sendingView = made.sendingView := by
  obtain ⟨complete, emptyloop, keysIn, same, _, produced, _⟩ :=
    arrive_more made middle input arrived
  unfold sendingView
  rw [same, produced]

/-- nor where the turn writes. -/
theorem transmit_view (handled after : BinkpLoop) (written : handled.transmit input = .more after) :
    after.sendingView = handled.sendingView := by
  unfold transmit at written
  split at written
  · split at written
    · cases written
    · cases written
    · injection written with same
      exact same ▸ rfl
  · injection written with same
    exact same ▸ rfl

/-- A block that was taken over was made from the state as it is. -/
theorem take_block (l made : BinkpLoop) (block : Block) (last : Bool)
    (taken : l.take (.block block last) = .more made) :
    made.produced = l.produced ++ [block] ∧ made.state.mode = l.state.mode ∧
      made.state.phase = l.state.phase ∧ made.state.pi = l.state.pi ∧
      made.state.extracmd = l.state.extracmd ∧ made.state.extraislast = l.state.extraislast ∧
      made.state.frs = l.state.frs := by
  injection taken with same
  subst same
  unfold load encrypt
  dsimp only
  split <;> exact ⟨rfl, rfl, rfl, rfl, rfl, rfl, rfl⟩

/-- What a turn makes while a file is under way: nothing, a block that is not the end
of it, or the end, where all of it was made. -/
theorem fetch_underway (l made : BinkpLoop) (underway : Underway finf content offset base l)
    (fetched : l.fetch conf input = .more made) :
    (made.produced = l.produced ∧ Underway finf content offset base made) ∨
      ∃ block, made.produced = l.produced ++ [block] ∧
        ((Underway finf content offset base made ∧
          (block.endsFile = true → l.produced.length < base.length)) ∨
        (block.endsFile = true ∧
          ∃ sent, l.produced = base ++ sent ∧ dataSent sent = content.drop offset)) := by
  have resumed : l.resume.sendingView = l.sendingView := by
    unfold resume
    split <;> rfl
  replace underway := underway.of_view resumed
  have produced : l.resume.produced = l.produced := congrArg Prod.fst resumed
  unfold fetch at fetched
  rw [← produced]
  generalize l.resume = l at underway fetched
  split at fetched
  · unfold fetchNext at fetched
    cases underway with
    | waiting reading waits plain made_so_far =>
      unfold BinkpState.getforsend at fetched
      rw [waits] at fetched
      dsimp only at fetched
      rw [plain] at fetched
      obtain ⟨produced, mode, phase, pi, slot, goes, _⟩ := take_block _ _ _ _ fetched
      refine .inr ⟨_, produced, .inl ⟨.going offset [] ?_ ?_ ?_ rfl, fun _ => ?_⟩⟩
      · exact reading.of_same mode phase (congrArg _ pi)
      · intro command text waiting
        exact absurd (slot.symm.trans waiting) nofun
      · rw [produced, made_so_far, List.append_nil]
        rfl
      · rw [made_so_far, List.length_append]
        exact Nat.lt_succ_self _
    | going position sent reading plain made_so_far far =>
      cases slot : l.state.extracmd with
      | some waiting =>
        obtain ⟨command, text⟩ := waiting
        obtain ⟨goes, other⟩ := plain command text slot
        unfold BinkpState.getforsend at fetched
        rw [slot] at fetched
        dsimp only at fetched
        rw [goes] at fetched
        obtain ⟨produced, mode, phase, pi, slot, _⟩ := take_block _ _ _ _ fetched
        refine .inr ⟨_, produced, .inl ⟨.going position (sent ++ [commandBlock command text]) ?_ ?_ ?_ ?_,
          fun ends => ?_⟩⟩
        · exact reading.of_same mode phase (congrArg _ pi)
        · intro later text waiting
          exact absurd (slot.symm.trans waiting) nofun
        · rw [produced, ← List.append_assoc, ← made_so_far]
          rfl
        · rwa [dataSent_command]
        · exact ((endsFile_command command text ends).elim other.1 other.2).elim
      | none =>
        rw [BinkpState.getforsend_reading reading slot] at fetched
        rcases @BinkpState.sendData_reading conf _ _ _ _ reading input.sending with
          (failed | failed) | ⟨ended, block, last, given, ends⟩ |
            ⟨bytes, last, given, part, free, _, onward⟩
        · rw [failed] at fetched
          cases fetched
        · rw [failed] at fetched
          cases fetched
        · rw [given] at fetched
          obtain ⟨produced, _⟩ := take_block _ _ _ _ fetched
          refine .inr ⟨block, produced, .inr ⟨ends, sent, made_so_far, ?_⟩⟩
          rw [far, ended, List.append_nil]
        · rw [given] at fetched
          obtain ⟨produced, mode, phase, pi, slotted, _⟩ := take_block _ _ _ _ fetched
          refine .inr ⟨_, produced, .inl ⟨.going (position + bytes.length)
            (sent ++ [⟨.data, bytes⟩]) ?_ ?_ ?_ ?_, nofun⟩⟩
          · exact onward.of_same mode phase (congrArg _ pi)
          · intro command text waiting
            exact absurd ((slotted.trans (free.trans slot)).symm.trans waiting) nofun
          · rw [produced, ← List.append_assoc, ← made_so_far]
            rfl
          · rw [dataSent_data, far, part, List.append_assoc]
  · injection fetched with same
    exact .inl ⟨same ▸ rfl, same ▸ underway⟩

/-- A block that does not interrupt the file leaves it alone. -/
theorem hand_undisturbed (l : BinkpLoop) {position : Nat}
    (reading : BinkpState.Reading finf content position l.state)
    (apart : (l.hand conf input).2 ≠ .keep →
      ∀ named ∈ l.fileNamed input, turnsFrom finf named.1 named.2 = false) :
    (l.hand conf input).1.lastWaits = true ∨
      ((l.hand conf input).1.pi.sending = l.state.pi.sending ∧
        BinkpState.Undisturbed l.state (l.hand conf input).1) := by
  obtain ⟨now, sending, named, _⟩ := reading.current
  have side : ∀ {b after : BinkpState}, after.sendingSide = b.sendingSide →
      after.pi.sending = b.pi.sending := fun same =>
    sending_of_sendingPart (congrArg Prod.fst same)
  revert apart
  refine hand_cases conf input l (fun after => (after.2 ≠ .keep →
      ∀ named ∈ l.fileNamed input, turnsFrom finf named.1 named.2 = false) →
    after.1.lastWaits = true ∨
      (after.1.pi.sending = l.state.pi.sending ∧ BinkpState.Undisturbed l.state after.1)) ?_ ?_ ?_
  · intro _ _
    exact .inr ⟨side (BinkpState.receiveData_sendingSide input.receiving l.state _ _),
      BinkpState.receiveData_undisturbed input.receiving l.state _ _⟩
  · intro accesses msg _ _
    exact .inl rfl
  · intro message arg found apart
    have touched : ∀ {after}, BinkpState.Undisturbed
        (l.state.touch [.read 1 (l.readPos - binkpHeader)]) after →
        BinkpState.Undisturbed l.state after := fun calm => calm.moved rfl rfl rfl rfl
    by_cases other : message ≠ .got ∧ message ≠ .skip ∧ message ≠ .get
    · refine .inr ⟨side (BinkpState.receiveCommand_sendingSide conf input.receiving _ arg message _
        other), touched ?_⟩
      cases message with
      | nul => exact .same rfl rfl rfl rfl
      | adr => exact BinkpState.receiveADR_undisturbed conf _ arg
      | pwd => exact BinkpState.receivePWD_undisturbed conf input.receiving _ arg _
      | file => exact BinkpState.receiveFILE_undisturbed conf input.receiving _ arg
      | ok => exact BinkpState.receiveOK_undisturbed input.receiving _
      | eob => exact BinkpState.receiveEOB_undisturbed _
      | err => exact .same rfl rfl rfl rfl
      | bsy => exact .same rfl rfl rfl rfl
      | got => exact absurd rfl other.1
      | skip => exact absurd rfl other.2.1
      | get => exact absurd rfl other.2.2
    · cases message with
      | got =>
        refine (BinkpState.receiveGotSkip_undisturbed input.receiving (l.state.touch _) arg
          false now sending
          fun fi parsed same => ?_).imp id (And.imp id touched)
        have quiet := apart (BinkpState.receiveGotSkip_kept input.receiving _ arg false) (.got, fi)
          (by simp [fileNamed, found, parsed])
        simp [turnsFrom, same, named] at quiet
      | skip =>
        refine (BinkpState.receiveGotSkip_undisturbed input.receiving (l.state.touch _) arg
          true now sending
          fun fi parsed same => ?_).imp id (And.imp id touched)
        have quiet := apart (BinkpState.receiveGotSkip_kept input.receiving _ arg true) (.skip, fi)
          (by simp [fileNamed, found, parsed])
        simp [turnsFrom, same, named] at quiet
      | get =>
        refine (BinkpState.receiveGET_left conf input.receiving _ arg ?_).imp id (And.imp id touched)
        by_contra obeyed
        obtain ⟨free, read⟩ := not_or.mp obeyed
        obtain ⟨fi, parsed⟩ := Option.ne_none_iff_exists'.mp read
        have quiet := apart (BinkpState.receiveGET_kept conf input.receiving _ arg free) (.get, fi)
          (by simp [fileNamed, found, parsed])
        simp [turnsFrom] at quiet
      | _ => exact absurd ⟨nofun, nofun, nofun⟩ other

/-- A file under way stays so where a block that does not interrupt it is handed over. -/
theorem handle_underway (middle handled : BinkpLoop)
    (underway : Underway finf content offset base middle)
    (handed : middle.handle conf input = .more handled)
    (goes : handled.state.lastWaits = false)
    (apart : middle.ready = true → (middle.hand conf input).2 ≠ .keep →
      ∀ named ∈ middle.fileNamed input, turnsFrom finf named.1 named.2 = false) :
    Underway finf content offset base handled := by
  rcases handle_more conf input middle handled handed with ⟨_, rfl⟩ | ⟨ready, _, settled⟩
  · exact underway
  · have same : handled.sendingView =
        (middle.withState (middle.hand conf input).1).sendingView := by
      cases given : (middle.hand conf input).2 with
      | crashed =>
        rw [given] at settled
        cases settled
      | _ =>
        rw [given] at settled
        injection settled with same
        exact same ▸ rfl
    refine Underway.of_view ?_ same
    have last : (middle.hand conf input).1.lastWaits = handled.state.lastWaits := by
      simp only [sendingView, Prod.mk.injEq] at same
      simp only [BinkpState.lastWaits, same]
      rfl
    cases underway with
    | waiting reading slot plain made =>
      obtain waits | ⟨current, calm⟩ := hand_undisturbed middle reading (apart ready)
      · rw [last, goes] at waits
        cases waits
      · cases calm with
        | last waits =>
          rw [last, goes] at waits
          cases waits
        | same mode phase sameSlot sameGoes =>
          exact .waiting (reading.of_same mode phase current) (sameSlot.trans slot)
            (sameGoes.trans plain) made
        | replied mode phase free => exact absurd (by rw [slot]; rfl) free
    | going position sent reading plain made far =>
      obtain waits | ⟨current, calm⟩ := hand_undisturbed middle reading (apart ready)
      · rw [last, goes] at waits
        cases waits
      · cases calm with
        | last waits =>
          rw [last, goes] at waits
          cases waits
        | same mode phase sameSlot sameGoes =>
          refine .going position sent (reading.of_same mode phase current) ?_ made far
          intro command text waiting
          rw [show (middle.withState (middle.hand conf input).1).state.extraislast = _ from sameGoes]
          exact plain command text (sameSlot.symm.trans waiting)
        | replied mode phase free command text slot stays other =>
          refine .going position sent (reading.of_same mode phase current) ?_ made far
          intro later text waiting
          cases slot.symm.trans waiting
          exact ⟨stays, other⟩

/-- What interrupts a file: an M_GET, an M_GOT or M_SKIP with its name, an error, or
another batch. -/
def leavesFile (conf : BinkpConf) (finf : Finfo) (l : BinkpLoop) (input : LoopInput) : Prop :=
  Interrupts conf (turnsFrom finf) l input ∨ Restarts conf l input

/-- The rest of a turn after the block was made, where nothing interrupts the file. -/
theorem rest_underway (l made after : BinkpLoop) (here : l.batching conf input = some made)
    (underway : Underway finf content offset base made)
    (stepped : step conf l input = .more after) (quiet : ¬ leavesFile conf finf l input) :
    Underway finf content offset base after := by
  obtain ⟨calm, goes⟩ := not_or.mp quiet
  obtain ⟨other, there, ⟨again, _⟩ | ⟨again, middle, handled, arrived, handed, written⟩⟩ :=
    step_more l after stepped
  · exact absurd ⟨other, there, again⟩ goes
  · obtain rfl : made = other := Option.some.inj (here.symm.trans there)
    have around := handling_some l made middle handled here again arrived handed
    refine (handle_underway middle handled (underway.of_view (arrive_view made middle arrived))
      handed ?_ ?_).of_view (transmit_view handled after written)
    · by_contra waits
      exact calm ⟨_, around, .inl (by simpa using waits)⟩
    · intro ready taken named member
      by_contra about
      exact calm ⟨_, around, .inr ⟨ready, taken, named, member, by simpa using about⟩⟩

/-- A turn that neither ends nor interrupts a file under way leaves it under way. -/
theorem step_underway (l after : BinkpLoop) (underway : Underway finf content offset base l)
    (stepped : step conf l input = .more after) (quiet : ¬ leavesFile conf finf l input)
    (goes : ¬ EndsFile conf base l input) : Underway finf content offset base after := by
  obtain ⟨made, here, _⟩ := step_more l after stepped
  obtain ⟨_, fetched⟩ := batching_some l made here
  rcases fetch_underway l made underway fetched with ⟨_, still⟩ |
    ⟨block, produced, ⟨still, _⟩ | ⟨ends, sent, so_far, _⟩⟩
  · exact rest_underway l made after here still stepped quiet
  · exact rest_underway l made after here still stepped quiet
  · refine absurd ⟨?_, made, here, block, by simp [produced], ends⟩ goes
    rw [so_far, List.length_append]
    exact Nat.le_add_right _ _

/-- A turn that ends a file under way finds all of it made. -/
theorem ends_underway (l : BinkpLoop) (underway : Underway finf content offset base l)
    (ends : EndsFile conf base l input) :
    ∃ sent, l.produced = base ++ sent ∧ dataSent sent = content.drop offset := by
  obtain ⟨enough, made, here, block, member, ending⟩ := ends
  obtain ⟨_, fetched⟩ := batching_some l made here
  rcases fetch_underway l made underway fetched with ⟨same, _⟩ |
    ⟨other, made_too, ⟨_, short⟩ | ⟨_, done⟩⟩
  · simp [same] at member
  · obtain rfl : block = other := by simpa [made_too] using member
    exact absurd (short ending) (by omega)
  · exact done

end Underway

section Announces

variable {conf input} {finf : Finfo} {content : Bytes} {offset : Nat} {base : List Block}

/-- A file whose announcement was made in the turn is under way from then on. -/
theorem made_underway (before made : BinkpLoop) (mode : before.state.mode = .transfer)
    (streams : Streams before.state.pi) (opened : finf.fp = some ⟨content, offset⟩)
    (free : before.state.extracmd = none) (here : before.batching conf input = some made)
    (current : made.state.pi.sending = some finf)
    (produced : made.produced = before.produced ++ [announcement finf offset]) :
    Underway finf content offset made.produced made := by
  obtain ⟨_, fetched⟩ := batching_some before made here
  have follows := fetch_preserved (follows_preserved conf before.state) input before ⟨rfl, id⟩
  have positions := fetch_preserved (streams_preserved conf) input before streams
  rw [fetched] at follows positions
  obtain ⟨_, plain, still⟩ := positions finf (sending_mem current) _ opened
  have resumed : before.resume.produced = before.produced ∧ before.resume.state.mode = .transfer ∧
      before.resume.state.extracmd = none := by
    unfold resume
    split <;> exact ⟨rfl, mode, free⟩
  obtain ⟨same, mode, free⟩ := resumed
  unfold fetch at fetched
  rw [← same] at produced
  generalize before.resume = l at fetched produced mode free
  split at fetched
  · unfold fetchNext at fetched
    have idle := getforsend_extracmd conf l.state input.sending
    cases given : (l.state.getforsend conf input.sending).2 with
    | block block last =>
      rw [given] at fetched
      obtain ⟨made_too, _, phase, pi, slot, _⟩ := take_block _ _ _ _ fetched
      obtain rfl : block = announcement finf offset :=
        List.singleton_inj.mp (List.append_cancel_left (made_too.symm.trans produced))
      have sends := BinkpState.getforsend_announces l.state mode free input.sending last finf content
        offset given (by rw [← current, pi]; rfl) opened
      refine .going offset [] ⟨follows.mode.trans (by assumption), phase.trans sends, finf, current,
        rfl, opened, plain, still⟩ ?_ (List.append_nil _).symm rfl
      intro command text waiting
      exact absurd (waiting.symm.trans (slot.trans idle)) nofun
    | nothing =>
      rw [given] at fetched
      injection fetched with same
      rw [← same] at produced
      exact absurd (congrArg List.length produced) (by simp [withState])
    | noMore =>
      rw [given] at fetched
      injection fetched with same
      rw [← same] at produced
      exact absurd (congrArg List.length produced) (by simp [withState])
    | error =>
      rw [given] at fetched
      cases fetched
    | crashed =>
      rw [given] at fetched
      cases fetched
  · injection fetched with same
    rw [same] at produced
    exact absurd (congrArg List.length produced) (by simp)

/-- An M_GET that was handed over and is answered by an announcement leaves the phase of
the file's data. -/
theorem handle_answer (middle handled : BinkpLoop)
    (handed : middle.handle conf input = .more handled) (free : middle.state.extracmd = none)
    (arg : Pointer) (get : middle.command = some (.get, arg)) (text : Bytes)
    (slot : handled.state.extracmd = some (.file, text)) :
    handled.state.phase = 2 ∧ handled.state.extraislast = false := by
  rcases handle_more conf input middle handled handed with ⟨_, rfl⟩ | ⟨_, _, settled⟩
  · cases free.symm.trans slot
  · have answer : (middle.hand conf input).1.extracmd = some (.file, text) →
        (middle.hand conf input).1.phase = 2 ∧ (middle.hand conf input).1.extraislast = false := by
      refine hand_cases conf input middle (fun after => after.1.extracmd = some (.file, text) →
        after.1.phase = 2 ∧ after.1.extraislast = false) ?_ ?_ ?_
      · intro data
        simp [command, data] at get
      · intro accesses msg _
        rintro ⟨⟩
      · intro message other found waits
        obtain ⟨rfl, rfl⟩ := Prod.mk.inj (Option.some.inj (get.symm.trans found))
        obtain ⟨phase, _, goes⟩ := BinkpState.receiveGET_answer conf input.receiving
          (middle.state.touch _) arg free text waits
        exact ⟨phase, goes⟩
    rcases settle_more _ _ _ settled with ⟨_, rfl⟩ | ⟨_, same⟩
    · exact answer slot
    · rw [same] at slot ⊢
      exact answer slot

/-- A turn that announces a file leaves it under way. -/
theorem announces_underway (before after : BinkpLoop)
    (mode : before.state.mode = .transfer ∧ after.state.mode = .transfer)
    (streams : Streams before.state.pi ∧ Streams after.state.pi)
    (opened : finf.fp = some ⟨content, offset⟩)
    (stepped : step conf before input = .more after)
    (announces : Announces conf (leavesFile conf finf) before input finf offset base) :
    Underway finf content offset base after := by
  rcases announces with ⟨free, quiet, made, here, current, produced, rfl⟩ |
    ⟨⟨middle, handled⟩, around, free, ⟨arg, get⟩, current, slot, rfl⟩
  · have begun := made_underway before made mode.1 streams.1 opened free here current produced
    exact rest_underway before made after here begun stepped quiet
  · obtain ⟨made, here, ⟨again, _⟩ | ⟨again, first, second, arrived, handed, written⟩⟩ :=
      step_more before after stepped
    · simp [handling, here, again] at around
    · have same := handling_some before made first second here again arrived handed
      obtain ⟨rfl, rfl⟩ := Prod.mk.inj (Option.some.inj (around.symm.trans same))
      have view := transmit_view handled after written
      refine Underway.of_view ?_ view
      simp only [sendingView, Prod.mk.injEq] at view
      obtain ⟨_, modes, _, pi, _⟩ := view
      obtain ⟨_, plain, still⟩ := streams.2 finf (pi ▸ sending_mem current) _ opened
      obtain ⟨phase, goes⟩ := handle_answer middle handled handed free arg get _ slot
      exact .waiting ⟨modes.symm.trans mode.2, phase, finf, current, rfl, opened, plain, still⟩ slot
        goes rfl

end Announces

instance (about : Bpmsg → Bpfinfo → Bool) (l : BinkpLoop) (input : LoopInput) :
    Decidable (Interrupts conf about l input) := by
  unfold Interrupts
  infer_instance

instance (base : List Block) (l : BinkpLoop) (input : LoopInput) :
    Decidable (EndsFile conf base l input) := by
  unfold EndsFile
  infer_instance

end BinkpLoop

/-- An M_GET, M_GOT or M_SKIP for the file. -/
def namesFile (finf : Finfo) (_ : Bpmsg) (named : Bpfinfo) : Bool :=
  decide ((⟨named.fn, named.sz, named.tm⟩ : FileHint) = finf.hint)

/-- The second of two files as it is sent. -/
def secondFile : Finfo :=
  txLocal plainConf.files 0 ⟨ascii "b", 3, 0, 0, .nothing, .willsend, -1⟩ ⟨ascii "abc", 0⟩

/-- While the announcement of the second file is written, the first one is asked for
again. -/
def asksForFirst : List LoopInput :=
  [lineTurn [] true, lineTurn [] true, lineTurn [128, 8] false,
    lineTurn (9 :: ascii "a 3 0 0") true, lineTurn [] true]

end Binkleyforce
