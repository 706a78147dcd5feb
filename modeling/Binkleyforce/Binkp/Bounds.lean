import Binkleyforce.Binkp.Handshake
import Binkleyforce.Binkp.ParseBounds
import Binkleyforce.Binkp.Sides

/-!
# Whether a session stays in bounds

Every store of remote text into a field of the session stays within the field, and
every read of a received block within the block and its terminator, as long as no
block does one of three things: the argument of an M_PWD is copied with the length
of its block, which may be more than the field has; a file name of exactly
`PATH_MAX` characters has no room for its terminator; and a session that finishes
inside the header of a block, or a batch that restarts inside a block, leaves a
length that leads out of the buffer.
-/

namespace Binkleyforce

open Library

/-- All accesses of the run stay in bounds, and it does not leave the buffer of
received blocks. -/
def StaysBounded (conf : BinkpConf) (start : BinkpLoop) (inputs : List LoopInput) : Prop :=
  (run (BinkpLoop.step conf) start inputs).Ends (fun l => AllWithin l.state.accesses)
    (fun l result => AllWithin l.state.accesses ∧ result ≠ .overrun)

/-- The block that is ready lies in the buffer, and what it has copied fits. -/
def blockFits (l : BinkpLoop) : Bool :=
  !l.outside &&
    match l.command with
    | some (.pwd, _) =>
      !(decide (l.state.mode = .incomingHandshake) && l.state.addressEstablished) ||
        decide (l.handedLength ≤ Field.passwd.size)
    | some (.file, arg) | some (.got, arg) | some (.get, arg) | some (.skip, arg) =>
      decide (l.state.mode ≠ .transfer) || wordFits arg.text
    | _ => true

/-- Every block that is ready fits. -/
def BlocksFit (conf : BinkpConf) : BinkpLoop → LoopInput → Prop :=
  BinkpLoop.Arriving conf fun l _ => blockFits l = true

instance (conf : BinkpConf) (l : BinkpLoop) (input : LoopInput) :
    Decidable (BlocksFit conf l input) := by
  unfold BlocksFit
  infer_instance

/-- The names and times of the files received, which go into replies. -/
def Protinfo.receivedNames (pi : Protinfo) : List (Bytes × Int) :=
  pi.rcvdfiles.map fun finf => (finf.netName, finf.modTime)

section Names

variable (pi : Protinfo)

theorem changeRecv_names (change : Finfo → Finfo)
    (same : ∀ finf, pi.receiving = some finf →
      ((change finf).netName, (change finf).modTime) = (finf.netName, finf.modTime)) :
    (pi.changeRecv change).receivedNames = pi.receivedNames := by
  unfold Protinfo.changeRecv Protinfo.receivedNames
  split
  · rfl
  · rename_i index current
    refine List.ext_getElem? fun position => ?_
    simp only [List.getElem?_map, List.getElem?_modify]
    cases there : pi.rcvdfiles[position]? with
    | none => rfl
    | some finf =>
      simp only [Option.map_eq_map, Option.map_some, Option.some.injEq]
      split
      · rename_i here
        refine same finf ?_
        rw [Protinfo.receiving, current, Option.bind_some, here, there]
      · rfl

theorem changeSend_names (change : Finfo → Finfo) :
    (pi.changeSend change).receivedNames = pi.receivedNames := by
  unfold Protinfo.changeSend
  split <;> rfl

theorem pTxFopen_names (conf : TransferConf) (answers : TxOpenAnswers) :
    (pTxFopen conf answers pi).1.receivedNames = pi.receivedNames := by
  unfold pTxFopen
  dsimp only
  split
  · rfl
  · rfl
  · split <;> rfl

theorem pTxReopen_names (holdall : Bool) (hint : FileHint) :
    (pTxReopen holdall hint pi).1.receivedNames = pi.receivedNames := by
  unfold pTxReopen
  repeat' split
  all_goals rfl

theorem pTxRewind_names (pos : Nat) : (pTxRewind pos pi).1.receivedNames = pi.receivedNames := by
  unfold pTxRewind
  split
  · rfl
  · split
    · rfl
    · exact changeSend_names _ _

theorem pTxFclose_names (told : Bool) : (pTxFclose told pi).receivedNames = pi.receivedNames := by
  unfold pTxFclose
  split <;> rfl

theorem pTxReadfile_names (answers : TxReadAnswers) (buflen : Nat) (after : Protinfo)
    (result : TxRead) (read : pTxReadfile answers buflen pi = some (after, result)) :
    after.receivedNames = pi.receivedNames := by
  unfold pTxReadfile readNetspool at read
  dsimp only at read
  split at read
  · cases read
  · split at read
    · split at read
      · cases read
        exact changeSend_names _ _
      · split at read
        · cases read
          rw [changeSend_names, changeSend_names]
          rfl
        · cases read
          rw [changeSend_names]
          rfl
    · split at read
      · cases read
        rfl
      · cases read
        exact changeSend_names _ _

theorem pRxWritefile_names (answers : RxWriteAnswers) (buf : Bytes) (after : Protinfo)
    (result : RxWrite) (written : pRxWritefile answers buf pi = some (after, result)) :
    after.receivedNames = pi.receivedNames := by
  have kept : ∀ stream finf, ((writeStream answers buf stream finf).1.netName,
      (writeStream answers buf stream finf).1.modTime) = (finf.netName, finf.modTime) := by
    intro stream finf
    unfold writeStream
    repeat' split
    all_goals rfl
  unfold pRxWritefile at written
  split at written
  · cases written
  · rename_i finf current
    split at written
    · cases written
    · rename_i stream opened
      cases written
      refine changeRecv_names _ _ fun other found => ?_
      obtain rfl : finf = other := Option.some.inj (current.symm.trans found)
      exact kept stream finf

theorem pRxFclose_names (answers : RxCloseAnswers) (after : Protinfo) (result : Bool)
    (closed : pRxFclose answers pi = some (after, result)) :
    after.receivedNames = pi.receivedNames := by
  have closing : (pi.changeRecv fun finf => { finf with fp := none }).receivedNames =
      pi.receivedNames := changeRecv_names _ _ fun _ _ => rfl
  have refusing : ∀ pi : Protinfo,
      (pi.changeRecv fun finf => { finf with status := .refused }).receivedNames =
        pi.receivedNames := fun _ => changeRecv_names _ _ fun _ _ => rfl
  unfold pRxFclose rxCommit at closed
  dsimp only at closed
  repeat' split at closed
  all_goals cases closed
  all_goals first
    | exact closing
    | exact (refusing _).trans closing

/-- Opening a file for receiving adds its name and time at most. -/
theorem pRxFopen_names (conf : TransferConf) (answers : RxOpenAnswers) (hint : FileHint) :
    ∀ entry ∈ (pRxFopen conf answers hint pi).1.receivedNames,
      entry ∈ pi.receivedNames ∨ entry = (hint.fn, hint.tm) := by
  have opened : ∀ finf : Finfo, ((rxOpenStream conf answers finf).1.netName,
      (rxOpenStream conf answers finf).1.modTime) = (finf.netName, finf.modTime) := by
    intro finf
    unfold rxOpenStream
    dsimp only
    repeat' split
    all_goals rfl
  have existing : ∀ finf : Finfo, ((rxExisting conf answers finf).1.netName,
      (rxExisting conf answers finf).1.modTime) = (finf.netName, finf.modTime) := by
    intro finf
    unfold rxExisting
    repeat' split
    all_goals rfl
  have named : ((rxNew conf answers hint).1.netName, (rxNew conf answers hint).1.modTime) =
      (hint.fn, hint.tm) := by
    unfold rxNew
    dsimp only
    split
    · rfl
    · split
      · rfl
      · by_cases plain : (hasType (conf.filetype hint.fn) typeRequest ||
            hasType (conf.filetype hint.fn) typeNetmail) = true
        · simp only [plain, if_true]
          exact opened _
        · simp only [plain, Bool.false_eq_true, if_false]
          split
          · exact existing _
          · exact (opened _).trans (existing _)
  unfold pRxFopen
  split
  · exact fun entry member => .inl member
  · intro entry member
    simp only [Protinfo.receivedNames, List.map_append, List.map_singleton, List.mem_append,
      List.mem_singleton] at member
    exact member.imp_right fun new => new.trans named

end Names

/-- What holds throughout a session that stays in bounds. -/
structure Bounded (b : BinkpState) : Prop where
  within : AllWithin b.accesses
  opt : b.remoteData.opt.length < Field.opt.size
  named : ∀ entry ∈ b.pi.receivedNames, entry.1.length < pathMax ∧ entry.2.natAbs < 2 ^ 64

section Bounded

variable {b : BinkpState}

/-- It depends on these parts of the state only. -/
theorem bounded_same {after : BinkpState} (bounded : Bounded b)
    (accesses : after.accesses = b.accesses) (opt : after.remoteData.opt = b.remoteData.opt)
    (names : after.pi.receivedNames = b.pi.receivedNames) : Bounded after :=
  ⟨accesses ▸ bounded.within, opt ▸ bounded.opt, names ▸ bounded.named⟩

theorem bounded_pi (bounded : Bounded b) (pi : Protinfo)
    (names : pi.receivedNames = b.pi.receivedNames) : Bounded { b with pi } :=
  bounded_same bounded rfl rfl names

/-- Further accesses in bounds keep it. -/
theorem bounded_touch (bounded : Bounded b) (accesses : List Access)
    (within : AllWithin accesses) : Bounded (b.touch accesses) where
  within := allWithin_append.mpr ⟨bounded.within, within⟩
  opt := bounded.opt
  named := bounded.named

theorem bounded_protoError (bounded : Bounded b) (msg : Bytes) :
    Bounded (b.protoError msg).1 := bounded_same bounded rfl rfl rfl

theorem bounded_refuse (bounded : Bounded b) (message : Bpmsg) (text : Bytes)
    (result : ReceiveResult) : Bounded (b.refuse message text result).1 := by
  unfold BinkpState.refuse
  split
  · exact bounded
  · exact bounded_same bounded rfl rfl rfl

/-- A printed name, size and time is short. -/
theorem fileText_length (file : FileHint) (name : file.fn.length < pathMax)
    (time : file.tm.natAbs < 2 ^ 64) : (fileText file).length < pathMax + 44 := by
  have size := printInt_length (toLong file.sz) (toLong_natAbs file.sz)
  have stamp := printInt_length file.tm time
  have space : (ascii " ").length = 1 := rfl
  simp only [fileText, List.length_append]
  omega

/-- A reply of that length fits. -/
theorem bounded_reply (bounded : Bounded b) (message : Bpmsg) (text : Bytes)
    (short : text.length < pathMax + 100) : Bounded (b.reply message text) := by
  have queued : Bounded (b.queue message text false) := bounded_same bounded rfl rfl rfl
  refine bounded_touch queued _ ?_
  have room : Field.extracmd.size = 32769 := rfl
  simp only [allWithin_cons, store_within, allWithin_nil, and_true]
  unfold pathMax at short
  omega

/-- So does a reply about the file being received. -/
theorem bounded_replyRecv (bounded : Bounded b) (message : Bpmsg) (offset : Bytes)
    (short : offset.length < 50) : Bounded (b.replyRecv message offset) := by
  unfold BinkpState.replyRecv
  split
  · exact bounded
  · rename_i finf current
    obtain ⟨index, _, there⟩ := Option.bind_eq_some_iff.mp current
    have known := bounded.named (finf.netName, finf.modTime)
      (List.mem_map_of_mem (f := fun finf : Finfo => (finf.netName, finf.modTime))
        (List.mem_of_getElem? there))
    have text := fileText_length finf.hint known.1 known.2
    refine bounded_reply bounded message _ ?_
    simp only [List.length_append]
    omega

variable {conf : BinkpConf} {arg : Pointer}

/-! ## The handshake's commands -/

theorem bounded_receiveADR (bounded : Bounded b) (inside : arg.Inside) :
    Bounded (b.receiveADR conf arg).1 := by
  have added : Bounded (b.addAddrs arg) :=
    bounded_same (bounded_touch bounded [arg.read] (by simp [arg.read_within inside])) rfl rfl rfl
  unfold BinkpState.receiveADR
  generalize b.addAddrs arg = after at added
  dsimp only
  split
  · exact bounded_protoError bounded _
  · split
    · exact bounded
    · split
      · exact bounded_refuse added _ _ _
      · split
        · unfold BinkpState.checkCalled
          dsimp only
          split
          · exact bounded_same added rfl rfl rfl
          · split <;> exact bounded_same added rfl rfl rfl
        · split <;> exact bounded_same added rfl rfl rfl

/-- A password that fits is copied in bounds. -/
theorem bounded_authenticate (bounded : Bounded b) (inside : arg.Inside) (blockLength : Nat)
    (fits : blockLength ≤ Field.passwd.size) :
    Bounded (b.authenticate conf arg blockLength).1 := by
  have copied := copyField_within .passwd inside blockLength fits
  refine ⟨?_, bounded.opt, bounded.named⟩
  simp only [BinkpState.authenticate, BinkpState.check, BinkpState.touch, allWithin_append,
    allWithin_cons, store_within, allWithin_nil, and_true]
  exact ⟨bounded.within, copied, Nat.le_refl _⟩

theorem bounded_receivePWD (bounded : Bounded b) (inside : arg.Inside)
    (answers : ReceiveAnswers) (blockLength : Nat)
    (fits : b.mode = .incomingHandshake → b.addressEstablished = true →
      blockLength ≤ Field.passwd.size) :
    Bounded (b.receivePWD conf answers arg blockLength).1 := by
  unfold BinkpState.receivePWD
  split
  · exact bounded_protoError bounded _
  · rename_i answering
    split
    · exact bounded_protoError bounded _
    · rename_i known
      have copied := @bounded_authenticate b conf arg bounded inside blockLength
        (fits (by simpa using answering) (by simpa using known))
      generalize b.authenticate conf arg blockLength = checked at copied
      dsimp only
      split
      · exact bounded_refuse copied _ _ _
      · have locked : Bounded (checked.1.lockAddrs answers.lock).1 :=
          bounded_same copied rfl rfl rfl
        split
        · exact bounded_refuse locked _ _ _
        · exact bounded_same locked rfl rfl rfl

theorem bounded_receiveOK (bounded : Bounded b) (answers : ReceiveAnswers) :
    Bounded (b.receiveOK answers).1 := by
  have locked : Bounded ((b.check .receivedOK).lockAddrs answers.lock).1 :=
    bounded_same bounded rfl rfl rfl
  unfold BinkpState.receiveOK
  split
  · exact bounded_protoError bounded _
  · dsimp only
    split
    · exact bounded_refuse locked _ _ _
    · exact bounded_same locked rfl rfl rfl

theorem bounded_receiveNUL (bounded : Bounded b) (inside : arg.Inside) :
    Bounded (b.receiveNUL arg).1 := by
  obtain ⟨within, opt⟩ := binkpProcessNUL_bounds bounded.opt inside
  exact ⟨allWithin_append.mpr ⟨bounded.within, within⟩, opt, bounded.named⟩

/-! ## The receiving side -/

/-- The printed offset of a reply is short. -/
theorem offsetText_length (offset : Nat) :
    (ascii " " ++ printInt (toLong offset)).length < 50 := by
  have digits := printInt_length (toLong offset) (toLong_natAbs offset)
  have space : (ascii " ").length = 1 := rfl
  simp only [List.length_append]
  omega

theorem bounded_startFile (bounded : Bounded b) (answers : ReceiveAnswers) (recvfi : Bpfinfo)
    (short : recvfi.fn.length < pathMax ∧ recvfi.tm.natAbs < 2 ^ 64) :
    Bounded (b.startFile conf answers recvfi).1 := by
  have names := pRxFopen_names b.pi conf.files answers.rxOpen ⟨recvfi.fn, recvfi.sz, recvfi.tm⟩
  have opened : Bounded { b with pi := (pRxFopen conf.files answers.rxOpen
      ⟨recvfi.fn, recvfi.sz, recvfi.tm⟩ b.pi).1 } := by
    refine ⟨bounded.within, bounded.opt, fun entry member => ?_⟩
    rcases names entry member with old | rfl
    · exact bounded.named entry old
    · exact short
  have replied := fun message offset small =>
    bounded_replyRecv opened message offset small
  unfold BinkpState.startFile
  dsimp only
  split
  · exact opened
  · split
    · split
      · exact bounded_same opened rfl rfl rfl
      · exact bounded_same (replied .get _ (offsetText_length _)) rfl rfl rfl
    · exact bounded_same (replied .skip [] (by decide)) rfl rfl rfl
    · exact bounded_same (replied .got [] (by decide)) rfl rfl rfl

theorem bounded_resumeFile (bounded : Bounded b) (answers : ReceiveAnswers) (recvfi : Bpfinfo)
    (short : recvfi.fn.length < pathMax ∧ recvfi.tm.natAbs < 2 ^ 64) :
    Bounded (b.resumeFile answers recvfi).1 := by
  unfold BinkpState.resumeFile
  split
  · exact bounded_same bounded rfl rfl rfl
  · split
    · exact bounded
    · have text := fileText_length ⟨recvfi.fn, recvfi.sz, recvfi.tm⟩ short.1 short.2
      have offset := offsetText_length answers.garbage
      refine bounded_reply bounded _ _ ?_
      simp only [List.length_append] at offset ⊢
      omega

theorem bounded_receiveFILE (bounded : Bounded b) (inside : arg.Inside)
    (answers : ReceiveAnswers) (fits : b.mode = .transfer → wordFits arg.text = true) :
    Bounded (b.receiveFILE conf answers arg).1 := by
  unfold BinkpState.receiveFILE
  split
  · exact bounded_protoError bounded _
  · rename_i transfer
    obtain ⟨within, short⟩ := binkpParsfinfo_bounds inside true answers.high
      (fits (by simpa using transfer))
    have touched := bounded_touch bounded _ within
    dsimp only
    split
    · exact bounded_protoError touched _
    · rename_i recvfi parsed
      have counted : Bounded { b.touch (binkpParsfinfo arg true answers.high).2 with
          batchRecvCount := b.batchRecvCount + 1 } := bounded_same touched rfl rfl rfl
      split
      · exact bounded_protoError counted _
      · exact bounded_resumeFile counted answers recvfi (short recvfi parsed)
      all_goals
        split
        · exact counted
        · exact bounded_startFile counted answers recvfi (short recvfi parsed)

theorem bounded_writeFailed (bounded : Bounded b) (answers : ReceiveAnswers) (result : RxWrite) :
    Bounded (b.writeFailed answers result).1 := by
  have replied := bounded_replyRecv bounded (if result = .skip then .got else .skip) []
    (by decide)
  unfold BinkpState.writeFailed
  dsimp only
  generalize b.replyRecv _ [] = after at replied
  split
  · exact bounded_same replied rfl rfl rfl
  · rename_i closed
    exact bounded_same replied rfl rfl (pRxFclose_names _ _ _ _ closed)

theorem bounded_writeDone (bounded : Bounded b) (answers : ReceiveAnswers) (blockLength : Nat) :
    Bounded (b.writeDone answers blockLength).1 := by
  have counted : (b.pi.changeRecv fun finf =>
      { finf with bytesReceived := finf.bytesReceived + blockLength }).receivedNames =
        b.pi.receivedNames := changeRecv_names _ _ fun _ _ => rfl
  have marked : ∀ status, ((b.pi.changeRecv fun finf =>
      { finf with bytesReceived := finf.bytesReceived + blockLength }).changeRecv fun finf =>
        { finf with status }).receivedNames = b.pi.receivedNames := fun _ =>
    Eq.trans (changeRecv_names _ _ fun _ _ => rfl) counted
  unfold BinkpState.writeDone
  dsimp only
  split
  · exact bounded_same bounded rfl rfl counted
  · split
    · split
      · exact bounded_same bounded rfl rfl (marked _)
      · rename_i closed
        exact bounded_same bounded rfl rfl ((pRxFclose_names _ _ _ _ closed).trans (marked _))
    · split
      · split
        · exact bounded_same bounded rfl rfl (marked _)
        · rename_i pi closed
          have put : Bounded { b with pi, frs := .nothing } :=
            bounded_same bounded rfl rfl ((pRxFclose_names _ _ _ _ closed).trans (marked _))
          exact bounded_same (bounded_replyRecv put .got [] (by decide)) rfl rfl rfl
        · rename_i pi closed
          have put : Bounded { b with pi, frs := .nothing } :=
            bounded_same bounded rfl rfl ((pRxFclose_names _ _ _ _ closed).trans (marked _))
          exact bounded_same (bounded_replyRecv put .skip [] (by decide)) rfl rfl rfl
      · exact bounded_same bounded rfl rfl counted

/-- Data that lies within its block is written in bounds. -/
theorem bounded_receiveData (bounded : Bounded b) (answers : ReceiveAnswers) (buf : Pointer)
    (blockLength : Nat)
    (inside : b.frs = .data → b.extracmd.isNone = true → blockLength ≤ buf.blockLength + 1) :
    Bounded (b.receiveData answers buf blockLength).1 := by
  unfold BinkpState.receiveData
  split
  · exact bounded
  · split
    · exact bounded_protoError bounded _
    · exact bounded
    · exact bounded
    · rename_i receiving
      split
      · exact bounded
      · rename_i free
        have touched := bounded_touch bounded [.read blockLength buf.blockLength]
          (by simpa [Access.Within] using inside receiving (by simpa using free))
        dsimp only
        split
        · exact touched
        · rename_i written
          exact bounded_writeDone (bounded_pi touched _ (pRxWritefile_names _ _ _ _ _ written))
            answers blockLength
        · rename_i written
          exact bounded_writeFailed (bounded_pi touched _ (pRxWritefile_names _ _ _ _ _ written))
            answers _

/-! ## The sending side -/

theorem bounded_gotSkipNamed (bounded : Bounded b) (answers : ReceiveAnswers) (skip : Bool)
    (fi : FileHint) : Bounded (b.gotSkipNamed answers skip fi).1 := by
  have closed : ∀ gots index status,
      Bounded (({ b with gots } : BinkpState).closeNamed answers.told index status) := by
    intro gots index status
    unfold BinkpState.closeNamed BinkpState.checkConfirmed
    dsimp only
    have names := (pTxFclose_names ({ b.pi with send := some index }.changeSend
      fun finf => { finf with status }) answers.told).trans (changeSend_names _ _)
    split <;> exact bounded_same bounded rfl rfl names
  unfold BinkpState.gotSkipNamed
  dsimp only
  split
  · exact bounded_protoError bounded _
  · split
    · split
      · exact bounded_same bounded rfl rfl rfl
      · exact closed b.gots _ _
    · split
      · exact closed _ _ _
      · split
        · exact bounded_same bounded rfl rfl rfl
        · exact closed _ _ _

theorem bounded_receiveGotSkip (bounded : Bounded b) (inside : arg.Inside)
    (answers : ReceiveAnswers) (skip : Bool)
    (fits : b.mode = .transfer → wordFits arg.text = true) :
    Bounded (b.receiveGotSkip answers skip arg).1 := by
  unfold BinkpState.receiveGotSkip
  split
  · exact bounded_protoError bounded _
  · rename_i transfer
    obtain ⟨within, _⟩ := binkpParsfinfo_bounds inside false answers.high
      (fits (by simpa using transfer))
    have touched := bounded_touch bounded _ within
    dsimp only
    split
    · exact bounded_protoError touched _
    · split
      · exact touched
      · split
        · split
          · exact bounded_protoError touched _
          · refine bounded_gotSkipNamed (bounded_same touched ?_ ?_ ?_) _ _ _
            · rfl
            · rfl
            · exact pTxFclose_names _ _
        · exact bounded_gotSkipNamed touched _ _ _

theorem bounded_announceAt (bounded : Bounded b) (offset : Nat) :
    Bounded (b.announceAt offset) := by
  unfold BinkpState.announceAt
  split <;> exact bounded_same bounded rfl rfl rfl

theorem bounded_reopenAt (bounded : Bounded b) (answers : ReceiveAnswers) (getfi : Bpfinfo) :
    Bounded (b.reopenAt conf answers getfi).1 := by
  have reopened := pTxReopen_names b.pi conf.files.holdall ⟨getfi.fn, getfi.sz, getfi.tm⟩
  unfold BinkpState.reopenAt
  split
  · rename_i pi found
    rw [found] at reopened
    exact bounded_same bounded rfl rfl reopened
  · rename_i pi found
    rw [found] at reopened
    have rewound := (pTxRewind_names pi getfi.offs).trans reopened
    split
    · rename_i sought
      rw [sought] at rewound
      exact bounded_same bounded rfl rfl ((pTxFclose_names _ _).trans rewound)
    · rename_i sought
      rw [sought] at rewound
      refine bounded_announceAt (bounded_same bounded ?_ ?_ ?_) _
      · rfl
      · rfl
      · exact (changeSend_names _ _).trans rewound

theorem bounded_rewindTo (bounded : Bounded b) (answers : ReceiveAnswers) (offset : Nat)
    (msg : Bytes) : Bounded (b.rewindTo answers offset msg).1 := by
  have rewound := pTxRewind_names b.pi offset
  unfold BinkpState.rewindTo
  split
  · rename_i sought
    rw [sought] at rewound
    exact bounded_same bounded rfl rfl ((pTxFclose_names _ _).trans rewound)
  · rename_i sought
    rw [sought] at rewound
    refine bounded_announceAt (bounded_same bounded ?_ ?_ ?_) _
    · rfl
    · rfl
    · exact (changeSend_names _ _).trans rewound

theorem bounded_receiveGET (bounded : Bounded b) (inside : arg.Inside)
    (answers : ReceiveAnswers) (fits : b.mode = .transfer → wordFits arg.text = true) :
    Bounded (b.receiveGET conf answers arg).1 := by
  unfold BinkpState.receiveGET
  split
  · exact bounded_protoError bounded _
  · rename_i transfer
    obtain ⟨within, _⟩ := binkpParsfinfo_bounds inside true answers.high
      (fits (by simpa using transfer))
    have touched := bounded_touch bounded _ within
    dsimp only
    split
    · exact bounded_protoError touched _
    · split
      · exact touched
      · split
        · exact bounded_reopenAt touched answers _
        · split
          · exact bounded_announceAt touched _
          · split
            · exact bounded_same touched rfl rfl rfl
            · split
              · exact bounded_rewindTo touched answers _ _
              · exact bounded_reopenAt touched answers _

/-! ## The loop -/

/-- Making the keys of a session leaves the collected options. -/
theorem handshakeEnd_opt : (b.handshakeEnd conf).1.remoteData.opt = b.remoteData.opt := by
  have fold : ∀ step : BinkpSysinfo → Sysaddr → BinkpSysinfo,
      (∀ remote entry, (step remote entry).opt = remote.opt) →
      ∀ (addrs : List Sysaddr) (remote : BinkpSysinfo), (addrs.foldl step remote).opt = remote.opt := by
    intro step same addrs
    induction addrs with
    | nil => exact fun _ => rfl
    | cons entry rest inductionHypothesis =>
      exact fun remote => (inductionHypothesis _).trans (same remote entry)
  unfold BinkpState.handshakeEnd
  split
  · refine fold _ (fun remote entry => ?_) _ _
    split <;> rfl
  · rfl

/-- Making the next block keeps it. -/
theorem bounded_getforsend (bounded : Bounded b) (answers : SendAnswers) :
    Bounded (b.getforsend conf answers).1 := by
  have opened := pTxFopen_names b.pi { conf.files with noRemoteaddr := b.remoteaddrs.isEmpty }
    answers.opening
  have nextFile : ∀ b : BinkpState, Bounded b → Bounded (b.sendNextFile conf answers).1 := by
    intro b bounded
    have opened := pTxFopen_names b.pi
      { conf.files with noRemoteaddr := b.remoteaddrs.isEmpty } answers.opening
    unfold BinkpState.sendNextFile
    split
    · rename_i pi made
      rw [made] at opened
      exact bounded_same bounded rfl rfl opened
    · rename_i pi made
      rw [made] at opened
      dsimp only
      split
      · split <;> exact bounded_same bounded rfl rfl opened
      · unfold BinkpState.sendFile
        split <;> exact bounded_same bounded rfl rfl opened
  have await : ∀ b : BinkpState, Bounded b → Bounded (b.awaitAck conf answers).1 := by
    intro b bounded
    unfold BinkpState.awaitAck
    split
    · exact bounded
    · split
      · exact bounded
      · exact nextFile _ (bounded_same bounded rfl rfl rfl)
  unfold BinkpState.getforsend
  split
  · dsimp only
    split <;> exact bounded_same bounded rfl rfl rfl
  · split
    · unfold BinkpState.transferForsend
      split
      · exact nextFile b bounded
      · unfold BinkpState.sendFile
        split <;> exact bounded_same bounded rfl rfl rfl
      · unfold BinkpState.sendData
        split
        · exact bounded
        · rename_i pi read
          refine await _ (bounded_same bounded ?_ ?_ ?_)
          · rfl
          · rfl
          · exact (changeSend_names _ _).trans (pTxReadfile_names _ _ _ _ _ read)
        · rename_i read
          exact bounded_same bounded rfl rfl
            ((changeSend_names _ _).trans (pTxReadfile_names _ _ _ _ _ read))
        · rename_i read
          exact bounded_pi bounded _ (pTxReadfile_names _ _ _ _ _ read)
        · rename_i read
          exact bounded_pi bounded _ (pTxReadfile_names _ _ _ _ _ read)
      · exact await b bounded
      · exact bounded_same bounded rfl rfl rfl
      · exact bounded
      · exact bounded_same bounded rfl rfl rfl
    · unfold BinkpState.handshakeForsend BinkpState.sendChallenge BinkpState.sendSysinfo
        BinkpState.sendPassword
      dsimp only
      repeat' split
      all_goals first
        | exact bounded_same bounded rfl rfl rfl
        | exact bounded_same bounded (by unfold BinkpState.handshakeEnd; split <;> rfl)
            handshakeEnd_opt (by unfold BinkpState.handshakeEnd; split <;> rfl)

/-- The argument of a command that is handed over lies within the block. -/
theorem blockCommand_inside (memory : Bytes) (received blockLength : Nat) (message : Bpmsg)
    (arg : Pointer) (long : 0 < blockLength) (fits : blockLength ≤ received)
    (found : BinkpState.blockCommand memory received blockLength = some (message, arg)) :
    arg.Inside := by
  unfold BinkpState.blockCommand at found
  obtain ⟨_, _, made⟩ := Option.map_eq_some_iff.mp found
  obtain ⟨_, rfl⟩ := Prod.mk.inj made
  have text : (cstring ((BinkpState.fence memory blockLength).drop 1)).length + 1 ≤ blockLength := by
    unfold BinkpState.fence
    have taken : (memory.take blockLength).length ≤ blockLength := List.length_take_le _ _
    cases start : memory.take blockLength with
    | nil =>
      have empty : memory = [] := by
        rcases List.take_eq_nil_iff.mp start with zero | empty
        · omega
        · exact empty
      simp [empty, cstring]
      omega
    | cons char rest =>
      have ends := cstring_terminated rest (memory.drop (blockLength + 1))
      rw [start] at taken
      simp only [List.cons_append, List.drop_succ_cons, List.drop_zero, List.length_cons] at taken ⊢
      omega
  simp only [Pointer.Inside, Pointer.text, Pointer.advance]
  omega

/-- A block that fits is handled in bounds. -/
theorem bounded_hand (l : BinkpLoop) (input : LoopInput) (ready : l.ready = true)
    (kept : Bounded l.state) (fits : blockFits l = true) : Bounded (l.hand conf input).1 := by
  simp only [blockFits, Bool.and_eq_true, Bool.not_eq_true'] at fits
  obtain ⟨inside, copied⟩ := fits
  have position : l.readPos ≠ 0 := by
    simp only [BinkpLoop.ready, Bool.and_eq_true, decide_eq_true_eq] at ready
    exact ready.2
  have length : l.handedLength ≤ binkpMaxblock + 1 → l.handedLength ≤ l.readPos - binkpHeader := by
    unfold BinkpLoop.handedLength binkpMaxblock binkpHeader
    omega
  refine BinkpLoop.hand_cases conf input l (fun after => Bounded after.1) ?_ ?_ ?_
  · intro type
    refine bounded_receiveData kept input.receiving _ _ fun receiving free => ?_
    have within : l.handedLength ≤ binkpMaxblock + 1 := by
      simpa [BinkpLoop.outside, type, receiving, free] using inside
    exact Nat.le_succ_of_le (length within)
  · intro accesses msg which
    refine bounded_protoError (bounded_touch kept _ ?_) msg
    rcases which with rfl | rfl <;> simp [Access.Within]
  · intro message arg found
    have touched : Bounded (l.state.touch [.read 1 (l.readPos - binkpHeader)]) :=
      bounded_touch kept _ (by simp [Access.Within])
    rw [found] at copied
    have argument : arg.Inside := by
      unfold BinkpLoop.command at found
      cases type : BinkpLoop.headerType l.readbuf with
      | data => simp [type] at found
      | cmd =>
        rw [type] at found
        dsimp only at found
        split at found
        · cases found
        · rename_i long
          have within : l.handedLength ≤ binkpMaxblock := by
            simpa [BinkpLoop.outside, type] using inside
          exact blockCommand_inside _ _ _ message arg (by omega)
            (length (Nat.le_succ_of_le within)) found
    have word : (decide (l.state.mode ≠ .transfer) || wordFits arg.text) = true →
        (l.state.touch [.read 1 (l.readPos - binkpHeader)]).mode = .transfer →
          wordFits arg.text = true := by
      intro either transfer
      simpa [show l.state.mode = .transfer from transfer] using either
    have reads : AllWithin [arg.read] := by simp [arg.read_within argument]
    have named : ∀ skip, (decide (l.state.mode ≠ .transfer) || wordFits arg.text) = true →
        Bounded ((l.state.touch [.read 1 (l.readPos - binkpHeader)]).receiveGotSkip
          input.receiving skip arg).1 := fun skip either =>
      bounded_receiveGotSkip touched argument input.receiving skip (word either)
    cases message with
    | nul => exact bounded_receiveNUL touched argument
    | adr => exact bounded_receiveADR touched argument
    | pwd =>
      refine bounded_receivePWD touched argument input.receiving _ fun answering known => ?_
      simpa [show l.state.mode = .incomingHandshake from answering,
        show l.state.addressEstablished = true from known] using copied
    | file => exact bounded_receiveFILE touched argument input.receiving (word copied)
    | ok => exact bounded_receiveOK touched input.receiving
    | eob =>
      show Bounded (BinkpState.receiveEOB _).1
      unfold BinkpState.receiveEOB
      split
      · exact bounded_protoError touched _
      · exact bounded_same touched rfl rfl rfl
    | got => exact named false copied
    | err => exact bounded_same (bounded_touch touched [arg.read] reads) rfl rfl rfl
    | bsy => exact bounded_same (bounded_touch touched [arg.read] reads) rfl rfl rfl
    | get => exact bounded_receiveGET touched argument input.receiving (word copied)
    | skip => exact named true copied

/-- Turns whose blocks fit keep it. -/
theorem bounded_preserved (conf : BinkpConf) :
    BinkpLoop.Preserved conf (fun l _ => blockFits l = true) Bounded Bounded where
  weaken _ kept := kept
  keys _ _ _ kept := bounded_same kept rfl rfl rfl
  resume _ kept := bounded_same kept rfl rfl rfl
  idle _ kept := bounded_same kept rfl rfl rfl
  fetch _ answers kept := SendResult.keeps_of _ (bounded_getforsend kept answers)
  restart _ kept _ := bounded_same kept rfl rfl rfl
  finish _ kept _ _ := bounded_same kept rfl rfl rfl
  hand l input ready _ fits kept := ReceiveResult.keeps_of _ (bounded_hand l input ready kept fits)
  abort _ kept _ := bounded_same kept rfl rfl rfl

end Bounded

/-- In every run of a session whose blocks fit, in a handshake or a transfer, all
accesses stay in bounds. -/
theorem session_bounded (conf : BinkpConf) (b : BinkpState)
    (terminated : b.remoteData.opt.length < Field.opt.size) (fresh : b.pi.rcvdfiles = [])
    (inputs : List LoopInput)
    (fits : Along (BlocksFit conf) (BinkpLoop.step conf) (BinkpLoop.start b) inputs) :
    StaysBounded conf (BinkpLoop.start b) inputs := by
  have initial : Bounded (BinkpLoop.start b).state := by
    refine ⟨allWithin_nil, terminated, fun entry member => ?_⟩
    simp [BinkpLoop.start, Protinfo.receivedNames, fresh] at member
  have handed : ∀ l input, BlocksFit conf l input →
      BinkpLoop.Handing conf (fun l _ => blockFits l = true) l input := by
    intro l input allowed
    unfold BlocksFit BinkpLoop.Arriving at allowed
    unfold BinkpLoop.Handing BinkpLoop.Arriving
    split
    · trivial
    · rename_i found
      rw [found] at allowed
      exact fun _ => allowed
  have kept := BinkpLoop.run_preserved (bounded_preserved conf) _ initial inputs
    (along_mono handed _ inputs fits)
  have stays := run_invariant (fun _ => True) (fun _ result => result ≠ .overrun)
    (fun _ _ _ _ _ _ => trivial)
    (fun before input after result _ (allowed : BlocksFit conf before input) taken => by
      rintro rfl
      obtain ⟨middle, found, outside⟩ := BinkpLoop.step_overrun before after input taken
      unfold BlocksFit BinkpLoop.Arriving at allowed
      rw [found] at allowed
      simp [blockFits, outside] at allowed) _ trivial inputs fits
  unfold StaysBounded
  cases ended : run (BinkpLoop.step conf) (BinkpLoop.start b) inputs with
  | more final =>
    rw [ended] at kept
    exact kept.within
  | halt final result =>
    rw [ended] at kept stays
    exact ⟨kept.1.within, stays⟩

/-- A password as long as the field allows: the handshake stays in bounds. -/
theorem longest_password_bounded :
    StaysBounded secretConf (binkpIncoming {} {}) (callFrom (List.replicate 64 97)) :=
  session_bounded secretConf { mode := .incomingHandshake, pi := .empty } (by decide) rfl
    (callFrom (List.replicate 64 97)) (by decide)

/-- A longer password is copied over the end of the field. -/
theorem long_password_overflows :
    ¬ StaysBounded secretConf (binkpIncoming {} {}) (callFrom (List.replicate 100 97)) := by
  have overflow : (run (BinkpLoop.step secretConf) (binkpIncoming {} {})
      (callFrom (List.replicate 100 97))).Ends
        (fun l => Access.store .passwd 101 ∈ l.state.accesses)
        (fun l _ => Access.store .passwd 101 ∈ l.state.accesses) := by decide
  have beyond : ¬ (Access.store .passwd 101).Within := by decide
  intro bounded
  unfold StaysBounded at bounded
  cases ended : run (BinkpLoop.step secretConf) (binkpIncoming {} {})
      (callFrom (List.replicate 100 97)) with
  | more final =>
    rw [ended] at bounded overflow
    exact beyond (bounded _ overflow)
  | halt final result =>
    rw [ended] at bounded overflow
    exact beyond (bounded.1 _ overflow)

end Binkleyforce
