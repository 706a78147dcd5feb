import Binkleyforce.Binkp.Invariants
import Binkleyforce.Transfer.Sides

/-!
# The two sides of a session

A transfer sends and receives at once, and most of what the loop does concerns one
side only. Each block concerns one of them: M_GOT, M_SKIP and M_GET the sending
side, M_FILE and data the receiving side, all others neither.
-/

namespace Binkleyforce

namespace BinkpState

/-- The part of the state that the sending of files concerns. -/
def sendingSide (b : BinkpState) :
    (List Finfo × Option Nat × Netspool × List Disposal × Traffic) × List FileHint × Bool :=
  (b.pi.sendingPart, b.gots, b.waitingGot)

section Sending

variable (conf : BinkpConf) (answers : ReceiveAnswers) (b : BinkpState) (arg : Pointer)

theorem checkCalled_sendingSide : (b.checkCalled conf).1.sendingSide = b.sendingSide := by
  unfold checkCalled
  dsimp only
  split
  · rfl
  · split <;> rfl

theorem receiveADR_sendingSide : (b.receiveADR conf arg).1.sendingSide = b.sendingSide := by
  unfold receiveADR
  have added : (b.addAddrs arg).sendingSide = b.sendingSide := rfl
  generalize b.addAddrs arg = after at added
  dsimp only
  split
  · rfl
  · split
    · rfl
    · split
      · unfold refuse
        split <;> exact added
      · split
        · exact (checkCalled_sendingSide conf after).trans added
        · split <;> exact added

theorem receivePWD_sendingSide (blockLength : Nat) :
    (b.receivePWD conf answers arg blockLength).1.sendingSide = b.sendingSide := by
  unfold receivePWD refuse
  dsimp only
  repeat' split
  all_goals rfl

theorem receiveOK_sendingSide : (b.receiveOK answers).1.sendingSide = b.sendingSide := by
  unfold receiveOK refuse
  dsimp only
  repeat' split
  all_goals rfl

theorem replyRecv_sendingSide (message : Bpmsg) (offset : Bytes) :
    (b.replyRecv message offset).sendingSide = b.sendingSide := by
  unfold replyRecv
  split <;> rfl

theorem startFile_sendingSide (recvfi : Bpfinfo) :
    (b.startFile conf answers recvfi).1.sendingSide = b.sendingSide := by
  have opened := pRxFopen_sendingPart b.pi conf.files answers.rxOpen
    ⟨recvfi.fn, recvfi.sz, recvfi.tm⟩
  have kept : ({ b with pi := (pRxFopen conf.files answers.rxOpen
      ⟨recvfi.fn, recvfi.sz, recvfi.tm⟩ b.pi).1 } : BinkpState).sendingSide = b.sendingSide := by
    simp only [sendingSide, opened]
  unfold startFile
  dsimp only
  split
  · exact kept
  · split
    · split
      · exact kept
      · exact (replyRecv_sendingSide _ _ _).trans kept
    · exact (replyRecv_sendingSide _ _ _).trans kept
    · exact (replyRecv_sendingSide _ _ _).trans kept

theorem resumeFile_sendingSide (recvfi : Bpfinfo) :
    (b.resumeFile answers recvfi).1.sendingSide = b.sendingSide := by
  unfold resumeFile
  repeat' split
  all_goals rfl

theorem receiveFILE_sendingSide : (b.receiveFILE conf answers arg).1.sendingSide = b.sendingSide := by
  unfold receiveFILE
  dsimp only
  split
  · rfl
  · split
    · rfl
    · split
      · rfl
      · exact resumeFile_sendingSide answers _ _
      all_goals
        split
        · rfl
        · exact startFile_sendingSide conf answers _ _

theorem writeFailed_sendingSide (result : RxWrite) :
    (b.writeFailed answers result).1.sendingSide = b.sendingSide := by
  have replied := replyRecv_sendingSide b (if result = .skip then .got else .skip) []
  unfold writeFailed
  dsimp only
  generalize b.replyRecv _ [] = after at replied
  split
  · exact replied
  · rename_i closed
    have same := pRxFclose_sendingPart _ _ _ _ closed
    simp only [sendingSide, same]
    exact replied

theorem writeDone_sendingSide (blockLength : Nat) :
    (b.writeDone answers blockLength).1.sendingSide = b.sendingSide := by
  unfold writeDone
  dsimp only
  split
  · simp only [sendingSide, changeRecv_sendingPart]
  · split
    · split
      · simp only [sendingSide, changeRecv_sendingPart]
      · rename_i closed
        have same := pRxFclose_sendingPart _ _ _ _ closed
        simp only [protoError, queue, sendingSide, same, changeRecv_sendingPart]
    · split
      · split
        · simp only [sendingSide, changeRecv_sendingPart]
        · rename_i closed
          have same := pRxFclose_sendingPart _ _ _ _ closed
          refine (show _ = (replyRecv _ _ _).sendingSide from rfl).trans
            ((replyRecv_sendingSide _ _ _).trans ?_)
          simp only [sendingSide, same, changeRecv_sendingPart]
        · rename_i closed
          have same := pRxFclose_sendingPart _ _ _ _ closed
          refine (replyRecv_sendingSide _ _ _).trans ?_
          simp only [sendingSide, same, changeRecv_sendingPart]
      · simp only [sendingSide, changeRecv_sendingPart]

/-- Data does not concern the sending side. -/
theorem receiveData_sendingSide (blockLength : Nat) :
    (b.receiveData answers arg blockLength).1.sendingSide = b.sendingSide := by
  unfold receiveData
  split
  · rfl
  · split
    · rfl
    · rfl
    · rfl
    · split
      · rfl
      · dsimp only
        split
        · rfl
        · rename_i written
          refine (writeDone_sendingSide answers _ _).trans ?_
          simp only [sendingSide, pRxWritefile_sendingPart _ _ _ _ _ written]
          rfl
        · rename_i written
          refine (writeFailed_sendingSide answers _ _).trans ?_
          simp only [sendingSide, pRxWritefile_sendingPart _ _ _ _ _ written]
          rfl

/-- Only M_GOT, M_SKIP and M_GET concern the sending side. -/
theorem receiveCommand_sendingSide (message : Bpmsg) (blockLength : Nat)
    (other : message ≠ .got ∧ message ≠ .skip ∧ message ≠ .get) :
    (b.receiveCommand conf answers message arg blockLength).1.sendingSide = b.sendingSide := by
  cases message with
  | nul => rfl
  | adr => exact receiveADR_sendingSide conf b arg
  | pwd => exact receivePWD_sendingSide conf answers b arg blockLength
  | file => exact receiveFILE_sendingSide conf answers b arg
  | ok => exact receiveOK_sendingSide answers b
  | eob =>
    show b.receiveEOB.1.sendingSide = _
    unfold receiveEOB
    split <;> rfl
  | got => exact absurd rfl other.1
  | err => rfl
  | bsy => rfl
  | get => exact absurd rfl other.2.2
  | skip => exact absurd rfl other.2.1

end Sending

/-- The part of the state that the receiving of files concerns. -/
def receivingSide (b : BinkpState) : FileReceiveStatus × Option Finfo := (b.frs, b.pi.receiving)

section Receiving

variable (conf : BinkpConf) (answers : ReceiveAnswers) (b : BinkpState) (arg : Pointer)

theorem closeNamed_receivingSide (told : Bool) (index : Nat) (status : Fstat) :
    (b.closeNamed told index status).receivingSide = b.receivingSide := by
  have closed : (pTxFclose told ({ b.pi with send := some index }.changeSend fun finf =>
      { finf with status })).receiving = b.pi.receiving := by
    rw [pTxFclose_receiving, changeSend_receiving]
    rfl
  have kept : ({ pTxFclose told ({ b.pi with send := some index }.changeSend fun finf =>
      { finf with status }) with send := b.pi.send } : Protinfo).receiving = b.pi.receiving := closed
  unfold closeNamed checkConfirmed receivingSide
  dsimp only
  split <;> exact congrArg _ kept

theorem gotSkipNamed_receivingSide (skip : Bool) (fi : FileHint) :
    (b.gotSkipNamed answers skip fi).1.receivingSide = b.receivingSide := by
  unfold gotSkipNamed
  dsimp only
  repeat' split
  all_goals first
    | rfl
    | exact closeNamed_receivingSide _ _ _ _

theorem receiveGotSkip_receivingSide (skip : Bool) :
    (b.receiveGotSkip answers skip arg).1.receivingSide = b.receivingSide := by
  unfold receiveGotSkip
  dsimp only
  repeat' split
  all_goals first
    | rfl
    | exact gotSkipNamed_receivingSide _ _ _ _
    | exact (gotSkipNamed_receivingSide _ _ _ _).trans
        (congrArg (Prod.mk b.frs) (pTxFclose_receiving _))

theorem announceAt_receivingSide (offset : Nat) :
    (b.announceAt offset).receivingSide = b.receivingSide := by
  unfold announceAt
  split <;> rfl

theorem rewindTo_receivingSide (offset : Nat) (msg : Bytes) :
    (b.rewindTo answers offset msg).1.receivingSide = b.receivingSide := by
  have rewound := @pTxRewind_receiving b.pi offset
  unfold rewindTo
  split
  · rename_i pi sought
    rw [sought] at rewound
    exact congrArg (Prod.mk b.frs) ((pTxFclose_receiving _).trans rewound)
  · rename_i pi sought
    rw [sought] at rewound
    exact (announceAt_receivingSide _ _).trans
      (congrArg (Prod.mk b.frs) ((changeSend_receiving _).trans rewound))

theorem reopenAt_receivingSide (getfi : Bpfinfo) :
    (b.reopenAt conf answers getfi).1.receivingSide = b.receivingSide := by
  have opened := @pTxReopen_receiving b.pi conf.files.holdall ⟨getfi.fn, getfi.sz, getfi.tm⟩
  unfold reopenAt
  split
  · rename_i pi found
    rw [found] at opened
    exact congrArg (Prod.mk b.frs) opened
  · rename_i pi found
    rw [found] at opened
    have rewound := @pTxRewind_receiving pi getfi.offs
    split
    · rename_i last sought
      rw [sought] at rewound
      exact congrArg (Prod.mk b.frs) ((pTxFclose_receiving _).trans (rewound.trans opened))
    · rename_i last sought
      rw [sought] at rewound
      exact (announceAt_receivingSide _ _).trans
        (congrArg (Prod.mk b.frs) ((changeSend_receiving _).trans (rewound.trans opened)))

theorem receiveGET_receivingSide :
    (b.receiveGET conf answers arg).1.receivingSide = b.receivingSide := by
  have touched : (b.touch (binkpParsfinfo arg true answers.high).2).receivingSide =
      b.receivingSide := rfl
  unfold receiveGET
  dsimp only
  split
  · rfl
  · split
    · exact touched
    · split
      · exact touched
      · split
        · exact (reopenAt_receivingSide conf answers _ _).trans touched
        · split
          · exact (announceAt_receivingSide _ _).trans touched
          · split
            · exact touched
            · split
              · exact (rewindTo_receivingSide answers _ _ _).trans touched
              · exact (reopenAt_receivingSide conf answers _ _).trans touched

theorem receiveADR_receivingSide : (b.receiveADR conf arg).1.receivingSide = b.receivingSide := by
  have added : (b.addAddrs arg).receivingSide = b.receivingSide := rfl
  unfold receiveADR checkCalled refuse
  generalize b.addAddrs arg = after at added
  dsimp only
  repeat' split
  all_goals first
    | exact added
    | rfl

/-- Only M_FILE and data concern the receiving side. -/
theorem receiveCommand_receivingSide (message : Bpmsg) (blockLength : Nat)
    (other : message ≠ .file) :
    (b.receiveCommand conf answers message arg blockLength).1.receivingSide = b.receivingSide := by
  cases message with
  | nul => rfl
  | adr => exact receiveADR_receivingSide conf b arg
  | pwd =>
    show (b.receivePWD conf answers arg blockLength).1.receivingSide = _
    unfold receivePWD refuse
    dsimp only
    repeat' split
    all_goals rfl
  | file => exact absurd rfl other
  | ok =>
    show (b.receiveOK answers).1.receivingSide = _
    unfold receiveOK refuse
    dsimp only
    repeat' split
    all_goals rfl
  | eob =>
    show b.receiveEOB.1.receivingSide = _
    unfold receiveEOB
    split <;> rfl
  | got => exact receiveGotSkip_receivingSide answers b arg false
  | err => rfl
  | bsy => rfl
  | get => exact receiveGET_receivingSide conf answers b arg
  | skip => exact receiveGotSkip_receivingSide answers b arg true

end Receiving

end BinkpState

end Binkleyforce
