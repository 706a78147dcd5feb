import Binkleyforce.Transfer.Files

/-!
# The two sides of a transfer

The routines for files being received leave the files being sent alone, and the other
way round. Of those for files being sent, what becomes of the current file is said.
-/

namespace Binkleyforce

/-- The parts of the transfer that the sending of files concerns. -/
def Protinfo.sendingPart (pi : Protinfo) :
    List Finfo × Option Nat × Netspool × List Disposal × Traffic :=
  (pi.sentfiles, pi.send, pi.netspool, pi.effects, pi.trafficSent)

section Receiving

variable (pi : Protinfo)

@[simp] theorem changeRecv_sendingPart (change : Finfo → Finfo) :
    (pi.changeRecv change).sendingPart = pi.sendingPart := by
  unfold Protinfo.changeRecv
  split <;> rfl

/-- Opening a file for receiving does not concern the sending side. -/
theorem pRxFopen_sendingPart (conf : TransferConf) (answers : RxOpenAnswers) (hint : FileHint) :
    (pRxFopen conf answers hint pi).1.sendingPart = pi.sendingPart := by
  unfold pRxFopen
  split <;> rfl

/-- Nor does writing to it, -/
theorem pRxWritefile_sendingPart (answers : RxWriteAnswers) (buf : Bytes) (after : Protinfo)
    (result : RxWrite) (written : pRxWritefile answers buf pi = some (after, result)) :
    after.sendingPart = pi.sendingPart := by
  unfold pRxWritefile at written
  split at written
  · cases written
  · split at written
    · cases written
    · cases written
      exact changeRecv_sendingPart _ _

/-- or closing it. -/
theorem pRxFclose_sendingPart (answers : RxCloseAnswers) (after : Protinfo) (result : Bool)
    (closed : pRxFclose answers pi = some (after, result)) :
    after.sendingPart = pi.sendingPart := by
  unfold pRxFclose rxCommit at closed
  split at closed
  · cases closed
  · dsimp only at closed
    split at closed
    · cases closed
      exact changeRecv_sendingPart _ _
    · split at closed
      · cases closed
        exact changeRecv_sendingPart _ _
      · split at closed
        · cases closed
          simp only [changeRecv_sendingPart]
          exact changeRecv_sendingPart _ _
        · split at closed
          · cases closed
            exact changeRecv_sendingPart _ _
          · split at closed
            · cases closed
              exact changeRecv_sendingPart _ _
            · cases closed
              simp only [changeRecv_sendingPart]
              exact changeRecv_sendingPart _ _

end Receiving

section Sending

variable {pi : Protinfo}

/-- The current file is one of the files being sent. -/
theorem sending_of_sendingPart {other : Protinfo} (same : other.sendingPart = pi.sendingPart) :
    other.sending = pi.sending := by
  simp only [Protinfo.sendingPart, Prod.mk.injEq] at same
  simp only [Protinfo.sending, same]

/-- A change of the current file. -/
theorem changeSend_sending (change : Finfo → Finfo) :
    (pi.changeSend change).sending = pi.sending.map change := by
  unfold Protinfo.changeSend Protinfo.sending
  cases current : pi.send with
  | none => simp [current]
  | some index => simp [Protinfo.changeSent, current]

/-- There is no current file after it was closed. -/
theorem pTxFclose_sending (told : Bool) : (pTxFclose told pi).sending = none := by
  unfold pTxFclose
  split <;> rfl

/-- A file that was just opened is in progress. -/
theorem pTxFopen_fresh (conf : TransferConf) (answers : TxOpenAnswers)
    (opened : (pTxFopen conf answers pi).2 = true) (finf : Finfo)
    (current : (pTxFopen conf answers pi).1.sending = some finf) : finf.status = .process := by
  have begun : ∀ (pi : Protinfo) (fresh : Finfo), (pi.begin fresh).sending = some fresh := by
    intro pi fresh
    simp [Protinfo.begin, Protinfo.sending]
  unfold pTxFopen at opened current
  dsimp only at opened current
  split at current
  · simp_all
  · rw [begun] at current
    exact Option.some.inj current ▸ rfl
  · split at current
    · rw [begun] at current
      exact Option.some.inj current ▸ rfl
    · simp_all

/-- A file that was opened again is in progress. -/
theorem pTxReopen_fresh (holdall : Bool) (hint : FileHint)
    (opened : (pTxReopen holdall hint pi).2 = true) (finf : Finfo)
    (current : (pTxReopen holdall hint pi).1.sending = some finf) : finf.status = .process := by
  unfold pTxReopen at opened current
  split at opened
  · cases opened
  · rename_i going
    rw [if_neg going] at current
    split at opened
    · cases opened
    · rename_i index found
      rw [found] at current
      dsimp only at current
      split at opened
      · cases opened
      · rename_i there
        rw [if_neg there, changeSend_sending] at current
        obtain ⟨_, _, rfl⟩ := Option.map_eq_some_iff.mp current
        rfl

/-- Where the position cannot be changed nothing is. -/
theorem pTxRewind_failed (pos : Nat) (failed : (pTxRewind pos pi).2 = false) :
    (pTxRewind pos pi).1 = pi := by
  unfold pTxRewind at failed ⊢
  split
  · rfl
  · rename_i stream there
    rw [there] at failed
    dsimp only at failed
    by_cases far : 2 ^ 63 ≤ pos
    · rw [if_pos far]
    · rw [if_neg far] at failed
      cases failed

/-! The routines for files being sent do not concern the file being received. -/

@[simp] theorem changeSend_receiving (change : Finfo → Finfo) :
    (pi.changeSend change).receiving = pi.receiving := by
  unfold Protinfo.changeSend
  split <;> rfl

@[simp] theorem pTxFclose_receiving (told : Bool) : (pTxFclose told pi).receiving = pi.receiving := by
  unfold pTxFclose
  split <;> rfl

@[simp] theorem pTxFopen_receiving (conf : TransferConf) (answers : TxOpenAnswers) :
    (pTxFopen conf answers pi).1.receiving = pi.receiving := by
  unfold pTxFopen
  dsimp only
  repeat' split
  all_goals rfl

@[simp] theorem pTxReopen_receiving (holdall : Bool) (hint : FileHint) :
    (pTxReopen holdall hint pi).1.receiving = pi.receiving := by
  unfold pTxReopen
  repeat' split
  all_goals rfl

@[simp] theorem pTxRewind_receiving (pos : Nat) :
    (pTxRewind pos pi).1.receiving = pi.receiving := by
  unfold pTxRewind
  repeat' split
  all_goals first | rfl | exact changeSend_receiving _

theorem pTxReadfile_receiving (answers : TxReadAnswers) (buflen : Nat) (after : Protinfo)
    (result : TxRead) (read : pTxReadfile answers buflen pi = some (after, result)) :
    after.receiving = pi.receiving := by
  unfold pTxReadfile at read
  split at read
  · cases read
  · split at read
    · injection read with read
      unfold readNetspool at read
      split at read
      · cases read
        exact changeSend_receiving _
      · dsimp only at read
        split at read
        · cases read
          rw [changeSend_receiving, changeSend_receiving]
          rfl
        · cases read
          rw [changeSend_receiving]
          rfl
    · split at read
      · cases read
        rfl
      · cases read
        exact changeSend_receiving _

end Sending

end Binkleyforce
