import Binkleyforce.Transfer.Sides

/-!
# The file being received

What opening, writing and closing leave as the current file of the receiving side: it
keeps its name, size and time, and as much of it was received as was written.
-/

namespace Binkleyforce

/-- Nothing was received of an open file but what was there before. -/
def Finfo.Level (finf : Finfo) : Prop :=
  finf.fp.isSome = true → finf.bytesReceived = finf.bytesSkipped

section Receiving

variable {pi after : Protinfo}

/-- A change of the file being received. -/
theorem changeRecv_receiving (change : Finfo → Finfo) :
    (pi.changeRecv change).receiving = pi.receiving.map change := by
  unfold Protinfo.changeRecv Protinfo.receiving
  cases current : pi.recv with
  | none => simp [current]
  | some index => simp

/-- A new record is for the file announced, from where it goes on. -/
theorem rxNew_level (conf : TransferConf) (answers : RxOpenAnswers) (hint : FileHint) :
    (rxNew conf answers hint).1.hint = hint ∧ (rxNew conf answers hint).1.Level ∧
      ((rxNew conf answers hint).2 = .accept → (rxNew conf answers hint).1.fp.isSome = true) := by
  have existing : ∀ finf : Finfo, finf.bytesReceived = finf.bytesSkipped →
      (rxExisting conf answers finf).1.hint = finf.hint ∧
        (rxExisting conf answers finf).1.bytesReceived =
          (rxExisting conf answers finf).1.bytesSkipped ∧
        (rxExisting conf answers finf).2 ≠ some .accept := by
    intro finf level
    unfold rxExisting
    repeat' split
    all_goals first
      | exact ⟨rfl, level, by simp⟩
      | exact ⟨rfl, rfl, by simp⟩
  have opening : ∀ finf : Finfo, finf.bytesReceived = finf.bytesSkipped →
      (rxOpenStream conf answers finf).1.hint = finf.hint ∧
        (rxOpenStream conf answers finf).1.bytesReceived =
          (rxOpenStream conf answers finf).1.bytesSkipped ∧
        ((rxOpenStream conf answers finf).2 = .accept →
          (rxOpenStream conf answers finf).1.fp.isSome = true) := by
    intro finf level
    unfold rxOpenStream
    dsimp only
    repeat' split
    all_goals exact ⟨rfl, level, by simp⟩
  unfold rxNew
  dsimp only
  split
  · exact ⟨rfl, fun _ => rfl, nofun⟩
  · split
    · exact ⟨rfl, fun _ => rfl, nofun⟩
    · obtain ⟨named, level, other⟩ := existing
        { netName := hint.fn
          bytesTotal := hint.sz
          modTime := hint.tm
          type := conf.filetype hint.fn } rfl
      by_cases plain : (hasType (conf.filetype hint.fn) typeRequest ||
          hasType (conf.filetype hint.fn) typeNetmail) = true
      · rw [if_pos plain]
        obtain ⟨same, level, opened⟩ := opening
          { netName := hint.fn
            bytesTotal := hint.sz
            modTime := hint.tm
            type := conf.filetype hint.fn } rfl
        exact ⟨same, fun _ => level, opened⟩
      · rw [if_neg plain]
        split
        · rename_i result decided
          exact ⟨named, fun _ => level, fun accepted => absurd (accepted ▸ decided) other⟩
        · obtain ⟨same, level, opened⟩ := opening _ level
          exact ⟨same.trans named, fun _ => level, opened⟩

/-- The file that is opened is the current one, and it is open where it is accepted. -/
theorem pRxFopen_opened (conf : TransferConf) (answers : RxOpenAnswers) (hint : FileHint) :
    ∃ finf, (pRxFopen conf answers hint pi).1.receiving = some finf ∧ finf.hint = hint ∧
      (finf.Level ∨ pi.receiving = some finf) ∧
      ((pRxFopen conf answers hint pi).2 = .accept → finf.fp.isSome = true) := by
  unfold pRxFopen
  split
  · rename_i result duplicate
    unfold rxDuplicate at duplicate
    split at duplicate
    · cases duplicate
    · rename_i finf current
      split at duplicate
      · rename_i same
        refine ⟨finf, current, of_decide_eq_true same, .inr current, ?_⟩
        rintro rfl
        by_contra shut
        rw [if_neg shut] at duplicate
        split at duplicate
        · cases duplicate
        · split at duplicate
          · cases duplicate
          · cases duplicate
      · cases duplicate
  · obtain ⟨named, fresh, opened⟩ := rxNew_level conf answers hint
    exact ⟨_, by simp [Protinfo.receiving], named, .inl fresh, opened⟩

/-- Nothing was received of it but what was there before. -/
theorem pRxFopen_current (conf : TransferConf) (answers : RxOpenAnswers) (hint : FileHint)
    (level : ∀ finf, pi.receiving = some finf → finf.Level) :
    ∃ finf, (pRxFopen conf answers hint pi).1.receiving = some finf ∧ finf.hint = hint ∧
      finf.Level ∧ ((pRxFopen conf answers hint pi).2 = .accept → finf.fp.isSome = true) := by
  obtain ⟨finf, current, named, fresh, opened⟩ := @pRxFopen_opened pi conf answers hint
  exact ⟨finf, current, named, fresh.elim id (level finf), opened⟩

/-- What is written is written to the current file. -/
theorem pRxWritefile_current (answers : RxWriteAnswers) (buf : Bytes) (result : RxWrite)
    (finf : Finfo) (current : pi.receiving = some finf)
    (written : pRxWritefile answers buf pi = some (after, result)) :
    ∃ changed, after.receiving = some changed ∧ changed.hint = finf.hint ∧
      (result = .ok → changed.bytesReceived = finf.bytesReceived) := by
  unfold pRxWritefile at written
  rw [current] at written
  dsimp only at written
  split at written
  · cases written
  · rename_i stream opened
    simp only [Option.some.injEq, Prod.mk.injEq] at written
    obtain ⟨same, outcome⟩ := written
    rw [← same, changeRecv_receiving, current]
    refine ⟨_, rfl, ?_, ?_⟩
    · unfold writeStream
      repeat' split
      all_goals rfl
    · intro fine
      rw [fine] at outcome
      unfold writeStream at outcome ⊢
      split at outcome
      · cases outcome
      · rename_i there
        rw [if_neg there]
        split at outcome
        · cases outcome
        · rename_i present
          rw [if_neg present]
          split at outcome
          · cases outcome
          · rename_i good
            rw [if_neg good]

/-- The current file stays so when it is closed. -/
theorem pRxFclose_current (answers : RxCloseAnswers) (result : Bool) (finf : Finfo)
    (current : pi.receiving = some finf) (closed : pRxFclose answers pi = some (after, result)) :
    ∃ changed, after.receiving = some changed ∧ changed.hint = finf.hint ∧ changed.fp = none := by
  unfold pRxFclose rxCommit at closed
  rw [current] at closed
  dsimp only at closed
  have shut : (pi.changeRecv fun finf => { finf with fp := none }).receiving =
      some { finf with fp := none } := by
    rw [changeRecv_receiving, current]
    rfl
  generalize pi.changeRecv (fun finf => { finf with fp := none }) = done at shut closed
  have refused : ∀ other : Protinfo, other.receiving = done.receiving →
      ∃ changed, (other.changeRecv fun finf => { finf with status := .refused }).receiving =
        some changed ∧ changed.hint = finf.hint ∧ changed.fp = none := by
    intro other same
    rw [changeRecv_receiving, same, shut]
    exact ⟨_, rfl, rfl, rfl⟩
  split at closed
  · cases closed
    exact ⟨_, shut, rfl, rfl⟩
  · split at closed
    · cases closed
      exact ⟨_, shut, rfl, rfl⟩
    · split at closed
      · cases closed
        exact refused _ rfl
      · split at closed
        · cases closed
          exact ⟨_, shut, rfl, rfl⟩
        · split at closed
          · cases closed
            exact ⟨_, shut, rfl, rfl⟩
          · cases closed
            exact refused _ rfl

end Receiving

end Binkleyforce
