import Binkleyforce.Hydra.Batch
import Binkleyforce.Transfer.Sides

/-!
# A file the remote refused

A remote refuses a file with an offset of -2, in the answer to its announcement
or in a request for another position. The transmitter then marks the file, tells
the remote that it has ended, and closes it once that is acknowledged.

The mark is lost in two ways. An acknowledgement of the end marks the file as
sent once more where its end was read before the refusal came, and a refusal can
be passed over: where a `long` has 64 bits none is recognised, and in the others
one for an announcement that was answered before, or under the id of the last
request. While neither happens a refused file is not closed as sent or skipped.
-/

namespace Binkleyforce

open Library

/-- No file was closed as sent or skipped while the last answer for it was a
refusal, so nothing was done to its source. -/
def Respected (s : HydraState) : Prop :=
  ∀ closure ∈ s.closures, closure.refused = true →
    closure.finf.status ≠ .success ∧ closure.finf.status ≠ .skipped

instance (s : HydraState) : Decidable (Respected s) :=
  inferInstanceAs (Decidable (∀ closure ∈ s.closures, _))

/-- The states in which the transmitter waits for the answer to a FINFO packet. -/
def HydraTxstate.takesFinfoack (txstate : HydraTxstate) : Bool :=
  txstate = .finfo || txstate = .finfoack

/-- The states in which it waits for the acknowledgement of an EOF packet. -/
def HydraTxstate.takesEofack (txstate : HydraTxstate) : Bool :=
  txstate = .eof || txstate = .eofack

/-- The packet is an answer for the announced file that refuses it. -/
def HydraState.refusedBy (s : HydraState) (received : HydraReceived) : Bool :=
  s.announced && received.answer = some (-2)

/-- The received packet does not take the mark of a refused file away, and is not a
refusal that is passed over. -/
def HydraState.Heeds (conf : HydraConf) (s : HydraState) : HydraReceived → Prop
  | .packet .eofack _ _ =>
    s.refused = true → s.txstate.takesEofack = true → s.pi.sending.all (!·.eofseen) = true
  | .packet .finfoack isize ibuf =>
    s.refusedBy (.packet .finfoack isize ibuf) = true →
      conf.wide = false ∧ s.txstate.takesFinfoack = true
  | .packet .rpos isize ibuf =>
    s.refusedBy (.packet .rpos isize ibuf) = true → s.txstate.takesRpos = true →
      conf.wide = false ∧
        ¬ (0 < hydraGetlong false (ibuf.drop 6) ∧
          hydraGetlong false (ibuf.drop 6) = s.hi.sendRposId)
  | _ => True

instance (conf : HydraConf) (s : HydraState) : DecidablePred (s.Heeds conf) := by
  intro received
  unfold HydraState.Heeds
  split <;> infer_instance

/-- Where a packet is handled in the turn, it is one of those. -/
def HydraState.Attends (conf : HydraConf) (s : HydraState) (input : HydraInput) : Prop :=
  (s.prepare conf input).Ends (fun middle => middle.Heeds conf input.received)
    (fun _ _ => True)

instance (conf : HydraConf) (s : HydraState) (input : HydraInput) :
    Decidable (s.Attends conf input) :=
  inferInstanceAs (Decidable (Turn.Ends _ _ _))

/-- The invariant: the refused file that is being sent is marked, unless it waits
for the answer to its announcement. -/
structure Heeded (s : HydraState) : Prop where
  respected : Respected s
  fresh : s.sendEOB = false → s.txstate.takesFinfoack = true →
    ∀ finf, s.pi.sending = some finf → finf.status = .process
  announced : s.refused = true → s.sendEOB = false
  standing : s.refused = true → ∀ finf, s.pi.sending = some finf →
    s.txstate.takesFinfoack = true ∨ (finf.status = .refused ∧ s.txstate.takesEofack = true)

namespace HydraState

/-- The part of the state the invariant is about. -/
def outgoing (s : HydraState) :
    HydraTxstate × Bool × (List Finfo × Option Nat × Netspool × List Disposal × Traffic) × Bool ×
      List HydraClosure :=
  (s.txstate, s.sendEOB, s.pi.sendingPart, s.refused, s.closures)

section Invariant

variable {s after : HydraState}

/-- It depends on that part only. -/
theorem heeded_same (heeded : Heeded s) (same : after.outgoing = s.outgoing) : Heeded after := by
  simp only [outgoing, Prod.mk.injEq] at same
  obtain ⟨txstate, sendEOB, part, refused, closures⟩ := same
  have sending := sending_of_sendingPart part
  constructor
  · simpa only [Respected, closures] using heeded.respected
  · simpa only [sendEOB, txstate, sending] using heeded.fresh
  · simpa only [refused, sendEOB] using heeded.announced
  · simpa only [refused, txstate, sending] using heeded.standing

/-- While no refusal stands the transmitter may take any state but those in which
the answer for a new file is awaited. -/
theorem heeded_free (heeded : Heeded s) (closures : after.closures = s.closures)
    (free : after.refused = false) (elsewhere : after.txstate.takesFinfoack = false) :
    Heeded after := by
  constructor
  · simpa only [Respected, closures] using heeded.respected
  · simp [elsewhere]
  · simp [free]
  · simp [free]

/-- No refusal stands for a file in the other states. -/
theorem heeded_no_refusal (heeded : Heeded s) (finf : Finfo) (sending : s.pi.sending = some finf)
    (answered : s.txstate.takesFinfoack = false) (going : s.txstate.takesEofack = false) :
    s.refused = false := by
  by_contra stands
  have stands : s.refused = true := by simpa using stands
  rcases heeded.standing stands finf sending with waits | ⟨_, ended⟩
  · simp [waits] at answered
  · simp [ended] at going

/-- No refusal stands where there is no file. -/
theorem heeded_without (heeded : Heeded s) (closures : after.closures = s.closures)
    (refused : after.refused = s.refused) (sendEOB : after.sendEOB = s.sendEOB)
    (gone : after.pi.sending = none) : Heeded after := by
  constructor
  · simpa only [Respected, closures] using heeded.respected
  · simp [gone]
  · simpa only [refused, sendEOB] using heeded.announced
  · simp [gone]

/-- From a state in which nothing is awaited the transmitter may go on to another
one of that kind. -/
theorem heeded_moved (heeded : Heeded s) (answered : s.txstate.takesFinfoack = false)
    (going : s.txstate.takesEofack = false) (closures : after.closures = s.closures)
    (refused : after.refused = s.refused) (sendEOB : after.sendEOB = s.sendEOB)
    (same : after.pi.sending = s.pi.sending) (elsewhere : after.txstate.takesFinfoack = false) :
    Heeded after := by
  cases current : s.pi.sending with
  | some finf =>
    exact heeded_free heeded closures
      (refused.trans (heeded_no_refusal heeded finf current answered going)) elsewhere
  | none => exact heeded_without heeded closures refused sendEOB (same.trans current)

/-! ## Closing -/

/-- A refused file is not sent or skipped when it is closed as it stands. -/
theorem heeded_closing (heeded : Heeded s) (stands : s.refused = true) (finf : Finfo)
    (sending : s.pi.sending = some finf) :
    finf.status ≠ .success ∧ finf.status ≠ .skipped := by
  rcases heeded.standing stands finf sending with waits | ⟨marked, _⟩
  · have going := heeded.fresh (heeded.announced stands) waits finf sending
    simp [going]
  · simp [marked]

/-- Closing adds one file to those that were closed. -/
theorem respected_closeSend (respected : Respected s)
    (closing : s.refused = true → ∀ finf, s.pi.sending = some finf →
      finf.status ≠ .success ∧ finf.status ≠ .skipped) (told : Bool) :
    Respected (s.closeSend told) := by
  intro closure member refused
  rcases List.mem_append.mp member with old | new
  · exact respected closure old refused
  · obtain ⟨finf, sending, rfl⟩ := Option.map_eq_some_iff.mp (Option.mem_toList.mp new)
    exact closing refused finf sending

/-- The actions of closing are those for the file that is recorded. -/
theorem closeSend_effects (told : Bool) (s : HydraState) :
    ∃ closed, (s.closeSend told).closures = s.closures ++ closed ∧
      (s.closeSend told).pi.effects.map (·.action) =
        s.pi.effects.map (·.action) ++ closed.flatMap fun closure => postSend closure.finf := by
  refine ⟨_, rfl, ?_⟩
  unfold closeSend pTxFclose
  cases current : s.pi.sending with
  | none => simp
  | some finf =>
    obtain ⟨index, chosen, _⟩ := Option.bind_eq_some_iff.mp current
    simp [chosen, Function.comp_def]

/-- Closing the file and going on with the next one. -/
theorem heeded_closeAndNext (respected : Respected s)
    (closing : s.refused = true → ∀ finf, s.pi.sending = some finf →
      finf.status ≠ .success ∧ finf.status ≠ .skipped) (answers : HydraPacketAnswers) :
    Heeded (s.closeAndNext answers) := by
  constructor
  · exact respected_closeSend respected closing answers.told
  · exact fun _ waits => by cases waits
  · exact fun stands => by cases stands
  · exact fun stands => by cases stands

/-- Marking a file before it is closed. -/
theorem heeded_closeAs (heeded : Heeded s) (answers : HydraPacketAnswers) (status : Fstat)
    (marked : s.refused = true → status ≠ .success ∧ status ≠ .skipped) :
    Heeded (s.closeAs answers status) := by
  have respected : Respected (s.changeSend fun finf => { finf with status }) := heeded.respected
  refine heeded_closeAndNext respected ?_ answers
  intro stands finf sending
  have changed : (s.pi.changeSend fun finf => { finf with status }).sending = some finf := sending
  rw [changeSend_sending] at changed
  obtain ⟨old, _, rfl⟩ := Option.map_eq_some_iff.mp changed
  exact marked stands

/-- Leaving the batch. -/
theorem heeded_leave (heeded : Heeded s) (input : HydraInput) (rc : Prc) :
    (s.leave input rc).Ends Heeded (fun final _ => Respected final) := by
  have closed := respected_closeSend heeded.respected (heeded_closing heeded) input.leaving.told
  unfold leave
  dsimp only [Turn.Ends]
  split <;> split
  · exact closed
  · exact closed
  · exact heeded.respected
  · exact heeded.respected

/-! ## The parts of a turn -/

/-- Nothing changes for the transmitter, or the batch is left. -/
abbrev Minds (turn : Turn HydraState HydraResult) : Prop :=
  turn.Ends Heeded (fun final _ => Respected final)

theorem heeded_timers (heeded : Heeded s) (input : HydraInput) : Minds (s.timers input) := by
  have expired : Heeded s.sendTimeout := by
    unfold sendTimeout
    constructor
    · exact heeded.respected
    · intro batch waits
      refine heeded.fresh batch ?_
      revert waits
      cases s.txstate <;> simp [HydraTxstate.takesFinfoack]
    · exact heeded.announced
    · intro stands finf sending
      refine (heeded.standing stands finf sending).imp ?_ (And.imp_right ?_)
      · cases s.txstate <;> simp [HydraTxstate.takesFinfoack]
      · cases s.txstate <;> simp [HydraTxstate.takesEofack]
  have receiving : ∀ before : HydraState, before.recvTimeout.outgoing = before.outgoing := by
    intro before
    unfold recvTimeout shrink
    split <;> rfl
  unfold timers
  split
  · exact heeded_leave heeded input .error
  · have sent : Heeded (if s.sendtimer && input.sendExpired then s.sendTimeout else s) := by
      split
      · exact expired
      · exact heeded
    dsimp only
    generalize (if s.sendtimer && input.sendExpired then s.sendTimeout else s) = middle at sent
    change Heeded (if middle.recvtimer && input.recvExpired then middle.recvTimeout else middle)
    split
    · exact heeded_same sent (receiving middle)
    · exact sent

/-- A try of the transmitter. -/
theorem heeded_attempt (heeded : Heeded s) (input : HydraInput) (send : HydraState → HydraState)
    (sends : ∀ before, before.outgoing = s.outgoing → Heeded (send before)) :
    Minds (s.attempt input send) := by
  unfold attempt
  split
  · exact sends { s with txtries := s.txtries + 1 } rfl
  · have counted : Heeded { s with txtries := s.txtries + 1 } := heeded_same heeded rfl
    exact heeded_leave counted input .error

/-- Opening the next file. -/
theorem heeded_openNext (respected : Respected s) (conf : HydraConf) (answers : TxOpenAnswers) :
    Heeded (s.openNext conf answers) := by
  constructor
  · exact respected
  · intro batch _ finf sending
    have opened : (pTxFopen conf.files answers s.pi).2 = true := by
      simpa only [openNext, Bool.not_eq_false'] using batch
    exact pTxFopen_fresh conf.files answers opened finf sending
  · exact fun stands => by cases stands
  · exact fun stands => by cases stands

/-- The FINFO packet waits for its answer. -/
theorem heeded_sendFinfo (heeded : Heeded s) (waits : s.txstate.takesFinfoack = true)
    (conf : HydraConf) : Heeded (s.sendFinfo conf) where
  respected := heeded.respected
  fresh batch _ := heeded.fresh batch waits
  announced := heeded.announced
  standing _ _ _ := .inl rfl

/-- The EOF packet waits for its acknowledgement. -/
theorem heeded_sendEof (heeded : Heeded s) (ended : s.txstate = .eof) : Heeded s.sendEof where
  respected := heeded.respected
  fresh _ waits := by cases waits
  announced := heeded.announced
  standing stands finf sending := by
    have standing := heeded.standing stands finf sending
    rw [ended] at standing
    rcases standing with waits | ⟨marked, _⟩
    · cases waits
    · exact .inr ⟨marked, rfl⟩

/-- Sending a block. -/
theorem heeded_sendBlock (heeded : Heeded s) (free : s.refused = false)
    (elsewhere : s.txstate.takesFinfoack = false) (conf : HydraConf) (bytes : Bytes)
    (finf : Finfo) : Heeded (s.sendBlock conf bytes finf) := by
  unfold sendBlock
  dsimp only
  split
  · exact heeded_free heeded rfl free rfl
  · split
    · exact heeded_free heeded rfl free rfl
    · exact heeded_free heeded rfl free elsewhere

/-- What the transmitter does while it sends the data of a file. -/
theorem heeded_sendData (heeded : Heeded s) (state : s.txstate = .data) (conf : HydraConf)
    (input : HydraInput) : Minds (s.sendData conf input) := by
  have answered : s.txstate.takesFinfoack = false := by rw [state]; rfl
  have going : s.txstate.takesEofack = false := by rw [state]; rfl
  unfold sendData
  split
  · exact heeded.respected
  · rename_i finf sending
    have free := heeded_no_refusal heeded finf sending answered going
    split
    · exact heeded_free heeded rfl free rfl
    · split
      · unfold readBlock
        split
        · exact heeded.respected
        · rename_i pi read _
          have reads : Heeded { s with pi, sendtimer := false } :=
            heeded_free heeded rfl free answered
          split
          · exact heeded_sendBlock reads free answered conf _ _
          · exact heeded_free heeded rfl free rfl
      · exact heeded

theorem heeded_transmit (heeded : Heeded s) (conf : HydraConf) (input : HydraInput) :
    Minds (s.transmit conf input) := by
  have moved : ∀ after : HydraState, s.txstate.takesFinfoack = false →
      s.txstate.takesEofack = false → (after.refused, after.sendEOB, after.closures) =
        (s.refused, s.sendEOB, s.closures) → after.pi.sending = s.pi.sending →
      after.txstate.takesFinfoack = false → Heeded after := by
    intro after answered going same sending elsewhere
    simp only [Prod.mk.injEq] at same
    exact heeded_moved heeded answered going same.2.2 same.1 same.2.1 sending elsewhere
  have tries : ∀ send : HydraState → HydraState, s.txstate.takesFinfoack = false →
      s.txstate.takesEofack = false → (∀ before, ((send before).refused, (send before).sendEOB,
        (send before).closures) = (before.refused, before.sendEOB, before.closures) ∧
        (send before).pi.sending = before.pi.sending ∧
        (send before).txstate.takesFinfoack = false) → Minds (s.attempt input send) := by
    intro send answered going sends
    refine heeded_attempt heeded input send fun before same => ?_
    obtain ⟨kept, sending, elsewhere⟩ := sends before
    simp only [outgoing, Prod.mk.injEq] at same
    refine moved (send before) answered going ?_ ?_ elsewhere
    · rw [kept, same.2.1, same.2.2.2.1, same.2.2.2.2]
    · rw [sending, sending_of_sendingPart same.2.2.1]
  unfold transmit
  split
  · rename_i state
    exact tries sendStart (by rw [state]; rfl) (by rw [state]; rfl) fun _ => ⟨rfl, rfl, rfl⟩
  · rename_i state
    exact tries (sendInit conf) (by rw [state]; rfl) (by rw [state]; rfl) fun _ => ⟨rfl, rfl, rfl⟩
  · rename_i state
    change Heeded (if s.rxstate ≠ .init then { s with txstate := .nextFile } else s)
    split
    · exact moved _ (by rw [state]; rfl) (by rw [state]; rfl) rfl rfl rfl
    · exact heeded
  · have respected : Respected (if (s.pi.sending.bind (·.fp)).isSome then
        s.closeSend input.sending.told else s) := by
      split
      · exact respected_closeSend heeded.respected (heeded_closing heeded) _
      · exact heeded.respected
    have opened := heeded_openNext respected conf input.sending.opens
    refine heeded_attempt opened input (sendFinfo conf) fun before same => ?_
    have waits : before.txstate = .finfo := congrArg Prod.fst same
    exact heeded_sendFinfo (heeded_same opened same) (by rw [waits]; rfl) conf
  · rename_i state
    refine heeded_attempt heeded input (sendFinfo conf) fun before same => ?_
    have waits : before.txstate = .finfo := (congrArg Prod.fst same).trans state
    exact heeded_sendFinfo (heeded_same heeded same) (by rw [waits]; rfl) conf
  · rename_i state
    exact heeded_sendData heeded state conf input
  · rename_i state
    exact heeded_attempt heeded input sendEof fun before same =>
      heeded_sendEof (heeded_same heeded same) ((congrArg Prod.fst same).trans state)
  · rename_i state
    change Heeded (s.awaitReceiver input)
    unfold awaitReceiver
    split
    · exact moved _ (by rw [state]; rfl) (by rw [state]; rfl) rfl rfl rfl
    · split
      · exact heeded_same heeded rfl
      · exact heeded
  · rename_i state
    exact tries sendEnd (by rw [state]; rfl) (by rw [state]; rfl) fun _ => ⟨rfl, rfl, rfl⟩
  · exact heeded

/-- What the receiver does between packets. -/
theorem heeded_receive (heeded : Heeded s) (input : HydraInput) : Minds (s.receive input) := by
  have repositioned : Minds (s.reposition input) := by
    unfold reposition
    dsimp only
    split
    · have counted : Heeded { s with rxtries := s.rxtries + 1 } := heeded_same heeded rfl
      exact heeded_leave counted input .error
    · split
      · exact heeded.respected
      · split
        · exact heeded_same heeded rfl
        · exact heeded_same heeded rfl
  unfold receive
  split
  · exact repositioned
  · exact repositioned
  · exact heeded

theorem heeded_exchange (heeded : Heeded s) (input : HydraInput) :
    Minds (s.exchange input) := by
  unfold exchange
  split
  · exact heeded_leave heeded input _
  · split
    · exact heeded_leave heeded input _
    · split
      · exact heeded_leave heeded input _
      · split
        · exact heeded_leave heeded input _
        · exact heeded_same heeded rfl

/-- The part of a turn before a packet is handled. -/
theorem heeded_prepare (heeded : Heeded s) (conf : HydraConf) (input : HydraInput) :
    Minds (s.prepare conf input) :=
  Turn.ends_andThen (heeded_timers heeded input) fun _ timed =>
    Turn.ends_andThen (heeded_transmit timed conf input) fun _ sent =>
      Turn.ends_andThen (heeded_receive sent input) fun _ received =>
        heeded_exchange received input

/-! ## Packets for the receiver -/

/-- Files being received do not concern the invariant. -/
theorem heeded_receiving (heeded : Heeded s) (part : after.pi.sendingPart = s.pi.sendingPart)
    (rest : (after.txstate, after.sendEOB, after.refused, after.closures) =
      (s.txstate, s.sendEOB, s.refused, s.closures)) : Heeded after := by
  simp only [Prod.mk.injEq] at rest
  refine heeded_same heeded ?_
  simp only [outgoing, part, rest]

theorem heeded_onInit (heeded : Heeded s) (conf : HydraConf) (input : HydraInput)
    (pkt : Bytes) : Minds (s.onInit conf input pkt) := by
  unfold onInit
  split
  · split
    · exact heeded_leave heeded input .error
    · exact heeded_same heeded rfl
  · exact heeded_same heeded rfl

theorem heeded_onFinfo (heeded : Heeded s) (conf : HydraConf) (answers : HydraPacketAnswers)
    (isize : Nat) (ibuf : Bytes) : Minds (s.onFinfo conf answers isize ibuf) := by
  have opened : Minds (s.openReceived conf answers (ibuf.take isize)) := by
    unfold openReceived
    dsimp only
    generalize (⟨finfoName (ibuf.take isize), _, _⟩ : FileHint) = hint
    have part := pRxFopen_sendingPart s.pi conf.files answers.opens hint
    generalize pRxFopen conf.files answers.opens hint s.pi = answer at part
    obtain ⟨pi, result⟩ := answer
    cases result with
    | refuse => exact heeded_receiving heeded part rfl
    | skip => exact heeded_receiving heeded part rfl
    | accept =>
      dsimp only
      split
      · exact heeded.respected
      · exact heeded_receiving heeded part rfl
  unfold onFinfo
  split
  · split
    · exact heeded_same heeded rfl
    · split
      · exact opened
      · exact heeded
  · split
    · exact heeded_same heeded rfl
    · exact heeded

theorem heeded_onData (heeded : Heeded s) (conf : HydraConf) (answers : HydraPacketAnswers)
    (isize : Nat) (ibuf : Bytes) : Minds (s.onData conf answers isize ibuf) := by
  have written : ∀ (before : HydraState) (bytes : Bytes), Heeded before →
      Minds (before.writeBlock answers bytes) := by
    intro before bytes kept
    unfold writeBlock startSkip changeRecv queuepkt
    split
    · exact kept.respected
    all_goals
      rename_i pi written
      have part := pRxWritefile_sendingPart before.pi answers.writes bytes pi _ written
      refine heeded_receiving kept ?_ ?_
    · simp only [changeRecv_sendingPart, part]
    · rfl
    · simp only [changeRecv_sendingPart, part]
    · rfl
    · dsimp only
      split <;> simp only [changeRecv_sendingPart, part]
    · dsimp only
      split <;> rfl
  unfold onData
  split
  · split
    · exact heeded
    · split
      · exact heeded.respected
      · dsimp only
        split
        · unfold misplaced
          split
          · exact heeded_same heeded rfl
          · exact heeded_same heeded rfl
        · exact written _ _ (heeded_same heeded rfl)
  · exact heeded

theorem heeded_onEof (heeded : Heeded s) (conf : HydraConf) (answers : HydraPacketAnswers)
    (isize : Nat) (ibuf : Bytes) : Minds (s.onEof conf answers isize ibuf) := by
  have closed : Minds (s.closeReceived answers) := by
    unfold closeReceived changeRecv
    split
    · exact heeded.respected
    all_goals
      rename_i pi closed
      have part := (pRxFclose_sendingPart _ answers.closes pi _ closed).trans
        (changeRecv_sendingPart _ _)
      refine heeded_receiving heeded ?_ rfl
    · exact part
    · simp only [changeRecv_sendingPart, part]
  unfold onEof
  dsimp only
  split
  · split
    · exact heeded
    · split
      · exact heeded.respected
      · split
        · exact heeded_same heeded rfl
        · exact closed
  · split
    · split
      · exact heeded
      · split
        · exact heeded_same heeded rfl
        · split
          · exact heeded.respected
          · rename_i pi result closed
            exact heeded_receiving heeded (pRxFclose_sendingPart _ answers.closes pi _ closed) rfl
    · split
      · exact heeded_same heeded rfl
      · exact heeded

/-! ## Packets for the transmitter -/

theorem heeded_onStart (heeded : Heeded s) : Heeded s.onStart := by
  unfold onStart
  split
  · rename_i state
    refine heeded_moved heeded ?_ ?_ rfl rfl rfl rfl rfl
    · rcases state with state | state <;> rw [state] <;> rfl
    · rcases state with state | state <;> rw [state] <;> rfl
  · exact heeded

theorem heeded_onInitack (heeded : Heeded s) : Heeded s.onInitack := by
  unfold onInitack
  split
  · rename_i state
    refine heeded_moved heeded ?_ ?_ rfl rfl rfl rfl rfl
    · rcases state with state | state <;> rw [state] <;> rfl
    · rcases state with state | state <;> rw [state] <;> rfl
  · exact heeded

theorem heeded_onEnd (heeded : Heeded s) : Heeded s.onEnd := by
  unfold onEnd
  split
  · rename_i state
    refine heeded_moved heeded ?_ ?_ rfl rfl rfl rfl rfl
    · rcases state with state | state <;> rw [state] <;> rfl
    · rcases state with state | state <;> rw [state] <;> rfl
  · exact heeded

theorem heeded_onDataack (heeded : Heeded s) (conf : HydraConf) (ibuf : Bytes) :
    Minds (s.onDataack conf ibuf) := by
  unfold onDataack
  split
  · rename_i state
    have answered : s.txstate.takesFinfoack = false := by
      rcases state with state | state <;> rw [state] <;> rfl
    have going : s.txstate.takesEofack = false := by
      rcases state with state | state <;> rw [state] <;> rfl
    split
    · exact heeded.respected
    · dsimp only
      split
      · exact heeded
      · split
        · exact heeded
        · split
          · exact heeded_moved heeded answered going rfl rfl rfl rfl rfl
          · exact heeded_same heeded rfl
  · exact heeded

/-- A file is not marked as sent while a refusal stands. -/
theorem heeded_onEofack (heeded : Heeded s) (answers : HydraPacketAnswers)
    (heeds : s.refused = true → s.txstate.takesEofack = true →
      s.pi.sending.all (!·.eofseen) = true) : Heeded (s.onEofack answers) := by
  unfold onEofack
  split
  · rename_i state
    have ended : s.txstate.takesEofack = true := by
      rcases state with state | state <;> rw [state] <;> rfl
    split
    · rename_i gone
      exact heeded_without heeded rfl rfl rfl gone
    · rename_i finf sending
      split
      · rename_i seen
        refine heeded_closeAs heeded answers .success fun stands => ?_
        have unseen := heeds stands ended
        simp [sending, seen] at unseen
      · exact heeded_closeAndNext heeded.respected (heeded_closing heeded) answers
  · exact heeded

section Answers

variable (received : HydraReceived) (s)

@[simp] theorem heed_txstate : (s.heed received).txstate = s.txstate := by
  unfold heed
  repeat' split
  all_goals rfl

@[simp] theorem heed_pi : (s.heed received).pi = s.pi := by
  unfold heed
  repeat' split
  all_goals rfl

@[simp] theorem heed_sendEOB : (s.heed received).sendEOB = s.sendEOB := by
  unfold heed
  repeat' split
  all_goals rfl

@[simp] theorem heed_hi : (s.heed received).hi = s.hi := by
  unfold heed
  repeat' split
  all_goals rfl

@[simp] theorem heed_closures : (s.heed received).closures = s.closures := by
  unfold heed
  repeat' split
  all_goals rfl

end Answers

/-- An answer that is not a refusal of the announced file keeps the invariant, -/
theorem heeded_heed (heeded : Heeded s) (received : HydraReceived)
    (quiet : s.refusedBy received = false) : Heeded (s.heed received) := by
  unfold heed
  split
  · exact heeded
  · rename_i offset answered
    split
    · rename_i announced
      have agreed : decide (offset = -2) = false := by
        simpa [refusedBy, announced, answered] using quiet
      constructor
      · exact heeded.respected
      · exact heeded.fresh
      · simp [agreed]
      · simp [agreed]
    · exact heeded

/-- and no refusal stands after it. -/
theorem heed_agreed (heeded : Heeded s) (received : HydraReceived)
    (quiet : s.refusedBy received = false) (answered : received.answer ≠ none)
    (current : s.pi.sending ≠ none)
    (waits : s.txstate.takesFinfoack = true ∨ s.txstate.takesRpos = true) :
    (s.heed received).refused = false := by
  cases answer : received.answer with
  | none => exact absurd answer answered
  | some offset =>
    cases batch : s.sendEOB with
    | true =>
      have free : s.refused = false := by
        by_contra stands
        have going := heeded.announced (by simpa using stands)
        simp [batch] at going
      have unannounced : s.announced = false := by simp [announced, batch]
      simp [heed, answer, unannounced, free]
    | false =>
      have open_file : s.announced = true := by
        have there : s.pi.sending.isSome = true := Option.isSome_iff_ne_none.mpr current
        simp only [announced, batch, there]
        revert waits
        cases s.txstate <;> simp [HydraTxstate.takesFinfoack, HydraTxstate.takesRpos]
      have agreed : decide (offset = -2) = false := by
        simpa [refusedBy, open_file, answer] using quiet
      simp [heed, answer, open_file, agreed]

/-- The answer to an announcement, when it is not a refusal. -/
theorem heeded_onFinfoack (heeded : Heeded s) (conf : HydraConf) (answers : HydraPacketAnswers)
    (isize : Nat) (ibuf : Bytes) (quiet : s.refusedBy (.packet .finfoack isize ibuf) = false) :
    Minds ((s.heed (.packet .finfoack isize ibuf)).onFinfoack conf answers isize ibuf) := by
  have kept := heeded_heed heeded _ quiet
  have agreed := heed_agreed heeded _ quiet
  have state := heed_txstate s (.packet .finfoack isize ibuf)
  have files := heed_pi s (.packet .finfoack isize ibuf)
  generalize s.heed (.packet .finfoack isize ibuf) = after at kept agreed state files
  unfold onFinfoack
  split
  · rename_i waits
    have waits : s.txstate.takesFinfoack = true := by
      rw [state] at waits
      rcases waits with waits | waits <;> rw [waits] <;> rfl
    dsimp only
    split
    · rename_i batch
      have free : after.refused = false := by
        by_contra stands
        have going := kept.announced (by simpa using stands)
        simp [batch] at going
      exact heeded_free kept rfl free rfl
    · split
      · exact kept
      · rename_i complete
        have answered : (HydraReceived.packet .finfoack isize ibuf).answer ≠ none := by
          simp [HydraReceived.answer, show 4 ≤ isize by omega]
        split
        · cases current : s.pi.sending with
          | none => exact heeded_without kept rfl rfl rfl (files ▸ current)
          | some finf =>
            exact heeded_free kept rfl (agreed answered (by simp [current]) (.inl waits)) rfl
        · split
          · exact kept.respected
          · rename_i there
            have free : after.refused = false :=
              agreed answered (by simpa [files] using there) (.inl waits)
            have loose : ∀ status : Fstat, after.refused = true →
                status ≠ .success ∧ status ≠ .skipped := by simp [free]
            split
            · unfold sendFrom
              split
              · exact kept.respected
              · split
                · exact heeded_free kept rfl free rfl
                · exact heeded_closeAndNext kept.respected (by simp [free]) answers
            · split
              · exact heeded_closeAs kept answers .skipped (loose _)
              · exact heeded_closeAs kept answers .refused (loose _)
  · exact kept

/-- A request for another position, when it is not a refusal. -/
theorem heeded_onRpos (heeded : Heeded s) (conf : HydraConf) (answers : HydraPacketAnswers)
    (isize : Nat) (ibuf : Bytes) (quiet : s.refusedBy (.packet .rpos isize ibuf) = false) :
    Minds ((s.heed (.packet .rpos isize ibuf)).onRpos conf answers isize ibuf) := by
  have kept := heeded_heed heeded _ quiet
  have agreed := heed_agreed heeded _ quiet
  have state := heed_txstate s (.packet .rpos isize ibuf)
  have files := heed_pi s (.packet .rpos isize ibuf)
  generalize s.heed (.packet .rpos isize ibuf) = after at kept agreed state files
  unfold onRpos
  split
  · rename_i takes
    split
    · exact kept
    · rename_i complete
      have answered : (HydraReceived.packet .rpos isize ibuf).answer ≠ none := by
        simp [HydraReceived.answer, show 10 ≤ isize by omega]
      dsimp only
      split
      · exact kept
      · split
        · exact kept.respected
        · rename_i there
          have free : after.refused = false :=
            agreed answered (by simpa [files] using there) (.inr (state ▸ takes))
          split
          · unfold resend
            dsimp only
            split
            · exact kept.respected
            · split
              · refine heeded_free kept rfl free ?_
                change HydraTxstate.takesFinfoack (if after.txstate = .xwait then _ else _) = false
                split <;> rfl
              · exact heeded_free kept rfl free rfl
          · split
            · exact heeded_free kept rfl free rfl
            · exact heeded_free kept rfl free rfl
  · exact kept

/-! ## Refusals -/

/-- A refusal comes while a file is announced, with an offset of -2. -/
theorem refusedBy_spec (received : HydraReceived) (refused : s.refusedBy received = true) :
    s.sendEOB = false ∧ s.pi.sending.isSome = true ∧
      (s.txstate.takesFinfoack = true ∨ s.txstate.takesRpos = true) ∧
      received.answer = some (-2) ∧ s.heed received = { s with refused := true } := by
  simp only [refusedBy, Bool.and_eq_true, decide_eq_true_eq] at refused
  obtain ⟨open_file, answer⟩ := refused
  have heard : s.heed received = { s with refused := true } := by
    simp [heed, answer, open_file]
  simp only [announced, Bool.and_eq_true, Bool.not_eq_true'] at open_file
  refine ⟨open_file.1.1, open_file.1.2, ?_, answer, heard⟩
  have state := open_file.2
  revert state
  cases s.txstate <;> simp [HydraTxstate.takesFinfoack, HydraTxstate.takesRpos]

/-- While the answer to the announcement is awaited a refusal is allowed for. -/
theorem heeded_refused (heeded : Heeded s) (batch : s.sendEOB = false)
    (waits : s.txstate.takesFinfoack = true) : Heeded { s with refused := true } where
  respected := heeded.respected
  fresh := heeded.fresh
  announced _ := batch
  standing _ _ _ := .inl waits

/-- A refused announcement closes the file as refused. -/
theorem onFinfoack_refuse (conf : HydraConf) (answers : HydraPacketAnswers) (isize : Nat)
    (ibuf : Bytes) (waits : s.txstate.takesFinfoack = true) (batch : s.sendEOB = false)
    (there : s.pi.sending.isSome = true) (complete : 4 ≤ isize)
    (offset : hydraGetlong conf.wide ibuf = -2) :
    s.onFinfoack conf answers isize ibuf = .more (s.closeAs answers .refused) := by
  have state : s.txstate = .finfo ∨ s.txstate = .finfoack := by
    simpa [HydraTxstate.takesFinfoack] using waits
  have present : ¬ s.pi.sending.isNone = true := by
    simpa using Option.isSome_iff_ne_none.mp there
  unfold onFinfoack
  rw [if_pos state, if_neg (by simp [batch]), if_neg (Nat.not_lt.mpr complete), offset]
  rw [if_neg (by decide), if_neg present, if_neg (by decide), if_neg (by decide)]

/-- A request that refuses the file ends it as refused. -/
theorem onRpos_refuse (conf : HydraConf) (answers : HydraPacketAnswers) (isize : Nat)
    (ibuf : Bytes) (takes : s.txstate.takesRpos = true) (there : s.pi.sending.isSome = true)
    (complete : 10 ≤ isize) (offset : hydraGetlong conf.wide ibuf = -2)
    (other : ¬ (0 < hydraGetlong conf.wide (ibuf.drop 6) ∧
      hydraGetlong conf.wide (ibuf.drop 6) = s.hi.sendRposId)) :
    ∃ packetId, s.onRpos conf answers isize ibuf = .more (s.endFile packetId .refused) := by
  refine ⟨hydraGetlong conf.wide (ibuf.drop 6), ?_⟩
  have present : ¬ s.pi.sending.isNone = true := by
    simpa using Option.isSome_iff_ne_none.mp there
  unfold onRpos
  rw [if_pos takes, if_neg (Nat.not_lt.mpr complete), offset]
  dsimp only
  rw [if_neg other, if_neg present, if_neg (by decide), if_neg (by decide)]

/-- A refused file is marked. -/
theorem heeded_endFile (heeded : Heeded s) (batch : s.sendEOB = false) (packetId : Int) :
    Heeded ({ s with refused := true }.endFile packetId .refused) where
  respected := heeded.respected
  fresh _ waits := by cases waits
  announced _ := batch
  standing _ finf sending := by
    have changed : (s.pi.changeSend fun finf => { finf with status := .refused }).sending =
        some finf := sending
    rw [changeSend_sending] at changed
    obtain ⟨old, _, rfl⟩ := Option.map_eq_some_iff.mp changed
    exact .inr ⟨rfl, rfl⟩

theorem heeded_refuse_finfoack (heeded : Heeded s) (conf : HydraConf)
    (answers : HydraPacketAnswers) (isize : Nat) (ibuf : Bytes)
    (refused : s.refusedBy (.packet .finfoack isize ibuf) = true) (narrow : conf.wide = false)
    (waits : s.txstate.takesFinfoack = true) :
    Minds ((s.heed (.packet .finfoack isize ibuf)).onFinfoack conf answers isize ibuf) := by
  obtain ⟨batch, there, _, answer, heard⟩ := refusedBy_spec _ refused
  simp only [HydraReceived.answer, Option.ite_none_right_eq_some, Option.some.injEq] at answer
  have closed := onFinfoack_refuse (s := { s with refused := true }) conf answers isize ibuf waits
    batch there answer.1 (narrow.symm ▸ answer.2)
  rw [heard, closed]
  exact heeded_closeAs (heeded_refused heeded batch waits) answers .refused fun _ => by simp

theorem heeded_refuse_rpos (heeded : Heeded s) (conf : HydraConf)
    (answers : HydraPacketAnswers) (isize : Nat) (ibuf : Bytes)
    (refused : s.refusedBy (.packet .rpos isize ibuf) = true)
    (taken : s.txstate.takesRpos = true → conf.wide = false ∧
      ¬ (0 < hydraGetlong false (ibuf.drop 6) ∧
        hydraGetlong false (ibuf.drop 6) = s.hi.sendRposId)) :
    Minds ((s.heed (.packet .rpos isize ibuf)).onRpos conf answers isize ibuf) := by
  obtain ⟨batch, there, waits, answer, heard⟩ := refusedBy_spec _ refused
  simp only [HydraReceived.answer, Option.ite_none_right_eq_some, Option.some.injEq] at answer
  rw [heard]
  cases takes : s.txstate.takesRpos with
  | false =>
    have waits : s.txstate.takesFinfoack = true := by simpa [takes] using waits
    have passed : { s with refused := true }.onRpos conf answers isize ibuf =
        .more { s with refused := true } := by simp [onRpos, takes]
    rw [passed]
    exact heeded_refused heeded batch waits
  | true =>
    obtain ⟨narrow, other⟩ := taken takes
    obtain ⟨packetId, ended⟩ := onRpos_refuse (s := { s with refused := true }) conf answers isize
      ibuf takes there answer.1 (narrow.symm ▸ answer.2) (narrow.symm ▸ other)
    rw [ended]
    exact heeded_endFile heeded batch packetId

/-! ## Runs -/

/-- Handling a packet keeps the invariant under the condition. -/
theorem heeded_handle (heeded : Heeded s) (conf : HydraConf) (input : HydraInput)
    (heeds : s.Heeds conf input.received) :
    Minds ((s.heed input.received).handle conf input) := by
  unfold handle
  cases received : input.received with
  | nothing => exact heeded
  | exit => exact heeded
  | junk =>
    change Heeded s.onJunk
    unfold onJunk
    split
    · exact heeded_same heeded rfl
    · exact heeded
  | packet type isize ibuf =>
    rw [received] at heeds
    cases type with
    | start => exact heeded_onStart heeded
    | init => exact heeded_onInit heeded conf input _
    | initack => exact heeded_onInitack heeded
    | finfo => exact heeded_onFinfo heeded conf input.handling isize ibuf
    | finfoack =>
      cases refused : s.refusedBy (.packet .finfoack isize ibuf) with
      | false => exact heeded_onFinfoack heeded conf input.handling isize ibuf refused
      | true =>
        obtain ⟨narrow, waits⟩ := heeds refused
        exact heeded_refuse_finfoack heeded conf input.handling isize ibuf refused narrow waits
    | data => exact heeded_onData heeded conf input.handling isize ibuf
    | dataack => exact heeded_onDataack heeded conf ibuf
    | rpos =>
      cases refused : s.refusedBy (.packet .rpos isize ibuf) with
      | false => exact heeded_onRpos heeded conf input.handling isize ibuf refused
      | true =>
        exact heeded_refuse_rpos heeded conf input.handling isize ibuf refused (heeds refused)
    | eof => exact heeded_onEof heeded conf input.handling isize ibuf
    | eofack => exact heeded_onEofack heeded input.handling heeds
    | «end» => exact heeded_onEnd heeded
    | idle => exact heeded_same heeded rfl
    | devdata => exact heeded
    | devdack => exact heeded

/-- A turn keeps the invariant under the condition. -/
theorem heeded_step (heeded : Heeded s) (conf : HydraConf) (input : HydraInput)
    (attends : s.Attends conf input) : Minds (s.step conf input) := by
  unfold step
  split
  · split
    · exact heeded_leave heeded input .noerror
    · exact heeded_leave heeded input .error
  · have prepared := heeded_prepare heeded conf input
    unfold Attends at attends
    cases ready : s.prepare conf input with
    | more middle =>
      rw [ready] at prepared attends
      exact heeded_handle prepared conf input attends
    | halt final result =>
      rw [ready] at prepared
      exact prepared

end Invariant

end HydraState

/-- In every run of a batch whose turns all meet the condition, no file is closed
as sent or skipped while the last answer for it was a refusal, and nothing is done
to the source of such a file. -/
theorem refusal_respected (conf : HydraConf) (hi : HydraInfo) (pi : Protinfo)
    (inputs : List HydraInput)
    (attends : Along (HydraState.Attends conf) (HydraState.step conf) (hydraBatch hi pi) inputs) :
    (run (HydraState.step conf) (hydraBatch hi pi) inputs).Leaves fun s =>
      Respected s ∧
        ∀ closure ∈ s.closures, closure.refused = true → postSend closure.finf = [] := by
  have initial : Heeded (hydraBatch hi pi) := by
    constructor <;> simp [hydraBatch, Respected, HydraTxstate.takesFinfoack]
  have kept := run_invariant Heeded (fun final (_ : HydraResult) => Respected final)
    (fun before input after heeded attend taken => by
      have turn := HydraState.heeded_step heeded conf input attend
      rwa [taken] at turn)
    (fun before input after result heeded attend taken => by
      have turn := HydraState.heeded_step heeded conf input attend
      rwa [taken] at turn)
    (hydraBatch hi pi) initial inputs attends
  have idle : ∀ s : HydraState, Respected s →
      ∀ closure ∈ s.closures, closure.refused = true → postSend closure.finf = [] := by
    intro s respected closure member refused
    obtain ⟨sent, skipped⟩ := respected closure member refused
    simp [postSend, sent, skipped]
  cases ended : run (HydraState.step conf) (hydraBatch hi pi) inputs with
  | more final =>
    rw [ended] at kept
    exact ⟨kept.respected, idle final kept.respected⟩
  | halt final result =>
    rw [ended] at kept
    exact ⟨kept, idle final kept⟩

/-! ## Examples of runs -/

/-- A batch on a system with a `long` of 32 bits, or of 64. -/
def hydraConf (wide : Bool) : HydraConf where
  wide
  version := ascii "0"
  files := { netName := fun name _ => name, filetype := fun _ => 0, localtogmt := id }

/-- A letter of six bytes that is to be deleted once it is sent. -/
def sendsLetter : HydraState :=
  hydraBatch {} { lists := {
    queue := [⟨ascii "a", 6, typeArcmail, 0, .unlink, .willsend, -1⟩]
    filelist := []
    reqsOnly := false } }

/-- A turn in which this is received and all that waits is written. -/
def hydraTurn (received : HydraReceived) : HydraInput where
  sending := { opens := { opens := fun source =>
    if source = .network then none else some ⟨ascii "letter", 0⟩ } }
  received
  written := some 8

/-- The turns in which the remote sends these packets. -/
def hydraTurns (packets : List HydraPacket) : List HydraInput :=
  packets.map fun packet => hydraTurn (.packet packet.type packet.data.length packet.data)

/-- The packets of the remote up to the announcement of the first file, with its
options, and a turn in which it is awaited. -/
def hydraOpening : List HydraInput :=
  hydraTurns [⟨.start, []⟩, ⟨.initack, []⟩, ⟨.init, ascii "00000000x" ++ [0] ++ ascii "C32" ++
    [0] ++ ascii "C32" ++ [0] ++ ascii "0000000000000000" ++ [0, 0]⟩] ++ [hydraTurn .nothing]

/-- The remote refuses the announced letter. -/
def refusesAnnouncement : List HydraInput :=
  hydraOpening ++ hydraTurns [⟨.finfoack, hydraPutlong (-2)⟩]

/-- The remote takes the letter, refuses it once its end was sent, and acknowledges
that it was. -/
def refusesAtEnd : List HydraInput :=
  hydraOpening ++ hydraTurns [⟨.finfoack, hydraPutlong 0⟩, ⟨.idle, []⟩,
    ⟨.rpos, hydraPutlong (-2) ++ hydraPutword 64 ++ hydraPutlong 101⟩, ⟨.eofack, []⟩]

/-- Where a `long` has 32 bits, a refused announcement leaves the letter alone. -/
theorem refused_announcement_respected :
    (run (HydraState.step (hydraConf false)) sendsLetter refusesAnnouncement).Leaves fun s =>
      Respected s ∧
        ∀ closure ∈ s.closures, closure.refused = true → postSend closure.finf = [] := by
  unfold sendsLetter
  apply refusal_respected
  decide

/-- A letter refused at its end is deleted. -/
theorem refused_at_end_deleted :
    (run (HydraState.step (hydraConf false)) sendsLetter refusesAtEnd).Leaves fun s =>
      ¬ Respected s ∧ s.pi.effects = [⟨0, .unlink⟩] := by
  decide

-- Where a `long` has 64 bits, the refused announcement is an offset to resume from.
example :
    (run (HydraState.step (hydraConf true)) sendsLetter
      (refusesAnnouncement ++ hydraTurns [⟨.idle, []⟩, ⟨.idle, []⟩, ⟨.eofack, []⟩])).Leaves
        fun s => ¬ Respected s ∧ s.pi.effects = [⟨0, .unlink⟩] := by
  decide

end Binkleyforce
