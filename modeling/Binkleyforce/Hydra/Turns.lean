import Binkleyforce.Hydra.Batch
import Binkleyforce.Transfer.Sides

/-!
# What a Hydra turn makes

The packets that a turn puts into the queue, and what it does to the receiver. The
transmitter and the packets meant for it leave the receiver alone, and only the
receiver asks for a position.
-/

namespace Binkleyforce

open Library

namespace HydraState

section Stages

variable (conf : HydraConf) (input : HydraInput) (s : HydraState)

/-- The part of a turn before the line is looked at. -/
def compose : Turn HydraState HydraResult :=
  (s.timers input).andThen fun s =>
    (s.transmit conf input).andThen fun s => s.receive input

/-- The states around the handling of what was received, where the turn gets so far. -/
def handled : Option (HydraState × HydraState) :=
  if s.isOver then none
  else
    match (s.compose conf input).andThen fun s => s.exchange input with
    | .halt _ _ => none
    | .more passed =>
      match (passed.heed input.received).handle conf input with
      | .halt _ _ => none
      | .more after => some (passed.heed input.received, after)

/-- The packets that were put into the queue behind those that were there before. -/
def queuedSince (before after : HydraState) : List HydraPacket :=
  after.hi.pktqueue.drop before.hi.pktqueue.length

/-- The packets a turn makes that goes on. -/
def made : List HydraPacket :=
  (match s.compose conf input with
    | .halt _ _ => []
    | .more composed => s.queuedSince composed) ++
  (match s.handled conf input with
    | none => []
    | some (passed, after) => passed.queuedSince after)

/-- What a turn that goes on has done. -/
theorem step_more (after : HydraState) (stepped : step conf s input = .more after) :
    ∃ timed sent composed passed, s.timers input = .more timed ∧
      timed.transmit conf input = .more sent ∧ sent.receive input = .more composed ∧
      composed.exchange input = .more passed ∧
      (passed.heed input.received).handle conf input = .more after ∧
      s.compose conf input = .more composed ∧
      s.handled conf input = some (passed.heed input.received, after) := by
  unfold step at stepped
  by_cases gone : s.isOver = true
  · rw [if_pos gone] at stepped
    unfold leave at stepped
    split at stepped
    · cases stepped
    · cases stepped
  · rw [if_neg gone] at stepped
    obtain ⟨passed, prepared, handled⟩ := (Turn.andThen_more_iff _ _ _).mp stepped
    unfold prepare at prepared
    obtain ⟨timed, first, prepared⟩ := (Turn.andThen_more_iff _ _ _).mp prepared
    obtain ⟨sent, second, prepared⟩ := (Turn.andThen_more_iff _ _ _).mp prepared
    obtain ⟨composed, third, exchanged⟩ := (Turn.andThen_more_iff _ _ _).mp prepared
    have composes : s.compose conf input = .more composed := by
      simp only [compose, first, second, third, Turn.more_andThen]
    refine ⟨timed, sent, composed, passed, first, second, third, exchanged, handled, composes, ?_⟩
    simp only [HydraState.handled, if_neg gone, composes, Turn.more_andThen, exchanged, handled]

end Stages

/-! ## What is put into the queue -/

/-- Only packets of some kinds were put into the queue. -/
def Queues (kinds : HydraPkttype → Bool) (before after : HydraState) : Prop :=
  ∃ packets, after.hi.pktqueue = before.hi.pktqueue ++ packets ∧
    ∀ packet ∈ packets, kinds packet.type = true

theorem Queues.none {kinds : HydraPkttype → Bool} {before after : HydraState}
    (same : after.hi.pktqueue = before.hi.pktqueue) : Queues kinds before after :=
  ⟨[], by simp [same], nofun⟩

theorem Queues.one {kinds : HydraPkttype → Bool} {before after : HydraState} (packet : HydraPacket)
    (queued : after.hi.pktqueue = before.hi.pktqueue ++ [packet])
    (kind : kinds packet.type = true) : Queues kinds before after := by
  refine ⟨[packet], queued, fun other member => ?_⟩
  rw [List.mem_singleton.mp member]
  exact kind

theorem Queues.trans {kinds : HydraPkttype → Bool} {before middle after : HydraState}
    (first : Queues kinds before middle) (second : Queues kinds middle after) :
    Queues kinds before after := by
  obtain ⟨packets, queued, kind⟩ := first
  obtain ⟨later, appended, laterKind⟩ := second
  refine ⟨packets ++ later, by rw [appended, queued, List.append_assoc], fun packet member => ?_⟩
  exact (List.mem_append.mp member).elim (kind packet) (laterKind packet)

/-- Those packets are the ones behind the packets that were there. -/
theorem Queues.since {kinds : HydraPkttype → Bool} {before after : HydraState}
    (queues : Queues kinds before after) :
    ∀ packet ∈ before.queuedSince after, kinds packet.type = true := by
  obtain ⟨packets, queued, kind⟩ := queues
  unfold queuedSince
  rw [queued, List.drop_left]
  exact kind

/-- What concerns the receiver. -/
def incoming (s : HydraState) : HydraRxstate × Int × Option Finfo :=
  (s.rxstate, s.hi.recvRposId, s.pi.receiving)

/-- The kinds of packets that do not ask for a position. -/
def asksNothing (type : HydraPkttype) : Bool := type ≠ .rpos

/-- The receiver is left alone, and no position is asked for. -/
structure Apart (before after : HydraState) : Prop where
  incoming : after.incoming = before.incoming
  queues : Queues asksNothing before after

section Apart

variable {before middle after : HydraState} (conf : HydraConf) (input : HydraInput)
  (s : HydraState)

theorem Apart.trans (first : Apart before middle) (second : Apart middle after) :
    Apart before after :=
  ⟨second.incoming.trans first.incoming, first.queues.trans second.queues⟩

theorem Apart.same (incoming : after.incoming = before.incoming)
    (queue : after.hi.pktqueue = before.hi.pktqueue) : Apart before after :=
  ⟨incoming, .none queue⟩

/-- A packet that asks for nothing is put into the queue. -/
theorem Apart.queued (type : HydraPkttype) (data : Bytes) (kind : type ≠ .rpos)
    (apart : Apart before middle) : Apart before (middle.queuepkt type data) :=
  apart.trans ⟨rfl, .one ⟨type, data⟩ rfl (by simp [asksNothing, kind])⟩

theorem closeSend_apart (told : Bool) : Apart s (s.closeSend told) :=
  .same (by simp [closeSend, HydraState.incoming]) rfl

theorem changeSend_apart (change : Finfo → Finfo) : Apart s (s.changeSend change) :=
  .same (by simp [changeSend, HydraState.incoming]) rfl

theorem closeAndNext_apart (answers : HydraPacketAnswers) : Apart s (s.closeAndNext answers) :=
  (closeSend_apart s answers.told).trans (.same rfl rfl)

theorem closeAs_apart (answers : HydraPacketAnswers) (status : Fstat) :
    Apart s (s.closeAs answers status) :=
  (changeSend_apart s _).trans (closeAndNext_apart _ answers)

theorem attempt_apart (send : HydraState → HydraState) (apart : Apart before s)
    (sends : ∀ s, Apart s (send s)) (tried : s.attempt input send = .more after) :
    Apart before after := by
  unfold attempt at tried
  split at tried
  · have counted : Apart s { s with txtries := s.txtries + 1 } := .same rfl rfl
    injection tried with same
    exact same ▸ apart.trans (counted.trans (sends _))
  · cases tried

theorem sendFinfo_apart : Apart s (s.sendFinfo conf) :=
  @Apart.queued _ { s with sendtimer := true, txstate := .finfoack } .finfo _ nofun
    (.same rfl rfl)

theorem nextFile_apart : Apart s (s.nextFile conf input) := by
  have opened : ∀ s : HydraState, Apart s (s.openNext conf input.sending.opens) := fun s =>
    .same (by simp [openNext, HydraState.incoming]) rfl
  unfold nextFile
  split
  · exact (closeSend_apart s _).trans (opened _)
  · exact opened s

theorem sendBlock_apart (bytes : Bytes) (finf : Finfo) :
    Apart s (s.sendBlock conf bytes finf) := by
  have raised : ∀ hi : HydraInfo, (raiseBlockSize hi).recvRposId = hi.recvRposId ∧
      (raiseBlockSize hi).pktqueue = hi.pktqueue := by
    intro hi
    unfold raiseBlockSize
    dsimp only
    split <;> exact ⟨rfl, rfl⟩
  have sent : Apart s (((s.queuepkt .data (hydraPutlong finf.bytesSent ++ bytes)).changeSend
      fun _ => { finf with bytesSent := finf.bytesSent + bytes.length })) :=
    (Apart.queued .data _ nofun (.same rfl rfl)).trans (changeSend_apart _ _)
  unfold sendBlock
  dsimp only
  generalize (s.queuepkt .data (hydraPutlong finf.bytesSent ++ bytes)).changeSend
    (fun _ => { finf with bytesSent := finf.bytesSent + bytes.length }) = middle at sent
  have grown : Apart s { middle with hi := raiseBlockSize middle.hi } :=
    sent.trans (.same (by simp [HydraState.incoming, raised]) (raised middle.hi).2)
  split
  · exact grown.trans (.same rfl rfl)
  · split
    · exact grown.trans (.same rfl rfl)
    · exact grown

theorem sendData_apart (sent : s.sendData conf input = .more after) : Apart s after := by
  unfold sendData at sent
  split at sent
  · cases sent
  · split at sent
    · injection sent with same
      exact same ▸ .same rfl rfl
    · split at sent
      · unfold readBlock at sent
        split at sent
        · cases sent
        · rename_i pi read taken
          have receiving := pTxReadfile_receiving _ _ _ _ taken
          split at sent
          · injection sent with same
            subst same
            have moved : Apart s { s with pi, sendtimer := false } :=
              .same (by simp [HydraState.incoming, receiving]) rfl
            exact moved.trans (sendBlock_apart conf _ _ _)
          · injection sent with same
            exact same ▸ .same (by simp [HydraState.incoming, receiving]) rfl
      · injection sent with same
        exact same ▸ .same rfl rfl

/-- The transmitter leaves the receiver alone. -/
theorem transmit_apart (sent : s.transmit conf input = .more after) : Apart s after := by
  have here : Apart s s := .same rfl rfl
  unfold transmit at sent
  split at sent
  · exact attempt_apart input s _ here
      (fun s => @Apart.queued _ { s with sendtimer := true, txstate := .swait } .start _ nofun
        (.same rfl rfl)) sent
  · exact attempt_apart input s _ here
      (fun s => @Apart.queued _ { s with sendtimer := true, txstate := .initack } .init _ nofun
        (.same rfl rfl)) sent
  · injection sent with same
    subst same
    split
    · exact .same rfl rfl
    · exact here
  · exact attempt_apart input _ _ (nextFile_apart conf input s) (sendFinfo_apart conf) sent
  · exact attempt_apart input s _ here (sendFinfo_apart conf) sent
  · exact sendData_apart conf input s sent
  · exact attempt_apart input s _ here
      (fun s => @Apart.queued _ { s with sendtimer := true, txstate := .eofack } .eof _ nofun
        (.same rfl rfl)) sent
  · injection sent with same
    subst same
    unfold awaitReceiver
    split
    · exact .same rfl rfl
    · split
      · exact @Apart.queued _ { s with idletimer := true } .idle _ nofun (.same rfl rfl)
      · exact here
  · exact attempt_apart input s _ here
      (fun s => @Apart.queued _ { s with sendtimer := true, txstate := .endack } .end _ nofun
        (.same rfl rfl)) sent
  · injection sent with same
    exact same ▸ here

/-! The packets meant for the transmitter. -/

theorem onStart_apart : Apart s s.onStart := by
  unfold onStart
  split <;> exact .same rfl rfl

theorem onInitack_apart : Apart s s.onInitack := by
  unfold onInitack
  split <;> exact .same rfl rfl

theorem sendFrom_apart (answers : HydraPacketAnswers) (offs : Int)
    (sent : s.sendFrom answers offs = .more after) : Apart s after := by
  unfold sendFrom at sent
  split at sent
  · cases sent
  · split at sent
    · injection sent with same
      exact same ▸ .same (by simp [changeSend, seek, HydraState.incoming]) rfl
    · injection sent with same
      exact same ▸ closeAndNext_apart s answers

theorem onFinfoack_apart (answers : HydraPacketAnswers) (isize : Nat) (ibuf : Bytes)
    (heard : s.onFinfoack conf answers isize ibuf = .more after) : Apart s after := by
  unfold onFinfoack at heard
  split at heard
  · dsimp only at heard
    split at heard
    · injection heard with same
      exact same ▸ .same rfl rfl
    · split at heard
      · injection heard with same
        exact same ▸ .same rfl rfl
      · split at heard
        · injection heard with same
          exact same ▸ .same rfl rfl
        · split at heard
          · cases heard
          · split at heard
            · exact sendFrom_apart s answers _ heard
            · split at heard
              · injection heard with same
                exact same ▸ closeAs_apart s answers _
              · injection heard with same
                exact same ▸ closeAs_apart s answers _
  · injection heard with same
    exact same ▸ .same rfl rfl

theorem onDataack_apart (ibuf : Bytes) (heard : s.onDataack conf ibuf = .more after) :
    Apart s after := by
  unfold onDataack at heard
  split at heard
  · split at heard
    · cases heard
    · dsimp only at heard
      split at heard
      · injection heard with same
        exact same ▸ .same rfl rfl
      · split at heard
        · injection heard with same
          exact same ▸ .same rfl rfl
        · split at heard
          · injection heard with same
            exact same ▸ .same rfl rfl
          · injection heard with same
            exact same ▸ .same rfl rfl
  · injection heard with same
    exact same ▸ .same rfl rfl

theorem endFile_apart (packetId : Int) (status : Fstat) : Apart s (s.endFile packetId status) :=
  (changeSend_apart s _).trans (.same rfl rfl)

theorem resend_apart (answers : HydraPacketAnswers) (offset : Int) (blocksize : Nat)
    (packetId : Int) (heard : s.resend answers offset blocksize packetId = .more after) :
    Apart s after := by
  have used : ∀ hi : HydraInfo, (useBlockSize blocksize hi).recvRposId = hi.recvRposId ∧
      (useBlockSize blocksize hi).pktqueue = hi.pktqueue := by
    intro hi
    unfold useBlockSize
    split <;> exact ⟨rfl, rfl⟩
  unfold resend at heard
  dsimp only at heard
  split at heard
  · cases heard
  · split at heard
    · injection heard with same
      subst same
      refine .same ?_ ?_
      · simp [changeSend, seek, HydraState.incoming, used]
      · simp [changeSend, seek, used]
    · injection heard with same
      exact same ▸ .same (by simp [endFile, changeSend, HydraState.incoming]) rfl

theorem onRpos_apart (answers : HydraPacketAnswers) (isize : Nat) (ibuf : Bytes)
    (heard : s.onRpos conf answers isize ibuf = .more after) : Apart s after := by
  unfold onRpos at heard
  split at heard
  · split at heard
    · injection heard with same
      exact same ▸ .same rfl rfl
    · dsimp only at heard
      split at heard
      · injection heard with same
        exact same ▸ .same rfl rfl
      · split at heard
        · cases heard
        · split at heard
          · exact resend_apart s answers _ _ _ heard
          · split at heard
            · injection heard with same
              exact same ▸ endFile_apart s _ _
            · injection heard with same
              exact same ▸ endFile_apart s _ _
  · injection heard with same
    exact same ▸ .same rfl rfl

theorem onEofack_apart (answers : HydraPacketAnswers) : Apart s (s.onEofack answers) := by
  unfold onEofack
  split
  · split
    · exact .same rfl rfl
    · split
      · exact closeAs_apart s answers _
      · exact closeAndNext_apart s answers
  · exact .same rfl rfl

theorem onEnd_apart : Apart s s.onEnd := by
  unfold onEnd
  split
  · have queued := Apart.queued .end [] nofun (Apart.queued .end [] nofun
      (Apart.queued .end [] nofun (@Apart.same s _ rfl rfl)))
    exact queued.trans (.same rfl rfl)
  · exact .same rfl rfl

end Apart

end HydraState

end Binkleyforce
