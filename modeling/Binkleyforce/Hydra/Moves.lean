import Binkleyforce.Hydra.Turns
import Binkleyforce.Library.Traces
import Binkleyforce.Transfer.Streams

/-!
# What a Hydra turn does to the file being sent

The transmitter of a batch as a machine of its own: its state, the window, the last position that was
acknowledged, and for each file how many of its bytes were skipped and sent. A turn of the batch is a
sequence of the moves of this machine.
-/

namespace Binkleyforce

open Library

/-! ## The counters of the files sent -/

/-- The bytes of a file that were skipped and those that were sent. -/
def Finfo.sendCounts (finf : Finfo) : Nat × Nat := (finf.bytesSkipped, finf.bytesSent)

/-- The counters of all files sent. -/
def Protinfo.sendCounts (pi : Protinfo) : List (Nat × Nat) := pi.sentfiles.map Finfo.sendCounts

/-- Change the entry of a list at a place, if there is one. -/
def changeAt {α : Type} (place : Option Nat) (change : α → α) (list : List α) : List α :=
  match place with
  | none => list
  | some index => list.modify index change

/-- A change that changes nothing. -/
@[simp] theorem changeAt_id {α : Type} (place : Option Nat) (list : List α) :
    changeAt place (fun entry => entry) list = list := by
  cases place with
  | none => rfl
  | some index => exact List.modify_id index list

/-- A modified list that is mapped, where the functions agree. -/
theorem map_modify_comm {α β : Type} (f : α → β) (change : α → α) (change' : β → β)
    (agree : ∀ a, f (change a) = change' (f a)) (list : List α) (index : Nat) :
    (list.modify index change).map f = (list.map f).modify index change' := by
  induction list generalizing index with
  | nil => simp
  | cons first rest inductionHypothesis =>
    cases index with
    | zero => simp [agree]
    | succ index => simp [inductionHypothesis]

/-- A modified list that is mapped, where the entry is mapped to the same. -/
theorem map_modify_same {α β : Type} (f : α → β) (change : α → α) (list : List α) (index : Nat)
    (same : ∀ a, list[index]? = some a → f (change a) = f a) :
    (list.modify index change).map f = list.map f := by
  apply List.ext_getElem?
  intro place
  rw [List.getElem?_map, List.getElem?_map, List.getElem?_modify]
  by_cases here : index = place
  · subst here
    cases there : list[index]? with
    | none => rfl
    | some entry => simpa using same entry there
  · simp [here]

/-- A change of the current file changes its counters. -/
theorem changeSend_sendCounts (pi : Protinfo) (change : Finfo → Finfo) (counts : Nat × Nat → Nat × Nat)
    (agree : ∀ finf, (change finf).sendCounts = counts finf.sendCounts) :
    (pi.changeSend change).sendCounts = changeAt pi.send counts pi.sendCounts := by
  unfold Protinfo.changeSend changeAt
  cases pi.send with
  | none => rfl
  | some index => exact map_modify_comm _ _ _ agree _ _

/-- A change that leaves the counters of the current file. -/
theorem changeSend_sendCounts_same (pi : Protinfo) (change : Finfo → Finfo)
    (agree : ∀ finf, (change finf).sendCounts = finf.sendCounts) :
    (pi.changeSend change).sendCounts = pi.sendCounts := by
  rw [changeSend_sendCounts pi change id agree]
  exact changeAt_id _ _

@[simp] theorem changeSend_send (pi : Protinfo) (change : Finfo → Finfo) :
    (pi.changeSend change).send = pi.send := by
  unfold Protinfo.changeSend
  cases current : pi.send with
  | none => exact current
  | some index => exact current

/-- Closing a file leaves the counters. -/
theorem pTxFclose_sendCounts (told : Bool) (pi : Protinfo) :
    (pTxFclose told pi).sendCounts = pi.sendCounts := by
  unfold pTxFclose
  split
  · exact map_modify_same _ _ _ _ fun _ _ => rfl
  · rfl

theorem pTxFclose_send (told : Bool) (pi : Protinfo) : (pTxFclose told pi).send = none := by
  unfold pTxFclose
  split
  · rfl
  · rfl

/-- A file that is opened has sent nothing; where none is opened, nothing changes. -/
theorem pTxFopen_sendCounts (conf : TransferConf) (answers : TxOpenAnswers) (pi : Protinfo) :
    (pTxFopen conf answers pi).2 = true ∧
        (pTxFopen conf answers pi).1.sendCounts = pi.sendCounts ++ [(0, 0)] ∧
        (pTxFopen conf answers pi).1.send = some pi.sendCounts.length ∨
      (pTxFopen conf answers pi).2 = false ∧
        (pTxFopen conf answers pi).1.sendCounts = pi.sendCounts ∧
        (pTxFopen conf answers pi).1.send = pi.send := by
  have begun (pi : Protinfo) (finf : Finfo) (new : finf.sendCounts = (0, 0)) :
      (pi.begin finf).sendCounts = pi.sendCounts ++ [(0, 0)] ∧
        (pi.begin finf).send = some pi.sendCounts.length := by
    unfold Protinfo.begin Protinfo.sendCounts
    rw [List.map_append, List.length_map]
    exact ⟨congrArg _ (congrArg (fun counts => [counts]) new), rfl⟩
  unfold pTxFopen
  dsimp only
  split
  · exact .inr ⟨rfl, rfl, rfl⟩
  · exact .inl ⟨rfl, begun _ _ rfl⟩
  · split
    · exact .inl ⟨rfl, begun _ _ rfl⟩
    · exact .inr ⟨rfl, rfl, rfl⟩

/-- Reading leaves the counters. -/
theorem pTxReadfile_sendCounts {answers : TxReadAnswers} {buflen : Nat} {pi after : Protinfo} {result : TxRead}
    (read : pTxReadfile answers buflen pi = some (after, result)) :
    after.sendCounts = pi.sendCounts ∧ after.send = pi.send := by
  have same (pi : Protinfo) (change : Finfo → Finfo)
      (agree : ∀ finf, (change finf).sendCounts = finf.sendCounts) :
      (pi.changeSend change).sendCounts = pi.sendCounts ∧ (pi.changeSend change).send = pi.send :=
    ⟨changeSend_sendCounts_same pi change agree, changeSend_send pi change⟩
  unfold pTxReadfile at read
  split at read
  · cases read
  · rename_i finf current
    split at read
    · injection read with read
      unfold readNetspool at read
      split at read
      · cases read
        exact same _ _ fun _ => rfl
      · dsimp only at read
        split at read
        · cases read
          rw [changeSend_twice]
          exact same _ _ fun _ => rfl
        · cases read
          exact same _ _ fun _ => rfl
    · split at read
      · cases read
        exact ⟨rfl, rfl⟩
      · rename_i stream opened
        simp only [Option.some.injEq, Prod.mk.injEq] at read
        obtain ⟨rfl, -⟩ := read
        refine ⟨?_, changeSend_send pi _⟩
        have counts : (readLocal answers buflen stream finf).1.sendCounts = finf.sendCounts := by
          unfold readLocal
          dsimp only
          repeat' split
          all_goals rfl
        obtain ⟨index, chosen, there⟩ := Option.bind_eq_some_iff.mp current
        unfold Protinfo.changeSend
        rw [chosen]
        apply map_modify_same
        intro file found
        obtain rfl : finf = file := Option.some.inj (there.symm.trans found)
        exact counts

/-! ## The transmitter -/

/-- The transmitter: its state; whether no file is left; the last acknowledged position and the window;
whether the remote has not announced a window yet; the counters of the files, and the file being sent. -/
structure HydraTx where
  txstate : HydraTxstate
  sendEOB : Bool
  txlastack : Int
  txwindow : Nat
  starting : Bool
  counts : List (Nat × Nat)
  send : Option Nat
  deriving DecidableEq, Repr

/-- How far the transmitter has come with a file. -/
inductive HydraStage where
  | early
  | between
  | announcing
  | sending
  deriving DecidableEq, Repr

/-- The stage a state belongs to. -/
def HydraTxstate.stage : HydraTxstate → HydraStage
  | .start | .swait | .init | .initack | .rinit => .early
  | .finfo | .finfoack => .announcing
  | .data | .dataack | .xwait | .eof | .eofack => .sending
  | _ => .between

/-- The moves of the transmitter. -/
inductive HydraMove where
  | pass
  | leave
  | expire
  | agree (window : Nat)
  | answer (ack : Bytes)
  | close
  | «open»
  | finish
  | block (pos : Nat) (bytes : Bytes)
  | resume (offset : Nat)
  | reposition (offset : Nat)
  | acknowledge (pos : Int)
  deriving DecidableEq, Repr

namespace HydraTx

/-- The transmitter of a batch. -/
def of (s : HydraState) : HydraTx where
  txstate := s.txstate
  sendEOB := s.sendEOB
  txlastack := s.txlastack
  txwindow := s.hi.txwindow
  starting := decide (s.rxstate = .init)
  counts := s.pi.sendCounts
  send := s.pi.send

/-- The window holds so many bytes. -/
def fits (conf : HydraConf) (tx : HydraTx) (bytesSent : Nat) : Bool :=
  bytesSent < unsignedLong conf.wide (tx.txlastack + tx.txwindow)

/-- The counters of the file being sent. -/
def current (tx : HydraTx) : Option (Nat × Nat) := tx.send.bind (tx.counts[·]?)

/-- A position as it is read from a packet. -/
def Position (conf : HydraConf) (pos : Int) : Prop := ∃ number, pos = long conf.wide number

/-- A window that some INIT packet announces. -/
def Announced (conf : HydraConf) (window : Nat) : Prop := ∃ text, window = (parseWindows conf.wide text).1

/-- A move. -/
inductive Move (conf : HydraConf) : HydraTx → HydraMove → HydraTx → Prop where
  /-- Nothing that concerns the counters and the window. -/
  | pass (tx : HydraTx) (txstate : HydraTxstate)
      (stage : txstate.stage = tx.txstate.stage ∨
        txstate.stage = .between ∧ (tx.txstate.stage = .early → tx.starting = false))
      (data : txstate = .data ∨ txstate = .dataack → txstate = tx.txstate) :
      Move conf tx .pass { tx with txstate }
  /-- An acknowledgement did not come in time. -/
  | expire (tx : HydraTx) (waits : tx.txstate = .dataack) :
      Move conf tx .expire { tx with txstate := .data }
  /-- The batch is left, and the file is closed. -/
  | leave (tx : HydraTx) : Move conf tx .leave { tx with send := none }
  /-- The remote announces a window. -/
  | agree (tx : HydraTx) (window : Nat) (starting : tx.starting = true) (size : Announced conf window) :
      Move conf tx (.agree window) { tx with txwindow := window, starting := false }
  /-- The receiver acknowledges what it has of another file. -/
  | answer (tx : HydraTx) (ack : Bytes) : Move conf tx (.answer ack) tx
  /-- The file is closed, and the next one is to be opened. -/
  | close (tx : HydraTx) (late : tx.txstate.stage ≠ .early) :
      Move conf tx .close { tx with txstate := .nextFile, send := none }
  /-- The next file is opened. -/
  | «open» (tx : HydraTx) (state : tx.txstate = .nextFile) :
      Move conf tx .open
        { tx with
          txstate := .finfo
          sendEOB := false
          counts := tx.counts ++ [(0, 0)]
          send := some tx.counts.length }
  /-- No file is left. -/
  | finish (tx : HydraTx) (state : tx.txstate = .nextFile) :
      Move conf tx .finish { tx with txstate := .finfo, sendEOB := true }
  /-- A block is sent, and it fills the window or not. -/
  | block (tx : HydraTx) (index skipped sent : Nat) (bytes : Bytes) (txstate : HydraTxstate)
      (state : tx.txstate = .data) (chosen : tx.send = some index)
      (there : tx.counts[index]? = some (skipped, sent)) (some_ : bytes ≠ [])
      (next : txstate = .dataack ∧ 0 < tx.txwindow ∧ tx.fits conf (sent + bytes.length) = false ∨
        (txstate = .data ∨ txstate = .eof) ∧
          (0 < tx.txwindow → tx.fits conf (sent + bytes.length) = true)) :
      Move conf tx (.block sent bytes)
        { tx with
          txstate
          counts := tx.counts.modify index fun counts => (counts.1, counts.2 + bytes.length) }
  /-- The remote takes the file from its beginning. -/
  | begin (tx : HydraTx) (state : tx.txstate.stage = .announcing) (batch : tx.sendEOB = false) :
      Move conf tx (.resume 0) { tx with txstate := .data, txlastack := 0 }
  /-- The remote takes the file from an offset on. -/
  | resume (tx : HydraTx) (offset : Nat) (state : tx.txstate.stage = .announcing)
      (batch : tx.sendEOB = false) (position : Position conf offset) :
      Move conf tx (.resume offset)
        { tx with
          txstate := .data
          txlastack := offset
          counts := changeAt tx.send (fun _ => (offset, offset)) tx.counts }
  /-- The remote wants the file again from an offset on. -/
  | reposition (tx : HydraTx) (offset : Nat) (txstate : HydraTxstate)
      (stage : tx.txstate.stage = .sending) (state : txstate = .data ∨ txstate = .xwait)
      (position : Position conf offset) :
      Move conf tx (.reposition offset)
        { tx with
          txstate
          txlastack := offset
          counts := changeAt tx.send (fun counts => (counts.1, offset)) tx.counts }
  /-- The remote acknowledges a position. -/
  | acknowledge (tx : HydraTx) (pos : Int) (index skipped sent : Nat) (txstate : HydraTxstate)
      (state : tx.txstate = .data ∨ tx.txstate = .dataack) (chosen : tx.send = some index)
      (there : tx.counts[index]? = some (skipped, sent)) (position : Position conf pos)
      (nonneg : 0 ≤ pos) (before : pos < sent) (later : tx.txlastack ≤ pos)
      (next : tx.txstate = .dataack ∧ { tx with txlastack := pos }.fits conf sent = true ∧ txstate = .data ∨
        ¬ (tx.txstate = .dataack ∧ { tx with txlastack := pos }.fits conf sent = true) ∧
          txstate = tx.txstate) :
      Move conf tx (.acknowledge pos) { tx with txstate, txlastack := pos }
  /-- An acknowledgement of what was not sent, or acknowledged before, or at another time. -/
  | ignore (tx : HydraTx) (pos : Int)
      (why : ¬ (tx.txstate = .data ∨ tx.txstate = .dataack) ∨
        ∃ counts, tx.current = some counts ∧ (pos < 0 ∨ (counts.2 : Int) ≤ pos ∨ pos < tx.txlastack)) :
      Move conf tx (.acknowledge pos) tx

end HydraTx

/-- The packets that carry data or acknowledge it. -/
def HydraPkttype.windowed (type : HydraPkttype) : Bool := type = .data || type = .dataack

/-- The packet that a move puts into the queue. -/
def HydraMove.packet : HydraMove → Option HydraPacket
  | .block pos bytes => some ⟨.data, hydraPutlong pos ++ bytes⟩
  | .answer ack => some ⟨.dataack, ack⟩
  | _ => none

namespace HydraState

/-- A part of a turn makes moves of some kinds, and their packets are the DATA and DATAACK packets it puts
into the queue. -/
def Does (conf : HydraConf) (kinds : HydraMove → Prop) (before after : HydraState) : Prop :=
  ∃ moves packets, Trace (HydraTx.Move conf) (.of before) moves (.of after) ∧
    (∀ move ∈ moves, kinds move) ∧ after.hi.pktqueue = before.hi.pktqueue ++ packets ∧
      packets.filter (·.type.windowed) = moves.filterMap HydraMove.packet

section Does

variable {conf : HydraConf} {kinds : HydraMove → Prop} {before middle after : HydraState}

theorem Does.trans (first : Does conf kinds before middle) (second : Does conf kinds middle after) :
    Does conf kinds before after := by
  obtain ⟨moves, packets, trace, kind, queued, data⟩ := first
  obtain ⟨later, others, goes, further, queue, blocks⟩ := second
  refine ⟨moves ++ later, packets ++ others, trace.append goes, ?_, ?_, ?_⟩
  · intro move member
    exact (List.mem_append.mp member).elim (kind move) (further move)
  · rw [queue, queued, List.append_assoc]
  · rw [List.filter_append, List.filterMap_append, data, blocks]

/-- Nothing is done where the transmitter and the queue stay as they are. -/
theorem Does.same (tx : HydraTx.of after = .of before) (queue : after.hi.pktqueue = before.hi.pktqueue) :
    Does conf kinds before after := by
  refine ⟨[], [], ?_, nofun, by rw [queue, List.append_nil], rfl⟩
  rw [tx]
  exact .done _

/-- One move that puts nothing into the queue. -/
theorem Does.move (move : HydraMove) (kind : kinds move) (silent : move.packet = none)
    (moves : HydraTx.Move conf (.of before) move (.of after))
    (queue : after.hi.pktqueue = before.hi.pktqueue) : Does conf kinds before after := by
  refine ⟨[move], [], .one moves, ?_, by rw [queue, List.append_nil], ?_⟩
  · intro other member
    rw [List.mem_singleton.mp member]
    exact kind
  · rw [List.filterMap_cons_none silent]
    rfl

/-- The transmitter takes another state, which does not concern its counters. -/
theorem Does.pass (kind : kinds .pass)
    (tx : HydraTx.of after = { HydraTx.of before with txstate := after.txstate })
    (stage : after.txstate.stage = before.txstate.stage ∨
      after.txstate.stage = .between ∧ (before.txstate.stage = .early → before.rxstate ≠ .init))
    (data : after.txstate = .data ∨ after.txstate = .dataack → after.txstate = before.txstate)
    (queue : after.hi.pktqueue = before.hi.pktqueue) : Does conf kinds before after := by
  refine .move .pass kind rfl ?_ queue
  rw [tx]
  exact .pass _ _ (stage.imp_right (And.imp_right fun started early => decide_eq_false (started early))) data

/-- Another packet is put into the queue. -/
theorem Does.queued (type : HydraPkttype) (data : Bytes) (other : type.windowed = false)
    (does : Does conf kinds before middle) : Does conf kinds before (middle.queuepkt type data) := by
  obtain ⟨moves, packets, trace, kind, queued, data'⟩ := does
  refine ⟨moves, packets ++ [⟨type, data⟩], trace, kind, ?_, ?_⟩
  · unfold queuepkt HydraInfo.queuepkt
    dsimp only
    rw [queued, List.append_assoc]
  · rw [List.filter_append, data', List.filter_cons_of_neg (by simp [other])]
    exact List.append_nil _

theorem Does.mono {more : HydraMove → Prop} (does : Does conf kinds before after)
    (weaker : ∀ move, kinds move → more move) : Does conf more before after := by
  obtain ⟨moves, packets, trace, kind, rest⟩ := does
  exact ⟨moves, packets, trace, fun move member => weaker move (kind move member), rest⟩

/-- A part of a turn makes moves of some kinds where it goes on. Where it halts, the batch may be left
too. -/
def Turns (conf : HydraConf) (kinds : HydraMove → Prop) (before : HydraState)
    (turn : Turn HydraState HydraResult) : Prop :=
  turn.Ends (Does conf kinds before) fun final _ => Does conf (fun move => kinds move ∨ move = .leave) before final

/-- What is done in any case. -/
theorem Turns.halted (result : HydraResult) (does : Does conf kinds before after) :
    Turns conf kinds before (.halt after result) := does.mono fun _ => .inl

/-- What was done before a part of a turn. -/
theorem Turns.behind {turn : Turn HydraState HydraResult} (first : Does conf kinds before middle)
    (second : Turns conf kinds middle turn) : Turns conf kinds before turn := by
  cases turn with
  | more after => exact first.trans second
  | halt final result => exact (first.mono fun _ => .inl).trans second

theorem Turns.mono {turn : Turn HydraState HydraResult} {more : HydraMove → Prop}
    (turns : Turns conf kinds before turn) (weaker : ∀ move, kinds move → more move) :
    Turns conf more before turn := by
  cases turn with
  | more after => exact Does.mono turns weaker
  | halt final result => exact Does.mono turns fun move => .imp_left (weaker move)

/-- Two parts of a turn. -/
theorem turns_andThen {turn : Turn HydraState HydraResult} {next : HydraState → Turn HydraState HydraResult}
    (first : Turns conf kinds before turn)
    (second : ∀ middle, turn = .more middle → Turns conf kinds middle (next middle)) :
    Turns conf kinds before (turn.andThen next) := by
  cases turn with
  | halt final result => exact first
  | more middle => exact Turns.behind first (second middle rfl)

end Does

/-- What concerns the files being received leaves the transmitter alone. -/
theorem of_receiving {s after : HydraState} (part : after.pi.sendingPart = s.pi.sendingPart)
    (rest : (after.txstate, after.sendEOB, after.txlastack, after.hi.txwindow,
      decide (after.rxstate = .init)) =
        (s.txstate, s.sendEOB, s.txlastack, s.hi.txwindow, decide (s.rxstate = .init))) :
    HydraTx.of after = .of s := by
  unfold Protinfo.sendingPart at part
  simp only [Prod.mk.injEq] at part rest
  unfold HydraTx.of Protinfo.sendCounts
  rw [part.1, part.2.1, rest.1, rest.2.1, rest.2.2.1, rest.2.2.2.1, rest.2.2.2.2]

/-! ## The parts of a turn -/

/-- The moves that need no packet. -/
def Plain (move : HydraMove) : Prop := move = .pass ∨ move = .close

/-- Closing the file being sent. -/
theorem closeSend_of (told : Bool) (s : HydraState) :
    HydraTx.of (s.closeSend told) = { HydraTx.of s with send := none } := by
  unfold HydraTx.of closeSend
  dsimp only
  rw [pTxFclose_sendCounts, pTxFclose_send]

/-- Leaving the batch closes the file at most. -/
theorem leave_does (conf : HydraConf) (kinds : HydraMove → Prop) (input : HydraInput) (rc : Prc) (s : HydraState) :
    Turns conf kinds s (s.leave input rc) := by
  have closed : Does conf (fun move => kinds move ∨ move = .leave) s
      (if (s.pi.sending.bind (·.fp)).isSome then s.closeSend input.leaving.told else s) := by
    split
    · refine Does.move .leave (.inr rfl) rfl ?_ rfl
      rw [closeSend_of]
      exact .leave _
    · exact .same rfl rfl
  unfold leave
  dsimp only
  generalize (if (s.pi.sending.bind (·.fp)).isSome then s.closeSend input.leaving.told else s) = middle at closed
  unfold Turns Turn.Ends
  dsimp only
  split
  · apply closed.trans
    refine .same (of_receiving ?_ rfl) rfl
    dsimp only
    cases shut : pRxFclose input.leaving.closes middle.pi with
    | none => rfl
    | some pair =>
      obtain ⟨pi, result⟩ := pair
      exact pRxFclose_sendingPart _ _ _ _ shut
  · exact closed

/-- The send timer expires while an acknowledgement is awaited. -/
def waitsOut (input : HydraInput) (s : HydraState) : Prop :=
  s.sendtimer = true ∧ input.sendExpired = true ∧ s.txstate = .dataack

/-- What the timers do. -/
theorem timers_does (conf : HydraConf) (input : HydraInput) (s : HydraState) :
    Turns conf (fun move => Plain move ∨ move = .expire ∧ s.waitsOut input) s (s.timers input) := by
  have expired (on : s.sendtimer = true) (out : input.sendExpired = true) :
      Does conf (fun move => Plain move ∨ move = .expire ∧ s.waitsOut input) s s.sendTimeout := by
    unfold sendTimeout
    cases state : s.txstate with
    | dataack =>
      refine Does.move .expire (.inr ⟨rfl, on, out, state⟩) rfl ?_ rfl
      exact .expire (.of s) state
    | swait | initack | finfoack | eofack | endack =>
      refine Does.pass (.inl (.inl rfl)) rfl (.inl ?_) ?_ rfl
      · rw [state]
        rfl
      · rintro (impossible | impossible) <;> cases impossible
    | done | start | init | rinit | nextFile | toFName | finfo | data | skipFile | xwait | eof | rend
      | «end» | abort =>
      refine .same ?_ rfl
      unfold HydraTx.of
      rw [state]
  have receiving (before : HydraState) :
      Does conf (fun move => Plain move ∨ move = .expire ∧ s.waitsOut input) before before.recvTimeout := by
    unfold recvTimeout shrink
    cases state : before.rxstate with
    | rposAck | skipAck | data | done | init | finfo | rpos | skip =>
      refine .same ?_ rfl
      unfold HydraTx.of
      simp [state]
  unfold timers
  split
  · exact leave_does conf _ input .error s
  · have sent : Does conf (fun move => Plain move ∨ move = .expire ∧ s.waitsOut input) s
        (if s.sendtimer && input.sendExpired then s.sendTimeout else s) := by
      split
      · rename_i both
        rw [Bool.and_eq_true] at both
        exact expired both.1 both.2
      · exact .same rfl rfl
    dsimp only
    generalize (if s.sendtimer && input.sendExpired then s.sendTimeout else s) = middle at sent
    unfold Turns Turn.Ends
    dsimp only
    split
    · exact sent.trans (receiving middle)
    · exact sent

/-- The timers leave the files and the size of the blocks. -/
theorem timers_keeps {input : HydraInput} {s timed : HydraState} (passed : s.timers input = .more timed) :
    timed.pi = s.pi ∧ timed.hi.sendBlockSize = s.hi.sendBlockSize := by
  have received (before : HydraState) : before.recvTimeout.pi = before.pi ∧
      before.recvTimeout.hi.sendBlockSize = before.hi.sendBlockSize := by
    unfold recvTimeout shrink
    split
    · exact ⟨rfl, rfl⟩
    · exact ⟨rfl, rfl⟩
    · exact ⟨rfl, rfl⟩
    · exact ⟨rfl, rfl⟩
  have sent : (if s.sendtimer && input.sendExpired then s.sendTimeout else s).pi = s.pi ∧
      (if s.sendtimer && input.sendExpired then s.sendTimeout else s).hi.sendBlockSize = s.hi.sendBlockSize := by
    split
    · exact ⟨rfl, rfl⟩
    · exact ⟨rfl, rfl⟩
  unfold timers at passed
  split at passed
  · cases passed
  · dsimp only at passed
    generalize (if s.sendtimer && input.sendExpired then s.sendTimeout else s) = middle at passed sent
    injection passed with same
    subst same
    split
    · exact ⟨(received _).1.trans sent.1, (received _).2.trans sent.2⟩
    · exact sent

/-- The block that is read from the file when one is sent, with its position. -/
def readyBlock (input : HydraInput) (s : HydraState) : Option (Nat × Bytes) :=
  match pTxReadfile input.sending.read s.hi.sendBlockSize s.pi with
  | some (pi, .data bytes) => pi.sending.map fun finf => (finf.bytesSent, bytes)
  | _ => none

/-- The moves of the transmitter's own part of a turn. A block is what is read from the file. -/
def Sends (input : HydraInput) (s : HydraState) (move : HydraMove) : Prop :=
  Plain move ∨ move = .open ∨ move = .finish ∨
    ∃ pos bytes, move = .block pos bytes ∧ s.txstate = .data ∧ s.readyBlock input = some (pos, bytes)

section Transmit

variable {kinds : HydraMove → Prop} {before : HydraState}

/-- A try of the transmitter. -/
theorem attempt_does (conf : HydraConf) (input : HydraInput) (send : HydraState → HydraState) (s : HydraState)
    (far : Does conf kinds before s)
    (sends : ∀ tried : HydraState, tried.txstate = s.txstate → Does conf kinds tried (send tried)) :
    Turns conf kinds before (s.attempt input send) := by
  have counted : Does conf kinds before { s with txtries := s.txtries + 1 } := far.trans (.same rfl rfl)
  unfold attempt
  split
  · exact counted.trans (sends _ rfl)
  · exact .behind counted (leave_does conf _ input .error _)

/-- The state is changed and a packet is queued. -/
theorem shows_does (conf : HydraConf) (s after : HydraState) (kind : kinds .pass)
    (tx : HydraTx.of after = { HydraTx.of s with txstate := after.txstate })
    (stage : after.txstate.stage = s.txstate.stage) (data : after.txstate ≠ .data ∧ after.txstate ≠ .dataack)
    (queue : after.hi.pktqueue = s.hi.pktqueue) (type : HydraPkttype) (bytes : Bytes) (other : type.windowed = false) :
    Does conf kinds s (after.queuepkt type bytes) := by
  apply Does.queued type bytes other
  refine .pass kind tx (.inl stage) ?_ queue
  rintro (same | same)
  · exact absurd same data.1
  · exact absurd same data.2

/-- The next file is opened, or none is left. -/
theorem nextFile_does (conf : HydraConf) (input : HydraInput) (s : HydraState) (state : s.txstate = .nextFile)
    (kind : ∀ move, Plain move ∨ move = .open ∨ move = .finish → kinds move) :
    Does conf kinds s (s.nextFile conf input) := by
  have closed : Does conf kinds s
      (if (s.pi.sending.bind (·.fp)).isSome then s.closeSend input.sending.told else s) := by
    split
    · refine Does.move .close (kind _ (.inl (.inr rfl))) rfl ?_ rfl
      have here : HydraTx.of (s.closeSend input.sending.told) =
          { HydraTx.of s with txstate := .nextFile, send := none } := by
        rw [closeSend_of, ← state]
        rfl
      rw [here]
      refine .close _ ?_
      change s.txstate.stage ≠ _
      rw [state]
      nofun
    · exact .same rfl rfl
  have still : (if (s.pi.sending.bind (·.fp)).isSome then s.closeSend input.sending.told else s).txstate =
      .nextFile := by
    split
    · exact state
    · exact state
  unfold nextFile
  generalize (if (s.pi.sending.bind (·.fp)).isSome then s.closeSend input.sending.told else s) = middle
    at closed still
  apply closed.trans
  rcases pTxFopen_sendCounts conf.files input.sending.opens middle.pi with
    ⟨opened, counts, send⟩ | ⟨none_, counts, send⟩
  · refine .move .open (kind _ (.inr (.inl rfl))) rfl ?_ rfl
    have tx : HydraTx.of (middle.openNext conf input.sending.opens) =
        { HydraTx.of middle with
          txstate := .finfo
          sendEOB := false
          counts := (HydraTx.of middle).counts ++ [(0, 0)]
          send := some (HydraTx.of middle).counts.length } := by
      unfold HydraTx.of openNext
      rw [opened, counts, send]
      rfl
    rw [tx]
    exact .open _ still
  · refine .move .finish (kind _ (.inr (.inr rfl))) rfl ?_ rfl
    have tx : HydraTx.of (middle.openNext conf input.sending.opens) =
        { HydraTx.of middle with txstate := .finfo, sendEOB := true } := by
      unfold HydraTx.of openNext
      rw [none_, counts, send]
      rfl
    rw [tx]
    exact .finish _ still

/-- Raising the block size leaves the window and the queue. -/
theorem raiseBlockSize_keeps (hi : HydraInfo) :
    (raiseBlockSize hi).txwindow = hi.txwindow ∧ (raiseBlockSize hi).pktqueue = hi.pktqueue := by
  unfold raiseBlockSize
  dsimp only
  split
  · exact ⟨rfl, rfl⟩
  · exact ⟨rfl, rfl⟩

/-- A block that was read is sent. -/
theorem sendBlock_does (conf : HydraConf) (s : HydraState) (bytes : Bytes) (finf : Finfo)
    (state : s.txstate = .data) (current : s.pi.sending = some finf) (some_ : bytes ≠ [])
    (kind : kinds (.block finf.bytesSent bytes)) : Does conf kinds s (s.sendBlock conf bytes finf) := by
  obtain ⟨index, chosen, there⟩ := Option.bind_eq_some_iff.mp current
  have entry : s.pi.sendCounts[index]? = some (finf.bytesSkipped, finf.bytesSent) := by
    unfold Protinfo.sendCounts
    rw [List.getElem?_map, there]
    rfl
  have counts : (s.pi.changeSend fun _ => { finf with bytesSent := finf.bytesSent + bytes.length }).sendCounts =
      s.pi.sendCounts.modify index fun counts => (counts.1, counts.2 + bytes.length) := by
    unfold Protinfo.changeSend
    rw [chosen]
    unfold Protinfo.changeSent Protinfo.sendCounts
    apply List.ext_getElem?
    intro place
    dsimp only
    rw [List.getElem?_map, List.getElem?_modify, List.getElem?_modify, List.getElem?_map]
    by_cases here : index = place
    · subst here
      rw [there]
      simp [Finfo.sendCounts]
    · simp [here]
  -- What is left open is the state.
  have goes (after : HydraState)
      (tx : HydraTx.of after =
        { HydraTx.of s with
          txstate := after.txstate
          counts := (HydraTx.of s).counts.modify index fun counts => (counts.1, counts.2 + bytes.length) })
      (queue : after.hi.pktqueue = s.hi.pktqueue ++ [⟨.data, hydraPutlong finf.bytesSent ++ bytes⟩])
      (next : after.txstate = .dataack ∧ 0 < s.hi.txwindow ∧
          s.windowOpen conf (finf.bytesSent + bytes.length) = false ∨
        (after.txstate = .data ∨ after.txstate = .eof) ∧
          (0 < s.hi.txwindow → s.windowOpen conf (finf.bytesSent + bytes.length) = true)) :
      Does conf kinds s after := by
    refine ⟨[.block finf.bytesSent bytes], _, .one ?_, ?_, queue, rfl⟩
    · rw [tx]
      exact .block (.of s) index finf.bytesSkipped finf.bytesSent bytes _ state chosen entry some_ next
    · intro move member
      rw [List.mem_singleton.mp member]
      exact kind
  have raised := raiseBlockSize_keeps
    ((s.queuepkt .data (hydraPutlong finf.bytesSent ++ bytes)).changeSend fun _ =>
      { finf with bytesSent := finf.bytesSent + bytes.length }).hi
  have window (txstate : HydraTxstate) (sendtimer : Bool) (txtries : Nat) :
      HydraTx.of { (s.queuepkt .data (hydraPutlong finf.bytesSent ++ bytes)).changeSend fun _ =>
          { finf with bytesSent := finf.bytesSent + bytes.length } with
        hi := raiseBlockSize ((s.queuepkt .data (hydraPutlong finf.bytesSent ++ bytes)).changeSend fun _ =>
          { finf with bytesSent := finf.bytesSent + bytes.length }).hi
        txstate, sendtimer, txtries } =
      { HydraTx.of s with
        txstate
        counts := (HydraTx.of s).counts.modify index fun counts => (counts.1, counts.2 + bytes.length) } := by
    unfold HydraTx.of
    dsimp only
    rw [raised.1]
    unfold changeSend queuepkt
    dsimp only
    rw [counts, changeSend_send]
    rfl
  unfold sendBlock
  dsimp only
  unfold windowOpen
  dsimp only
  rw [raised.1]
  split
  · rename_i full
    rw [Bool.and_eq_true] at full
    exact goes _ (window .dataack true _) raised.2
      (.inl ⟨rfl, of_decide_eq_true full.1, (Bool.not_eq_true' _).mp full.2⟩)
  · rename_i room
    have fits : 0 < s.hi.txwindow → s.windowOpen conf (finf.bytesSent + bytes.length) = true := by
      intro positive
      by_contra closed
      apply room
      rw [Bool.and_eq_true]
      exact ⟨decide_eq_true positive, (Bool.not_eq_true' _).mpr (Bool.eq_false_iff.mpr closed)⟩
    split
    · exact goes _ (window .eof _ 0) raised.2 (.inr ⟨.inr rfl, fits⟩)
    · exact goes _ (window _ _ _) raised.2 (.inr ⟨.inl state, fits⟩)

/-- What the transmitter does while it sends the data of a file. -/
theorem sendData_does (conf : HydraConf) (input : HydraInput) (s : HydraState) (state : s.txstate = .data) :
    Turns conf (s.Sends input) s (s.sendData conf input) := by
  have ended (after : HydraState) (tx : HydraTx.of after = { HydraTx.of s with txstate := .eof })
      (same : after.txstate = .eof) (queue : after.hi.pktqueue = s.hi.pktqueue) :
      Does conf (s.Sends input) s after := by
    refine .pass (.inl (.inl rfl)) (same ▸ tx) (.inl ?_) ?_ queue
    · rw [same, state]
      rfl
    · rw [same]
      rintro (impossible | impossible) <;> cases impossible
  unfold sendData
  split
  · exact Does.same rfl rfl
  · split
    · exact ended _ rfl rfl rfl
    · split
      · unfold readBlock
        split
        · exact Does.same rfl rfl
        · rename_i pi read taken
          obtain ⟨counts, send⟩ := pTxReadfile_sendCounts taken
          have reads : HydraTx.of { s with pi, sendtimer := false } = .of s := by
            unfold HydraTx.of
            dsimp only
            rw [counts, send]
          split
          · rename_i byte bytes finf current
            have read_ : Does conf (s.Sends input) s { s with pi, sendtimer := false } := .same reads rfl
            have ready : s.readyBlock input = some (finf.bytesSent, byte :: bytes) := by
              unfold readyBlock
              rw [taken]
              dsimp only
              rw [current]
              rfl
            apply read_.trans
            exact sendBlock_does conf { s with pi, sendtimer := false } _ _ state current (List.cons_ne_nil _ _)
              (.inr (.inr (.inr ⟨_, _, rfl, state, ready⟩)))
          · refine ended _ ?_ rfl rfl
            unfold HydraTx.of at reads ⊢
            dsimp only at reads ⊢
            rw [counts, send]
      · exact Does.same rfl rfl

/-- What the transmitter does in its state. -/
theorem transmit_does (conf : HydraConf) (input : HydraInput) (s : HydraState) :
    Turns conf (s.Sends input) s (s.transmit conf input) := by
  have here : Does conf (s.Sends input) s s := .same rfl rfl
  have shown (tried after : HydraState) (state : tried.txstate = s.txstate)
      (tx : HydraTx.of after = { HydraTx.of tried with txstate := after.txstate })
      (stage : after.txstate.stage = s.txstate.stage) (data : after.txstate ≠ .data ∧ after.txstate ≠ .dataack)
      (queue : after.hi.pktqueue = tried.hi.pktqueue) (type : HydraPkttype) (bytes : Bytes)
      (other : type.windowed = false) : Does conf (s.Sends input) tried (after.queuepkt type bytes) :=
    shows_does conf tried after (.inl (.inl rfl)) tx (state ▸ stage) data queue type bytes other
  unfold transmit
  cases state : s.txstate with
  | start =>
    refine attempt_does conf input _ s here fun tried same => ?_
    exact shown tried { tried with sendtimer := true, txstate := .swait } same rfl (by rw [state]; rfl)
      ⟨nofun, nofun⟩ rfl .start _ rfl
  | init =>
    refine attempt_does conf input _ s here fun tried same => ?_
    exact shown tried { tried with sendtimer := true, txstate := .initack } same rfl (by rw [state]; rfl)
      ⟨nofun, nofun⟩ rfl .init _ rfl
  | rinit =>
    change Does conf (s.Sends input) s (if s.rxstate ≠ .init then { s with txstate := .nextFile } else s)
    split
    · rename_i started
      refine .pass (.inl (.inl rfl)) rfl (.inr ⟨rfl, fun _ => started⟩) ?_ rfl
      rintro (impossible | impossible) <;> cases impossible
    · exact here
  | nextFile =>
    have opened : Does conf (s.Sends input) s (s.nextFile conf input) := by
      refine nextFile_does conf input s state ?_
      rintro move (same | same | same)
      · exact .inl same
      · exact .inr (.inl same)
      · exact .inr (.inr (.inl same))
    refine attempt_does conf input _ _ opened fun tried same => ?_
    refine shows_does conf tried { tried with sendtimer := true, txstate := .finfoack } (.inl (.inl rfl)) rfl
      ?_ ⟨nofun, nofun⟩ rfl .finfo _ rfl
    rw [same]
    rfl
  | finfo =>
    refine attempt_does conf input _ s here fun tried same => ?_
    exact shown tried { tried with sendtimer := true, txstate := .finfoack } same rfl (by rw [state]; rfl)
      ⟨nofun, nofun⟩ rfl .finfo _ rfl
  | data => exact sendData_does conf input s state
  | eof =>
    refine attempt_does conf input _ s here fun tried same => ?_
    exact shown tried { tried with sendtimer := true, txstate := .eofack } same rfl (by rw [state]; rfl)
      ⟨nofun, nofun⟩ rfl .eof _ rfl
  | rend =>
    change Does conf (s.Sends input) s (s.awaitReceiver input)
    unfold awaitReceiver
    split
    · refine .pass (.inl (.inl rfl)) rfl (.inl ?_) ?_ rfl
      · rw [state]
        rfl
      · rintro (impossible | impossible) <;> cases impossible
    · split
      · exact Does.queued .idle [] rfl (.same rfl rfl)
      · exact here
  | «end» =>
    refine attempt_does conf input _ s here fun tried same => ?_
    exact shown tried { tried with sendtimer := true, txstate := .endack } same rfl (by rw [state]; rfl)
      ⟨nofun, nofun⟩ rfl .end _ rfl
  | done | swait | initack | toFName | finfoack | skipFile | dataack | xwait | eofack | endack | abort =>
    exact here

/-- What the receiver does between packets. -/
theorem receive_does (conf : HydraConf) (input : HydraInput) (s : HydraState) :
    Turns conf kinds s (s.receive input) := by
  have starts (rxstate rxstate' : HydraRxstate) (apart : rxstate ≠ .init ∧ rxstate' ≠ .init) :
      decide (rxstate' = .init) = decide (rxstate = .init) := by
    rw [decide_eq_false apart.1, decide_eq_false apart.2]
  have repositioned (asks : s.rxstate ≠ .init) : Turns conf kinds s (s.reposition input) := by
    unfold reposition
    dsimp only
    split
    · have counted : Does conf kinds s { s with rxtries := s.rxtries + 1 } := .same rfl rfl
      exact .behind counted (leave_does conf _ input .error _)
    · split
      · exact Does.same rfl rfl
      · split
        · refine Does.queued .rpos _ rfl (.same ?_ rfl)
          unfold HydraTx.of
          dsimp only
          rw [starts s.rxstate .skipAck ⟨asks, nofun⟩]
        · refine Does.queued .rpos _ rfl (.same ?_ rfl)
          unfold HydraTx.of
          dsimp only
          rw [starts s.rxstate .rposAck ⟨asks, nofun⟩]
  unfold receive
  split
  · rename_i state
    exact repositioned (by rw [state]; nofun)
  · rename_i state
    exact repositioned (by rw [state]; nofun)
  · exact Does.same rfl rfl

/-- Exchanging bytes with the line leaves the transmitter, or the batch is left. -/
theorem exchange_keeps (conf : HydraConf) (input : HydraInput) (s : HydraState) :
    (s.exchange input).Ends (fun after => HydraTx.of after = .of s)
      (fun final _ => Does conf (fun move => kinds move ∨ move = .leave) s final) := by
  have left (rc : Prc) : (s.leave input rc).Ends (fun after => HydraTx.of after = .of s)
      (fun final _ => Does conf (fun move => kinds move ∨ move = .leave) s final) :=
    leave_does conf kinds input rc s
  unfold exchange
  split
  · exact left _
  · split
    · exact left _
    · split
      · exact left _
      · split
        · exact left _
        · rfl

end Transmit

/-! ## Packets -/

/-- The moves that something received can bring about. -/
def Prompts (conf : HydraConf) (received : HydraReceived) (move : HydraMove) : Prop :=
  Plain move ∨ (∃ window, move = .agree window) ∨
    match received with
    | .packet .finfoack _ ibuf => ∃ offset : Nat, move = .resume offset ∧ hydraGetlong conf.wide ibuf = offset
    | .packet .rpos _ ibuf => ∃ offset : Nat, move = .reposition offset ∧ hydraGetlong conf.wide ibuf = offset
    | .packet .dataack _ ibuf => move = .acknowledge (hydraGetlong conf.wide ibuf)
    | .packet .data _ _ => ∃ ack, move = .answer ack
    | _ => False

section Handle

variable {conf : HydraConf} {kinds : HydraMove → Prop} {s : HydraState}

/-- The receiver stays out of its first state, and the transmitter is left alone. -/
theorem receiver_does (after : HydraState) (part : after.pi.sendingPart = s.pi.sendingPart)
    (rest : (after.txstate, after.sendEOB, after.txlastack, after.hi.txwindow) =
      (s.txstate, s.sendEOB, s.txlastack, s.hi.txwindow))
    (begun : s.rxstate ≠ .init) (still : after.rxstate ≠ .init)
    (queue : after.hi.pktqueue = s.hi.pktqueue) : Does conf kinds s after := by
  refine .same (of_receiving part ?_) queue
  simp only [Prod.mk.injEq] at rest
  rw [decide_eq_false begun, decide_eq_false still, rest.1, rest.2.1, rest.2.2.1, rest.2.2.2]

theorem resync_does (begun : s.rxstate ≠ .init) (pos : Int) :
    Does conf kinds s s.resync ∧ Does conf kinds s { s.resync with lastDatapos := pos } :=
  ⟨receiver_does _ rfl rfl begun nofun rfl, receiver_does _ rfl rfl begun nofun rfl⟩

theorem onInit_does (input : HydraInput) (pkt : Bytes)
    (kind : ∀ move, Plain move ∨ (∃ window, move = .agree window) → kinds move) :
    Turns conf kinds s (s.onInit conf input pkt) := by
  unfold onInit
  split
  · rename_i begins
    split
    · exact leave_does conf _ input .error s
    · rename_i hi parsed
      refine Does.queued .initack [] rfl ?_
      unfold hydraParseInit at parsed
      split at parsed
      · cases parsed
      · split at parsed
        · dsimp only at parsed
          split at parsed
          · cases parsed
          · cases parsed
            rename_i window _ _ _ _
            refine .move (.agree (parseWindows conf.wide window).1) (kind _ (.inr ⟨_, rfl⟩)) rfl ?_ rfl
            exact .agree (.of s) _ (decide_eq_true begins) ⟨_, rfl⟩
        · cases parsed
  · exact Does.queued .initack [] rfl (.same rfl rfl)

theorem onFinfo_does (answers : HydraPacketAnswers) (isize : Nat) (ibuf : Bytes) :
    Turns conf kinds s (s.onFinfo conf answers isize ibuf) := by
  have opened (begun : s.rxstate ≠ .init) :
      Turns conf kinds s (s.openReceived conf answers (ibuf.take isize)) := by
    unfold openReceived
    dsimp only
    generalize (⟨finfoName (ibuf.take isize), _, _⟩ : FileHint) = hint
    have part := pRxFopen_sendingPart s.pi conf.files answers.opens hint
    generalize pRxFopen conf.files answers.opens hint s.pi = answer at part
    obtain ⟨pi, result⟩ := answer
    cases result with
    | refuse => exact Does.queued .finfoack _ rfl (receiver_does _ part rfl begun begun rfl)
    | skip => exact Does.queued .finfoack _ rfl (receiver_does _ part rfl begun begun rfl)
    | accept =>
      dsimp only
      split
      · exact receiver_does _ part rfl begun begun rfl
      · exact Does.queued .finfoack _ rfl (receiver_does _ part rfl begun nofun rfl)
  unfold onFinfo
  split
  · rename_i state
    have begun : s.rxstate ≠ .init := by
      rw [state]
      nofun
    split
    · exact Does.queued .finfoack _ rfl (receiver_does _ rfl rfl begun nofun rfl)
    · split
      · exact opened begun
      · exact Does.same rfl rfl
  · split
    · exact Does.queued .finfoack _ rfl (.same rfl rfl)
    · exact Does.same rfl rfl

/-- The receiver acknowledges a position. -/
theorem Does.answers (ack : Bytes) (kind : kinds (.answer ack)) (does : Does conf kinds s after) :
    Does conf kinds s (after.queuepkt .dataack ack) := by
  refine does.trans ⟨[.answer ack], [⟨.dataack, ack⟩], .one (.answer _ ack), ?_, rfl, rfl⟩
  intro move member
  rw [List.mem_singleton.mp member]
  exact kind

theorem writeBlock_does (answers : HydraPacketAnswers) (bytes : Bytes) (begun : s.rxstate ≠ .init)
    (kind : ∀ ack, kinds (.answer ack)) : Turns conf kinds s (s.writeBlock answers bytes) := by
  unfold writeBlock startSkip changeRecv
  split
  · exact Does.same rfl rfl
  all_goals
    rename_i pi written
    have part := pRxWritefile_sendingPart s.pi answers.writes bytes pi _ written
  · refine receiver_does _ ?_ rfl begun nofun rfl
    dsimp only
    rw [changeRecv_sendingPart, part]
  · refine receiver_does _ ?_ rfl begun nofun rfl
    dsimp only
    rw [changeRecv_sendingPart, part]
  · unfold Turns Turn.Ends
    dsimp only
    have taken (after : HydraState) (same : after.pi = pi)
        (does : Does conf kinds s { after with pi := s.pi }) (change : Finfo → Finfo) :
        Does conf kinds s { after with pi := after.pi.changeRecv change } := by
      apply does.trans
      refine .same (of_receiving ?_ rfl) rfl
      dsimp only
      rw [changeRecv_sendingPart, same, part]
    split
    · refine taken _ rfl ?_ _
      exact Does.answers _ (kind _) (.same rfl rfl)
    · exact taken { s with pi } rfl (.same rfl rfl) _

theorem onData_does (answers : HydraPacketAnswers) (isize : Nat) (ibuf : Bytes)
    (kind : ∀ ack, kinds (.answer ack)) : Turns conf kinds s (s.onData conf answers isize ibuf) := by
  unfold onData
  split
  · rename_i state
    have begun : s.rxstate ≠ .init := by
      rcases state with state | state <;> rw [state] <;> nofun
    split
    · exact Does.same rfl rfl
    · split
      · exact Does.same rfl rfl
      · dsimp only
        split
        · unfold misplaced
          split
          · refine receiver_does _ rfl rfl begun ?_ rfl
            dsimp only
            split <;> nofun
          · exact (resync_does begun _).2
        · have moved : Does conf kinds s
              { s with
                hi.recvBlockSize := isize - 4
                lastDatapos := hydraGetlong conf.wide ibuf
                recvtimer := true
                rxstate := .data } := receiver_does _ rfl rfl begun nofun rfl
          exact .behind moved (writeBlock_does answers _ nofun kind)
  · exact Does.same rfl rfl

theorem onEof_does (answers : HydraPacketAnswers) (isize : Nat) (ibuf : Bytes) :
    Turns conf kinds s (s.onEof conf answers isize ibuf) := by
  have closed (begun : s.rxstate ≠ .init) : Turns conf kinds s (s.closeReceived answers) := by
    unfold closeReceived changeRecv
    split
    · exact Does.same rfl rfl
    all_goals
      rename_i pi closed
      have part := (pRxFclose_sendingPart _ answers.closes pi _ closed).trans (changeRecv_sendingPart _ _)
    · exact Does.queued .eofack _ rfl (receiver_does _ part rfl begun nofun rfl)
    · refine receiver_does _ ?_ rfl begun nofun rfl
      dsimp only
      rw [changeRecv_sendingPart, part]
  unfold onEof
  dsimp only
  split
  · rename_i state
    have begun : s.rxstate ≠ .init := by
      rw [state]
      nofun
    split
    · exact Does.same rfl rfl
    · split
      · exact Does.same rfl rfl
      · split
        · exact (resync_does begun _).2
        · exact closed begun
  · split
    · rename_i state
      have begun : s.rxstate ≠ .init := by
        rcases state with state | state <;> rw [state] <;> nofun
      split
      · exact Does.same rfl rfl
      · split
        · exact receiver_does _ rfl rfl begun nofun rfl
        · split
          · exact Does.same rfl rfl
          · rename_i pi _ closed
            have part := pRxFclose_sendingPart _ answers.closes pi _ closed
            exact Does.queued .eofack _ rfl (receiver_does _ part rfl begun nofun rfl)
    · split
      · exact Does.queued .eofack _ rfl (.same rfl rfl)
      · exact Does.same rfl rfl

/-! The packets for the transmitter. -/

/-- A change of the state that is no data state. -/
theorem restates_does (after : HydraState) (kind : kinds .pass)
    (tx : HydraTx.of after = { HydraTx.of s with txstate := after.txstate })
    (stage : after.txstate.stage = s.txstate.stage ∨
      after.txstate.stage = .between ∧ s.txstate.stage ≠ .early)
    (data : after.txstate ≠ .data ∧ after.txstate ≠ .dataack)
    (queue : after.hi.pktqueue = s.hi.pktqueue) : Does conf kinds s after := by
  refine .pass kind tx (stage.imp_right (And.imp_right fun late early => absurd early late)) ?_ queue
  rintro (same | same)
  · exact absurd same data.1
  · exact absurd same data.2

theorem onStart_does (kind : kinds .pass) : Does conf kinds s s.onStart := by
  unfold onStart
  split
  · rename_i state
    refine restates_does _ kind rfl (.inl ?_) ⟨nofun, nofun⟩ rfl
    rcases state with state | state <;> rw [state] <;> rfl
  · exact .same rfl rfl

theorem onInitack_does (kind : kinds .pass) : Does conf kinds s s.onInitack := by
  unfold onInitack
  split
  · rename_i state
    refine restates_does _ kind rfl (.inl ?_) ⟨nofun, nofun⟩ rfl
    rcases state with state | state <;> rw [state] <;> rfl
  · exact .same rfl rfl

theorem onEnd_does (kind : kinds .pass) : Does conf kinds s s.onEnd := by
  unfold onEnd
  split
  · rename_i state
    have queued : Does conf kinds s (((s.queuepkt .end []).queuepkt .end []).queuepkt .end []) :=
      Does.queued .end [] rfl (Does.queued .end [] rfl (Does.queued .end [] rfl (.same rfl rfl)))
    apply queued.trans
    refine restates_does _ kind rfl (.inl ?_) ⟨nofun, nofun⟩ rfl
    change _ = s.txstate.stage
    rcases state with state | state <;> rw [state] <;> rfl
  · exact .same rfl rfl

/-- A change of the file being sent that leaves its counters. -/
theorem changeSend_does (change : Finfo → Finfo) (same : ∀ finf, (change finf).sendCounts = finf.sendCounts) :
    Does conf kinds s (s.changeSend change) := by
  refine .same ?_ rfl
  unfold HydraTx.of changeSend
  dsimp only
  rw [changeSend_sendCounts_same _ _ same, changeSend_send]

/-- Closing the file and going on with the next one. -/
theorem closeAndNext_does (answers : HydraPacketAnswers) (kind : kinds .close) (late : s.txstate.stage ≠ .early) :
    Does conf kinds s (s.closeAndNext answers) := by
  refine .move .close kind rfl ?_ rfl
  have closed : HydraTx.of (s.closeAndNext answers) =
      { HydraTx.of s with txstate := .nextFile, send := none } := by
    unfold HydraTx.of closeAndNext closeSend
    dsimp only
    rw [pTxFclose_sendCounts, pTxFclose_send]
  rw [closed]
  exact .close _ late

theorem closeAs_does (answers : HydraPacketAnswers) (status : Fstat) (kind : kinds .close)
    (late : s.txstate.stage ≠ .early) : Does conf kinds s (s.closeAs answers status) := by
  have marked : Does conf kinds s (s.changeSend fun finf => { finf with status }) :=
    changeSend_does _ fun _ => rfl
  exact marked.trans (closeAndNext_does answers kind late)

/-- Seeking leaves the counters. -/
theorem seek_keeps (pos : Nat) (s : HydraState) :
    (s.seek pos).pi.sendCounts = s.pi.sendCounts ∧ (s.seek pos).pi.send = s.pi.send :=
  ⟨changeSend_sendCounts_same _ _ fun _ => rfl, changeSend_send _ _⟩

/-- The remote takes the file from an offset on, if that can be sought. -/
theorem sendFrom_does (answers : HydraPacketAnswers) (offs : Int) (state : s.txstate.stage = .announcing)
    (batch : s.sendEOB = false) (positive : 0 < offs) (position : HydraTx.Position conf offs)
    (kind : kinds .close ∧ ∀ offset : Nat, offs = offset → kinds (.resume offset)) :
    Turns conf kinds s (s.sendFrom answers offs) := by
  obtain ⟨offset, rfl⟩ := Int.eq_ofNat_of_zero_le (Int.le_of_lt positive)
  unfold sendFrom
  split
  · exact Does.same rfl rfl
  · split
    · refine .move (.resume offset) (kind.2 offset rfl) rfl ?_ rfl
      have tx : HydraTx.of ({ s.seek (offset : Int).toNat with
            txlastack := offset, txtries := 0, txstate := .data }.changeSend fun finf =>
              { finf with bytesSkipped := (offset : Int).toNat, bytesSent := (offset : Int).toNat }) =
          { HydraTx.of s with
            txstate := .data
            txlastack := offset
            counts := changeAt (HydraTx.of s).send (fun _ => (offset, offset)) (HydraTx.of s).counts } := by
        unfold HydraTx.of changeSend
        dsimp only
        rw [Int.toNat_natCast, changeSend_sendCounts _ _ (fun _ => (offset, offset)) fun _ => rfl,
          changeSend_send, (seek_keeps offset s).1, (seek_keeps offset s).2]
        rfl
      rw [tx]
      exact .resume (.of s) offset state batch position
    · exact closeAndNext_does answers kind.1 (by rw [state]; nofun)

theorem onFinfoack_does (answers : HydraPacketAnswers) (isize : Nat) (ibuf : Bytes)
    (kind : ∀ move, Prompts conf (.packet .finfoack isize ibuf) move → kinds move) :
    Turns conf kinds s (s.onFinfoack conf answers isize ibuf) := by
  have plain : ∀ move, Plain move → kinds move := fun move is => kind move (.inl is)
  unfold onFinfoack
  split
  · rename_i state
    have announcing : s.txstate.stage = .announcing := by
      rcases state with state | state <;> rw [state] <;> rfl
    have late : s.txstate.stage ≠ .early := by
      rw [announcing]
      nofun
    dsimp only
    split
    · exact restates_does _ (plain _ (.inl rfl)) rfl (.inr ⟨rfl, late⟩) ⟨nofun, nofun⟩ rfl
    · rename_i batch
      have batch : s.sendEOB = false := by simpa using batch
      split
      · exact Does.same rfl rfl
      · split
        · rename_i zero
          refine .move (.resume 0) (kind _ (.inr (.inr ⟨0, rfl, zero⟩))) rfl ?_ rfl
          exact .begin (.of s) announcing batch
        · split
          · exact Does.same rfl rfl
          · split
            · rename_i positive
              refine sendFrom_does answers _ announcing batch positive ⟨_, rfl⟩ ⟨plain _ (.inr rfl), ?_⟩
              intro offset same
              exact kind _ (.inr (.inr ⟨offset, rfl, same⟩))
            · split
              · exact closeAs_does answers .skipped (plain _ (.inr rfl)) late
              · exact closeAs_does answers .refused (plain _ (.inr rfl)) late
  · exact Does.same rfl rfl

/-- An acknowledgement that is looked at is one move. -/
theorem onDataack_move {ibuf : Bytes} {after : HydraState} (heard : s.onDataack conf ibuf = .more after) :
    HydraTx.Move conf (.of s) (.acknowledge (hydraGetlong conf.wide ibuf)) (.of after) ∧
      after.hi.pktqueue = s.hi.pktqueue := by
  unfold onDataack at heard
  split at heard
  · rename_i state
    split at heard
    · cases heard
    · rename_i finf current
      obtain ⟨index, chosen, there⟩ := Option.bind_eq_some_iff.mp current
      have entry : s.pi.sendCounts[index]? = some (finf.bytesSkipped, finf.bytesSent) := by
        unfold Protinfo.sendCounts
        rw [List.getElem?_map, there]
        rfl
      have counts : (HydraTx.of s).current = some (finf.bytesSkipped, finf.bytesSent) := by
        unfold HydraTx.current
        change s.pi.send.bind _ = _
        rw [chosen]
        exact entry
      dsimp only at heard
      split at heard
      · rename_i outside
        cases heard
        exact ⟨.ignore _ _ (.inr ⟨_, counts, outside.imp_right .inl⟩), rfl⟩
      · rename_i inside
        rw [not_or] at inside
        split at heard
        · rename_i past
          cases heard
          exact ⟨.ignore _ _ (.inr ⟨_, counts, .inr (.inr past)⟩), rfl⟩
        · rename_i later
          have moved (txstate : HydraTxstate) := @HydraTx.Move.acknowledge conf (.of s)
            (hydraGetlong conf.wide ibuf) index finf.bytesSkipped finf.bytesSent txstate state chosen entry
            ⟨_, rfl⟩ (Int.not_lt.mp inside.1) (Int.not_le.mp inside.2) (Int.not_lt.mp later)
          split at heard
          · rename_i opens
            cases heard
            exact ⟨moved .data (.inl ⟨opens.1, opens.2, rfl⟩), rfl⟩
          · rename_i closed
            cases heard
            exact ⟨moved s.txstate (.inr ⟨closed, rfl⟩), rfl⟩
  · rename_i elsewhere
    cases heard
    exact ⟨.ignore _ _ (.inl elsewhere), rfl⟩

theorem onDataack_does (isize : Nat) (ibuf : Bytes)
    (kind : ∀ move, Prompts conf (.packet .dataack isize ibuf) move → kinds move) :
    Turns conf kinds s (s.onDataack conf ibuf) := by
  cases heard : s.onDataack conf ibuf with
  | more after =>
    obtain ⟨moved, queue⟩ := onDataack_move heard
    exact Does.move _ (kind _ (.inr (.inr rfl))) rfl moved queue
  | halt final result =>
    unfold onDataack at heard
    split at heard
    · split at heard
      · cases heard
        exact Does.same rfl rfl
      · dsimp only at heard
        split at heard
        · cases heard
        · split at heard
          · cases heard
          · split at heard
            · cases heard
            · cases heard
    · cases heard

/-- The file is ended with a status. -/
theorem endFile_does (packetId : Int) (status : Fstat) (kind : kinds .pass) (sending : s.txstate.stage = .sending) :
    Does conf kinds s (s.endFile packetId status) := by
  have marked : Does conf kinds s (s.changeSend fun finf => { finf with status }) :=
    changeSend_does _ fun _ => rfl
  exact marked.trans (restates_does _ kind rfl (.inl sending.symm) ⟨nofun, nofun⟩ rfl)

/-- Another block size leaves the window and the queue. -/
theorem useBlockSize_keeps (blocksize : Nat) (hi : HydraInfo) :
    (useBlockSize blocksize hi).txwindow = hi.txwindow ∧
      (useBlockSize blocksize hi).pktqueue = hi.pktqueue := by
  unfold useBlockSize
  split
  · exact ⟨rfl, rfl⟩
  · exact ⟨rfl, rfl⟩

theorem resend_does (answers : HydraPacketAnswers) (offset : Int) (blocksize : Nat) (packetId : Int)
    (sending : s.txstate.stage = .sending) (nonneg : 0 ≤ offset) (position : HydraTx.Position conf offset)
    (kind : kinds .pass ∧ ∀ number : Nat, offset = number → kinds (.reposition number)) :
    Turns conf kinds s (s.resend answers offset blocksize packetId) := by
  obtain ⟨number, rfl⟩ := Int.eq_ofNat_of_zero_le nonneg
  have reset : Does conf kinds s { s.changeSend fun finf => { finf with eofseen := false } with
      hi.sendRposId := packetId } := by
    have cleared : Does conf kinds s (s.changeSend fun finf => { finf with eofseen := false }) :=
      changeSend_does _ fun _ => rfl
    exact cleared.trans (.same rfl rfl)
  have sought (middle : HydraState) (still : middle.txstate.stage = .sending) : Does conf kinds middle
      ({ middle.seek (number : Int).toNat with
        txlastack := number
        hi := useBlockSize blocksize middle.hi
        txstate := if middle.txstate = HydraTxstate.xwait then .xwait else .data }.changeSend fun finf =>
          { finf with bytesSent := (number : Int).toNat }) := by
    have used := useBlockSize_keeps blocksize middle.hi
    refine .move (.reposition number) (kind.2 number rfl) rfl ?_ used.2
    have tx : HydraTx.of ({ middle.seek (number : Int).toNat with
          txlastack := number
          hi := useBlockSize blocksize middle.hi
          txstate := if middle.txstate = HydraTxstate.xwait then .xwait else .data }.changeSend fun finf =>
            { finf with bytesSent := (number : Int).toNat }) =
        { HydraTx.of middle with
          txstate := if middle.txstate = HydraTxstate.xwait then .xwait else .data
          txlastack := number
          counts := changeAt (HydraTx.of middle).send (fun counts => (counts.1, number))
            (HydraTx.of middle).counts } := by
      unfold HydraTx.of changeSend
      dsimp only
      rw [Int.toNat_natCast, used.1, changeSend_sendCounts _ _ (fun counts => (counts.1, number)) fun _ => rfl,
        changeSend_send, (seek_keeps number middle).1, (seek_keeps number middle).2]
      rfl
    rw [tx]
    refine .reposition (.of middle) number _ still ?_ position
    split
    · exact .inr rfl
    · exact .inl rfl
  unfold resend
  dsimp only
  split
  · exact Turns.halted _ reset
  · split
    · exact Does.trans reset (sought _ sending)
    · exact Does.trans reset (endFile_does packetId .refused kind.1 sending)

theorem onRpos_does (answers : HydraPacketAnswers) (isize : Nat) (ibuf : Bytes)
    (kind : ∀ move, Prompts conf (.packet .rpos isize ibuf) move → kinds move) :
    Turns conf kinds s (s.onRpos conf answers isize ibuf) := by
  have pass : kinds .pass := kind _ (.inl (.inl rfl))
  unfold onRpos
  split
  · rename_i takes
    have sending : s.txstate.stage = .sending := by
      unfold HydraTxstate.takesRpos at takes
      cases state : s.txstate <;> rw [state] at takes <;> first | rfl | cases takes
    split
    · exact Does.same rfl rfl
    · dsimp only
      split
      · exact Does.same rfl rfl
      · split
        · exact Does.same rfl rfl
        · split
          · rename_i nonneg
            refine resend_does answers _ _ _ sending nonneg ⟨_, rfl⟩ ⟨pass, ?_⟩
            intro number same
            exact kind _ (.inr (.inr ⟨number, rfl, same⟩))
          · split
            · exact endFile_does _ _ pass sending
            · exact endFile_does _ _ pass sending
  · exact Does.same rfl rfl

theorem onEofack_does (answers : HydraPacketAnswers) (kind : kinds .pass ∧ kinds .close) :
    Does conf kinds s (s.onEofack answers) := by
  unfold onEofack
  split
  · rename_i state
    have late : s.txstate.stage ≠ .early := by
      rcases state with state | state <;> rw [state] <;> nofun
    split
    · exact restates_does _ kind.1 rfl (.inr ⟨rfl, late⟩) ⟨nofun, nofun⟩ rfl
    · split
      · exact closeAs_does answers _ kind.2 late
      · exact closeAndNext_does answers kind.2 late
  · exact .same rfl rfl

/-- Recording an answer leaves the transmitter. -/
theorem heed_of (received : HydraReceived) : HydraTx.of (s.heed received) = .of s := by
  unfold heed
  split
  · rfl
  · split
    · rfl
    · rfl

/-- What the handling of something received does. -/
theorem handle_does (input : HydraInput) :
    Turns conf (Prompts conf input.received) s (s.handle conf input) := by
  have pass (received : HydraReceived) : Prompts conf received .pass := .inl (.inl rfl)
  have close (received : HydraReceived) : Prompts conf received .close := .inl (.inr rfl)
  unfold handle
  cases input.received with
  | nothing | exit => exact Does.same rfl rfl
  | junk =>
    change Does conf _ s s.onJunk
    unfold onJunk
    split
    · rename_i state
      exact (resync_does (by rw [state]; nofun) 0).1
    · exact .same rfl rfl
  | packet type isize ibuf =>
    dsimp only
    cases type with
    | start => exact onStart_does (pass _)
    | init =>
      apply onInit_does
      rintro move (plain | window)
      · exact .inl plain
      · exact .inr (.inl window)
    | initack => exact onInitack_does (pass _)
    | finfo => exact onFinfo_does input.handling isize ibuf
    | finfoack => exact onFinfoack_does input.handling isize ibuf fun _ => id
    | data => exact onData_does input.handling isize ibuf fun ack => .inr (.inr ⟨ack, rfl⟩)
    | dataack => exact onDataack_does isize ibuf fun _ => id
    | rpos => exact onRpos_does input.handling isize ibuf fun _ => id
    | eof => exact onEof_does input.handling isize ibuf
    | eofack => exact onEofack_does input.handling ⟨pass _, close _⟩
    | «end» => exact onEnd_does (pass _)
    | idle => exact Does.same rfl rfl
    | devdata | devdack => exact Does.same rfl rfl

end Handle

/-! ## The part of a turn before the line -/

/-- The moves before the line is looked at. -/
def Composes (input : HydraInput) (s : HydraState) (move : HydraMove) : Prop :=
  Plain move ∨ move = .expire ∧ s.waitsOut input ∨ move = .open ∨ move = .finish ∨
    ∃ pos bytes, move = .block pos bytes ∧ (s.txstate = .data ∨ s.waitsOut input) ∧
      s.readyBlock input = some (pos, bytes)

/-- After the timers data is sent where it was before, or where the send timer expired. -/
theorem timers_data {input : HydraInput} {s timed : HydraState} (passed : s.timers input = .more timed)
    (data : timed.txstate = .data) : s.txstate = .data ∨ s.waitsOut input := by
  have received (before : HydraState) : before.recvTimeout.txstate = before.txstate := by
    unfold recvTimeout shrink
    split
    · rfl
    · rfl
    · rfl
    · rfl
  have sent : (if s.sendtimer && input.sendExpired then s.sendTimeout else s).txstate = .data →
      s.txstate = .data ∨ s.waitsOut input := by
    split
    · rename_i both
      rw [Bool.and_eq_true] at both
      intro now
      unfold sendTimeout at now
      cases state : s.txstate with
      | data => exact .inl rfl
      | dataack => exact .inr ⟨both.1, both.2, state⟩
      | swait | initack | finfoack | eofack | endack | done | start | init | rinit | nextFile | toFName
      | finfo | skipFile | xwait | eof | rend | «end» | abort =>
        rw [state] at now
        cases now
    · exact .inl
  unfold timers at passed
  split at passed
  · cases passed
  · dsimp only at passed
    generalize (if s.sendtimer && input.sendExpired then s.sendTimeout else s) = middle at passed sent
    injection passed with same
    subst same
    apply sent
    split at data
    · rwa [received] at data
    · exact data

/-- What is done before the line is looked at. -/
theorem compose_does (conf : HydraConf) (input : HydraInput) (s : HydraState) :
    Turns conf (s.Composes input) s (s.compose conf input) := by
  unfold compose
  refine turns_andThen ((timers_does conf input s).mono ?_) fun timed passed => ?_
  · rintro move (plain | expired)
    · exact .inl plain
    · exact .inr (.inl expired)
  · refine turns_andThen ((transmit_does conf input timed).mono ?_) fun sent _ => receive_does conf input sent
    obtain ⟨files, size⟩ := timers_keeps passed
    have ready : timed.readyBlock input = s.readyBlock input := by
      unfold readyBlock
      rw [files, size]
    rintro move (plain | opened | ended | ⟨pos, bytes, same, data, read⟩)
    · exact .inl plain
    · exact .inr (.inr (.inl opened))
    · exact .inr (.inr (.inr (.inl ended)))
    · exact .inr (.inr (.inr (.inr ⟨pos, bytes, same, timers_data passed data, ready ▸ read⟩)))

/-! ## A turn that goes on -/

/-- The moves of a turn that goes on, before and after the line is looked at. -/
structure TurnMoves (conf : HydraConf) (input : HydraInput) (s after : HydraState)
    (composed handled : List HydraMove) (middle : HydraTx) : Prop where
  composes : Trace (HydraTx.Move conf) (.of s) composed middle
  ready : ∀ move ∈ composed, s.Composes input move
  handles : Trace (HydraTx.Move conf) middle handled (.of after)
  prompted : ∀ move ∈ handled, Prompts conf input.received move
  acknowledged : ∀ isize ibuf, input.received = .packet .dataack isize ibuf →
    handled = [.acknowledge (hydraGetlong conf.wide ibuf)]
  made : (s.made conf input).filter (·.type.windowed) = (composed ++ handled).filterMap HydraMove.packet

/-- What was put into the queue behind the packets that were there. -/
theorem queuedSince_of {before after : HydraState} {packets : List HydraPacket}
    (queued : after.hi.pktqueue = before.hi.pktqueue ++ packets) : before.queuedSince after = packets := by
  unfold queuedSince
  rw [queued, List.drop_left]

/-- A turn that goes on is made of moves. -/
theorem step_moves {conf : HydraConf} {input : HydraInput} {s after : HydraState}
    (stepped : step conf s input = .more after) :
    ∃ composed handled middle, TurnMoves conf input s after composed handled middle := by
  obtain ⟨timed, sent, ready, passed, -, -, -, exchanged, handled, composes, whole⟩ := step_more _ _ _ _ stepped
  have front := compose_does conf input s
  have line := @exchange_keeps (fun _ => False) conf input ready
  rw [composes] at front
  rw [exchanged] at line
  obtain ⟨moves, packets, trace, kind, queued, blocks⟩ := front
  -- An acknowledgement is one move, whether it is heeded or not.
  have back : ∃ later others, Trace (HydraTx.Move conf) (.of (passed.heed input.received)) later (.of after) ∧
      (∀ move ∈ later, Prompts conf input.received move) ∧
      after.hi.pktqueue = (passed.heed input.received).hi.pktqueue ++ others ∧
      others.filter (·.type.windowed) = later.filterMap HydraMove.packet ∧
      ∀ isize ibuf, input.received = .packet .dataack isize ibuf →
        later = [.acknowledge (hydraGetlong conf.wide ibuf)] := by
    by_cases heard : ∃ isize ibuf, input.received = .packet .dataack isize ibuf
    · obtain ⟨isize, ibuf, received⟩ := heard
      unfold handle at handled
      rw [received] at handled
      obtain ⟨moved, queue⟩ := onDataack_move handled
      rw [received]
      refine ⟨_, [], .one moved, ?_, by rw [queue, List.append_nil], rfl, ?_⟩
      · intro move member
        rw [List.mem_singleton.mp member]
        exact .inr (.inr rfl)
      · intro isize' ibuf' same
        cases same
        rfl
    · have does := @handle_does conf (passed.heed input.received) input
      rw [handled] at does
      obtain ⟨later, others, goes, further, queue, made⟩ := does
      exact ⟨later, others, goes, further, queue, made, fun isize ibuf received =>
        absurd ⟨isize, ibuf, received⟩ heard⟩
  obtain ⟨later, others, goes, further, queue, made, acknowledged⟩ := back
  rw [heed_of, show HydraTx.of passed = .of ready from line] at goes
  refine ⟨moves, later, _, trace, kind, goes, further, acknowledged, ?_⟩
  unfold HydraState.made
  rw [composes, whole]
  dsimp only
  rw [queuedSince_of queued, queuedSince_of queue, List.filter_append, blocks, made, List.filterMap_append]

end HydraState

end Binkleyforce
