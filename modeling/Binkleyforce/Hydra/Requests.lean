import Binkleyforce.Hydra.Turns
import Binkleyforce.Hydra.Refusal
import Binkleyforce.Transfer.Receiving

/-!
# The identifiers of requests

A RPOS packet asks for the file from a position, or asks to skip or refuse it, and
carries an identifier. The transmitter drops a request with the identifier of the one it
acted on last. So requests that ask for different things need different identifiers. The
receiver takes a new one where it finds data misplaced, but not where its timer expires,
or where the file cannot be closed.
-/

namespace Binkleyforce

open Library

/-- What a request asks for: its first four bytes. -/
def rposPosition (data : Bytes) : Bytes := data.take 4

/-- The identifier a request carries. -/
def rposId (data : Bytes) : Bytes := data.drop 6

/-- The payload of a RPOS packet. -/
def rposData (pos : Int) (blocksize : Nat) (id : Int) : Bytes :=
  hydraPutlong pos ++ hydraPutword blocksize ++ hydraPutlong id

namespace HydraState

variable (conf : HydraConf)

/-- The requests a turn makes. -/
def requests (input : HydraInput) (s : HydraState) : List Bytes :=
  ((s.made conf input).filter (·.type = .rpos)).map (·.data)

/-- The turn opens a file to be received. -/
def opensFile (input : HydraInput) (s : HydraState) : Bool :=
  (s.handled conf input).any fun around => around.1.rxstate = .finfo && around.2.rxstate = .data

/-- Note the requests for the file that is being received. -/
def noteRequests (asked : List Bytes) (s : HydraState) (input : HydraInput) : List Bytes :=
  if s.opensFile conf input then [] else asked ++ s.requests conf input

/-- The transmitter drops the request. -/
def discards (wide : Bool) (s : HydraState) (data : Bytes) : Prop :=
  0 < hydraGetlong wide (rposId data) ∧ hydraGetlong wide (rposId data) = s.hi.sendRposId

/-- A request with this identifier asks for the position. -/
def Free (asked : List Bytes) (id pos : Int) : Prop :=
  ∀ data ∈ asked, rposId data = hydraPutlong id → rposPosition data = hydraPutlong pos

/-- The file that was received cannot be closed. -/
def closeFails (input : HydraInput) (s : HydraState) : Bool :=
  match input.received with
  | .packet .eof isize ibuf =>
    s.rxstate = .data && decide (4 ≤ isize) &&
      (s.pi.receiving.any fun finf => hydraGetlong conf.wide ibuf = finf.bytesReceived) &&
      match pRxFclose input.handling.closes
        (s.pi.changeRecv fun finf => { finf with status := .success }) with
      | some (_, false) => true
      | _ => false
  | _ => false

/-- The identifier after the current one was not used for the file. The receiver's timer
does not expire while data is received, and no file fails to be closed, where the current
one was used for another position, or for anything but a refusal. -/
def KeepsIds (both : List Bytes × HydraState) (input : HydraInput) : Prop :=
  (∀ data ∈ both.1, rposId data ≠ hydraPutlong (both.2.hi.recvRposId + 1)) ∧
  (both.2.rxstate = .data → both.2.recvtimer = true → input.recvExpired = true →
    ∀ finf ∈ both.2.pi.receiving, Free both.1 both.2.hi.recvRposId finf.bytesReceived) ∧
  (∀ around ∈ both.2.handled conf input, around.1.closeFails conf input = true →
    Free both.1 both.2.hi.recvRposId (-2))

/-- Requests for one file with one identifier ask for the same, so that the transmitter
drops none that asks for something else than the one it acted on. -/
structure IdsTell (asked : List Bytes) : Prop where
  ids : ∀ first ∈ asked, ∀ second ∈ asked, rposId first = rposId second →
    rposPosition first = rposPosition second
  discards : ∀ first ∈ asked, ∀ second ∈ asked, ∀ wide (tx : HydraState),
    tx.hi.sendRposId = hydraGetlong wide (rposId first) → tx.discards wide second →
    rposPosition first = rposPosition second

/-- At every moment of the run the identifiers tell the requests apart. -/
def TellsRequests (start : HydraState) (inputs : List HydraInput) : Prop :=
  ∀ past rest asked s, inputs = past ++ rest →
    run (beside (step conf) (noteRequests conf)) ([], start) past = .more (asked, s) →
    IdsTell asked

instance (asked : List Bytes) (id pos : Int) : Decidable (Free asked id pos) := by
  unfold Free
  infer_instance

instance (both : List Bytes × HydraState) (input : HydraInput) :
    Decidable (KeepsIds conf both input) := by
  unfold KeepsIds
  infer_instance

end HydraState

/-! ## Identifiers on the line -/

@[simp] theorem rposPosition_rposData (pos : Int) (blocksize : Nat) (id : Int) :
    rposPosition (rposData pos blocksize id) = hydraPutlong pos := by
  simp [rposPosition, rposData, hydraPutlong, lowBytes]

@[simp] theorem rposId_rposData (pos : Int) (blocksize : Nat) (id : Int) :
    rposId (rposData pos blocksize id) = hydraPutlong id := by
  simp [rposId, rposData, hydraPutlong, hydraPutword, lowBytes]

/-- Four bytes put together again. -/
theorem fourBytes_putlong (value : Int) :
    (fourBytes (hydraPutlong value) : Int) = value % 2 ^ 32 := by
  have bytes := fourBytes_lowBytes value []
  rwa [List.append_nil] at bytes

/-- Numbers that are sent alike are the same in 32 bits. -/
theorem putlong_congr {first second : Int} (same : first % 2 ^ 32 = second % 2 ^ 32) :
    hydraPutlong first = hydraPutlong second := by
  unfold hydraPutlong lowBytes
  rw [same]

/-- What is read alike was sent alike. -/
theorem putlong_read {first second : Int} (wide : Bool)
    (same : hydraGetlong wide (hydraPutlong first) = hydraGetlong wide (hydraPutlong second)) :
    hydraPutlong first = hydraPutlong second := by
  refine putlong_congr ?_
  unfold hydraGetlong long at same
  rw [fourBytes_putlong, fourBytes_putlong] at same
  simp only [Int.bmod_def] at same
  omega

/-- The next identifier is another one. -/
theorem putlong_next (id : Int) : hydraPutlong id ≠ hydraPutlong (id + 1) := by
  intro same
  have read : (fourBytes (hydraPutlong id) : Int) = fourBytes (hydraPutlong (id + 1)) := by
    rw [same]
  rw [fourBytes_putlong, fourBytes_putlong] at read
  omega

namespace HydraState

variable {conf : HydraConf} {input : HydraInput} {s after : HydraState}

/-! ## What the receiver asks for -/

/-- The code a skipped file is answered with. -/
def skipCode (finf : Finfo) : Int := if finf.status = Fstat.skipped then -1 else -2

/-- What the receiver is asking for. -/
def wanted (s : HydraState) : Option Int :=
  match s.rxstate with
  | .rpos | .rposAck => s.pi.receiving.map fun finf => (finf.bytesReceived : Int)
  | .skip | .skipAck => s.pi.receiving.map skipCode
  | _ => none

theorem wanted_of_incoming (same : after.incoming = s.incoming) :
    after.wanted = s.wanted ∧ after.hi.recvRposId = s.hi.recvRposId := by
  simp only [incoming, Prod.mk.injEq] at same
  obtain ⟨rxstate, id, receiving⟩ := same
  unfold wanted
  rw [rxstate, receiving]
  exact ⟨rfl, id⟩

/-- The receiver asks for what it wants, under the current identifier. -/
theorem receive_asks (asked : s.receive input = .more after) :
    after = s ∨ ∃ pos blocksize, s.wanted = some pos ∧ after.wanted = some pos ∧
      after.hi.recvRposId = s.hi.recvRposId ∧
      after.hi.pktqueue = s.hi.pktqueue ++ [⟨.rpos, rposData pos blocksize s.hi.recvRposId⟩] := by
  have repositioned : s.rxstate = .rpos ∨ s.rxstate = .skip →
      s.reposition input = .more after → ∃ pos blocksize, s.wanted = some pos ∧
        after.wanted = some pos ∧ after.hi.recvRposId = s.hi.recvRposId ∧
        after.hi.pktqueue =
          s.hi.pktqueue ++ [⟨.rpos, rposData pos blocksize s.hi.recvRposId⟩] := by
    intro asks taken
    unfold reposition at taken
    dsimp only at taken
    split at taken
    · cases taken
    · split at taken
      · cases taken
      · rename_i finf current
        rcases asks with state | state
        · rw [if_neg (by simp [state])] at taken
          injection taken with same
          refine ⟨finf.bytesReceived, s.hi.recvBlockSize, by simp [wanted, state, current], ?_⟩
          subst same
          exact ⟨by simp [wanted, sendRpos, queuepkt, current], rfl, rfl⟩
        · rw [if_pos state] at taken
          injection taken with same
          refine ⟨skipCode finf, s.hi.recvBlockSize, by simp [wanted, state, current], ?_⟩
          subst same
          exact ⟨by simp [wanted, sendRpos, queuepkt, current], rfl, rfl⟩
  unfold receive at asked
  split at asked
  · rename_i state
    exact .inr (repositioned (.inl state) asked)
  · rename_i state
    exact .inr (repositioned (.inr state) asked)
  · injection asked with same
    exact .inl same.symm

/-- What a packet makes of what the receiver asks for: it asks for no more than before,
it asks under a new identifier, or the file could not be closed. -/
inductive Hears (conf : HydraConf) (input : HydraInput) (s after : HydraState) : Prop where
  | kept (id : after.hi.recvRposId = s.hi.recvRposId)
      (wanted : ∀ pos ∈ after.wanted, pos ∈ s.wanted)
  | fresh (id : after.hi.recvRposId = s.hi.recvRposId + 1)
  | unclosed (id : after.hi.recvRposId = s.hi.recvRposId)
      (fails : s.closeFails conf input = true) (wanted : ∀ pos ∈ after.wanted, pos = -2)

/-- A packet is heard so, and no request is made. -/
def Heard (conf : HydraConf) (input : HydraInput) (s after : HydraState) : Prop :=
  Hears conf input s after ∧ Queues asksNothing s after

section Heard

variable (conf input s)

theorem Apart.heard {s after : HydraState} (apart : Apart s after) : Heard conf input s after := by
  obtain ⟨wanted, id⟩ := wanted_of_incoming apart.incoming
  exact ⟨.kept id fun _ member => wanted ▸ member, apart.queues⟩

/-- Where the receiver asks for nothing afterwards. -/
theorem heard_nothing {s after : HydraState} (id : after.hi.recvRposId = s.hi.recvRposId)
    (nothing : after.wanted = none) (queues : Queues asksNothing s after) :
    Heard conf input s after :=
  ⟨.kept id fun pos member => by simp [nothing] at member, queues⟩

theorem heard_fresh {s after : HydraState} (id : after.hi.recvRposId = s.hi.recvRposId + 1)
    (queue : after.hi.pktqueue = s.hi.pktqueue) : Heard conf input s after :=
  ⟨.fresh id, .none queue⟩

theorem onJunk_heard : Heard conf input s s.onJunk := by
  unfold onJunk
  split
  · exact heard_fresh conf input rfl rfl
  · exact Apart.heard conf input (.same rfl rfl)

theorem onInit_heard (pkt : Bytes) (heard : s.onInit conf input pkt = .more after) :
    Heard conf input s after := by
  have parsed : ∀ hi, hydraParseInit conf.wide pkt s.hi = some hi →
      hi.recvRposId = s.hi.recvRposId ∧ hi.pktqueue = s.hi.pktqueue := by
    intro hi parses
    unfold hydraParseInit at parses
    split at parses
    · cases parses
    · split at parses
      · dsimp only at parses
        split at parses
        · cases parses
        · injection parses with same
          exact same ▸ ⟨rfl, rfl⟩
      · cases parses
  unfold onInit at heard
  split at heard
  · split at heard
    · cases heard
    · rename_i hi parses
      obtain ⟨id, queue⟩ := parsed hi parses
      injection heard with same
      subst same
      exact heard_nothing conf input id rfl
        (.one ⟨.initack, []⟩ (congrArg (· ++ _) queue) rfl)
  · injection heard with same
    exact same ▸ Apart.heard conf input (.queued .initack [] nofun (.same rfl rfl))

theorem onFinfo_heard (answers : HydraPacketAnswers) (isize : Nat) (ibuf : Bytes)
    (heard : s.onFinfo conf answers isize ibuf = .more after) : Heard conf input s after := by
  have unwanted : ∀ middle : HydraState, middle.rxstate = .finfo ∨ middle.rxstate = .done ∨
      middle.rxstate = .data → middle.wanted = none := by
    rintro middle (state | state | state) <;> simp [wanted, state]
  unfold onFinfo at heard
  split at heard
  · rename_i state
    split at heard
    · injection heard with same
      subst same
      exact heard_nothing conf input rfl (unwanted _ (.inr (.inl rfl))) (.one _ rfl rfl)
    · split at heard
      · unfold openReceived at heard
        dsimp only at heard
        split at heard
        · injection heard with same
          subst same
          exact heard_nothing conf input rfl (unwanted _ (.inl state)) (.one _ rfl rfl)
        · injection heard with same
          subst same
          exact heard_nothing conf input rfl (unwanted _ (.inl state)) (.one _ rfl rfl)
        · split at heard
          · cases heard
          · injection heard with same
            subst same
            exact heard_nothing conf input rfl (unwanted _ (.inr (.inr rfl))) (.one _ rfl rfl)
      · injection heard with same
        exact same ▸ Apart.heard conf input (.same rfl rfl)
  · split at heard
    · injection heard with same
      exact same ▸ Apart.heard conf input (.queued .finfoack _ nofun (.same rfl rfl))
    · injection heard with same
      exact same ▸ Apart.heard conf input (.same rfl rfl)

/-- Data that is written is not asked for again, and where it cannot be written the file
is given up under a new identifier. -/
theorem writeBlock_heard (answers : HydraPacketAnswers) (bytes : Bytes) (state : s.rxstate = .data)
    (heard : s.writeBlock answers bytes = .more after) :
    (after.hi.recvRposId = s.hi.recvRposId ∧ after.wanted = none ∨
      after.hi.recvRposId = s.hi.recvRposId + 1) ∧ Queues asksNothing s after := by
  unfold writeBlock at heard
  split at heard
  · cases heard
  · injection heard with same
    exact same ▸ ⟨.inr rfl, .none rfl⟩
  · injection heard with same
    exact same ▸ ⟨.inr rfl, .none rfl⟩
  · injection heard with same
    subst same
    dsimp only
    split
    · exact ⟨.inl ⟨rfl, by simp [wanted, changeRecv, queuepkt, state]⟩, .one _ rfl rfl⟩
    · exact ⟨.inl ⟨rfl, by simp [wanted, changeRecv, state]⟩, .none rfl⟩

theorem onData_heard (answers : HydraPacketAnswers) (isize : Nat) (ibuf : Bytes)
    (heard : s.onData conf answers isize ibuf = .more after) : Heard conf input s after := by
  unfold onData at heard
  split at heard
  · split at heard
    · injection heard with same
      exact same ▸ Apart.heard conf input (.same rfl rfl)
    · split at heard
      · cases heard
      · dsimp only at heard
        split at heard
        · injection heard with same
          subst same
          unfold misplaced
          split
          · rename_i state
            refine ⟨.kept rfl fun pos member => ?_, .none rfl⟩
            by_cases behind : hydraGetlong conf.wide ibuf < s.lastDatapos
            · simpa [wanted, state, behind] using member
            · simpa [wanted, state, behind] using member
          · exact heard_fresh conf input rfl rfl
        · obtain ⟨asks, queues⟩ := writeBlock_heard _ answers _ rfl heard
          refine ⟨?_, queues⟩
          rcases asks with ⟨id, nothing⟩ | id
          · exact .kept id fun pos member => by simp [nothing] at member
          · exact .fresh id
  · injection heard with same
    exact same ▸ Apart.heard conf input (.same rfl rfl)

theorem onEof_heard (isize : Nat) (ibuf : Bytes)
    (received : input.received = .packet .eof isize ibuf)
    (heard : s.onEof conf input.handling isize ibuf = .more after) :
    Heard conf input s after := by
  have same_state : ∀ {after : HydraState}, Turn.more (ρ := HydraResult) s = .more after →
      Heard conf input s after := by
    intro after heard
    injection heard with same
    exact same ▸ Apart.heard conf input (.same rfl rfl)
  unfold onEof at heard
  dsimp only at heard
  split at heard
  · rename_i state
    split at heard
    · exact same_state heard
    · rename_i whole
      split at heard
      · cases heard
      · rename_i finf current
        split at heard
        · injection heard with same
          exact same ▸ heard_fresh conf input rfl rfl
        · rename_i there
          unfold closeReceived at heard
          split at heard
          · cases heard
          · injection heard with same
            exact same ▸ heard_nothing conf input rfl rfl (.one _ rfl rfl)
          · rename_i pi closed
            have fails : s.closeFails conf input = true := by
              simp only [closeFails, received, state, current, closed, Option.any_some,
                decide_true, Bool.true_and, Bool.and_true, Bool.and_eq_true, decide_eq_true_eq]
              exact ⟨Nat.le_of_not_lt whole, not_not.mp there⟩
            injection heard with same
            subst same
            refine ⟨.unclosed rfl fails fun pos member => ?_, .none rfl⟩
            simp only [wanted, changeRecv, changeRecv_receiving, Option.mem_map] at member
            obtain ⟨_, ⟨finf, _, rfl⟩, rfl⟩ := member
            rfl
  · split at heard
    · split at heard
      · exact same_state heard
      · split at heard
        · rename_i skips _ _
          injection heard with same
          subst same
          refine ⟨.kept rfl fun pos member => ?_, .none rfl⟩
          rcases skips with state | state
          · simpa [wanted, state] using member
          · simpa [wanted, state] using member
        · split at heard
          · cases heard
          · injection heard with same
            exact same ▸ heard_nothing conf input rfl rfl (.one _ rfl rfl)
    · split at heard
      · injection heard with same
        exact same ▸ Apart.heard conf input (.queued .eofack [] nofun (.same rfl rfl))
      · exact same_state heard

/-- Whatever is received is heard so. -/
theorem handle_heard (heard : s.handle conf input = .more after) : Heard conf input s after := by
  have apart : Apart s after → Heard conf input s after := Apart.heard conf input
  unfold handle at heard
  split at heard
  · injection heard with same
    exact apart (same ▸ .same rfl rfl)
  · injection heard with same
    exact apart (same ▸ .same rfl rfl)
  · injection heard with same
    exact same ▸ onJunk_heard conf input s
  · rename_i type isize ibuf received
    cases type with
    | start =>
      injection heard with same
      exact apart (same ▸ onStart_apart s)
    | init => exact onInit_heard conf input s _ heard
    | initack =>
      injection heard with same
      exact apart (same ▸ onInitack_apart s)
    | finfo => exact onFinfo_heard conf input s _ _ _ heard
    | finfoack => exact apart (onFinfoack_apart conf s _ _ _ heard)
    | data => exact onData_heard conf input s _ _ _ heard
    | dataack => exact apart (onDataack_apart conf s _ heard)
    | rpos => exact apart (onRpos_apart conf s _ _ _ heard)
    | eof => exact onEof_heard conf input s isize ibuf received heard
    | eofack =>
      injection heard with same
      exact apart (same ▸ onEofack_apart s _)
    | «end» =>
      injection heard with same
      exact apart (same ▸ onEnd_apart s)
    | idle =>
      injection heard with same
      exact apart (same ▸ .same rfl rfl)
    | devdata =>
      injection heard with same
      exact apart (same ▸ .same rfl rfl)
    | devdack =>
      injection heard with same
      exact apart (same ▸ .same rfl rfl)

end Heard

/-- Only a file that is being received can fail to be closed. -/
theorem closeFails_state (fails : s.closeFails conf input = true) : s.rxstate = .data := by
  unfold closeFails at fails
  split at fails
  · simp only [Bool.and_eq_true, decide_eq_true_eq] at fails
    exact fails.1.1.1
  · cases fails

/-! ## Every turn keeps the requests apart -/

/-- The requests made tell what they ask for, and what the receiver asks for under its
identifier is not confused with them. -/
structure Asking (asked : List Bytes) (s : HydraState) : Prop where
  made : ∀ data ∈ asked, ∃ pos blocksize id, data = rposData pos blocksize id
  ids : ∀ first ∈ asked, ∀ second ∈ asked, rposId first = rposId second →
    rposPosition first = rposPosition second
  free : ∀ pos ∈ s.wanted, Free asked s.hi.recvRposId pos

theorem Asking.tell {asked : List Bytes} (asking : Asking asked s) : IdsTell asked := by
  refine ⟨asking.ids, fun first here second there wide tx acted drops => ?_⟩
  refine asking.ids first here second there ?_
  obtain ⟨_, _, id, rfl⟩ := asking.made first here
  obtain ⟨_, _, other, rfl⟩ := asking.made second there
  have read := acted.symm.trans drops.2.symm
  rw [rposId_rposData, rposId_rposData] at read ⊢
  exact putlong_read wide read

/-- The timers make the receiver ask for the data after what it has. -/
theorem timers_wanted (timed : HydraState) (passed : s.timers input = .more timed) :
    timed.hi.recvRposId = s.hi.recvRposId ∧ timed.hi.pktqueue = s.hi.pktqueue ∧
      ∀ pos ∈ timed.wanted, pos ∈ s.wanted ∨
        (s.rxstate = .data ∧ s.recvtimer = true ∧ input.recvExpired = true ∧
          ∃ finf ∈ s.pi.receiving, pos = finf.bytesReceived) := by
  have sent : ∀ s : HydraState, s.sendTimeout.wanted = s.wanted := fun _ => rfl
  unfold timers at passed
  split at passed
  · cases passed
  · dsimp only at passed
    have middle : ∃ middle : HydraState, middle.hi = s.hi ∧ middle.wanted = s.wanted ∧
        middle.rxstate = s.rxstate ∧ middle.recvtimer = s.recvtimer ∧ middle.pi = s.pi ∧
        (if middle.recvtimer && input.recvExpired then middle.recvTimeout else middle) = timed := by
      injection passed with same
      refine ⟨_, ?_, ?_, ?_, ?_, ?_, same⟩
      all_goals split <;> rfl
    obtain ⟨middle, hi, wants, rxstate, timer, pi, rfl⟩ := middle
    rw [← hi, ← wants, ← rxstate, ← timer, ← pi]
    split
    · rename_i expired
      simp only [Bool.and_eq_true] at expired
      unfold recvTimeout shrink
      split
      · rename_i state
        exact ⟨rfl, rfl, fun pos member => .inl (by simpa [wanted, state] using member)⟩
      · rename_i state
        exact ⟨rfl, rfl, fun pos member => .inl (by simpa [wanted, state] using member)⟩
      · rename_i state
        refine ⟨rfl, rfl, fun pos member => .inr ⟨state, expired.1, expired.2, ?_⟩⟩
        simp only [wanted, Option.mem_map] at member
        obtain ⟨finf, current, rfl⟩ := member
        exact ⟨finf, current, rfl⟩
      · exact ⟨rfl, rfl, fun pos member => .inl member⟩
    · exact ⟨rfl, rfl, fun pos member => .inl member⟩

/-- The exchange with the line and the record of the answers leave the receiver alone. -/
theorem exchange_incoming (passed : HydraState) (exchanged : s.exchange input = .more passed) :
    (passed.heed input.received).incoming = s.incoming := by
  have heeds : (passed.heed input.received).incoming = passed.incoming := by
    unfold heed
    split
    · rfl
    · split <;> rfl
  rw [heeds]
  unfold exchange at exchanged
  split at exchanged
  · cases exchanged
  · split at exchanged
    · cases exchanged
    · split at exchanged
      · cases exchanged
      · split at exchanged
        · cases exchanged
        · injection exchanged with same
          exact same ▸ rfl

/-- The requests of a turn are those the receiver makes. -/
theorem requests_made (timed sent composed passed : HydraState)
    (queue : timed.hi.pktqueue = s.hi.pktqueue) (apart : Apart timed sent)
    (asked : sent.receive input = .more composed) (composes : s.compose conf input = .more composed)
    (handles : s.handled conf input = some (passed, after)) (heard : Queues asksNothing passed after) :
    (composed = sent ∧ s.requests conf input = []) ∨
      ∃ pos blocksize, sent.wanted = some pos ∧ composed.wanted = some pos ∧
        composed.hi.recvRposId = sent.hi.recvRposId ∧
        s.requests conf input = [rposData pos blocksize sent.hi.recvRposId] := by
  have none : ∀ packets : List HydraPacket, (∀ packet ∈ packets, asksNothing packet.type = true) →
      packets.filter (·.type = .rpos) = [] := by
    intro packets kind
    refine List.filter_eq_nil_iff.mpr fun packet member => ?_
    simpa [asksNothing] using kind packet member
  obtain ⟨packets, sends, kind⟩ := apart.queues
  have late := none _ heard.since
  have made : s.made conf input = s.queuedSince composed ++ passed.queuedSince after := by
    simp only [HydraState.made, composes, handles]
  have asks : s.requests conf input =
      ((s.queuedSince composed).filter (·.type = .rpos)).map (·.data) := by
    unfold requests
    rw [made, List.filter_append, late, List.append_nil]
  rw [asks]
  unfold queuedSince
  rcases receive_asks asked with same | ⟨pos, blocksize, before, wants, id, queued⟩
  · refine .inl ⟨same, ?_⟩
    rw [same, sends, queue, List.drop_left, none packets kind]
    rfl
  · refine .inr ⟨pos, blocksize, before, wants, id, ?_⟩
    rw [queued, sends, queue, List.append_assoc, List.drop_left, List.filter_append,
      none packets kind]
    rfl

/-- A turn that keeps to the condition keeps the requests apart. -/
theorem step_asking {asked : List Bytes} (asking : Asking asked s)
    (stepped : step conf s input = .more after) (keeps : KeepsIds conf (asked, s) input) :
    Asking (noteRequests conf asked s input) after := by
  obtain ⟨unused, timer, closes⟩ := keeps
  obtain ⟨timed, sent, composed, passed, timing, sending, asks, exchanged, handled, composes,
    around⟩ := step_more conf input s after stepped
  obtain ⟨timedId, queue, wants⟩ := timers_wanted timed timing
  have apart := transmit_apart conf input timed sending
  obtain ⟨sentWants, sentId⟩ := wanted_of_incoming apart.incoming
  obtain ⟨hears, queues⟩ := handle_heard conf input _ handled
  obtain ⟨passedWants, passedId⟩ := wanted_of_incoming (exchange_incoming passed exchanged)
  have here : sent.hi.recvRposId = s.hi.recvRposId := sentId.trans timedId
  have freeSent : ∀ pos ∈ sent.wanted, Free asked s.hi.recvRposId pos := by
    intro pos member
    rw [sentWants] at member
    rcases wants pos member with before | ⟨state, running, expired, finf, current, rfl⟩
    · exact asking.free pos before
    · exact timer state running expired finf current
  have requests := requests_made timed sent composed _ queue apart asks composes around queues
  unfold noteRequests
  by_cases opens : s.opensFile conf input = true
  · rw [if_pos opens]
    exact ⟨nofun, nofun, fun _ _ => nofun⟩
  rw [if_neg opens]
  -- What is asked for under the current identifier, this turn's request included.
  have composedId : composed.hi.recvRposId = s.hi.recvRposId := by
    rcases requests with ⟨same, _⟩ | ⟨_, _, _, _, id, _⟩
    · rw [same, here]
    · rw [id, here]
  have asked_now : Asking (asked ++ s.requests conf input) composed := by
    rcases requests with ⟨same, nothing⟩ | ⟨pos, blocksize, before, wants, id, one⟩
    · rw [nothing, List.append_nil, same]
      exact ⟨asking.made, asking.ids, fun pos member => here ▸ freeSent pos member⟩
    · have free := freeSent pos before
      rw [one, here]
      refine ⟨fun data member => ?_, fun first one second other same => ?_, fun p member => ?_⟩
      · rcases List.mem_append.mp member with old | new
        · exact asking.made data old
        · exact ⟨pos, blocksize, _, List.mem_singleton.mp new⟩
      · rcases List.mem_append.mp one with old | new
        · rcases List.mem_append.mp other with before | now
          · exact asking.ids first old second before same
          · rw [List.mem_singleton.mp now, rposId_rposData] at same
            rw [List.mem_singleton.mp now, rposPosition_rposData]
            exact free first old same
        · rw [List.mem_singleton.mp new] at same ⊢
          rw [rposId_rposData] at same
          rw [rposPosition_rposData]
          rcases List.mem_append.mp other with before | now
          · exact (free second before same.symm).symm
          · rw [List.mem_singleton.mp now, rposPosition_rposData]
      · rw [wants] at member
        cases member
        intro data member same
        rcases List.mem_append.mp member with old | new
        · exact free data old (composedId ▸ same)
        · rw [List.mem_singleton.mp new, rposPosition_rposData]
  cases hears with
  | kept id wanted =>
    refine ⟨asked_now.made, asked_now.ids, fun pos member => ?_⟩
    rw [id, passedId]
    exact asked_now.free pos (passedWants ▸ wanted pos member)
  | fresh id =>
    refine ⟨asked_now.made, asked_now.ids, fun pos _ data member same => ?_⟩
    rw [id, passedId, composedId] at same
    rcases List.mem_append.mp member with old | new
    · exact absurd same (unused data old)
    · rcases requests with ⟨_, nothing⟩ | ⟨_, _, _, _, _, one⟩
      · rw [nothing] at new
        cases new
      · rw [one] at new
        rw [List.mem_singleton.mp new, rposId_rposData, here] at same
        exact absurd same (putlong_next _)
  | unclosed id fails wanted =>
    refine ⟨asked_now.made, asked_now.ids, fun pos member data among same => ?_⟩
    rw [id, passedId, composedId] at same
    rw [wanted pos member]
    rcases List.mem_append.mp among with old | new
    · exact closes _ around fails data old same
    · -- Nothing was asked for in this turn: data is being received.
      rcases requests with ⟨_, nothing⟩ | ⟨_, _, _, asks, _, _⟩
      · rw [nothing] at new
        cases new
      · rw [← passedWants] at asks
        have state := closeFails_state fails
        simp [HydraState.wanted, state] at asks

end HydraState

/-- A batch with nothing to send. -/
def receivesLetter : HydraState :=
  hydraBatch {} { lists := { queue := [], filelist := [], reqsOnly := false } }

/-- The remote announces a letter of nine bytes and sends the first three. -/
def letterArrives : List HydraInput :=
  hydraOpening ++ hydraTurns [⟨.finfo, finfoData false (ascii "a") 9 0⟩,
    ⟨.data, hydraPutlong 0 ++ ascii "abc"⟩]

/-- The next three bytes. -/
def letterGoesOn : List HydraInput := hydraTurns [⟨.data, hydraPutlong 3 ++ ascii "def"⟩]

/-- A turn in which the receiver's timer expires. -/
def timerTurn : HydraInput := { hydraTurn .nothing with recvExpired := true }

end Binkleyforce
