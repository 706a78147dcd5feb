import Binkleyforce.Hydra.Moves
import Binkleyforce.Hydra.Refusal
import Binkleyforce.Hydra.Requests
import Binkleyforce.Transfer.Receiving

/-!
# The Hydra window

A transmitter and a receiver of one file after another, with the DATA packets and the
acknowledgements between them. While the window is kept, the transmitter is never further ahead of the
last acknowledgement than the window and one block. It waits for acknowledgements where the window is
full, and goes on when they have come, if no block fills the window alone: the receiver acknowledges the
position of a block, not its end.
-/

namespace Binkleyforce

open Library

/-! ## Two parties -/

/-- The transmitter has sent no more than the window and a block beyond the last acknowledged position. -/
def HydraState.WithinWindow (block : Nat) (s : HydraState) : Prop :=
  s.txstate.takesRpos = true → 0 < s.hi.txwindow →
    ∀ finf ∈ s.pi.sending, (finf.bytesSent : Int) ≤ s.txlastack + s.hi.txwindow + block

instance HydraState.decidableWithinWindow (block : Nat) (s : HydraState) : Decidable (s.WithinWindow block) :=
  inferInstanceAs (Decidable (_ → _))

/-- Two parties; the DATA packets of the transmitter that the receiver has not received yet, and the
acknowledgements that the transmitter has not received yet; and the size of the block that was sent
last. -/
structure HydraLink where
  tx : HydraState
  rx : HydraState
  data : List HydraPacket := []
  acks : List HydraPacket := []
  block : Nat := 0
  deriving DecidableEq, Repr

/-- A turn of either party. -/
inductive HydraLinkTurn where
  | transmitter (input : HydraInput)
  | receiver (input : HydraInput)

/-- The size and the buffer of a packet of a type that was received. -/
def HydraReceived.ofType (type : HydraPkttype) : HydraReceived → Option (Nat × Bytes)
  | .packet other isize ibuf => if other = type then some (isize, ibuf) else none
  | _ => none

/-- Take the first packet off where one was received. -/
def takeReceived (type : HydraPkttype) (received : HydraReceived) (packets : List HydraPacket) :
    List HydraPacket :=
  if (received.ofType type).isSome then packets.tail else packets

/-- The packets of a type. -/
def ofType (type : HydraPkttype) (packets : List HydraPacket) : List HydraPacket :=
  packets.filter (·.type = type)

/-- The number of bytes in a DATA packet, behind the position. -/
def blockSize (packet : HydraPacket) : Nat := packet.data.length - 4

namespace HydraLink

/-- A turn of either party. -/
def step (txConf rxConf : HydraConf) (link : HydraLink) : HydraLinkTurn → Turn HydraLink HydraResult
  | .transmitter input =>
    let blocks := ofType .data (link.tx.made txConf input)
    match link.tx.step txConf input with
    | .halt tx result => .halt { link with tx } result
    | .more tx =>
      .more { link with
        tx
        data := link.data ++ blocks
        acks := takeReceived .dataack input.received link.acks
        block := (blocks.getLast?.map blockSize).getD link.block }
  | .receiver input =>
    match link.rx.step rxConf input with
    | .halt rx result => .halt { link with rx } result
    | .more rx =>
      .more { link with
        rx
        data := takeReceived .data input.received link.data
        acks := link.acks ++ ofType .dataack (link.rx.made rxConf input) }

end HydraLink

namespace HydraState

/-- A DATA packet comes in order: the receiver has a window and an open file, the packet is for the
position it has come to, and the data can be written. -/
def TakesData (conf : HydraConf) (answers : HydraPacketAnswers) (isize : Nat) (ibuf : Bytes)
    (s : HydraState) : Prop :=
  (s.rxstate = .data ∨ s.rxstate = .rposAck) ∧ 0 < s.hi.rxwindow ∧
    s.pi.receiving.map (fun finf => (finf.bytesReceived : Int)) = some (hydraGetlong conf.wide ibuf) ∧
      (pRxWritefile answers.writes ((ibuf.take isize).drop 4) s.pi).map (·.2) = some .ok

instance decidableTakesData (conf : HydraConf) (answers : HydraPacketAnswers) (isize : Nat) (ibuf : Bytes)
    (s : HydraState) : Decidable (s.TakesData conf answers isize ibuf) :=
  inferInstanceAs (Decidable (_ ∧ _))

instance decidableWaitsOut (input : HydraInput) (s : HydraState) : Decidable (s.waitsOut input) :=
  inferInstanceAs (Decidable (_ ∧ _))

end HydraState

namespace HydraLink

/-- A DATA packet or an acknowledgement that is received is the next one the other party sent, and data
is received in order. -/
def Delivers (rxConf : HydraConf) (link : HydraLink) : HydraLinkTurn → Prop
  | .transmitter input =>
    ∀ packet ∈ input.received.ofType .dataack, link.acks.head? = some ⟨.dataack, packet.2.take packet.1⟩
  | .receiver input =>
    ∀ packet ∈ input.received.ofType .data, link.data.head? = some ⟨.data, packet.2.take packet.1⟩ ∧
      ∀ around ∈ link.rx.handled rxConf input,
        around.1.TakesData rxConf input.handling packet.1 packet.2

instance decidableDelivers (rxConf : HydraConf) (link : HydraLink) :
    ∀ turn, Decidable (link.Delivers rxConf turn)
  | .transmitter input => inferInstanceAs (Decidable (∀ packet ∈ input.received.ofType .dataack, _))
  | .receiver input => inferInstanceAs (Decidable (∀ packet ∈ input.received.ofType .data, _ ∧ _))

/-- The send timer does not expire while the transmitter waits for an acknowledgement, and a block that
is sent to a window is smaller than the window, its position one that can be read back. -/
def Sound (txConf : HydraConf) (link : HydraLink) : HydraLinkTurn → Prop
  | .transmitter input =>
    ¬ link.tx.waitsOut input ∧
      (link.tx.txstate = .data → 0 < link.tx.hi.txwindow →
        ∀ block ∈ link.tx.readyBlock input,
          block.2.length < link.tx.hi.txwindow ∧ hydraGetlong txConf.wide (hydraPutlong block.1) = block.1)
  | .receiver _ => True

instance decidableSound (txConf : HydraConf) (link : HydraLink) : ∀ turn, Decidable (link.Sound txConf turn)
  | .transmitter _ => inferInstanceAs (Decidable (_ ∧ _))
  | .receiver _ => inferInstanceAs (Decidable True)

/-- In the state that a run reaches the window is kept; and where everything was delivered, the
transmitter does not wait once nothing is on its way. -/
def KeepsWindow (txConf rxConf : HydraConf) (start : HydraLink) (turns : List HydraLinkTurn) : Prop :=
  ∀ link, run (step txConf rxConf) start turns = .more link →
    link.tx.WithinWindow link.block ∧
      (Along (Delivers rxConf) (step txConf rxConf) start turns → link.data = [] → link.acks = [] →
        link.tx.txstate ≠ .dataack)

end HydraLink

/-! ## Positions -/

/-- A `long` is smaller than half of the numbers there are. -/
theorem long_lt (wide : Bool) (value : Int) : long wide value < if wide then 2 ^ 63 else 2 ^ 31 := by
  unfold long
  cases wide with
  | true =>
    simp only [if_true]
    exact Int.bmod_lt (by decide)
  | false =>
    simp only [Bool.false_eq_true, if_false]
    exact Int.bmod_lt (by decide)

/-- An announced window is a `long`. -/
theorem announced_lt {conf : HydraConf} {window : Nat} (announced : HydraTx.Announced conf window) :
    (window : Int) < if conf.wide then 2 ^ 63 else 2 ^ 31 := by
  obtain ⟨text, rfl⟩ := announced
  unfold parseWindows
  split
  · cases conf.wide with
    | true => decide
    | false => decide
  · rename_i window rest _
    have bound := long_lt conf.wide window
    generalize conf.wide = wide at bound
    cases wide with
    | true =>
      simp only [if_true] at bound ⊢
      omega
    | false =>
      simp only [Bool.false_eq_true, if_false] at bound ⊢
      omega

/-- A position is read from the first four bytes. -/
theorem getlong_take (wide : Bool) (buf : Bytes) {length : Nat} (long : 4 ≤ length) :
    hydraGetlong wide (buf.take length) = hydraGetlong wide buf := by
  have byte (index : Nat) (near : index < 4) : (buf.take length).getD index 0 = buf.getD index 0 := by
    rw [List.getD_eq_getElem?_getD, List.getD_eq_getElem?_getD, List.getElem?_take_of_lt (by omega)]
  unfold hydraGetlong fourBytes
  rw [byte 0 (by decide), byte 1 (by decide), byte 2 (by decide), byte 3 (by decide)]

/-- A position that was read is written as it was. -/
theorem putlong_getlong (wide : Bool) {buf : Bytes} (long : 4 ≤ buf.length) :
    hydraPutlong (hydraGetlong wide buf) = buf.take 4 := by
  obtain ⟨a, b, c, d, rest, rfl⟩ : ∃ a b c d rest, buf = a :: b :: c :: d :: rest := by
    match buf, long with
    | a :: b :: c :: d :: rest, _ => exact ⟨a, b, c, d, rest, rfl⟩
  have same : hydraGetlong wide (a :: b :: c :: d :: rest) % 2 ^ 32 =
      ((a.toNat + b.toNat * 2 ^ 8 + c.toNat * 2 ^ 16 + d.toNat * 2 ^ 24 : Nat) : Int) % 2 ^ 32 := by
    unfold hydraGetlong Binkleyforce.long fourBytes
    simp only [List.getD_cons_zero, List.getD_cons_succ, Int.bmod_def]
    omega
  have first : a.toNat < 256 := a.toNat_lt
  have second : b.toNat < 256 := b.toNat_lt
  have third : c.toNat < 256 := c.toNat_lt
  have fourth : d.toNat < 256 := d.toNat_lt
  have bits : (((a.toNat + b.toNat * 2 ^ 8 + c.toNat * 2 ^ 16 + d.toNat * 2 ^ 24 : Nat) : Int) % 2 ^ 32).toNat =
      a.toNat + b.toNat * 256 + c.toNat * 65536 + d.toNat * 16777216 := by omega
  have byte (value : Nat) (byte : UInt8) (low : value % 256 = byte.toNat) : UInt8.ofNat value = byte := by
    apply UInt8.toNat_inj.mp
    rw [UInt8.toNat_ofNat']
    exact low
  rw [putlong_congr same]
  unfold hydraPutlong lowBytes
  rw [bits]
  dsimp only
  rw [byte _ a (by omega), byte _ b (by omega), byte _ c (by omega), byte _ d (by omega)]
  rfl

section Fits

variable {conf : HydraConf} {tx : HydraTx} {bytesSent : Nat}

/-- The sum is never taken for a greater one. -/
theorem lt_of_fits (nonneg : 0 ≤ tx.txlastack) (fits : tx.fits conf bytesSent = true) :
    (bytesSent : Int) < tx.txlastack + tx.txwindow := by
  unfold HydraTx.fits unsignedLong at fits
  rw [decide_eq_true_iff] at fits
  generalize conf.wide = wide at fits
  cases wide with
  | true =>
    simp only [if_true] at fits
    omega
  | false =>
    simp only [Bool.false_eq_true, if_false] at fits
    omega

/-- A position and a window are added without a carry. -/
theorem fits_exact (position : HydraTx.Position conf tx.txlastack) (nonneg : 0 ≤ tx.txlastack)
    (announced : HydraTx.Announced conf tx.txwindow)
    (less : (bytesSent : Int) < tx.txlastack + tx.txwindow) : tx.fits conf bytesSent = true := by
  obtain ⟨number, read⟩ := position
  have near := long_lt conf.wide number
  have size := announced_lt announced
  rw [← read] at near
  unfold HydraTx.fits unsignedLong
  rw [decide_eq_true_iff]
  clear read announced
  generalize conf.wide = wide at near size
  cases wide with
  | true =>
    simp only [if_true] at near size ⊢
    omega
  | false =>
    simp only [Bool.false_eq_true, if_false] at near size ⊢
    omega

end Fits

/-! ## The transmitter keeps the window -/

namespace HydraTx

/-- What holds while the window is kept, where the last block had a size. -/
structure Within (block : Nat) (tx : HydraTx) : Prop where
  begins : tx.starting = true → tx.txstate.stage = .early
  fresh : tx.txstate.stage = .announcing → tx.sendEOB = false → ∀ counts, tx.current = some counts → counts.2 = 0
  acked : tx.txstate.stage = .sending → 0 ≤ tx.txlastack
  behind : tx.txstate.stage = .sending → ∀ counts, tx.current = some counts → tx.txlastack ≤ counts.2
  room : tx.txstate = .data → 0 < tx.txwindow →
    ∀ counts, tx.current = some counts → (counts.2 : Int) < tx.txlastack + tx.txwindow
  held : tx.txstate.stage = .sending → 0 < tx.txwindow →
    ∀ counts, tx.current = some counts → (counts.2 : Int) ≤ tx.txlastack + tx.txwindow + block

/-- The size of the block that was sent last. -/
def noteBlock (block : Nat) : HydraMove → Nat
  | .block _ bytes => bytes.length
  | _ => block

variable {conf : HydraConf} {tx : HydraTx}

/-- The counters of the file being sent, after they are changed. -/
theorem current_changed (tx : HydraTx) (change : Nat × Nat → Nat × Nat) {counts : Nat × Nat}
    (current : tx.send.bind ((changeAt tx.send change tx.counts)[·]?) = some counts) :
    ∃ before, tx.current = some before ∧ counts = change before := by
  unfold HydraTx.current
  cases chosen : tx.send with
  | none =>
    rw [chosen] at current
    cases current
  | some index =>
    rw [chosen] at current
    change (tx.counts.modify index change)[index]? = some counts at current
    rw [List.getElem?_modify_eq] at current
    obtain ⟨before, there, rfl⟩ := Option.map_eq_some_iff.mp current
    exact ⟨before, there, rfl⟩

/-- Where no file is announced or sent, only the beginning matters. -/
theorem Within.between {block : Nat} (begins : tx.starting = true → tx.txstate.stage = .early)
    (between : tx.txstate.stage ≠ .announcing ∧ tx.txstate.stage ≠ .sending) : Within block tx where
  begins := begins
  fresh stage := absurd stage between.1
  acked stage := absurd stage between.2
  behind stage := absurd stage between.2
  room state := absurd (by rw [state]; rfl) between.2
  held stage := absurd stage between.2

/-- Where all that was sent is acknowledged, the window is open. -/
theorem Within.level {block : Nat} (begins : tx.starting = true → tx.txstate.stage = .early)
    (sending : tx.txstate.stage = .sending) (acked : 0 ≤ tx.txlastack)
    (level : ∀ counts, tx.current = some counts → (counts.2 : Int) = tx.txlastack) : Within block tx where
  begins := begins
  fresh stage := by
    rw [sending] at stage
    cases stage
  acked _ := acked
  behind _ counts current := Int.le_of_eq (level counts current).symm
  room _ positive counts current := by
    rw [level counts current]
    omega
  held _ positive counts current := by
    rw [level counts current]
    omega

/-- A transmitter that is past its beginning is not in it. -/
theorem Within.begun {block : Nat} (within : Within block tx) (late : tx.txstate.stage ≠ .early) :
    tx.starting = false := by
  cases starting : tx.starting with
  | false => rfl
  | true => exact absurd (within.begins starting) late

/-- A move other than the expiry of the timer keeps the window. -/
theorem Within.moves {block : Nat} {move : HydraMove} {after : HydraTx} (within : Within block tx)
    (patient : move ≠ .expire) (moved : Move conf tx move after) : Within (noteBlock block move) after := by
  -- Once a file is announced the transmitter is past its beginning.
  have late {goal : Prop} (stage : tx.txstate.stage ≠ .early) (starting : tx.starting = true) : goal := by
    rw [within.begun stage] at starting
    cases starting
  cases moved with
  | pass txstate stage data =>
    rcases stage with same | ⟨between, begun⟩
    · exact {
        begins := fun starting => same.trans (within.begins starting)
        fresh := fun announcing => within.fresh (same.symm.trans announcing)
        acked := fun sending => within.acked (same.symm.trans sending)
        behind := fun sending => within.behind (same.symm.trans sending)
        room := fun state => within.room ((data (.inl state)).symm.trans state)
        held := fun sending => within.held (same.symm.trans sending) }
    · apply Within.between
      · intro starting
        have early := begun (within.begins starting)
        rw [starting] at early
        cases early
      · rw [between]
        exact ⟨nofun, nofun⟩
  | leave =>
    exact {
      begins := within.begins
      fresh := fun _ _ _ => nofun
      acked := within.acked
      behind := fun _ _ => nofun
      room := fun _ _ _ => nofun
      held := fun _ _ _ => nofun }
  | expire => exact absurd rfl patient
  | agree window starting size =>
    refine .between nofun ?_
    change tx.txstate.stage ≠ _ ∧ tx.txstate.stage ≠ _
    rw [within.begins starting]
    exact ⟨nofun, nofun⟩
  | answer ack => exact within
  | close stage => exact .between (late stage) ⟨nofun, nofun⟩
  | «open» state =>
    exact {
      begins := late (by rw [state]; nofun)
      fresh := fun _ _ counts current => by
        unfold HydraTx.current at current
        change (tx.counts ++ [(0, 0)])[tx.counts.length]? = some counts at current
        rw [List.getElem?_concat_length] at current
        cases current
        rfl
      acked := nofun
      behind := nofun
      room := nofun
      held := nofun }
  | finish state =>
    exact {
      begins := late (by rw [state]; nofun)
      fresh := nofun
      acked := nofun
      behind := nofun
      room := nofun
      held := nofun }
  | block index skipped sent bytes txstate state chosen there some_ next =>
    have sending : tx.txstate.stage = .sending := by rw [state]; rfl
    have current : tx.current = some (skipped, sent) := by
      unfold HydraTx.current
      rw [chosen]
      exact there
    have acked := within.acked sending
    have behind := within.behind sending _ current
    -- The current file is ahead by the block.
    have ahead {counts : Nat × Nat} (now : tx.send.bind
        ((tx.counts.modify index fun counts => (counts.1, counts.2 + bytes.length))[·]?) = some counts) :
        counts.2 = sent + bytes.length := by
      rw [chosen] at now
      change (tx.counts.modify index _)[index]? = some counts at now
      rw [List.getElem?_modify_eq, there] at now
      cases now
      rfl
    have still : txstate.stage = .sending := by
      rcases next with ⟨rfl, -⟩ | ⟨rfl | rfl, -⟩ <;> rfl
    refine {
      begins := late (by rw [sending]; nofun)
      fresh := fun announcing => by
        rw [still] at announcing
        cases announcing
      acked := fun _ => acked
      behind := fun _ counts now => ?_
      room := fun data positive counts now => ?_
      held := fun _ positive counts now => ?_ }
    · rw [ahead now]
      change tx.txlastack ≤ _
      change tx.txlastack ≤ (sent : Int) at behind
      omega
    · rw [ahead now]
      rcases next with ⟨rfl, -⟩ | ⟨-, fits⟩
      · cases data
      · exact lt_of_fits acked (fits positive)
    · rw [ahead now]
      have room := within.room state positive _ current
      change _ ≤ tx.txlastack + tx.txwindow + (bytes.length : Int)
      change (sent : Int) < _ at room
      omega
  | begin state batch =>
    refine .level (late (by rw [state]; nofun)) rfl (Int.le_refl 0) fun counts current => ?_
    exact congrArg Nat.cast (within.fresh state batch counts current)
  | resume offset state batch position =>
    refine .level (late (by rw [state]; nofun)) rfl (Int.natCast_nonneg offset) fun counts current => ?_
    obtain ⟨before, -, rfl⟩ := current_changed tx (fun _ => (offset, offset)) current
    rfl
  | reposition offset txstate stage state position =>
    have sending : txstate.stage = .sending := by
      rcases state with rfl | rfl <;> rfl
    refine .level (late (by rw [stage]; nofun)) sending (Int.natCast_nonneg offset) fun counts current => ?_
    obtain ⟨before, -, rfl⟩ := current_changed tx (fun counts => (counts.1, offset)) current
    rfl
  | acknowledge pos index skipped sent txstate state chosen there position nonneg before later next =>
    have sending : tx.txstate.stage = .sending := by
      rcases state with state | state <;> rw [state] <;> rfl
    have current : tx.current = some (skipped, sent) := by
      unfold HydraTx.current
      rw [chosen]
      exact there
    have still : txstate.stage = .sending := by
      rcases next with ⟨-, -, rfl⟩ | ⟨-, rfl⟩
      · rfl
      · exact sending
    refine {
      begins := late (by rw [sending]; nofun)
      fresh := fun announcing => by
        rw [still] at announcing
        cases announcing
      acked := fun _ => nonneg
      behind := fun _ counts now => ?_
      room := fun data positive counts now => ?_
      held := fun _ positive counts now => ?_ }
    · obtain rfl : (skipped, sent) = counts := Option.some.inj (current.symm.trans now)
      exact Int.le_of_lt before
    · obtain rfl : (skipped, sent) = counts := Option.some.inj (current.symm.trans now)
      rcases next with ⟨-, fits, -⟩ | ⟨-, rfl⟩
      · exact @lt_of_fits conf { tx with txlastack := pos } sent nonneg fits
      · have room := within.room data positive _ current
        change (sent : Int) < pos + tx.txwindow
        change (sent : Int) < _ at room
        omega
    · obtain rfl : (skipped, sent) = counts := Option.some.inj (current.symm.trans now)
      have held := within.held sending positive _ current
      change (sent : Int) ≤ pos + tx.txwindow + block
      change (sent : Int) ≤ _ at held
      omega
  | ignore pos why => exact within

/-! ## Waiting for an acknowledgement -/

/-- Where the transmitter waits, the acknowledgement of the last block opens the window, and it is still
on its way. The positions on their way are given by the four bytes they are sent as. -/
structure Awaits (conf : HydraConf) (flight : List Bytes) (tx : HydraTx) : Prop where
  announced : Announced conf tx.txwindow
  waits : tx.txstate = .dataack → ∃ skipped sent length : Nat, tx.current = some (skipped, sent + length) ∧
    0 < length ∧ length < tx.txwindow ∧ hydraGetlong conf.wide (hydraPutlong sent) = sent ∧ tx.txlastack ≤ sent ∧
      flight.getLast? = some (hydraPutlong sent)

/-- The positions on their way. -/
def noteFlight (flight : List Bytes) : HydraMove → List Bytes
  | .block pos _ => flight ++ [hydraPutlong pos]
  | _ => flight

/-- Nothing is awaited in another state. -/
theorem Awaits.other {flight : List Bytes} (announced : Announced conf tx.txwindow)
    (other : tx.txstate ≠ .dataack) : Awaits conf flight tx where
  announced := announced
  waits state := absurd state other

/-- The moves that concern no acknowledgement, where a block is smaller than the window. -/
def Short (conf : HydraConf) (window : Nat) (move : HydraMove) : Prop :=
  move ≠ .expire ∧ move ≠ .leave ∧ (∀ pos, move ≠ .acknowledge pos) ∧
    ∀ pos bytes, move = .block pos bytes → 0 < window →
      bytes.length < window ∧ hydraGetlong conf.wide (hydraPutlong pos) = pos

theorem Awaits.moves {block : Nat} {flight : List Bytes} {move : HydraMove} {after : HydraTx}
    (awaits : Awaits conf flight tx) (within : Within block tx) (short : Short conf tx.txwindow move)
    (moved : Move conf tx move after) : Awaits conf (noteFlight flight move) after := by
  obtain ⟨patient, stays, silent, small⟩ := short
  cases moved with
  | pass txstate stage data =>
    exact {
      announced := awaits.announced
      waits := fun state => awaits.waits ((data (.inr state)).symm.trans state) }
  | leave => exact absurd rfl stays
  | expire => exact absurd rfl patient
  | agree window starting size =>
    refine .other size ?_
    intro state
    have early := within.begins starting
    rw [show tx.txstate = .dataack from state] at early
    cases early
  | answer ack => exact awaits
  | close | «open» | finish => exact .other awaits.announced nofun
  | block index skipped sent bytes txstate state chosen there some_ next =>
    rcases next with ⟨rfl, positive, -⟩ | ⟨other, -⟩
    · obtain ⟨less, back⟩ := small sent bytes rfl positive
      have current : tx.current = some (skipped, sent) := by
        unfold HydraTx.current
        rw [chosen]
        exact there
      have behind := within.behind (by rw [state]; rfl) _ current
      have some_ : 0 < bytes.length := List.length_pos_iff.mpr some_
      refine {
        announced := awaits.announced
        waits := fun _ => ⟨skipped, sent, bytes.length, ?_, some_, less, back, behind, ?_⟩ }
      · change tx.send.bind ((tx.counts.modify index _)[·]?) = _
        rw [chosen]
        change (tx.counts.modify index _)[index]? = _
        rw [List.getElem?_modify_eq, there]
        rfl
      · exact List.getLast?_concat
    · refine .other awaits.announced ?_
      rcases other with rfl | rfl <;> nofun
  | begin | resume => exact .other awaits.announced nofun
  | reposition offset txstate stage state position =>
    refine .other awaits.announced ?_
    rcases state with rfl | rfl <;> nofun
  | acknowledge pos => exact absurd rfl (silent pos)
  | ignore pos => exact absurd rfl (silent pos)

/-- The acknowledgement of the first position on its way. -/
theorem Awaits.acknowledged {first : Bytes} {flight : List Bytes} {after : HydraTx}
    (awaits : Awaits conf (first :: flight) tx)
    (moved : Move conf tx (.acknowledge (hydraGetlong conf.wide first)) after) : Awaits conf flight after := by
  -- Whether the first position is the awaited one.
  have last {awaited : Bytes} (ends : (first :: flight).getLast? = some awaited) :
      first = awaited ∨ flight.getLast? = some awaited := by
    cases flight with
    | nil => exact .inl (Option.some.inj ends)
    | cons second rest => exact .inr ends
  cases moved with
  | acknowledge pos index skipped sent txstate state chosen there position nonneg before later next =>
    rcases next with ⟨-, -, rfl⟩ | ⟨closed, rfl⟩
    · exact .other awaits.announced nofun
    · refine { announced := awaits.announced, waits := fun waiting => ?_ }
      obtain ⟨skipped', sent', length, current, some_, less, back, behind, ends⟩ := awaits.waits waiting
      have here : tx.current = some (skipped, sent) := by
        unfold HydraTx.current
        rw [chosen]
        exact there
      obtain ⟨rfl, rfl⟩ : skipped = skipped' ∧ sent = sent' + length := by
        rw [here] at current
        simpa using current
      have opens (near : (sent' : Int) ≤ hydraGetlong conf.wide first) :
          { tx with txlastack := hydraGetlong conf.wide first }.fits conf (sent' + length) = true := by
        refine fits_exact position nonneg awaits.announced ?_
        change ((sent' + length : Nat) : Int) < hydraGetlong conf.wide first + tx.txwindow
        omega
      have below : hydraGetlong conf.wide first ≤ sent' := by
        by_contra above
        exact closed ⟨waiting, opens (by omega)⟩
      refine ⟨skipped, sent', length, here, some_, less, back, below, ?_⟩
      rcases last ends with rfl | later
      · exact absurd ⟨waiting, opens (Int.le_of_eq back.symm)⟩ closed
      · exact later
  | ignore pos why =>
    refine { announced := awaits.announced, waits := fun waiting => ?_ }
    obtain ⟨skipped, sent, length, current, some_, less, back, behind, ends⟩ := awaits.waits waiting
    refine ⟨skipped, sent, length, current, some_, less, back, behind, ?_⟩
    rcases last ends with rfl | later
    · rcases why with elsewhere | ⟨counts, here, outside⟩
      · exact absurd (.inr waiting) elsewhere
      · rw [current] at here
        cases here
        rw [back] at outside
        change _ ∨ ((sent + length : Nat) : Int) ≤ _ ∨ _ at outside
        omega
    · exact later

end HydraTx

/-! ## The packets of a turn -/

/-- A packet of a type that was received. -/
theorem ofType_packet {type : HydraPkttype} {received : HydraReceived} {isize : Nat} {ibuf : Bytes}
    (packet : received.ofType type = some (isize, ibuf)) : received = .packet type isize ibuf := by
  unfold HydraReceived.ofType at packet
  split at packet
  · split at packet
    · rename_i same
      cases packet
      rw [same]
    · cases packet
  · cases packet

/-- The four bytes a packet gives its position in. -/
def firstFour (packet : HydraPacket) : Bytes := packet.data.take 4

/-- The DATA packets of moves tell the size of the last block. -/
theorem noteBlock_moves (moves : List HydraMove) (block : Nat) :
    moves.foldl HydraTx.noteBlock block =
      ((ofType .data (moves.filterMap HydraMove.packet)).getLast?.map blockSize).getD block := by
  induction moves generalizing block with
  | nil => rfl
  | cons move moves inductionHypothesis =>
    rw [List.foldl_cons, inductionHypothesis]
    cases move with
    | block pos bytes =>
      change _ = (((⟨.data, hydraPutlong pos ++ bytes⟩ ::
        ofType .data (moves.filterMap HydraMove.packet)).getLast?).map blockSize).getD block
      rw [List.getLast?_cons, Option.map_some, Option.getD_some]
      cases (ofType .data (moves.filterMap HydraMove.packet)).getLast? with
      | none => rfl
      | some last => rfl
    | pass | leave | expire | agree | answer | close | «open» | finish | resume | reposition | acknowledge =>
      rfl

/-- The DATA packets of moves tell the positions. -/
theorem noteFlight_moves (moves : List HydraMove) (flight : List Bytes) :
    moves.foldl HydraTx.noteFlight flight =
      flight ++ (ofType .data (moves.filterMap HydraMove.packet)).map firstFour := by
  induction moves generalizing flight with
  | nil => exact (List.append_nil flight).symm
  | cons move moves inductionHypothesis =>
    rw [List.foldl_cons, inductionHypothesis]
    cases move with
    | block pos bytes =>
      change (flight ++ [hydraPutlong pos]) ++ _ = flight ++ ((⟨.data, hydraPutlong pos ++ bytes⟩ ::
        ofType .data (moves.filterMap HydraMove.packet)).map firstFour)
      rw [List.append_assoc, List.map_cons]
      rfl
    | pass | leave | expire | agree | answer | close | «open» | finish | resume | reposition | acknowledge =>
      rfl

/-- Each DATA packet of moves has a position. -/
theorem moves_long (moves : List HydraMove) :
    ∀ packet ∈ ofType .data (moves.filterMap HydraMove.packet), 4 ≤ packet.data.length := by
  intro packet member
  obtain ⟨inside, type⟩ := List.mem_filter.mp member
  obtain ⟨move, -, made⟩ := List.mem_filterMap.mp inside
  cases move with
  | block pos bytes =>
    cases made
    rw [List.length_append]
    exact Nat.le_add_right 4 _
  | answer ack =>
    cases made
    cases type
  | pass | leave | expire | agree | close | «open» | finish | resume | reposition | acknowledge => cases made

/-- The packets of a type that the window is about. -/
theorem ofType_windowed {type : HydraPkttype} (windowed : type.windowed = true) (packets : List HydraPacket) :
    ofType type (packets.filter (·.type.windowed)) = ofType type packets := by
  unfold ofType
  rw [List.filter_filter]
  apply List.filter_congr
  intro packet _
  by_cases same : packet.type = type
  · simp [same, windowed]
  · simp [same]

namespace HydraState

variable {conf : HydraConf} {input : HydraInput} {s after : HydraState}

/-- Handling a packet sends no data. -/
theorem prompted_data {received : HydraReceived} {moves : List HydraMove}
    (prompted : ∀ move ∈ moves, Prompts conf received move) :
    ofType .data (moves.filterMap HydraMove.packet) = [] := by
  apply List.filter_eq_nil_iff.mpr
  intro packet member
  obtain ⟨move, inside, made⟩ := List.mem_filterMap.mp member
  have prompts := prompted move inside
  cases move with
  | block pos bytes =>
    rcases prompts with (impossible | impossible) | ⟨_, impossible⟩ | other
    · cases impossible
    · cases impossible
    · cases impossible
    · split at other
      · obtain ⟨_, impossible, _⟩ := other
        cases impossible
      · obtain ⟨_, impossible, _⟩ := other
        cases impossible
      · cases other
      · obtain ⟨_, impossible⟩ := other
        cases impossible
      · cases other
  | answer ack =>
    cases made
    rw [decide_eq_true_iff]
    nofun
  | pass | leave | expire | agree | close | «open» | finish | resume | reposition | acknowledge => cases made

/-- Moves that answer nothing acknowledge nothing. -/
theorem moves_quiet {moves : List HydraMove} (quiet : ∀ move ∈ moves, ∀ ack, move ≠ .answer ack) :
    ofType .dataack (moves.filterMap HydraMove.packet) = [] := by
  apply List.filter_eq_nil_iff.mpr
  intro packet member
  obtain ⟨move, inside, made⟩ := List.mem_filterMap.mp member
  cases move with
  | block pos bytes =>
    cases made
    rw [decide_eq_true_iff]
    nofun
  | answer ack => exact absurd rfl (quiet _ inside ack)
  | pass | leave | expire | agree | close | «open» | finish | resume | reposition | acknowledge => cases made

/-- Nothing is answered before the line is looked at. -/
theorem composes_quiet {move : HydraMove} (ready : s.Composes input move) (ack : Bytes) : move ≠ .answer ack := by
  rintro rfl
  rcases ready with (impossible | impossible) | ⟨impossible, -⟩ | impossible | impossible | ⟨_, _, impossible, -⟩ <;>
    cases impossible

/-- Only data is answered. -/
theorem prompted_quiet {received : HydraReceived} {move : HydraMove} (prompted : Prompts conf received move)
    (other : received.ofType .data = none) (ack : Bytes) : move ≠ .answer ack := by
  rintro rfl
  rcases prompted with (impossible | impossible) | ⟨_, impossible⟩ | prompted
  · cases impossible
  · cases impossible
  · cases impossible
  · split at prompted
    · obtain ⟨_, impossible, _⟩ := prompted
      cases impossible
    · obtain ⟨_, impossible, _⟩ := prompted
      cases impossible
    · cases prompted
    · cases other
    · cases prompted

/-- A turn in which no data is received acknowledges nothing. -/
theorem acks_none (stepped : step conf s input = .more after) (other : input.received.ofType .data = none) :
    ofType .dataack (s.made conf input) = [] := by
  obtain ⟨composed, handled, middle, moves⟩ := step_moves stepped
  rw [← ofType_windowed rfl, moves.made]
  apply moves_quiet
  intro move member
  rcases List.mem_append.mp member with early | late
  · exact composes_quiet (moves.ready move early)
  · exact prompted_quiet (moves.prompted move late) other

/-- Data that comes in order is acknowledged with its position. -/
theorem onData_answers {answers : HydraPacketAnswers} {isize : Nat} {ibuf : Bytes} (long : 4 ≤ isize)
    (takes : s.TakesData conf answers isize ibuf) (heard : s.onData conf answers isize ibuf = .more after) :
    after.hi.pktqueue = s.hi.pktqueue ++ [⟨.dataack, hydraPutlong (hydraGetlong conf.wide ibuf)⟩] := by
  obtain ⟨state, window, current, written⟩ := takes
  obtain ⟨finf, current, here⟩ := Option.map_eq_some_iff.mp current
  obtain ⟨⟨pi, result⟩, written, rfl⟩ := Option.map_eq_some_iff.mp written
  obtain ⟨changed, now, -, same⟩ := pRxWritefile_current _ _ _ _ current written
  unfold onData at heard
  rw [if_pos state, if_neg (Nat.not_lt.mpr long), current] at heard
  dsimp only at heard
  rw [if_neg (not_not_intro here.symm)] at heard
  unfold writeBlock at heard
  dsimp only at heard
  rw [written] at heard
  dsimp only at heard
  rw [if_pos window, now] at heard
  injection heard with same'
  subst same'
  unfold changeRecv queuepkt HydraInfo.queuepkt
  dsimp only
  rw [Option.map_some, Option.getD_some, same rfl, here]

/-- A turn in which data is received in order acknowledges it. -/
theorem acks_one {isize : Nat} {ibuf : Bytes} (stepped : step conf s input = .more after)
    (received : input.received = .packet .data isize ibuf) (long : 4 ≤ isize)
    (takes : ∀ passed after, s.handled conf input = some (passed, after) →
      passed.TakesData conf input.handling isize ibuf) :
    ofType .dataack (s.made conf input) = [⟨.dataack, hydraPutlong (hydraGetlong conf.wide ibuf)⟩] := by
  obtain ⟨timed, sent, ready, passed, -, -, -, exchanged, handled, composes, whole⟩ := step_more _ _ _ _ stepped
  have front := compose_does conf input s
  rw [composes] at front
  obtain ⟨moves, packets, trace, kind, queued, blocks⟩ := front
  have queue : after.hi.pktqueue = (passed.heed input.received).hi.pktqueue ++
      [⟨.dataack, hydraPutlong (hydraGetlong conf.wide ibuf)⟩] := by
    have heard := handled
    unfold handle at heard
    rw [received] at heard
    rw [received] at whole ⊢
    exact onData_answers long (takes _ _ whole) heard
  unfold HydraState.made
  rw [composes, whole]
  dsimp only
  rw [queuedSince_of queued, queuedSince_of queue]
  unfold ofType
  rw [List.filter_append]
  change ofType .dataack packets ++ _ = _
  rw [← ofType_windowed rfl, blocks, moves_quiet fun move member => composes_quiet (kind move member)]
  rfl

end HydraState

/-! ## The window is kept -/

namespace HydraLink

variable {txConf rxConf : HydraConf} {link after : HydraLink} {turn : HydraLinkTurn}

/-- What a turn of the transmitter that goes on leaves. -/
theorem step_transmitter {input : HydraInput}
    (stepped : step txConf rxConf link (.transmitter input) = .more after) :
    ∃ tx, link.tx.step txConf input = .more tx ∧
      after = { link with
        tx
        data := link.data ++ ofType .data (link.tx.made txConf input)
        acks := takeReceived .dataack input.received link.acks
        block := ((ofType .data (link.tx.made txConf input)).getLast?.map blockSize).getD link.block } := by
  unfold step at stepped
  dsimp only at stepped
  split at stepped
  · cases stepped
  · rename_i tx taken
    cases stepped
    exact ⟨tx, taken, rfl⟩

/-- What a turn of the receiver that goes on leaves. -/
theorem step_receiver {input : HydraInput}
    (stepped : step txConf rxConf link (.receiver input) = .more after) :
    ∃ rx, link.rx.step rxConf input = .more rx ∧
      after = { link with
        rx
        data := takeReceived .data input.received link.data
        acks := link.acks ++ ofType .dataack (link.rx.made rxConf input) } := by
  unfold step at stepped
  dsimp only at stepped
  split at stepped
  · cases stepped
  · rename_i rx taken
    cases stepped
    exact ⟨rx, taken, rfl⟩

/-- The DATA packets of a turn are those of the moves before the line is looked at. -/
theorem made_data {input : HydraInput} {s tx : HydraState} {composed handled : List HydraMove} {middle : HydraTx}
    (moves : HydraState.TurnMoves txConf input s tx composed handled middle) :
    ofType .data (s.made txConf input) = ofType .data (composed.filterMap HydraMove.packet) := by
  rw [← ofType_windowed rfl, moves.made, List.filterMap_append]
  unfold ofType
  rw [List.filter_append]
  change _ ++ ofType .data _ = _
  rw [HydraState.prompted_data moves.prompted, List.append_nil]

/-- A block that is sent is the one that is ready, and a patient transmitter was sending. -/
theorem composes_short {input : HydraInput} (sound : Sound txConf link (.transmitter input)) {move : HydraMove}
    (ready : link.tx.Composes input move) : HydraTx.Short txConf link.tx.hi.txwindow move := by
  obtain ⟨patient, small⟩ := sound
  refine ⟨?_, ?_, ?_, ?_⟩
  · rintro rfl
    rcases ready with (impossible | impossible) | ⟨-, expired⟩ | impossible | impossible | ⟨_, _, impossible, -⟩
    · cases impossible
    · cases impossible
    · exact patient expired
    · cases impossible
    · cases impossible
    · cases impossible
  · rintro rfl
    rcases ready with (impossible | impossible) | ⟨impossible, -⟩ | impossible | impossible |
      ⟨_, _, impossible, -⟩ <;> cases impossible
  · rintro pos rfl
    rcases ready with (impossible | impossible) | ⟨impossible, -⟩ | impossible | impossible |
      ⟨_, _, impossible, -⟩ <;> cases impossible
  · rintro pos bytes rfl positive
    rcases ready with (impossible | impossible) | ⟨impossible, -⟩ | impossible | impossible |
      ⟨_, _, same, data, read⟩
    · cases impossible
    · cases impossible
    · cases impossible
    · cases impossible
    · cases impossible
    · cases same
      rcases data with data | expired
      · exact small data positive (pos, bytes) read
      · exact absurd expired patient

/-- Moves that a packet brings about, other than an acknowledgement. -/
theorem prompted_short {received : HydraReceived} {move : HydraMove}
    (prompted : HydraState.Prompts txConf received move) (other : received.ofType .dataack = none) (window : Nat) :
    HydraTx.Short txConf window move := by
  rcases prompted with (rfl | rfl) | ⟨_, rfl⟩ | prompted
  · exact ⟨nofun, nofun, nofun, nofun⟩
  · exact ⟨nofun, nofun, nofun, nofun⟩
  · exact ⟨nofun, nofun, nofun, nofun⟩
  · split at prompted
    · obtain ⟨_, rfl, _⟩ := prompted
      exact ⟨nofun, nofun, nofun, nofun⟩
    · obtain ⟨_, rfl, _⟩ := prompted
      exact ⟨nofun, nofun, nofun, nofun⟩
    · cases other
    · obtain ⟨_, rfl⟩ := prompted
      exact ⟨nofun, nofun, nofun, nofun⟩
    · cases prompted

/-- Handling a packet does not let the timer expire. -/
theorem prompted_patient {received : HydraReceived} {move : HydraMove}
    (prompted : HydraState.Prompts txConf received move) : move ≠ .expire := by
  rintro rfl
  rcases prompted with (impossible | impossible) | ⟨_, impossible⟩ | prompted
  · cases impossible
  · cases impossible
  · cases impossible
  · split at prompted
    · obtain ⟨_, impossible, _⟩ := prompted
      cases impossible
    · obtain ⟨_, impossible, _⟩ := prompted
      cases impossible
    · cases prompted
    · obtain ⟨_, impossible⟩ := prompted
      cases impossible
    · cases prompted

/-- Only the agreement changes the window. -/
theorem moves_window {tx later : HydraTx} {move : HydraMove} (moved : HydraTx.Move txConf tx move later)
    (other : ∀ window, move ≠ .agree window) : later.txwindow = tx.txwindow := by
  cases moved with
  | agree window => exact absurd rfl (other window)
  | pass | leave | expire | answer | close | «open» | finish | block | begin | resume | reposition | acknowledge
  | ignore => rfl

/-- No window is agreed on before the line is looked at. -/
theorem composes_window {input : HydraInput} {s : HydraState} {move : HydraMove}
    (ready : s.Composes input move) (window : Nat) : move ≠ .agree window := by
  rintro rfl
  rcases ready with (impossible | impossible) | ⟨impossible, -⟩ | impossible | impossible |
    ⟨_, _, impossible, -⟩ <;> cases impossible

/-- A turn keeps the window. -/
theorem within_step (within : HydraTx.Within link.block (.of link.tx)) (sound : Sound txConf link turn)
    (stepped : step txConf rxConf link turn = .more after) : HydraTx.Within after.block (.of after.tx) := by
  cases turn with
  | receiver input =>
    obtain ⟨rx, -, rfl⟩ := step_receiver stepped
    exact within
  | transmitter input =>
    obtain ⟨tx, taken, rfl⟩ := step_transmitter stepped
    obtain ⟨composed, handled, middle, moves⟩ := HydraState.step_moves taken
    have kept (noted : Nat) (tx : HydraTx) (move : HydraMove) (later : HydraTx) (holds : HydraTx.Within noted tx)
        (patient : move ≠ .expire) (moved : HydraTx.Move txConf tx move later) :
        HydraTx.Within (HydraTx.noteBlock noted move) later := holds.moves patient moved
    have first := moves.composes.folds (fun move member => (composes_short sound (moves.ready move member)).1)
      kept within
    have second := moves.handles.folds (fun move member => prompted_patient (moves.prompted move member)) kept first
    rw [noteBlock_moves, HydraState.prompted_data moves.prompted, noteBlock_moves] at second
    change HydraTx.Within _ _
    rw [made_data moves]
    exact second

/-- What is kept while everything is delivered. -/
structure Flows (txConf : HydraConf) (link : HydraLink) : Prop where
  within : HydraTx.Within link.block (.of link.tx)
  awaits : HydraTx.Awaits txConf ((link.acks ++ link.data).map firstFour) (.of link.tx)
  long : ∀ packet ∈ link.acks ++ link.data, 4 ≤ packet.data.length

theorem flows_step (flows : Flows txConf link) (sound : Sound txConf link turn)
    (delivers : Delivers rxConf link turn) (stepped : step txConf rxConf link turn = .more after) :
    Flows txConf after := by
  have within := within_step flows.within sound stepped
  cases turn with
  | receiver input =>
    obtain ⟨rx, taken, rfl⟩ := step_receiver stepped
    cases received : input.received.ofType .data with
    | none =>
      have none_ := HydraState.acks_none taken received
      refine ⟨within, ?_, ?_⟩
      · dsimp only
        unfold takeReceived
        rw [none_, received, List.append_nil]
        exact flows.awaits
      · dsimp only
        unfold takeReceived
        rw [none_, received, List.append_nil]
        exact flows.long
    | some packet =>
      obtain ⟨isize, ibuf⟩ := packet
      obtain ⟨head, takes⟩ := delivers (isize, ibuf) received
      obtain ⟨rest, data⟩ := List.head?_eq_some_iff.mp head
      have size : 4 ≤ (ibuf.take isize).length :=
        flows.long _ (List.mem_append_right _ (data ▸ List.mem_cons_self))
      rw [List.length_take] at size
      have one := HydraState.acks_one taken (ofType_packet received) (by omega) fun passed after => takes (passed, after)
      have same : hydraPutlong (hydraGetlong rxConf.wide ibuf) = (ibuf.take isize).take 4 := by
        rw [putlong_getlong _ (by omega), List.take_take, Nat.min_eq_left (by omega)]
      have left : takeReceived .data input.received link.data = rest := by
        unfold takeReceived
        rw [received, data]
        rfl
      -- The acknowledgement takes the place of the data.
      have flight : ((link.acks ++ [(⟨.dataack, hydraPutlong (hydraGetlong rxConf.wide ibuf)⟩ : HydraPacket)]) ++
          rest).map firstFour = (link.acks ++ link.data).map firstFour := by
        rw [data, List.append_assoc, List.map_append, List.map_append, List.map_append, same]
        change _ ++ ((ibuf.take isize).take 4).take 4 :: _ = _ ++ (ibuf.take isize).take 4 :: _
        rw [List.take_take, Nat.min_self]
        rfl
      refine ⟨within, ?_, ?_⟩
      · dsimp only
        rw [one, left, flight]
        exact flows.awaits
      · dsimp only
        rw [one, left, List.append_assoc]
        intro packet member
        rcases List.mem_append.mp member with old | member
        · exact flows.long packet (List.mem_append_left _ old)
        · rcases List.mem_cons.mp member with rfl | later
          · exact Nat.le_refl 4
          · exact flows.long packet (List.mem_append_right _ (data ▸ List.mem_cons_of_mem _ later))
  | transmitter input =>
    obtain ⟨tx, taken, rfl⟩ := step_transmitter stepped
    obtain ⟨composed, handled, middle, moves⟩ := HydraState.step_moves taken
    have sent := made_data moves
    -- The new positions are behind those on their way.
    have first : (∃ block, HydraTx.Within block middle) ∧
        HydraTx.Awaits txConf ((link.acks ++ (link.data ++ ofType .data (link.tx.made txConf input))).map firstFour)
          middle := by
      have kept := @Trace.folds _ _ (HydraTx.Move txConf) _ _ _ HydraTx.noteFlight
        (fun flight tx => (∃ block, HydraTx.Within block tx) ∧ HydraTx.Awaits txConf flight tx ∧
          tx.txwindow = link.tx.hi.txwindow) composed
        (fun move => HydraTx.Short txConf link.tx.hi.txwindow move ∧ ∀ window, move ≠ .agree window)
        moves.composes
        (fun move member => ⟨composes_short sound (moves.ready move member),
          composes_window (moves.ready move member)⟩)
        (by
          rintro flight tx move later ⟨⟨block, within⟩, awaits, window⟩ ⟨short, other⟩ moved
          rw [← window] at short
          exact ⟨⟨_, within.moves short.1 moved⟩, awaits.moves within short moved,
            (moves_window moved other).trans window⟩)
        _ ⟨⟨_, flows.within⟩, flows.awaits, rfl⟩
      refine ⟨kept.1, ?_⟩
      have awaits := kept.2.1
      rw [noteFlight_moves, ← sent, ← List.map_append, List.append_assoc] at awaits
      exact awaits
    have size : ∀ packet ∈ link.acks ++ (link.data ++ ofType .data (link.tx.made txConf input)),
        4 ≤ packet.data.length := by
      intro packet member
      rw [← List.append_assoc] at member
      rcases List.mem_append.mp member with old | new
      · exact flows.long packet old
      · exact moves_long composed packet (sent ▸ new)
    cases received : input.received.ofType .dataack with
    | none =>
      have kept : takeReceived .dataack input.received link.acks = link.acks := by
        unfold takeReceived
        rw [received]
        rfl
      refine ⟨within, ?_, ?_⟩
      · dsimp only
        rw [kept]
        have later := @Trace.folds _ _ (HydraTx.Move txConf) _ _ _ HydraTx.noteFlight
          (fun flight tx => (∃ block, HydraTx.Within block tx) ∧ HydraTx.Awaits txConf flight tx) handled
          (fun move => ∀ window, HydraTx.Short txConf window move) moves.handles
          (fun move member => prompted_short (moves.prompted move member) received)
          (by
            rintro flight tx move later ⟨⟨block, within⟩, awaits⟩ short moved
            exact ⟨⟨_, within.moves (short 0).1 moved⟩, awaits.moves within (short _) moved⟩)
          _ first
        have awaits := later.2
        rw [noteFlight_moves, HydraState.prompted_data moves.prompted] at awaits
        rwa [List.map_nil, List.append_nil] at awaits
      · dsimp only
        rw [kept]
        exact size
    | some packet =>
      obtain ⟨isize, ibuf⟩ := packet
      obtain ⟨rest, acks⟩ := List.head?_eq_some_iff.mp (delivers (isize, ibuf) received)
      have left : takeReceived .dataack input.received link.acks = rest := by
        unfold takeReceived
        rw [received, acks]
        rfl
      have size' := size
      rw [acks] at size'
      have length : 4 ≤ (ibuf.take isize).length := size' _ List.mem_cons_self
      rw [List.length_take] at length
      refine ⟨within, ?_, ?_⟩
      · dsimp only
        rw [left]
        have moved := moves.handles
        rw [moves.acknowledged isize ibuf (ofType_packet received)] at moved
        cases moved with
        | step taken rest =>
          cases rest
          have awaits := first.2
          rw [acks, List.cons_append, List.map_cons] at awaits
          refine awaits.acknowledged ?_
          change HydraTx.Move txConf middle (.acknowledge (hydraGetlong txConf.wide ((ibuf.take isize).take 4))) _
          rwa [getlong_take _ _ (Nat.le_refl 4), getlong_take _ _ (by omega)]
      · dsimp only
        rw [left]
        exact fun packet member => size' packet (List.mem_cons_of_mem _ member)

end HydraLink

/-- The window is kept in every run of two parties in which the transmitter waits for its acknowledgements,
and each block is smaller than the window. -/
theorem window_kept (txConf rxConf : HydraConf) (hi hi' : HydraInfo) (pi pi' : Protinfo)
    (announced : ∃ window, hi.txwindow = (parseWindows txConf.wide window).1) (turns : List HydraLinkTurn)
    (sound : Along (HydraLink.Sound txConf) (HydraLink.step txConf rxConf)
      { tx := hydraBatch hi pi, rx := hydraBatch hi' pi' } turns) :
    HydraLink.KeepsWindow txConf rxConf { tx := hydraBatch hi pi, rx := hydraBatch hi' pi' } turns := by
  have within : HydraTx.Within 0 (.of (hydraBatch hi pi)) := .between (fun _ => rfl) ⟨nofun, nofun⟩
  intro link reached
  constructor
  · have kept := run_reaches (fun link : HydraLink => HydraTx.Within link.block (.of link.tx))
      (fun _ _ _ within sound stepped => HydraLink.within_step within sound stepped) _ within turns sound link reached
    intro sending positive finf current
    have stage : link.tx.txstate.stage = .sending := by
      unfold HydraTxstate.takesRpos at sending
      cases state : link.tx.txstate <;> rw [state] at sending <;> first | rfl | cases sending
    refine kept.held stage positive finf.sendCounts ?_
    obtain ⟨index, chosen, there⟩ := Option.bind_eq_some_iff.mp current
    unfold HydraTx.current
    change link.tx.pi.send.bind ((link.tx.pi.sentfiles.map Finfo.sendCounts)[·]?) = _
    rw [chosen]
    change (link.tx.pi.sentfiles.map Finfo.sendCounts)[index]? = _
    rw [List.getElem?_map, there]
    rfl
  · intro delivers data acks waiting
    have flows : HydraLink.Flows txConf { tx := hydraBatch hi pi, rx := hydraBatch hi' pi' } :=
      ⟨within, .other announced nofun, nofun⟩
    have kept := run_reaches (HydraLink.Flows txConf)
      (fun _ _ _ flows both stepped => HydraLink.flows_step flows both.1 both.2 stepped) _ flows turns
      (along_and _ _ _ _ _ sound delivers) link reached
    obtain ⟨_, _, _, _, _, _, _, _, last⟩ := kept.awaits.waits waiting
    rw [data, acks] at last
    cases last

/-! ## A letter and a window -/

/-- The packets of the other party up to the first announcement, with two windows. -/
def windowOpening (windows : Bytes) : List HydraPacket :=
  [⟨.start, []⟩, ⟨.initack, []⟩, ⟨.init, ascii "00000000x" ++ [0] ++ ascii "C32" ++ [0] ++ ascii "C32" ++
    [0] ++ windows ++ [0, 0]⟩]

/-- Both parties agree on a window, and the letter is announced and accepted. -/
def letterAccepted (windows : Bytes) : List HydraLinkTurn :=
  (hydraTurns (windowOpening windows) ++ [hydraTurn .nothing] ++
      hydraTurns [⟨.finfoack, hydraPutlong 0⟩]).map .transmitter ++
    (hydraTurns (windowOpening windows ++ [⟨.finfo, finfoData false (ascii "a") 6 0⟩])).map .receiver

/-- The letter of six bytes is sent in one block, received, and acknowledged. -/
def letterAcknowledged (windows : Bytes) : List HydraLinkTurn :=
  letterAccepted windows ++ [.transmitter (hydraTurn .nothing), .transmitter (hydraTurn .nothing)] ++
    (hydraTurns [⟨.data, hydraPutlong 0 ++ ascii "letter"⟩]).map .receiver ++
    (hydraTurns [⟨.dataack, hydraPutlong 0⟩]).map .transmitter

/-- The two parties before the letter is sent. -/
def letterLink : HydraLink := { tx := sendsLetter, rx := receivesLetter }

/-- A window of eight bytes is kept by a letter of six. -/
theorem window_kept_letter : HydraLink.KeepsWindow (hydraConf false) (hydraConf false) letterLink
    (letterAcknowledged (ascii "0000000800000008")) :=
  window_kept (hydraConf false) (hydraConf false) {} {} _ _ ⟨[], by decide⟩ _ (by decide)

/-- Where the window is four bytes, the letter is acknowledged at its beginning, and the transmitter is left
waiting. -/
theorem window_stuck : ¬ HydraLink.KeepsWindow (hydraConf false) (hydraConf false) letterLink
    (letterAcknowledged (ascii "0000000400000004")) := by
  have stuck : (run (HydraLink.step (hydraConf false) (hydraConf false)) letterLink
      (letterAcknowledged (ascii "0000000400000004"))).Ends
        (fun link => link.data = [] ∧ link.acks = [] ∧ link.tx.txstate = .dataack) (fun _ _ => False) := by
    decide
  intro kept
  cases reached : run (HydraLink.step (hydraConf false) (hydraConf false)) letterLink
      (letterAcknowledged (ascii "0000000400000004")) with
  | halt link result =>
    rw [reached] at stuck
    exact stuck
  | more link =>
    rw [reached] at stuck
    obtain ⟨data, acks, waiting⟩ := stuck
    exact (kept link reached).2 (by decide) data acks waiting

-- In blocks of two bytes the letter leaves a window of three once the timer has expired.
example : (run (HydraLink.step (hydraConf false) (hydraConf false))
    { letterLink with tx := { sendsLetter with hi := { sendBlockSize := 2 } } }
    (letterAccepted (ascii "0000000300000003") ++
      [.transmitter (hydraTurn .nothing), .transmitter (hydraTurn .nothing),
        .transmitter { hydraTurn .nothing with sendExpired := true }])).Ends
      (fun link => ¬ link.tx.WithinWindow link.block) (fun _ _ => False) := by
  decide

end Binkleyforce
