import Binkleyforce.Hydra.Refusal

/-!
# What offsets say

FINFOACK, RPOS and EOF carry an offset: a position, or -1 for a file that is skipped
and -2 for one that is refused. The four bytes on the line are put together as an
unsigned number. Where a `long` has 32 bits the sign comes back with it; where it has
64 a skip or a refusal is read as a position of nearly four gigabytes.
-/

namespace Binkleyforce

open Library

/-- What an offset says to the other side. -/
inductive OffsetMeaning where
  | position (offset : Nat)
  | skip
  | refuse
  deriving DecidableEq, Repr

/-- What the sender of an offset means. -/
def offsetMeaning (value : Int) : OffsetMeaning :=
  if 0 ≤ value then .position value.toNat
  else if value = -1 then .skip
  else .refuse

/-- The values the protocol puts into an offset. -/
def OffsetValue (value : Int) : Prop := 0 ≤ value ∨ value = -1 ∨ value = -2

/-- The number an offset is sent as. -/
def OffsetMeaning.code : OffsetMeaning → Int
  | position offset => offset
  | skip => -1
  | refuse => -2

/-- The meaning of a value stands for it. -/
theorem code_meaning (value : Int) (allowed : OffsetValue value) :
    (offsetMeaning value).code = value := by
  unfold offsetMeaning
  rcases allowed with position | rfl | rfl
  · rw [if_pos position]
    exact Int.toNat_of_nonneg position
  · rfl
  · rfl

/-- The number read back from the line. -/
theorem getlong_putlong (wide : Bool) (value : Int) (tail : Bytes) (low : -(2 ^ 31) ≤ value)
    (high : value < 2 ^ 31) :
    hydraGetlong wide (hydraPutlong value ++ tail) =
      if wide = true ∧ value < 0 then value + 2 ^ 32 else value := by
  have bytes : (fourBytes (hydraPutlong value ++ tail) : Int) = value % 2 ^ 32 :=
    fourBytes_lowBytes value tail
  unfold hydraGetlong long
  rw [bytes]
  cases wide
  · simp only [Bool.false_eq_true, if_false, false_and, Int.bmod]
    split <;> omega
  · simp only [if_true, true_and]
    rw [Int.bmod_eq_of_le (by omega) (by omega)]
    split <;> omega

namespace HydraState

/-! ## The branches -/

/-- What the transmitter does with the answer to its announcement. -/
def followFinfoack (answers : HydraPacketAnswers) (meaning : OffsetMeaning) (s : HydraState) :
    Turn HydraState HydraResult :=
  match meaning with
  | .position 0 => .more { s with txlastack := 0, txtries := 0, txstate := .data }
  | .position (offset + 1) =>
    if s.pi.sending.isNone then .halt s .crashed else s.sendFrom answers (offset + 1)
  | .skip =>
    if s.pi.sending.isNone then .halt s .crashed else .more (s.closeAs answers .skipped)
  | .refuse =>
    if s.pi.sending.isNone then .halt s .crashed else .more (s.closeAs answers .refused)

/-- What the transmitter does with a request of the receiver, for a block size and
under an id. -/
def followRpos (answers : HydraPacketAnswers) (blocksize : Nat) (packetId : Int)
    (meaning : OffsetMeaning) (s : HydraState) : Turn HydraState HydraResult :=
  if 0 < packetId ∧ packetId = s.hi.sendRposId then .more s
  else if s.pi.sending.isNone then .halt s .crashed
  else
    match meaning with
    | .position offset =>
      s.resend answers offset (if 0 < blocksize then hydraAlignBlockSize blocksize else 0) packetId
    | .skip => .more (s.endFile packetId .skipped)
    | .refuse => .more (s.endFile packetId .refused)

/-- What the receiver does at the end of a file. -/
def followEof (answers : HydraPacketAnswers) (isize : Nat) (meaning : OffsetMeaning)
    (s : HydraState) : Turn HydraState HydraResult :=
  if s.rxstate = .data then
    match s.pi.receiving with
    | none => .halt s .crashed
    | some finf =>
      if meaning = .position finf.bytesReceived then s.closeReceived answers
      else .more { s.resync with lastDatapos := meaning.code }
  else if s.rxstate = .skip ∨ s.rxstate = .skipAck then
    match meaning with
    | .position _ => .more { s with rxstate := .skip }
    | .skip | .refuse =>
      match pRxFclose answers.closes s.pi with
      | none => .halt s .crashed
      | some (pi, _) =>
        .more ({ s with pi, recvtimer := false, rxtries := 0, rxstate := .finfo }.queuepkt .eofack [])
  else if isize = 4 ∧ meaning = .refuse then .more (s.queuepkt .eofack [])
  else .more s

variable {s : HydraState} {conf : HydraConf}

/-- The transmitter follows what it reads from a FINFOACK packet. -/
theorem onFinfoack_follows (answers : HydraPacketAnswers) (isize : Nat) (ibuf : Bytes)
    (waits : s.txstate = .finfo ∨ s.txstate = .finfoack) (batch : s.sendEOB = false)
    (complete : 4 ≤ isize) (allowed : OffsetValue (hydraGetlong conf.wide ibuf)) :
    s.onFinfoack conf answers isize ibuf =
      s.followFinfoack answers (offsetMeaning (hydraGetlong conf.wide ibuf)) := by
  unfold onFinfoack followFinfoack
  rw [if_pos waits]
  dsimp only
  rw [if_neg (by simp [batch]), if_neg (Nat.not_lt.mpr complete)]
  generalize hydraGetlong conf.wide ibuf = offs at allowed ⊢
  rcases allowed with position | rfl | rfl
  · obtain ⟨offset, rfl⟩ := Int.eq_ofNat_of_zero_le position
    cases offset with
    | zero => rfl
    | succ offset =>
      have positive : ((offset + 1 : Nat) : Int) ≠ 0 := by omega
      rw [if_neg positive, if_pos (by omega : (0 : Int) < (offset + 1 : Nat))]
      rfl
  · rfl
  · rfl

/-- It follows what it reads from a RPOS packet. -/
theorem onRpos_follows (answers : HydraPacketAnswers) (isize : Nat) (ibuf : Bytes)
    (takes : s.txstate.takesRpos = true) (complete : 10 ≤ isize)
    (allowed : OffsetValue (hydraGetlong conf.wide ibuf)) :
    s.onRpos conf answers isize ibuf =
      s.followRpos answers (hydraGetword (ibuf.drop 4)) (hydraGetlong conf.wide (ibuf.drop 6))
        (offsetMeaning (hydraGetlong conf.wide ibuf)) := by
  unfold onRpos followRpos
  rw [if_pos takes, if_neg (Nat.not_lt.mpr complete)]
  dsimp only
  generalize hydraGetlong conf.wide ibuf = offset at allowed ⊢
  rcases allowed with position | rfl | rfl
  · obtain ⟨value, rfl⟩ := Int.eq_ofNat_of_zero_le position
    rw [if_pos position]
    rfl
  · rfl
  · rfl

/-- The receiver follows what it reads from an EOF packet. -/
theorem onEof_follows (answers : HydraPacketAnswers) (isize : Nat) (ibuf : Bytes)
    (complete : 4 ≤ isize) (allowed : OffsetValue (hydraGetlong conf.wide ibuf)) :
    s.onEof conf answers isize ibuf =
      s.followEof answers isize (offsetMeaning (hydraGetlong conf.wide ibuf)) := by
  have whole : ¬ isize < 4 := Nat.not_lt.mpr complete
  unfold onEof followEof
  dsimp only
  rw [if_neg whole, if_neg whole, code_meaning _ allowed]
  generalize hydraGetlong conf.wide ibuf = pos at allowed ⊢
  rcases allowed with position | rfl | rfl
  · obtain ⟨offset, rfl⟩ := Int.eq_ofNat_of_zero_le position
    have meant : offsetMeaning (offset : Int) = .position offset := by
      unfold offsetMeaning
      rw [if_pos position]
      rfl
    rw [meant, if_pos position]
    have same : ∀ finf : Finfo, ((offset : Int) ≠ finf.bytesReceived) ↔
        ¬ (OffsetMeaning.position offset = .position finf.bytesReceived) := by
      intro finf
      simp
    simp only [same, ite_not, reduceCtorEq, and_false, if_false] <;> rfl
  · have other : ∀ finf : Finfo, (-1 : Int) ≠ finf.bytesReceived := by
      intro finf
      omega
    simp [offsetMeaning, other] <;> rfl
  · have other : ∀ finf : Finfo, (-2 : Int) ≠ finf.bytesReceived := by
      intro finf
      omega
    simp [offsetMeaning, other] <;> rfl

/-! ## What the sender meant -/

/-- A FINFOACK packet with the value is followed as it was meant, wherever it is looked
at. -/
def FinfoackMeant (conf : HydraConf) (value : Int) (tail : Bytes) : Prop :=
  ∀ (s : HydraState) (answers : HydraPacketAnswers) (isize : Nat),
    s.txstate = .finfo ∨ s.txstate = .finfoack → s.sendEOB = false → 4 ≤ isize →
      s.onFinfoack conf answers isize (hydraPutlong value ++ tail) =
        s.followFinfoack answers (offsetMeaning value)

/-- So is a RPOS packet. -/
def RposMeant (conf : HydraConf) (value : Int) (tail : Bytes) : Prop :=
  ∀ (s : HydraState) (answers : HydraPacketAnswers) (isize : Nat),
    s.txstate.takesRpos = true → 10 ≤ isize →
      s.onRpos conf answers isize (hydraPutlong value ++ tail) =
        s.followRpos answers (hydraGetword ((hydraPutlong value ++ tail).drop 4))
          (hydraGetlong conf.wide ((hydraPutlong value ++ tail).drop 6)) (offsetMeaning value)

/-- So is an EOF packet. -/
def EofMeant (conf : HydraConf) (value : Int) (tail : Bytes) : Prop :=
  ∀ (s : HydraState) (answers : HydraPacketAnswers) (isize : Nat), 4 ≤ isize →
    s.onEof conf answers isize (hydraPutlong value ++ tail) =
      s.followEof answers isize (offsetMeaning value)

/-- The sign comes back where a `long` has 32 bits; a position has none to lose. -/
def SignKept (conf : HydraConf) (value : Int) : Prop := conf.wide = false ∨ 0 ≤ value

/-- A value whose sign is kept is read back. -/
theorem seen_kept {value : Int} (tail : Bytes) (allowed : OffsetValue value)
    (inside : value < 2 ^ 31) (kept : SignKept conf value) :
    hydraGetlong conf.wide (hydraPutlong value ++ tail) = value := by
  have low : -(2 ^ 31) ≤ value := by
    rcases allowed with position | rfl | rfl <;> omega
  rw [getlong_putlong conf.wide value tail low inside, if_neg]
  rintro ⟨wide, negative⟩
  rcases kept with narrow | position
  · exact absurd (wide.symm.trans narrow) (by decide)
  · omega

/-- A value whose sign is lost is read as a position. -/
theorem seen_lost {value : Int} (tail : Bytes) (allowed : OffsetValue value)
    (inside : value < 2 ^ 31) (lost : ¬ SignKept conf value) :
    ∃ offset, hydraGetlong conf.wide (hydraPutlong value ++ tail) = (offset + 1 : Nat) ∧
      (offsetMeaning value = .skip ∨ offsetMeaning value = .refuse) := by
  have negative : ¬ 0 ≤ value := fun position => lost (.inr position)
  have wide : conf.wide = true := by
    cases width : conf.wide
    · exact absurd (.inl width) lost
    · rfl
  have low : -(2 ^ 31) ≤ value := by
    rcases allowed with position | rfl | rfl <;> omega
  rw [getlong_putlong conf.wide value tail low inside, if_pos ⟨wide, by omega⟩]
  refine ⟨(value + 2 ^ 32 - 1).toNat, by omega, ?_⟩
  unfold offsetMeaning
  rw [if_neg negative]
  split
  · exact .inl rfl
  · exact .inr rfl

/-- A position is meant as one. -/
theorem meaning_position (offset : Nat) : offsetMeaning offset = .position offset := by
  unfold offsetMeaning
  rw [if_pos (Int.natCast_nonneg offset), Int.toNat_natCast]

/-- A letter on the line, and a batch that is sending it or receiving it. -/
def letterOpen (txstate : HydraTxstate) (rxstate : HydraRxstate) : HydraState :=
  let sent : Finfo :=
    { fp := some ⟨ascii "letter", 0⟩, netName := ascii "a", modTime := 0, bytesTotal := 6 }
  let received : Finfo :=
    { netName := ascii "b", modTime := 0, bytesTotal := 6, status := .skipped }
  { hi := {}
    pi :=
      { lists := ⟨[], [], false⟩
        sentfiles := [sent]
        send := some 0
        rcvdfiles := [received]
        recv := some 0 }
    txstate
    rxstate }

/-- What is followed as two meanings goes to two states. -/
theorem not_followed {taken meant : Turn HydraState HydraResult} (field : HydraState → α)
    (here there : α) (same : taken = meant) (goes : taken.Leaves fun s => field s = here)
    (should : meant.Leaves fun s => field s = there) (differ : here ≠ there) : False := by
  subst same
  cases taken <;> exact differ (goes.symm.trans should)

/-- A FINFOACK packet is followed as it was meant if and only if the sign is kept. -/
theorem finfoackMeant_iff (value : Int) (tail : Bytes) (allowed : OffsetValue value)
    (inside : value < 2 ^ 31) : FinfoackMeant conf value tail ↔ SignKept conf value := by
  constructor
  · intro meant
    by_contra lost
    obtain ⟨offset, seen, other⟩ := seen_lost tail allowed inside lost
    have taken := meant (letterOpen .finfoack .init) {} 4 (.inr rfl) rfl (by decide)
    rw [onFinfoack_follows {} 4 _ (.inr rfl) rfl (by decide) (.inl (by omega)), seen,
      meaning_position] at taken
    refine not_followed HydraState.txstate .data .nextFile taken rfl ?_ (by decide)
    rcases other with skip | refuse
    · rw [skip]
      rfl
    · rw [refuse]
      rfl
  · intro kept s answers isize waits batch complete
    have seen := seen_kept tail allowed inside kept
    rw [onFinfoack_follows answers isize _ waits batch complete (by rwa [seen]), seen]

/-- So is a RPOS packet. -/
theorem rposMeant_iff (value : Int) (tail : Bytes) (allowed : OffsetValue value)
    (inside : value < 2 ^ 31) : RposMeant conf value tail ↔ SignKept conf value := by
  constructor
  · intro meant
    by_contra lost
    obtain ⟨offset, seen, ended⟩ := seen_lost tail allowed inside lost
    have taken := meant (letterOpen .data .init) {} 10 rfl (by decide)
    rw [onRpos_follows {} 10 _ rfl (by decide) (.inl (by omega)), seen, meaning_position] at taken
    generalize hydraGetlong conf.wide _ = packetId at taken
    have other : ¬ (0 < packetId ∧ packetId = (letterOpen .data .init).hi.sendRposId) := by
      rintro ⟨positive, rfl⟩
      exact absurd positive (by decide)
    unfold followRpos at taken
    rw [if_neg other, if_neg other] at taken
    refine not_followed HydraState.txstate .data .eof taken rfl ?_ (by decide)
    rcases ended with skip | refuse
    · rw [skip]
      rfl
    · rw [refuse]
      rfl
  · intro kept s answers isize takes complete
    have seen := seen_kept tail allowed inside kept
    rw [onRpos_follows answers isize _ takes complete (by rwa [seen]), seen]

/-- So is an EOF packet. -/
theorem eofMeant_iff (value : Int) (tail : Bytes) (allowed : OffsetValue value)
    (inside : value < 2 ^ 31) : EofMeant conf value tail ↔ SignKept conf value := by
  constructor
  · intro meant
    by_contra lost
    obtain ⟨offset, seen, other⟩ := seen_lost tail allowed inside lost
    have taken := meant (letterOpen .finfoack .skipAck) {} 4 (by decide)
    rw [onEof_follows {} 4 _ (by decide) (.inl (by omega)), seen, meaning_position] at taken
    refine not_followed HydraState.rxstate .skip .finfo taken rfl ?_ (by decide)
    rcases other with skip | refuse
    · rw [skip]
      rfl
    · rw [refuse]
      rfl
  · intro kept s answers isize complete
    have seen := seen_kept tail allowed inside kept
    rw [onEof_follows answers isize _ complete (by rwa [seen]), seen]

/-- For every value the protocol sends as an offset, each of the three packets is
followed as it was meant if and only if a `long` has 32 bits or the value is a
position. -/
theorem offsets_meant_iff (conf : HydraConf) (value : Int) (tail : Bytes)
    (allowed : OffsetValue value) (inside : value < 2 ^ 31) :
    (FinfoackMeant conf value tail ↔ conf.wide = false ∨ 0 ≤ value) ∧
      (RposMeant conf value tail ↔ conf.wide = false ∨ 0 ≤ value) ∧
      (EofMeant conf value tail ↔ conf.wide = false ∨ 0 ≤ value) :=
  ⟨finfoackMeant_iff value tail allowed inside, rposMeant_iff value tail allowed inside,
    eofMeant_iff value tail allowed inside⟩

/-- Where a `long` has 32 bits, a refusal is followed as one. -/
theorem refusal_meant :
    FinfoackMeant (hydraConf false) (-2) [] ∧ RposMeant (hydraConf false) (-2) [] ∧
      EofMeant (hydraConf false) (-2) [] :=
  have meant := offsets_meant_iff (hydraConf false) (-2) [] (.inr (.inr rfl)) (by decide)
  ⟨meant.1.mpr (.inl rfl), meant.2.1.mpr (.inl rfl), meant.2.2.mpr (.inl rfl)⟩

/-- Where it has 64, neither a refusal nor a skip is: a refused announcement makes the
transmitter send the file from a position behind its end. -/
theorem refusal_resumed :
    (¬ FinfoackMeant (hydraConf true) (-2) [] ∧ ¬ RposMeant (hydraConf true) (-1) [] ∧
        ¬ EofMeant (hydraConf true) (-2) []) ∧
      (run (HydraState.step (hydraConf true)) sendsLetter refusesAnnouncement).Leaves fun s =>
        s.txstate = .data ∧ s.pi.sending.map (·.bytesSent) = some 4294967294 := by
  have lost : ∀ value, value < 0 → ¬ SignKept (hydraConf true) value := by
    rintro value negative (narrow | position)
    · exact absurd narrow (by decide)
    · omega
  refine ⟨⟨?_, ?_, ?_⟩, by decide⟩
  · rw [finfoackMeant_iff (-2) [] (.inr (.inr rfl)) (by decide)]
    exact lost _ (by decide)
  · rw [rposMeant_iff (-1) [] (.inr (.inl rfl)) (by decide)]
    exact lost _ (by decide)
  · rw [eofMeant_iff (-2) [] (.inr (.inr rfl)) (by decide)]
    exact lost _ (by decide)

end HydraState

end Binkleyforce
