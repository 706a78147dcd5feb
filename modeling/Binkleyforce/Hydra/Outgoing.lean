import Binkleyforce.Hydra.Encoding
import Binkleyforce.Library.Runs

/-!
# What Hydra writes to the line

Control packets are encoded and queued; a packet of data is encoded into the output
buffer where nothing else is to be sent. `hydra_send` moves queued packets into the buffer
when that is empty and writes from it what the line takes. The records keep what was
written and the packets that were encoded, in this order.
-/

namespace Binkleyforce

open Library

/-- `HYDRA_MAXBLKLEN`. -/
def hydraMaxblklen : Nat := 2048

/-- `HYDRA_OVERHEAD`. -/
def hydraOverhead : Nat := 8

/-- `s_hydrapkt`. The memory of a packet that was moved to the buffer is freed. -/
structure HydraQueued where
  sent : Bool := false
  type : HydraPkttype
  data : Option Bytes
  size : Nat
  deriving DecidableEq, Repr

/-- What `s_hydrainfo` holds for sending. The unsent bytes are the `oencpos` bytes from
`oencptr` on; the queue is NULL where it has no packets. -/
structure HydraOutgoing where
  txoptions : Nat
  lastchar : Int := -1
  oencbuf : Bytes := List.replicate hydraBuflen 0
  oencptr : Nat := 0
  oencpos : Nat := 0
  pktqueue : List HydraQueued := []
  line : Bytes := []
  encoded : List Bytes := []
  deriving DecidableEq, Repr

/-- What `hydra_batch` asks of the sending: to queue a packet, with the byte that stands
behind it in its memory; to send a block of a file, which is no longer than the largest
block; to use the options agreed on; and to send, with the answer of `tty_write`. -/
inductive HydraCall where
  | queuepkt (type : HydraPkttype) (data : Bytes) (behind : UInt8)
  | block (offset : Int) (data : Bytes) (behind : UInt8) (short : data.length ≤ hydraMaxblklen)
  | agree (txoptions : Nat)
  | send (written : Int)

/-- A packet with more data than an assertion admits. -/
def HydraCall.Overlong : HydraCall → Prop
  | queuepkt _ data _ => hydraMaxblklen < data.length
  | _ => False

/-- How the sending ends: at an assertion, or with an error of the line. -/
inductive HydraStop where
  | aborted
  | failed
  deriving DecidableEq, Repr

/-- Put bytes into memory. -/
def overwrite (memory : Bytes) (pos : Nat) (bytes : Bytes) : Bytes :=
  memory.take pos ++ bytes ++ memory.drop (pos + bytes.length)

namespace HydraOutgoing

/-- Encode a packet. -/
def putpkt (o : HydraOutgoing) (type : HydraPkttype) (data : Bytes) (behind : UInt8) :
    HydraOutgoing × Bytes :=
  let (bytes, lastchar) := hydraPutpkt o.txoptions o.lastchar behind type data
  ({ o with lastchar, encoded := o.encoded ++ [bytes] }, bytes)

/-- `hydra_queuepkt`. -/
def queuepkt (o : HydraOutgoing) (type : HydraPkttype) (data : Bytes) (behind : UInt8) :
    Turn HydraOutgoing HydraStop :=
  if hydraMaxblklen < data.length then .halt o .aborted
  else
    let (o, buffer) := o.putpkt type data behind
    if (if data.isEmpty then hydraOverhead * 3 else hydraBuflen) < buffer.length then
      .halt o .aborted
    else
      .more { o with pktqueue := o.pktqueue ++ [⟨false, type, some buffer, buffer.length⟩] }

/-- The sending of a block of a file: nothing happens while something else is to be
sent. -/
def block (o : HydraOutgoing) (offset : Int) (data : Bytes) (behind : UInt8) : HydraOutgoing :=
  if o.oencpos = 0 && o.pktqueue.isEmpty && !data.isEmpty then
    let (o, bytes) := o.putpkt .data (hydraPutlong offset ++ data) behind
    { o with oencbuf := overwrite o.oencbuf 0 bytes, oencpos := bytes.length }
  else o

/-- `hydra_buffer_packet`: the buffer, its length and the packet, unless the packet does
not fit. -/
def bufferPacket (oencbuf : Bytes) (oencpos : Nat) (pkt : HydraQueued) :
    Option (Bytes × Nat × HydraQueued) :=
  if hydraBuflen < oencpos + pkt.size then none
  else
    match pkt.data with
    | none => some (oencbuf, oencpos, pkt)
    | some data =>
      some (overwrite oencbuf oencpos data, oencpos + pkt.size, { pkt with data := none })

/-- The loop of `hydra_send` over the queue, and whether it got to its end. -/
def bufferQueue : Bytes → Nat → List HydraQueued → (Bytes × Nat) × List HydraQueued × Bool
  | oencbuf, oencpos, [] => ((oencbuf, oencpos), [], true)
  | oencbuf, oencpos, pkt :: rest =>
    if pkt.sent then
      let (buffered, queue, all) := bufferQueue oencbuf oencpos rest
      (buffered, pkt :: queue, all)
    else
      match bufferPacket oencbuf oencpos pkt with
      | none => ((oencbuf, oencpos), pkt :: rest, false)
      | some (oencbuf, oencpos, pkt) =>
        let (buffered, queue, all) := bufferQueue oencbuf oencpos rest
        (buffered, { pkt with sent := true } :: queue, all)

/-- The part of `hydra_send` that fills the buffer. -/
def fill (o : HydraOutgoing) : HydraOutgoing :=
  if o.oencpos = 0 && !o.pktqueue.isEmpty then
    let ((oencbuf, oencpos), queue, all) := bufferQueue o.oencbuf o.oencpos o.pktqueue
    { o with oencbuf, oencpos, pktqueue := if all then [] else queue }
  else o

/-- The bytes that are still to be written from the buffer. -/
def unsent (o : HydraOutgoing) : Bytes := (o.oencbuf.drop o.oencptr).take o.oencpos

/-- The part of `hydra_send` that writes to the line. -/
def flush (written : Int) (o : HydraOutgoing) : Turn HydraOutgoing HydraStop :=
  if o.oencpos = 0 then .more o
  else if (o.oencpos : Int) ≤ written then
    .more { o with line := o.line ++ o.unsent, oencptr := 0, oencpos := 0 }
  else if 0 < written then
    .more { o with
      line := o.line ++ o.unsent.take written.toNat
      oencptr := o.oencptr + written.toNat
      oencpos := o.oencpos - written.toNat }
  else .halt o .failed

/-- `hydra_send`. -/
def send (o : HydraOutgoing) (written : Int) : Turn HydraOutgoing HydraStop := o.fill.flush written

/-- What a call does. -/
def step (o : HydraOutgoing) : HydraCall → Turn HydraOutgoing HydraStop
  | .queuepkt type data behind => o.queuepkt type data behind
  | .block offset data behind _ => .more (o.block offset data behind)
  | .agree txoptions => .more { o with txoptions }
  | .send written => o.send written

/-! ## The sizes of packets -/

theorem hydraPutbinblock_short (options : Nat) (lastchar : Int) (src : Bytes) :
    (hydraPutbinblock options lastchar src).1.length ≤ 2 * src.length := by
  induction src generalizing lastchar with
  | nil => exact Nat.le_refl 0
  | cons c src inductionHypothesis =>
    have rest := inductionHypothesis (hydraPutbinbyte options lastchar c).2
    have byte : (hydraPutbinbyte options lastchar c).1.length ≤ 2 := by
      unfold hydraPutbinbyte
      dsimp only
      repeat' split
      all_goals simp
    simp only [hydraPutbinblock, List.length_append, List.length_cons]
    omega

theorem hexblock_short (src : Bytes) : (src.flatMap hydraPuthexbyte).length ≤ 3 * src.length := by
  induction src with
  | nil => exact Nat.le_refl 0
  | cons c src inductionHypothesis =>
    have byte : (hydraPuthexbyte c).length ≤ 3 := by
      unfold hydraPuthexbyte
      repeat' split
      all_goals simp
    simp only [List.flatMap_cons, List.length_append, List.length_cons]
    omega

/-- Eight bits go into characters of seven. -/
theorem ascChars_length (ch bitshift : Nat) (small : bitshift < 7) (src : Bytes) :
    7 * (ascChars ch bitshift src).length ≤ 8 * src.length + bitshift + 6 := by
  induction src generalizing ch bitshift with
  | nil =>
    unfold ascChars
    split
    · simp only [List.length_cons, List.length_nil]
      omega
    · simp only [List.length_nil]
      omega
  | cons c src inductionHypothesis =>
    unfold ascChars
    dsimp only
    split
    · have rest := inductionHypothesis 0 0 (by decide)
      simp only [List.length_cons]
      omega
    · have rest := inductionHypothesis ((ch ||| c.toNat <<< bitshift) >>> 7) (bitshift + 1)
        (by omega)
      simp only [List.length_cons]
      omega

theorem uueblock_short (behind : UInt8) (src : Bytes) :
    (hydraPutuueblock behind src).length ≤ 2 * src.length := by
  induction src using hydraPutuueblock.induct with
  | case1 first second third src inductionHypothesis =>
    simp only [hydraPutuueblock, List.length_cons]
    omega
  | case2 first second => simp [hydraPutuueblock]
  | case3 first => simp [hydraPutuueblock]
  | case4 => exact Nat.le_refl 0

/-- A packet is short: three characters for a byte are needed only with the short check
sum. -/
theorem hydraPutpkt_length (options : Nat) (lastchar : Int) (behind : UInt8) (type : HydraPkttype)
    (src : Bytes) :
    4 ≤ (hydraPutpkt options lastchar behind type src).1.length ∧
      (hydraPutpkt options lastchar behind type src).1.length ≤
        max (3 * (src.length + 3)) (16 * (src.length + 5) / 7 + 2) + 6 := by
  have body : (hydraBody options type src).length =
      src.length + 1 + if longCrc options (hydraFormat options type) then 4 else 2 := by
    unfold hydraBody crc32Bytes crc16Bytes
    split <;> simp
  have inner : (hydraEncode options lastchar behind (hydraFormat options type)
      (hydraBody options type src)).1.length ≤
        max (3 * (src.length + 3)) (16 * (src.length + 5) / 7 + 2) := by
    have most : (hydraBody options type src).length ≤ src.length + 5 := by
      rw [body]
      split <;> omega
    cases format : hydraFormat options type with
    | bin =>
      have bytes := hydraPutbinblock_short options lastchar (hydraBody options type src)
      simp only [hydraEncode]
      omega
    | hex =>
      have bytes := hexblock_short (hydraBody options type src)
      rw [format] at body
      simp only [longCrc, ne_eq, not_true_eq_false, decide_false, Bool.false_and,
        Bool.false_eq_true, if_false] at body
      simp only [hydraEncode]
      omega
    | asc =>
      have chars := ascChars_length 0 0 (by decide) (hydraBody options type src)
      have bytes := hydraPutbinblock_short options lastchar (ascChars 0 0 (hydraBody options type src))
      simp only [hydraEncode, hydraPutascblock]
      omega
    | uue =>
      have bytes := uueblock_short behind (hydraBody options type src)
      simp only [hydraEncode]
      omega
  unfold hydraPutpkt
  dsimp only
  simp only [List.length_append, List.length_cons, List.length_nil]
  split
  · simp only [List.length_cons, List.length_nil]
    omega
  · simp only [List.length_nil]
    omega

/-! ## The bytes that are still to be written -/

/-- The bytes of the queued packets. -/
def queued (queue : List HydraQueued) : Bytes := queue.flatMap fun pkt => pkt.data.getD []

/-- A queued packet is whole and fits the buffer; one that was moved has no memory. -/
structure Whole (pkt : HydraQueued) : Prop where
  moved : pkt.sent = true → pkt.data = none
  waits : pkt.sent = false → ∃ bytes, pkt.data = some bytes ∧ pkt.size = bytes.length ∧
    0 < bytes.length ∧ bytes.length ≤ hydraBuflen

/-- What is put into memory that holds it stands there, and what was before stays. -/
theorem overwrite_take (memory : Bytes) (pos : Nat) (bytes : Bytes)
    (inside : pos + bytes.length ≤ memory.length) :
    (overwrite memory pos bytes).take (pos + bytes.length) = memory.take pos ++ bytes ∧
      (overwrite memory pos bytes).length = memory.length := by
  have front : (memory.take pos ++ bytes).length = pos + bytes.length := by
    rw [List.length_append, List.length_take]
    omega
  refine ⟨?_, ?_⟩
  · unfold overwrite
    rw [← front, List.take_left]
  · unfold overwrite
    rw [List.length_append, front, List.length_drop]
    omega

/-- The loop moves bytes from the queue to the end of the buffer. Where it gets to the end
of the queue nothing is left there.

Induct over the queue; the packets that were moved stay in it as marked. -/
theorem bufferQueue_moves (oencbuf : Bytes) (oencpos : Nat) (queue : List HydraQueued)
    (memory : oencbuf.length = hydraBuflen) (inside : oencpos ≤ hydraBuflen)
    (whole : ∀ pkt ∈ queue, Whole pkt) :
    let after := bufferQueue oencbuf oencpos queue
    after.1.1.length = hydraBuflen ∧ after.1.2 ≤ hydraBuflen ∧ oencpos ≤ after.1.2 ∧
      after.1.1.take after.1.2 ++ queued after.2.1 = oencbuf.take oencpos ++ queued queue ∧
      (∀ pkt ∈ after.2.1, Whole pkt) ∧ (after.2.2 = true → queued after.2.1 = []) := by
  induction queue generalizing oencbuf oencpos with
  | nil => exact ⟨memory, inside, Nat.le_refl _, rfl, nofun, fun _ => rfl⟩
  | cons pkt rest inductionHypothesis =>
    have first := whole pkt List.mem_cons_self
    have others : ∀ other ∈ rest, Whole other := fun other member =>
      whole other (List.mem_cons_of_mem _ member)
    unfold bufferQueue
    dsimp only
    by_cases sent : pkt.sent = true
    · rw [if_pos sent]
      obtain ⟨length, bound, grows, same, kept, all⟩ :=
        inductionHypothesis oencbuf oencpos memory inside others
      have none_left : ∀ queue, queued (pkt :: queue) = queued queue := by
        intro queue
        simp [queued, first.moved sent]
      refine ⟨length, bound, grows, ?_, ?_, ?_⟩
      · dsimp only
        rw [none_left, none_left, same]
      · intro other member
        rcases List.mem_cons.mp member with rfl | member
        · exact first
        · exact kept other member
      · dsimp only
        rw [none_left]
        exact all
    · rw [if_neg sent]
      obtain ⟨bytes, data, size, _, _⟩ := first.waits (by simpa using sent)
      unfold bufferPacket
      by_cases full : hydraBuflen < oencpos + pkt.size
      · rw [if_pos full]
        exact ⟨memory, inside, Nat.le_refl _, rfl, whole, nofun⟩
      · rw [if_neg full, data]
        dsimp only
        obtain ⟨stands, still⟩ := overwrite_take oencbuf oencpos bytes (by omega)
        obtain ⟨length, bound, grows, same, kept, all⟩ :=
          inductionHypothesis (overwrite oencbuf oencpos bytes) (oencpos + pkt.size)
            (still.trans memory) (by omega) others
        have moved : ∀ queue, queued ({ pkt with sent := true, data := none } :: queue) =
            queued queue := by
          intro queue
          simp [queued]
        refine ⟨length, bound, by omega, ?_, ?_, ?_⟩
        · rw [moved, same, size, stands]
          simp [queued, data]
        · intro other member
          rcases List.mem_cons.mp member with rfl | member
          · exact ⟨fun _ => rfl, nofun⟩
          · exact kept other member
        · rw [moved]
          exact all

/-- A queue with something in it fills an empty buffer.

Induct over the queue, up to the first packet that was not moved. -/
theorem bufferQueue_fills (oencbuf : Bytes) (queue : List HydraQueued)
    (memory : oencbuf.length = hydraBuflen) (whole : ∀ pkt ∈ queue, Whole pkt)
    (some_wait : queued queue ≠ []) : 0 < (bufferQueue oencbuf 0 queue).1.2 := by
  induction queue with
  | nil => exact absurd rfl some_wait
  | cons pkt rest inductionHypothesis =>
    have first := whole pkt List.mem_cons_self
    have others : ∀ other ∈ rest, Whole other := fun other member =>
      whole other (List.mem_cons_of_mem _ member)
    unfold bufferQueue
    dsimp only
    by_cases sent : pkt.sent = true
    · rw [if_pos sent]
      refine inductionHypothesis others ?_
      intro none_left
      refine some_wait ?_
      simpa [queued, first.moved sent] using none_left
    · rw [if_neg sent]
      obtain ⟨bytes, data, size, some_bytes, fits⟩ := first.waits (by simpa using sent)
      unfold bufferPacket
      rw [if_neg (by omega), data]
      dsimp only
      obtain ⟨_, still⟩ := overwrite_take oencbuf 0 bytes (by omega)
      have grows := (bufferQueue_moves (overwrite oencbuf 0 bytes) (0 + pkt.size) rest
        (still.trans memory) (by omega) others).2.2.1
      omega

/-- What the sending keeps: all that was encoded is written, or in the buffer, or queued,
in this order, and the buffer holds what is in it. -/
structure Streams (o : HydraOutgoing) : Prop where
  stream : o.line ++ o.unsent ++ queued o.pktqueue = o.encoded.flatten
  memory : o.oencbuf.length = hydraBuflen
  inside : o.oencptr + o.oencpos ≤ hydraBuflen
  begins : o.oencpos = 0 → o.oencptr = 0
  whole : ∀ pkt ∈ o.pktqueue, Whole pkt

/-- How many bytes are still to be written. -/
def left (o : HydraOutgoing) : Nat := o.oencpos + (queued o.pktqueue).length

/-- Filling the buffer keeps the stream, and puts something into the buffer where
anything is to be sent. -/
theorem fill_streams (o : HydraOutgoing) (streams : Streams o) :
    Streams o.fill ∧ o.fill.line = o.line ∧ o.fill.encoded = o.encoded ∧ o.fill.left = o.left ∧
      (o.fill.oencpos = 0 → o.left = 0) := by
  unfold fill
  by_cases wanted : (o.oencpos = 0 && !o.pktqueue.isEmpty) = true
  · rw [if_pos wanted]
    simp only [Bool.and_eq_true, decide_eq_true_eq] at wanted
    have empty := wanted.1
    have start := streams.begins empty
    obtain ⟨length, bound, _, same, kept, all⟩ :=
      bufferQueue_moves o.oencbuf o.oencpos o.pktqueue streams.memory (by omega) streams.whole
    have fills := bufferQueue_fills o.oencbuf o.pktqueue streams.memory streams.whole
    rw [empty] at same length bound kept all ⊢
    generalize bufferQueue o.oencbuf 0 o.pktqueue = after at *
    obtain ⟨⟨oencbuf, oencpos⟩, queue, done⟩ := after
    dsimp only at *
    have remains : queued (if done then [] else queue) = queued queue := by
      cases done with
      | true => exact (all rfl).symm
      | false => rfl
    have moved : oencbuf.take oencpos ++ queued queue = queued o.pktqueue := by
      simpa using same
    have lengths : oencpos + (queued queue).length = (queued o.pktqueue).length := by
      rw [← moved, List.length_append, List.length_take]
      omega
    have before := streams.stream
    unfold unsent at before
    rw [empty, List.take_zero, List.append_nil] at before
    refine ⟨⟨?_, length, ?_, fun _ => start, ?_⟩, rfl, rfl, ?_, ?_⟩
    · unfold unsent
      dsimp only
      rw [remains, start, List.drop_zero, List.append_assoc, moved]
      exact before
    · dsimp only
      omega
    · dsimp only
      cases done with
      | true => exact nofun
      | false => exact kept
    · unfold left
      dsimp only
      rw [remains, empty]
      omega
    · intro nothing
      unfold left
      rw [empty]
      by_contra some_left
      have some_wait : queued o.pktqueue ≠ [] := by
        intro none_left
        rw [none_left] at some_left
        exact some_left rfl
      exact absurd (fills some_wait) (by omega)
  · rw [if_neg wanted]
    refine ⟨streams, rfl, rfl, rfl, fun empty => ?_⟩
    have none_queued : o.pktqueue = [] := by simpa [empty] using wanted
    unfold left
    rw [empty, none_queued]
    rfl

/-- Writing from the buffer keeps the stream, and gets on where the line takes bytes. -/
theorem flush_streams (o : HydraOutgoing) (written : Int) (streams : Streams o) :
    (o.flush written).Ends
      (fun after => Streams after ∧ after.encoded = o.encoded ∧
        (o.oencpos ≠ 0 → 0 < written → after.left < o.left) ∧
        (o.oencpos = 0 → after = o))
      (fun final stop => final = o ∧ stop = .failed ∧ ¬ 0 < written) := by
  unfold flush
  have length : o.unsent.length = o.oencpos := by
    have memory := streams.memory
    have inside := streams.inside
    unfold unsent
    rw [List.length_take, List.length_drop]
    omega
  split
  · rename_i empty
    exact ⟨streams, rfl, fun some_left => absurd empty some_left, fun _ => rfl⟩
  · rename_i some_left
    split
    · refine ⟨⟨?_, streams.memory, Nat.zero_le _, fun _ => rfl, streams.whole⟩, rfl, ?_, ?_⟩
      · rw [← streams.stream]
        simp [unsent]
      · intro _ _
        unfold left
        dsimp only
        omega
      · exact fun empty => absurd empty some_left
    · rename_i short
      split
      · rename_i some_written
        obtain ⟨count, rfl⟩ := Int.eq_ofNat_of_zero_le (Int.le_of_lt some_written)
        rw [Int.toNat_natCast]
        refine ⟨⟨?_, streams.memory, ?_, ?_, streams.whole⟩, rfl, ?_, ?_⟩
        · have rest : o.unsent.drop count =
              (o.oencbuf.drop (o.oencptr + count)).take (o.oencpos - count) := by
            unfold unsent
            rw [List.drop_take, List.drop_drop]
          rw [← streams.stream]
          unfold unsent at rest ⊢
          dsimp only
          rw [← rest, List.append_assoc o.line, List.take_append_drop]
        · have inside := streams.inside
          dsimp only
          omega
        · intro empty
          dsimp only at empty
          omega
        · intro _ _
          unfold left
          dsimp only
          omega
        · exact fun empty => absurd empty some_left
      · rename_i none_written
        exact ⟨rfl, rfl, none_written⟩

/-- Sending keeps the stream. Where the line takes bytes it does not fail, and fewer are
left. -/
theorem send_streams (o : HydraOutgoing) (written : Int) (streams : Streams o) :
    (o.send written).Ends
      (fun after => Streams after ∧ after.encoded = o.encoded ∧
        (0 < written → after.left ≤ o.left - 1))
      (fun final stop => Streams final ∧ stop = .failed ∧ ¬ 0 < written) := by
  obtain ⟨filled, _, encoded, same, nothing⟩ := fill_streams o streams
  have flushed := flush_streams o.fill written filled
  unfold send
  cases sent : o.fill.flush written with
  | more after =>
    rw [sent] at flushed
    obtain ⟨kept, still, fewer, unchanged⟩ := flushed
    refine ⟨kept, still.trans encoded, fun some_written => ?_⟩
    by_cases empty : o.fill.oencpos = 0
    · have none_left := nothing empty
      rw [unchanged empty]
      omega
    · have less := fewer empty some_written
      omega
  | halt final stop =>
    rw [sent] at flushed
    obtain ⟨rfl, failed, none_written⟩ := flushed
    exact ⟨filled, failed, none_written⟩

/-- Encoding a packet does not touch the buffer, the queue or the line. -/
theorem putpkt_streams (o : HydraOutgoing) (type : HydraPkttype) (data : Bytes) (behind : UInt8) :
    let after := o.putpkt type data behind
    after.1.encoded = o.encoded ++ [after.2] ∧ 4 ≤ after.2.length ∧
      after.2.length ≤ max (3 * (data.length + 3)) (16 * (data.length + 5) / 7 + 2) + 6 ∧
      after.1.line = o.line ∧ after.1.unsent = o.unsent ∧ after.1.pktqueue = o.pktqueue ∧
      after.1.oencbuf = o.oencbuf ∧ after.1.oencptr = o.oencptr ∧ after.1.oencpos = o.oencpos := by
  obtain ⟨least, most⟩ := hydraPutpkt_length o.txoptions o.lastchar behind type data
  exact ⟨rfl, least, most, rfl, rfl, rfl, rfl, rfl, rfl⟩

/-- Queueing a packet keeps the stream; only a packet that is too long aborts. -/
theorem queuepkt_streams (o : HydraOutgoing) (type : HydraPkttype) (data : Bytes) (behind : UInt8)
    (streams : Streams o) :
    (o.queuepkt type data behind).Ends Streams
      (fun final stop => Streams final ∧ stop = .aborted ∧ hydraMaxblklen < data.length) := by
  unfold queuepkt
  split
  · rename_i overlong
    exact ⟨streams, rfl, overlong⟩
  · rename_i short
    obtain ⟨encoded, least, most, line, unsent, queue, memory, ptr, pos⟩ :=
      putpkt_streams o type data behind
    generalize o.putpkt type data behind = after at *
    obtain ⟨after, buffer⟩ := after
    dsimp only at *
    have fits : ¬ (if data.isEmpty then hydraOverhead * 3 else hydraBuflen) < buffer.length := by
      unfold hydraMaxblklen at short
      unfold hydraOverhead hydraBuflen hydraMaxdatalen
      cases data with
      | nil =>
        simp only [List.isEmpty_nil, if_true]
        simp only [List.length_nil] at most
        omega
      | cons first rest =>
        simp only [List.isEmpty_cons, Bool.false_eq_true, if_false]
        omega
    have small : buffer.length ≤ hydraBuflen := by
      unfold hydraMaxblklen at short
      unfold hydraBuflen hydraMaxdatalen
      omega
    rw [if_neg fits]
    refine ⟨?_, memory ▸ streams.memory, by simpa [ptr, pos] using streams.inside,
      by simpa [ptr, pos] using streams.begins, ?_⟩
    · have more : queued (after.pktqueue ++ [⟨false, type, some buffer, buffer.length⟩]) =
          queued o.pktqueue ++ buffer := by
        simp [queued, queue]
      show after.line ++ after.unsent ++ queued (after.pktqueue ++ _) = after.encoded.flatten
      rw [more, encoded, line, unsent, List.flatten_append, ← streams.stream]
      simp
    · intro pkt member
      rcases List.mem_append.mp member with earlier | new
      · exact streams.whole pkt (queue ▸ earlier)
      · obtain rfl := List.mem_singleton.mp new
        exact ⟨nofun, fun _ => ⟨buffer, rfl, rfl, by omega, small⟩⟩

/-- A block of a file is encoded into the buffer only where that is free. -/
theorem block_streams (o : HydraOutgoing) (offset : Int) (data : Bytes) (behind : UInt8)
    (short : data.length ≤ hydraMaxblklen) (streams : Streams o) :
    Streams (o.block offset data behind) := by
  unfold block
  split
  · rename_i free
    simp only [Bool.and_eq_true, decide_eq_true_eq, List.isEmpty_iff] at free
    obtain ⟨⟨empty, none_queued⟩, _⟩ := free
    have start := streams.begins empty
    have length : (hydraPutlong offset ++ data).length = 4 + data.length := by
      rw [List.length_append]
      rfl
    obtain ⟨encoded, least, most, line, unsent, queue, memory, ptr, pos⟩ :=
      putpkt_streams o .data (hydraPutlong offset ++ data) behind
    generalize o.putpkt .data (hydraPutlong offset ++ data) behind = after at *
    obtain ⟨after, bytes⟩ := after
    dsimp only at *
    have small : bytes.length ≤ hydraBuflen := by
      unfold hydraMaxblklen at short
      unfold hydraBuflen hydraMaxdatalen
      omega
    obtain ⟨stands, still⟩ := overwrite_take o.oencbuf 0 bytes (by rw [streams.memory]; omega)
    have before := streams.stream
    have nothing : o.unsent = [] := by
      unfold HydraOutgoing.unsent
      rw [empty, List.take_zero]
    rw [nothing, none_queued] at before
    refine ⟨?_, ?_, ?_, fun _ => ptr.trans start, fun pkt member => ?_⟩
    · have unsent_now : HydraOutgoing.unsent
          { after with oencbuf := overwrite after.oencbuf 0 bytes, oencpos := bytes.length } =
          bytes := by
        unfold HydraOutgoing.unsent
        dsimp only
        rw [ptr, start, memory, List.drop_zero]
        simpa using stands
      rw [unsent_now]
      dsimp only
      rw [encoded, line, queue, none_queued, List.flatten_append, ← before]
      simp [queued]
    · dsimp only
      rw [memory, still]
      exact streams.memory
    · dsimp only
      omega
    · have member : pkt ∈ after.pktqueue := member
      rw [queue, none_queued] at member
      cases member
  · exact streams

/-- Where the line takes bytes in as many calls as there are bytes left, all is written.

Induct over the calls, as each leaves fewer bytes. -/
theorem drained (answers : List Int) (takes : ∀ written ∈ answers, 0 < written)
    (o : HydraOutgoing) (streams : Streams o) (enough : o.left ≤ answers.length) :
    ∃ last, run step o (answers.map .send) = .more last ∧ last.encoded = o.encoded ∧
      last.line = o.encoded.flatten := by
  induction answers generalizing o with
  | nil =>
    refine ⟨o, rfl, rfl, ?_⟩
    have none_left : o.left = 0 := Nat.le_zero.mp enough
    unfold left at none_left
    have nothing : queued o.pktqueue = [] := List.eq_nil_of_length_eq_zero (by omega)
    have empty : o.unsent = [] := by
      unfold unsent
      rw [show o.oencpos = 0 by omega, List.take_zero]
    rw [← streams.stream, empty, nothing]
    simp
  | cons written answers inductionHypothesis =>
    have sent := send_streams o written streams
    rw [List.map_cons, run_cons]
    show ∃ last, (o.send written).andThen _ = .more last ∧ _
    cases taken : o.send written with
    | more next =>
      rw [taken] at sent
      obtain ⟨kept, same, fewer⟩ := sent
      have less := fewer (takes written List.mem_cons_self)
      rw [List.length_cons] at enough
      obtain ⟨last, reached, still, all⟩ := inductionHypothesis
        (fun other member => takes other (List.mem_cons_of_mem _ member)) next kept (by omega)
      exact ⟨last, reached, still.trans same, same ▸ all⟩
    | halt final stop =>
      rw [taken] at sent
      exact absurd (takes written List.mem_cons_self) sent.2.2

/-- A call keeps the stream. -/
theorem step_streams (o : HydraOutgoing) (call : HydraCall) (streams : Streams o) :
    (o.step call).Ends Streams
      (fun final stop => Streams final ∧ (stop = .aborted → call.Overlong)) := by
  cases call with
  | queuepkt type data behind =>
    have kept := queuepkt_streams o type data behind streams
    show (o.queuepkt type data behind).Ends _ _
    cases queued_so : o.queuepkt type data behind with
    | more after =>
      rw [queued_so] at kept
      exact kept
    | halt final stop =>
      rw [queued_so] at kept
      exact ⟨kept.1, fun _ => kept.2.2⟩
  | block offset data behind short => exact block_streams o offset data behind short streams
  | agree txoptions =>
    exact ⟨streams.stream, streams.memory, streams.inside, streams.begins, streams.whole⟩
  | send written =>
    have kept := send_streams o written streams
    show (o.send written).Ends _ _
    cases sent : o.send written with
    | more after =>
      rw [sent] at kept
      exact kept.1
    | halt final stop =>
      rw [sent] at kept
      refine ⟨kept.1, fun aborted => ?_⟩
      rw [kept.2.1] at aborted
      cases aborted

/-- What was written so far is the beginning of the packets encoded so far, the rest of
which is in the buffer and the queue; the buffer holds no more than its memory; and where
the line goes on to take bytes, all of the packets are written. -/
structure Sends (o : HydraOutgoing) : Prop where
  stream : o.line ++ o.unsent ++ queued o.pktqueue = o.encoded.flatten
  memory : o.oencbuf.length = hydraBuflen
  inside : o.oencptr + o.oencpos ≤ hydraBuflen
  drains : ∀ answers : List Int, (∀ written ∈ answers, 0 < written) → o.left ≤ answers.length →
    ∃ last, run step o (answers.map .send) = .more last ∧ last.line = o.encoded.flatten

theorem Streams.sends {o : HydraOutgoing} (streams : Streams o) : Sends o where
  stream := streams.stream
  memory := streams.memory
  inside := streams.inside
  drains answers takes enough := by
    obtain ⟨last, reached, _, all⟩ := drained answers takes o streams enough
    exact ⟨last, reached, all⟩

end HydraOutgoing

end Binkleyforce
