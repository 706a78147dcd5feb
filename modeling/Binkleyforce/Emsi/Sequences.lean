import Binkleyforce.Library.Scanner
import Binkleyforce.Emsi.Framing

/-!
# The sequences of EMSI

A sequence is a star and twelve graphic characters. Four loops wait for one: `sm_tx_waitseq` and
`sm_rx_waitseq`, which `state_machine` enters as often as they are left for another state, and those
of `session_init_outgoing` and `session_init_incoming`. The characters behind the last star are kept
in a buffer with a place and a flag. Buffer and flag of the first two loops stand in their records
and outlast the loops, and the place begins anew with each of them.
-/

namespace Binkleyforce

open Library

/-! ## One character -/

/-- A character of the flow control, `XON` or `XOFF`. -/
def flowChar (rc : UInt8) : Bool := rc = 17 || rc = 19

/-- The buffer of a sequence, the place in it, and whether a sequence has begun. -/
structure SeqBuffer where
  buf : Bytes := []
  pos : Nat := 0
  emsiSeq : Bool := false
  deriving DecidableEq

/-- What the last star leaves. -/
def SeqBuffer.begun : SeqBuffer := { emsiSeq := true }

/-- A character is stored where there is room, and a full buffer is compared. -/
def SeqBuffer.store (seq : SeqBuffer) (rc : UInt8) : SeqBuffer × Option Bytes :=
  let stored := if seq.pos < 12 then { seq with buf := seq.buf.take seq.pos ++ [rc], pos := seq.pos + 1 } else seq
  if stored.pos = 12 then ({ stored with emsiSeq := false }, some stored.buf) else (stored, none)

/-- A character that the loops of the state machine have read. -/
def SeqBuffer.read (seq : SeqBuffer) (rc : UInt8) : SeqBuffer × Option Bytes :=
  if flowChar rc then (seq, none)
  else if rc = 42 then (.begun, none)
  else if seq.emsiSeq && 32 < rc && rc < 126 then seq.store rc
  else ({ seq with emsiSeq := false }, none)

/-- What a turn of a loop does: the character it reads, the full buffer it compares, and where
it goes. -/
structure Waited (σ ρ : Type) where
  read : Option UInt8 := none
  full : Option Bytes := none
  next : Turn σ ρ

/-- The timers and the line in a turn, and whether what the turn writes gets out: the characters
that are sent when the timer expires, and the others. -/
structure WaitInput where
  poll : Poll
  resynced : Bool := true
  written : Bool := true

/-! ## The sender -/

/-- The data of `s_tx_emsidat` that its states use. -/
structure TxEmsidat where
  caller : Bool
  tries : Nat := 0
  nakcount : Nat := 0
  seq : SeqBuffer := {}
  deriving DecidableEq

/-- Where `state_machine` is: it calls a state, or is in the one that waits. -/
inductive SmStage where
  | state (sm : Sm)
  | waiting
  deriving DecidableEq

/-- What `sm_tx_waitseq` does with a full buffer. -/
def txFull (d : TxEmsidat) (buf : Bytes) (written : Bool) : Turn (SmStage × TxEmsidat) Sm :=
  if sequenceIs buf "EMSI_REQA77E" then .more (.waiting, d)
  else if sequenceIs buf "EMSI_ACKA490" then .more (.state .sm0, d)
  else if sequenceIs buf "EMSI_NAKEEC3" then
    .more (if d.nakcount = 0 then .state .sm1 else .waiting, { d with nakcount := d.nakcount + 1 })
  else if sequenceIs buf "EMSI_INQC816" then .more (.state .sm2, d)
  else if sequenceIs buf "EMSI_DAT" then
    if !written then .more (.state .sme, d)
    else if d.caller then .more (.state .sm1, d)
    else .more (.waiting, d)
  else .more (.waiting, d)

/-- A turn of the loop of `sm_tx_waitseq`. -/
def txTurn (d : TxEmsidat) (input : WaitInput) : Waited (SmStage × TxEmsidat) Sm :=
  if input.poll.mastExpired then { next := .more (.state .sme, d) }
  else if input.poll.syncExpired then { next := .more (.state .sm1, d) }
  else
    match input.poll.got with
    | .timeout => { next := .more (.waiting, d) }
    | .hangup => { next := .more (.state .sme, d) }
    | .char rc =>
      match d.seq.read rc with
      | (seq, none) => { read := some rc, next := .more (.waiting, { d with seq }) }
      | (seq, some buf) => { read := some rc, full := some buf, next := txFull { d with seq } buf input.written }

/-- A step of `emsi_send_emsidat` behind `sm_tx_init`: `sm_tx_senddat`, the beginning of
`sm_tx_waitseq`, a turn of its loop, or the end. -/
def txStep (machine : SmStage × TxEmsidat) (input : WaitInput) : Waited (SmStage × TxEmsidat) Sm :=
  match machine with
  | (.waiting, d) => txTurn d input
  | (.state .sm1, d) =>
    let d := { d with tries := d.tries + 1 }
    { next := .more (.state (if 6 < d.tries || !input.written then .sme else .sm2), d) }
  | (.state .sm2, d) => { next := .more (.waiting, { d with seq := { d.seq with pos := 0 } }) }
  | (.state sm, d) => { next := .halt (.state sm, d) sm }

/-! ## The receiver -/

/-- The data of `s_rx_emsidat` that its states use. -/
structure RxMachine where
  caller : Bool
  tries : Nat := 0
  seq : SeqBuffer := {}
  deriving DecidableEq

/-- A turn of the loop of `sm_rx_waitseq`. -/
def rxTurn (buggyEmsi : Bool) (d : RxMachine) (poll : Poll) : Waited (SmStage × RxMachine) Sm :=
  if poll.mastExpired then { next := .more (.state .sme, d) }
  else if poll.syncExpired then { next := .more (.state .sm1, d) }
  else
    match poll.got with
    | .timeout => { next := .more (.waiting, d) }
    | .hangup => { next := .more (.state .sme, d) }
    | .char rc =>
      match d.seq.read rc with
      | (seq, none) => { read := some rc, next := .more (.waiting, { d with seq }) }
      | (seq, some buf) =>
        { read := some rc
          full := some buf
          next :=
            match seqFull buggyEmsi { caller := d.caller, buf } with
            | some next => .more (.state next, { d with seq })
            | none => .more (.waiting, { d with seq }) }

/-- The record of the receiver as `smRxWaitseq` has it. -/
def RxMachine.record (d : RxMachine) : RxEmsidat := { caller := d.caller, buf := d.seq.buf, emsiSeq := d.seq.emsiSeq }

/-- `smRxWaitseq` takes the turns of the loop one after another. -/
theorem smRxWaitseq_turn (buggyEmsi : Bool) (d : RxMachine) (poll : Poll) (polls : List Poll) :
    smRxWaitseq buggyEmsi d.record d.seq.pos (poll :: polls) =
      match (rxTurn buggyEmsi d poll).next with
      | .more (.waiting, d) => smRxWaitseq buggyEmsi d.record d.seq.pos polls
      | .more (.state sm, d) => (sm, d.record, polls)
      | .halt (_, d) sm => (sm, d.record, polls) := by
  conv_lhs => rw [smRxWaitseq]
  unfold rxTurn
  split
  · rfl
  · split
    · rfl
    · cases poll.got with
      | timeout => rfl
      | hangup => rfl
      | char rc =>
        obtain ⟨caller, tries, buf, pos, emsiSeq⟩ := d
        dsimp only [SeqBuffer.read, RxMachine.record]
        cases flow : flowChar rc with
        | true => exact if_pos flow
        | false =>
          rw [show (decide (rc = 17) || decide (rc = 19)) = false from flow]
          rw [if_neg Bool.false_ne_true, if_neg Bool.false_ne_true]
          by_cases star : rc = 42
          · rw [if_pos star, if_pos star]
            rfl
          · rw [if_neg star, if_neg star]
            by_cases graphic : (emsiSeq && decide (32 < rc) && decide (rc < 126)) = true
            · rw [if_pos graphic]
              refine (if_pos graphic).trans ?_
              by_cases room : pos < 12
              · simp only [SeqBuffer.store, if_pos room]
                by_cases full : pos + 1 = 12
                · simp only [if_pos full]
                  have same : seqFull buggyEmsi { caller, buf := buf.take pos ++ [rc], emsiSeq } =
                      seqFull buggyEmsi { caller, buf := buf.take pos ++ [rc] } := rfl
                  rw [same]
                  cases seqFull buggyEmsi { caller, buf := buf.take pos ++ [rc] } with
                  | none => rfl
                  | some next => rfl
                · simp only [if_neg full]
              · simp only [SeqBuffer.store, if_neg room]
                by_cases full : pos = 12
                · simp only [if_pos full]
                  have same : seqFull buggyEmsi { caller, buf, emsiSeq } = seqFull buggyEmsi { caller, buf } := rfl
                  rw [same]
                  cases seqFull buggyEmsi { caller, buf } with
                  | none => rfl
                  | some next => rfl
                · simp only [if_neg full]
            · rw [if_neg graphic]
              exact if_neg graphic

/-- What a step of the receiver meets: that of the sender, and what `sm_rx_getdat` reads by itself. -/
structure RxInput extends WaitInput where
  received : RxResult
  remote : EmsiState

/-- A step of `emsi_recv_emsidat` behind `sm_rx_init`: `sm_rx_sendnak`, the beginning of
`sm_rx_waitseq`, a turn of its loop, `sm_rx_getdat`, or the end. -/
def rxStep (buggyEmsi : Bool) (machine : SmStage × RxMachine) (input : RxInput) : Waited (SmStage × RxMachine) Sm :=
  match machine with
  | (.waiting, d) => rxTurn buggyEmsi d input.poll
  | (.state .sm1, d) =>
    let d := { d with tries := d.tries + 1 }
    { next := .more (.state (if 6 < d.tries || !input.written then .sme else .sm2), d) }
  | (.state .sm2, d) => { next := .more (.waiting, { d with seq := { d.seq with pos := 0 } }) }
  | (.state .sm3, d) => { next := .more (.state (smRxGetdat input.received input.remote input.written).1, d) }
  | (.state sm, d) => { next := .halt (.state sm, d) sm }

/-! ## The detectors -/

/-- How the detection ends: with a kind of session, or without. -/
inductive Detected where
  | emsi | yoohoo | ftsc | failed
  deriving DecidableEq

/-- The variables of the detectors: those of `session_init_outgoing` call the counts `enqcount` and
`nakcount`. -/
structure SessionInit where
  canemsi : Bool
  canyoohoo : Bool
  canftsc : Bool
  yoohooCount : Nat := 0
  tsyncCount : Nat := 0
  unexpCount : Nat := 0
  seq : SeqBuffer := {}
  deriving DecidableEq

/-- `yoohoo_need`, or `enq_need`. -/
def SessionInit.yoohooNeed (d : SessionInit) : Nat := if d.canemsi then 2 else 1

/-- `tsync_need`, or `nak_need`. -/
def SessionInit.tsyncNeed (d : SessionInit) : Nat := if d.canemsi || d.canyoohoo then 2 else 1

/-- An unexpected sequence is counted. -/
def unexpected (d : SessionInit) (buf : Bytes) : Turn SessionInit Detected :=
  if sequenceIs buf "EMSI" then
    let d := { d with unexpCount := d.unexpCount + 1 }
    if 10 < d.unexpCount then .halt d .failed else .more d
  else .more d

/-- What `session_init_outgoing` does with a full buffer. -/
def outgoingFull (written : Bool) (d : SessionInit) (buf : Bytes) : Turn SessionInit Detected :=
  if sequenceIs buf "EMSI_REQA77E" || sequenceIs buf "EMSI_NAKEEC3" then
    .halt d (if written then .emsi else .failed)
  else if sequenceIs buf "EMSI_INQC816" then if written then .more d else .halt d .failed
  else unexpected d buf

/-- What `session_init_incoming` does with a full buffer. -/
def incomingFull (d : SessionInit) (buf : Bytes) : Turn SessionInit Detected :=
  if sequenceIs buf "EMSI_INQC816" then .halt d .emsi else unexpected d buf

/-- What a detector does with a character: `yoohoo` asks for a YooHoo session, and a graphic
character but `keeps` ends the count of `TSYNC`. -/
def detectChar (yoohoo : UInt8) (keeps : Option UInt8) (full : SessionInit → Bytes → Turn SessionInit Detected)
    (d : SessionInit) (rc : UInt8) : Option Bytes × Turn SessionInit Detected :=
  if flowChar rc then (none, .more d)
  else if rc = yoohoo then
    let d := { d with yoohooCount := d.yoohooCount + 1 }
    (none, if d.yoohooNeed ≤ d.yoohooCount && d.canyoohoo then .halt d .yoohoo else .more d)
  else if rc = 0xae then
    let d := { d with tsyncCount := d.tsyncCount + 1 }
    (none, if d.tsyncNeed < d.tsyncCount && d.canftsc then .halt d .ftsc else .more d)
  else if d.canemsi && 32 < rc && rc < 126 then
    let d := { d with tsyncCount := if some rc = keeps then d.tsyncCount else 0, yoohooCount := 0 }
    if rc = 42 then (none, .more { d with seq := .begun })
    else if d.seq.emsiSeq then
      match d.seq.store rc with
      | (seq, none) => (none, .more { d with seq })
      | (seq, some buf) => (some buf, full { d with seq } buf)
    else (none, .more d)
  else (none, .more { d with seq := { d.seq with emsiSeq := false } })

/-- What `session_init_outgoing` does with a character. -/
def outgoingChar (written : Bool) : SessionInit → UInt8 → Option Bytes × Turn SessionInit Detected :=
  detectChar 0x05 (some 67) (outgoingFull written)

/-- What `session_init_incoming` does with a character. -/
def incomingChar : SessionInit → UInt8 → Option Bytes × Turn SessionInit Detected :=
  detectChar 0xf1 none incomingFull

/-- A turn of the loop of a detector, which does `char` with a character. -/
def detectTurn (char : SessionInit → UInt8 → Option Bytes × Turn SessionInit Detected) (d : SessionInit)
    (input : WaitInput) : Waited SessionInit Detected :=
  if input.poll.mastExpired then { next := .halt d .failed }
  else if input.poll.syncExpired && !input.resynced then { next := .halt d .failed }
  else
    match input.poll.got with
    | .timeout => { next := .more d }
    | .hangup => { next := .halt d .failed }
    | .char rc => { read := some rc, full := (char d rc).1, next := (char d rc).2 }

/-- A turn of the loop of `session_init_outgoing`. -/
def outgoingTurn (d : SessionInit) (input : WaitInput) : Waited SessionInit Detected :=
  detectTurn (outgoingChar input.written) d input

/-- A turn of the loop of `session_init_incoming`, which writes only where the timer expires. -/
def incomingTurn (d : SessionInit) (input : WaitInput) : Waited SessionInit Detected :=
  detectTurn incomingChar d input

/-! ## The sequences of a stream -/

/-- The character that begins a sequence. -/
def starChar (rc : UInt8) : Bool := rc = 42

/-- A graphic character behind a star. -/
def sequenceChar (rc : UInt8) : Bool := 32 < rc && rc < 126 && rc ≠ 42

/-- Twelve graphic characters behind a star, for each star of the stream that has them. -/
def starSequences (bytes : Bytes) : List Bytes :=
  sequencesIn starChar sequenceChar 12 (bytes.filter fun rc => !flowChar rc)

/-- The sequences of EMSI among them. -/
def emsiOnly (sequences : List Bytes) : List Bytes := sequences.filter fun buf => sequenceIs buf "EMSI_"

/-- Each sequence of the stream is compared once, in its order, and nothing else is. -/
structure Recognises (bytes : Bytes) (compared : List Bytes) : Prop where
  all : compared = starSequences bytes
  emsi : emsiOnly compared = emsiOnly (starSequences bytes)

/-- What a program reads, step after step. -/
def readBytes {σ ι ρ : Type} (step : σ → ι → Waited σ ρ) (start : σ) (inputs : List ι) : Bytes :=
  gathered (fun state input => (step state input).next) (fun state input => (step state input).read.toList)
    start inputs

/-- The full buffers that a program compares, step after step. -/
def comparedBufs {σ ι ρ : Type} (step : σ → ι → Waited σ ρ) (start : σ) (inputs : List ι) : List Bytes :=
  gathered (fun state input => (step state input).next) (fun state input => (step state input).full.toList)
    start inputs

/-! ## The buffer as a scanner -/

/-- What has been taken behind the last star. -/
def SeqBuffer.taken (seq : SeqBuffer) : Option Bytes := if seq.emsiSeq then some seq.buf else none

/-- The place is behind the characters of a sequence that has begun. -/
def SeqBuffer.Kept (seq : SeqBuffer) : Prop := seq.emsiSeq = true → seq.buf.length = seq.pos ∧ seq.pos < 12

/-- The scanner of the sequences. -/
def seqStep (taken : Option Bytes) (rc : UInt8) : Option Bytes × Option Bytes :=
  scanStep flowChar starChar sequenceChar 12 taken rc

/-- Where a sequence has begun, a character is taken. -/
theorem SeqBuffer.store_kept {seq : SeqBuffer} (kept : seq.Kept) (begun : seq.emsiSeq = true) (rc : UInt8) :
    seq.store rc =
      if seq.buf.length + 1 = 12 then
        ({ buf := seq.buf ++ [rc], pos := seq.pos + 1, emsiSeq := false }, some (seq.buf ++ [rc]))
      else ({ buf := seq.buf ++ [rc], pos := seq.pos + 1, emsiSeq := true }, none) := by
  obtain ⟨place, room⟩ := kept begun
  have whole : seq.buf.take seq.pos = seq.buf := by
    rw [← place, List.take_length]
  unfold SeqBuffer.store
  rw [if_pos room, whole, place]
  obtain ⟨buf, pos, emsiSeq⟩ := seq
  cases begun
  rfl

/-- A character is read as the scanner takes it. -/
theorem SeqBuffer.read_scans {seq : SeqBuffer} (kept : seq.Kept) (rc : UInt8) :
    seqStep seq.taken rc = ((seq.read rc).1.taken, (seq.read rc).2) ∧ (seq.read rc).1.Kept := by
  unfold seqStep SeqBuffer.read
  cases flow : flowChar rc with
  | true =>
    rw [scanStep_ignored _ _ _ _ _ flow, if_pos rfl]
    exact ⟨rfl, kept⟩
  | false =>
    rw [if_neg Bool.false_ne_true]
    by_cases star : rc = 42
    · rw [scanStep_star _ _ _ _ _ flow (decide_eq_true star : starChar rc = true), if_pos star]
      exact ⟨rfl, fun _ => ⟨rfl, by decide⟩⟩
    · rw [if_neg star]
      have other : starChar rc = false := decide_eq_false star
      cases begun : seq.emsiSeq with
      | false =>
        have nothing : seq.taken = none := by
          rw [SeqBuffer.taken, begun]
          rfl
        rw [nothing, scanStep_none _ _ _ _ other]
        exact ⟨rfl, fun impossible => nomatch impossible⟩
      | true =>
        have some_ : seq.taken = some seq.buf := by
          rw [SeqBuffer.taken, begun]
          rfl
        have same : (true && decide (32 < rc) && decide (rc < 126)) = sequenceChar rc := by
          simp [sequenceChar, star]
        rw [some_, same]
        cases plain : sequenceChar rc with
        | false =>
          rw [scanStep_breaks _ _ _ _ _ flow other plain]
          exact ⟨rfl, fun impossible => nomatch impossible⟩
        | true =>
          rw [scanStep_takes _ _ _ _ _ flow other plain, if_pos rfl, store_kept kept begun]
          obtain ⟨place, room⟩ := kept begun
          by_cases full : seq.buf.length + 1 = 12
          · rw [if_pos full, if_pos full]
            exact ⟨rfl, fun impossible => nomatch impossible⟩
          · rw [if_neg full, if_neg full]
            refine ⟨rfl, fun _ => ⟨?_, ?_⟩⟩
            · rw [List.length_append, place]
              rfl
            · show seq.pos + 1 < 12
              omega

/-- A full buffer leaves the flag down. -/
theorem SeqBuffer.read_full {seq later : SeqBuffer} {rc : UInt8} {buf : Bytes}
    (full : seq.read rc = (later, some buf)) : later.emsiSeq = false := by
  unfold SeqBuffer.read SeqBuffer.store at full
  dsimp only at full
  repeat' split at full
  all_goals
    cases full
    try rfl

/-! ## The loops as scanners -/

/-- A sequence that was begun is lost where a loop of the state machine begins anew: the flag and
the buffer are left, and the place is not. -/
def Undisturbed (stage : SmStage) (seq : SeqBuffer) : Prop :=
  stage = .state .sm2 → seq.emsiSeq = true → seq.buf = []

/-- The characters that the detectors count do not end a sequence that was begun. -/
def Uncounted (counted : List UInt8) (seq : SeqBuffer) (input : WaitInput) : Prop :=
  ∀ rc ∈ input.poll.read, rc ∈ counted → seq.emsiSeq = false

/-- A turn reads with the buffer as the loops of the state machine do. -/
structure Waited.Scans {σ ρ : Type} (turn : Waited σ ρ) (invariant : σ → Prop) (view : σ → SeqBuffer)
    (seq : SeqBuffer) : Prop where
  kept : turn.read ≠ none → seq.Kept
  full : turn.full = turn.read.bind fun rc => (seq.read rc).2
  goes : ∀ after, turn.next = .more after →
    invariant after ∧ (view after).taken = (turn.read.elim seq fun rc => (seq.read rc).1).taken

/-- A turn that reads nothing leaves what was taken. -/
theorem Waited.scans_quiet {σ ρ : Type} {invariant : σ → Prop} {view : σ → SeqBuffer} {seq : SeqBuffer}
    {next : Turn σ ρ} (goes : ∀ after, next = .more after → invariant after ∧ (view after).taken = seq.taken) :
    ({ next } : Waited σ ρ).Scans invariant view seq where
  kept := fun reads => absurd rfl reads
  full := rfl
  goes := goes

/-- A turn that reads a character takes it. -/
theorem Waited.scans_read {σ ρ : Type} {invariant : σ → Prop} {view : σ → SeqBuffer} {seq later : SeqBuffer}
    {rc : UInt8} {full : Option Bytes} {next : Turn σ ρ} (kept : seq.Kept) (taken : seq.read rc = (later, full))
    (goes : ∀ after, next = .more after → invariant after ∧ (view after).taken = later.taken) :
    ({ read := some rc, full, next } : Waited σ ρ).Scans invariant view seq := by
  constructor
  · exact fun _ => kept
  · rw [Option.bind_some, taken]
  · intro after goesOn
    rw [Option.elim_some, taken]
    exact goes after goesOn

/-- A program whose turns read with a buffer recognises the sequences that it reads. -/
theorem recognises_all {σ ι ρ : Type} {step : σ → ι → Waited σ ρ} {admits : σ → ι → Prop} (invariant : σ → Prop)
    (view : σ → SeqBuffer)
    (scans : ∀ before input, invariant before → admits before input →
      (step before input).Scans invariant view (view before))
    (start : σ) (initial : invariant start) (fresh : (view start).taken = none) (inputs : List ι)
    (admitted : Along admits (fun state input => (step state input).next) start inputs) :
    Recognises (readBytes step start inputs) (comparedBufs step start inputs) := by
  have turns : ∀ before input, invariant before → admits before input →
      scan flowChar starChar sequenceChar 12 (view before).taken (step before input).read.toList =
        (((step before input).read.elim (view before) fun rc => ((view before).read rc).1).taken,
          (step before input).full.toList) := by
    intro before input holds allowed
    obtain ⟨kept, full, -⟩ := scans before input holds allowed
    rw [full]
    cases reads : (step before input).read with
    | none => rfl
    | some rc =>
      have scanned := (SeqBuffer.read_scans (kept (by simp [reads])) rc).1
      unfold seqStep at scanned
      rw [Option.toList_some, scan, scan, scanned, List.append_nil]
      rfl
  have all : comparedBufs step start inputs = starSequences (readBytes step start inputs) := by
    have found := gathered_scan flowChar starChar sequenceChar 12
      (fun before input => (step before input).read.toList) (fun before input => (step before input).full.toList)
      invariant (fun state => (view state).taken)
      (by
        intro before input holds allowed
        rw [turns before input holds allowed])
      (by
        intro before input after holds allowed turn
        rw [turns before input holds allowed]
        exact (scans before input holds allowed).goes after turn)
      start initial inputs admitted
    rw [fresh, scan_sequencesIn flowChar starChar sequenceChar 12 (by decide) _] at found
    · exact found
    · intro rc star
      rw [of_decide_eq_true star]
      rfl
  exact ⟨all, congrArg emsiOnly all⟩

/-! ## The state machines -/

/-- In a loop of a state machine the place is behind what was taken. -/
def Placed (stage : SmStage) (seq : SeqBuffer) : Prop := stage = .waiting → seq.Kept

/-- Where the loop goes on with a buffer that is kept, its place is kept. -/
theorem Placed.of_kept {stage : SmStage} {seq : SeqBuffer} (kept : seq.Kept) : Placed stage seq := fun _ => kept

/-- A buffer whose flag is down is kept. -/
theorem SeqBuffer.kept_down {seq : SeqBuffer} (down : seq.emsiSeq = false) : seq.Kept := by
  intro begun
  rw [down] at begun
  cases begun

/-- The sender leaves the buffer as it is. -/
theorem txFull_seq (d : TxEmsidat) (buf : Bytes) (written : Bool) (after : SmStage × TxEmsidat)
    (next : txFull d buf written = .more after) : after.2.seq = d.seq := by
  unfold txFull at next
  repeat' split at next
  all_goals
    cases next
    rfl

/-- A turn of `sm_tx_waitseq` reads with the buffer. -/
theorem txTurn_scans {d : TxEmsidat} (kept : d.seq.Kept) (input : WaitInput) :
    (txTurn d input).Scans (fun machine => Placed machine.1 machine.2.seq) (fun machine => machine.2.seq)
      d.seq := by
  have goes : ∀ stage, ∀ after : SmStage × TxEmsidat, (Turn.more (stage, d) : Turn _ Sm) = .more after →
      Placed after.1 after.2.seq ∧ after.2.seq.taken = d.seq.taken := by
    rintro stage _ ⟨⟩
    exact ⟨.of_kept kept, rfl⟩
  unfold txTurn
  split
  · exact Waited.scans_quiet (goes _)
  · split
    · exact Waited.scans_quiet (goes _)
    · cases input.poll.got with
      | timeout => exact Waited.scans_quiet (goes _)
      | hangup => exact Waited.scans_quiet (goes _)
      | char rc =>
        have later := (SeqBuffer.read_scans kept rc).2
        dsimp only
        split
        · rename_i seq taken
          apply Waited.scans_read kept taken
          rintro _ ⟨⟩
          rw [taken] at later
          exact ⟨.of_kept later, rfl⟩
        · rename_i seq buf taken
          apply Waited.scans_read kept taken
          intro after next
          rw [txFull_seq { d with seq } buf input.written after next]
          exact ⟨.of_kept (SeqBuffer.kept_down (SeqBuffer.read_full taken)), rfl⟩

/-- A turn of `sm_rx_waitseq` reads with the buffer. -/
theorem rxTurn_scans (buggyEmsi : Bool) {d : RxMachine} (kept : d.seq.Kept) (poll : Poll) :
    (rxTurn buggyEmsi d poll).Scans (fun machine => Placed machine.1 machine.2.seq)
      (fun machine => machine.2.seq) d.seq := by
  have goes : ∀ stage, ∀ after : SmStage × RxMachine, (Turn.more (stage, d) : Turn _ Sm) = .more after →
      Placed after.1 after.2.seq ∧ after.2.seq.taken = d.seq.taken := by
    rintro stage _ ⟨⟩
    exact ⟨.of_kept kept, rfl⟩
  unfold rxTurn
  split
  · exact Waited.scans_quiet (goes _)
  · split
    · exact Waited.scans_quiet (goes _)
    · cases poll.got with
      | timeout => exact Waited.scans_quiet (goes _)
      | hangup => exact Waited.scans_quiet (goes _)
      | char rc =>
        have later := (SeqBuffer.read_scans kept rc).2
        dsimp only
        split
        · rename_i seq taken
          apply Waited.scans_read kept taken
          rintro _ ⟨⟩
          rw [taken] at later
          exact ⟨.of_kept later, rfl⟩
        · rename_i seq buf taken
          have down := SeqBuffer.kept_down (SeqBuffer.read_full taken)
          apply Waited.scans_read kept taken
          cases seqFull buggyEmsi { caller := d.caller, buf } with
          | none =>
            rintro _ ⟨⟩
            exact ⟨.of_kept down, rfl⟩
          | some sm =>
            rintro _ ⟨⟩
            exact ⟨.of_kept down, rfl⟩

/-- Where no sequence is disturbed the loop begins with what was taken. -/
theorem Undisturbed.begins {seq : SeqBuffer} (undisturbed : Undisturbed (.state .sm2) seq) :
    SeqBuffer.Kept { seq with pos := 0 } := by
  intro begun
  rw [undisturbed rfl begun]
  exact ⟨rfl, Nat.succ_pos 11⟩

/-- The sender reads with the buffer. -/
theorem txStep_scans (machine : SmStage × TxEmsidat) (input : WaitInput)
    (placed : Placed machine.1 machine.2.seq) (undisturbed : Undisturbed machine.1 machine.2.seq) :
    (txStep machine input).Scans (fun machine => Placed machine.1 machine.2.seq)
      (fun machine => machine.2.seq) machine.2.seq := by
  obtain ⟨stage, d⟩ := machine
  cases stage with
  | waiting => exact txTurn_scans (placed rfl) input
  | state sm =>
    cases sm with
    | sm1 =>
      apply Waited.scans_quiet
      rintro _ ⟨⟩
      exact ⟨fun other => (nomatch other), rfl⟩
    | sm2 =>
      apply Waited.scans_quiet
      rintro _ ⟨⟩
      exact ⟨.of_kept undisturbed.begins, rfl⟩
    | sm0 | sm3 | sme => exact Waited.scans_quiet fun _ halted => nomatch halted

/-- The receiver reads with the buffer. -/
theorem rxStep_scans (buggyEmsi : Bool) (machine : SmStage × RxMachine) (input : RxInput)
    (placed : Placed machine.1 machine.2.seq) (undisturbed : Undisturbed machine.1 machine.2.seq) :
    (rxStep buggyEmsi machine input).Scans (fun machine => Placed machine.1 machine.2.seq)
      (fun machine => machine.2.seq) machine.2.seq := by
  obtain ⟨stage, d⟩ := machine
  cases stage with
  | waiting => exact rxTurn_scans buggyEmsi (placed rfl) input.poll
  | state sm =>
    cases sm with
    | sm1 | sm3 =>
      apply Waited.scans_quiet
      rintro _ ⟨⟩
      exact ⟨fun other => (nomatch other), rfl⟩
    | sm2 =>
      apply Waited.scans_quiet
      rintro _ ⟨⟩
      exact ⟨.of_kept undisturbed.begins, rfl⟩
    | sm0 | sme => exact Waited.scans_quiet fun _ halted => nomatch halted

/-! ## The detectors -/

/-- Where no sequence has begun, a character that is neither graphic nor a star is passed. -/
theorem SeqBuffer.read_counted {seq : SeqBuffer} (down : seq.emsiSeq = false) {rc : UInt8} (star : rc ≠ 42) :
    seq.read rc = (seq, none) := by
  unfold SeqBuffer.read
  rw [if_neg star, down]
  split
  · rfl
  · obtain ⟨buf, pos, emsiSeq⟩ := seq
    cases down
    rfl

/-- Where a sequence has begun, a graphic character is stored. -/
theorem SeqBuffer.read_graphic {seq : SeqBuffer} (begun : seq.emsiSeq = true) {rc : UInt8}
    (flow : flowChar rc = false) (star : rc ≠ 42) (graphic : 32 < rc ∧ rc < 126) :
    seq.read rc = seq.store rc := by
  unfold SeqBuffer.read
  rw [flow, if_neg Bool.false_ne_true, if_neg star, begun]
  exact if_pos (by simp [graphic])

/-- A character that is not graphic ends a sequence. -/
theorem SeqBuffer.read_other {seq : SeqBuffer} {rc : UInt8} (flow : flowChar rc = false)
    (graphic : ¬ (32 < rc ∧ rc < 126)) : seq.read rc = ({ seq with emsiSeq := false }, none) := by
  have star : rc ≠ 42 := by
    rintro rfl
    exact graphic (by decide)
  unfold SeqBuffer.read
  rw [flow, if_neg Bool.false_ne_true, if_neg star]
  exact if_neg (by simpa using fun _ => not_and.mp graphic)

/-- What a full buffer leads to keeps the buffer, and whether EMSI may be used. -/
def KeepsSeq (full : SessionInit → Bytes → Turn SessionInit Detected) : Prop :=
  ∀ d buf after, full d buf = .more after → after.seq = d.seq ∧ after.canemsi = d.canemsi

/-- A detector that may use EMSI reads as the state machines do, but for what it counts. -/
theorem detectChar_reads {yoohoo : UInt8} (keeps : Option UInt8)
    {full : SessionInit → Bytes → Turn SessionInit Detected} (kept : KeepsSeq full)
    (other : ¬ (32 < yoohoo ∧ yoohoo < 126)) {d : SessionInit} (canemsi : d.canemsi = true) (rc : UInt8)
    (uncounted : rc ∈ [yoohoo, 0xae] → d.seq.emsiSeq = false) :
    ∃ seq, d.seq.read rc = (seq, (detectChar yoohoo keeps full d rc).1) ∧
      ∀ after, (detectChar yoohoo keeps full d rc).2 = .more after →
        after.seq = seq ∧ after.canemsi = true := by
  unfold detectChar
  cases flow : flowChar rc with
  | true =>
    refine ⟨d.seq, if_pos flow, ?_⟩
    rintro _ ⟨⟩
    exact ⟨rfl, canemsi⟩
  | false =>
    rw [if_neg Bool.false_ne_true]
    by_cases asked : rc = yoohoo
    · have star : rc ≠ 42 := by
        rintro rfl
        exact other (asked ▸ by decide)
      rw [if_pos asked]
      refine ⟨d.seq, SeqBuffer.read_counted (uncounted (by simp [asked])) star, fun after next => ?_⟩
      dsimp only at next
      split at next
      · cases next
      · cases next
        exact ⟨rfl, canemsi⟩
    · rw [if_neg asked]
      by_cases tsync : rc = 0xae
      · rw [if_pos tsync]
        refine ⟨d.seq, SeqBuffer.read_counted (uncounted (by simp [tsync])) (by rw [tsync]; decide),
          fun after next => ?_⟩
        dsimp only at next
        split at next
        · cases next
        · cases next
          exact ⟨rfl, canemsi⟩
      · rw [if_neg tsync]
        by_cases graphic : 32 < rc ∧ rc < 126
        · rw [if_pos (by simp [canemsi, graphic])]
          by_cases star : rc = 42
          · rw [if_pos star]
            refine ⟨.begun, ?_, ?_⟩
            · rw [star]
              rfl
            · rintro _ ⟨⟩
              exact ⟨rfl, canemsi⟩
          · rw [if_neg star]
            cases begun : d.seq.emsiSeq with
            | false =>
              refine ⟨d.seq, SeqBuffer.read_counted begun star, ?_⟩
              rintro _ ⟨⟩
              exact ⟨rfl, canemsi⟩
            | true =>
              rw [if_pos rfl, SeqBuffer.read_graphic begun flow star graphic]
              dsimp only
              cases stored : d.seq.store rc with
              | mk seq buffer =>
                cases buffer with
                | none =>
                  refine ⟨seq, rfl, ?_⟩
                  rintro _ ⟨⟩
                  exact ⟨rfl, canemsi⟩
                | some buf =>
                  refine ⟨seq, rfl, fun after next => ?_⟩
                  obtain ⟨same, still⟩ := kept _ buf after next
                  exact ⟨same, still.trans canemsi⟩
        · rw [if_neg (by simpa [canemsi] using graphic)]
          refine ⟨_, SeqBuffer.read_other flow graphic, ?_⟩
          rintro _ ⟨⟩
          exact ⟨rfl, canemsi⟩

/-- An unexpected sequence leaves the buffer. -/
theorem unexpected_keeps : KeepsSeq unexpected := by
  intro d buf after next
  unfold unexpected at next
  dsimp only at next
  repeat' split at next
  all_goals
    cases next
    try exact ⟨rfl, rfl⟩

/-- `session_init_outgoing` leaves the buffer at a full one. -/
theorem outgoingFull_keeps (written : Bool) : KeepsSeq (outgoingFull written) := by
  intro d buf after next
  unfold outgoingFull at next
  split at next
  · cases next
  · split at next
    · split at next
      · cases next
        exact ⟨rfl, rfl⟩
      · cases next
    · exact unexpected_keeps d buf after next

/-- `session_init_incoming` leaves the buffer at a full one. -/
theorem incomingFull_keeps : KeepsSeq incomingFull := by
  intro d buf after next
  unfold incomingFull at next
  split at next
  · cases next
  · exact unexpected_keeps d buf after next

/-- A turn of a detector that may use EMSI reads with the buffer. -/
theorem detectTurn_scans {char : SessionInit → UInt8 → Option Bytes × Turn SessionInit Detected} {d : SessionInit}
    (kept : d.seq.Kept) (canemsi : d.canemsi = true) (input : WaitInput)
    (reads : ∀ rc ∈ input.poll.read, ∃ seq, d.seq.read rc = (seq, (char d rc).1) ∧
      ∀ after, (char d rc).2 = .more after → after.seq = seq ∧ after.canemsi = true) :
    (detectTurn char d input).Scans (fun d => d.seq.Kept ∧ d.canemsi = true) SessionInit.seq d.seq := by
  unfold detectTurn
  split
  · exact Waited.scans_quiet fun _ halted => nomatch halted
  · rename_i going
    split
    · exact Waited.scans_quiet fun _ halted => nomatch halted
    · cases got : input.poll.got with
      | timeout =>
        apply Waited.scans_quiet
        rintro _ ⟨⟩
        exact ⟨⟨kept, canemsi⟩, rfl⟩
      | hangup => exact Waited.scans_quiet fun _ halted => nomatch halted
      | char rc =>
        have read : input.poll.read = some rc := by
          rw [Poll.read, if_neg going, got]
        obtain ⟨seq, taken, goes⟩ := reads rc read
        apply Waited.scans_read kept taken
        intro after next
        obtain ⟨same, still⟩ := goes after next
        have later := (SeqBuffer.read_scans kept rc).2
        rw [taken] at later
        rw [same]
        exact ⟨⟨later, still⟩, rfl⟩

/-- A character is not compared where EMSI may not be used. -/
theorem detectChar_none (yoohoo : UInt8) (keeps : Option UInt8)
    (full : SessionInit → Bytes → Turn SessionInit Detected) {d : SessionInit} (canemsi : d.canemsi = false)
    (rc : UInt8) : (detectChar yoohoo keeps full d rc).1 = none ∧
      ∀ after, (detectChar yoohoo keeps full d rc).2 = .more after → after.canemsi = false := by
  have never : ¬ (d.canemsi && decide (32 < rc) && decide (rc < 126)) = true := by
    simp [canemsi]
  unfold detectChar
  rw [if_neg never]
  split
  · refine ⟨rfl, ?_⟩
    rintro _ ⟨⟩
    exact canemsi
  · split
    · refine ⟨rfl, fun after next => ?_⟩
      dsimp only at next
      split at next
      · cases next
      · cases next
        exact canemsi
    · split
      · refine ⟨rfl, fun after next => ?_⟩
        dsimp only at next
        split at next
        · cases next
        · cases next
          exact canemsi
      · refine ⟨rfl, ?_⟩
        rintro _ ⟨⟩
        exact canemsi

/-- A detector that may not use EMSI compares nothing. -/
theorem detectTurn_none {char : SessionInit → UInt8 → Option Bytes × Turn SessionInit Detected} {d : SessionInit}
    (canemsi : d.canemsi = false) (input : WaitInput)
    (silent : ∀ rc, (char d rc).1 = none ∧ ∀ after, (char d rc).2 = .more after → after.canemsi = false) :
    (detectTurn char d input).full = none ∧
      ∀ after, (detectTurn char d input).next = .more after → after.canemsi = false := by
  unfold detectTurn
  split
  · exact ⟨rfl, fun _ halted => nomatch halted⟩
  · split
    · exact ⟨rfl, fun _ halted => nomatch halted⟩
    · cases input.poll.got with
      | timeout =>
        refine ⟨rfl, ?_⟩
        rintro _ ⟨⟩
        exact canemsi
      | hangup => exact ⟨rfl, fun _ halted => nomatch halted⟩
      | char rc => exact silent rc

/-- The beginning of `emsi_send_emsidat`, behind `sm_tx_init`. -/
def txStart (caller : Bool) : SmStage × TxEmsidat := (.state .sm1, { caller })

/-- The beginning of `emsi_recv_emsidat`, behind `sm_rx_init`. -/
def rxStart (caller : Bool) : SmStage × RxMachine := (.state .sm1, { caller })

/-- The sender begins every wait with no sequence begun. -/
def TxUndisturbed (caller : Bool) (inputs : List WaitInput) : Prop :=
  Along (fun machine _ => Undisturbed machine.1 machine.2.seq) (fun machine input => (txStep machine input).next)
    (txStart caller) inputs

/-- The receiver begins every wait with no sequence begun. -/
def RxUndisturbed (buggyEmsi caller : Bool) (inputs : List RxInput) : Prop :=
  Along (fun machine _ => Undisturbed machine.1 machine.2.seq)
    (fun machine input => (rxStep buggyEmsi machine input).next) (rxStart caller) inputs

/-- `session_init_outgoing` counts no `ENQ` and no `TSYNC` inside of a sequence. -/
def OutgoingUncounted (d : SessionInit) (inputs : List WaitInput) : Prop :=
  Along (fun d input => Uncounted [0x05, 0xae] d.seq input) (fun d input => (outgoingTurn d input).next) d inputs

/-- `session_init_incoming` counts no `YOOHOO` and no `TSYNC` inside of a sequence. -/
def IncomingUncounted (d : SessionInit) (inputs : List WaitInput) : Prop :=
  Along (fun d input => Uncounted [0xf1, 0xae] d.seq input) (fun d input => (incomingTurn d input).next) d inputs

instance decidableUndisturbed (stage : SmStage) (seq : SeqBuffer) : Decidable (Undisturbed stage seq) :=
  inferInstanceAs (Decidable (_ → _ → _))

instance decidableTxUndisturbed (caller : Bool) (inputs : List WaitInput) :
    Decidable (TxUndisturbed caller inputs) :=
  decidableAlong _ _ _ _

/-- The sender recognises the sequences that it reads. -/
theorem tx_recognises (caller : Bool) (inputs : List WaitInput) (undisturbed : TxUndisturbed caller inputs) :
    Recognises (readBytes txStep (txStart caller) inputs) (comparedBufs txStep (txStart caller) inputs) :=
  recognises_all (fun machine => Placed machine.1 machine.2.seq) (fun machine => machine.2.seq)
    (fun before input placed allowed => txStep_scans before input placed allowed) _
    (by rintro ⟨⟩) rfl inputs undisturbed

/-- The receiver recognises the sequences that it reads. -/
theorem rx_recognises (buggyEmsi caller : Bool) (inputs : List RxInput)
    (undisturbed : RxUndisturbed buggyEmsi caller inputs) :
    Recognises (readBytes (rxStep buggyEmsi) (rxStart caller) inputs)
      (comparedBufs (rxStep buggyEmsi) (rxStart caller) inputs) :=
  recognises_all (fun machine => Placed machine.1 machine.2.seq) (fun machine => machine.2.seq)
    (fun before input placed allowed => rxStep_scans buggyEmsi before input placed allowed) _
    (by rintro ⟨⟩) rfl inputs undisturbed

/-- `session_init_outgoing` recognises the sequences that it reads, if it may. -/
theorem outgoing_recognises (canemsi canyoohoo canftsc : Bool) (inputs : List WaitInput)
    (uncounted : OutgoingUncounted { canemsi, canyoohoo, canftsc } inputs) :
    if canemsi then
      Recognises (readBytes outgoingTurn { canemsi, canyoohoo, canftsc } inputs)
        (comparedBufs outgoingTurn { canemsi, canyoohoo, canftsc } inputs)
    else comparedBufs outgoingTurn { canemsi, canyoohoo, canftsc } inputs = [] := by
  cases canemsi with
  | true =>
    refine recognises_all (fun d => d.seq.Kept ∧ d.canemsi = true) SessionInit.seq ?_ _
      ⟨fun other => (nomatch other), rfl⟩ rfl inputs uncounted
    rintro d input ⟨kept, canemsi⟩ allowed
    apply detectTurn_scans kept canemsi
    intro rc read
    exact detectChar_reads _ (outgoingFull_keeps input.written) (by decide) canemsi rc (allowed rc read)
  | false =>
    apply gathered_nothing _ (fun d : SessionInit => d.canemsi = false) _ _ _ rfl
    · intro d input canemsi
      exact congrArg Option.toList (detectTurn_none canemsi input (detectChar_none _ _ _ canemsi)).1
    · intro d input after canemsi
      exact (detectTurn_none canemsi input (detectChar_none _ _ _ canemsi)).2 after

/-- `session_init_incoming` recognises the sequences that it reads, if it may. -/
theorem incoming_recognises (canemsi canyoohoo canftsc : Bool) (inputs : List WaitInput)
    (uncounted : IncomingUncounted { canemsi, canyoohoo, canftsc } inputs) :
    if canemsi then
      Recognises (readBytes incomingTurn { canemsi, canyoohoo, canftsc } inputs)
        (comparedBufs incomingTurn { canemsi, canyoohoo, canftsc } inputs)
    else comparedBufs incomingTurn { canemsi, canyoohoo, canftsc } inputs = [] := by
  cases canemsi with
  | true =>
    refine recognises_all (fun d => d.seq.Kept ∧ d.canemsi = true) SessionInit.seq ?_ _
      ⟨fun other => (nomatch other), rfl⟩ rfl inputs uncounted
    rintro d input ⟨kept, canemsi⟩ allowed
    apply detectTurn_scans kept canemsi
    intro rc read
    exact detectChar_reads _ incomingFull_keeps (by decide) canemsi rc (allowed rc read)
  | false =>
    apply gathered_nothing _ (fun d : SessionInit => d.canemsi = false) _ _ _ rfl
    · intro d input canemsi
      exact congrArg Option.toList (detectTurn_none canemsi input (detectChar_none _ _ _ canemsi)).1
    · intro d input after canemsi
      exact (detectTurn_none canemsi input (detectChar_none _ _ _ canemsi)).2 after

/-- Every sequence that the four loops read is recognised once, in its order, and nothing else is,
in runs that disturb no sequence. -/
theorem sequences_recognised (caller buggyEmsi canemsi canyoohoo canftsc : Bool) (inputs : List WaitInput)
    (rxInputs : List RxInput) :
    (TxUndisturbed caller inputs →
      Recognises (readBytes txStep (txStart caller) inputs) (comparedBufs txStep (txStart caller) inputs)) ∧
      (RxUndisturbed buggyEmsi caller rxInputs →
        Recognises (readBytes (rxStep buggyEmsi) (rxStart caller) rxInputs)
          (comparedBufs (rxStep buggyEmsi) (rxStart caller) rxInputs)) ∧
      (OutgoingUncounted { canemsi, canyoohoo, canftsc } inputs →
        if canemsi then
          Recognises (readBytes outgoingTurn { canemsi, canyoohoo, canftsc } inputs)
            (comparedBufs outgoingTurn { canemsi, canyoohoo, canftsc } inputs)
        else comparedBufs outgoingTurn { canemsi, canyoohoo, canftsc } inputs = []) ∧
      (IncomingUncounted { canemsi, canyoohoo, canftsc } inputs →
        if canemsi then
          Recognises (readBytes incomingTurn { canemsi, canyoohoo, canftsc } inputs)
            (comparedBufs incomingTurn { canemsi, canyoohoo, canftsc } inputs)
        else comparedBufs incomingTurn { canemsi, canyoohoo, canftsc } inputs = []) :=
  ⟨tx_recognises caller inputs, rx_recognises buggyEmsi caller rxInputs,
    outgoing_recognises canemsi canyoohoo canftsc inputs,
    incoming_recognises canemsi canyoohoo canftsc inputs⟩

/-- The characters of a text, one in each turn. -/
def seqTurns (text : String) : List WaitInput := (ascii text).map fun rc => { poll := { got := .char rc } }

/-- A turn that reads nothing. -/
def quietTurn : WaitInput := { poll := { got := .timeout } }

/-- An acknowledgement that is cut by the timer. -/
def cutAcknowledgement : List WaitInput :=
  [quietTurn, quietTurn] ++ seqTurns "**EM" ++
    { poll := { syncExpired := true, got := .timeout } } :: [quietTurn, quietTurn] ++ seqTurns "SI_ACKA490"

/-- With flow control in it, and garbage before it, a sequence is recognised. -/
theorem sequences_recognised_once :
    Recognises
      (readBytes txStep (txStart true) ([quietTurn, quietTurn] ++ seqTurns "*EM**EMSI_\u0011ACKA490"))
      (comparedBufs txStep (txStart true) ([quietTurn, quietTurn] ++ seqTurns "*EM**EMSI_\u0011ACKA490")) :=
  (sequences_recognised true false true true true
    ([quietTurn, quietTurn] ++ seqTurns "*EM**EMSI_\u0011ACKA490") []).1 (by decide)

/-- A sequence that the timer cuts is lost. -/
theorem cut_sequence_lost :
    ¬ Recognises (readBytes txStep (txStart true) cutAcknowledgement)
      (comparedBufs txStep (txStart true) cutAcknowledgement) :=
  fun recognises => absurd recognises.emsi (by decide)

end Binkleyforce
