import Mathlib.Data.List.TakeWhile
import Binkleyforce.Library.Buffers
import Binkleyforce.Util.CheckSums
import Binkleyforce.Emsi.RoundTrip

/-!
# The frame of an EMSI packet

`sm_tx_senddat` writes the packet and its CRC on the line. `sm_rx_waitseq` looks for the
beginning of a packet, and `sm_rx_getdat` takes as many characters as the length announces.
Each turn of their loops looks at the timers, and then for one character.
-/

namespace Binkleyforce

open Library

/-! ## The sender -/

/-- What `sm_tx_senddat` writes: the packet, and the CRC of all of it but the two stars. -/
def smTxSenddat (emsiDat : Bytes) : Bytes :=
  emsiDat ++ (printShort (getcrc16xmodem (emsiDat.drop 2)).toNat ++ [13])

/-! ## The receiver -/

/-- What `GETCHAR` gives. -/
inductive Got where
  | char (rc : UInt8)
  | timeout
  | hangup
  deriving DecidableEq

/-- A turn of a loop: the timers that have expired, and what there is to read. -/
structure Poll where
  mastExpired : Bool := false
  syncExpired : Bool := false
  got : Got
  deriving DecidableEq

/-- `EMSI_MAXDAT`. -/
def emsiMaxdat : Nat := 16384

/-- The states of `st_rx_emsidat`, and `SME`. -/
inductive Sm where
  | sm0 | sm1 | sm2 | sm3 | sme
  deriving DecidableEq

/-- The part of `s_rx_emsidat` that the sequences are read with. -/
structure RxEmsidat where
  caller : Bool
  buf : Bytes := []
  emsiSeq : Bool := false
  deriving DecidableEq

/-- `strncasecmp` with all of a sequence. -/
def sequenceIs (buf : Bytes) (name : String) : Bool :=
  strcasecmp (buf.take (ascii name).length) (ascii name)

/-- What follows a full buffer: a state, or more characters. `buggyEmsi` is `BUGGY_EMSI`. -/
def seqFull (buggyEmsi : Bool) (d : RxEmsidat) : Option Sm :=
  if d.caller && sequenceIs d.buf "EMSI_ACKA490" then none
  else if sequenceIs d.buf "EMSI_HBTEAEE" then some .sm2
  else if sequenceIs d.buf "EMSI_DAT" then some .sm3
  else if !buggyEmsi && sequenceIs d.buf "EMSI_INQC816" then some .sm1
  else none

/-- `sm_rx_waitseq`, with the place in the buffer. Without more turns the line is gone. -/
def smRxWaitseq (buggyEmsi : Bool) (d : RxEmsidat) (pos : Nat) : List Poll → Sm × RxEmsidat × List Poll
  | [] => (.sme, d, [])
  | poll :: polls =>
    if poll.mastExpired then (.sme, d, polls)
    else if poll.syncExpired then (.sm1, d, polls)
    else
      match poll.got with
      | .timeout => smRxWaitseq buggyEmsi d pos polls
      | .hangup => (.sme, d, polls)
      | .char rc =>
        if rc = 17 || rc = 19 then smRxWaitseq buggyEmsi d pos polls
        else if rc = 42 then smRxWaitseq buggyEmsi { d with buf := [], emsiSeq := true } 0 polls
        else if d.emsiSeq && 32 < rc && rc < 126 then
          let stored := if pos < 12 then { d with buf := d.buf.take pos ++ [rc] } else d
          let pos := if pos < 12 then pos + 1 else pos
          if pos = 12 then
            match seqFull buggyEmsi stored with
            | some next => (next, { stored with emsiSeq := false }, polls)
            | none => smRxWaitseq buggyEmsi { stored with emsiSeq := false } pos polls
          else smRxWaitseq buggyEmsi stored pos polls
        else smRxWaitseq buggyEmsi { d with emsiSeq := false } pos polls

/-- The loop of `sm_rx_getdat`: the buffer, the place behind what was read, and what is left.
There is nothing where a store was outside of the buffer. -/
def getdatLoop (emsiLen : Nat) (emsiDat : Bytes) (pos : Nat) : List Poll → Option (Bytes × Nat × List Poll)
  | [] => some (emsiDat, pos, [])
  | poll :: polls =>
    if pos < emsiLen then
      if poll.mastExpired then some (emsiDat, pos, polls)
      else
        match poll.got with
        | .timeout => getdatLoop emsiLen emsiDat pos polls
        | .hangup => some (emsiDat, pos, polls)
        | .char rc =>
          match putEnded 0 emsiDat pos rc with
          | some emsiDat => getdatLoop emsiLen emsiDat (pos + 1) polls
          | none => none
    else some (emsiDat, pos, poll :: polls)

/-- What `sm_rx_getdat` has before it parses. -/
inductive RxResult where
  /-- Nothing, and a new sequence is asked for. -/
  | again
  /-- Nothing, and the session ends. -/
  | failed
  /-- A packet with its check sum, as it stands in the buffer. -/
  | packet (emsiDat : Bytes)
  deriving DecidableEq

/-- The bytes of `xmalloc`, of which nothing is known but their number. -/
structure Heap where
  xmalloc : Nat → Bytes
  size : ∀ bytes, (xmalloc bytes).length = bytes

/-- The CRC a packet says it has. -/
def remcrc (emsiDat : Bytes) (emsiLen : Nat) : Option Nat :=
  (scanHex 4 (cstring (emsiDat.drop (emsiLen - 4)))).map fun (value, _) => (value % 2 ^ 16).toNat

/-- `sm_rx_getdat` up to `emsi_parsedat`, and what is left to read. What `CLEARIN` leaves is
`clearin`. -/
def smRxPacket (heap : Heap) (clearin : List Poll → List Poll) (buf : Bytes) (polls : List Poll) :
    Option (RxResult × List Poll) :=
  if hexSpan (buf.drop 8) ≠ 4 then some (.again, polls)
  else
    match scanHex 4 (buf.drop 8) with
    | none => some (.again, polls)
    | some (announced, _) =>
      if announced > emsiMaxdat then some (.again, clearin polls)
      else
        let emsiLen := announced.toNat + 16
        match putAll (heap.xmalloc (emsiLen + 1)) 0 (strncpy buf 12) with
        | none => none
        | some emsiDat =>
          match getdatLoop emsiLen emsiDat 12 polls with
          | none => none
          | some (emsiDat, pos, polls) =>
            if pos ≠ emsiLen then some (.failed, polls)
            else
              match remcrc emsiDat emsiLen with
              | none => some (.again, polls)
              | some remcrc =>
                if (getcrc16xmodem (emsiDat.take (emsiLen - 4))).toNat ≠ remcrc then some (.again, polls)
                else some (.packet emsiDat, polls)

/-- The rest of `sm_rx_getdat`: the packet is parsed, and acknowledged where that can be written. -/
def smRxGetdat (received : RxResult) (remote : EmsiState) (written : Bool) : Sm × EmsiState :=
  match received with
  | .again => (.sm1, remote)
  | .failed => (.sme, remote)
  | .packet emsiDat =>
    match emsiParsedat (cstring (emsiDat.drop 12)) remote with
    | .error remote => (.sm1, remote)
    | .ok remote => (if written then .sm0 else .sme, remote)

/-! ## The digits of a short number -/

/-- A digit of `%X`. -/
def hexUpper (digit : Nat) : UInt8 := UInt8.ofNat (Nat.digitChar digit).toUpper.toNat

/-- A short number has four digits. -/
theorem printShort_digits (value : Nat) :
    ∃ first < 16, ∃ second < 16, ∃ third < 16, ∃ last < 16,
      printShort value = [hexUpper first, hexUpper second, hexUpper third, hexUpper last] ∧
        value % 2 ^ 16 = ((first * 16 + second) * 16 + third) * 16 + last := by
  have bound : value % 2 ^ 16 < 65536 := Nat.mod_lt _ (by decide)
  unfold printShort
  generalize value % 2 ^ 16 = short at bound
  refine ⟨short / 4096, by omega, short / 256 % 16, by omega, short / 16 % 16, by omega, short % 16,
    by omega, ?_, by omega⟩
  unfold printHexUpper
  by_cases one : short < 16
  · have zeros : short / 4096 = 0 ∧ short / 256 = 0 ∧ short / 16 = 0 := by omega
    rw [Nat.toDigits_of_lt_base one, zeros.1, zeros.2.1, zeros.2.2, Nat.mod_eq_of_lt one]
    rfl
  · rw [Nat.toDigits_of_base_le (by decide) (by omega)]
    by_cases two : short / 16 < 16
    · have zeros : short / 4096 = 0 ∧ short / 256 = 0 := by omega
      rw [Nat.toDigits_of_lt_base two, zeros.1, zeros.2, Nat.mod_eq_of_lt two]
      rfl
    · rw [Nat.toDigits_of_base_le (by decide) (by omega)]
      have there : short / 16 / 16 = short / 256 := by omega
      by_cases three : short / 256 < 16
      · have zeros : short / 4096 = 0 := by omega
        rw [there, Nat.toDigits_of_lt_base three, zeros, Nat.mod_eq_of_lt three]
        rfl
      · have four : short / 256 / 16 < 16 := by omega
        have there' : short / 256 / 16 = short / 4096 := by omega
        rw [there, Nat.toDigits_of_base_le (by decide) (by omega), Nat.toDigits_of_lt_base four, there']
        rfl

/-- A digit of `%X` is read as it was written. -/
theorem xdigit_hexUpper : ∀ digit < 16, xdigit (hexUpper digit) = some digit := by
  decide

/-- All of it is digits. -/
theorem hexSpan_printShort (value : Nat) : hexSpan (printShort value) = 4 := by
  obtain ⟨first, one, second, two, third, three, last, four, printed, -⟩ := printShort_digits value
  rw [printed]
  simp only [hexSpan_cons, xdigit_hexUpper _ one, xdigit_hexUpper _ two, xdigit_hexUpper _ three,
    xdigit_hexUpper _ four]
  rfl

/-- There are four of them. -/
theorem printShort_length (value : Nat) : (printShort value).length = 4 := by
  obtain ⟨_, _, _, _, _, _, _, _, printed, -⟩ := printShort_digits value
  rw [printed]
  rfl

/-- The digits are graphic, and none of them is a star. -/
theorem printShort_graphic (value : Nat) :
    ∀ char ∈ printShort value, 32 < char ∧ char < 126 ∧ char ≠ 42 := by
  have facts : ∀ digit < 16, 32 < hexUpper digit ∧ hexUpper digit < 126 ∧ hexUpper digit ≠ 42 := by
    decide
  obtain ⟨first, one, second, two, third, three, last, four, printed, -⟩ := printShort_digits value
  intro char member
  rw [printed] at member
  simp only [List.mem_cons, List.not_mem_nil, or_false] at member
  rcases member with rfl | rfl | rfl | rfl
  · exact facts _ one
  · exact facts _ two
  · exact facts _ three
  · exact facts _ four

/-! ## What the receiver reads -/

/-- The character of a turn of `sm_rx_getdat`, where one is read. -/
def Poll.read (poll : Poll) : Option UInt8 :=
  if poll.mastExpired then none
  else
    match poll.got with
    | .char rc => some rc
    | _ => none

/-- The turns of a line that is not cut and in time: they bring the bytes and leave the rest. -/
inductive Delivers : List Poll → Bytes → List Poll → Prop where
  | done (rest : List Poll) : Delivers rest [] rest
  | timeout {polls rest : List Poll} {bytes : Bytes} (later : Delivers polls bytes rest) :
      Delivers ({ got := .timeout } :: polls) bytes rest
  | char (rc : UInt8) {polls rest : List Poll} {bytes : Bytes} (later : Delivers polls bytes rest) :
      Delivers ({ got := .char rc } :: polls) (rc :: bytes) rest

/-- The loops wait for the next character. -/
theorem Delivers.next {polls rest : List Poll} {rc : UInt8} {bytes : Bytes}
    (delivers : Delivers polls (rc :: bytes) rest) :
    ∃ later, Delivers later bytes rest ∧
      (∀ buggyEmsi d pos, smRxWaitseq buggyEmsi d pos polls =
        smRxWaitseq buggyEmsi d pos ({ got := .char rc } :: later)) ∧
      ∀ emsiLen emsiDat pos, pos < emsiLen → getdatLoop emsiLen emsiDat pos polls =
        getdatLoop emsiLen emsiDat pos ({ got := .char rc } :: later) := by
  generalize whole : rc :: bytes = text at delivers
  induction delivers with
  | done => cases whole
  | timeout _ further =>
    obtain ⟨later, left, wait, get⟩ := further whole
    refine ⟨later, left, ?_, ?_⟩
    · intro buggyEmsi d pos
      exact wait buggyEmsi d pos
    · intro emsiLen emsiDat pos inside
      rw [← get emsiLen emsiDat pos inside]
      exact if_pos inside
  | char _ later =>
    cases whole
    exact ⟨_, later, fun _ _ _ => rfl, fun _ _ _ _ => rfl⟩

/-- A star begins a sequence. -/
theorem waitseq_star (buggyEmsi : Bool) (d : RxEmsidat) (pos : Nat) (polls : List Poll) :
    smRxWaitseq buggyEmsi d pos ({ got := .char 42 } :: polls) =
      smRxWaitseq buggyEmsi { d with buf := [], emsiSeq := true } 0 polls := rfl

/-- A graphic character is stored behind the others. -/
theorem waitseq_graphic (buggyEmsi caller : Bool) (taken : Bytes) {rc : UInt8} (polls : List Poll)
    (graphic : 32 < rc ∧ rc < 126 ∧ rc ≠ 42) (room : taken.length < 12) :
    smRxWaitseq buggyEmsi ⟨caller, taken, true⟩ taken.length ({ got := .char rc } :: polls) =
      if taken.length + 1 = 12 then
        match seqFull buggyEmsi ⟨caller, taken ++ [rc], true⟩ with
        | some next => (next, ⟨caller, taken ++ [rc], false⟩, polls)
        | none => smRxWaitseq buggyEmsi ⟨caller, taken ++ [rc], false⟩ (taken.length + 1) polls
      else smRxWaitseq buggyEmsi ⟨caller, taken ++ [rc], true⟩ (taken.length + 1) polls := by
  obtain ⟨above, below, star⟩ := graphic
  have flow : ¬ (rc = 17 ∨ rc = 19) := by
    rintro (rfl | rfl) <;> exact absurd above (by decide)
  have is : (true && decide (32 < rc) && decide (rc < 126)) = true := by simp [above, below]
  have others : (decide (rc = 17) || decide (rc = 19)) = false := by simpa using flow
  conv_lhs => rw [smRxWaitseq]
  simp only [Bool.false_eq_true, if_false, others, if_neg star, if_pos is, if_pos room, List.take_length]

/-- The characters of a sequence fill the buffer. -/
theorem waitseq_sequence (buggyEmsi caller : Bool) (chars taken : Bytes) {bytes : Bytes} {next : Sm}
    {polls rest : List Poll} (delivers : Delivers polls (chars ++ bytes) rest)
    (graphic : ∀ char ∈ chars, 32 < char ∧ char < 126 ∧ char ≠ 42)
    (whole : taken.length + chars.length = 12) (some_ : chars ≠ [])
    (full : seqFull buggyEmsi ⟨caller, taken ++ chars, true⟩ = some next) :
    ∃ later, Delivers later bytes rest ∧
      smRxWaitseq buggyEmsi ⟨caller, taken, true⟩ taken.length polls =
        (next, ⟨caller, taken ++ chars, false⟩, later) := by
  induction chars generalizing taken polls with
  | nil => exact absurd rfl some_
  | cons char chars later =>
    obtain ⟨first, others⟩ := List.forall_mem_cons.mp graphic
    obtain ⟨left, further, wait, -⟩ := delivers.next
    rw [List.length_cons] at whole
    rw [wait, waitseq_graphic buggyEmsi caller taken left first (by omega)]
    cases chars with
    | nil =>
      rw [if_pos (by simpa using whole), full]
      exact ⟨left, further, rfl⟩
    | cons second chars =>
      rw [List.length_cons] at whole
      rw [if_neg (by omega)]
      have place : taken.length + 1 = (taken ++ [char]).length := by
        rw [List.length_append, List.length_singleton]
      have joined : taken ++ char :: second :: chars = (taken ++ [char]) ++ second :: chars := by
        rw [List.append_assoc]
        rfl
      rw [joined] at full ⊢
      rw [place]
      refine later (taken ++ [char]) further others ?_ (List.cons_ne_nil _ _) full
      rw [← place, List.length_cons]
      omega

/-- A character and a zero are stored behind what was read. -/
theorem getdat_store {emsiLen : Nat} {emsiDat front : Bytes} {behind : UInt8} (rc : UInt8)
    (size : emsiDat.length = emsiLen + 1) (room : front.length < emsiLen)
    (stands : emsiDat.take (front.length + 1) = front ++ [behind]) :
    ∃ stored, putEnded 0 emsiDat front.length rc = some stored ∧ stored.length = emsiLen + 1 ∧
      stored.take ((front ++ [rc]).length + 1) = (front ++ [rc]) ++ [0] := by
  obtain ⟨stored, store⟩ := putEnded_inside 0 rc (show front.length + 1 < emsiDat.length by omega)
  obtain ⟨size', kept⟩ := putEnded_some store
  have before : emsiDat.take front.length = front := by
    have shorter := congrArg (List.take front.length) stands
    rwa [List.take_take, Nat.min_eq_left (by omega), List.take_left] at shorter
  have place : (front ++ [rc]).length = front.length + 1 := List.length_append
  refine ⟨stored, store, size'.trans size, ?_⟩
  rw [place, kept, before, List.append_assoc]
  rfl

/-- The loop of `sm_rx_getdat` never stores outside of its buffer. It ends where it has all
characters or the line fails, and has put down what it read, with a zero behind it. -/
theorem getdatLoop_reads (emsiLen : Nat) (polls : List Poll) (emsiDat front : Bytes) (behind : UInt8)
    (size : emsiDat.length = emsiLen + 1) (inside : front.length ≤ emsiLen)
    (stands : emsiDat.take (front.length + 1) = front ++ [behind]) :
    ∃ later used left behind',
      getdatLoop emsiLen emsiDat front.length polls =
        some (later, front.length + (used.filterMap Poll.read).length, left) ∧
      polls = used ++ left ∧ later.length = emsiLen + 1 ∧
      front.length + (used.filterMap Poll.read).length ≤ emsiLen ∧
      later.take (front.length + (used.filterMap Poll.read).length + 1) =
        front ++ used.filterMap Poll.read ++ [behind'] ∧
      (behind' = 0 ∨ used.filterMap Poll.read = [] ∧ behind' = behind) := by
  induction polls generalizing emsiDat front behind with
  | nil => exact ⟨emsiDat, [], [], behind, rfl, rfl, size, inside, by simpa using stands, Or.inr ⟨rfl, rfl⟩⟩
  | cons poll polls further =>
    unfold getdatLoop
    split
    case isFalse enough =>
      exact ⟨emsiDat, [], poll :: polls, behind, rfl, rfl, size, inside, by simpa using stands,
        Or.inr ⟨rfl, rfl⟩⟩
    case isTrue room =>
      split
      case isTrue expired =>
        have nothing : [poll].filterMap Poll.read = [] := by simp [Poll.read, expired]
        refine ⟨emsiDat, [poll], polls, behind, ?_⟩
        rw [nothing]
        exact ⟨rfl, rfl, size, inside, by simpa using stands, Or.inr ⟨rfl, rfl⟩⟩
      case isFalse inTime =>
        split
        case h_1 quiet =>
          obtain ⟨later, used, left, behind', run, split_, facts⟩ :=
            further emsiDat front behind size inside stands
          have nothing : poll.read = none := by simp [Poll.read, inTime, quiet]
          refine ⟨later, poll :: used, left, behind', ?_⟩
          rw [List.filterMap_cons_none nothing]
          exact ⟨run, congrArg (poll :: ·) split_, facts⟩
        case h_2 gone =>
          have nothing : [poll].filterMap Poll.read = [] := by simp [Poll.read, inTime, gone]
          refine ⟨emsiDat, [poll], polls, behind, ?_⟩
          rw [nothing]
          exact ⟨rfl, rfl, size, inside, by simpa using stands, Or.inr ⟨rfl, rfl⟩⟩
        case h_3 rc came =>
          obtain ⟨stored, store, size', stands'⟩ := getdat_store rc size room stands
          have place : (front ++ [rc]).length = front.length + 1 := List.length_append
          obtain ⟨later, used, left, behind', run, split_, size'', inside', front', ended⟩ :=
            further stored (front ++ [rc]) 0 size' (place ▸ room) stands'
          have one : poll.read = some rc := by simp [Poll.read, inTime, came]
          have count : front.length + (rc :: used.filterMap Poll.read).length =
              (front ++ [rc]).length + (used.filterMap Poll.read).length := by
            rw [place, List.length_cons]
            omega
          rw [store]
          refine ⟨later, poll :: used, left, behind', ?_⟩
          rw [List.filterMap_cons_some one, count]
          refine ⟨place ▸ run, congrArg (poll :: ·) split_, size'', inside', ?_, ?_⟩
          · rw [front', List.append_assoc front]
            rfl
          · rcases ended with zero | ⟨-, zero⟩
            · exact Or.inl zero
            · exact Or.inl zero

/-- A line that brings all characters fills the buffer. -/
theorem getdatLoop_delivers {emsiLen : Nat} (chars : Bytes) {bytes emsiDat front : Bytes} {behind : UInt8}
    {polls rest : List Poll} (delivers : Delivers polls (chars ++ bytes) rest)
    (size : emsiDat.length = emsiLen + 1) (whole : front.length + chars.length = emsiLen)
    (some_ : chars ≠ []) (stands : emsiDat.take (front.length + 1) = front ++ [behind]) :
    ∃ left, getdatLoop emsiLen emsiDat front.length polls = some (front ++ chars ++ [0], emsiLen, left) ∧
      Delivers left bytes rest := by
  induction chars generalizing emsiDat front behind polls with
  | nil => exact absurd rfl some_
  | cons char chars further =>
    rw [List.length_cons] at whole
    have room : front.length < emsiLen := by omega
    obtain ⟨later, after, -, get⟩ := delivers.next
    obtain ⟨stored, store, size', stands'⟩ := getdat_store char size room stands
    have place : (front ++ [char]).length = front.length + 1 := List.length_append
    have turn : getdatLoop emsiLen emsiDat front.length polls =
        getdatLoop emsiLen stored (front ++ [char]).length later := by
      rw [get emsiLen emsiDat _ room, place]
      simp only [getdatLoop, if_pos room, store]
      rfl
    rw [turn]
    cases chars with
    | nil =>
      have all : (front ++ [char]).length = emsiLen := by
        rw [place]
        exact whole
      have full : stored = front ++ [char] ++ [0] := by
        rw [← stands', all, ← size', List.take_length]
      refine ⟨later, ?_, after⟩
      rw [all, ← full]
      cases later with
      | nil => rfl
      | cons poll polls => exact if_neg (lt_irrefl _)
    | cons second chars =>
      obtain ⟨left, run, left'⟩ := further after size' (by rw [place, ← whole, List.length_cons]; omega)
        (List.cons_ne_nil _ _) stands'
      refine ⟨left, ?_, left'⟩
      rw [run, List.append_assoc front]
      rfl

/-! ## The frame -/

/-- Four digits are read as their number. -/
theorem scanHex_digits {text : Bytes} (four : text.length = 4) (digits : hexSpan text = 4) :
    scanHex 4 text = some ((hexNumber text : Int), []) := by
  have all : text.takeWhile (fun char => (xdigit char).isSome) = text :=
    (List.takeWhile_prefix _).eq_of_length (digits.trans four.symm)
  have field := scanHex_field four (by decide) (List.takeWhile_eq_self_iff.mp all) []
  rwa [List.append_nil] at field

/-- What is on the line behind a sequence for a packet. -/
structure Frame (buf chars : Bytes) (length : Nat) : Prop where
  digits : hexSpan (buf.drop 8) = 4
  announced : hexNumber (buf.drop 8) = length
  bounded : length ≤ emsiMaxdat
  whole : chars.length = length + 4
  crc : (scanHex 4 (cstring (chars.drop length))).map (fun read => (read.1 % 2 ^ 16).toNat) =
    some (getcrc16xmodem (buf ++ chars.take length)).toNat

/-- A sequence that begins a packet fills the buffer. -/
theorem waitseq_full {buggyEmsi : Bool} {d d' : RxEmsidat} {pos : Nat} {polls later : List Poll}
    (begins : smRxWaitseq buggyEmsi d pos polls = (.sm3, d', later))
    (stored : pos ≤ d.buf.length) (room : d.emsiSeq = true → pos < 12) :
    d'.buf.length = 12 := by
  induction polls generalizing d pos with
  | nil => cases begins
  | cons poll polls further =>
    unfold smRxWaitseq at begins
    split at begins
    · cases begins
    split at begins
    · cases begins
    split at begins
    · exact further begins stored room
    · cases begins
    rename_i rc _
    split at begins
    · exact further begins stored room
    split at begins
    · exact further begins (Nat.zero_le _) fun _ => by decide
    split at begins
    case isFalse => exact further begins stored nofun
    case isTrue graphic =>
      have sequence : d.emsiSeq = true := by
        simp only [Bool.and_eq_true] at graphic
        exact graphic.1.1
      have free := room sequence
      have size : (d.buf.take pos ++ [rc]).length = pos + 1 := by
        rw [List.length_append, List.length_take, Nat.min_eq_left stored]
        rfl
      simp only [if_pos free] at begins
      split at begins
      case isTrue last =>
        split at begins
        · cases begins
          exact size.trans last
        · exact further begins size.ge nofun
      case isFalse more => exact further begins size.ge fun _ => by omega

/-- `sm_rx_getdat` stores nothing outside of its buffer, and takes only a packet that is framed. -/
theorem smRxPacket_framed (heap : Heap) (clearin : List Poll → List Poll) {buf : Bytes}
    (full : buf.length = 12) (polls : List Poll) :
    ∃ result left, smRxPacket heap clearin buf polls = some (result, left) ∧
      ∀ emsiDat, result = .packet emsiDat → ∃ used length, polls = used ++ left ∧
        Frame buf (used.filterMap Poll.read) length ∧
        emsiDat = buf ++ used.filterMap Poll.read ++ [0] := by
  unfold smRxPacket
  split
  case isTrue bad => exact ⟨_, _, rfl, by rintro _ ⟨⟩⟩
  case isFalse digits =>
    rw [not_not] at digits
    rw [scanHex_digits (by rw [List.length_drop, full]) digits]
    dsimp only
    split
    case isTrue long => exact ⟨_, _, rfl, by rintro _ ⟨⟩⟩
    case isFalse bounded =>
      rw [Int.toNat_natCast]
      generalize announced : hexNumber (buf.drop 8) = length at bounded
      have copied : strncpy buf 12 = buf := by
        rw [strncpy, full, List.take_of_length_le full.le]
        exact List.append_nil _
      have size := heap.size (length + 16 + 1)
      obtain ⟨begun, copy, size', front⟩ := putAll_inside (strncpy buf 12) (heap.xmalloc (length + 16 + 1)) 0
        (by rw [copied, full, size]; omega)
      rw [copy]
      rw [copied, full, List.take_zero, List.nil_append, Nat.zero_add] at front
      have place : begun.length = length + 16 + 1 := size'.trans size
      have inside : 12 < begun.length := by omega
      have stands : begun.take (buf.length + 1) = buf ++ [begun[12]] := by
        rw [full, List.take_succ_eq_append_getElem inside, front]
      obtain ⟨later, used, left, behind, run, split_, size'', most, kept, ended⟩ :=
        getdatLoop_reads (length + 16) polls begun buf _ place (by omega) stands
      rw [full] at run most kept
      dsimp only
      rw [run]
      dsimp only
      split
      case isTrue short => exact ⟨_, _, rfl, by rintro _ ⟨⟩⟩
      case isFalse whole =>
        rw [not_not] at whole
        have count : (used.filterMap Poll.read).length = length + 4 := by omega
        have zero : behind = 0 := by
          rcases ended with zero | ⟨none_, -⟩
          · exact zero
          · rw [none_] at count
            exact absurd count (by simp)
        have all : later = buf ++ used.filterMap Poll.read ++ [0] := by
          rw [whole, ← size'', List.take_length, zero] at kept
          exact kept
        have text : later.take (length + 16 - 4) = buf ++ (used.filterMap Poll.read).take length := by
          rw [all, show length + 16 - 4 = buf.length + length by omega, List.append_assoc,
            List.take_length_add_append, List.take_append_of_le_length (by omega)]
        have sum : later.drop (length + 16 - 4) = (used.filterMap Poll.read).drop length ++ [0] := by
          rw [all, show length + 16 - 4 = buf.length + length by omega, List.append_assoc,
            List.drop_length_add_append, List.drop_append_of_le_length (by omega)]
        have read : remcrc later (length + 16) =
            (scanHex 4 (cstring ((used.filterMap Poll.read).drop length))).map
              (fun read => (read.1 % 2 ^ 16).toNat) := by
          rw [remcrc, sum, cstring_ended]
        split
        case h_1 => exact ⟨_, _, rfl, by rintro _ ⟨⟩⟩
        case h_2 remote crc =>
          split
          case isTrue bad => exact ⟨_, _, rfl, by rintro _ ⟨⟩⟩
          case isFalse same =>
            rw [not_not, text] at same
            refine ⟨_, _, rfl, ?_⟩
            intro _ same'
            cases same'
            refine ⟨used, length, split_, ⟨digits, announced, ?_, count, ?_⟩, all⟩
            · omega
            · rw [← read, crc, same]

/-- A short number is read back. -/
theorem hexNumber_printShort (value : Nat) : hexNumber (printShort value) = value % 2 ^ 16 := by
  obtain ⟨first, one, second, two, third, three, last, four, printed, same⟩ := printShort_digits value
  rw [printed, same]
  simp [hexNumber, xdigit_hexUpper _ one, xdigit_hexUpper _ two, xdigit_hexUpper _ three,
    xdigit_hexUpper _ four]

theorem scanHex_printShort (value : Nat) :
    scanHex 4 (printShort value) = some (((value % 2 ^ 16 : Nat) : Int), []) := by
  rw [scanHex_digits (printShort_length value) (hexSpan_printShort value), hexNumber_printShort]

/-- The sequence a packet begins with. -/
def datSequence (length : Nat) : Bytes := ascii "EMSI_DAT" ++ printShort length

/-- It fills the buffer. -/
theorem datSequence_length (length : Nat) : (datSequence length).length = 12 := by
  rw [datSequence, List.length_append, printShort_length]
  rfl

/-- It is taken for the beginning of a packet. -/
theorem seqFull_dat (buggyEmsi caller : Bool) (length : Nat) :
    seqFull buggyEmsi ⟨caller, datSequence length, true⟩ = some .sm3 := by
  have begins : (datSequence length).take 8 = ascii "EMSI_DAT" :=
    List.take_left' (by decide)
  have other : ∀ name : String, (ascii name).length = 12 →
      strcasecmp (ascii "EMSI_DAT") ((ascii name).take 8) = false →
      sequenceIs (datSequence length) name = false := by
    intro name size differs
    by_contra same
    rw [Bool.not_eq_false, sequenceIs, strcasecmp, beq_iff_eq, size] at same
    have shorter := congrArg (List.take 8) same
    rw [← List.map_take, ← List.map_take, List.take_take, show min 8 12 = 8 from rfl, begins] at shorter
    rw [strcasecmp, shorter, beq_self_eq_true] at differs
    cases differs
  have is : sequenceIs (datSequence length) "EMSI_DAT" = true := by
    rw [sequenceIs, show (ascii "EMSI_DAT").length = 8 from rfl, begins]
    decide
  unfold seqFull
  rw [other "EMSI_ACKA490" (by decide) (by decide),
    other "EMSI_HBTEAEE" (by decide) (by decide), is, Bool.and_false]
  rfl

/-- The sequence is found on the line, whatever was read before. -/
theorem waitseq_dat (buggyEmsi : Bool) (d : RxEmsidat) (pos length : Nat) {polls rest : List Poll} {bytes : Bytes}
    (delivers : Delivers polls (42 :: 42 :: (datSequence length ++ bytes)) rest) :
    ∃ later, Delivers later bytes rest ∧
      smRxWaitseq buggyEmsi d pos polls = (.sm3, ⟨d.caller, datSequence length, false⟩, later) := by
  obtain ⟨first, delivers, wait, -⟩ := delivers.next
  obtain ⟨second, delivers, wait', -⟩ := delivers.next
  have graphic : ∀ char ∈ datSequence length, 32 < char ∧ char < 126 ∧ char ≠ 42 := by
    intro char member
    rcases List.mem_append.mp member with name | digits
    · have all : (ascii "EMSI_DAT").all (fun char => 32 < char ∧ char < 126 ∧ char ≠ 42) = true := by decide
      exact of_decide_eq_true (List.all_eq_true.mp all char name)
    · exact printShort_graphic length char digits
  have some_ : datSequence length ≠ [] := by
    intro none_
    have size := datSequence_length length
    rw [none_] at size
    cases size
  obtain ⟨later, left, found⟩ := waitseq_sequence buggyEmsi d.caller (datSequence length) [] delivers graphic
    (by rw [List.length_nil, Nat.zero_add, datSequence_length]) some_ (seqFull_dat _ _ length)
  refine ⟨later, left, ?_⟩
  rw [wait, waitseq_star, wait', waitseq_star]
  exact found

/-- A packet that is not too long is taken from the line. -/
theorem smRxPacket_delivers (heap : Heap) (clearin : List Poll → List Poll) {body bytes : Bytes}
    {polls rest : List Poll} (short : body.length ≤ emsiMaxdat)
    (delivers : Delivers polls
      (body ++ printShort (getcrc16xmodem (datSequence body.length ++ body)).toNat ++ bytes) rest) :
    ∃ left, Delivers left bytes rest ∧
      smRxPacket heap clearin (datSequence body.length) polls =
        some (.packet (datSequence body.length ++
          (body ++ printShort (getcrc16xmodem (datSequence body.length ++ body)).toNat) ++ [0]), left) := by
  have full := datSequence_length body.length
  have wrap : body.length % 2 ^ 16 = body.length := by
    have most : body.length ≤ 16384 := short
    omega
  have digits : (datSequence body.length).drop 8 = printShort body.length :=
    List.drop_left' (by decide)
  have sumSize := printShort_length (getcrc16xmodem (datSequence body.length ++ body)).toNat
  have sumWhole : cstring (printShort (getcrc16xmodem (datSequence body.length ++ body)).toNat) =
      printShort (getcrc16xmodem (datSequence body.length ++ body)).toNat := by
    apply cstring_whole
    rintro char member rfl
    exact absurd (printShort_graphic _ 0 member).1 (by decide)
  have sum := scanHex_printShort (getcrc16xmodem (datSequence body.length ++ body)).toNat
  rw [Nat.mod_eq_of_lt (getcrc16xmodem _).toNat_lt] at sum
  generalize made : getcrc16xmodem (datSequence body.length ++ body) = crc at *
  generalize printShort crc.toNat = sumText at *
  unfold smRxPacket
  rw [digits, hexSpan_printShort, if_neg (not_not_intro rfl), scanHex_printShort, wrap]
  dsimp only
  rw [if_neg (by exact_mod_cast not_lt.mpr short), Int.toNat_natCast]
  have copied : strncpy (datSequence body.length) 12 = datSequence body.length := by
    rw [strncpy, full, List.take_of_length_le full.le]
    exact List.append_nil _
  have size := heap.size (body.length + 16 + 1)
  obtain ⟨begun, copy, size', front⟩ := putAll_inside (datSequence body.length)
    (heap.xmalloc (body.length + 16 + 1)) 0 (by rw [full, size]; omega)
  rw [full, List.take_zero, List.nil_append, Nat.zero_add] at front
  have place : begun.length = body.length + 16 + 1 := size'.trans size
  have inside : 12 < begun.length := by omega
  have stands : begun.take ((datSequence body.length).length + 1) = datSequence body.length ++ [begun[12]] := by
    rw [full, List.take_succ_eq_append_getElem inside, front]
  have some_ : body ++ sumText ≠ [] := by
    intro none_
    have both := congrArg List.length none_
    rw [List.length_append, sumSize] at both
    exact absurd both (by simp)
  obtain ⟨left, run, left'⟩ := getdatLoop_delivers (body ++ sumText) delivers place
    (by rw [full, List.length_append, sumSize]; omega) some_ stands
  rw [full] at run
  refine ⟨left, left', ?_⟩
  rw [copied, copy]
  dsimp only
  rw [run]
  dsimp only
  have cut : body.length + 16 - 4 = (datSequence body.length ++ body).length := by
    rw [List.length_append, full]
    omega
  have shape : datSequence body.length ++ (body ++ sumText) ++ [0] =
      (datSequence body.length ++ body) ++ (sumText ++ [0]) := by
    simp only [List.append_assoc]
  have read : remcrc (datSequence body.length ++ (body ++ sumText) ++ [0]) (body.length + 16) =
      some crc.toNat := by
    rw [remcrc, cut, shape, List.drop_left, cstring_ended, sumWhole, sum, Option.map_some]
    refine congrArg some ?_
    have bound := crc.toNat_lt
    dsimp only
    omega
  rw [if_neg (not_not_intro rfl), read]
  dsimp only
  rw [cut, shape, List.take_left, made, if_neg (not_not_intro rfl)]

/-! ## From the sender to the receiver -/

/-- The text of a packet in the buffer, between its sequence and its check sum. -/
def packetText (emsiDat : Bytes) : Bytes := (emsiDat.drop 12).take (emsiDat.length - 17)

/-- The packet on the line is found and taken, and has this text. -/
def TakesText (heap : Heap) (clearin : List Poll → List Poll) (buggyEmsi : Bool) (d : RxEmsidat)
    (polls : List Poll) (text : Bytes) : Prop :=
  ∃ d' later emsiDat left, smRxWaitseq buggyEmsi d 0 polls = (.sm3, d', later) ∧
    smRxPacket heap clearin d'.buf later = some (.packet emsiDat, left) ∧ packetText emsiDat = text ∧
    (0 ∉ text → ∃ crc, crc.length = 4 ∧ (∀ char ∈ crc.head?, char ≠ 123 ∧ char ≠ 125) ∧
      cstring (emsiDat.drop 12) = text ++ crc)

/-- A short number does not begin with a brace. -/
theorem printShort_brace (value : Nat) : ∀ char ∈ (printShort value).head?, char ≠ 123 ∧ char ≠ 125 := by
  have braces : ∀ digit < 16, hexUpper digit ≠ 123 ∧ hexUpper digit ≠ 125 := by decide
  obtain ⟨digit, small, _, _, _, _, _, _, printed, -⟩ := printShort_digits value
  intro char first
  rw [printed] at first
  cases first
  exact braces digit small

/-- The bytes on the line begin with the sequence. -/
theorem smTxSenddat_created (locale : Locale) (localaddrs : List LinkAddr) (emsi : Emsi) :
    smTxSenddat (emsiCreatedat locale localaddrs emsi) =
      42 :: 42 :: (datSequence (emsiBody locale localaddrs emsi).length ++
        (emsiBody locale localaddrs emsi ++ printShort (getcrc16xmodem
          (datSequence (emsiBody locale localaddrs emsi).length ++ emsiBody locale localaddrs emsi)).toNat ++
          [13])) := by
  have stars : ascii "**EMSI_DAT" = 42 :: 42 :: ascii "EMSI_DAT" := by decide
  have packet : emsiCreatedat locale localaddrs emsi =
      42 :: 42 :: (datSequence (emsiBody locale localaddrs emsi).length ++ emsiBody locale localaddrs emsi) := by
    unfold emsiCreatedat datSequence
    rw [stars]
    rfl
  unfold smTxSenddat
  rw [packet]
  simp only [List.drop_succ_cons, List.drop_zero, List.cons_append, List.append_assoc]

/-- Every packet of at most `EMSI_MAXDAT` bytes that `sm_tx_senddat` writes is taken with its
text; and whatever is on the line, nothing is stored outside of the buffer, and a packet is
taken only where its length is allowed, as many bytes follow and the CRC is right. -/
theorem emsi_frame (heap : Heap) (clearin : List Poll → List Poll) (buggyEmsi : Bool) (d : RxEmsidat) :
    (∀ locale localaddrs emsi polls rest, (emsiBody locale localaddrs emsi).length ≤ emsiMaxdat →
      Delivers polls (smTxSenddat (emsiCreatedat locale localaddrs emsi)) rest →
      TakesText heap clearin buggyEmsi d polls (emsiBody locale localaddrs emsi)) ∧
    ∀ polls d' later, smRxWaitseq buggyEmsi d 0 polls = (.sm3, d', later) →
      ∃ result left, smRxPacket heap clearin d'.buf later = some (result, left) ∧
        ∀ emsiDat, result = .packet emsiDat → ∃ used length, later = used ++ left ∧
          Frame d'.buf (used.filterMap Poll.read) length ∧
          emsiDat = d'.buf ++ used.filterMap Poll.read ++ [0] := by
  constructor
  · intro locale localaddrs emsi polls rest short delivers
    rw [smTxSenddat_created] at delivers
    obtain ⟨later, delivers, found⟩ := waitseq_dat buggyEmsi d 0 _ delivers
    obtain ⟨left, -, taken⟩ := smRxPacket_delivers heap clearin short delivers
    generalize (getcrc16xmodem _).toNat = crc at taken
    refine ⟨_, later, _, left, found, taken, ?_, ?_⟩
    · have full := datSequence_length (emsiBody locale localaddrs emsi).length
      have four := printShort_length
      unfold packetText
      rw [List.append_assoc, List.drop_left' full, List.length_append, full, List.append_assoc,
        List.take_left']
      rw [List.length_append, List.length_append, four, List.length_singleton]
      omega
    · intro whole
      refine ⟨printShort crc, printShort_length crc, printShort_brace crc, ?_⟩
      · rw [List.append_assoc, List.drop_left' (datSequence_length _), cstring_ended, cstring_whole]
        intro char member
        rcases List.mem_append.mp member with text | digit
        · rintro rfl
          exact whole text
        · rintro rfl
          exact absurd (printShort_graphic _ 0 digit).1 (by decide)
  · intro polls d' later found
    exact smRxPacket_framed heap clearin (waitseq_full found (Nat.zero_le _) fun _ => by decide) later

/-- A text that is longer than `EMSI_MAXDAT` is never taken as a whole. -/
theorem takesText_short {heap : Heap} {clearin : List Poll → List Poll} {buggyEmsi : Bool} {d : RxEmsidat}
    {polls : List Poll} {text : Bytes} (takes : TakesText heap clearin buggyEmsi d polls text) :
    text.length ≤ emsiMaxdat := by
  obtain ⟨d', later, emsiDat, left, found, taken, rfl, -⟩ := takes
  have full := waitseq_full found (Nat.zero_le _) fun _ => by decide
  obtain ⟨result, left', taken', framed⟩ := smRxPacket_framed heap clearin full later
  rw [taken'] at taken
  cases taken
  obtain ⟨used, length, -, frame, rfl⟩ := framed emsiDat rfl
  have bounded := frame.bounded
  have whole := frame.whole
  unfold packetText
  rw [List.length_take, List.length_append, List.length_append, full, whole, List.length_singleton]
  omega

/-- A line that brings its bytes in time. -/
theorem delivers_prompt (bytes : Bytes) : Delivers (bytes.map fun rc => { got := .char rc }) bytes [] := by
  induction bytes with
  | nil => exact .done []
  | cons rc bytes later => exact .char rc later

/-- A heap of zeros. -/
def zeroHeap : Heap where
  xmalloc bytes := List.replicate bytes 0
  size _ := List.length_replicate

/-- A packet with a single address is taken. -/
theorem emsi_frame_single :
    let addrs : List LinkAddr := [{ addr := { zone := 2, net := 5020, node := 1398 } }]
    TakesText zeroHeap id false { caller := true }
        ((smTxSenddat (emsiCreatedat localeC addrs { haveEmsi := true })).map fun rc => { got := .char rc })
        (emsiBody localeC addrs { haveEmsi := true }) ∧
      ∃ result left, smRxPacket zeroHeap id (ascii "EMSI_DAT0001") [{ got := .hangup }] =
        some (result, left) := by
  constructor
  · exact (emsi_frame zeroHeap id false _).1 _ _ _ _ _ (by decide) (delivers_prompt _)
  · have found : smRxWaitseq false { caller := true } 0
        (((ascii "*EMSI_DAT0001").map fun rc => ({ got := .char rc } : Poll)) ++ [{ got := .hangup }]) =
          (.sm3, { caller := true, buf := ascii "EMSI_DAT0001" }, [{ got := .hangup }]) := by
      decide
    obtain ⟨result, left, taken, -⟩ := (emsi_frame zeroHeap id false _).2 _ _ _ found
    exact ⟨result, left, taken⟩

/-- The addresses of a system with many nodes. -/
def manyAddrs : List LinkAddr :=
  (List.range 16400).map fun node : Nat => { addr := { zone := 2, net := 5020, node := (node : Int) } }

/-- There is a blank between two addresses. -/
theorem addrsText_blanks (locale : Locale) (addrs : List LinkAddr) :
    addrs.length ≤ (addrsText locale addrs).length + 1 := by
  induction addrs with
  | nil => exact Nat.zero_le _
  | cons addr rest later =>
    cases rest with
    | nil => exact Nat.le_add_left _ _
    | cons second rest =>
      rw [addrsText.eq_3 _ _ _ (List.cons_ne_nil _ _)]
      simp only [List.length_append, List.length_cons] at later ⊢
      omega

/-- A packet with as many addresses as `EMSI_MAXDAT` has bytes is not taken. -/
theorem manyAddrs_refused {heap : Heap} {clearin : List Poll → List Poll} {buggyEmsi : Bool} {d : RxEmsidat}
    {polls : List Poll} (locale : Locale) (addrs : List LinkAddr) {emsi : Emsi} (present : emsi.haveEmsi = true)
    (many : emsiMaxdat < addrs.length) :
    ¬ TakesText heap clearin buggyEmsi d polls (emsiBody locale addrs emsi) := by
  intro takes
  have short := takesText_short takes
  have blanks := addrsText_blanks locale addrs
  have inside : (addrsText locale addrs).length + 2 ≤ (emsiBody locale addrs emsi).length := by
    simp only [emsiBody, createEmsi, braced, present, if_true, List.length_append, List.length_cons,
      List.length_nil]
    omega
  omega

/-- A packet that is longer than `EMSI_MAXDAT` is refused. -/
theorem long_refused : ¬ ∀ heap clearin buggyEmsi d locale localaddrs emsi polls rest,
    Delivers polls (smTxSenddat (emsiCreatedat locale localaddrs emsi)) rest →
    TakesText heap clearin buggyEmsi d polls (emsiBody locale localaddrs emsi) := by
  intro all
  have many : emsiMaxdat < manyAddrs.length := by
    rw [manyAddrs, List.length_map, List.length_range]
    decide
  exact manyAddrs_refused localeC manyAddrs rfl many (all zeroHeap id false { caller := true } localeC manyAddrs
    { haveEmsi := true } _ [] (delivers_prompt _))

end Binkleyforce
