import Binkleyforce.Hydra.Batch
import Mathlib.Data.Nat.Bitwise

/-!
# The options of a Hydra link

Each end computes the options from what it wants and can do and from the INIT packet of the
other end. Here the end is a parameter: `HYDRA_CANOPT` and the options of `s_hydrainfo`. The
pointers of `hydra_parse_init` are places in the memory that begins with the packet.
-/

namespace Binkleyforce

/-! ## The strings of an INIT packet -/

/-- Behind the string at a place and its zero. -/
def stringEnd (memory : Bytes) (place : Nat) : Nat := place + (cstring (memory.drop place)).length + 1

/-- Where the strings behind the application information begin. -/
structure InitFields where
  canopt : Nat
  desopt : Nat
  window : Nat
  prefixString : Nat
  deriving DecidableEq

/-- The pointers of `hydra_parse_init`, where none of them is NULL. -/
def initFields (memory : Bytes) (pktlen : Nat) : Option InitFields :=
  let canopt := stringEnd memory 8
  let desopt := stringEnd memory canopt
  let window := stringEnd memory desopt
  if canopt < pktlen ∧ desopt < pktlen ∧ window < pktlen then
    some ⟨canopt, desopt, window, stringEnd memory window⟩
  else none

/-- The packet has more than a time, and ends with a zero. -/
def InitWhole (pkt : Bytes) : Prop := 8 < pkt.length ∧ pkt.getLast? = some 0

instance (pkt : Bytes) : Decidable (InitWhole pkt) := by
  unfold InitWhole
  infer_instance

/-- The ends of the strings `hydra_parse_init` reads: the time, the application information, and
each string whose pointer is inside of the packet. Where it writes to the debug file, it reads
the last string from its pointer, wherever that is. -/
def initReads (debug : Bool) (memory : Bytes) (pktlen : Nat) : List Nat :=
  let canopt := stringEnd memory 8
  let desopt := stringEnd memory canopt
  let window := stringEnd memory desopt
  [stringEnd memory 0, canopt] ++ (if canopt < pktlen then [desopt] else []) ++
    (if canopt < pktlen ∧ desopt < pktlen then [window] else []) ++
    (if canopt < pktlen ∧ desopt < pktlen ∧ window < pktlen then [stringEnd memory window] else []) ++
    match initFields memory pktlen with
    | some fields => if debug then [stringEnd memory fields.prefixString] else []
    | none => []

/-- The packet ends with the windows, and has no string behind them. -/
def EndsWithWindow (pkt : Bytes) : Prop :=
  InitWhole pkt ∧ ∃ fields ∈ initFields pkt pkt.length, fields.prefixString = pkt.length

/-- Nothing behind the packet is read. -/
def ReadsInside (debug : Bool) (pkt : Bytes) : Prop :=
  InitWhole pkt → ∀ beyond, ∀ place ∈ initReads debug (pkt ++ beyond) pkt.length, place ≤ pkt.length

/-- A text with a zero is a string, whatever follows it. -/
theorem cstring_zero {text : Bytes} (zero : 0 ∈ text) (beyond : Bytes) :
    cstring (text ++ beyond) = cstring text ∧ (cstring text).length < text.length := by
  obtain ⟨front, back, rfl⟩ := List.append_of_mem zero
  rw [List.append_assoc, List.cons_append, cstring_ended, cstring_ended, List.length_append, List.length_cons]
  have short := (List.takeWhile_prefix (· ≠ 0) (l := front)).length_le
  unfold cstring
  exact ⟨rfl, by omega⟩

/-- A string that begins inside of the packet ends inside. -/
theorem stringEnd_inside {pkt : Bytes} (whole : InitWhole pkt) (beyond : Bytes) {place : Nat}
    (inside : place < pkt.length) :
    stringEnd (pkt ++ beyond) place = stringEnd pkt place ∧ stringEnd pkt place ≤ pkt.length := by
  have last : (pkt.drop place).getLast? = some 0 := by
    rw [List.getLast?_drop, if_neg (by omega), whole.2]
  obtain ⟨same, short⟩ := cstring_zero (List.mem_of_getLast? last) beyond
  unfold stringEnd
  rw [List.drop_append_of_le_length inside.le, same]
  rw [List.length_drop] at short
  exact ⟨rfl, by omega⟩

/-- A string has at least its zero. -/
theorem stringEnd_after (memory : Bytes) (place : Nat) : place < stringEnd memory place := by
  unfold stringEnd
  omega

/-- What follows the packet does not matter for its strings. -/
theorem initFields_packet {pkt : Bytes} (whole : InitWhole pkt) (beyond : Bytes) :
    initFields (pkt ++ beyond) pkt.length = initFields pkt pkt.length := by
  have first := (stringEnd_inside whole beyond whole.1).1
  unfold initFields
  dsimp only
  rw [first]
  by_cases canopt : stringEnd pkt 8 < pkt.length
  · rw [(stringEnd_inside whole beyond canopt).1]
    by_cases desopt : stringEnd pkt (stringEnd pkt 8) < pkt.length
    · rw [(stringEnd_inside whole beyond desopt).1]
      by_cases window : stringEnd pkt (stringEnd pkt (stringEnd pkt 8)) < pkt.length
      · rw [(stringEnd_inside whole beyond window).1]
      · rw [if_neg fun all => window all.2.2, if_neg fun all => window all.2.2]
    · rw [if_neg fun all => desopt all.2.1, if_neg fun all => desopt all.2.1]
  · rw [if_neg fun all => canopt all.1, if_neg fun all => canopt all.1]

/-- The packet has the strings of a whole one, and the last pointer is not behind its end. -/
theorem initFields_spec {memory : Bytes} {pktlen : Nat} {fields : InitFields}
    (there : fields ∈ initFields memory pktlen) :
    fields.canopt = stringEnd memory 8 ∧ fields.desopt = stringEnd memory fields.canopt ∧
      fields.window = stringEnd memory fields.desopt ∧
      fields.prefixString = stringEnd memory fields.window ∧
      fields.canopt < pktlen ∧ fields.desopt < pktlen ∧ fields.window < pktlen := by
  unfold initFields at there
  dsimp only at there
  split at there
  · rename_i inside
    cases there
    exact ⟨rfl, rfl, rfl, rfl, inside⟩
  · cases there

/-- Nothing behind the packet is read, but where a string that is not there is written to the
debug file. -/
theorem readsInside_iff (debug : Bool) (pkt : Bytes) :
    ReadsInside debug pkt ↔ ¬ (debug = true ∧ EndsWithWindow pkt) := by
  constructor
  · rintro reads ⟨rfl, whole, fields, there, last⟩
    have member : stringEnd pkt fields.prefixString ∈ initReads true pkt pkt.length := by
      unfold initReads
      rw [there]
      simp
    have inside := reads whole [] (stringEnd pkt fields.prefixString)
    rw [List.append_nil] at inside
    have after := stringEnd_after pkt fields.prefixString
    have short := inside member
    omega
  · intro other whole beyond place member
    have string (at_ : Nat) (inside : at_ < pkt.length) :
        stringEnd (pkt ++ beyond) at_ ≤ pkt.length := by
      obtain ⟨same, short⟩ := stringEnd_inside whole beyond inside
      rwa [same]
    have time : 0 < pkt.length := Nat.lt_of_le_of_lt (Nat.zero_le 8) whole.1
    unfold initReads at member
    simp only [List.mem_append, List.mem_cons, List.not_mem_nil, or_false] at member
    rcases member with (((first | desopt) | window) | prefixString) | written
    · rcases first with rfl | rfl
      · exact string 0 time
      · exact string 8 whole.1
    · split at desopt
      · rw [List.mem_singleton.mp desopt]
        exact string _ ‹_›
      · cases desopt
    · split at window
      · rename_i inside
        rw [List.mem_singleton.mp window]
        exact string _ inside.2
      · cases window
    · split at prefixString
      · rename_i inside
        rw [List.mem_singleton.mp prefixString]
        exact string _ inside.2.2
      · cases prefixString
    · -- The last string is read from its pointer, which may be behind the packet.
      rw [initFields_packet whole beyond] at written
      split at written
      · rename_i fields there
        split at written
        · rename_i writes
          rw [List.mem_singleton.mp written]
          have spec := initFields_spec there
          have short : fields.prefixString ≤ pkt.length := by
            have := (stringEnd_inside whole [] spec.2.2.2.2.2.2).2
            rwa [← spec.2.2.2.1] at this
          have more : fields.prefixString ≠ pkt.length := by
            intro last
            exact other ⟨writes, whole, fields, there, last⟩
          exact string _ (by omega)
        · cases written
      · cases written

/-! ## The two ends -/

/-- An end of the link: `HYDRA_CANOPT` and the options it wants. -/
structure HydraSide where
  canopt : Nat
  options : Nat

/-- What `hydra_parse_init` says of a packet: it is no INIT packet, or these are the options,
which it refuses or takes. -/
inductive InitAnswer where
  | invalid
  | incompatible (rxoptions : Nat)
  | agreed (rxoptions : Nat)
  deriving DecidableEq

namespace HydraSide

/-- The options of the link, when the other end wants and can do these. -/
def common (side : HydraSide) (desopt canopt : Nat) : Nat :=
  (side.options ||| desopt) &&& canopt &&& side.canopt

/-- The options that must be there, if this end wants them. -/
def necessary (side : HydraSide) : Nat := side.options &&& hydraNecopt

/-- `hydra_parse_init` up to the windows. The necessary options are compared as numbers. -/
def parseInit (side : HydraSide) (pkt : Bytes) : InitAnswer :=
  if InitWhole pkt then
    match initFields pkt pkt.length with
    | some fields =>
      let rxoptions := side.common (hydraGetflags (cstring (pkt.drop fields.desopt)))
        (hydraGetflags (cstring (pkt.drop fields.canopt)))
      if rxoptions < side.necessary then .incompatible rxoptions else .agreed rxoptions
    | none => .invalid
  else .invalid

/-- This packet is one an end sends: it names what the end can do and wants, in any order and
among other names, and has all strings. -/
def Announces (side : HydraSide) (pkt : Bytes) : Prop :=
  InitWhole pkt ∧ ∃ fields ∈ initFields pkt pkt.length,
    hydraGetflags (cstring (pkt.drop fields.canopt)) = side.canopt ∧
      hydraGetflags (cstring (pkt.drop fields.desopt)) = side.options

/-- The options both ends can do and at least one of them wants. -/
def Common (a b : HydraSide) (option : Nat) : Prop :=
  (a.options.testBit option ∨ b.options.testBit option) ∧ a.canopt.testBit option ∧
    b.canopt.testBit option

/-- An option that one of them wants and that is necessary is not common. -/
def Missing (a b : HydraSide) : Prop :=
  ∃ option, (a.necessary.testBit option ∨ b.necessary.testBit option) ∧ ¬ Common a b option

/-- The highest option on which the common ones differ from those an end needs is one that it
needs. -/
def Outranked (side a b : HydraSide) : Prop :=
  ∃ option, side.necessary.testBit option ∧ ¬ Common a b option ∧
    ∀ higher > option, side.necessary.testBit higher ↔ Common a b higher

end HydraSide

open HydraSide

/-- The answer to a packet that is announced. -/
theorem parseInit_announced {side other : HydraSide} {pkt : Bytes} (announced : other.Announces pkt) :
    side.parseInit pkt =
      if side.common other.options other.canopt < side.necessary then
        .incompatible (side.common other.options other.canopt)
      else .agreed (side.common other.options other.canopt) := by
  obtain ⟨whole, fields, there, canopt, desopt⟩ := announced
  unfold HydraSide.parseInit
  rw [if_pos whole, there]
  dsimp only
  rw [canopt, desopt]

/-- Both ends find the same options. -/
theorem common_symm (a b : HydraSide) :
    a.common b.options b.canopt = b.common a.options a.canopt := by
  unfold HydraSide.common
  rw [Nat.or_comm, Nat.and_assoc, Nat.and_assoc, Nat.and_comm b.canopt]

/-- What an end computes are the common options. -/
theorem testBit_common (a b : HydraSide) (option : Nat) :
    (a.common b.options b.canopt).testBit option = true ↔ Common a b option := by
  unfold HydraSide.common Common
  rw [Nat.testBit_and, Nat.testBit_and, Nat.testBit_or, Bool.and_eq_true, Bool.and_eq_true,
    Bool.or_eq_true, and_assoc, and_comm (a := b.canopt.testBit option = true)]

/-- A number is less than another where the highest bit on which they differ is one of the other. -/
theorem lt_iff_testBit (m n : Nat) :
    m < n ↔ ∃ i, n.testBit i = true ∧ ¬ m.testBit i = true ∧
      ∀ j > i, n.testBit j = true ↔ m.testBit j = true := by
  constructor
  · intro less
    have differ : m ^^^ n ≠ 0 := by
      intro same
      exact less.ne (Nat.xor_eq_zero_iff.mp same)
    obtain ⟨i, bit, above⟩ := Nat.exists_most_significant_bit differ
    have agree : ∀ j, i < j → n.testBit j = m.testBit j := by
      intro j higher
      have even := above j higher
      rw [Nat.testBit_xor] at even
      revert even
      cases m.testBit j <;> cases n.testBit j <;> decide
    rw [Nat.testBit_xor] at bit
    by_cases own : m.testBit i = true
    · -- Then the first number has the highest bit, and is not the lower one.
      rw [own, Bool.true_xor, Bool.not_eq_true'] at bit
      have more := Nat.lt_of_testBit i bit own agree
      omega
    · refine ⟨i, ?_, own, ?_⟩
      · rw [Bool.not_eq_true] at own
        rwa [own, Bool.false_xor] at bit
      · intro j higher
        rw [agree j higher]
  · rintro ⟨i, bit, other, above⟩
    apply Nat.lt_of_testBit i (Bool.not_eq_true _ ▸ other) bit
    intro j higher
    exact Bool.eq_iff_iff.mpr (above j higher).symm

/-- An end refuses exactly where a necessary option outranks the common ones. -/
theorem outranked_iff (side a b : HydraSide) :
    a.common b.options b.canopt < side.necessary ↔ side.Outranked a b := by
  rw [lt_iff_testBit]
  unfold HydraSide.Outranked
  simp only [testBit_common]

/-! ## This end -/

/-- The options that are taken. -/
def InitAnswer.taken : InitAnswer → Option Nat
  | .agreed rxoptions => some rxoptions
  | _ => none

/-- A text with a zero is its string, the zero and the rest. -/
theorem cstring_cut {text : Bytes} (zero : 0 ∈ text) :
    ∃ back, text = cstring text ++ 0 :: back ∧ ∀ byte ∈ cstring text, byte ≠ 0 := by
  obtain ⟨front, back, cut, plain⟩ := List.eq_append_cons_of_mem zero
  have whole : ∀ byte ∈ front, byte ≠ 0 := by
    rintro byte member rfl
    exact plain member
  have string : cstring text = front := by
    rw [cut, cstring_ended, cstring_whole front whole]
  exact ⟨back, by rw [string]; exact cut, by rwa [string]⟩

/-- A string inside of the packet is the first one of what is cut at the zeros. -/
theorem splitOn_stringEnd {pkt : Bytes} (whole : InitWhole pkt) {place : Nat}
    (inside : place < pkt.length) :
    (pkt.drop place).splitOn 0 =
      cstring (pkt.drop place) :: (pkt.drop (stringEnd pkt place)).splitOn 0 := by
  have last : (pkt.drop place).getLast? = some 0 := by
    rw [List.getLast?_drop, if_neg (by omega), whole.2]
  obtain ⟨back, cut, plain⟩ := cstring_cut (List.mem_of_getLast? last)
  have rest : pkt.drop (stringEnd pkt place) = back := by
    have behind : pkt.drop (stringEnd pkt place) =
        (pkt.drop place).drop ((cstring (pkt.drop place)).length + 1) := by
      rw [List.drop_drop]
      rfl
    rw [behind]
    generalize cstring (pkt.drop place) = string at cut
    rw [cut, ← List.drop_drop, List.drop_left]
    rfl
  rw [rest]
  generalize cstring (pkt.drop place) = string at cut plain
  have other : ∀ byte ∈ string, (byte == 0) = false := by
    intro byte member
    exact beq_eq_false_iff_ne.mpr (plain byte member)
  rw [cut, List.splitOn_eq_splitOnP, List.splitOn_eq_splitOnP]
  exact List.splitOnP_append_cons_of_forall_mem other 0 rfl back

/-- Behind the end of the packet is one empty string. -/
theorem splitOn_behind {pkt : Bytes} {place : Nat} (behind : ¬ place < pkt.length) :
    (pkt.drop place).splitOn 0 = [[]] := by
  rw [List.drop_eq_nil_of_le (Nat.le_of_not_lt behind)]
  rfl

/-- An end that can do what this program can takes what `hydra_parse_init` takes. -/
theorem hydraParseInit_side (wide : Bool) (pkt : Bytes) (hi : HydraInfo) :
    (hydraParseInit wide pkt hi).map (fun after => (after.rxoptions, after.txoptions)) =
      ((HydraSide.mk hydraCanopt hi.options).parseInit pkt).taken.map fun options =>
        (options, options) := by
  unfold hydraParseInit HydraSide.parseInit
  by_cases whole : InitWhole pkt
  · rw [if_neg (by have := whole.1; simp [whole.2]; omega), if_pos whole]
    unfold initFields
    dsimp only
    rw [splitOn_stringEnd whole whole.1]
    by_cases canopt : stringEnd pkt 8 < pkt.length
    · rw [splitOn_stringEnd whole canopt]
      by_cases desopt : stringEnd pkt (stringEnd pkt 8) < pkt.length
      · rw [splitOn_stringEnd whole desopt]
        by_cases window : stringEnd pkt (stringEnd pkt (stringEnd pkt 8)) < pkt.length
        · rw [splitOn_stringEnd whole window, if_pos ⟨canopt, desopt, window⟩]
          cases behind : (pkt.drop (stringEnd pkt (stringEnd pkt (stringEnd pkt
            (stringEnd pkt 8))))).splitOn 0 with
          | nil =>
            rw [List.splitOn_eq_splitOnP] at behind
            exact absurd behind (List.splitOnP_ne_nil _ _)
          | cons prefixString rest =>
            unfold HydraSide.common HydraSide.necessary
            dsimp only
            generalize (hi.options ||| _) &&& _ &&& hydraCanopt = rxoptions
            by_cases less : rxoptions < hi.options &&& hydraNecopt
            · rw [if_pos less, if_pos less]
              rfl
            · rw [if_neg less, if_neg less]
              rfl
        · rw [splitOn_behind window, if_neg fun all => window all.2.2]
          rfl
      · rw [splitOn_behind desopt, if_neg fun all => desopt all.2.1]
        rfl
    · rw [splitOn_behind canopt, if_neg fun all => canopt all.1]
      rfl
  · rw [if_neg whole, if_pos]
    · rfl
    · unfold InitWhole at whole
      by_contra not_
      rw [not_or] at not_
      exact whole ⟨by omega, not_not.mp not_.2⟩

/-! ## Two ends -/

/-- The options that were computed, taken or not. -/
def InitAnswer.computed : InitAnswer → Option Nat
  | .invalid => none
  | .incompatible rxoptions => some rxoptions
  | .agreed rxoptions => some rxoptions

/-- What a pair of INIT packets should come to: nothing behind a packet is read, and two ends that
announce themselves compute the same options and refuse them exactly where a necessary one is
missing. -/
structure InitRight (debug : Bool) (a b : HydraSide) (pktA pktB : Bytes) : Prop where
  inside : ReadsInside debug pktA ∧ ReadsInside debug pktB
  options : a.Announces pktA → b.Announces pktB → ∃ rxoptions,
    (a.parseInit pktB).computed = some rxoptions ∧ (b.parseInit pktA).computed = some rxoptions ∧
      ((a.parseInit pktB).taken = none ↔ Missing a b) ∧
      ((b.parseInit pktA).taken = none ↔ Missing a b)

/-- No packet that is written to the debug file ends with its windows, and where a necessary option
is missing, both ends need one that is higher than those that are common. -/
structure InitFits (debug : Bool) (a b : HydraSide) (pktA pktB : Bytes) : Prop where
  strings : ¬ (debug = true ∧ (EndsWithWindow pktA ∨ EndsWithWindow pktB))
  options : a.Announces pktA → b.Announces pktB → Missing a b → a.Outranked a b ∧ b.Outranked a b

/-- What an end says of the packet of another. -/
theorem parseInit_spec (side : HydraSide) {other : HydraSide} {pkt : Bytes}
    (announced : other.Announces pkt) :
    (side.parseInit pkt).computed = some (side.common other.options other.canopt) ∧
      ((side.parseInit pkt).taken = none ↔
        side.common other.options other.canopt < side.necessary) := by
  rw [parseInit_announced announced]
  split
  · rename_i less
    exact ⟨rfl, fun _ => less, fun _ => rfl⟩
  · rename_i more
    exact ⟨rfl, nofun, fun less => absurd less more⟩

/-- Where an end needs a higher option than those that are common, one is missing. -/
theorem Outranked.missing {side a b : HydraSide} (one : side = a ∨ side = b)
    (outranked : side.Outranked a b) : Missing a b := by
  obtain ⟨option, needs, other, -⟩ := outranked
  rcases one with rfl | rfl
  · exact ⟨option, .inl needs, other⟩
  · exact ⟨option, .inr needs, other⟩

/-- Two ends come to the same options, and refuse a link that misses a necessary one, exactly
where the comparison of numbers finds it on both of them. -/
theorem hydra_init (debug : Bool) (a b : HydraSide) (pktA pktB : Bytes) :
    InitRight debug a b pktA pktB ↔ InitFits debug a b pktA pktB := by
  have reads : ReadsInside debug pktA ∧ ReadsInside debug pktB ↔
      ¬ (debug = true ∧ (EndsWithWindow pktA ∨ EndsWithWindow pktB)) := by
    rw [readsInside_iff, readsInside_iff, and_or_left, not_or]
  have answers : a.Announces pktA → b.Announces pktB →
      (a.parseInit pktB).computed = some (a.common b.options b.canopt) ∧
      (b.parseInit pktA).computed = some (a.common b.options b.canopt) ∧
      ((a.parseInit pktB).taken = none ↔ a.Outranked a b) ∧
      ((b.parseInit pktA).taken = none ↔ b.Outranked a b) := by
    intro announcedA announcedB
    obtain ⟨computedA, takenA⟩ := parseInit_spec a announcedB
    obtain ⟨computedB, takenB⟩ := parseInit_spec b announcedA
    rw [← common_symm a b] at computedB takenB
    rw [outranked_iff] at takenA takenB
    exact ⟨computedA, computedB, takenA, takenB⟩
  constructor
  · intro right
    refine ⟨reads.mp right.inside, ?_⟩
    intro announcedA announcedB missing
    obtain ⟨-, -, takenA, takenB⟩ := answers announcedA announcedB
    obtain ⟨_, -, -, refusesA, refusesB⟩ := right.options announcedA announcedB
    exact ⟨takenA.mp (refusesA.mpr missing), takenB.mp (refusesB.mpr missing)⟩
  · intro fits
    refine ⟨reads.mpr fits.strings, ?_⟩
    intro announcedA announcedB
    obtain ⟨computedA, computedB, takenA, takenB⟩ := answers announcedA announcedB
    have both := fits.options announcedA announcedB
    refine ⟨_, computedA, computedB, ?_, ?_⟩
    · rw [takenA]
      exact ⟨Outranked.missing (.inl rfl), fun missing => (both missing).1⟩
    · rw [takenB]
      exact ⟨Outranked.missing (.inr rfl), fun missing => (both missing).2⟩

/-- The string at a place where a text and a zero stand. -/
theorem string_at {memory front text back : Bytes} (cut : memory = front ++ (text ++ 0 :: back))
    (plain : ∀ char ∈ text, char ≠ 0) :
    cstring (memory.drop front.length) = text ∧
      stringEnd memory front.length = (front ++ (text ++ [0])).length := by
  have string : cstring (memory.drop front.length) = text := by
    rw [cut, List.drop_left, cstring_ended, cstring_whole text plain]
  refine ⟨string, ?_⟩
  unfold stringEnd
  rw [string, List.length_append, List.length_append]
  rfl

/-- An INIT packet with these strings, and what is behind the windows. -/
def initPacket (time appinf canopt desopt window rest : Bytes) : Bytes :=
  time ++ (appinf ++ 0 :: (canopt ++ 0 :: (desopt ++ 0 :: (window ++ 0 :: rest))))

/-- A packet with all strings that ends with a zero announces the end whose options it names. -/
theorem initPacket_announces {side : HydraSide} {time appinf canopt desopt window rest : Bytes}
    (eight : time.length = 8)
    (plain : ∀ text ∈ [appinf, canopt, desopt, window], ∀ char ∈ text, char ≠ 0)
    (ended : (0 :: rest).getLast? = some 0) (can : hydraGetflags canopt = side.canopt)
    (wants : hydraGetflags desopt = side.options) :
    side.Announces (initPacket time appinf canopt desopt window rest) := by
  let pkt := initPacket time appinf canopt desopt window rest
  simp only [List.forall_mem_cons] at plain
  obtain ⟨appinfPlain, canoptPlain, desoptPlain, windowPlain, -⟩ := plain
  have atCanopt : pkt = (time ++ (appinf ++ [0])) ++
      (canopt ++ 0 :: (desopt ++ 0 :: (window ++ 0 :: rest))) := by
    simp [pkt, initPacket]
  have atDesopt : pkt = ((time ++ (appinf ++ [0])) ++ (canopt ++ [0])) ++
      (desopt ++ 0 :: (window ++ 0 :: rest)) := by
    simp [pkt, initPacket]
  have atWindow : pkt = (((time ++ (appinf ++ [0])) ++ (canopt ++ [0])) ++ (desopt ++ [0])) ++
      (window ++ 0 :: rest) := by
    simp [pkt, initPacket]
  obtain ⟨-, appinfEnd⟩ := @string_at pkt _ _ _ rfl appinfPlain
  obtain ⟨canoptText, canoptEnd⟩ := string_at atCanopt canoptPlain
  obtain ⟨desoptText, desoptEnd⟩ := string_at atDesopt desoptPlain
  have long := congrArg List.length atWindow
  simp only [List.length_append, List.length_cons, List.length_nil] at long
  have whole : InitWhole pkt := by
    constructor
    · omega
    · rw [atWindow, ← List.append_assoc, List.getLast?_append, ended]
      rfl
  rw [eight] at appinfEnd
  have fields : initFields pkt pkt.length = some ⟨stringEnd pkt 8, stringEnd pkt (stringEnd pkt 8),
      stringEnd pkt (stringEnd pkt (stringEnd pkt 8)),
      stringEnd pkt (stringEnd pkt (stringEnd pkt (stringEnd pkt 8)))⟩ := by
    unfold initFields
    dsimp only
    rw [appinfEnd, canoptEnd, desoptEnd, if_pos]
    simp only [List.length_append, List.length_cons, List.length_nil]
    omega
  refine ⟨whole, _, fields, ?_, ?_⟩
  · dsimp only
    rw [appinfEnd, canoptText, can]
  · dsimp only
    rw [appinfEnd, canoptEnd, desoptText, wants]

/-- The INIT packet of this program announces it. -/
theorem initData_announces (conf : HydraConf) (plain : ∀ char ∈ conf.version, char ≠ 0) :
    (HydraSide.mk hydraCanopt (hydraDefopt &&& hydraCanopt)).Announces
      (HydraState.initData conf) := by
  have name : ∀ char ∈ ascii "binkleyforce" ++ [44], char ≠ 0 := whole_of_not_mem (by decide)
  have strings : HydraState.initData conf =
      initPacket (printHex 0) (ascii "binkleyforce" ++ [44] ++ conf.version)
        (hydraPutflags hydraCanopt 256) (hydraPutflags hydraDefopt 256)
        (printHex 0 ++ printHex 0) [0] := by
    simp [HydraState.initData, initPacket]
  rw [strings]
  apply initPacket_announces
  · decide
  · simp only [List.forall_mem_cons]
    refine ⟨?_, whole_of_not_mem (by decide), whole_of_not_mem (by decide), whole_of_not_mem (by decide), nofun⟩
    intro char member
    rcases List.mem_append.mp member with there | there
    · exact name char there
    · exact plain char there
  · rfl
  · decide
  · decide

/-- A peer that wants BRK, which is necessary and which this program cannot do, and a packet that
ends with its windows. -/
theorem brk_taken :
    ¬ InitRight false ⟨hydraCanopt, hydraDefopt &&& hydraCanopt⟩ ⟨0x120, 0x120⟩
        (initPacket (printHex 0) (ascii "a") (ascii "XON,TLN,CTL,HIC,HI8,ASC,UUE,C32")
          (ascii "C32") (printHex 0 ++ printHex 0) [0])
        (initPacket (printHex 0) (ascii "b") (ascii "C32,BRK") (ascii "BRK,C32")
          (printHex 0 ++ printHex 0) [0]) ∧
      ¬ ReadsInside true (initPacket (printHex 0) (ascii "b") (ascii "C32") (ascii "C32")
          (printHex 0 ++ printHex 0) []) := by
  constructor
  · intro right
    have announced : HydraSide.Announces ⟨hydraCanopt, hydraDefopt &&& hydraCanopt⟩
        (initPacket (printHex 0) (ascii "a") (ascii "XON,TLN,CTL,HIC,HI8,ASC,UUE,C32")
          (ascii "C32") (printHex 0 ++ printHex 0) [0]) := by
      apply initPacket_announces <;> decide +kernel
    have answered : HydraSide.Announces ⟨0x120, 0x120⟩
        (initPacket (printHex 0) (ascii "b") (ascii "C32,BRK") (ascii "BRK,C32")
          (printHex 0 ++ printHex 0) [0]) := by
      apply initPacket_announces <;> decide +kernel
    obtain ⟨_, -, -, -, refuses⟩ := right.options announced answered
    have missing : HydraSide.Missing ⟨hydraCanopt, hydraDefopt &&& hydraCanopt⟩ ⟨0x120, 0x120⟩ := by
      refine ⟨5, .inr (by decide), ?_⟩
      rintro ⟨-, can, -⟩
      exact absurd can (by decide)
    exact absurd (refuses.mpr missing) (by decide)
  · rw [readsInside_iff, not_not]
    refine ⟨rfl, by decide, ⟨_, _, _, _⟩, rfl, ?_⟩
    decide

end Binkleyforce
