import Binkleyforce.Hydra.Formats

/-!
# What `hydra_recv` makes of a packet

`hydra_recv` on the characters `hydra_putpkt` produced, in whatever pieces they come. The
escapes are resolved character by character; then the format gives back the packet, and
its check sum is right.
-/

namespace Binkleyforce

namespace HydraLine

/-! ## Character by character -/

/-- What is returned while these characters are read. -/
def feed : HydraLine → Bytes → HydraLine × List HydraReceived
  | l, [] => (l, [])
  | l, char :: chars =>
    let (l, received) := l.takeChar char
    let (l, later) := feed l chars
    (l, received.toList ++ later)

theorem feed_cons (l : HydraLine) (char : UInt8) (chars : Bytes) :
    l.feed (char :: chars) = (((l.takeChar char).1.feed chars).1,
      (l.takeChar char).2.toList ++ ((l.takeChar char).1.feed chars).2) := rfl

theorem feed_append (l : HydraLine) (front rest : Bytes) :
    l.feed (front ++ rest) = (((l.feed front).1.feed rest).1,
      (l.feed front).2 ++ ((l.feed front).1.feed rest).2) := by
  induction front generalizing l with
  | nil => rfl
  | cons char chars inductionHypothesis =>
    rw [List.cons_append, feed_cons, inductionHypothesis, feed_cons, List.append_assoc]

/-- A call reads characters up to one at which it returns, or all of them. -/
theorem hydraRecv_feed (l : HydraLine) (chars : Bytes) :
    (l.feed chars = ((l.hydraRecv chars).1, []) ∧ (l.hydraRecv chars).2 = (.nothing, [])) ∨
      ∃ front, front ≠ [] ∧ chars = front ++ (l.hydraRecv chars).2.2 ∧
        l.feed front = ((l.hydraRecv chars).1, [(l.hydraRecv chars).2.1]) := by
  induction chars generalizing l with
  | nil => exact .inl ⟨rfl, rfl⟩
  | cons char chars inductionHypothesis =>
    unfold hydraRecv
    cases taken : l.takeChar char with
    | mk next received =>
      cases received with
      | some received =>
        refine .inr ⟨[char], nofun, rfl, ?_⟩
        rw [feed_cons, taken]
        rfl
      | none =>
        rcases inductionHypothesis next with ⟨fed, result⟩ | ⟨front, _, split, fed⟩
        · refine .inl ⟨?_, result⟩
          rw [feed_cons, taken, fed]
          rfl
        · refine .inr ⟨char :: front, nofun, congrArg (char :: ·) split, ?_⟩
          rw [feed_cons, taken, fed]
          rfl

/-- What is returned apart from the calls that end because nothing is left to read. -/
def somethings (received : List HydraReceived) : List HydraReceived :=
  received.filter (· ≠ .nothing)

theorem somethings_append (first second : List HydraReceived) :
    somethings (first ++ second) = somethings first ++ somethings second :=
  List.filter_append ..

/-- As many calls as there are characters read them all. -/
theorem recvAll_feed (calls : Nat) (l : HydraLine) (chars : Bytes) (enough : chars.length ≤ calls) :
    (l.recvAll calls chars).1 = (l.feed chars).1 ∧
      somethings (l.recvAll calls chars).2 = somethings (l.feed chars).2 := by
  induction calls generalizing l chars with
  | zero =>
    have none : chars = [] := List.length_eq_zero_iff.mp (Nat.le_zero.mp enough)
    subst none
    exact ⟨rfl, rfl⟩
  | succ calls inductionHypothesis =>
    unfold recvAll
    by_cases empty : chars.isEmpty = true
    · rw [if_pos empty, List.isEmpty_iff.mp empty]
      exact ⟨rfl, rfl⟩
    · rw [if_neg empty]
      rcases hydraRecv_feed l chars with ⟨fed, result⟩ | ⟨front, some, split, fed⟩
      · obtain ⟨last, rest⟩ := inductionHypothesis (l.hydraRecv chars).1 [] (Nat.zero_le _)
        have returned := congrArg Prod.fst result
        have left := congrArg Prod.snd result
        dsimp only at returned left ⊢
        rw [left, returned, fed]
        refine ⟨last, ?_⟩
        have nothing : somethings [HydraReceived.nothing] = [] := rfl
        rw [← List.singleton_append, somethings_append, nothing, rest]
        rfl
      · have shorter : (l.hydraRecv chars).2.2.length ≤ calls := by
          have whole := congrArg List.length split
          have positive := List.length_pos_iff.mpr some
          rw [List.length_append] at whole
          omega
        obtain ⟨last, rest⟩ := inductionHypothesis (l.hydraRecv chars).1 _ shorter
        have all : l.feed chars = (((l.hydraRecv chars).1.feed (l.hydraRecv chars).2.2).1,
            [(l.hydraRecv chars).2.1] ++
              ((l.hydraRecv chars).1.feed (l.hydraRecv chars).2.2).2) := by
          conv => lhs; rw [split, feed_append, fed]
        rw [all]
        dsimp only
        refine ⟨last, ?_⟩
        rw [← List.singleton_append, somethings_append, rest, somethings_append]

/-- It does not matter into which pieces the stream is cut. -/
theorem recvPieces_feed (l : HydraLine) (pieces : List Bytes) :
    somethings (l.recvPieces pieces).2 = somethings (l.feed pieces.flatten).2 := by
  induction pieces generalizing l with
  | nil => rfl
  | cons piece pieces inductionHypothesis =>
    obtain ⟨last, rest⟩ := recvAll_feed piece.length l piece (Nat.le_refl _)
    unfold recvPieces
    dsimp only
    rw [somethings_append, inductionHypothesis, last, rest, List.flatten_cons, feed_append,
      somethings_append]

/-! ## Escapes -/

/-- The characters store these ones in a packet that is being received. -/
def Stores (options : Nat) (chars stored : Bytes) : Prop :=
  ∀ l : HydraLine, l.rxoptions = options → l.iencrcv = true → l.idlecnt = 0 →
    l.ienc.length + stored.length ≤ hydraBuflen →
    ∃ behind, l.feed chars = ({ l with ienc := l.ienc ++ stored, behind }, [])

theorem Stores.nil (options : Nat) : Stores options [] [] := fun l _ _ _ _ =>
  ⟨l.behind, by simp [feed]⟩

theorem Stores.append {options : Nat} {first second one two : Bytes}
    (front : Stores options first one) (rest : Stores options second two) :
    Stores options (first ++ second) (one ++ two) := by
  intro l options_same receiving idle room
  rw [List.length_append] at room
  obtain ⟨behind, fed⟩ := front l options_same receiving idle (by omega)
  obtain ⟨after, later⟩ := rest { l with ienc := l.ienc ++ one, behind } options_same receiving idle
    (by simp; omega)
  refine ⟨after, ?_⟩
  rw [feed_append, fed, later, List.append_assoc]
  rfl

/-- The receiver with these options drops the character. -/
def dropsWith (options : Nat) (c : UInt8) : Bool := ({ rxoptions := options } : HydraLine).drops c

/-- The character has no more bits than the link carries. -/
def Narrow (options : Nat) (c : UInt8) : Prop := HydraOption.highbit.among options = true → c < 128

theorem masked_narrow (l : HydraLine) (c : UInt8) (narrow : Narrow l.rxoptions c) :
    (if HydraOption.highbit.among l.rxoptions then c &&& 0x7f else c) = c := by
  have mask : ∀ c : UInt8, c < 128 → c &&& 0x7f = c := byte_cases (by decide)
  split
  · rename_i seven
    exact mask c (narrow seven)
  · rfl

/-- A character within a packet is stored as it is. -/
theorem stores_plain {options : Nat} {c : UInt8} (narrow : Narrow options c)
    (kept : dropsWith options c = false) (other : c ≠ hydraDle) : Stores options [c] [c] := by
  rintro l rfl receiving idle room
  have taken : l.takeChar c = (l.store c, none) := by
    unfold takeChar
    rw [masked_narrow l c narrow]
    dsimp only
    rw [if_neg (by rw [show l.drops c = dropsWith l.rxoptions c from rfl, kept]; exact nofun),
      if_neg other, if_neg (by simp [idle])]
  refine ⟨l.behind.drop 1, ?_⟩
  rw [feed_cons, taken]
  have small : l.ienc.length < hydraBuflen := room
  simp [store, receiving, small, feed]

/-- An escape waits for the character behind it. -/
theorem take_dle (l : HydraLine) (quiet : l.idlecnt < 4) :
    l.takeChar hydraDle = ({ l with idlecnt := l.idlecnt + 1 }, none) := by
  have through : l.drops hydraDle = false := by
    unfold drops
    split <;> rfl
  unfold takeChar
  rw [masked_narrow l hydraDle fun _ => by decide]
  dsimp only
  rw [through, if_neg nofun, if_pos rfl, if_neg (by omega)]

/-- A character behind an escape is not taken for itself. -/
theorem take_escaped (l : HydraLine) {c : UInt8} (narrow : Narrow l.rxoptions c)
    (kept : dropsWith l.rxoptions c = false) (other : c ≠ hydraDle) (waits : l.idlecnt ≠ 0) :
    l.takeChar c = { l with idlecnt := 0 }.escaped c := by
  unfold takeChar
  rw [masked_narrow l c narrow]
  dsimp only
  rw [if_neg (by rw [show l.drops c = dropsWith l.rxoptions c from rfl, kept]; exact nofun),
    if_neg other, if_pos waits]

/-- A character behind an escape is stored with a bit changed. -/
theorem stores_escaped {options : Nat} {c : UInt8} (narrow : Narrow options (c ^^^ 0x40))
    (kept : dropsWith options (c ^^^ 0x40) = false) (other : c ^^^ 0x40 ≠ hydraDle)
    (letter : c ^^^ 0x40 < 97 ∨ 101 < c ^^^ 0x40) :
    Stores options [hydraDle, c ^^^ 0x40] [c] := by
  rintro l rfl receiving idle room
  have escape := take_dle l (by omega)
  have twice : (c ^^^ 0x40) ^^^ 0x40 = c := by
    rw [UInt8.xor_assoc, UInt8.xor_self, UInt8.xor_zero]
  have ends : ∀ letter : UInt8, 97 ≤ letter → letter ≤ 101 → c ^^^ 0x40 ≠ letter := by
    rintro value low high rfl
    rcases letter with below | above
    · exact absurd low (UInt8.not_le.mpr below)
    · exact absurd high (UInt8.not_le.mpr above)
  have taken : ({ l with idlecnt := l.idlecnt + 1 } : HydraLine).takeChar (c ^^^ 0x40) =
      (({ l with idlecnt := 0 } : HydraLine).store c, none) := by
    rw [take_escaped { l with idlecnt := l.idlecnt + 1 } narrow kept other (Nat.succ_ne_zero _)]
    unfold escaped
    rw [if_neg (ends hydraPktend (by decide) (by decide)),
      if_neg (ends HydraFormat.bin.char (by decide) (by decide)),
      if_neg (ends HydraFormat.hex.char (by decide) (by decide)),
      if_neg (ends HydraFormat.asc.char (by decide) (by decide)),
      if_neg (ends HydraFormat.uue.char (by decide) (by decide)), twice]
  have same : ({ l with idlecnt := 0 } : HydraLine) = l := by rw [← idle]
  refine ⟨l.behind.drop 1, ?_⟩
  rw [feed_cons, escape, feed_cons, taken, same]
  have small : l.ienc.length < hydraBuflen := room
  simp [store, receiving, small, feed]

/-- Printable characters are not dropped. -/
theorem printable_kept (options : Nat) {c : UInt8} (low : 32 ≤ c) (high : c < 127) :
    Narrow options c ∧ dropsWith options c = false ∧ c ≠ hydraDle := by
  have facts : ∀ c : UInt8, 32 ≤ c → c < 127 → c < 128 ∧ c &&& 0x7f = c ∧ c ≠ hydraDle ∧ c ≠ xon ∧
      c ≠ xoff ∧ ¬ c < 32 ∧ c ≠ 127 := byte_cases (by decide)
  obtain ⟨seven, masked, dle, on, off, control, del⟩ := facts c low high
  exact ⟨fun _ => seven, by simp [dropsWith, drops, masked, dle, on, off, control, del], dle⟩

/-- They are carried by every link. -/
theorem stores_printable (options : Nat) {c : UInt8} (low : 32 ≤ c) (high : c < 127) :
    Stores options [c] [c] := by
  obtain ⟨narrow, kept, other⟩ := printable_kept options low high
  exact stores_plain narrow kept other

/-- Control characters are carried where they are escaped. -/
theorem stores_control (options : Nat) {c : UInt8} (narrow : Narrow options c)
    (control : (if HydraOption.highctl.among options then c &&& 0x7f else c) < 32 ∨
      (if HydraOption.highctl.among options then c &&& 0x7f else c) = 127) :
    Stores options [hydraDle, c ^^^ 0x40] [c] := by
  have facts : ∀ c : UInt8, (c < 32 ∨ c = 127 → 63 ≤ c ^^^ 0x40 ∧ c ^^^ 0x40 < 96) ∧
      ((c &&& 0x7f) < 32 ∨ (c &&& 0x7f) = 127 →
        63 ≤ (c ^^^ 0x40) &&& 0x7f ∧ (c ^^^ 0x40) &&& 0x7f < 96) ∧
      (c < 128 → c ^^^ 0x40 < 128) := byte_cases (by decide)
  have between : ∀ x : UInt8, 63 ≤ x → x < 96 → x ≠ hydraDle ∧ x ≠ xon ∧ x ≠ xoff ∧ ¬ x < 32 ∧
      x ≠ 127 ∧ x < 97 := byte_cases (by decide)
  have above : ∀ x : UInt8, 63 ≤ x &&& 0x7f → x &&& 0x7f < 96 → x ≠ hydraDle ∧
      (x < 97 ∨ 101 < x) := byte_cases (by decide)
  obtain ⟨plain, masked, seven⟩ := facts c
  by_cases highctl : HydraOption.highctl.among options = true
  · rw [if_pos highctl] at control
    obtain ⟨low, high⟩ := masked control
    obtain ⟨dle, on, off, above32, del, _⟩ := between _ low high
    obtain ⟨other, letter⟩ := above _ low high
    refine stores_escaped (fun narrowed => seven (narrow narrowed)) ?_ other letter
    simp [dropsWith, drops, highctl, dle, on, off, above32, del]
  · rw [if_neg highctl] at control
    obtain ⟨low, high⟩ := plain control
    obtain ⟨dle, on, off, above32, del, letter⟩ := between _ low high
    refine stores_escaped (fun narrowed => seven (narrow narrowed)) ?_ dle (.inl letter)
    simp [dropsWith, drops, highctl, dle, on, off, above32, del]

/-! ## The encoded packet -/

/-- A byte that goes through `hydra_putbinbyte` is stored. -/
theorem stores_putbinbyte (options : Nat) (lastchar : Int) {c : UInt8} (narrow : Narrow options c) :
    Stores options (hydraPutbinbyte options lastchar c).1 [c] := by
  unfold hydraPutbinbyte
  dsimp only
  generalize meant : (if HydraOption.highctl.among options then c &&& 0x7f else c) = n
  split
  · rename_i escaped
    refine stores_control options narrow ?_
    rw [meant]
    simp only [Bool.or_eq_true, Bool.and_eq_true, decide_eq_true_eq] at escaped
    rcases escaped with ((rfl | ⟨_, rfl | rfl⟩) | ⟨⟨_, rfl⟩, _⟩) | ⟨_, low | del⟩
    · exact .inl (by decide)
    · exact .inl (by decide)
    · exact .inl (by decide)
    · exact .inl (by decide)
    · exact .inl low
    · exact .inr del
  · rename_i kept
    simp only [Bool.or_eq_true, not_or, decide_eq_true_eq] at kept
    obtain ⟨⟨⟨dle, flow⟩, _⟩, control⟩ := kept
    refine stores_plain narrow ?_ ?_
    · unfold dropsWith drops
      dsimp only
      rw [meant]
      simp [flow, control]
    · rintro rfl
      refine dle (meant.symm.trans ?_)
      split <;> rfl

/-- So is a block of them. -/
theorem stores_putbinblock (options : Nat) (lastchar : Int) (src : Bytes)
    (narrow : ∀ c ∈ src, Narrow options c) :
    Stores options (hydraPutbinblock options lastchar src).1 src := by
  induction src generalizing lastchar with
  | nil => exact .nil options
  | cons c src inductionHypothesis =>
    unfold hydraPutbinblock
    dsimp only
    rw [← List.singleton_append]
    exact (stores_putbinbyte options lastchar (narrow c (List.mem_cons_self ..))).append
      (inductionHypothesis _ fun other member => narrow other (List.mem_cons_of_mem _ member))

/-- A byte in the format HEX is stored as its characters without escapes. -/
theorem stores_puthexbyte (options : Nat) (c : UInt8) :
    Stores options (hydraPuthexbyte c) (hexStored c) := by
  have digits : ∀ c : UInt8, ((32 : UInt8) ≤ hexdigit ((c >>> 4) &&& 0x0f) ∧
      hexdigit ((c >>> 4) &&& 0x0f) < 127) ∧
      (32 : UInt8) ≤ hexdigit (c &&& 0x0f) ∧ hexdigit (c &&& 0x0f) < 127 := byte_cases (by decide)
  have facts : ∀ c : UInt8, c &&& 0x80 = 0 → c < 128 ∧ c &&& 0x7f = c ∧
      (¬ (c < 32 ∨ c = 127) → 32 ≤ c ∧ c < 127) ∧ (c < 32 ∨ c = 127 → c ≠ 92) :=
    byte_cases (by decide)
  unfold hydraPuthexbyte hexStored
  by_cases high : c &&& 0x80 ≠ 0
  · rw [if_pos high, if_pos high]
    obtain ⟨first, second⟩ := digits c
    exact (stores_printable options (by decide) (by decide)).append
      ((stores_printable options first.1 first.2).append
        (stores_printable options second.1 second.2))
  · rw [if_neg high, if_neg high]
    obtain ⟨seven, masked, printable, other⟩ := facts c (not_not.mp high)
    by_cases control : c < 32 ∨ c = 127
    · rw [if_pos (by simpa using control), if_neg (other control)]
      refine stores_control options (fun _ => seven) ?_
      rw [masked, ite_self]
      exact control
    · obtain ⟨low, above⟩ := printable control
      rw [if_neg (by simpa using control)]
      by_cases backslash : c = 92
      · rw [if_pos backslash]
        exact (stores_printable options (by decide) (by decide)).append
          (stores_printable options (by decide) (by decide))
      · rw [if_neg backslash]
        exact stores_printable options low above

/-- Bytes stored one by one are stored together. -/
theorem stores_flatMap (options : Nat) (src : Bytes) (chars stored : UInt8 → Bytes)
    (each : ∀ c ∈ src, Stores options (chars c) (stored c)) :
    Stores options (src.flatMap chars) (src.flatMap stored) := by
  induction src with
  | nil => exact .nil options
  | cons c src inductionHypothesis =>
    rw [List.flatMap_cons, List.flatMap_cons]
    exact (each c (List.mem_cons_self ..)).append
      (inductionHypothesis fun other member => each other (List.mem_cons_of_mem _ member))

/-- The characters that are stored of a packet. -/
def storedChars (behind : UInt8) (format : HydraFormat) (src : Bytes) : Bytes :=
  match format with
  | .bin => src
  | .hex => src.flatMap hexStored
  | .asc => ascChars 0 0 src
  | .uue => hydraPutuueblock behind src

/-- The encoded packet is stored as these. The format BIN is not used where the link
carries seven bits. -/
theorem stores_encoded (options : Nat) (lastchar : Int) (behind : UInt8) (format : HydraFormat)
    (src : Bytes) (wide : format = .bin → HydraOption.highbit.among options = false) :
    Stores options (hydraEncode options lastchar behind format src).1
      (storedChars behind format src) := by
  cases format with
  | bin =>
    exact stores_putbinblock options lastchar src fun _ _ seven =>
      absurd (wide rfl) (by simp [seven])
  | hex => exact stores_flatMap options src _ _ fun c _ => stores_puthexbyte options c
  | asc =>
    exact stores_putbinblock options lastchar _ fun c member _ =>
      (ascChars_short src 0 0).1 c member
  | uue =>
    have printable := stores_flatMap options (hydraPutuueblock behind src) (fun c => [c])
      (fun c => [c]) fun c member => by
        have uue := hydraPutuueblock_printable behind src c member
        have facts : ∀ c : UInt8, hydraIsuue c = true → 32 ≤ c ∧ c < 127 :=
          byte_cases (by decide)
        exact stores_printable options (facts c uue).1 (facts c uue).2
    simpa [hydraEncode, storedChars] using printable

/-- They fit into the buffer. -/
theorem storedChars_short (behind : UInt8) (format : HydraFormat) (src : Bytes)
    (short : src.length ≤ hydraMaxdatalen) :
    (storedChars behind format src).length ≤ hydraBuflen := by
  have sizes : hydraBuflen = hydraMaxdatalen * 3 + 16 := rfl
  cases format with
  | bin =>
    change src.length ≤ hydraBuflen
    omega
  | hex =>
    have each : (src.flatMap hexStored).length ≤ src.length * 3 := by
      clear short
      induction src with
      | nil => exact Nat.le_refl 0
      | cons c src inductionHypothesis =>
        have one := hexStored_short c
        rw [List.flatMap_cons, List.length_append, List.length_cons]
        omega
    change (src.flatMap hexStored).length ≤ hydraBuflen
    omega
  | asc =>
    have chars := (ascChars_short src 0 0).2
    change (ascChars 0 0 src).length ≤ hydraBuflen
    omega
  | uue =>
    have chars := hydraPutuueblock_length behind src
    change (hydraPutuueblock behind src).length ≤ hydraBuflen
    split at chars <;> omega

/-- The characters of the packet are more than the destination is allowed to have. -/
def Overlong (format : HydraFormat) (src : Bytes) : Prop :=
  format = .uue ∧ hydraMaxdatalen < (hydraPutuueblock 0 src).length

/-- Decoding gives back the packet where it is not too long. -/
theorem decode_stored (l : HydraLine) (behind : UInt8) (src : Bytes)
    (stored : l.ienc = storedChars behind l.iencfmt src) (short : src.length ≤ hydraMaxdatalen) :
    (Overlong l.iencfmt src → l.decode = ([], false)) ∧
      (¬ Overlong l.iencfmt src → l.decode = (src, true)) := by
  unfold decode
  rw [stored]
  cases format : l.iencfmt with
  | bin =>
    refine ⟨fun overlong => HydraFormat.noConfusion overlong.1, fun _ => ?_⟩
    unfold hydraGetbinblock
    exact if_neg (Nat.not_lt.mpr short)
  | hex =>
    refine ⟨fun overlong => HydraFormat.noConfusion overlong.1, fun _ => ?_⟩
    exact congrArg (·, true) (hexLoop_encoded src l.behind _ short)
  | asc =>
    refine ⟨fun overlong => HydraFormat.noConfusion overlong.1, fun _ => ?_⟩
    exact congrArg (·, true) (ascLoop_encoded src _ short)
  | uue =>
    have length : (hydraPutuueblock behind src).length = (hydraPutuueblock 0 src).length :=
      (hydraPutuueblock_length behind src).trans (hydraPutuueblock_length 0 src).symm
    dsimp only [storedChars]
    rw [hydraGetuueblock_encoded, length]
    exact ⟨fun overlong => if_pos overlong.2, fun fits => if_neg fun long => fits ⟨rfl, long⟩⟩

/-! ## The whole packet -/

section Packet

variable (options : Nat) (type : HydraPkttype) (payload : Bytes)

/-- The sizes of a packet with its type and check sum. -/
theorem hydraBody_length : (hydraBody options type payload).length =
    payload.length + 1 + if longCrc options (hydraFormat options type) then 4 else 2 := by
  unfold hydraBody crc32Bytes crc16Bytes
  split <;> simp

/-- A packet with a right check sum is returned. -/
theorem check_body (l : HydraLine) (same : l.rxoptions = options)
    (format : l.iencfmt = hydraFormat options type)
    (decoded : l.ibuf.take (hydraBody options type payload).length = hydraBody options type payload) :
    l.check (hydraBody options type payload).length = .packet type payload.length l.ibuf ∧
      l.ibuf.take payload.length = payload := by
  have length := hydraBody_length options type payload
  have front : payload ++ [type.code] <+: l.ibuf := by
    refine List.IsPrefix.trans ?_ (decoded ▸ List.take_prefix _ l.ibuf)
    exact List.prefix_append _ _
  have code : l.ibuf.getD payload.length 0 = type.code := by
    obtain ⟨rest, split⟩ := front
    rw [← split]
    simp
  have known : hydraPkttype type.code = some type := by cases type <;> decide
  refine ⟨?_, ?_⟩
  · have size : ((hydraBody options type payload).length : Int) -
        (if longCrc options (hydraFormat options type) then 4 else 2) - 1 = payload.length := by
      rw [length]
      split <;> simp
    have good : (if longCrc options (hydraFormat options type) then
        crc32Test (getcrc32ccitt (hydraBody options type payload))
        else crc16Test (getcrc16ccitt (hydraBody options type payload))) = true := by
      unfold hydraBody
      split
      · exact crc32Test_appended _
      · exact crc16Test_appended _
    unfold check
    rw [same, format, decoded]
    dsimp only
    rw [size, good, if_pos (Int.natCast_nonneg _), if_pos rfl, Int.toNat_natCast, code, known]
  · obtain ⟨rest, split⟩ := front
    rw [← split, List.append_assoc, List.take_left]

/-- The escaped letter of a format begins a packet, whatever was there before. -/
theorem feed_begin (l : HydraLine) (format : HydraFormat) (quiet : l.idlecnt < 4) :
    l.feed [hydraDle, format.char] = ({ l with idlecnt := 0 }.begin format, []) := by
  obtain ⟨narrow, kept, other⟩ := printable_kept (c := format.char) l.rxoptions
    (by cases format <;> decide) (by cases format <;> decide)
  rw [feed_cons, take_dle l quiet, feed_cons,
    take_escaped { l with idlecnt := l.idlecnt + 1 } narrow kept other (Nat.succ_ne_zero _)]
  cases format <;> rfl

/-- The escaped end of a packet ends it. -/
theorem feed_finish (l : HydraLine) (idle : l.idlecnt = 0) :
    l.feed [hydraDle, hydraPktend] = (l.finish.1, [l.finish.2]) := by
  obtain ⟨narrow, kept, other⟩ := printable_kept (c := hydraPktend) l.rxoptions (by decide)
    (by decide)
  have same : ({ l with idlecnt := 0 } : HydraLine) = l := by rw [← idle]
  rw [feed_cons, take_dle l (by omega), feed_cons,
    take_escaped { l with idlecnt := l.idlecnt + 1 } narrow kept other (Nat.succ_ne_zero _)]
  dsimp only
  rw [same]
  rfl

/-- What stands behind the packet is not looked at. -/
theorem feed_newline (l : HydraLine) (idle : l.idlecnt = 0) (gone : l.iencrcv = false) :
    l.feed [13, 10] = (l, []) := by
  have dropped : ∀ c : UInt8, c = 13 ∨ c = 10 → l.takeChar c = (l, none) := by
    intro c newline
    have facts : c < 128 ∧ c ≠ hydraDle := by rcases newline with rfl | rfl <;> decide
    unfold takeChar
    rw [masked_narrow l c fun _ => facts.1]
    dsimp only
    split
    · rfl
    · rw [if_neg facts.2, if_neg (by simp [idle])]
      unfold store
      rw [gone]
      rfl
  rw [feed_cons, dropped 13 (.inl rfl), feed_cons, dropped 10 (.inr rfl)]
  rfl

/-- What is returned for an encoded packet: the packet, or nothing where it is too long
for its format. -/
theorem feed_packet (lastchar : Int) (behind : UInt8) (l : HydraLine) (same : l.rxoptions = options)
    (quiet : l.idlecnt < 4) (short : payload.length ≤ 2048 + 4) :
    (Overlong (hydraFormat options type) (hydraBody options type payload) →
      (l.feed (hydraPutpkt options lastchar behind type payload).1).2 = [.nothing]) ∧
    (¬ Overlong (hydraFormat options type) (hydraBody options type payload) →
      ∃ ibuf, (l.feed (hydraPutpkt options lastchar behind type payload).1).2 =
        [.packet type payload.length ibuf] ∧ ibuf.take payload.length = payload) := by
  have length := hydraBody_length options type payload
  have size : hydraMaxdatalen = 2048 + 8 + 5 := rfl
  have fits : (hydraBody options type payload).length ≤ hydraMaxdatalen := by
    rw [length]
    split <;> omega
  have wide : hydraFormat options type = .bin → HydraOption.highbit.among options = false := by
    unfold hydraFormat
    intro bin
    split at bin
    all_goals first
      | cases bin
      | (split at bin
         · split at bin
           · cases bin
           · split at bin <;> cases bin
         · rename_i off
           simpa using off)
  obtain ⟨memory, fed⟩ := stores_encoded options lastchar behind _ _ wide
    ({ l with idlecnt := 0 }.begin (hydraFormat options type)) same rfl rfl
    (by simpa [begin, rewind] using storedChars_short behind _ _ fits)
  -- The state in which the end of the packet is seen.
  generalize holds : ({ ({ l with idlecnt := 0 }.begin (hydraFormat options type)) with
    ienc := ({ l with idlecnt := 0 }.begin (hydraFormat options type)).ienc ++
      storedChars behind (hydraFormat options type) (hydraBody options type payload)
    behind := memory } : HydraLine) = held at fed
  have chars : held.ienc = storedChars behind held.iencfmt (hydraBody options type payload) := by
    rw [← holds]
    rfl
  have format : held.iencfmt = hydraFormat options type := by rw [← holds]; rfl
  have idle : held.idlecnt = 0 := by rw [← holds]; rfl
  have receiving : held.iencrcv = true := by rw [← holds]; rfl
  have options_same : held.rxoptions = options := by rw [← holds]; exact same
  obtain ⟨long, right⟩ := decode_stored held behind _ chars fits
  rw [format] at long right
  have finished : (l.feed (hydraPutpkt options lastchar behind type payload).1).2 =
      [held.finish.2] := by
    have gone : held.finish.1.iencrcv = false ∧ held.finish.1.idlecnt = 0 := by
      unfold finish
      rw [if_pos receiving]
      exact ⟨rfl, idle⟩
    have tail : ∀ rest : Bytes, rest = [13, 10] ∨ rest = [] →
        (held.finish.1.feed rest).2 = [] := by
      rintro rest (rfl | rfl)
      · rw [feed_newline _ gone.2 gone.1]
      · rfl
    unfold hydraPutpkt
    dsimp only
    rw [List.append_assoc, List.append_assoc, feed_append, feed_begin l _ quiet, feed_append, fed,
      feed_append, feed_finish held idle, tail]
    · rfl
    · split
      · exact .inl rfl
      · exact .inr rfl
  rw [finished]
  unfold finish
  rw [if_pos receiving]
  constructor
  · intro overlong
    rw [long overlong]
    rfl
  · intro fine
    rw [right fine]
    dsimp only
    have decoded : ((hydraBody options type payload) ++
        held.ibuf.drop (hydraBody options type payload).length).take
          (hydraBody options type payload).length = hydraBody options type payload :=
      List.take_left
    obtain ⟨returned, exact_payload⟩ := check_body options type payload
      { held.rewind with
        iencrcv := false
        ibuf := hydraBody options type payload ++
          held.ibuf.drop (hydraBody options type payload).length }
      options_same format decoded
    exact ⟨_, congrArg (fun received => [received]) returned, exact_payload⟩

/-- `hydra_recv` returns exactly the packet, whatever was received before and however the
stream is cut. -/
def RoundTrips : Prop :=
  ∀ (lastchar : Int) (behind : UInt8) (l : HydraLine) (pieces : List Bytes),
    l.rxoptions = options → l.idlecnt < 4 →
    pieces.flatten = (hydraPutpkt options lastchar behind type payload).1 →
    ∃ ibuf, somethings (l.recvPieces pieces).2 = [.packet type payload.length ibuf] ∧
      ibuf.take payload.length = payload

/-- Which packets are too long for their format. -/
theorem overlong_iff : Overlong (hydraFormat options type) (hydraBody options type payload) ↔
    ¬ (hydraFormat options type = .uue →
      payload.length + 1 + (if longCrc options (hydraFormat options type) then 4 else 2) ≤ 1545) := by
  have length := hydraBody_length options type payload
  have chars := hydraPutuueblock_length 0 (hydraBody options type payload)
  have size : hydraMaxdatalen = 2061 := rfl
  unfold Overlong
  rw [chars, size, length]
  generalize payload.length + 1 + (if longCrc options (hydraFormat options type) then 4 else 2) = n
  constructor
  · rintro ⟨uue, long⟩ fits
    have small := fits uue
    split at long <;> omega
  · intro long
    rw [Classical.not_imp] at long
    refine ⟨long.1, ?_⟩
    have large := long.2
    split <;> omega

/-- A packet that is too long for the format UUE is never returned. -/
theorem overlong_lost (short : payload.length ≤ 2048 + 4)
    (overlong : Overlong (hydraFormat options type) (hydraBody options type payload)) :
    ¬ RoundTrips options type payload := by
  intro trips
  obtain ⟨ibuf, returned, _⟩ := trips (-1) 0 { rxoptions := options }
    [(hydraPutpkt options (-1) 0 type payload).1] rfl (Nat.zero_lt_succ 3) (by simp)
  have nothing := (feed_packet options type payload (-1) 0 { rxoptions := options } rfl
    (Nat.zero_lt_succ 3) short).1 overlong
  rw [recvPieces_feed, List.flatten_singleton, nothing] at returned
  cases returned

/-- A packet comes through if and only if it is not too long for the format UUE. -/
theorem packet_round_trips_iff (short : payload.length ≤ 2048 + 4) :
    RoundTrips options type payload ↔
      (hydraFormat options type = .uue →
        payload.length + 1 + (if longCrc options (hydraFormat options type) then 4 else 2) ≤
          1545) := by
  constructor
  · intro trips
    by_contra long
    exact overlong_lost options type payload short
      ((overlong_iff options type payload).mpr long) trips
  · intro fits lastchar behind l pieces same quiet whole
    rw [recvPieces_feed, whole]
    obtain ⟨ibuf, returned, exact_payload⟩ := (feed_packet options type payload lastchar behind l
      same quiet short).2 fun overlong => (overlong_iff options type payload).mp overlong fits
    refine ⟨ibuf, ?_, exact_payload⟩
    rw [returned]
    rfl

end Packet

/-- A packet of the format UUE with 16 bits of check sum, sent over a link with seven bits
and without control characters. -/
theorem data_round_trips : RoundTrips 0x094 .data [0, 0, 0, 0, 255, 24, 17] :=
  (packet_round_trips_iff 0x094 .data [0, 0, 0, 0, 255, 24, 17] (by decide)).mpr
    fun _ => by decide

/-- A block of 1537 bytes with its offset is within the limit of a packet and is lost. -/
theorem long_block_lost :
    (List.replicate 1541 (0 : UInt8)).length ≤ 2048 + 4 ∧
      ¬ RoundTrips 0x194 .data (List.replicate 1541 0) := by
  have short : (List.replicate 1541 (0 : UInt8)).length ≤ 2048 + 4 := by
    rw [List.length_replicate]
    decide
  refine ⟨short, overlong_lost _ _ _ short ((overlong_iff _ _ _).mpr fun fits => ?_)⟩
  have format : hydraFormat 0x194 .data = .uue := by decide
  have bound := fits format
  rw [List.length_replicate, if_pos (by decide)] at bound
  omega

end HydraLine

end Binkleyforce
