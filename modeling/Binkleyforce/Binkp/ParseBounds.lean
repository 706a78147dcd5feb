import Binkleyforce.Binkp.Sysinfo

/-!
# Bounds of what is parsed out of a block

The routines that take texts out of a received block read within the block and
its terminator, and fill no field beyond its size. A pointer is inside its block
as long as the string it stands at ends there; it stays inside when it is moved
within the string.
-/

namespace Binkleyforce

/-- Every access stays in bounds. -/
def AllWithin (accesses : List Access) : Prop := ∀ access ∈ accesses, access.Within

section AllWithin

variable {access : Access} {first second : List Access}

@[simp] theorem allWithin_nil : AllWithin [] := nofun

@[simp] theorem allWithin_cons :
    AllWithin (access :: first) ↔ access.Within ∧ AllWithin first := by
  simp [AllWithin]

@[simp] theorem allWithin_append :
    AllWithin (first ++ second) ↔ AllWithin first ∧ AllWithin second := by
  simp [AllWithin, or_imp, forall_and]

@[simp] theorem store_within (field : Field) (upto : Nat) :
    (Access.store field upto).Within ↔ upto ≤ field.size := Iff.rfl

end AllWithin

/-- A C string is not longer than the memory it stands in. -/
theorem cstring_length (memory : Bytes) : (cstring memory).length ≤ memory.length :=
  List.IsPrefix.length_le (List.takeWhile_prefix _)

/-- A NUL ends the string. -/
theorem cstring_terminated (before after : Bytes) :
    (cstring (before ++ 0 :: after)).length ≤ before.length := by
  induction before with
  | nil => simp [cstring]
  | cons char before inductionHypothesis =>
    by_cases zero : char = 0
    · simp [cstring, zero]
    · simpa [cstring, zero] using inductionHypothesis

/-- Moving within a string leaves its rest. -/
theorem cstring_drop (memory : Bytes) (count : Nat) (within : count ≤ (cstring memory).length) :
    cstring (memory.drop count) = (cstring memory).drop count := by
  induction memory generalizing count with
  | nil => simp [cstring]
  | cons char memory inductionHypothesis =>
    cases count with
    | zero => rfl
    | succ count =>
      by_cases zero : char = 0
      · simp [cstring, zero] at within
      · have shorter : count ≤ (cstring memory).length := by
          simpa [cstring, zero] using within
        have rest := inductionHypothesis count shorter
        simp only [List.drop_succ_cons, rest]
        simp [cstring, zero]

namespace Pointer

/-- The string the pointer stands at ends within the block. -/
def Inside (pointer : Pointer) : Prop :=
  pointer.before + pointer.text.length ≤ pointer.blockLength

variable {pointer : Pointer}

/-- Reading the string then stays in bounds. -/
theorem read_within (inside : pointer.Inside) : pointer.read.Within := by
  simp only [Inside] at inside
  simp only [read, Access.Within]
  omega

/-- Moving the pointer within its string keeps it inside. -/
theorem advance_inside (inside : pointer.Inside) (count : Nat)
    (within : count ≤ pointer.text.length) : (pointer.advance count).Inside := by
  have rest : (pointer.advance count).text = pointer.text.drop count :=
    cstring_drop pointer.memory count within
  simp only [Inside, rest, List.length_drop] at inside ⊢
  simp only [advance]
  omega

end Pointer

/-- A copy of at most the field's size stays in bounds. -/
theorem copyField_within (field : Field) {src : Pointer} (inside : src.Inside) (len : Nat)
    (fits : len ≤ field.size) : AllWithin (copyField field src len).2 := by
  simp [copyField, src.read_within inside, fits]

/-- The room behind a string that is in its buffer. -/
theorem strnxcatRoom_of_lt (dst : Bytes) (len : Nat) (fits : dst.length < len)
    (small : len < 2 ^ 64) : strnxcatRoom dst len = len - dst.length := by
  unfold strnxcatRoom
  omega

/-- Appending leaves the string in its buffer. -/
theorem strnxcat_length (dst src : Bytes) (len : Nat) (fits : dst.length < len)
    (small : len < 2 ^ 64) : (strnxcat dst src len).length < len := by
  have room := strnxcatRoom_of_lt dst len fits small
  have copied := strnxcpy_length src (strnxcatRoom dst len) (by omega)
  simp only [strnxcat, List.length_append]
  omega

/-- Appending to a string in a field stays in bounds. -/
theorem appendField_within (field : Field) {src : Pointer} (inside : src.Inside) (dst : Bytes)
    (fits : dst.length < field.size) (small : field.size < 2 ^ 64) :
    AllWithin (appendField field dst src field.size).2 := by
  have room := strnxcatRoom_of_lt dst field.size fits small
  simp only [appendField, allWithin_cons, src.read_within inside, store_within, allWithin_nil,
    true_and, and_true]
  omega

/-- Two digits make one byte. -/
theorem stringHexToBin_length : ∀ text : Bytes, 2 * (stringHexToBin text).1.length ≤ text.length
  | [] => by simp [stringHexToBin]
  | [_] => by simp [stringHexToBin]
  | high :: low :: text => by
    have rest := stringHexToBin_length text
    unfold stringHexToBin
    split
    · simp only [List.length_cons]
      omega
    · simp

section Options

variable (remote : BinkpSysinfo)

/-- One option fills the challenge at most, and leaves the collected options. -/
theorem binkpParseOption_bounds (p : Bytes) :
    AllWithin (binkpParseOption remote p).2 ∧ (binkpParseOption remote p).1.opt = remote.opt := by
  unfold binkpParseOption
  dsimp only
  split_ifs
  · exact ⟨allWithin_nil, rfl⟩
  · exact ⟨allWithin_nil, rfl⟩
  · exact ⟨allWithin_nil, rfl⟩
  · exact ⟨allWithin_nil, rfl⟩
  · split
    · exact ⟨allWithin_nil, rfl⟩
    · rename_i challenge _
      split
      · exact ⟨allWithin_nil, rfl⟩
      · rename_i fits
        have decoded := stringHexToBin_length challenge
        refine ⟨?_, rfl⟩
        simp only [allWithin_cons, store_within, allWithin_nil, and_true]
        omega
  · exact ⟨allWithin_nil, rfl⟩

/-- So do all options. -/
theorem binkpParseOptionList_bounds (tokens : List Bytes) :
    AllWithin (binkpParseOptionList tokens remote).2 ∧
      (binkpParseOptionList tokens remote).1.opt = remote.opt := by
  induction tokens generalizing remote with
  | nil => exact ⟨allWithin_nil, rfl⟩
  | cons p rest inductionHypothesis =>
    obtain ⟨first, same⟩ := binkpParseOption_bounds remote p
    obtain ⟨later, still⟩ := inductionHypothesis (binkpParseOption remote p).1
    simp only [binkpParseOptionList, allWithin_append]
    exact ⟨⟨first, later⟩, still.trans same⟩

variable {remote} {buffer : Pointer}

/-- The OPT branch stays in bounds and keeps the collected options in their field. -/
theorem binkpProcessOPT_bounds (fits : remote.opt.length < Field.opt.size)
    (inside : buffer.Inside) :
    AllWithin (binkpProcessOPT remote buffer).2 ∧
      (binkpProcessOPT remote buffer).1.opt.length < Field.opt.size := by
  have parsed := fun binkp : BinkpSysinfo =>
    binkpParseOptionList_bounds binkp (splitTokens isspace buffer.text [])
  have joined := strnxcat_length remote.opt (ascii " ") Field.opt.size fits (by decide)
  have room := strnxcatRoom_of_lt remote.opt Field.opt.size fits (by decide)
  unfold binkpProcessOPT binkpParseOptions
  split_ifs
  · simp only [allWithin_append, allWithin_cons, buffer.read_within inside, parsed, and_true]
    exact ⟨copyField_within .opt inside _ (Nat.le_refl _), strnxcpy_length _ _ (by decide)⟩
  · simp only [allWithin_append, allWithin_cons, buffer.read_within inside, parsed, and_true,
      store_within]
    refine ⟨⟨by omega, appendField_within .opt inside _ joined (by decide)⟩, ?_⟩
    exact strnxcat_length _ _ _ joined (by decide)

/-- A part of a string before a character is shorter than the string. -/
theorem takeWhile_shorter (text : Bytes) (keep : UInt8 → Bool)
    (found : (text.takeWhile keep).length ≠ text.length) :
    (text.takeWhile keep).length + 1 ≤ text.length := by
  have part := List.IsPrefix.length_le (List.takeWhile_prefix (l := text) keep)
  omega

/-- The VER branch stays in bounds. -/
theorem binkpProcessVER_bounds (inside : buffer.Inside) :
    AllWithin (binkpProcessVER remote buffer).2 ∧
      (binkpProcessVER remote buffer).1.opt = remote.opt := by
  unfold binkpProcessVER
  dsimp only
  split
  · exact ⟨copyField_within .progname inside _ (Nat.le_refl _), rfl⟩
  · rename_i found
    have moved := buffer.advance_inside inside _ (takeWhile_shorter buffer.text _ found)
    have progname := fun length => copyField_within .progname inside _
      (Nat.min_le_left Field.progname.size length)
    split
    · have reads := Pointer.read_within moved
      simp only [allWithin_append, allWithin_cons, allWithin_nil, and_true]
      refine ⟨⟨progname _, reads⟩, ?_⟩
      split <;> rfl
    · rename_i slash
      have beyond := Pointer.advance_inside moved _ (takeWhile_shorter _ _ slash)
      have protname := fun length => copyField_within .protname moved _
        (Nat.min_le_left Field.protname.size length)
      simp only [allWithin_append, allWithin_cons, allWithin_nil, and_true]
      refine ⟨⟨progname _, protname _, Pointer.read_within beyond⟩, ?_⟩
      split <;> rfl

/-- A literal that begins a text is not longer than it. -/
theorem prefix_length {literal text : Bytes} (begins : literal <+: text) :
    literal.length ≤ text.length := begins.length_le

/-- M_NUL stays in bounds and keeps the collected options in their field. -/
theorem binkpProcessNUL_bounds (fits : remote.opt.length < Field.opt.size)
    (inside : buffer.Inside) :
    AllWithin (binkpProcessNUL remote buffer).2 ∧
      (binkpProcessNUL remote buffer).1.opt.length < Field.opt.size := by
  have value : ∀ literal : Bytes, literal.length = 4 → literal <+: buffer.text →
      (buffer.advance 4).Inside := fun literal four begins =>
    buffer.advance_inside inside 4 (four ▸ prefix_length begins)
  unfold binkpProcessNUL
  simp only [allWithin_cons, buffer.read_within inside, true_and]
  split
  · rename_i begins
    exact ⟨copyField_within .systname (value _ rfl begins) _ (Nat.le_refl _), fits⟩
  · split
    · rename_i begins
      exact ⟨copyField_within .sysop (value _ rfl begins) _ (Nat.le_refl _), fits⟩
    · split
      · rename_i begins
        exact ⟨copyField_within .location (value _ rfl begins) _ (Nat.le_refl _), fits⟩
      · split
        · rename_i begins
          exact ⟨copyField_within .phone (value _ rfl begins) _ (Nat.le_refl _), fits⟩
        · split
          · rename_i begins
            exact ⟨copyField_within .flags (value _ rfl begins) _ (Nat.le_refl _), fits⟩
          · split
            · rename_i begins
              have five := buffer.advance_inside inside 5 (prefix_length begins)
              exact ⟨copyField_within .timestr five _ (Nat.le_refl _), fits⟩
            · split
              · rename_i begins
                exact binkpProcessOPT_bounds fits (value _ rfl begins)
              · split
                · rename_i begins
                  have parsed := @binkpProcessVER_bounds remote _ (value _ rfl begins)
                  obtain ⟨within, same⟩ := parsed
                  exact ⟨within, same ▸ fits⟩
                · split
                  · refine ⟨allWithin_nil, ?_⟩
                    unfold binkpProcessTRF
                    split
                    · exact fits
                    · split <;> exact fits
                  · exact ⟨allWithin_nil, fits⟩

end Options

/-- The word that is copied as a file name fits with its terminator. -/
def wordFits (text : Bytes) : Bool :=
  decide (text.length > pathMax) || (scanWord text).all fun found => decide (found.1.length < pathMax)

/-- The file information of a block whose word fits is parsed in bounds; its name
and time are short. -/
theorem binkpParsfinfo_bounds {str : Pointer} (inside : str.Inside) (withOffset : Bool)
    (high : BpfinfoHigh) (fits : wordFits str.text = true) :
    AllWithin (binkpParsfinfo str withOffset high).2 ∧
      ∀ fi, (binkpParsfinfo str withOffset high).1 = some fi →
        fi.fn.length < pathMax ∧ fi.tm.natAbs < 2 ^ 64 := by
  have reads := str.read_within inside
  unfold binkpParsfinfo
  split
  · exact ⟨by simp [reads], nofun⟩
  · rename_i short
    split
    · exact ⟨by simp [reads], nofun⟩
    · rename_i fn rest word
      have name : fn.length < pathMax := by
        simpa [wordFits, short, word] using fits
      have stored : fn.length + 1 ≤ Field.fn.size := name
      have both : AllWithin [str.read, .store .fn (fn.length + 1)] := by simp [reads, stored]
      dsimp only
      split
      · exact ⟨both, nofun⟩
      · split
        · exact ⟨both, nofun⟩
        · split
          · split
            · exact ⟨both, nofun⟩
            · refine ⟨both, fun fi found => ?_⟩
              cases found
              exact ⟨by simpa using name, toLong_natAbs _⟩
          · refine ⟨both, fun fi found => ?_⟩
            cases found
            exact ⟨by simpa using name, toLong_natAbs _⟩

end Binkleyforce
