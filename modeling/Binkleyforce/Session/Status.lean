import Binkleyforce.Util.Scan

/-!
# The status record of a system

The counters of tries and the times until which a system is not called are kept in a
status file, ten numbers in a line of text. An update reads the numbers, changes them as
it is told to and writes them back.
-/

namespace Binkleyforce

/-- `s_sess_stat`. -/
structure SessStat where
  undialable : Bool := false
  tries : UInt32 := 0
  triesNoconn : UInt32 := 0
  triesNodial : UInt32 := 0
  triesNoansw : UInt32 := 0
  triesHshake : UInt32 := 0
  triesSessns : UInt32 := 0
  holdUntil : UInt64 := 0
  holdFreqs : UInt64 := 0
  lastSuccess : UInt64 := 0
  lastSuccessIn : UInt64 := 0
  lastSuccessOut : UInt64 := 0
  deriving DecidableEq, Repr

/-- `TRIES_RESET`, -1 as an `int`. -/
def triesReset : UInt32 := 0xffffffff

/-- `HOLD_RESET`. -/
def holdReset : UInt64 := 1

/-- `%u` and `%lu`: the number before it is stored, as `strtoul` reads it. -/
def scanUnsigned (text : Bytes) : Option (Nat × Bytes) :=
  let text := skipSpace text
  let negative := text.head? = some 45
  let digits := if negative || text.head? = some 43 then text.tail else text
  if (digits.takeWhile isdigit).isEmpty then none
  else
    let magnitude := leadingNumber digits
    some (if 2 ^ 64 ≤ magnitude then 2 ^ 64 - 1
      else if negative then (2 ^ 64 - magnitude) % 2 ^ 64 else magnitude,
      digits.dropWhile isdigit)

/-- The numbers `fscanf` stores before a conversion fails. -/
def scanNumbers : Nat → Bytes → List Nat
  | 0, _ => []
  | count + 1, text =>
    match scanUnsigned text with
    | none => []
    | some (value, rest) => value :: scanNumbers count rest

/-- `session_stat_read_stsfile`. What is not read is zero. -/
def sessionStatReadStsfile (text : Bytes) : SessStat :=
  let numbers := scanNumbers 10 text
  let dword index := UInt64.ofNat (numbers.getD index 0)
  let word index := UInt32.ofNat (numbers.getD index 0)
  { tries := word 0
    triesNoconn := word 1
    triesNoansw := word 2
    triesNodial := word 3
    triesHshake := word 4
    triesSessns := word 5
    holdUntil := dword 6
    holdFreqs := dword 7
    lastSuccessOut := dword 8
    lastSuccessIn := dword 9
    lastSuccess := max (dword 8) (dword 9) }

/-- The text `session_stat_write_stsfile` prints. -/
def sessionStatText (stat : SessStat) : Bytes :=
  printNat stat.tries.toNat ++
    [stat.triesNoconn.toNat, stat.triesNoansw.toNat, stat.triesNodial.toNat,
      stat.triesHshake.toNat, stat.triesSessns.toNat, stat.holdUntil.toNat, stat.holdFreqs.toNat,
      stat.lastSuccessOut.toNat, stat.lastSuccessIn.toNat].flatMap fun value => 32 :: printNat value

/-- How a counter of tries is updated. -/
def updateTries (value stat : UInt32) : UInt32 := if stat = triesReset then 0 else value + stat

/-- How a time to hold until is updated. -/
def updateHold (value stat : UInt64) : UInt64 :=
  if stat = holdReset then 0 else if value < stat then stat else value

/-- How the time of a success is updated. -/
def updateSuccess (value stat : UInt64) : UInt64 := if value < stat then stat else value

/-- The part of `session_stat_update_stsfile` that changes the record. -/
def SessStat.update (tmpstat stat : SessStat) : SessStat :=
  { tmpstat with
    tries := updateTries tmpstat.tries stat.tries
    triesNoconn := updateTries tmpstat.triesNoconn stat.triesNoconn
    triesNodial := updateTries tmpstat.triesNodial stat.triesNodial
    triesNoansw := updateTries tmpstat.triesNoansw stat.triesNoansw
    triesHshake := updateTries tmpstat.triesHshake stat.triesHshake
    triesSessns := updateTries tmpstat.triesSessns stat.triesSessns
    holdUntil := updateHold tmpstat.holdUntil stat.holdUntil
    holdFreqs := updateHold tmpstat.holdFreqs stat.holdFreqs
    lastSuccessOut := updateSuccess tmpstat.lastSuccessOut stat.lastSuccessOut
    lastSuccessIn := updateSuccess tmpstat.lastSuccessIn stat.lastSuccessIn }

/-- The record an update starts from, where the file has this content or is not there. -/
def statOf (file : Option Bytes) : SessStat :=
  match file with
  | none => {}
  | some text => sessionStatReadStsfile text

/-- What an update that runs alone makes of the file. -/
def updatedStsfile (stat : SessStat) (file : Option Bytes) : Bytes :=
  sessionStatText ((statOf file).update stat)

/-! ## What is written is read back -/

/-- A printed number is scanned, also after a blank. -/
theorem scanUnsigned_printNat (value : Nat) (rest : Bytes) (small : value < 2 ^ 64)
    (ends : ∀ char ∈ rest.head?, isdigit char = false) :
    scanUnsigned (printNat value ++ rest) = some (value, rest) ∧
      scanUnsigned (32 :: (printNat value ++ rest)) = some (value, rest) := by
  obtain ⟨first, later, printed, digit⟩ := printNat_cons value
  have unsigned := isdigit_unsigned first digit
  have run := takeWhile_run isdigit _ rest (printNat_isdigit value) ends
  have start : skipSpace (printNat value ++ rest) = printNat value ++ rest := by
    unfold skipSpace
    rw [printed, List.cons_append, List.dropWhile_cons_of_neg (by simp [unsigned.1])]
  have blank : skipSpace (32 :: (printNat value ++ rest)) = printNat value ++ rest := by
    unfold skipSpace at start ⊢
    rw [List.dropWhile_cons_of_pos (by decide)]
    exact start
  have plain : ¬ ((printNat value ++ rest).head? = some 45) ∧
      ¬ ((printNat value ++ rest).head? = some 43) := by
    rw [printed]
    simpa using unsigned.2
  constructor
  · unfold scanUnsigned
    rw [start]
    simp only [plain.1, plain.2, decide_false, Bool.or_self, Bool.false_eq_true, if_false, run.1,
      run.2, leadingNumber_printNat value rest ends, if_neg (Nat.not_le_of_lt small)]
    rw [if_neg (by simpa using printNat_ne_nil _)]
  · unfold scanUnsigned
    rw [blank]
    simp only [plain.1, plain.2, decide_false, Bool.or_self, Bool.false_eq_true, if_false, run.1,
      run.2, leadingNumber_printNat value rest ends, if_neg (Nat.not_le_of_lt small)]
    rw [if_neg (by simpa using printNat_ne_nil _)]

/-- So are printed numbers with blanks before them. -/
theorem scanNumbers_printed (values : List Nat) (small : ∀ value ∈ values, value < 2 ^ 64) :
    scanNumbers values.length (values.flatMap fun value => 32 :: printNat value) = values := by
  induction values with
  | nil => rfl
  | cons value rest later =>
    have ends : ∀ char ∈ (rest.flatMap fun value => 32 :: printNat value).head?,
        isdigit char = false := by
      cases rest with
      | nil => exact nofun
      | cons next _ =>
        intro char first
        obtain rfl := Option.some.inj first
        decide
    rw [List.flatMap_cons, List.length_cons, List.cons_append]
    unfold scanNumbers
    rw [(scanUnsigned_printNat value _ (small value List.mem_cons_self) ends).2]
    dsimp only
    rw [later fun other member => small other (List.mem_cons_of_mem _ member)]

/-- The record is read back as it was written, but for what the file does not hold. -/
theorem sessionStatRead_text (stat : SessStat) :
    sessionStatReadStsfile (sessionStatText stat) =
      { stat with
        undialable := false
        lastSuccess := max stat.lastSuccessOut stat.lastSuccessIn } := by
  have word : ∀ value : UInt32, value.toNat < 2 ^ 64 := fun value =>
    Nat.lt_trans value.toNat_lt (by decide)
  have numbers : scanNumbers 10 (sessionStatText stat) =
      [stat.tries.toNat, stat.triesNoconn.toNat, stat.triesNoansw.toNat, stat.triesNodial.toNat,
        stat.triesHshake.toNat, stat.triesSessns.toNat, stat.holdUntil.toNat, stat.holdFreqs.toNat,
        stat.lastSuccessOut.toNat, stat.lastSuccessIn.toNat] := by
    unfold sessionStatText scanNumbers
    rw [(scanUnsigned_printNat _ _ (word stat.tries) (by
      intro char first
      obtain rfl := Option.some.inj first
      decide)).1]
    dsimp only
    congr 1
    refine scanNumbers_printed [_, _, _, _, _, _, _, _, _] ?_
    simp only [List.forall_mem_cons, List.not_mem_nil, false_implies, implies_true, and_true]
    exact ⟨word _, word _, word _, word _, word _, stat.holdUntil.toNat_lt, stat.holdFreqs.toNat_lt,
      stat.lastSuccessOut.toNat_lt, stat.lastSuccessIn.toNat_lt⟩
  unfold sessionStatReadStsfile
  dsimp only
  rw [numbers]
  simp only [List.getD_cons_zero, List.getD_cons_succ, UInt32.ofNat_toNat, UInt64.ofNat_toNat]

/-- An update leaves the hold where it was or moves it later, unless it resets it. -/
theorem updatedStsfile_holdUntil (stat : SessStat) (file : Option Bytes)
    (kept : stat.holdUntil ≠ holdReset) :
    (statOf file).holdUntil ≤ (statOf (some (updatedStsfile stat file))).holdUntil ∧
      stat.holdUntil ≤ (statOf (some (updatedStsfile stat file))).holdUntil := by
  have text : (statOf (some (updatedStsfile stat file))).holdUntil =
      updateHold (statOf file).holdUntil stat.holdUntil :=
    congrArg SessStat.holdUntil (sessionStatRead_text ((statOf file).update stat))
  rw [text]
  unfold updateHold
  rw [if_neg kept]
  split
  · rename_i later
    exact ⟨UInt64.le_of_lt later, UInt64.le_refl _⟩
  · rename_i later
    exact ⟨UInt64.le_refl _, UInt64.not_lt.mp later⟩

end Binkleyforce
