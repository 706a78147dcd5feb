import Binkleyforce.Hydra.Batch

/-!
# The file information of Hydra

What one end says of a file in a FINFO packet, and what the other end makes of it. The time goes
through three conversions: that of `p_tx_fopen`, that of the FINFO packet and that of
`p_rx_fclose`. The ends have time zones of their own, and a `long` of their own.
-/

namespace Binkleyforce

/-! ## Time zones -/

/-- The day of the year, the hour and the minute of `struct tm`. -/
structure BrokenTime where
  yday : Nat
  hour : Fin 24
  min : Fin 60
  deriving DecidableEq

/-- The clock of an end: the same moment in GMT and in local time. -/
structure Clock where
  gmt : BrokenTime
  «local» : BrokenTime
  deriving DecidableEq

/-- `time_gmtoffset`, in minutes. -/
def Clock.gmtoffset (clock : Clock) : Int :=
  let days : Int := (clock.gmt.yday : Int) - clock.local.yday
  let hours : Int := if 1 < days then -24 else if days < -1 then 24 else days * 24
  (hours + ((clock.gmt.hour : Nat) : Int) - ((clock.local.hour : Nat) : Int)) * 60 +
    ((clock.gmt.min : Nat) : Int) - ((clock.local.min : Nat) : Int)

/-- `localtogmt`. -/
def Clock.localtogmt (clock : Clock) (time : Int) : Int := time - clock.gmtoffset * 60

/-- `gmttolocal`. -/
def Clock.gmttolocal (clock : Clock) (time : Int) : Int := time + clock.gmtoffset * 60

/-- The zones are less than two days apart. -/
theorem Clock.gmtoffset_inside (clock : Clock) :
    -2880 < clock.gmtoffset ∧ clock.gmtoffset < 2880 := by
  have hour := clock.gmt.hour.isLt
  have hour' := clock.local.hour.isLt
  have minute := clock.gmt.min.isLt
  have minute' := clock.local.min.isLt
  unfold Clock.gmtoffset
  dsimp only
  split
  · omega
  · split
    · omega
    · omega

/-- The conversions are inverse to each other. -/
theorem Clock.gmttolocal_localtogmt (clock : Clock) (time : Int) :
    clock.gmttolocal (clock.localtogmt time) = time := Int.sub_add_cancel time _

/-- A time that is sent is an even number, and at most a second away. -/
theorem sentModTime_even (time : Int) :
    sentModTime time % 2 = 0 ∧ time - 1 ≤ sentModTime time ∧ sentModTime time ≤ time + 1 := by
  unfold sentModTime
  rw [Int.tmod_eq_emod]
  split
  · omega
  · rw [Int.dvd_iff_emod_eq_zero] at *
    omega

/-- The time `p_rx_fclose` gives to the file; it leaves the time where there is none. -/
def restoredTime (clock : Clock) (modTime : Int) : Option Int :=
  if modTime = 0 then none else some (clock.gmttolocal modTime)

/-! ## The packet -/

/-- What `hydra_batch` takes from a FINFO packet for `p_rx_fopen`; nothing from the end of the batch
and from an invalid packet. -/
def finfoHint (wide : Bool) (clock : Clock) (modtime : Int) (filesize : Nat) (pkt : Bytes) :
    Option FileHint :=
  if pkt.getD 0 0 ≠ 0 ∧ 41 < pkt.length ∧ pkt.getD (pkt.length - 1) 0 = 0 then
    let (time, size) := finfoTimeSize wide modtime filesize pkt
    some ⟨finfoName pkt, size, clock.localtogmt time⟩
  else none

/-- What is taken from a packet. -/
theorem finfoHint_some {wide : Bool} {clock : Clock} {modtime : Int} {filesize : Nat} {pkt : Bytes}
    {hint : FileHint} (there : hint ∈ finfoHint wide clock modtime filesize pkt) :
    41 < pkt.length ∧ hint = ⟨finfoName pkt, (finfoTimeSize wide modtime filesize pkt).2,
      clock.localtogmt (finfoTimeSize wide modtime filesize pkt).1⟩ := by
  unfold finfoHint at there
  split at there
  · rename_i valid
    cases there
    exact ⟨valid.2.1, rfl⟩
  · cases there

/-- A file as its sender has it, and its modification time on the disk. The size has eight digits. -/
structure SentFile where
  netName : Bytes
  plain : ∀ char ∈ netName, char ≠ 0
  bytesTotal : Nat
  sized : bytesTotal < 2 ^ 32
  mtime : Int

/-- An end of the link: whether its `long` has 64 bits, and its clock. -/
structure HydraEnd where
  wide : Bool
  clock : Clock

/-- The time that is sent for a file. -/
def SentFile.modTime (file : SentFile) (sender : HydraEnd) : Int :=
  sentModTime (sender.clock.localtogmt file.mtime)

/-- The FINFO packet of a file. -/
def SentFile.finfo (file : SentFile) (sender : HydraEnd) : Bytes :=
  finfoData sender.wide file.netName file.bytesTotal (file.modTime sender)

/-- What the receiver should make of a file: its long name, or the short one where it has no other,
its size and, when the file is closed, its time. -/
def FinfoRight (sender receiver : HydraEnd) (file : SentFile) (modtime : Int) (filesize : Nat) : Prop :=
  ∃ hint ∈ finfoHint receiver.wide receiver.clock modtime filesize (file.finfo sender),
    hint.fn = file.netName ∧ hint.sz = file.bytesTotal ∧
      restoredTime receiver.clock hint.tm = some (sentModTime file.mtime)

/-- A time that eight digits hold: it is not negative, unless both ends have 32 bits, and not too
late for the receiver. -/
def TimeFits (sender receiver : HydraEnd) (time : Int) : Prop :=
  (0 ≤ time ∨ sender.wide = false ∧ receiver.wide = false) ∧
    time < if receiver.wide then 2 ^ 32 else 2 ^ 31

/-- Where the file comes out as it is: the name is not cut, the upper half of the variable for the
size was zero, the sender lives in GMT, and there is a time that eight digits hold. -/
structure FinfoFits (sender receiver : HydraEnd) (file : SentFile) (filesize : Nat) : Prop where
  name : file.netName ≠ [] ∧ file.netName.length < bforceMaxName
  size : filesize / 2 ^ 32 % 2 ^ 32 = 0
  zone : sender.clock.gmtoffset = 0
  time : TimeFits sender receiver (sentModTime file.mtime)
  there : receiver.clock.localtogmt (sentModTime file.mtime) ≠ 0

/-! ## Short names -/

/-- An occurrence is cut out of the text. -/
theorem strstr_parts {find text : Bytes} {parts : Bytes × Bytes} (found : parts ∈ strstr find text) :
    ∀ char, char ∈ parts.1 ∨ char ∈ parts.2 → char ∈ text := by
  induction text generalizing parts with
  | nil =>
    unfold strstr at found
    split at found
    · cases found
      rintro char (front | back)
      · exact front
      · exact back
    · cases found
  | cons head text inductionHypothesis =>
    unfold strstr at found
    split at found
    · cases found
      rintro char (front | back)
      · cases front
      · exact List.mem_of_mem_drop back
    · obtain ⟨later, there, rfl⟩ := Option.map_eq_some_iff.mp found
      rintro char (front | back)
      · rcases List.mem_cons.mp front with rfl | front
        · exact List.mem_cons_self
        · exact List.mem_cons_of_mem _ (inductionHypothesis there char (.inl front))
      · exact List.mem_cons_of_mem _ (inductionHypothesis there char (.inr back))

/-- A shorter ending leaves a name, of characters of the name and of the table. -/
theorem shortenEnding_spec (filename : Bytes) (table : List (Bytes × Bytes))
    (filled : ∀ ending ∈ table, ending.2 ≠ []) :
    (shortenEnding filename table = [] → filename = []) ∧
      ∀ char ∈ shortenEnding filename table, char ∈ filename ∨ ∃ ending ∈ table, char ∈ ending.2 := by
  induction table with
  | nil => exact ⟨id, fun char member => .inl member⟩
  | cons ending table inductionHypothesis =>
    rw [List.forall_mem_cons] at filled
    obtain ⟨find, repl⟩ := ending
    unfold shortenEnding
    split
    · obtain ⟨empty, members⟩ := inductionHypothesis filled.2
      refine ⟨empty, ?_⟩
      intro char member
      rcases members char member with name | ⟨other, there, inside⟩
      · exact .inl name
      · exact .inr ⟨other, List.mem_cons_of_mem _ there, inside⟩
    · rename_i before after found
      have parts := strstr_parts found
      constructor
      · intro empty
        simp only [List.append_eq_nil_iff] at empty
        exact absurd empty.1.2 filled.1
      · intro char member
        rcases List.mem_append.mp member with front | back
        · rcases List.mem_append.mp front with front | new
          · exact .inl (parts char (.inl front))
          · exact .inr ⟨_, List.mem_cons_self, new⟩
        · exact .inl (parts char (.inr back))

/-- The characters of a plain name are those of the name, or underscores and points. -/
theorem plainName_spec (filename : Bytes) :
    (plainName filename).1.length = filename.length ∧ (plainName filename).2 ≤ 3 ∧
      ∀ char ∈ (plainName filename).1, char = 95 ∨ char = 46 ∨ char ∈ filename := by
  induction filename with
  | nil => exact ⟨rfl, Nat.zero_le 3, nofun⟩
  | cons head rest inductionHypothesis =>
    obtain ⟨length, short, members⟩ := inductionHypothesis
    have later (first : UInt8) (is : first = 95 ∨ first = 46 ∨ first = head) :
        ∀ char ∈ first :: (plainName rest).1, char = 95 ∨ char = 46 ∨ char ∈ head :: rest := by
      intro char member
      rcases List.mem_cons.mp member with rfl | back
      · rcases is with is | is | rfl
        · exact .inl is
        · exact .inr (.inl is)
        · exact .inr (.inr List.mem_cons_self)
      · rcases members char back with is | is | is
        · exact .inl is
        · exact .inr (.inl is)
        · exact .inr (.inr (List.mem_cons_of_mem _ is))
    unfold plainName
    dsimp only
    split
    · exact ⟨congrArg (· + 1) length, short, later 95 (.inl rfl)⟩
    · split
      · split
        · rename_i few
          simp only [Bool.and_eq_true, decide_eq_true_eq] at few
          exact ⟨congrArg (· + 1) length, few.1.1, later 46 (.inr (.inl rfl))⟩
        · exact ⟨congrArg (· + 1) length, short, later 95 (.inl rfl)⟩
      · exact ⟨congrArg (· + 1) length, short, later head (.inr (.inr rfl))⟩

/-- A lower case letter is no end of a string. -/
theorem tolower_ne_zero {char : UInt8} (plain : char ≠ 0) : tolower char ≠ 0 := by
  have all : ∀ value < 256, UInt8.ofNat value ≠ 0 → tolower (UInt8.ofNat value) ≠ 0 := by decide +kernel
  have one := all char.toNat char.toNat_lt
  rw [UInt8.ofNat_toNat] at one
  exact one plain

/-- A short name has few characters, and no end in it; only no name at all has an empty one. -/
theorem fileGetDosName_spec {filename : Bytes} (plain : ∀ char ∈ filename, char ≠ 0) :
    (fileGetDosName filename = [] → filename = []) ∧ (fileGetDosName filename).length < bforceMaxName ∧
      ∀ char ∈ fileGetDosName filename, char ≠ 0 := by
  obtain ⟨empty, members⟩ := shortenEnding_spec filename fnctab (by decide)
  obtain ⟨length, short, characters⟩ := plainName_spec (shortenEnding filename fnctab)
  have endings : fnctab.all (fun ending => 0 ∉ ending.2) = true := by decide
  have table : ∀ ending ∈ fnctab, ∀ char ∈ ending.2, char ≠ 0 := fun ending there =>
    whole_of_not_mem (of_decide_eq_true (List.all_eq_true.mp endings ending there))
  have copied : ∀ char ∈ (plainName (shortenEnding filename fnctab)).1, char ≠ 0 := by
    intro char member
    rcases characters char member with rfl | rfl | inside
    · decide
    · decide
    · rcases members char inside with inside | ⟨ending, there, inside⟩
      · exact plain char inside
      · exact table ending there char inside
  have lower {text : Bytes} (filled : ∀ char ∈ text, char ≠ 0) :
      ∀ char ∈ text.map tolower, char ≠ 0 := by
    intro char member
    obtain ⟨upper, there, rfl⟩ := List.mem_map.mp member
    exact tolower_ne_zero (filled upper there)
  have marked (last : Nat) : ∀ char ∈ (plainName (shortenEnding filename fnctab)).1.take 5 ++ [126] ++
      (plainName (shortenEnding filename fnctab)).1.drop last, char ≠ 0 := by
    intro char member
    rcases List.mem_append.mp member with front | back
    · rcases List.mem_append.mp front with front | mark
      · exact copied char (List.mem_of_mem_take front)
      · rw [List.mem_singleton.mp mark]
        decide
    · exact copied char (List.mem_of_mem_drop back)
  unfold fileGetDosName bforceMaxName
  dsimp only
  split
  · rename_i fits
    simp only [Bool.or_eq_true, Bool.and_eq_true, decide_eq_true_eq] at fits
    refine ⟨?_, ?_, lower copied⟩
    · intro nothing
      apply empty
      rw [List.map_eq_nil_iff] at nothing
      rw [nothing] at length
      exact List.eq_nil_of_length_eq_zero length.symm
    · rw [List.length_map]
      omega
  · split
    · refine ⟨by simp, ?_, lower (marked _)⟩
      simp only [List.length_map, List.length_append, List.length_take, List.length_drop,
        List.length_singleton]
      omega
    · refine ⟨by simp, ?_, lower (marked _)⟩
      simp only [List.length_map, List.length_append, List.length_take, List.length_drop,
        List.length_singleton]
      omega

/-- A short name is not cut. -/
theorem strnxcpy_dosName {netName : Bytes} (plain : ∀ char ∈ netName, char ≠ 0) :
    strnxcpy (fileGetDosName netName) bforceMaxName = fileGetDosName netName := by
  obtain ⟨-, short, filled⟩ := fileGetDosName_spec plain
  unfold strnxcpy
  rw [cstring_whole _ filled, List.take_of_length_le (by omega)]

/-! ## What the packet is read as -/

/-- The packet up to its names: five numbers. -/
theorem finfoData_parts (wide : Bool) (netName : Bytes) (bytesTotal : Nat) (modTime : Int) :
    ∃ behind, finfoData wide netName bytesTotal modTime =
      printHex (unsignedLong wide modTime) ++ (printHex (unsignedLong wide bytesTotal) ++
        (List.replicate 24 48 ++ (strnxcpy (fileGetDosName netName) bforceMaxName ++ 0 :: behind))) ∧
      behind = if fileGetDosName netName = netName then [] else strnxcpy netName bforceMaxName ++ [0] := by
  refine ⟨_, ?_, rfl⟩
  have zeros : List.replicate 24 (48 : UInt8) = printHex 0 ++ printHex 0 ++ printHex 0 := by decide
  unfold finfoData
  rw [zeros]
  simp only [List.append_assoc, List.singleton_append]

/-- The first eight digits of a number. -/
theorem hexNumber_first (value : Nat) :
    hexNumber ((printHex value).take 8) = value / 16 ^ ((printHex value).length - 8) ∧
      hexNumber ((printHex value).take 8) < 2 ^ 32 := by
  obtain ⟨digits, number⟩ := hexNumber_printHex value
  obtain ⟨enough, -⟩ := printHex_length value
  have rest : ∀ char ∈ (printHex value).drop 8, (xdigit char).isSome := fun char member =>
    digits char (List.mem_of_mem_drop member)
  have first : ∀ char ∈ (printHex value).take 8, (xdigit char).isSome := fun char member =>
    digits char (List.mem_of_mem_take member)
  obtain ⟨whole, below⟩ := hexNumber_append ((printHex value).take 8) rest
  rw [List.take_append_drop, number, List.length_drop] at whole
  rw [List.length_drop] at below
  constructor
  · symm
    apply Nat.div_eq_of_lt_le
    · omega
    · rw [Nat.succ_mul]
      omega
  · have bound := (hexNumber_append [] first).2
    rw [List.length_take_of_le enough] at bound
    exact bound

/-- The strings and numbers of the packet, as far as they are read. -/
theorem finfoData_cstring (wide : Bool) {netName : Bytes} (plain : ∀ char ∈ netName, char ≠ 0)
    (bytesTotal : Nat) (modTime : Int) :
    cstring (finfoData wide netName bytesTotal modTime) =
      printHex (unsignedLong wide modTime) ++ (printHex (unsignedLong wide bytesTotal) ++
        (List.replicate 24 48 ++ fileGetDosName netName)) := by
  obtain ⟨-, -, filled⟩ := fileGetDosName_spec plain
  obtain ⟨behind, parts, -⟩ := finfoData_parts wide netName bytesTotal modTime
  have digit (value : Nat) : ∀ char ∈ printHex value, char ≠ 0 := by
    rintro char member rfl
    exact absurd ((hexNumber_printHex value).1 0 member) (by decide)
  have zero : ∀ char ∈ List.replicate 24 (48 : UInt8), char ≠ 0 := whole_of_not_mem (by decide)
  rw [parts, strnxcpy_dosName plain, cstring_append _ _ (digit _), cstring_append _ _ (digit _), cstring_append _ _ zero,
    cstring_ended, cstring_whole _ filled]

/-- The time that is read are the first eight digits, and where a time and a size have eight, the size
is read as well. -/
theorem finfoTimeSize_finfoData (wide narrow : Bool) {netName : Bytes} (plain : ∀ char ∈ netName, char ≠ 0)
    (bytesTotal : Nat) (modTime modtime : Int) (filesize : Nat) :
    (finfoTimeSize narrow modtime filesize (finfoData wide netName bytesTotal modTime)).1 =
        long narrow (hexNumber ((printHex (unsignedLong wide modTime)).take 8) : Nat) ∧
      (unsignedLong wide modTime < 2 ^ 32 → unsignedLong wide bytesTotal < 2 ^ 32 →
        (finfoTimeSize narrow modtime filesize (finfoData wide netName bytesTotal modTime)).2 =
          storeLowHalf (filesize / 2 ^ 32) (unsignedLong wide bytesTotal : Nat)) := by
  obtain ⟨digits, number⟩ := hexNumber_printHex (unsignedLong wide modTime)
  obtain ⟨enough, exact_⟩ := printHex_length (unsignedLong wide modTime)
  have scanned := scanHex_field (List.length_take_of_le enough) (by decide)
    (fun char member => digits char (List.mem_of_mem_take member))
    ((printHex (unsignedLong wide modTime)).drop 8 ++ (printHex (unsignedLong wide bytesTotal) ++
        (List.replicate 24 48 ++ fileGetDosName netName)))
  rw [← List.append_assoc, List.take_append_drop] at scanned
  unfold finfoTimeSize
  rw [finfoData_cstring wide plain, scanned]
  refine ⟨rfl, ?_⟩
  intro time size
  obtain ⟨digits', number'⟩ := hexNumber_printHex (unsignedLong wide bytesTotal)
  have empty : (printHex (unsignedLong wide modTime)).drop 8 = [] := by
    apply List.drop_eq_nil_of_le
    rw [exact_.mpr time]
  have next := scanHex_field ((printHex_length _).2.mpr size) (by decide) digits'
    (List.replicate 24 48 ++ fileGetDosName netName)
  dsimp only
  rw [empty, List.nil_append, next, number']

/-- The name that is read, where the numbers have eight digits. -/
theorem finfoName_finfoData (wide : Bool) {netName : Bytes} (plain : ∀ char ∈ netName, char ≠ 0)
    {bytesTotal : Nat} {modTime : Int} (time : unsignedLong wide modTime < 2 ^ 32)
    (size : unsignedLong wide bytesTotal < 2 ^ 32) (named : netName ≠ []) :
    finfoName (finfoData wide netName bytesTotal modTime) = netName ↔
      netName.length < bforceMaxName := by
  obtain ⟨empty, short, filled⟩ := fileGetDosName_spec plain
  obtain ⟨behind, parts, names⟩ := finfoData_parts wide netName bytesTotal modTime
  have numbers : (printHex (unsignedLong wide modTime) ++ (printHex (unsignedLong wide bytesTotal) ++
      List.replicate 24 48)).length = 40 := by
    rw [List.length_append, List.length_append, (printHex_length _).2.mpr time,
      (printHex_length _).2.mpr size, List.length_replicate]
  have after : (finfoData wide netName bytesTotal modTime).drop 40 =
      fileGetDosName netName ++ 0 :: behind := by
    rw [parts, strnxcpy_dosName plain, ← List.append_assoc (printHex (unsignedLong wide bytesTotal)), ← List.append_assoc,
      List.drop_left' numbers]
  have first : cstring ((finfoData wide netName bytesTotal modTime).drop 40) = fileGetDosName netName := by
    rw [after, cstring_ended, cstring_whole _ filled]
  have second : cstring ((finfoData wide netName bytesTotal modTime).drop
      (40 + (fileGetDosName netName).length + 1)) = cstring behind := by
    have more : (finfoData wide netName bytesTotal modTime).drop
        (40 + (fileGetDosName netName).length + 1) = behind := by
      rw [Nat.add_assoc, ← List.drop_drop, after, ← List.drop_drop, List.drop_left]
      rfl
    rw [more]
  have dosname : fileGetDosName netName ≠ [] := fun nothing => named (empty nothing)
  unfold finfoName
  dsimp only
  rw [first, second, if_neg (by simpa using dosname), names]
  by_cases same : fileGetDosName netName = netName
  · rw [if_pos same]
    have little : netName.length < bforceMaxName := by rwa [same] at short
    exact ⟨fun _ => little, fun _ => same⟩
  · rw [if_neg same]
    have copied : strnxcpy netName bforceMaxName = netName.take 127 := by
      unfold strnxcpy
      rw [cstring_whole _ plain]
      rfl
    have text : cstring (netName.take 127 ++ [0]) = netName.take 127 := by
      rw [cstring_ended, cstring_whole _ fun char member => plain char (List.mem_of_mem_take member)]
    have long : netName.take 127 ≠ [] := by
      rw [ne_eq, List.take_eq_nil_iff, not_or]
      exact ⟨by decide, named⟩
    rw [copied, text, if_neg (by simpa using long)]
    unfold bforceMaxName
    constructor
    · intro whole
      have cut := congrArg List.length whole
      rw [List.length_take] at cut
      omega
    · intro little
      exact List.take_of_length_le (by omega)

/-! ## The time -/

/-- A time of a `long` is sent with eight digits exactly where it is not negative, or the `long` has no
more, and it is below 4294967296. -/
theorem unsignedLong_lt (wide : Bool) {time : Int} (fits : long wide time = time) :
    unsignedLong wide time < 2 ^ 32 ↔ (0 ≤ time ∨ wide = false) ∧ time < 2 ^ 32 := by
  unfold unsignedLong
  unfold long at fits
  cases wide with
  | false =>
    simp only [Bool.false_eq_true, if_false, Int.bmod_def, or_true, true_and] at fits ⊢
    omega
  | true =>
    simp only [if_true, Int.bmod_def, Bool.true_eq_false, or_false] at fits ⊢
    omega

/-- The bits of a `long` of 64 bits. -/
theorem unsignedLong_wide {time : Int} (fits : long true time = time) :
    (unsignedLong true time : Int) = (if time < 0 then 2 ^ 64 + time else time) ∧
      -(2 ^ 63) ≤ time ∧ time < 2 ^ 63 := by
  unfold unsignedLong
  unfold long at fits
  simp only [if_true, Int.bmod_def] at fits ⊢
  split
  · omega
  · omega

/-- Eight digits as a `long`. -/
theorem long_digits (wide : Bool) {number : Nat} (digits : number < 2 ^ 32) :
    long wide number =
      (if wide = false ∧ 2 ^ 31 ≤ number then (number : Int) - 2 ^ 32 else (number : Int)) := by
  unfold long
  cases wide with
  | false =>
    simp only [Bool.false_eq_true, if_false, Int.bmod_def, true_and]
    omega
  | true =>
    simp only [if_true, Int.bmod_def, Bool.true_eq_false, false_and, if_false]
    omega

/-- The digits of a number of 16 digits. -/
theorem printHex_sixteen {value : Nat} (great : 2 ^ 63 ≤ value) (small : value < 2 ^ 64) :
    (printHex value).length = 16 := by
  have most := Nat.length_toDigits_le_iff (n := value) (k := 16) (b := 16) (by decide) (by decide)
  have least := Nat.length_toDigits_le_iff (n := value) (k := 15) (b := 16) (by decide) (by decide)
  unfold printHex
  dsimp only
  rw [List.length_append, List.length_replicate, List.length_map]
  omega

/-- Where a time has more than eight digits, the first eight are another time. -/
theorem first_digits_ne (narrow : Bool) {sent time : Int} (fits : long true sent = sent)
    (many : ¬ unsignedLong true sent < 2 ^ 32) (even : time % 2 = 0) (near : time - 2 ^ 18 ≤ sent)
    (near' : sent ≤ time + 2 ^ 18) :
    long narrow (hexNumber ((printHex (unsignedLong true sent)).take 8) : Nat) ≠ time := by
  obtain ⟨first, below⟩ := hexNumber_first (unsignedLong true sent)
  obtain ⟨enough, exact_⟩ := printHex_length (unsignedLong true sent)
  obtain ⟨bits, least, most⟩ := unsignedLong_wide fits
  have more : 1 ≤ (printHex (unsignedLong true sent)).length - 8 := by omega
  rw [long_digits narrow below]
  by_cases negative : sent < 0
  · -- The first digits are those of the upper half, which is -1 only for the last ones.
    rw [if_pos negative] at bits
    rw [printHex_sixteen (by omega) (by omega)] at first
    generalize hexNumber ((printHex (unsignedLong true sent)).take 8) = number at *
    have half : number = unsignedLong true sent / 2 ^ 32 := first
    split <;> omega
  · rw [if_neg negative] at bits
    have less : unsignedLong true sent / 16 ^ ((printHex (unsignedLong true sent)).length - 8) ≤
        unsignedLong true sent / 16 ^ 1 :=
      Nat.div_le_div_left (Nat.pow_le_pow_right (by decide) more) (by decide)
    rw [← first] at less
    generalize hexNumber ((printHex (unsignedLong true sent)).take 8) = number at *
    split <;> omega

/-- The packet is one, and no end of the batch. -/
theorem finfoData_valid (wide : Bool) {netName : Bytes} (plain : ∀ char ∈ netName, char ≠ 0)
    (bytesTotal : Nat) (modTime : Int) (named : netName ≠ []) :
    (finfoData wide netName bytesTotal modTime).getD 0 0 ≠ 0 ∧
      41 < (finfoData wide netName bytesTotal modTime).length ∧
      (finfoData wide netName bytesTotal modTime).getD
        ((finfoData wide netName bytesTotal modTime).length - 1) 0 = 0 := by
  obtain ⟨empty, -, -⟩ := fileGetDosName_spec plain
  obtain ⟨behind, parts, names⟩ := finfoData_parts wide netName bytesTotal modTime
  obtain ⟨enough, -⟩ := printHex_length (unsignedLong wide modTime)
  obtain ⟨enough', -⟩ := printHex_length (unsignedLong wide bytesTotal)
  have dosname : 0 < (strnxcpy (fileGetDosName netName) bforceMaxName).length := by
    rw [strnxcpy_dosName plain]
    exact List.length_pos_of_ne_nil fun nothing => named (empty nothing)
  have last : (finfoData wide netName bytesTotal modTime).getLast? = some 0 := by
    unfold finfoData
    dsimp only
    split
    · rw [List.append_nil, List.getLast?_concat]
    · rw [← List.append_assoc, List.getLast?_concat]
  refine ⟨?_, ?_, ?_⟩
  · obtain ⟨first, later, begins⟩ := List.exists_cons_of_length_pos
      (Nat.lt_of_lt_of_le (by decide) enough : 0 < (printHex (unsignedLong wide modTime)).length)
    have digit := (hexNumber_printHex (unsignedLong wide modTime)).1 first (begins ▸ List.mem_cons_self)
    rw [parts, begins, List.cons_append, List.getD_cons_zero]
    rintro rfl
    exact absurd digit (by decide)
  · rw [parts]
    simp only [List.length_append, List.length_cons, List.length_replicate]
    omega
  · rw [List.getLast?_eq_getElem?] at last
    rw [List.getD_eq_getElem?_getD, last]
    rfl

/-! ## The file on the other side -/

/-- Eight digits give back the time exactly where they hold it. -/
theorem timeFits_iff (sender receiver : HydraEnd) {time : Int} (fits : long sender.wide time = time) :
    (unsignedLong sender.wide time < 2 ^ 32 ∧
        long receiver.wide (unsignedLong sender.wide time : Nat) = time) ↔
      TimeFits sender receiver time := by
  rw [unsignedLong_lt sender.wide fits]
  unfold TimeFits unsignedLong long at *
  generalize sender.wide = wide at *
  generalize receiver.wide = narrow at *
  cases wide <;> cases narrow <;>
    simp only [Bool.false_eq_true, if_false, if_true, Int.bmod_def, Bool.true_eq_false, or_false,
      or_true, true_and, and_false, and_true] at fits ⊢ <;> omega

/-- What eight digits are read as differs from the time by whole turns. -/
theorem read_turns (sender receiver : Bool) (time : Int) :
    (long receiver (unsignedLong sender time : Nat) - time) % 2 ^ 32 = 0 := by
  unfold unsignedLong long
  cases sender <;> cases receiver <;>
    simp only [Bool.false_eq_true, if_false, if_true, Int.bmod_def] <;> omega

/-- The time the file gets. -/
theorem restoredTime_localtogmt (clock : Clock) (time other : Int) :
    restoredTime clock (clock.localtogmt time) = some other ↔
      time = other ∧ clock.localtogmt other ≠ 0 := by
  unfold restoredTime
  rw [clock.gmttolocal_localtogmt]
  constructor
  · intro restored
    split at restored
    · cases restored
    · rename_i there
      cases restored
      exact ⟨rfl, there⟩
  · rintro ⟨rfl, there⟩
    rw [if_neg there]

/-- The size of a file has eight digits at either end. -/
theorem SentFile.size_digits (file : SentFile) (wide : Bool) :
    unsignedLong wide file.bytesTotal = file.bytesTotal := by
  have sized := file.sized
  unfold unsignedLong
  split <;> omega

/-- Where the time has eight digits, the packet is read field by field. -/
theorem finfoHint_finfo (sender receiver : HydraEnd) (file : SentFile) (modtime : Int) (filesize : Nat)
    (named : file.netName ≠ []) (eight : unsignedLong sender.wide (file.modTime sender) < 2 ^ 32) :
    finfoHint receiver.wide receiver.clock modtime filesize (file.finfo sender) =
      some ⟨finfoName (file.finfo sender), storeLowHalf (filesize / 2 ^ 32) file.bytesTotal,
        receiver.clock.localtogmt
          (long receiver.wide (unsignedLong sender.wide (file.modTime sender) : Nat))⟩ := by
  obtain ⟨time, size⟩ := finfoTimeSize_finfoData sender.wide receiver.wide file.plain file.bytesTotal
    (file.modTime sender) modtime filesize
  have whole : (printHex (unsignedLong sender.wide (file.modTime sender))).take 8 =
      printHex (unsignedLong sender.wide (file.modTime sender)) :=
    List.take_of_length_le (Nat.le_of_eq ((printHex_length _).2.mpr eight))
  rw [whole, (hexNumber_printHex _).2] at time
  have size := size eight (by rw [file.size_digits]; exact file.sized)
  rw [file.size_digits] at size
  have valid := finfoData_valid sender.wide file.plain file.bytesTotal (file.modTime sender) named
  unfold finfoHint SentFile.finfo
  rw [if_pos valid]
  dsimp only
  rw [time, size]

/-- The size is right where the variable had no upper half. -/
theorem storeLowHalf_eq {size : Nat} (small : size < 2 ^ 32) (high : Nat) :
    storeLowHalf high size = size ↔ high % 2 ^ 32 = 0 := by
  unfold storeLowHalf
  omega

/-- A file comes out as it is exactly where its name is not cut, the variable for its size had no upper
half, and its sender lives in GMT and sends a time that eight digits hold. -/
theorem finfo_recovered (sender receiver : HydraEnd) (file : SentFile) (modtime : Int) (filesize : Nat)
    (fits : long sender.wide (file.modTime sender) = file.modTime sender) :
    FinfoRight sender receiver file modtime filesize ↔ FinfoFits sender receiver file filesize := by
  have sizeEight : unsignedLong sender.wide file.bytesTotal < 2 ^ 32 := by
    rw [file.size_digits]
    exact file.sized
  constructor
  · rintro ⟨hint, there, name, size, restored⟩
    obtain ⟨long_, rfl⟩ := finfoHint_some there
    dsimp only at name size restored
    rw [restoredTime_localtogmt] at restored
    obtain ⟨restored, nonzero⟩ := restored
    obtain ⟨time, -⟩ := finfoTimeSize_finfoData sender.wide receiver.wide file.plain file.bytesTotal
      (file.modTime sender) modtime filesize
    unfold SentFile.finfo at *
    rw [time] at restored
    -- The time comes first: it shows that the numbers had eight digits.
    obtain ⟨even, early, late⟩ := sentModTime_even (sender.clock.localtogmt file.mtime)
    obtain ⟨even', early', late'⟩ := sentModTime_even file.mtime
    obtain ⟨west, east⟩ := sender.clock.gmtoffset_inside
    have moved : sender.clock.localtogmt file.mtime = file.mtime - sender.clock.gmtoffset * 60 := rfl
    have near : sentModTime file.mtime - 2 ^ 18 ≤ file.modTime sender ∧
        file.modTime sender ≤ sentModTime file.mtime + 2 ^ 18 := by
      unfold SentFile.modTime
      omega
    have eight : unsignedLong sender.wide (file.modTime sender) < 2 ^ 32 := by
      by_contra many
      cases width : sender.wide with
      | false =>
        rw [width] at many
        unfold unsignedLong at many
        simp only [Bool.false_eq_true, if_false] at many
        omega
      | true =>
        rw [width] at many restored fits
        exact first_digits_ne receiver.wide fits many even' near.1 near.2 restored
    have whole : (printHex (unsignedLong sender.wide (file.modTime sender))).take 8 =
        printHex (unsignedLong sender.wide (file.modTime sender)) :=
      List.take_of_length_le (Nat.le_of_eq ((printHex_length _).2.mpr eight))
    rw [whole, (hexNumber_printHex _).2] at restored
    have turns := read_turns sender.wide receiver.wide (file.modTime sender)
    have same : file.modTime sender = sentModTime file.mtime := by
      rw [restored] at turns
      omega
    have zone : sender.clock.gmtoffset = 0 := by
      unfold SentFile.modTime at same
      omega
    have named : file.netName ≠ [] := by
      intro nameless
      rw [nameless] at long_
      obtain ⟨behind, parts, names⟩ := finfoData_parts sender.wide [] file.bytesTotal (file.modTime sender)
      rw [if_pos (by decide)] at names
      rw [parts, names] at long_
      simp only [List.length_append, (printHex_length _).2.mpr eight, (printHex_length _).2.mpr sizeEight,
        List.length_replicate, List.length_cons, List.length_nil] at long_
      exact absurd long_ (by decide)
    have sizes := (finfoTimeSize_finfoData sender.wide receiver.wide file.plain file.bytesTotal
      (file.modTime sender) modtime filesize).2 eight sizeEight
    rw [sizes, file.size_digits, storeLowHalf_eq file.sized] at size
    refine ⟨⟨named, ?_⟩, size, zone, ?_, ?_⟩
    · exact (finfoName_finfoData sender.wide file.plain eight sizeEight named).mp name
    · rw [← same]
      apply (timeFits_iff sender receiver fits).mp
      rw [same] at restored
      rw [same]
      exact ⟨by rwa [same] at eight, restored⟩
    · exact nonzero
  · intro good
    have same : file.modTime sender = sentModTime file.mtime := by
      unfold SentFile.modTime Clock.localtogmt
      rw [good.zone, Int.zero_mul, Int.sub_zero]
    have read := (timeFits_iff sender receiver fits).mpr (by rw [same]; exact good.time)
    unfold FinfoRight
    rw [finfoHint_finfo sender receiver file modtime filesize good.name.1 read.1]
    refine ⟨_, rfl, ?_, ?_, ?_⟩
    · dsimp only
      unfold SentFile.finfo
      exact (finfoName_finfoData sender.wide file.plain read.1 sizeEight good.name.1).mpr good.name.2
    · exact (storeLowHalf_eq file.sized _).mpr good.size
    · dsimp only
      rw [restoredTime_localtogmt, read.2]
      exact ⟨same, good.there⟩

/-- A letter of 2001. -/
def letter : SentFile where
  netName := ascii "a_long_letter.txt"
  plain := by decide +kernel
  bytesTotal := 4096
  sized := by decide
  mtime := 1000000001

/-- An end in GMT. -/
def gmtEnd : HydraEnd := ⟨true, ⟨0, 9, 0⟩, ⟨0, 9, 0⟩⟩

/-- An end three hours to the east. -/
def easternEnd : HydraEnd := ⟨true, ⟨0, 9, 0⟩, ⟨0, 12, 0⟩⟩

/-- A letter from GMT comes out as it is in the east. -/
theorem finfo_recovered_letter : FinfoRight gmtEnd easternEnd letter 0 0 :=
  (finfo_recovered gmtEnd easternEnd letter 0 0 (by decide)).mpr
    ⟨⟨by decide, by decide⟩, by decide, by decide, by unfold TimeFits; decide, by decide⟩

/-- A letter from the east is three hours late on both sides, and where the variable for the size was
not zero, the letter is too large. -/
theorem letter_late : ¬ FinfoRight easternEnd easternEnd letter 0 0 ∧
    ¬ FinfoRight gmtEnd gmtEnd letter 0 (2 ^ 32) := by
  constructor
  · rintro ⟨hint, there, -, -, restored⟩
    have packet : finfoHint easternEnd.wide easternEnd.clock 0 0 (letter.finfo easternEnd) =
        some ⟨ascii "a_long_letter.txt", 4096, 1000021602⟩ := by decide
    rw [packet] at there
    cases there
    exact absurd restored (by decide)
  · rintro ⟨hint, there, -, size, -⟩
    have packet : finfoHint gmtEnd.wide gmtEnd.clock 0 (2 ^ 32) (letter.finfo gmtEnd) =
        some ⟨ascii "a_long_letter.txt", 2 ^ 32 + 4096, 1000000002⟩ := by decide
    rw [packet] at there
    cases there
    exact absurd size (by decide)

/-! ## The batch -/

/-- `hydra_batch` opens the file it takes from a FINFO packet. -/
theorem onFinfo_hint (conf : HydraConf) (answers : HydraPacketAnswers) (pkt : Bytes) (s : HydraState)
    (clock : Clock) (zone : conf.files.localtogmt = clock.localtogmt) (waits : s.rxstate = .finfo)
    {hint : FileHint}
    (there : hint ∈ finfoHint conf.wide clock answers.modtime answers.filesize pkt) :
    s.onFinfo conf answers pkt.length pkt = s.openReceived conf answers pkt ∧
      (pRxFopen conf.files answers.opens ⟨finfoName pkt,
        (finfoTimeSize conf.wide answers.modtime answers.filesize pkt).2,
        conf.files.localtogmt (finfoTimeSize conf.wide answers.modtime answers.filesize pkt).1⟩ s.pi) =
      pRxFopen conf.files answers.opens hint s.pi := by
  obtain ⟨-, same⟩ := finfoHint_some there
  have valid : pkt.getD 0 0 ≠ 0 ∧ 41 < pkt.length ∧ pkt.getD (pkt.length - 1) 0 = 0 := by
    unfold finfoHint at there
    split at there
    · assumption
    · cases there
  refine ⟨?_, by rw [same, zone]⟩
  unfold HydraState.onFinfo
  rw [if_pos waits, if_neg valid.1, if_pos valid.2, List.take_length]

end Binkleyforce
