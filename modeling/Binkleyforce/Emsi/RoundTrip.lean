import Binkleyforce.Emsi.Reading

/-!
# The texts of a packet, written and read

A value is kept in braces and in brackets exactly where every character of it is seen as it
is and there is no bracket among them. A packet all of whose texts are such gives them back.
-/

namespace Binkleyforce

/-! ## The loop of the parser -/

/-- A step leaves no more text than it finds. -/
def EmsiStep.Shrinks (step : EmsiStep) : Prop :=
  ∀ state str later left, step state str = .ok (later, left) → left.length ≤ str.length

/-- The reader of a field goes on behind its end. -/
theorem fieldBody_shorter (close : UInt8) (str field left : Bytes)
    (read : fieldBody close str = some (field, left)) : field.length + left.length ≤ str.length := by
  induction str using fieldBody.induct close generalizing field with
  | case1 => cases read
  | case2 more later =>
    rw [fieldBody_pair] at read
    obtain ⟨⟨inner, rest⟩, found, same⟩ := Option.map_eq_some_iff.mp read
    cases same
    have := later inner found
    simp only [List.length_cons]
    omega
  | case3 next more other =>
    rw [fieldBody_end close (next :: more) fun same => other (Option.some.inj same)] at read
    cases read
    simp
  | case4 =>
    rw [fieldBody_end close [] nofun] at read
    cases read
    simp
  | case5 more other later =>
    rw [fieldBody_slashes more other] at read
    obtain ⟨⟨inner, rest⟩, found, same⟩ := Option.map_eq_some_iff.mp read
    cases same
    have := later inner found
    simp only [List.length_cons]
    omega
  | case6 next further low more other two later =>
    rw [fieldBody_code more other further two] at read
    obtain ⟨⟨inner, rest⟩, found, same⟩ := Option.map_eq_some_iff.mp read
    cases same
    have := later inner found
    rw [List.length_append]
    have few : (if hexChar next low = 93 then [93, 93] else [hexChar next low]).length ≤ 2 := by
      split <;> simp
    simp only [List.length_cons]
    omega
  | case7 next further other two => exact absurd two (hexSpan_single next)
  | case8 next more further alone other later =>
    rw [fieldBody_slash more other further alone] at read
    obtain ⟨⟨inner, rest⟩, found, same⟩ := Option.map_eq_some_iff.mp read
    cases same
    have := later inner found
    simp only [List.length_cons] at this ⊢
    omega
  | case9 other =>
    rw [fieldBody.eq_def] at read
    simp [other] at read
  | case10 char rest other further later =>
    rw [fieldBody_plain rest other further] at read
    obtain ⟨⟨inner, rest⟩, found, same⟩ := Option.map_eq_some_iff.mp read
    cases same
    have := later inner found
    simp only [List.length_cons]
    omega

/-- A field takes its opening character at least. -/
theorem getField_shorter {str field left : Bytes} {start close : UInt8}
    (read : getField str start close = some (field, left)) : field.length + left.length < str.length := by
  cases str with
  | nil => cases read
  | cons char rest =>
    unfold getField at read
    dsimp only at read
    split at read
    · obtain ⟨⟨inner, more⟩, found, same⟩ := Option.map_eq_some_iff.mp read
      cases same
      have whole := fieldBody_shorter close rest inner more found
      have cut := (List.takeWhile_prefix (fun char : UInt8 => decide (char ≠ 0)) (l := inner)).length_le
      change (cstring inner).length + more.length < _
      unfold cstring
      rw [List.length_cons]
      omega
    · cases read

/-- The field that has to be there is one `get_field` finds. -/
theorem takeField_iff {state : EmsiState} {str text left : Bytes} {start close : UInt8} :
    takeField state str start close = .ok (text, left) ↔ getField str start close = some (text, left) := by
  unfold takeField
  cases getField str start close with
  | none => exact ⟨nofun, nofun⟩
  | some read => exact ⟨fun same => congrArg some (Except.ok.inj same), fun same => congrArg _ (Option.some.inj same)⟩

theorem fieldStep_shrinks (start close : UInt8) (use : Bytes → EmsiState → EmsiState) :
    (fieldStep start close use).Shrinks := by
  intro state str later left taken
  unfold fieldStep at taken
  split at taken
  case h_1 p rest found =>
    cases taken
    have := getField_shorter (takeField_iff.mp found)
    omega
  case h_2 => cases taken

theorem needAddrs_shrinks : needAddrs.Shrinks := by
  intro state str later left taken
  unfold needAddrs at taken
  split at taken
  · cases taken
  · cases taken
    exact Nat.le_refl _

theorem EmsiStep.Shrinks.andThen {first second : EmsiStep} (one : first.Shrinks) (two : second.Shrinks) :
    (first.andThen second).Shrinks := by
  intro state str later left taken
  unfold EmsiStep.andThen at taken
  split at taken
  case h_1 middle rest found => exact Nat.le_trans (two _ _ _ _ taken) (one _ _ _ _ found)
  case h_2 => cases taken

theorem nestedStep_shrinks (inner : EmsiStep) : (nestedStep inner).Shrinks := by
  intro state str later left taken
  unfold nestedStep at taken
  split at taken
  case h_1 tmp rest found =>
    split at taken
    · cases taken
      have := getField_shorter (takeField_iff.mp found)
      omega
    · cases taken
  case h_2 => cases taken

/-- What follows an identifier does not grow. -/
theorem parseSection_shrinks (tmp : Bytes) : (parseSection tmp).Shrinks := by
  have field := fieldStep_shrinks 123 125
  intro state str later left taken
  unfold parseSection at taken
  split at taken
  · exact ((field _).andThen <| needAddrs_shrinks.andThen <| (field _).andThen <| (field _).andThen <|
      (field _).andThen <| (field _).andThen <| (field _).andThen <| (field _).andThen <| field _)
      _ str later left taken
  split at taken
  · exact nestedStep_shrinks _ _ str later left taken
  split at taken
  · exact nestedStep_shrinks _ _ str later left taken
  split at taken
  · exact field _ _ str later left taken
  split at taken
  · exact nestedStep_shrinks _ _ str later left taken
  split at taken
  · exact field _ _ str later left taken
  split at taken
  · exact nestedStep_shrinks _ _ str later left taken
  split at taken
  · exact nestedStep_shrinks _ _ str later left taken
  · cases taken
    exact Nat.le_refl _

/-- The loop has fuel for every text. -/
theorem parsedatLoop_fuel (fuel more : Nat) (state : EmsiState) (str : Bytes) (enough : str.length < fuel)
    (also : str.length < more) : parsedatLoop fuel state str = parsedatLoop more state str := by
  induction fuel generalizing more state str with
  | zero => omega
  | succ fuel later =>
    cases more with
    | zero => omega
    | succ more =>
      unfold parsedatLoop
      cases read : getField str 123 125 with
      | none => rfl
      | some found =>
        obtain ⟨tmp, rest⟩ := found
        have short := getField_shorter read
        dsimp only
        cases taken : parseSection tmp state rest with
        | error => rfl
        | ok next =>
          obtain ⟨state, left⟩ := next
          have shrinks := parseSection_shrinks tmp _ _ _ _ taken
          exact later more state left (by omega) (by omega)

/-- The parser goes through a packet section by section. -/
theorem emsiParsedat_section (locale : Locale) {state : EmsiState} {tag data : Bytes}
    (plain : PlainText tag) (follows : Follows 125 data) :
    emsiParsedat (emsiField locale tag ++ data) state =
      match parseSection tag state data with
      | .ok (later, left) => emsiParsedat left later
      | .error later => .error later := by
  have read : getField (emsiField locale tag ++ data) 123 125 = some (tag, data) := by
    have taken := takeField_field locale state tag data follows
    rw [seen, addStr_plainText locale plain, unescape_plainText (.inr rfl) plain,
      cstring_plainText plain] at taken
    exact takeField_iff.mp taken
  have short := getField_shorter read
  unfold emsiParsedat
  rw [parsedatLoop, read]
  dsimp only
  cases taken : parseSection tag state data with
  | error => rfl
  | ok next =>
    obtain ⟨later, left⟩ := next
    have shrinks := parseSection_shrinks tag _ _ _ _ taken
    exact parsedatLoop_fuel _ _ later left (by omega) (by omega)

/-! ## The fields of a packet -/

/-- A value is what the parser finds between the braces, whatever follows. -/
def KeptInBraces (locale : Locale) (value : Bytes) : Prop :=
  ∀ rest, Follows 125 rest → getField (emsiField locale value ++ rest) 123 125 = some (value, rest)

/-- A value is what the parser finds between brackets in braces. -/
def KeptInBrackets (locale : Locale) (value : Bytes) : Prop :=
  ∀ rest, Follows 125 rest → ∃ inner,
    getField (bracketFields locale [value] ++ rest) 123 125 = some (inner, rest) ∧
      getField inner 91 93 = some (value, [])

/-- A value whose characters are seen as they are is a C string before brackets are read. -/
theorem doubleBrackets_whole {value : Bytes} (whole : 0 ∉ value) : ∀ char ∈ doubleBrackets value, char ≠ 0 := by
  rintro char member rfl
  obtain ⟨one, isOne, inOne⟩ := List.mem_flatMap.mp member
  unfold twice at inOne
  split at inOne
  · simp at inOne
  · exact whole (List.mem_singleton.mp inOne ▸ isOne)

/-- Such values are found between brackets. -/
theorem seenNested_readsBack {locale : Locale} {value : Bytes} (back : ReadsBack locale value)
    (whole : 0 ∉ value) : seenNested locale value = value := by
  unfold seenNested
  rw [seen_readsBack back, unescape_doubleBrackets back]
  exact cstring_whole value fun char member same => whole (same ▸ member)

/-- All of the brackets are a C string then. -/
theorem brackets_whole (locale : Locale) (values : List Bytes)
    (back : ∀ value ∈ values, ReadsBack locale value ∧ 0 ∉ value) :
    cstring (values.flatMap fun value => bracketed (seen locale value)) =
      values.flatMap fun value => bracketed (seen locale value) := by
  refine cstring_whole _ fun char member => ?_
  obtain ⟨value, isValue, inValue⟩ := List.mem_flatMap.mp member
  obtain ⟨reads, whole⟩ := back value isValue
  rw [seen_readsBack reads, bracketed] at inValue
  rcases List.mem_cons.mp inValue with rfl | inner
  · decide
  rcases List.mem_append.mp inner with inner | last
  · exact doubleBrackets_whole whole char inner
  · rw [List.mem_singleton.mp last]
    decide

/-- Fields in brackets may follow one another. -/
theorem follows_brackets (locale : Locale) (values : List Bytes) :
    Follows 93 (values.flatMap fun value => bracketed (seen locale value)) := by
  cases values <;> exact nofun

/-- What is kept in braces. -/
theorem keptInBraces_iff (locale : Locale) (value : Bytes) (whole : 0 ∉ value) :
    KeptInBraces locale value ↔ ReadsBack locale value ∧ 93 ∉ value := by
  rw [← seen_iff locale value whole]
  constructor
  · intro kept
    have read := kept [] nofun
    rw [takeField_iff.mp (takeField_field locale {} value [] nofun)] at read
    exact congrArg Prod.fst (Option.some.inj read)
  · intro same rest follows
    have read := takeField_field locale {} value rest follows
    rw [same] at read
    exact takeField_iff.mp read

/-- What is kept in brackets. -/
theorem keptInBrackets_readsBack {locale : Locale} {value : Bytes} (whole : 0 ∉ value)
    (back : ReadsBack locale value) : KeptInBrackets locale value := by
  intro rest follows
  have all : ∀ one ∈ [value], ReadsBack locale one ∧ 0 ∉ one := by
    intro one member
    rw [List.mem_singleton.mp member]
    exact ⟨back, whole⟩
  refine ⟨_, takeField_iff.mp (takeField_brackets locale {} [value] rest follows), ?_⟩
  rw [brackets_whole locale [value] all]
  have read := takeField_bracketed locale {} value [] nofun
  rw [seenNested_readsBack back whole] at read
  exact takeField_iff.mp read

/-! ## Whole packets -/

/-- A text of a packet, which the parser copies to its record. -/
structure TextFits (locale : Locale) (size : Nat) (text : Bytes) : Prop where
  whole : 0 ∉ text
  fits : text.length < size
  back : ReadsBack locale text

/-- What is copied to an empty text. -/
theorem copyText_fits {size : Nat} {text : Bytes} (whole : 0 ∉ text) (fits : text.length < size) :
    copyText [] text size = text := by
  unfold copyText
  split
  case isTrue none_ => exact (List.isEmpty_iff.mp none_).symm
  case isFalse =>
    rw [strnxcpy, cstring_whole text fun char member same => whole (same ▸ member)]
    exact List.take_of_length_le (by omega)

/-- The texts of a packet that are read in braces: no brackets. -/
def BraceFits (locale : Locale) (size : Nat) (text : Bytes) : Prop := TextFits locale size text ∧ 93 ∉ text

/-- What `{OHFR}` says. -/
def Emsi.times (emsi : Emsi) : Bytes :=
  if emsi.ohTime.isEmpty then []
  else if emsi.frTime.isEmpty then emsi.ohTime
  else emsi.ohTime ++ 32 :: emsi.frTime

/-- All texts of a packet keep to what is read back, and to the lengths of the record. The first
of the times is a word, and the other one is sent only behind it. -/
structure EmsiFits (locale : Locale) (emsi : Emsi) : Prop where
  passwd : BraceFits locale 31 emsi.passwd
  mPid : BraceFits locale 31 emsi.mPid
  mName : BraceFits locale 121 emsi.mName
  mVer : BraceFits locale 121 emsi.mVer
  mReg : BraceFits locale 121 emsi.mReg
  sname : TextFits locale 121 emsi.sname
  location : TextFits locale 121 emsi.location
  sysop : TextFits locale 121 emsi.sysop
  phone : TextFits locale 121 emsi.phone
  flags : TextFits locale 121 emsi.flags
  times : BraceFits locale 242 emsi.times
  ohTime : emsi.ohTime.length < 121 ∧ ∀ char ∈ emsi.ohTime, isspace char = false
  frTime : emsi.frTime.length < 121 ∧ ∀ char ∈ emsi.frTime.head?, isspace char = false
  order : emsi.ohTime = [] → emsi.frTime = []
  xdatetime : TextFits locale 61 emsi.xdatetime

/-- The texts of a record. -/
def Emsi.texts (emsi : Emsi) : List Bytes :=
  [emsi.passwd, emsi.mPid, emsi.mName, emsi.mVer, emsi.mReg, emsi.sname, emsi.location, emsi.sysop,
    emsi.phone, emsi.flags, emsi.ohTime, emsi.frTime, emsi.xdatetime]

/-- The texts a packet sends, with their defaults. -/
def Emsi.sent (emsi : Emsi) : List Bytes :=
  let ident (text : Bytes) := if emsi.haveIdent then text else []
  [emsi.passwd, if emsi.mPid.isEmpty then ascii "fe" else emsi.mPid,
    if emsi.mName.isEmpty then ascii "BinkleyForce" else emsi.mName,
    if emsi.mVer.isEmpty then ascii "X.XXX" else emsi.mVer,
    if emsi.mReg.isEmpty then ascii "Freeware" else emsi.mReg,
    ident emsi.sname, ident emsi.location, ident emsi.sysop, ident emsi.phone, ident emsi.flags,
    if emsi.haveOhfr then emsi.ohTime else [], if emsi.haveOhfr then emsi.frTime else [],
    if emsi.haveXdatetime then emsi.xdatetime else []]

/-- A plain text is read back. -/
theorem readsBack_plainText (locale : Locale) {text : Bytes} (plain : PlainText text) : ReadsBack locale text := by
  induction text with
  | nil => trivial
  | cons char rest later =>
    obtain ⟨above, below, slash, _⟩ := plain char List.mem_cons_self
    refine ⟨?_, later fun one member => plain one (List.mem_cons_of_mem char member)⟩
    rw [Kept, if_neg slash]
    exact .inl (locale.ascii char above below)

/-- There is no NUL in it. -/
theorem plainText_whole {text : Bytes} (plain : PlainText text) : 0 ∉ text :=
  fun member => absurd (plain 0 member).1 (by decide)

/-- A field in braces, read back. -/
theorem takeField_fits {locale : Locale} {size : Nat} {value : Bytes} (state : EmsiState) (rest : Bytes)
    (fits : BraceFits locale size value) (follows : Follows 125 rest) :
    takeField state (emsiField locale value ++ rest) 123 125 = .ok (value, rest) := by
  rw [takeField_field locale state value rest follows,
    (seen_iff locale value fits.1.whole).mpr ⟨fits.1.back, fits.2⟩]

/-- The step of fields in brackets that are found. -/
theorem nestedStep_ok {inner : EmsiStep} {state later : EmsiState} {str tmp left rest : Bytes}
    (found : takeField state str 123 125 = .ok (tmp, rest)) (taken : inner state tmp = .ok (later, left)) :
    nestedStep inner state str = .ok (later, rest) := by
  unfold nestedStep
  rw [found]
  dsimp only
  rw [taken]

/-- A value in brackets, read back. -/
theorem takeField_bracketFits {locale : Locale} {value : Bytes} (state : EmsiState) (rest : Bytes)
    (back : ReadsBack locale value) (whole : 0 ∉ value) (follows : Follows 93 rest) :
    takeField state (bracketed (seen locale value) ++ rest) 91 93 = .ok (value, rest) := by
  rw [takeField_bracketed locale state value rest follows, seenNested_readsBack back whole]

/-- A section with a single value in brackets. -/
theorem nestedStep_single (locale : Locale) (use : Bytes → EmsiState → EmsiState) (state : EmsiState)
    {value : Bytes} (rest : Bytes) (back : ReadsBack locale value) (whole : 0 ∉ value)
    (follows : Follows 125 rest) :
    nestedStep (fieldStep 91 93 use) state (bracketFields locale [value] ++ rest) =
      .ok (use value state, rest) := by
  have all : ∀ one ∈ [value], ReadsBack locale one ∧ 0 ∉ one := by
    intro one member
    rw [List.mem_singleton.mp member]
    exact ⟨back, whole⟩
  have found := takeField_brackets locale state [value] rest follows
  rw [brackets_whole locale [value] all] at found
  exact nestedStep_ok found (fieldStep_ok (takeField_bracketFits state [] back whole nofun))

/-- The record behind the data for `{IDENT}`. -/
def readIdent (emsi : Emsi) (state : EmsiState) : EmsiState :=
  useFlags emsi.flags (useSpeed (if emsi.speed = 0 then [] else printInt emsi.speed)
    (usePhone emsi.phone (useSysop emsi.sysop (useLocation emsi.location (useSname emsi.sname
      (state.update fun emsi => { emsi with haveIdent := true }))))))

/-- So is a number. -/
theorem plainText_printInt (value : Int) : PlainText (printInt value) := by
  have digits := plainText_digits (printNat_isdigit value.natAbs)
  unfold printInt
  split
  · exact (plainText_one 45 (by decide)).append digits
  · exact digits

/-- The parser takes the data for `{IDENT}` that were written. -/
theorem parseIdent_created (locale : Locale) (emsi : Emsi) (state : EmsiState) (rest : Bytes)
    (fits : EmsiFits locale emsi) (follows : Follows 125 rest) :
    parseIdent state (bracketFields locale emsi.ident ++ rest) = .ok (readIdent emsi state, rest) := by
  have speed : PlainText (if emsi.speed = 0 then [] else printInt emsi.speed) := by
    split
    · exact nofun
    · exact plainText_printInt emsi.speed
  have all : ∀ value ∈ emsi.ident, ReadsBack locale value ∧ 0 ∉ value := by
    intro value member
    simp only [Emsi.ident, List.mem_cons, List.not_mem_nil, or_false] at member
    obtain rfl | rfl | rfl | rfl | rfl | rfl := member
    · exact ⟨fits.sname.back, fits.sname.whole⟩
    · exact ⟨fits.location.back, fits.location.whole⟩
    · exact ⟨fits.sysop.back, fits.sysop.whole⟩
    · exact ⟨fits.phone.back, fits.phone.whole⟩
    · exact ⟨readsBack_plainText locale speed, plainText_whole speed⟩
    · exact ⟨fits.flags.back, fits.flags.whole⟩
  have taken : ∀ (value : Bytes) (values : List Bytes), value ∈ emsi.ident → ∀ state,
      takeField state (bracketed (seen locale value) ++
        values.flatMap fun value => bracketed (seen locale value)) 91 93 =
        .ok (value, values.flatMap fun value => bracketed (seen locale value)) := by
    intro value values member state
    exact takeField_bracketFits state _ (all value member).1 (all value member).2
      (follows_brackets locale values)
  have found := fun state => takeField_brackets locale state emsi.ident rest follows
  rw [brackets_whole locale emsi.ident all] at found
  refine nestedStep_ok (found _) (?_ : _ = Except.ok (_, []))
  rw [Emsi.ident] at taken ⊢
  rw [List.flatMap_cons, andThen_ok (fieldStep_ok (taken emsi.sname _ (by simp) _)),
    List.flatMap_cons, andThen_ok (fieldStep_ok (taken emsi.location _ (by simp) _)),
    List.flatMap_cons, andThen_ok (fieldStep_ok (taken emsi.sysop _ (by simp) _)),
    List.flatMap_cons, andThen_ok (fieldStep_ok (taken emsi.phone _ (by simp) _)),
    List.flatMap_cons, andThen_ok (fieldStep_ok (taken _ _ (by simp) _)),
    List.flatMap_cons, fieldStep_ok (taken emsi.flags _ (by simp) _)]
  rfl

/-- The record behind the data for `{OHFR}`. -/
def readOhfr (emsi : Emsi) (state : EmsiState) : EmsiState :=
  useOhfr emsi.times (state.update fun emsi => { emsi with haveOhfr := true })

/-- The writer goes through two texts in sequence. -/
theorem addStr_append (locale : Locale) (first second : Bytes) :
    addStr locale (first ++ second) = addStr locale first ++ addStr locale second := by
  induction first with
  | nil => rfl
  | cons char rest later =>
    rw [List.cons_append, addStr_cons, addStr_cons, later, List.append_assoc, List.append_assoc]

/-- The times are written as one text. -/
theorem ohfr_times (locale : Locale) (emsi : Emsi) : emsi.ohfr locale = addStr locale emsi.times := by
  unfold Emsi.ohfr Emsi.times
  split
  · rfl
  split
  · rfl
  · rw [addStr_append, addStr_plain emsi.frTime (locale.ascii 32 (by decide) (by decide)) (by decide)
      (by decide)]

/-- Blanks separate the times. -/
theorem times_read {locale : Locale} {emsi : Emsi} (fits : EmsiFits locale emsi) :
    (emsi.times.takeWhile fun char => !isspace char) = emsi.ohTime ∧
      ((emsi.times.dropWhile fun char => !isspace char).dropWhile isspace) = emsi.frTime := by
  have word : ∀ char ∈ emsi.ohTime, (!isspace char) = true := fun char member => by
    rw [fits.ohTime.2 char member]
    rfl
  unfold Emsi.times
  by_cases none_ : emsi.ohTime = []
  · rw [none_, fits.order none_]
    exact ⟨rfl, rfl⟩
  rw [if_neg fun is => none_ (List.isEmpty_iff.mp is)]
  by_cases alone : emsi.frTime = []
  · rw [if_pos (List.isEmpty_iff.mpr alone), alone]
    have run := takeWhile_run (fun char => !isspace char) emsi.ohTime [] word nofun
    rw [List.append_nil] at run
    rw [run.1, run.2]
    exact ⟨rfl, rfl⟩
  · rw [if_neg fun is => alone (List.isEmpty_iff.mp is)]
    have run := takeWhile_run (fun char => !isspace char) emsi.ohTime (32 :: emsi.frTime) word
      (by rintro _ ⟨⟩; rfl)
    rw [run.1, run.2]
    refine ⟨rfl, ?_⟩
    have next := takeWhile_run isspace [32] emsi.frTime
      (fun char member => by rw [List.mem_singleton.mp member]; rfl) fun char member => fits.frTime.2 char member
    exact next.2

/-- A section that may be left out. -/
theorem parse_optional {section_ : Bytes} (present : Bool) {rest : Bytes} {read : EmsiState → EmsiState}
    (state : EmsiState) (parsed : ∀ state, emsiParsedat (section_ ++ rest) state = emsiParsedat rest (read state)) :
    emsiParsedat ((if present then section_ else []) ++ rest) state =
      emsiParsedat rest (if present then read state else state) := by
  cases present with
  | true => exact parsed state
  | false => rfl

/-- It may follow a field. -/
theorem follows_optional (locale : Locale) (present : Bool) (tag data : Bytes) {rest : Bytes}
    (follows : Follows 125 rest) :
    Follows 125 ((if present then emsiField locale tag ++ data else []) ++ rest) := by
  cases present with
  | true => exact nofun
  | false => exact follows

/-- A section that is taken is gone through. -/
theorem parsed_section (locale : Locale) {tag data rest : Bytes} {read : EmsiState → EmsiState}
    (plain : PlainText tag) (follows : Follows 125 (data ++ rest))
    (taken : ∀ state, parseSection tag state (data ++ rest) = .ok (read state, rest)) (state : EmsiState) :
    emsiParsedat (emsiField locale tag ++ data ++ rest) state = emsiParsedat rest (read state) := by
  rw [List.append_assoc, emsiParsedat_section locale plain follows, taken state]

/-- Digits in hexadecimal are plain. -/
theorem plainText_printHexUpper (width value : Nat) : PlainText (printHexUpper width value) := by
  have plain : ∀ digit < 16, plainChar (Nat.digitChar digit).toUpper = true := by decide
  apply PlainText.append
  · intro char member
    rw [List.eq_of_mem_replicate member]
    decide
  · intro char member
    obtain ⟨one, isOne, rfl⟩ := List.mem_map.mp member
    obtain ⟨digit, small, rfl⟩ := toDigits_digitChar (by decide) value one isOne
    exact plainChar_code (plain digit small) _ List.mem_cons_self

/-- So are those of a time zone. -/
theorem plainText_printPadded (value : Int) : PlainText (printPadded value) := by
  have digits := plainText_digits (printNat_isdigit value.natAbs)
  have zeros : ∀ count, PlainText (List.replicate count 48) := by
    intro count char member
    rw [List.eq_of_mem_replicate member]
    decide
  unfold printPadded
  split
  · exact (plainText_one 45 (by decide)).append ((zeros _).append digits)
  · exact (zeros _).append digits

/-- A plain text in braces is its own field. -/
theorem takeField_plainField (locale : Locale) (state : EmsiState) {text : Bytes} (rest : Bytes)
    (plain : PlainText text) (follows : Follows 125 rest) :
    takeField state (emsiField locale text ++ rest) 123 125 = .ok (text, rest) := by
  rw [emsiField, addStr_plainText locale plain]
  exact takeField_plain state rest plain follows

/-- The texts of a record behind `{EMSI}`. -/
theorem useLinkcodes_texts (p : Bytes) (state : EmsiState) : (useLinkcodes p state).emsi.texts = state.emsi.texts := by
  unfold useLinkcodes
  induction commaTokens p generalizing state with
  | nil => rfl
  | cons token tokens later =>
    rw [List.foldl_cons, later]
    unfold parseLinkcode
    split
    · rfl
    split <;> rfl

/-- Sizes are no texts. -/
theorem useTraf_texts (p : Bytes) (state : EmsiState) : (useTraf p state).emsi.texts = state.emsi.texts := by
  unfold useTraf
  split
  · rfl
  dsimp only
  split <;> rfl

/-- Nor is the size of files. -/
theorem useMoh_texts (p : Bytes) (state : EmsiState) : (useMoh p state).emsi.texts = state.emsi.texts := by
  unfold useMoh
  split <;> rfl

/-- Nor is the time. -/
theorem useTrx_texts (p : Bytes) (state : EmsiState) : (useTrx p state).emsi.texts = state.emsi.texts := by
  unfold useTrx
  split <;> rfl

/-- The record at the end of a packet. -/
def readBody (locale : Locale) (localaddrs : List LinkAddr) (emsi : Emsi) : EmsiState :=
  let state := readEmsi locale localaddrs emsi (readAddrs locale localaddrs {})
  let state := if emsi.haveIdent then readIdent emsi state else state
  let state := if emsi.haveTraf then
    useTraf (printHexUpper 8 emsi.netmailSize ++ 32 :: printHexUpper 8 emsi.arcmailSize) state else state
  let state := if emsi.haveMoh then useMoh (printHexUpper 8 emsi.filesSize) state else state
  let state := if emsi.haveOhfr then readOhfr emsi state else state
  let state := if emsi.haveTzutc then state.update fun emsi => { emsi with haveTzutc := true } else state
  let state := if emsi.haveXdatetime then
    useXdatetime emsi.xdatetime (state.update fun emsi => { emsi with haveXdatetime := true }) else state
  if emsi.haveTrx then useTrx (printHexUpper 8 (emsi.time % 2 ^ 64).toNat) state else state

/-- The section of the system. -/
theorem section_ident {locale : Locale} {emsi : Emsi} (fits : EmsiFits locale emsi) {rest : Bytes}
    (follows : Follows 125 rest) (state : EmsiState) :
    parseSection (ascii "IDENT") state (bracketFields locale emsi.ident ++ rest) =
      .ok (readIdent emsi state, rest) := by
  rw [parseSection, if_neg (by decide), if_pos rfl]
  exact parseIdent_created locale emsi state rest fits follows

/-- The section of mail on hold. -/
theorem section_traf (locale : Locale) (emsi : Emsi) {rest : Bytes} (follows : Follows 125 rest)
    (state : EmsiState) :
    parseSection (ascii "TRAF") state
        (emsiField locale (printHexUpper 8 emsi.netmailSize ++ 32 :: printHexUpper 8 emsi.arcmailSize) ++ rest) =
      .ok (useTraf (printHexUpper 8 emsi.netmailSize ++ 32 :: printHexUpper 8 emsi.arcmailSize) state, rest) := by
  rw [parseSection, if_neg (by decide), if_neg (by decide), if_neg (by decide), if_pos rfl]
  exact fieldStep_ok (takeField_plainField locale state rest
    ((plainText_printHexUpper 8 _).append
      ((plainText_one 32 (by decide)).append (plainText_printHexUpper 8 _))) follows)

/-- The section of files on hold. -/
theorem section_moh (locale : Locale) (emsi : Emsi) {rest : Bytes} (follows : Follows 125 rest)
    (state : EmsiState) :
    parseSection (ascii "MOH#") state (bracketFields locale [printHexUpper 8 emsi.filesSize] ++ rest) =
      .ok (useMoh (printHexUpper 8 emsi.filesSize) state, rest) := by
  have plain := plainText_printHexUpper 8 emsi.filesSize
  rw [parseSection, if_neg (by decide), if_neg (by decide), if_neg (by decide), if_neg (by decide),
    if_pos rfl]
  exact nestedStep_single locale useMoh state rest (readsBack_plainText locale plain)
    (plainText_whole plain) follows

/-- The section of the times. -/
theorem section_ohfr {locale : Locale} {emsi : Emsi} (fits : EmsiFits locale emsi) {rest : Bytes}
    (follows : Follows 125 rest) (state : EmsiState) :
    parseSection (ascii "OHFR") state (braced (emsi.ohfr locale) ++ rest) = .ok (readOhfr emsi state, rest) := by
  rw [parseSection, if_neg (by decide), if_neg (by decide), if_neg (by decide), if_neg (by decide),
    if_neg (by decide), if_pos rfl, ohfr_times]
  exact fieldStep_ok (takeField_fits _ rest fits.times follows)

/-- The section of the date. -/
theorem section_xdatetime {locale : Locale} {emsi : Emsi} (fits : EmsiFits locale emsi) {rest : Bytes}
    (follows : Follows 125 rest) (state : EmsiState) :
    parseSection (ascii "XDATETIME") state (bracketFields locale [emsi.xdatetime] ++ rest) =
      .ok (useXdatetime emsi.xdatetime
        (state.update fun emsi => { emsi with haveXdatetime := true }), rest) := by
  rw [parseSection, if_neg (by decide), if_neg (by decide), if_neg (by decide), if_neg (by decide),
    if_neg (by decide), if_neg (by decide), if_pos rfl]
  exact nestedStep_single locale useXdatetime _ rest fits.xdatetime.back fits.xdatetime.whole follows

/-- The section of the time zone. -/
theorem section_tzutc (locale : Locale) (emsi : Emsi) {rest : Bytes} (follows : Follows 125 rest)
    (state : EmsiState) :
    parseSection (ascii "TZUTC") state (bracketFields locale [43 :: printPadded emsi.tzutc] ++ rest) =
      .ok (state.update fun emsi => { emsi with haveTzutc := true }, rest) := by
  have plain := (plainText_one 43 (by decide)).append (plainText_printPadded emsi.tzutc)
  rw [parseSection, if_neg (by decide), if_neg (by decide), if_neg (by decide), if_neg (by decide),
    if_neg (by decide), if_neg (by decide), if_neg (by decide), if_pos rfl]
  exact nestedStep_single locale _ _ rest (readsBack_plainText locale plain) (plainText_whole plain) follows

/-- The section of the time. -/
theorem section_trx (locale : Locale) (emsi : Emsi) {rest : Bytes} (follows : Follows 125 rest)
    (state : EmsiState) :
    parseSection (ascii "TRX#") state
        (bracketFields locale [printHexUpper 8 (emsi.time % 2 ^ 64).toNat] ++ rest) =
      .ok (useTrx (printHexUpper 8 (emsi.time % 2 ^ 64).toNat) state, rest) := by
  have plain := plainText_printHexUpper 8 (emsi.time % 2 ^ 64).toNat
  rw [parseSection, if_neg (by decide), if_neg (by decide), if_pos rfl]
  exact nestedStep_single locale useTrx state rest (readsBack_plainText locale plain)
    (plainText_whole plain) follows

/-- A packet whose texts are read back is taken to its end. -/
theorem emsiParsedat_created (locale : Locale) (localaddrs : List LinkAddr) (emsi : Emsi) (crc : Bytes)
    (fits : EmsiFits locale emsi) (present : emsi.haveEmsi = true)
    (addrs : (readAddrs locale localaddrs {}).remoteaddrs ≠ []) (ends : ∀ char ∈ crc.head?, char ≠ 123 ∧ char ≠ 125) :
    emsiParsedat (emsiBody locale localaddrs emsi ++ crc) {} = .ok (readBody locale localaddrs emsi) := by
  have last : Follows 125 crc := fun same => (ends 125 same).2 rfl
  have stop : ∀ state, emsiParsedat crc state = .ok state := by
    intro state
    have none_ : getField crc 123 125 = none := by
      cases crc with
      | nil => rfl
      | cons char rest =>
        unfold getField
        exact if_neg (ends char rfl).1
    unfold emsiParsedat
    rw [parsedatLoop, none_]
  have trx := follows_optional locale emsi.haveTrx (ascii "TRX#")
    (bracketFields locale [printHexUpper 8 (emsi.time % 2 ^ 64).toNat]) last
  have xdatetime := follows_optional locale emsi.haveXdatetime (ascii "XDATETIME")
    (bracketFields locale [emsi.xdatetime]) trx
  have tzutc := follows_optional locale emsi.haveTzutc (ascii "TZUTC")
    (bracketFields locale [43 :: printPadded emsi.tzutc]) xdatetime
  have ohfr := follows_optional locale emsi.haveOhfr (ascii "OHFR") (braced (emsi.ohfr locale)) tzutc
  have moh := follows_optional locale emsi.haveMoh (ascii "MOH#")
    (bracketFields locale [printHexUpper 8 emsi.filesSize]) ohfr
  have traf := follows_optional locale emsi.haveTraf (ascii "TRAF")
    (emsiField locale (printHexUpper 8 emsi.netmailSize ++ 32 :: printHexUpper 8 emsi.arcmailSize)) moh
  have ident := follows_optional locale emsi.haveIdent (ascii "IDENT")
    (bracketFields locale emsi.ident) traf
  obtain ⟨data, shape, follows, taken⟩ := parseEmsi_created locale localaddrs emsi {} _ ident
  rw [if_neg fun none_ => addrs (List.isEmpty_iff.mp none_)] at taken
  unfold emsiBody
  rw [if_pos present]
  simp only [List.append_assoc] at shape ident traf moh ohfr tzutc xdatetime trx ⊢
  rw [shape, emsiParsedat_section locale (by decide) follows, parseSection_emsi, taken]
  dsimp only
  rw [parse_optional _ _ (parsed_section locale (by decide) (follows_bracketFields _ _ _)
      (section_ident fits traf)),
    parse_optional _ _ (parsed_section locale (by decide) (follows_field _ _ _)
      (section_traf locale emsi moh)),
    parse_optional _ _ (parsed_section locale (by decide) (follows_bracketFields _ _ _)
      (section_moh locale emsi ohfr)),
    parse_optional _ _ (parsed_section locale (by decide) (follows_braced _ _)
      (section_ohfr fits tzutc)),
    parse_optional _ _ (parsed_section locale (by decide) (follows_bracketFields _ _ _)
      (section_tzutc locale emsi xdatetime)),
    parse_optional _ _ (parsed_section locale (by decide) (follows_bracketFields _ _ _)
      (section_xdatetime fits trx)),
    parse_optional _ _ (parsed_section locale (by decide) (follows_bracketFields _ _ _)
      (section_trx locale emsi last)),
    stop]
  rfl

/-- A text in braces, copied to an empty one. -/
theorem copyText_braces {locale : Locale} {size : Nat} {text : Bytes} (fits : BraceFits locale size text) :
    copyText [] (cstring (seen locale text)) size = text := by
  rw [(seen_iff locale text fits.1.whole).mpr ⟨fits.1.back, fits.2⟩]
  exact copyText_fits fits.1.whole fits.1.fits

/-- A text with a default. -/
theorem BraceFits.default {locale : Locale} {size : Nat} {text default : Bytes}
    (fits : BraceFits locale size text) (plain : PlainText default) (short : default.length < size) :
    BraceFits locale size (if text.isEmpty then default else text) := by
  split
  · exact ⟨⟨plainText_whole plain, short, readsBack_plainText locale plain⟩,
      fun member => (plain 93 member).2.2.2.1 rfl⟩
  · exact fits

/-- The texts behind the data for `{EMSI}`. -/
theorem readEmsi_texts {locale : Locale} (localaddrs : List LinkAddr) {emsi : Emsi} (fits : EmsiFits locale emsi) :
    (readEmsi locale localaddrs emsi (readAddrs locale localaddrs {})).emsi.texts =
      [emsi.passwd, if emsi.mPid.isEmpty then ascii "fe" else emsi.mPid,
        if emsi.mName.isEmpty then ascii "BinkleyForce" else emsi.mName,
        if emsi.mVer.isEmpty then ascii "X.XXX" else emsi.mVer,
        if emsi.mReg.isEmpty then ascii "Freeware" else emsi.mReg, [], [], [], [], [], [], [], []] := by
  have codes : (readCodes locale localaddrs emsi (readAddrs locale localaddrs {})).emsi.texts =
      [emsi.passwd, [], [], [], [], [], [], [], [], [], [], [], []] := by
    change (useLinkcodes _ _).emsi.texts = _
    rw [useLinkcodes_texts]
    change [copyText [] (cstring (seen locale emsi.passwd)) 31, [], [], [], [], [], [], [], [], [], [], [],
      []] = _
    rw [copyText_braces fits.passwd]
  unfold readEmsi
  generalize readCodes locale localaddrs emsi (readAddrs locale localaddrs {}) = state at codes
  simp only [Emsi.texts, List.cons.injEq, and_true] at codes
  obtain ⟨passwd, mPid, mName, mVer, mReg, sname, location, sysop, phone, flags, ohTime, frTime, xdatetime⟩ :=
    codes
  simp only [Emsi.texts, useMReg, useMVer, useMName, useMPid, EmsiState.update, passwd, mPid, mName, mVer,
    mReg, sname, location, sysop, phone, flags, ohTime, frTime, xdatetime]
  rw [copyText_braces (fits.mPid.default (by decide) (by decide)),
    copyText_braces (fits.mName.default (by decide) (by decide)),
    copyText_braces (fits.mVer.default (by decide) (by decide)),
    copyText_braces (fits.mReg.default (by decide) (by decide))]

/-- A section without texts. -/
theorem texts_optional (present : Bool) {read : EmsiState → EmsiState}
    (same : ∀ state, (read state).emsi.texts = state.emsi.texts) (state : EmsiState) :
    (if present then read state else state).emsi.texts = state.emsi.texts := by
  cases present with
  | true => exact same state
  | false => rfl

/-- The packet gives back the texts that were sent. -/
theorem readBody_texts {locale : Locale} (localaddrs : List LinkAddr) {emsi : Emsi}
    (fits : EmsiFits locale emsi) : (readBody locale localaddrs emsi).emsi.texts = emsi.sent := by
  have start := readEmsi_texts localaddrs fits
  unfold readBody
  generalize readEmsi locale localaddrs emsi (readAddrs locale localaddrs {}) = state at start
  dsimp only
  rw [texts_optional _ (useTrx_texts _)]
  -- the texts of the system, before those of the times and the date
  have ident : (if emsi.haveIdent then readIdent emsi state else state).emsi.texts =
      (emsi.sent.take 10) ++ [[], [], []] := by
    simp only [Emsi.texts, List.cons.injEq, and_true] at start
    obtain ⟨passwd, mPid, mName, mVer, mReg, sname, location, sysop, phone, flags, ohTime, frTime, xdatetime⟩ :=
      start
    cases present : emsi.haveIdent with
    | false =>
      simp only [Emsi.texts, Emsi.sent, present, Bool.false_eq_true, if_false, passwd, mPid, mName, mVer,
        mReg, sname, location, sysop, phone, flags, ohTime, frTime, xdatetime]
      rfl
    | true =>
      simp only [Emsi.texts, Emsi.sent, present, if_true, readIdent, useFlags, useSpeed, usePhone, useSysop,
        useLocation, useSname, EmsiState.update, passwd, mPid, mName, mVer, mReg, sname, location, sysop,
        phone, flags, ohTime, frTime, xdatetime,
        copyText_fits fits.sname.whole fits.sname.fits, copyText_fits fits.location.whole fits.location.fits,
        copyText_fits fits.sysop.whole fits.sysop.fits, copyText_fits fits.phone.whole fits.phone.fits,
        copyText_fits fits.flags.whole fits.flags.fits]
      rfl
  generalize (if emsi.haveIdent then readIdent emsi state else state) = state at ident
  have sizes : (if emsi.haveMoh then useMoh (printHexUpper 8 emsi.filesSize)
      (if emsi.haveTraf then useTraf (printHexUpper 8 emsi.netmailSize ++
        32 :: printHexUpper 8 emsi.arcmailSize) state else state)
      else (if emsi.haveTraf then useTraf (printHexUpper 8 emsi.netmailSize ++
        32 :: printHexUpper 8 emsi.arcmailSize) state else state)).emsi.texts =
      (emsi.sent.take 10) ++ [[], [], []] := by
    rw [texts_optional _ (useMoh_texts _), texts_optional _ (useTraf_texts _), ident]
  generalize (if emsi.haveMoh then useMoh (printHexUpper 8 emsi.filesSize)
      (if emsi.haveTraf then useTraf (printHexUpper 8 emsi.netmailSize ++
        32 :: printHexUpper 8 emsi.arcmailSize) state else state)
      else (if emsi.haveTraf then useTraf (printHexUpper 8 emsi.netmailSize ++
        32 :: printHexUpper 8 emsi.arcmailSize) state else state)) = state at sizes
  have times : (if emsi.haveOhfr then readOhfr emsi state else state).emsi.texts =
      (emsi.sent.take 12) ++ [[]] := by
    obtain ⟨first, second⟩ := times_read fits
    have ohWhole : 0 ∉ emsi.ohTime := fun member =>
      fits.times.1.whole ((List.takeWhile_prefix _).subset (first ▸ member))
    have frWhole : 0 ∉ emsi.frTime := fun member =>
      fits.times.1.whole ((List.dropWhile_suffix _).subset ((List.dropWhile_suffix _).subset (second ▸ member)))
    simp only [Emsi.texts, Emsi.sent, List.take, List.cons_append, List.nil_append, List.cons.injEq,
      and_true] at sizes
    obtain ⟨passwd, mPid, mName, mVer, mReg, sname, location, sysop, phone, flags, ohTime, frTime, xdatetime⟩ :=
      sizes
    cases present : emsi.haveOhfr with
    | false =>
      simp only [Emsi.texts, Emsi.sent, present, Bool.false_eq_true, if_false, passwd, mPid, mName, mVer,
        mReg, sname, location, sysop, phone, flags, ohTime, frTime, xdatetime]
      rfl
    | true =>
      simp only [Emsi.texts, Emsi.sent, present, if_true, readOhfr, useOhfr, EmsiState.update, passwd, mPid,
        mName, mVer, mReg, sname, location, sysop, phone, flags, ohTime, frTime, xdatetime, first, second,
        copyText_fits ohWhole fits.ohTime.1, copyText_fits frWhole fits.frTime.1]
      rfl
  generalize (if emsi.haveOhfr then readOhfr emsi state else state) = state at times
  have zone : (if emsi.haveTzutc then state.update fun emsi => { emsi with haveTzutc := true }
      else state).emsi.texts = (emsi.sent.take 12) ++ [[]] := by
    rw [@texts_optional _ (fun state => state.update fun emsi => { emsi with haveTzutc := true }) (fun _ => rfl),
      times]
  generalize (if emsi.haveTzutc then state.update fun emsi => { emsi with haveTzutc := true }
      else state) = state at zone
  simp only [Emsi.texts, Emsi.sent, List.take, List.cons_append, List.nil_append, List.cons.injEq,
    and_true] at zone
  obtain ⟨passwd, mPid, mName, mVer, mReg, sname, location, sysop, phone, flags, ohTime, frTime, xdatetime⟩ :=
    zone
  cases present : emsi.haveXdatetime with
  | false =>
    simp only [Emsi.texts, Emsi.sent, present, Bool.false_eq_true, if_false, passwd, mPid, mName, mVer,
      mReg, sname, location, sysop, phone, flags, ohTime, frTime, xdatetime]
  | true =>
    simp only [Emsi.texts, Emsi.sent, present, if_true, useXdatetime, EmsiState.update, passwd, mPid, mName,
      mVer, mReg, sname, location, sysop, phone, flags, ohTime, frTime, xdatetime,
      copyText_fits fits.xdatetime.whole fits.xdatetime.fits]

/-- A value is kept in both kinds of fields exactly where each of its characters is seen as it is
and there is no bracket; brackets alone do no harm in brackets. A packet made of such texts leaves
them in the record of the remote. -/
theorem emsi_values_kept (locale : Locale) :
    (∀ value, 0 ∉ value →
      (KeptInBraces locale value ∧ KeptInBrackets locale value ↔ ReadsBack locale value ∧ 93 ∉ value)) ∧
    (∀ value, 0 ∉ value → (KeptInBraces locale value ↔ ReadsBack locale value ∧ 93 ∉ value)) ∧
    (∀ value, 0 ∉ value → ReadsBack locale value → KeptInBrackets locale value) ∧
    ∀ localaddrs emsi crc, EmsiFits locale emsi → emsi.haveEmsi = true →
      (readAddrs locale localaddrs {}).remoteaddrs ≠ [] →
      (∀ char ∈ crc.head?, char ≠ 123 ∧ char ≠ 125) →
      ∃ state, emsiParsedat (emsiBody locale localaddrs emsi ++ crc) {} = .ok state ∧
        state.emsi.texts = emsi.sent := by
  refine ⟨?_, keptInBraces_iff locale, fun value whole => keptInBrackets_readsBack whole, ?_⟩
  · intro value whole
    rw [keptInBraces_iff locale value whole]
    exact ⟨And.left, fun both => ⟨both, keptInBrackets_readsBack whole both.1⟩⟩
  · intro localaddrs emsi crc fits present addrs ends
    exact ⟨_, emsiParsedat_created locale localaddrs emsi crc fits present addrs ends,
      readBody_texts localaddrs fits⟩

/-- The C locale. -/
def localeC : Locale where
  isprint := isprint
  ascii char above below := by rw [isprint, decide_eq_true above, decide_eq_true below]; rfl

/-- A backslash and a brace are kept, and so is a packet with them. -/
theorem emsi_values_kept_backslash :
    (KeptInBraces localeC (ascii "a\\\x7d") ∧ KeptInBrackets localeC (ascii "a\\\x7d")) ∧
      ∃ state, emsiParsedat (emsiBody localeC
          [{ addr := { zone := 2, net := 5020, node := 1398 } }]
          { haveEmsi := true, passwd := ascii "a\\\x7d" } ++ ascii "1F00") {} = .ok state ∧
        state.emsi.texts = [ascii "a\\\x7d", ascii "fe", ascii "BinkleyForce", ascii "X.XXX",
          ascii "Freeware", [], [], [], [], [], [], [], []] := by
  have empty : ∀ size, 0 < size → TextFits localeC size [] := fun size room =>
    ⟨List.not_mem_nil, room, trivial⟩
  have emptyBraces : ∀ size, 0 < size → BraceFits localeC size [] := fun size room =>
    ⟨empty size room, List.not_mem_nil⟩
  obtain ⟨both, _, _, packet⟩ := emsi_values_kept localeC
  refine ⟨(both (ascii "a\\\x7d") (by decide)).mpr ⟨by decide, by decide⟩, ?_⟩
  refine packet _ _ _ ⟨⟨⟨by decide, by decide, by decide⟩, by decide⟩,
    emptyBraces _ (by decide), emptyBraces _ (by decide), emptyBraces _ (by decide),
    emptyBraces _ (by decide), empty _ (by decide), empty _ (by decide), empty _ (by decide),
    empty _ (by decide), empty _ (by decide), emptyBraces _ (by decide), ⟨by decide, fun _ member => absurd member List.not_mem_nil⟩,
    ⟨by decide, fun _ member => absurd member (Option.not_mem_none _)⟩, fun _ => rfl, empty _ (by decide)⟩ rfl
    (by decide +kernel) (by rintro char ⟨⟩; decide)

/-- The reader does not see that a bracket between braces was doubled. -/
theorem bracket_doubled :
    ¬ ∀ locale value, 0 ∉ value → KeptInBraces locale value ∧ KeptInBrackets locale value := by
  intro all
  have read : getField (emsiField localeC (ascii "a]b") ++ []) 123 125 = some (ascii "a]]b", []) := by
    decide
  have kept := (all localeC (ascii "a]b") (by decide)).1 [] nofun
  rw [read] at kept
  exact absurd kept (by decide)

end Binkleyforce
