import Mathlib.Data.List.FinRange
import Binkleyforce.Library.Distinct
import Binkleyforce.Util.Times

/-!
# What lists of intervals mean

An interval admits some days of the week and has a beginning and an end; where the end is not
behind the beginning it goes on over midnight. A vector means what its list means as long as
no interval is left over that it had no room for, and the checker that reads the text agrees
with it.
-/

namespace Binkleyforce

/-- An interval of a list: the days of the week it admits, from Sunday on, and its times. -/
structure Interval where
  days : List (Fin 7)
  beg : Int
  end_ : Int
  deriving DecidableEq, Repr

/-- The moment matches the interval. -/
def Interval.Holds (interval : Interval) (now : Tm) : Prop :=
  now.wday ∈ interval.days ∧
    ((interval.beg < interval.end_ ∧ interval.beg ≤ now.hour * 60 + now.min ∧
        (now.hour * 60 + now.min : Int) ≤ interval.end_) ∨
      (interval.end_ ≤ interval.beg ∧ (interval.beg ≤ now.hour * 60 + now.min ∨
        (now.hour * 60 + now.min : Int) ≤ interval.end_)))

instance (interval : Interval) (now : Tm) : Decidable (interval.Holds now) := by
  unfold Interval.Holds
  infer_instance

/-- The names of days, and the days each admits. -/
def dayFilters : List (Bytes × List (Fin 7)) :=
  [(ascii "Sun", [0]), (ascii "Mon", [1]), (ascii "Tue", [2]), (ascii "Wed", [3]), (ascii "Thu", [4]),
    (ascii "Fri", [5]), (ascii "Sat", [6]), (ascii "Any", [0, 1, 2, 3, 4, 5, 6]), (ascii "Wk", [1, 2, 3, 4, 5]),
    (ascii "We", [0, 6])]

/-- The days an item admits and the text behind their name. Without a name all are admitted. -/
def dayFilter (item : Bytes) : List (Fin 7) × Bytes :=
  match dayFilters.find? fun entry => strncasecmp item entry.1 with
  | some (name, days) => (days, item.drop name.length)
  | none => ([0, 1, 2, 3, 4, 5, 6], item)

/-- The interval an item of a list stands for. -/
def intervalOf (item : Bytes) : Option Interval :=
  (scanTimes (dayFilter item).2).map fun (h1, m1, h2, m2) =>
    ⟨(dayFilter item).1, h1 * 60 + m1, h2 * 60 + m2⟩

/-- The intervals of a list. -/
def intervals (text : Bytes) : List Interval := (commaTokens text).filterMap intervalOf

/-- An interval has all days of another, and its times. -/
def Interval.covers (first second : Interval) : Bool :=
  second.days.all (first.days.contains ·) && first.beg == second.beg && first.end_ == second.end_

/-! ## Names of days -/

/-- A day of the week, counted from Monday. -/
def fromMonday (wday : Fin 7) : Nat := if wday = 0 then 6 else wday.val - 1

/-- The days of the week from a day to a day, counted from Monday. -/
def daysBetween (first last : Nat) : List (Fin 7) :=
  (List.finRange 7).filter fun wday => decide (first ≤ fromMonday wday) && decide (fromMonday wday ≤ last)

/-- A stored interval as what it means. -/
def TimeInt.interval (stored : TimeInt) : Interval :=
  ⟨daysBetween stored.dayBeg stored.dayEnd, stored.beg, stored.end_⟩

/-- The day `timevec_parse` finds, and the text behind its name. -/
def dayOf (item : Bytes) : Day × Bytes :=
  match dayTable.find? fun entry => strncasecmp item entry.1 with
  | some (name, day) => (day, item.drop name.length)
  | none => (.undef, item)

/-- A name admits the days from its first to its last one. -/
theorem dayFilter_eq (item : Bytes) :
    dayFilter item = (daysBetween (dayOf item).1.span.1 (dayOf item).1.span.2, (dayOf item).2) := by
  have tables : dayFilters = dayTable.map fun entry =>
      (entry.1, daysBetween entry.2.span.1 entry.2.span.2) := by decide
  unfold dayFilter dayOf
  have named : dayTable.find? ((fun entry : Bytes × List (Fin 7) => strncasecmp item entry.1) ∘ fun entry =>
      (entry.1, daysBetween entry.2.span.1 entry.2.span.2)) =
        dayTable.find? fun entry => strncasecmp item entry.1 := rfl
  rw [tables, List.find?_map, named]
  cases dayTable.find? fun entry => strncasecmp item entry.1 with
  | none =>
    have all : ([0, 1, 2, 3, 4, 5, 6] : List (Fin 7)) = daysBetween Day.undef.span.1 Day.undef.span.2 := by decide
    exact Prod.ext all rfl
  | some entry => rfl

/-! ## Items of a list -/

/-- What `timevec_parse` stores for an item. -/
def storedOf (item : Bytes) : Option TimeInt :=
  match scanTimes (dayOf item).2 with
  | none => none
  | some (h1, m1, h2, m2) =>
    if h1 * 60 + m1 = h2 * 60 + m2 then none
    else some ⟨(dayOf item).1.span.1, (dayOf item).1.span.2, h1 * 60 + m1, h2 * 60 + m2⟩

/-- An item that is right is stored. -/
theorem timevecParse_eq (dest : List TimeInt) (item : Bytes) :
    timevecParse dest item = (storedOf item).map (timevecAdd dest) := by
  unfold timevecParse storedOf
  change (match scanTimes (dayOf item).2 with
    | none => none
    | some (begHour, begMin, endHour, endMin) => _) = _
  cases scanTimes (dayOf item).2 with
  | none => rfl
  | some times =>
    obtain ⟨h1, m1, h2, m2⟩ := times
    dsimp only
    split <;> rfl

/-- What is stored is the interval the item stands for, with the days of a name. -/
theorem storedOf_spec {item : Bytes} {stored : TimeInt} (right : storedOf item = some stored) :
    intervalOf item = some stored.interval ∧ stored.beg ≠ stored.end_ ∧
      ∃ day : Day, stored.dayBeg = day.span.1 ∧ stored.dayEnd = day.span.2 := by
  unfold storedOf at right
  unfold intervalOf
  rw [dayFilter_eq]
  cases scanned : scanTimes (dayOf item).2 with
  | none =>
    rw [scanned] at right
    cases right
  | some times =>
    obtain ⟨h1, m1, h2, m2⟩ := times
    rw [scanned] at right
    dsimp only at right
    split at right
    · cases right
    · rename_i other
      cases right
      exact ⟨rfl, other, (dayOf item).1, rfl, rfl⟩

/-- The items of a list are all right, or the list is not accepted. -/
theorem timevecParseList_eq (dest : List TimeInt) (str : Bytes) :
    timevecParseList dest str =
      (((commaTokens str).filterMap storedOf).foldl timevecAdd dest,
        (commaTokens str).all fun item => (storedOf item).isSome) := by
  unfold timevecParseList
  -- The induction is on the items, whatever the flag is before them.
  rw [← Bool.true_and ((commaTokens str).all _)]
  generalize commaTokens str = items
  generalize true = good
  induction items generalizing dest good with
  | nil => exact Prod.ext rfl (Bool.and_true good).symm
  | cons item items inductionHypothesis =>
    rw [List.foldl_cons]
    dsimp only
    rw [timevecParse_eq]
    cases right : storedOf item with
    | none => simp [right, inductionHypothesis]
    | some stored => simp [right, inductionHypothesis]

/-- The intervals of a list that is accepted are those stored for its items, of days with a
name. -/
theorem intervals_accepted {text : Bytes} (accepted : (timevecParseList [] text).2 = true) :
    intervals text = ((commaTokens text).filterMap storedOf).map TimeInt.interval := by
  rw [timevecParseList_eq, List.all_eq_true] at accepted
  unfold intervals
  rw [List.map_filterMap]
  refine List.filterMap_congr fun item member => ?_
  obtain ⟨stored, right⟩ := Option.isSome_iff_exists.mp (accepted item member)
  rw [right, (storedOf_spec right).1]
  rfl

/-! ## Moments -/

/-- A day is between two of them. -/
theorem mem_daysBetween {first last : Nat} {wday : Fin 7} :
    wday ∈ daysBetween first last ↔ first ≤ fromMonday wday ∧ fromMonday wday ≤ last := by
  unfold daysBetween
  rw [List.mem_filter, Bool.and_eq_true, decide_eq_true_iff, decide_eq_true_iff]
  exact and_iff_right (List.mem_finRange wday)

/-- A vector accepts a moment that one of its intervals matches. -/
theorem timevecIsnow_iff (tv : List TimeInt) (now : Tm) :
    timevecIsnow tv now = true ↔ ∃ stored ∈ tv, stored.interval.Holds now := by
  unfold timevecIsnow
  dsimp only
  rw [List.any_eq_true]
  refine exists_congr fun stored => and_congr_right fun _ => ?_
  unfold Interval.Holds TimeInt.interval
  dsimp only
  rw [Bool.and_eq_true, Bool.and_eq_true, decide_eq_true_iff, decide_eq_true_iff, mem_daysBetween]
  change (stored.dayBeg ≤ fromMonday now.wday ∧ fromMonday now.wday ≤ stored.dayEnd) ∧ _ ↔ _
  refine and_congr_right fun _ => ?_
  split
  case isTrue before =>
    rw [Bool.and_eq_true, decide_eq_true_iff, decide_eq_true_iff]
    omega
  case isFalse wraps =>
    rw [Bool.or_eq_true, decide_eq_true_iff, decide_eq_true_iff]
    omega

/-- An interval matches what one matches that it covers. -/
theorem Interval.Holds.covered {first second : Interval} {now : Tm} (holds : second.Holds now)
    (covers : first.covers second = true) : first.Holds now := by
  obtain ⟨day, time⟩ := holds
  unfold Interval.covers at covers
  rw [Bool.and_eq_true, Bool.and_eq_true, List.all_eq_true, beq_iff_eq, beq_iff_eq] at covers
  obtain ⟨⟨days, beg⟩, end_⟩ := covers
  refine ⟨List.contains_iff_mem.mp (days now.wday day), ?_⟩
  rw [beg, end_]
  exact time

/-- `timevec_add` drops what an interval of the vector covers. -/
def TimeInt.covers (first second : TimeInt) : Bool :=
  decide (first.dayBeg ≤ second.dayBeg) && decide (second.dayEnd ≤ first.dayEnd) &&
    first.beg == second.beg && first.end_ == second.end_

/-- Among days with a name the comparison of the ends is that of the days. -/
theorem span_covers (first second : Day) :
    (daysBetween second.span.1 second.span.2).all ((daysBetween first.span.1 first.span.2).contains ·) =
      (decide (first.span.1 ≤ second.span.1) && decide (second.span.2 ≤ first.span.2)) := by
  cases first <;> cases second <;> rfl

/-- A list accepted leaves the intervals in the vector that no earlier one covers, as far as
there is room. -/
theorem timevecParseList_intervals {text : Bytes} (accepted : (timevecParseList [] text).2 = true) :
    (timevecParseList [] text).1.map TimeInt.interval = (uncovered Interval.covers (intervals text)).take 10 := by
  have vector : (timevecParseList [] text).1 =
      (uncovered TimeInt.covers ((commaTokens text).filterMap storedOf)).take 10 := by
    rw [timevecParseList_eq, ← foldl_addBounded]
    rfl
  rw [vector, intervals_accepted accepted, List.map_take, uncovered_map TimeInt.covers]
  intro first isFirst second isSecond
  obtain ⟨item, -, right⟩ := List.mem_filterMap.mp isFirst
  obtain ⟨other, -, also⟩ := List.mem_filterMap.mp isSecond
  obtain ⟨-, -, day, beg, end_⟩ := storedOf_spec right
  obtain ⟨-, -, day', beg', end'⟩ := storedOf_spec also
  unfold Interval.covers TimeInt.covers TimeInt.interval
  dsimp only
  rw [beg, end_, beg', end', span_covers]

/-- Where the intervals that found no room match nothing that is not matched anyway, the vector
of a list means what the list means, and nowhere else. -/
theorem timevecParseList_means {text : Bytes} (accepted : (timevecParseList [] text).2 = true) (now : Tm) :
    (timevecIsnow (timevecParseList [] text).1 now = true ↔ ∃ interval ∈ intervals text, interval.Holds now) ↔
      ∀ interval ∈ (uncovered Interval.covers (intervals text)).drop 10, interval.Holds now →
        ∃ kept ∈ (uncovered Interval.covers (intervals text)).take 10, kept.Holds now := by
  obtain ⟨inside, -, covered⟩ := uncovered_spec Interval.covers (intervals text)
  have stored : timevecIsnow (timevecParseList [] text).1 now = true ↔
      ∃ kept ∈ (uncovered Interval.covers (intervals text)).take 10, kept.Holds now := by
    rw [timevecIsnow_iff, ← timevecParseList_intervals accepted]
    simp only [List.mem_map, exists_exists_and_eq_and]
  have listed : (∃ interval ∈ intervals text, interval.Holds now) ↔
      ∃ one ∈ uncovered Interval.covers (intervals text), one.Holds now := by
    constructor
    · rintro ⟨interval, member, holds⟩
      obtain ⟨one, kept, rfl | covers⟩ := covered interval member
      · exact ⟨one, kept, holds⟩
      · exact ⟨one, kept, holds.covered covers⟩
    · rintro ⟨one, kept, holds⟩
      exact ⟨one, inside kept, holds⟩
  rw [stored, listed]
  constructor
  · intro agrees interval left holds
    exact agrees.mpr ⟨interval, List.mem_of_mem_drop left, holds⟩
  · intro enough
    constructor
    · rintro ⟨kept, member, holds⟩
      exact ⟨kept, List.mem_of_mem_take member, holds⟩
    · rintro ⟨one, member, holds⟩
      rw [← List.take_append_drop 10 (uncovered Interval.covers (intervals text)), List.mem_append] at member
      rcases member with early | late
      · exact ⟨one, early, holds⟩
      · exact enough one late holds

/-! ## The checker that reads the text -/

/-- The number `time_check` has for a day. -/
def Day.number : Day → Int
  | .sunday => 0
  | .monday => 1
  | .tuesday => 2
  | .wednesday => 3
  | .thursday => 4
  | .friday => 5
  | .saturday => 6
  | .any => -1
  | .workday => -2
  | .weekend => -3
  | .undef => -4

/-- The test of the day admits the days of the name. -/
theorem dayok_eq (day : Day) (wday : Fin 7) :
    dayok day.number wday = decide (wday ∈ daysBetween day.span.1 day.span.2) := by
  revert wday
  cases day <;> decide

/-- Both parsers find the same name. -/
theorem timeCheckDay_eq (item : Bytes) : timeCheckDay item = ((dayOf item).1.number, (dayOf item).2) := by
  have tables : timeCheckTable = dayTable.map fun entry => (entry.1, entry.2.number) := by decide
  have named : dayTable.find? ((fun entry : Bytes × Int => strncasecmp item entry.1) ∘ fun entry =>
      (entry.1, entry.2.number)) = dayTable.find? fun entry => strncasecmp item entry.1 := rfl
  unfold timeCheckDay dayOf
  rw [tables, List.find?_map, named]
  cases dayTable.find? fun entry => strncasecmp item entry.1 with
  | none => rfl
  | some entry => rfl

/-- Of an item that is right the checker says whether the moment matches it. -/
theorem timeCheck_right {item : Bytes} {stored : TimeInt} (right : storedOf item = some stored) (now : Tm) :
    ∃ answer, timeCheck item now = some answer ∧ (answer = true ↔ stored.interval.Holds now) := by
  have filled : item.isEmpty = false := by
    cases item with
    | nil => cases right
    | cons => rfl
  unfold timeCheck
  rw [filled, if_neg Bool.false_ne_true, timeCheckDay_eq]
  dsimp only
  rw [dayok_eq]
  unfold storedOf at right
  cases scanned : scanTimes (dayOf item).2 with
  | none =>
    rw [scanned] at right
    cases right
  | some times =>
    obtain ⟨h1, m1, h2, m2⟩ := times
    have more : (dayOf item).2.isEmpty = false := by
      cases rest : (dayOf item).2 with
      | nil =>
        rw [rest] at scanned
        cases scanned
      | cons => rfl
    rw [scanned] at right
    dsimp only at right
    split at right
    · cases right
    · rename_i other
      cases right
      unfold Interval.Holds TimeInt.interval
      dsimp only
      by_cases day : now.wday ∈ daysBetween (dayOf item).1.span.1 (dayOf item).1.span.2
      · rw [decide_eq_true day, more, and_iff_right day]
        rw [if_neg (by decide), if_neg Bool.false_ne_true]
        split
        · refine ⟨_, rfl, ?_⟩
          rw [Bool.and_eq_true, decide_eq_true_iff, decide_eq_true_iff]
          omega
        · refine ⟨_, rfl, ?_⟩
          rw [Bool.or_eq_true, decide_eq_true_iff, decide_eq_true_iff]
          omega
      · rw [decide_eq_false day, if_pos (show (!false) = true from rfl)]
        exact ⟨false, rfl, iff_of_false Bool.false_ne_true fun holds => day holds.1⟩

/-- Over items that are right the checker looks for one that the moment matches. -/
theorem timeCheckTokens_right (now : Tm) (items : List Bytes)
    (right : ∀ item ∈ items, (storedOf item).isSome = true) :
    ∃ answer, timeCheckTokens now items = some answer ∧
      (answer = true ↔ ∃ stored ∈ items.filterMap storedOf, stored.interval.Holds now) := by
  induction items with
  | nil => exact ⟨false, rfl, iff_of_false Bool.false_ne_true (by simp)⟩
  | cons item items inductionHypothesis =>
    rw [List.forall_mem_cons] at right
    obtain ⟨stored, one⟩ := Option.isSome_iff_exists.mp right.1
    obtain ⟨here, checked, matched⟩ := timeCheck_right one now
    obtain ⟨later, rest, found⟩ := inductionHypothesis right.2
    rw [timeCheckTokens, checked, List.filterMap_cons_some one, List.exists_mem_cons_iff, ← matched, ← found]
    cases here with
    | true => exact ⟨true, rfl, iff_of_true rfl (.inl rfl)⟩
    | false => exact ⟨later, rest, (or_iff_right Bool.false_ne_true).symm⟩

/-- A list of few intervals is stored whole, but for those that are covered. -/
theorem timevecParseList_few {text : Bytes} (accepted : (timevecParseList [] text).2 = true)
    (few : (commaTokens text).length ≤ 10) (now : Tm) :
    timevecIsnow (timevecParseList [] text).1 now = true ↔ ∃ interval ∈ intervals text, interval.Holds now := by
  have short : (uncovered Interval.covers (intervals text)).length ≤ 10 := by
    have items := (uncovered_spec Interval.covers (intervals text)).2.1
    have fewer := List.length_filterMap_le intervalOf (commaTokens text)
    unfold intervals at items ⊢
    omega
  rw [timevecParseList_means accepted now, List.drop_eq_nil_of_le short]
  exact nofun

/-- The vector of a list accepts a moment exactly if an interval of the list matches it, or
else an interval that found no room matches it alone. -/
theorem timevec_means (text : Bytes) (now : Tm) (accepted : (timevecParseList [] text).2 = true) :
    (timevecIsnow (timevecParseList [] text).1 now = true ↔ ∃ interval ∈ intervals text, interval.Holds now) ↔
      ∀ interval ∈ (uncovered Interval.covers (intervals text)).drop 10, interval.Holds now →
        ∃ kept ∈ (uncovered Interval.covers (intervals text)).take 10, kept.Holds now :=
  timevecParseList_means accepted now

/-- On a workday night the system is called, and on a weekend all day. -/
theorem timevec_means_night :
    timevecIsnow (timevecParseList [] (ascii "Wk22:00-06:30,We00:00-23:59")).1 ⟨3, 23, 15⟩ = true ↔
      ∃ interval ∈ intervals (ascii "Wk22:00-06:30,We00:00-23:59"), interval.Holds ⟨3, 23, 15⟩ :=
  (timevec_means _ _ (by decide)).mpr (by decide)

/-- An interval for each of the hours up to ten. -/
def elevenHours : Bytes :=
  ascii ("00:00-00:30,01:00-01:30,02:00-02:30,03:00-03:30,04:00-04:30,05:00-05:30," ++
    "06:00-06:30,07:00-07:30,08:00-08:30,09:00-09:30,10:00-10:30")

/-- The eleventh interval finds no room, and its list is accepted all the same. -/
theorem eleventh_lost :
    (timevecParseList [] elevenHours).2 = true ∧
      ¬ (timevecIsnow (timevecParseList [] elevenHours).1 ⟨1, 10, 15⟩ = true ↔
        ∃ interval ∈ intervals elevenHours, interval.Holds ⟨1, 10, 15⟩) := by
  decide +kernel

/-- The checkers agree on a list that finds room in the vector. -/
theorem timeCheckintervals_agrees (text : Bytes) (now : Tm) (accepted : (timevecParseList [] text).2 = true)
    (few : (commaTokens text).length ≤ 10) :
    timeCheckintervals text now = some (timevecIsnow (timevecParseList [] text).1 now) := by
  have right : ∀ item ∈ commaTokens text, (storedOf item).isSome = true := by
    have all := accepted
    rw [timevecParseList_eq, List.all_eq_true] at all
    exact all
  obtain ⟨answer, checked, matched⟩ := timeCheckTokens_right now (commaTokens text) right
  have stored := timevecParseList_few accepted few now
  rw [intervals_accepted accepted] at stored
  simp only [List.mem_map, exists_exists_and_eq_and] at stored
  unfold timeCheckintervals
  rw [checked, Bool.eq_iff_iff.mpr (matched.trans stored.symm)]

/-- Both checkers refuse a workday noon. -/
theorem timeCheckintervals_agrees_noon :
    timeCheckintervals (ascii "Wk22:00-06:30,We00:00-23:59") ⟨3, 12, 0⟩ =
      some (timevecIsnow (timevecParseList [] (ascii "Wk22:00-06:30,We00:00-23:59")).1 ⟨3, 12, 0⟩) :=
  timeCheckintervals_agrees _ _ (by decide) (by decide)

end Binkleyforce
