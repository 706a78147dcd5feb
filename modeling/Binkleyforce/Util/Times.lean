import Binkleyforce.Util.Scan
import Binkleyforce.Util.Tokens

/-!
# Times of the week

Lists of intervals as the configuration and the nodelist have them: a day or some days, and
a time from a minute to a minute. One half of the source keeps them in a vector with room for
ten, the other reads the text again for each moment it is asked about.
-/

namespace Binkleyforce

/-- A week has days. -/
instance weekDays : NeZero 7 := ⟨by decide⟩

/-- `struct tm`, as far as it is read: the day of the week from Sunday on, and the time. -/
structure Tm where
  wday : Fin 7
  hour : Nat
  min : Nat
  deriving DecidableEq, Repr

/-- `s_timeint`: from a day to a day, from a minute to a minute. Days count from Monday. -/
structure TimeInt where
  dayBeg : Nat
  dayEnd : Nat
  beg : Int
  end_ : Int
  deriving DecidableEq, Repr

/-- `timevec_isdefined`. -/
def timevecIsdefined (tv : List TimeInt) : Bool := !tv.isEmpty

/-- `timevec_isnow`: `timevec_check` finds an interval with the day and the time in it. -/
def timevecIsnow (tv : List TimeInt) (now : Tm) : Bool :=
  let cur : Int := now.hour * 60 + now.min
  let curDay := if now.wday = 0 then 6 else now.wday.val - 1
  tv.any fun interval =>
    decide (interval.dayBeg ≤ curDay) && decide (curDay ≤ interval.dayEnd) &&
      if interval.beg < interval.end_ then decide (interval.beg ≤ cur) && decide (cur ≤ interval.end_)
      else decide (interval.beg ≤ cur) || decide (cur ≤ interval.end_)

/-- `timevec_add`. A full vector takes nothing more, and its caller does not ask. -/
def timevecAdd (tv : List TimeInt) (interval : TimeInt) : List TimeInt :=
  if tv.any fun one =>
      decide (one.dayBeg ≤ interval.dayBeg) && decide (interval.dayEnd ≤ one.dayEnd) &&
        one.beg == interval.beg && one.end_ == interval.end_ then tv
  else if 10 ≤ tv.length then tv
  else tv ++ [interval]

/-- `strncasecmp(str, name, strlen(name)) == 0`. -/
def strncasecmp (str name : Bytes) : Bool := strcasecmp (str.take name.length) name

/-- `%02d`: two characters are read at most, a sign among them. -/
def scanTwo (text : Bytes) : Option (Int × Bytes) :=
  let text := skipSpace text
  (scanInt (text.take 2)).map fun (value, rest) => (value, rest ++ text.drop 2)

/-- A character of a format that stands for itself. -/
def scanChar (char : UInt8) (text : Bytes) : Option Bytes :=
  if text.head? = some char then some text.tail else none

/-- `sscanf` with `%02d:%02d-%02d:%02d`, where it stores all four numbers. -/
def scanTimes (text : Bytes) : Option (Int × Int × Int × Int) := do
  let (begHour, text) ← scanTwo text
  let text ← scanChar 58 text
  let (begMin, text) ← scanTwo text
  let text ← scanChar 45 text
  let (endHour, text) ← scanTwo text
  let text ← scanChar 58 text
  let (endMin, _) ← scanTwo text
  return (begHour, begMin, endHour, endMin)

/-- `enum day`. -/
inductive Day where
  | monday
  | tuesday
  | wednesday
  | thursday
  | friday
  | saturday
  | sunday
  | any
  | workday
  | weekend
  | undef
  deriving DecidableEq, Repr

/-- The days `timevec_parse` knows, in the order it compares them. -/
def dayTable : List (Bytes × Day) :=
  [(ascii "Sun", .sunday), (ascii "Mon", .monday), (ascii "Tue", .tuesday), (ascii "Wed", .wednesday),
    (ascii "Thu", .thursday), (ascii "Fri", .friday), (ascii "Sat", .saturday), (ascii "Any", .any),
    (ascii "Wk", .workday), (ascii "We", .weekend)]

/-- The first and the last day `timevec_parse` gives to `timevec_add`. -/
def Day.span : Day → Nat × Nat
  | .monday => (0, 0)
  | .tuesday => (1, 1)
  | .wednesday => (2, 2)
  | .thursday => (3, 3)
  | .friday => (4, 4)
  | .saturday => (5, 5)
  | .sunday => (6, 6)
  | .workday => (0, 4)
  | .weekend => (5, 6)
  | _ => (0, 6)

/-- `timevec_parse`; `none` is its -1. -/
def timevecParse (dest : List TimeInt) (str : Bytes) : Option (List TimeInt) :=
  let (begDay, str) := match dayTable.find? fun entry => strncasecmp str entry.1 with
    | some (name, day) => (day, str.drop name.length)
    | none => (Day.undef, str)
  match scanTimes str with
  | none => none
  | some (begHour, begMin, endHour, endMin) =>
    let beg := begHour * 60 + begMin
    let end_ := endHour * 60 + endMin
    if beg = end_ then none
    else some (timevecAdd dest ⟨begDay.span.1, begDay.span.2, beg, end_⟩)

/-- `timevec_parse_list`: the vector, and whether it returned zero. It goes on behind an
interval that is not right. -/
def timevecParseList (dest : List TimeInt) (str : Bytes) : List TimeInt × Bool :=
  (commaTokens str).foldl
    (fun (dest, good) p => match timevecParse dest p with
      | some dest => (dest, good)
      | none => (dest, false))
    (dest, true)

/-- The days `time_check` knows, as its numbers, in the order it compares them. -/
def timeCheckTable : List (Bytes × Int) :=
  [(ascii "Sun", 0), (ascii "Mon", 1), (ascii "Tue", 2), (ascii "Wed", 3), (ascii "Thu", 4), (ascii "Fri", 5),
    (ascii "Sat", 6), (ascii "Any", -1), (ascii "Wk", -2), (ascii "We", -3)]

/-- The day `time_check` finds, and the text behind its name. -/
def timeCheckDay (str : Bytes) : Int × Bytes :=
  match timeCheckTable.find? fun entry => strncasecmp str entry.1 with
  | some (name, day) => (day, str.drop name.length)
  | none => (-4, str)

/-- The test of the day in `time_check`. -/
def dayok (day : Int) (wday : Fin 7) : Bool :=
  if 0 ≤ day then decide ((wday.val : Int) = day)
  else if day = -3 then wday = 0 || wday = 6
  else if day = -2 then wday ≠ 0 && wday ≠ 6
  else true

/-- `time_check`: the time conforms, it does not, or -1. -/
def timeCheck (str : Bytes) (now : Tm) : Option Bool :=
  if str.isEmpty then some false
  else
    let (day, str) := timeCheckDay str
    if !dayok day now.wday then some false
    else if str.isEmpty then if day = -4 then none else some true
    else
      match scanTimes str with
      | none => none
      | some (h1, m1, h2, m2) =>
        let cur : Int := now.hour * 60 + now.min
        let beg := h1 * 60 + m1
        let end_ := h2 * 60 + m2
        if beg < end_ then some (decide (beg ≤ cur) && decide (cur ≤ end_))
        else some (decide (beg ≤ cur) || decide (cur ≤ end_))

/-- The loop of `time_checkintervals`. -/
def timeCheckTokens (now : Tm) : List Bytes → Option Bool
  | [] => some false
  | p :: rest =>
    match timeCheck p now with
    | some true => some true
    | some false => timeCheckTokens now rest
    | none => none

/-- `time_checkintervals`. -/
def timeCheckintervals (timestr : Bytes) (now : Tm) : Option Bool := timeCheckTokens now (commaTokens timestr)

end Binkleyforce
