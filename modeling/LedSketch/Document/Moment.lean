import LedSketch.Document.Datum

/-!
# Dates and times

Documents may hold dates and times. Sketches and settings have no use for them, so a moment ends as
a datum of a type of its own, known by its text only.

* `Date.problem?` — a date is sound exactly if its year is positive and its day lies in its month.
-/

namespace LedSketch

namespace Moment

/-- The value of an ASCII digit. -/
def digit? (c : Char) : Option Nat := if '0' ≤ c && c ≤ '9' then some (c.toNat - 48) else none

/-- A number of exactly `count` digits. -/
def fixedDigits? (count : Nat) (cs : List Char) : Option (Nat × List Char) := do
  let ds ← (cs.take count).mapM digit?
  if ds.length = count then return (Reading.ofDigits 10 ds, cs.drop count) else none

/-- Passes over a character. -/
def mark? (c : Char) : List Char → Option (List Char)
  | d :: rest => if d = c then some rest else none
  | [] => none

/-- The millionths that the digits of a fraction stand for. -/
def millionths (ds : List Char) : Nat :=
  Reading.ofDigits 10 (((ds ++ List.replicate 6 '0').take 6).filterMap digit?)

end Moment

/-- A day of the calendar. -/
structure Date where
  year : Nat
  month : Nat
  day : Nat
deriving DecidableEq, Repr

/-- A time of the day. -/
structure ClockTime where
  hour : Nat
  minute : Nat
  second : Nat
  micro : Nat
deriving DecidableEq, Repr

namespace Date

/-- Whether a year has a leap day. -/
def isLeap (year : Nat) : Bool := year % 4 = 0 && (year % 100 ≠ 0 || year % 400 = 0)

/-- The number of days of a month. -/
def daysIn (year month : Nat) : Nat :=
  if month = 2 then if isLeap year then 29 else 28
  else if month = 4 || month = 6 || month = 9 || month = 11 then 30
  else 31

/-- What is wrong with a date. -/
def problem? (d : Date) : Option String :=
  if d.year = 0 then some "year 0 is out of range"
  else if d.month = 0 || 12 < d.month then some "month must be in 1..12"
  else if d.day = 0 || daysIn d.year d.month < d.day then some "day is out of range for month"
  else none

/-- The parts of a date. -/
def parts (d : Date) : List String := [toString d.year, toString d.month, toString d.day]

/-- A date as a datum. -/
def datum (d : Date) : Datum := .other "date" ("datetime.date(" ++ ", ".intercalate d.parts ++ ")")

end Date

namespace ClockTime

/-- What is wrong with a time. -/
def problem? (t : ClockTime) : Option String :=
  if 23 < t.hour then some "hour must be in 0..23"
  else if 59 < t.minute then some "minute must be in 0..59"
  else if 59 < t.second then some "second must be in 0..59"
  else none

/-- The parts of a time; seconds are left out if they are zero. -/
def parts (t : ClockTime) : List String :=
  let fine :=
    if t.micro ≠ 0 then [toString t.second, toString t.micro]
    else if t.second ≠ 0 then [toString t.second]
    else []
  [toString t.hour, toString t.minute] ++ fine

/-- A time as a datum. -/
def datum (t : ClockTime) : Datum :=
  .other "time" ("datetime.time(" ++ ", ".intercalate t.parts ++ ")")

end ClockTime

/-- How far a clock is ahead of the common one, in minutes. -/
def Zone.text (minutes : Int) : String :=
  if minutes = 0 then "datetime.timezone.utc"
  else
    let seconds := minutes * 60
    let delta :=
      if seconds < 0 then s!"days=-1, seconds={seconds + 86400}" else s!"seconds={seconds}"
    s!"datetime.timezone(datetime.timedelta({delta}))"

/-- A date with a time, and the zone of its clock, as a datum. -/
def Date.withTime (d : Date) (t : ClockTime) (zone : Option Int) : Datum :=
  let zone := match zone with
    | some minutes => ["tzinfo=" ++ Zone.text minutes]
    | none => []
  .other "datetime" ("datetime.datetime(" ++ ", ".intercalate (d.parts ++ t.parts ++ zone) ++ ")")

end LedSketch
