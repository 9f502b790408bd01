/-!
# Dates and times

The calendar values that a settings file can hold: a date, a time of day, and a date with a time,
which may say how far its clock is ahead of universal time.
-/

namespace Literate

/-- A day of the calendar. -/
structure Date where
  year : Nat
  month : Nat
  day : Nat
deriving DecidableEq, Repr

namespace Date

def isLeapYear (year : Nat) : Bool :=
  year % 4 == 0 && (year % 100 != 0 || year % 400 == 0)

def daysIn (year month : Nat) : Nat :=
  if month = 2 then (if isLeapYear year then 29 else 28)
  else if month = 4 || month = 6 || month = 9 || month = 11 then 30
  else 31

/-- Whether there is such a day. Years count from 1. -/
def exists? (d : Date) : Bool :=
  1 ≤ d.year && 1 ≤ d.month && d.month ≤ 12 && 1 ≤ d.day && d.day ≤ daysIn d.year d.month

end Date

/-- A time of day, to the microsecond. -/
structure Clock where
  hour : Nat
  minute : Nat
  second : Nat
  micro : Nat
deriving DecidableEq, Repr

/-- A date, a time, or both; the offset is in minutes. -/
inductive Moment where
  | date (d : Date)
  | clock (t : Clock)
  | both (d : Date) (t : Clock) (offset : Option Int)
deriving DecidableEq, Repr

/-- A number with zeros in front, up to the given width. -/
def padded (width n : Nat) : String :=
  let digits := Nat.toDigits 10 n
  String.ofList (List.replicate (width - digits.length) '0' ++ digits)

/-- Numbers with commas between them. -/
def listed (ns : List Nat) : String := ", ".intercalate (ns.map toString)

namespace Date

def text (d : Date) : String := padded 4 d.year ++ "-" ++ padded 2 d.month ++ "-" ++ padded 2 d.day

end Date

namespace Clock

def text (t : Clock) : String :=
  let whole := padded 2 t.hour ++ ":" ++ padded 2 t.minute ++ ":" ++ padded 2 t.second
  if t.micro = 0 then whole else whole ++ "." ++ padded 6 t.micro

/-- The fields of a time, those at the end left out that are zero: the microseconds, and then the
seconds. -/
def fields (t : Clock) : List Nat :=
  if t.micro ≠ 0 then [t.hour, t.minute, t.second, t.micro]
  else if t.second ≠ 0 then [t.hour, t.minute, t.second]
  else [t.hour, t.minute]

end Clock

namespace Moment

/-- An offset in hours and minutes. -/
def offsetText (offset : Int) : String :=
  let n := offset.natAbs
  (if offset < 0 then "-" else "+") ++ padded 2 (n / 60) ++ ":" ++ padded 2 (n % 60)

/-- The text of a moment that stands alone. -/
def text : Moment → String
  | date d => d.text
  | clock t => t.text
  | both d t none => d.text ++ " " ++ t.text
  | both d t (some offset) => d.text ++ " " ++ t.text ++ offsetText offset

/-- An offset as the difference of two clocks: days, which are negative or left out, and seconds. -/
def offsetDisplay (offset : Int) : String :=
  if offset = 0 then "datetime.timezone.utc"
  else
    let seconds := offset * 60
    let amount :=
      if 0 ≤ seconds then s!"seconds={seconds}" else s!"days=-1, seconds={seconds + 86400}"
    "datetime.timezone(datetime.timedelta(" ++ amount ++ "))"

/-- The text of a moment inside a list or table. -/
def display : Moment → String
  | date d => "datetime.date(" ++ listed [d.year, d.month, d.day] ++ ")"
  | clock t => "datetime.time(" ++ listed t.fields ++ ")"
  | both d t offset =>
    let zone := match offset with
      | none => ""
      | some offset => ", tzinfo=" ++ offsetDisplay offset
    "datetime.datetime(" ++ listed ([d.year, d.month, d.day] ++ t.fields) ++ zone ++ ")"

end Moment

end Literate
