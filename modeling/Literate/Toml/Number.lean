import Literate.Toml.Basic

/-!
# Reading TOML: numbers, dates and times

Each reader takes the longest piece at the start of the text that has its form, or says that there is
none. What stands behind such a piece is for others to judge.
-/

namespace Literate.Toml

/-- Digits with single underscores between them: the digits, and what is left. -/
def digitRun (isDigit : Char → Bool) : List Char → List Char × List Char
  | [] => ([], [])
  | '_' :: d :: cs =>
    if isDigit d then
      let r := digitRun isDigit cs
      (d :: r.1, r.2)
    else ([], '_' :: d :: cs)
  | c :: cs =>
    if isDigit c then
      let r := digitRun isDigit cs
      (c :: r.1, r.2)
    else ([], c :: cs)

/-- A run of digits that starts with a digit. -/
def digits? (isDigit : Char → Bool) (cs : List Char) : Option (List Char × List Char) :=
  match cs with
  | c :: _ => if isDigit c then some (digitRun isDigit cs) else none
  | [] => none

/-- The number that digits spell in a base. -/
def numberOf (base : Nat) (digits : List Char) : Nat :=
  digits.foldl (fun n c => base * n + (hexValue? c).getD 0) 0

def isHexDigit (c : Char) : Bool := (hexValue? c).isSome

def isOctalDigit (c : Char) : Bool := '0' ≤ c && c ≤ '7'

def isBinaryDigit (c : Char) : Bool := c == '0' || c == '1'

/-- A number in another base than ten. -/
def based? : List Char → Option (Int × List Char)
  | '0' :: 'x' :: cs => (digits? isHexDigit cs).map fun r => ((numberOf 16 r.1 : Int), r.2)
  | '0' :: 'o' :: cs => (digits? isOctalDigit cs).map fun r => ((numberOf 8 r.1 : Int), r.2)
  | '0' :: 'b' :: cs => (digits? isBinaryDigit cs).map fun r => ((numberOf 2 r.1 : Int), r.2)
  | _ => none

/-- A sign: whether it is a minus, and what is left. -/
def sign (cs : List Char) : Bool × List Char :=
  match cs with
  | '+' :: rest => (false, rest)
  | '-' :: rest => (true, rest)
  | _ => (false, cs)

/-- The digits before the point: a single zero or a run that does not start with one. -/
def whole? (cs : List Char) : Option (List Char × List Char) :=
  match cs with
  | '0' :: rest => some (['0'], rest)
  | _ => digits? Char.isDigit cs

/-- A point and the digits behind it. -/
def fraction (cs : List Char) : List Char × List Char :=
  match cs with
  | '.' :: rest => (digits? Char.isDigit rest).getD ([], cs)
  | _ => ([], cs)

/-- An exponent, and whether there is one. -/
def exponent (cs : List Char) : Option Int × List Char :=
  match cs with
  | e :: rest =>
    if e = 'e' || e = 'E' then
      let (negative, afterSign) := sign rest
      match digits? Char.isDigit afterSign with
      | some (ds, rest) =>
        let n : Int := numberOf 10 ds
        (some (if negative then -n else n), rest)
      | none => (none, cs)
    else (none, cs)
  | [] => (none, cs)

/-- A decimal number: an integer, or with a fraction or an exponent a floating point number. -/
def decimal? (cs : List Char) : Option (Read Datum) :=
  let (negative, afterSign) := sign cs
  (whole? afterSign).map fun (whole, rest) =>
    let (behind, rest) := fraction rest
    let (power, rest) := exponent rest
    if behind.isEmpty && power.isNone then
      if Datum.maxDigits < whole.length then .error .tooManyDigits
      else
        let n : Int := numberOf 10 whole
        .ok (.number (if negative then -n else n), rest)
    else
      .ok (.real (.ofDecimal negative (numberOf 10 (whole ++ behind))
        (power.getD 0 - (behind.length : Int))), rest)

/-- The names of the infinities and of what is no number. -/
def named? (cs : List Char) : Option (Datum × List Char) :=
  let (negative, rest) := sign cs
  match rest with
  | 'i' :: 'n' :: 'f' :: rest => some (.real (.infinite negative), rest)
  | 'n' :: 'a' :: 'n' :: rest => some (.real .nan, rest)
  | _ => none

/-! ## Dates and times -/

/-- A number of exactly `width` digits. -/
def fixed? (width : Nat) (cs : List Char) : Option (Nat × List Char) :=
  let ds := cs.take width
  if ds.length = width && ds.all Char.isDigit then some (numberOf 10 ds, cs.drop width) else none

/-- A number of two digits within limits, after a certain character. -/
def two? (before : Char) (low high : Nat) (cs : List Char) : Option (Nat × List Char) :=
  match cs with
  | c :: rest =>
    if c = before then
      (fixed? 2 rest).bind fun (n, rest) => if low ≤ n && n ≤ high then some (n, rest) else none
    else none
  | [] => none

/-- A day as it is written; there need be no such day. -/
def day? (cs : List Char) : Option (Date × List Char) :=
  (fixed? 4 cs).bind fun (year, rest) =>
    (two? '-' 1 12 rest).bind fun (month, rest) =>
      (two? '-' 1 31 rest).map fun (day, rest) => (⟨year, month, day⟩, rest)

/-- The fraction of a second, to the microsecond; further digits are passed over. -/
def micros (cs : List Char) : Nat × List Char :=
  match cs with
  | '.' :: rest =>
    let ds := rest.takeWhile Char.isDigit
    if ds.isEmpty then (0, cs)
    else
      let kept := ds.take 6
      (numberOf 10 (kept ++ List.replicate (6 - kept.length) '0'), rest.dropWhile Char.isDigit)
  | _ => (0, cs)

/-- A time of day. -/
def clock? (cs : List Char) : Option (Clock × List Char) :=
  (fixed? 2 cs).bind fun (hour, rest) =>
    if 23 < hour then none
    else
      (two? ':' 0 59 rest).bind fun (minute, rest) =>
        (two? ':' 0 59 rest).map fun (second, rest) =>
          let (micro, rest) := micros rest
          (⟨hour, minute, second, micro⟩, rest)

/-- How far a clock is ahead of universal time, in minutes. -/
def offset? (cs : List Char) : Option Int × List Char :=
  match cs with
  | c :: rest =>
    if c = 'Z' || c = 'z' then (some 0, rest)
    else if c = '+' || c = '-' then
      let read := (fixed? 2 rest).bind fun (hour, rest) =>
        if 23 < hour then none
        else (two? ':' 0 59 rest).map fun (minute, rest) => ((hour * 60 + minute : Nat), rest)
      match read with
      | some (n, rest) => (some (if c = '-' then -(n : Int) else n), rest)
      | none => (none, cs)
    else (none, cs)
  | [] => (none, cs)

/-- A date, or a date and a time. That there is no such day is a fault. -/
def moment? (cs : List Char) : Option (Read Datum) :=
  (day? cs).map fun (date, rest) =>
    let withTime : Option (Moment × List Char) :=
      match rest with
      | c :: after =>
        if c = 'T' || c = 't' || c = ' ' then
          (clock? after).map fun (clock, rest) =>
            let (offset, rest) := offset? rest
            (.both date clock offset, rest)
        else none
      | [] => none
    let (moment, rest) := withTime.getD (.date date, rest)
    if date.exists? then .ok (.moment moment, rest) else .error .malformed

/-- A date, a time or a number. -/
def readScalar (cs : List Char) : Read Datum :=
  match moment? cs with
  | some r => r
  | none =>
    match clock? cs with
    | some (clock, rest) => .ok (.moment (.clock clock), rest)
    | none =>
      match based? cs with
      | some (n, rest) => .ok (.number n, rest)
      | none =>
        match decimal? cs with
        | some r => r
        | none =>
          match named? cs with
          | some r => .ok r
          | none => .error .malformed

end Literate.Toml
