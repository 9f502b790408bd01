import Literate.Decimal.Binary

/-!
# The shortest decimal that reads back

A floating point number is written with the fewest digits that still denote it, and of those with
the ones nearest to it. Every test is made on integers: the number is scaled by the power of ten of
the digit grid under consideration.
-/

namespace Literate

/-- A decimal: `digits · 10 ^ scale`. -/
structure Decimal where
  digits : Nat
  scale : Int
deriving DecidableEq, Repr

namespace Decimal

/-- The reals that round to `mantissa · 2 ^ exponent`, in units of a quarter of the last place: from
`4 · mantissa - below` to `4 · mantissa + 2`. -/
def below (mantissa : Nat) (exponent : Int) : Nat :=
  if mantissa = Nat.pow 2 52 && Binary64.minExponent < exponent then 1 else 2

/-- `4 · mantissa · 2 ^ exponent`, one quarter of the last place, and the grid `10 ^ scale`, all times
one common factor that makes them integers. -/
def onGrid (mantissa : Nat) (exponent scale : Int) : Nat × Nat × Nat :=
  let two := if 0 ≤ exponent then Nat.pow 2 exponent.toNat else 1
  let ten := if 0 ≤ scale then Nat.pow 10 scale.toNat else 1
  let byTwo := if exponent < 0 then Nat.pow 2 (-exponent).toNat else 1
  let byTen := if scale < 0 then Nat.pow 10 (-scale).toNat else 1
  (4 * mantissa * two * byTen, two * byTen, 4 * ten * byTwo)

/-- The point of the grid that is nearest to the number among those that denote it. -/
def onGrid? (mantissa : Nat) (exponent scale : Int) : Option Nat :=
  let (value, quarter, unit) := onGrid mantissa exponent scale
  let low := value - below mantissa exponent * quarter
  let high := value + 2 * quarter
  let even := mantissa % 2 == 0
  let inside (n : Nat) : Bool :=
    let p := n * unit
    if even then low ≤ p && p ≤ high else low < p && p < high
  let floor := value / unit
  let twice := 2 * (value % unit)
  match inside floor, inside (floor + 1) with
  | false, false => none
  | true, false => some floor
  | false, true => some (floor + 1)
  | true, true =>
    if twice < unit then some floor
    else if unit < twice then some (floor + 1)
    else if floor % 2 = 0 then some floor else some (floor + 1)

/-- The exponent `x` with `10 ^ x ≤ mantissa · 2 ^ exponent < 10 ^ (x + 1)`, for a positive number. -/
def magnitude (mantissa : Nat) (exponent : Int) : Int :=
  if 0 ≤ exponent then (Binary64.digitCount (mantissa * Nat.pow 2 exponent.toNat) : Int) - 1
  else
    -- The number times a power of ten that makes it an integer of at least one digit.
    let shift := (-exponent).toNat
    let scaled := mantissa * Nat.pow 10 shift / Nat.pow 2 shift
    (Binary64.digitCount scaled : Int) - 1 - shift

/-- The same number without zeros at the end of its digits. -/
def trim (fuel : Nat) (d : Decimal) : Decimal :=
  match fuel with
  | 0 => d
  | fuel + 1 =>
    if d.digits ≠ 0 && d.digits % 10 = 0 then trim fuel ⟨d.digits / 10, d.scale + 1⟩ else d

/-- The shortest decimal that denotes `mantissa · 2 ^ exponent`: seventeen digits always do. -/
def shortest (mantissa : Nat) (exponent : Int) : Decimal :=
  if mantissa = 0 then ⟨0, 0⟩
  else
    let x := magnitude mantissa exponent
    let found := (List.range 17).findSome? fun (n : Nat) =>
      let scale := x - (n : Int)
      (onGrid? mantissa exponent scale).map (⟨·, scale⟩)
    trim 20 (found.getD ⟨0, 0⟩)

/-- How a number is spelled. -/
structure Spelling where
  /-- Positional notation is used when the point stands after this many digits or fewer … -/
  maxPoint : Int
  /-- … and more than this many. -/
  minPoint : Int
  /-- What follows the digits of a number that has no fraction. -/
  wholeSuffix : List Char
  /-- The fewest digits of an exponent. -/
  exponentDigits : Nat

/-- Digits with the point after the first `point` of them, zeros put where there are none. -/
def positional (digits : List Char) (point : Int) (whole : List Char) : List Char :=
  if point ≤ 0 then '0' :: '.' :: (List.replicate (-point).toNat '0' ++ digits)
  else
    let n := point.toNat
    if digits.length ≤ n then digits ++ List.replicate (n - digits.length) '0' ++ whole
    else digits.take n ++ '.' :: digits.drop n

/-- One digit before the point and the exponent behind. -/
def scientific (digits : List Char) (point : Int) (width : Nat) : List Char :=
  let x := point - 1
  let mag := Nat.toDigits 10 x.natAbs
  let tail := digits.drop 1
  digits.take 1 ++ (if tail.isEmpty then [] else '.' :: tail) ++
    ['e', if x < 0 then '-' else '+'] ++ List.replicate (width - mag.length) '0' ++ mag

/-- The text of a decimal under a spelling. -/
def spell (s : Spelling) (d : Decimal) : List Char :=
  let digits := Nat.toDigits 10 d.digits
  let point := (digits.length : Int) + d.scale
  if s.minPoint < point && point ≤ s.maxPoint then positional digits point s.wholeSuffix
  else scientific digits point s.exponentDigits

end Decimal

namespace Binary64

/-- Numbers from one ten-thousandth up to ten to the sixteenth are written positionally, with a
point in any case; an exponent has two digits at least. -/
def spelling : Decimal.Spelling := ⟨16, -4, ['.', '0'], 2⟩

/-- The text of a number. -/
def text : Binary64 → String
  | nan => "nan"
  | infinite negative => if negative then "-inf" else "inf"
  | finite negative m e =>
    let digits := String.ofList ((Decimal.shortest m e).spell spelling)
    if negative then "-" ++ digits else digits

end Binary64

end Literate
