/-!
# Binary floating point numbers of 64 bits

A number is kept exactly, as a mantissa times a power of two. A decimal text denotes the nearest
such number; of two equally near ones it is the one with the even mantissa.
-/

namespace Literate

/-- A floating point number: `mantissa · 2 ^ exponent`, an infinity, or no number at all. -/
inductive Binary64 where
  | finite (negative : Bool) (mantissa : Nat) (exponent : Int)
  | infinite (negative : Bool)
  | nan
deriving DecidableEq, Repr

namespace Binary64

/-- The smallest exponent. -/
def minExponent : Int := -1074

/-- The largest exponent. -/
def maxExponent : Int := 971

/-- The quotient rounded to the nearest integer, an exact half to the even one. -/
def roundDiv (num den : Nat) : Nat :=
  let q := num / den
  let twice := 2 * (num % den)
  if twice < den then q
  else if den < twice then q + 1
  else if q % 2 = 0 then q else q + 1

/-- The number of decimal digits. -/
def digitCount (n : Nat) : Nat := (Nat.toDigits 10 n).length

/-- The number nearest to `num / den`. -/
def ofRatio (negative : Bool) (num den : Nat) : Binary64 :=
  if num = 0 then .finite negative 0 minExponent
  else
    let guess : Int := (num.log2 : Int) - (den.log2 : Int) - 53
    let scaled (e : Int) : Nat × Nat :=
      if 0 ≤ e then (num, den * Nat.pow 2 e.toNat) else (num * Nat.pow 2 (-e).toNat, den)
    let fits (e : Int) : Bool := let r := scaled e; r.1 / r.2 < Nat.pow 2 53
    let e := max minExponent (if fits guess then guess else guess + 1)
    let r := scaled e
    let m := roundDiv r.1 r.2
    let (m, e) := if m = Nat.pow 2 53 then (Nat.pow 2 52, e + 1) else (m, e)
    if maxExponent < e then .infinite negative else .finite negative m e

/-- The number nearest to `digits · 10 ^ scale`. -/
def ofDecimal (negative : Bool) (digits : Nat) (scale : Int) : Binary64 :=
  let size := (digitCount digits : Int) + scale
  if digits = 0 || size < -400 then .finite negative 0 minExponent
  else if 400 < size then .infinite negative
  else if 0 ≤ scale then ofRatio negative (digits * Nat.pow 10 scale.toNat) 1
  else ofRatio negative digits (Nat.pow 10 (-scale).toNat)

end Binary64

end Literate
