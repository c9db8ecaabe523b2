namespace CucumberExpression

/-! # Binary floating point

Numbers of the 64-bit binary format, held by value: a finite number is its sign and
`mantissa * 2 ^ exponent`. Rounding is to the nearest number, and to the even mantissa between
two. -/

inductive Binary64 where
  | notANumber
  | infinite (negative : Bool)
  | finite (negative : Bool) (mantissa : Nat) (exponent : Int)
deriving DecidableEq, Repr

namespace Binary64

/-- Mantissas have 53 bits, but for the numbers below `2 ^ (minExponent + 52)`. -/
def precision : Nat := 53

def minExponent : Int := -1074

def maxExponent : Int := 971

/-- A quotient rounded to the nearest integer, a half to the even one. -/
def roundedQuotient (numerator denominator : Nat) : Nat :=
  let quotient := numerator / denominator
  let twice := 2 * (numerator % denominator)
  if twice > denominator || (twice == denominator && quotient % 2 == 1) then quotient + 1
  else quotient

/-- The numerator and denominator of `numerator / denominator / 2 ^ exponent`. -/
def scaled (numerator denominator : Nat) (exponent : Int) : Nat × Nat :=
  (numerator <<< (-exponent).toNat, denominator <<< exponent.toNat)

/-- The exponent of the number nearest to a positive quotient: the least one for which the mantissa
fits the precision. -/
def exponentOf (numerator denominator : Nat) : Int :=
  let low := (numerator.log2 : Int) - denominator.log2 - precision
  let (top, bottom) := scaled numerator denominator low
  let fitting := if top / bottom < 1 <<< precision then low else low + 1
  max fitting minExponent

def ofQuotient (negative : Bool) (numerator denominator : Nat) : Binary64 :=
  if numerator = 0 then finite negative 0 minExponent
  else
    let exponent := exponentOf numerator denominator
    let (top, bottom) := scaled numerator denominator exponent
    let mantissa := roundedQuotient top bottom
    let (mantissa, exponent) :=
      if mantissa = 1 <<< precision then (1 <<< (precision - 1), exponent + 1)
      else (mantissa, exponent)
    if exponent > maxExponent then infinite negative else finite negative mantissa exponent

/-- The number nearest to `digits * 10 ^ exponent`. What is certain to be too large or too small is
settled before any power is computed. -/
def ofDecimal (negative : Bool) (digits : Nat) (exponent : Int) : Binary64 :=
  if digits = 0 then finite negative 0 minExponent
  else if exponent > 400 then infinite negative
  else if (digits.log2 : Int) + 3 * exponent < minExponent - 8 then finite negative 0 minExponent
  else ofQuotient negative (digits * Nat.pow 10 exponent.toNat) (Nat.pow 10 (-exponent).toNat)

def truncate? : Binary64 → Option Int
  | finite negative mantissa exponent =>
      let whole := mantissa <<< exponent.toNat >>> (-exponent).toNat
      some (if negative then -whole else whole)
  | _ => none

/-- Equality of values: zero has two signs, and what is not a number equals nothing. -/
def sameValue : Binary64 → Binary64 → Bool
  | infinite negative, infinite negative' => negative == negative'
  | finite negative mantissa exponent, finite negative' mantissa' exponent' =>
      mantissa == mantissa' && (mantissa == 0 || (exponent == exponent' && negative == negative'))
  | _, _ => false

/-- Whether a number equals an integer exactly. -/
def sameAsInt (number : Binary64) (value : Int) : Bool :=
  match number with
  | finite negative mantissa exponent =>
      let signed : Int := if negative then -mantissa else mantissa
      signed <<< exponent.toNat == value <<< (-exponent).toNat
  | _ => false

end Binary64

end CucumberExpression
