import CucumberExpression.Number.Binary64

namespace CucumberExpression

/-! # Shortest decimals

The text of a floating-point number has the fewest digits that read back as the number, and of those
the digits nearest to it. On the grid of decimals with a given number of digits only the two
neighbours of the number have to be tried: if any point of the grid reads back, one of them does. -/

structure Decimal where
  digits : Nat
  exponent : Int
deriving DecidableEq, Repr

namespace Binary64

/-- The decimals that read back as a number, in quarters of its last place: from `low` to `high`,
the ends included for an even mantissa. -/
structure Window where
  low : Nat
  value : Nat
  high : Nat
  closed : Bool
  exponent : Int

/-- Below a power of two the next number is only half as far away. -/
def window (mantissa : Nat) (exponent : Int) : Window where
  low := if mantissa = 1 <<< (precision - 1) ∧ exponent > minExponent then 4 * mantissa - 1
    else 4 * mantissa - 2
  value := 4 * mantissa
  high := 4 * mantissa + 2
  closed := mantissa % 2 == 0
  exponent := exponent - 2

/-- The point of the grid with step `10 ^ step` that reads back and is nearest to the number. -/
def Window.gridPoint? (window : Window) (step : Int) : Option Nat :=
  let unit := Nat.pow 10 (-step).toNat <<< window.exponent.toNat
  let grid := Nat.pow 10 step.toNat <<< (-window.exponent).toNat
  let below := window.value * unit / grid
  let above := below + 1
  let inside (point : Nat) : Bool :=
    if window.closed then window.low * unit ≤ point * grid && point * grid ≤ window.high * unit
    else window.low * unit < point * grid && point * grid < window.high * unit
  let down := window.value * unit - below * grid
  let up := above * grid - window.value * unit
  match inside below, inside above with
  | true, true => some (if down < up || (down == up && below % 2 == 0) then below else above)
  | true, false => some below
  | false, true => some above
  | false, false => none

/-- The least power of ten above a number, from an estimate that is at most two too low. -/
def decimalPoint (window : Window) : Int :=
  let estimate := ((window.value.log2 : Int) + window.exponent) * 1233 / 4096
  let exceeds (power : Int) : Bool :=
    window.value * Nat.pow 10 (-power).toNat <<< window.exponent.toNat <
      Nat.pow 10 power.toNat <<< (-window.exponent).toNat
  if exceeds estimate then estimate
  else if exceeds (estimate + 1) then estimate + 1
  else estimate + 2

/-- The first hit among the grids of `count`, `count + 1`, … digits, `fuel` grids in all. -/
def Window.search (window : Window) (point : Int) (count : Nat) : Nat → Decimal
  | 0 => ⟨window.value, window.exponent⟩
  | fuel + 1 =>
      match window.gridPoint? (point - count) with
      | some digits => ⟨digits, point - count⟩
      | none => window.search point (count + 1) fuel

/-- Seventeen digits always suffice. -/
def shortest (mantissa : Nat) (exponent : Int) : Decimal :=
  let window := window mantissa exponent
  window.search (decimalPoint window) 1 17

def digitChars (n : Nat) : List Char :=
  Nat.toDigits 10 n

/-- An exponent has a sign and two digits or more. -/
def exponentText (exponent : Int) : List Char :=
  let digits := digitChars exponent.natAbs
  (if exponent < 0 then '-' else '+') :: (if digits.length < 2 then '0' :: digits else digits)

/-- Decimals from `10 ^ -4` up to `10 ^ 16` are written by position, with a digit on both sides of
the point; all others with an exponent after one digit. -/
def decimalText (decimal : Decimal) : List Char :=
  let raw := digitChars decimal.digits
  let digits := (raw.reverse.dropWhile (· == '0')).reverse
  let point : Int := raw.length + decimal.exponent
  if -4 < point && point ≤ 16 then
    if point ≤ 0 then
      '0' :: '.' :: List.replicate (-point).toNat '0' ++ digits
    else
      let whole := digits.take point.toNat
      let fraction := digits.drop point.toNat
      whole ++ List.replicate (point.toNat - digits.length) '0' ++ '.' ::
        (if fraction.isEmpty then ['0'] else fraction)
  else
    digits.take 1 ++ (if digits.length > 1 then '.' :: digits.drop 1 else []) ++
      'e' :: exponentText (point - 1)

def text : Binary64 → String
  | notANumber => "nan"
  | infinite negative => if negative then "-inf" else "inf"
  | finite negative mantissa exponent =>
      let magnitude :=
        if mantissa = 0 then ['0', '.', '0'] else decimalText (shortest mantissa exponent)
      String.ofList (if negative then '-' :: magnitude else magnitude)

end Binary64

end CucumberExpression
