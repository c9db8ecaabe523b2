namespace CucumberExpression.Text

/-! # Hexadecimal numerals

Numerals of a fixed width, written in lower case and read in either case. Reading gives back what
was written whenever the width is large enough (`hexValue?_hexNumeral`). -/

def hexDigit (value : Nat) : Char :=
  if value < 10 then Char.ofNat (48 + value) else Char.ofNat (87 + value)

def hexDigitValue? (c : Char) : Option Nat :=
  let n := c.toNat
  if 48 ≤ n && n ≤ 57 then some (n - 48)
  else if 97 ≤ n && n ≤ 102 then some (n - 87)
  else if 65 ≤ n && n ≤ 70 then some (n - 55)
  else none

/-- The last `width` hexadecimal digits of a number. -/
def hexNumeral : Nat → Nat → List Char
  | 0, _ => []
  | width + 1, n => hexNumeral width (n / 16) ++ [hexDigit (n % 16)]

/-- The value of a numeral whose digits before the given ones are worth `value`. -/
def hexValueFrom? (value : Nat) : List Char → Option Nat
  | [] => some value
  | c :: rest =>
      match hexDigitValue? c with
      | some digit => hexValueFrom? (16 * value + digit) rest
      | none => none

def hexValue? (digits : List Char) : Option Nat :=
  hexValueFrom? 0 digits

theorem hexDigitValue?_hexDigit {value : Nat} (small : value < 16) :
    hexDigitValue? (hexDigit value) = some value := by
  have cases : ∀ digit : Fin 16, hexDigitValue? (hexDigit digit) = some digit.val := by decide
  exact cases ⟨value, small⟩

theorem length_hexNumeral (width n : Nat) : (hexNumeral width n).length = width := by
  induction width generalizing n with
  | zero => rfl
  | succ width ih => simp [hexNumeral, ih]

theorem hexValueFrom?_append (value : Nat) (left right : List Char) :
    hexValueFrom? value (left ++ right) =
      (hexValueFrom? value left).bind (hexValueFrom? · right) := by
  induction left generalizing value with
  | nil => rfl
  | cons c rest ih =>
      simp only [List.cons_append, hexValueFrom?]
      cases hexDigitValue? c with
      | none => rfl
      | some digit => exact ih _

theorem hexValue?_hexNumeral (width n : Nat) (fits : n < Nat.pow 16 width) :
    hexValue? (hexNumeral width n) = some n := by
  induction width generalizing n with
  | zero =>
      have zero : n = 0 := by simpa using fits
      simp [hexNumeral, hexValue?, hexValueFrom?, zero]
  | succ width ih =>
      have smaller : n / 16 < Nat.pow 16 width := by
        apply Nat.div_lt_of_lt_mul
        rwa [Nat.mul_comm]
      have front := ih _ smaller
      simp only [hexValue?] at front
      simp only [hexNumeral, hexValue?, hexValueFrom?_append, front, Option.bind_some,
        hexValueFrom?, hexDigitValue?_hexDigit (Nat.mod_lt n (by decide : 16 > 0)),
        Option.some.injEq]
      omega

end CucumberExpression.Text
