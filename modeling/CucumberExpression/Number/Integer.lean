import CucumberExpression.Text.CodePoint

namespace CucumberExpression

/-! # Integers as text

A numeral is decimal digits of any script, single underscores between them, after an optional sign
and with white space around it.

The limit on the digits of a numeral holds for what is read. The environment has a limit for what is
written as well, a setting that can be lifted. It is left out: messages, labels, displays and lenient
JSON text hold integers of any length. -/

namespace Text

/-! ## Decimal digits

The characters of the Unicode category Nd. They come in runs of ten, each in the order of its
values, so a run is known by its zero. -/

/-- The zeros of the runs of decimal digits, in code point order. -/
def zeros : List Nat := [
  0x30, 0x660, 0x6f0, 0x7c0, 0x966, 0x9e6, 0xa66, 0xae6, 0xb66, 0xbe6, 0xc66, 0xce6, 0xd66,
  0xde6, 0xe50, 0xed0, 0xf20, 0x1040, 0x1090, 0x17e0, 0x1810, 0x1946, 0x19d0, 0x1a80, 0x1a90,
  0x1b50, 0x1bb0, 0x1c40, 0x1c50, 0xa620, 0xa8d0, 0xa900, 0xa9d0, 0xa9f0, 0xaa50, 0xabf0, 0xff10,
  0x104a0, 0x10d30, 0x11066, 0x110f0, 0x11136, 0x111d0, 0x112f0, 0x11450, 0x114d0, 0x11650,
  0x116c0, 0x11730, 0x118e0, 0x11950, 0x11c50, 0x11d50, 0x11da0, 0x16a60, 0x16ac0, 0x16b50,
  0x1d7ce, 0x1d7d8, 0x1d7e2, 0x1d7ec, 0x1d7f6, 0x1e140, 0x1e2f0, 0x1e950, 0x1fbf0]

/-- The value of a decimal digit, in whatever script it is written. -/
def digitValue? (c : Char) : Option Nat :=
  (zeros.find? fun low => low ≤ c.toNat && c.toNat < low + 10).map (c.toNat - ·)

theorem digitValue?_lt {c : Char} {value : Nat} (digit : digitValue? c = some value) :
    value < 10 := by
  obtain ⟨low, found, rfl⟩ := Option.map_eq_some_iff.mp digit
  have bounds := List.find?_some found
  simp only [Bool.and_eq_true, decide_eq_true_eq] at bounds
  omega

end Text

namespace Integer

/-! ## Numerals -/

/-- The longest numeral that is accepted, in digits. -/
def digitLimit : Nat := 4300

/-- The digits of a numeral, underscores left out. -/
def digits? : List Char → Option (List Nat)
  | [] => none
  | [c] => (Text.digitValue? c).map ([·])
  | c :: '_' :: rest => do
      let digit ← Text.digitValue? c
      let others ← digits? rest
      return digit :: others
  | c :: rest => do
      let digit ← Text.digitValue? c
      let others ← digits? rest
      return digit :: others

def ofDigits (digits : List Nat) : Nat :=
  digits.foldl (fun value digit => 10 * value + digit) 0

def magnitude? (cs : List Char) : Option Nat := do
  let digits ← digits? cs
  if digits.length ≤ digitLimit then return ofDigits digits else none

def signed? : List Char → Option Int
  | '-' :: rest => (magnitude? rest).map fun value => -(value : Int)
  | '+' :: rest => (magnitude? rest).map Int.ofNat
  | rest => (magnitude? rest).map Int.ofNat

def trim (cs : List Char) : List Char :=
  ((cs.dropWhile Text.isWhiteSpace).reverse.dropWhile Text.isWhiteSpace).reverse

def ofText? (text : Text) : Option Int := do
  let cs ← text.chars?
  signed? (trim cs)

end Integer

end CucumberExpression
