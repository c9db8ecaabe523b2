namespace CucumberExpression.Text

/-! # Surrogate pairs

A character past U+FFFF is two code units of sixteen bits, its high and its low surrogate. Pairing
the surrogates of a character gives the character back (`pairedChar_surrogates`). -/

def isHighSurrogate (unit : Nat) : Bool :=
  0xd800 ≤ unit && unit < 0xdc00

def isLowSurrogate (unit : Nat) : Bool :=
  0xdc00 ≤ unit && unit < 0xe000

def highSurrogate (c : Char) : Nat :=
  0xd800 + (c.toNat - 0x10000) / 0x400

def lowSurrogate (c : Char) : Nat :=
  0xdc00 + (c.toNat - 0x10000) % 0x400

def pairedChar (high low : Nat) : Char :=
  Char.ofNat (0x10000 + (high - 0xd800) * 0x400 + (low - 0xdc00))

theorem toNat_lt (c : Char) : c.toNat < 0x110000 := by
  have bounds : c.toNat < 0xd800 ∨ 0xdfff < c.toNat ∧ c.toNat < 0x110000 := c.valid
  omega

theorem isHighSurrogate_highSurrogate (c : Char) : isHighSurrogate (highSurrogate c) = true := by
  have bound := toNat_lt c
  have low : 0xd800 ≤ highSurrogate c := Nat.le_add_right _ _
  have high : highSurrogate c < 0xdc00 := by
    simp only [highSurrogate]
    omega
  simp [isHighSurrogate, low, high]

theorem isLowSurrogate_lowSurrogate (c : Char) : isLowSurrogate (lowSurrogate c) = true := by
  have low : 0xdc00 ≤ lowSurrogate c := Nat.le_add_right _ _
  have high : lowSurrogate c < 0xe000 := by
    simp only [lowSurrogate]
    omega
  simp [isLowSurrogate, low, high]

theorem isHighSurrogate_toNat (c : Char) : isHighSurrogate c.toNat = false := by
  have bounds : c.toNat < 0xd800 ∨ 0xdfff < c.toNat ∧ c.toNat < 0x110000 := c.valid
  simp only [isHighSurrogate, Bool.and_eq_false_iff, decide_eq_false_iff_not]
  omega

theorem isLowSurrogate_toNat (c : Char) : isLowSurrogate c.toNat = false := by
  have bounds : c.toNat < 0xd800 ∨ 0xdfff < c.toNat ∧ c.toNat < 0x110000 := c.valid
  simp only [isLowSurrogate, Bool.and_eq_false_iff, decide_eq_false_iff_not]
  omega

theorem pairedChar_surrogates {c : Char} (wide : 0x10000 ≤ c.toNat) :
    pairedChar (highSurrogate c) (lowSurrogate c) = c := by
  have bound := toNat_lt c
  have value : 0x10000 + (highSurrogate c - 0xd800) * 0x400 + (lowSurrogate c - 0xdc00) =
      c.toNat := by
    simp only [highSurrogate, lowSurrogate]
    omega
  rw [pairedChar, value, Char.ofNat_toNat]

end CucumberExpression.Text
