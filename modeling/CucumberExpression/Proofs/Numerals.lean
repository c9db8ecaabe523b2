import Mathlib.Data.List.Basic
import CucumberExpression.Json.Reader
import CucumberExpression.Json.Writer

namespace CucumberExpression.Json

/-! # Integers in JSON text

A written integer is decimal digits after an optional sign. The reader takes them all, and no other
form of a value starts in the same way. -/

variable {dialect : Dialect} {rest : Text} {value : Int}

/-- Whether a number that stands in front of a text ends there. -/
def NumberEnds (rest : Text) : Prop :=
  ∀ point ∈ rest.head?,
    asciiDigit? point = none ∧ point ∉ [.char '.', .char 'e', .char 'E']

theorem NumberEnds.fraction? (ends : NumberEnds rest) : fraction? rest = none := by
  cases rest with
  | nil => rfl
  | cons point rest =>
      have other : point ≠ .char '.' := by
        have := (ends point rfl).2
        simp_all
      unfold Json.fraction?
      split
      · rename_i same
        cases same
        exact absurd rfl other
      · rfl

theorem NumberEnds.exponent? (ends : NumberEnds rest) : exponent? rest = none := by
  cases rest with
  | nil => rfl
  | cons point rest =>
      have other : ¬ (point = .char 'e' ∨ point = .char 'E') := by
        have := (ends point rfl).2
        simp_all
      simp only [Json.exponent?, if_neg other]

theorem NumberEnds.digitRun (ends : NumberEnds rest) : digitRun rest = ([], rest) := by
  cases rest with
  | nil => rfl
  | cons point rest => simp only [Json.digitRun, (ends point rfl).1]

theorem digitRun_append {digits : List Char} (decimal : ∀ c ∈ digits, c.isDigit = true)
    (ends : NumberEnds rest) :
    digitRun (Text.ofChars digits ++ rest) = (digits.map (·.toNat - 48), rest) := by
  induction digits with
  | nil => exact ends.digitRun
  | cons c digits ih =>
      have first : asciiDigit? (.char c) = some (c.toNat - 48) := by
        simp only [asciiDigit?, decimal c List.mem_cons_self, if_true]
      have others := ih fun c member => decimal c (List.mem_cons_of_mem _ member)
      rw [Text.ofChars_cons, List.cons_append, Json.digitRun]
      simp only [first, others, List.map_cons]

theorem ofDigits_toDigits (magnitude : Nat) :
    Integer.ofDigits ((Nat.toDigits 10 magnitude).map (·.toNat - 48)) = magnitude := by
  have read : Nat.ofDigitChars 10 (Nat.toDigits 10 magnitude) 0 = magnitude :=
    Nat.ofDigitChars_ten_toDigits
  rw [Nat.ofDigitChars_eq_foldl] at read
  rw [Integer.ofDigits, List.foldl_map]
  exact read

theorem isDigit_of_mem_toDigits {magnitude : Nat} {c : Char}
    (member : c ∈ Nat.toDigits 10 magnitude) : c.isDigit = true :=
  Nat.isDigit_of_mem_toDigits (by decide) (by decide) member

theorem mem_toList_repr {number : Int} {c : Char} (member : c ∈ number.repr.toList) :
    c = '-' ∨ c.isDigit := by
  have digits {count : Nat} (member : c ∈ count.repr.toList) : c.isDigit = true := by
    rw [Nat.toList_repr] at member
    exact isDigit_of_mem_toDigits member
  rw [Int.repr_eq_if] at member
  split at member
  · exact .inr (digits member)
  · rw [String.toList_append, List.mem_append] at member
    rcases member with sign | member
    · exact .inl (List.mem_singleton.mp sign)
    · exact .inr (digits member)

/-- Only zero is written with a zero in front. -/
theorem eq_zero_of_head_toDigits {magnitude : Nat}
    (front : (Nat.toDigits 10 magnitude).head? = some '0') : magnitude = 0 := by
  induction magnitude using Nat.strongRecOn with
  | ind magnitude ih =>
      by_cases small : magnitude < 10
      · rw [Nat.toDigits_of_lt_base small] at front
        have single : ∀ digit : Fin 10, Nat.digitChar digit = '0' → digit.val = 0 := by decide
        exact single ⟨magnitude, small⟩ (Option.some.inj front)
      · -- The first digit of a longer number is that of its tenth.
        rw [Nat.toDigits_of_base_le (by decide) (Nat.not_lt.mp small), List.head?_append,
          List.head?_eq_some_head Nat.toDigits_ne_nil, Option.some_or,
          ← List.head?_eq_some_head] at front
        have zero := ih (magnitude / 10) (by omega) front
        omega

theorem inMachineRange_iff :
    inMachineRange value = true ↔ -(1 <<< 63) ≤ value ∧ value < 1 <<< 64 := by
  simp [inMachineRange]

theorem integerValue_toDigits (dialect : Dialect) {negative : Bool} {magnitude : Nat}
    (fits : inMachineRange (if negative then -magnitude else magnitude) = true) :
    integerValue dialect negative ((Nat.toDigits 10 magnitude).map (·.toNat - 48)) =
      .ok (.integer (if negative then -magnitude else magnitude)) := by
  have few : (Nat.toDigits 10 magnitude).length ≤ 20 := by
    rw [Nat.length_toDigits_le_iff (by decide) (by decide)]
    have bounds := inMachineRange_iff.mp fits
    cases negative <;> simp at bounds <;> omega
  have allowed : (Nat.toDigits 10 magnitude).length ≤ Integer.digitLimit :=
    Nat.le_trans few (by decide)
  cases dialect with
  | strict => simp only [integerValue, ofDigits_toDigits, fits, if_true]
  | lenient => simp only [integerValue, ofDigits_toDigits, List.length_map, allowed, if_true]

theorem readMagnitude_toDigits (dialect : Dialect) (negative : Bool) (magnitude : Nat)
    (fits : inMachineRange (if negative then -magnitude else magnitude) = true)
    (ends : NumberEnds rest) :
    readMagnitude dialect negative (Text.ofChars (Nat.toDigits 10 magnitude) ++ rest) =
      .ok (.integer (if negative then -magnitude else magnitude), rest) := by
  have whole := integerValue_toDigits dialect fits
  have run := digitRun_append (fun c (member : c ∈ Nat.toDigits 10 magnitude) =>
    isDigit_of_mem_toDigits member) ends
  cases same : Nat.toDigits 10 magnitude with
  | nil => exact absurd same Nat.toDigits_ne_nil
  | cons c others =>
      rw [same] at whole run
      rw [Text.ofChars_cons, List.cons_append] at run ⊢
      unfold readMagnitude
      split
      · rename_i rest' front
        obtain ⟨first, remaining⟩ := List.cons.inj front
        obtain rfl : c = '0' := CodePoint.char.inj first
        obtain rfl : magnitude = 0 := eq_zero_of_head_toDigits (by rw [same]; rfl)
        obtain rfl : others = [] := (List.cons.inj same).2.symm
        replace remaining : rest = rest' := remaining
        replace whole : integerValue dialect negative [0] = _ := whole
        simp only [bind, Except.bind, ← remaining, ends.fraction?, ends.exponent?, whole]
        rfl
      · rw [List.map_cons] at whole run
        simp only [bind, Except.bind, run, ends.fraction?, ends.exponent?, whole]
        rfl

/-- The names of values begin with two characters that are no digits. -/
theorem named?_eq_none {text : Text} {c : Char} (digit : c.isDigit = true)
    (front : .char c ∈ text.take 2) : named? dialect text = none := by
  have names : ∀ name ∈ dialect.named,
      2 ≤ name.1.toList.length ∧ (name.1.toList.take 2).all (!·.isDigit) = true := by
    cases dialect <;> decide
  rw [named?, List.findSome?_eq_none_iff]
  intro name member
  rw [Option.map_eq_none_iff, Option.eq_none_iff_forall_ne_some]
  intro rest found
  obtain rfl := List.append_eq_of_isPrefixOf?_eq_some found
  obtain ⟨long, letters⟩ := names name member
  have whole : 2 ≤ (Text.ofString name.1).length := by
    rwa [Text.ofString, Text.ofChars, List.length_map]
  rw [List.take_append_of_le_length whole, Text.ofString, Text.ofChars, ← List.map_take] at front
  obtain ⟨letter, early, same⟩ := List.mem_map.mp front
  obtain rfl : letter = c := CodePoint.char.inj same
  have other := List.all_eq_true.mp letters letter early
  rw [digit] at other
  cases other

/-- An integer begins with a digit, or with a sign and a digit. -/
theorem writeInteger_cases (value : Int) :
    ∃ c others, c.isDigit = true ∧
      (writeInteger value = c :: others ∨ writeInteger value = '-' :: c :: others) := by
  obtain ⟨c, others, same⟩ := List.exists_cons_of_ne_nil
    (Nat.toDigits_ne_nil (n := value.natAbs) (b := 10))
  refine ⟨c, others, isDigit_of_mem_toDigits (same ▸ List.mem_cons_self), ?_⟩
  rw [writeInteger, same]
  split
  · exact .inr rfl
  · exact .inl rfl

theorem named?_writeInteger (dialect : Dialect) (value : Int) (rest : Text) :
    named? dialect (Text.ofChars (writeInteger value) ++ rest) = none := by
  obtain ⟨c, others, digit, same | same⟩ := writeInteger_cases value <;>
    exact named?_eq_none digit (by simp [same])

theorem readNumber_writeInteger (dialect : Dialect) (fits : inMachineRange value = true)
    (ends : NumberEnds rest) :
    readNumber dialect (Text.ofChars (writeInteger value) ++ rest) = .ok (.integer value, rest) := by
  by_cases negative : value < 0
  · have same : -(value.natAbs : Int) = value := by omega
    have read := fun fits => readMagnitude_toDigits dialect true value.natAbs fits ends
    simp only [if_true, same] at read
    rw [writeInteger, if_pos negative]
    exact read fits
  · have same : (value.natAbs : Int) = value := by omega
    have read := fun fits => readMagnitude_toDigits dialect false value.natAbs fits ends
    simp only [Bool.false_eq_true, if_false, same] at read
    rw [writeInteger, if_neg negative, ← read fits]
    cases digits : Nat.toDigits 10 value.natAbs with
    | nil => exact absurd digits Nat.toDigits_ne_nil
    | cons c others =>
        have digit : c.isDigit = true := isDigit_of_mem_toDigits (digits ▸ List.mem_cons_self)
        unfold readNumber
        split
        · rename_i front
          cases front
          cases digit
        · rfl

end CucumberExpression.Json
