import Mathlib.Data.List.Basic
import Mathlib.Tactic.SplitIfs
import CucumberExpression.Text.Quoted
import CucumberExpression.Text.Surrogate

namespace CucumberExpression.Text

/-! # Reading quoted text

A text is known by its display between quotation marks: the first code point can be read off what
stands behind the opening mark, whatever follows it, and the closing mark is never taken for one. -/

variable {mark : Char} {point : CodePoint} {left right : Text}

def readNumeric? (width : Nat) (cs : List Char) : Option (CodePoint × List Char) :=
  (hexValue? (cs.take width)).map fun number => (.ofNumber number, cs.drop width)

/-- The code point of what follows a backslash, and the rest. -/
def readEscape? : List Char → Option (CodePoint × List Char)
  | [] => none
  | c :: rest =>
      if c = 'x' then readNumeric? 2 rest
      else if c = 'u' then readNumeric? 4 rest
      else if c = 'U' then readNumeric? 8 rest
      else if c = 'n' then some (.char '\n', rest)
      else if c = 'r' then some (.char '\r', rest)
      else if c = 't' then some (.char '\t', rest)
      else some (.char c, rest)

/-- The first code point of quoted text, and the rest. -/
def readPoint? : List Char → Option (CodePoint × List Char)
  | [] => none
  | c :: rest => if c = '\\' then readEscape? rest else some (.char c, rest)

theorem readNumeric?_hexNumeral {width number : Nat} (fits : number < Nat.pow 16 width)
    (rest : List Char) :
    readNumeric? width (hexNumeral width number ++ rest) = some (.ofNumber number, rest) := by
  have length := length_hexNumeral width number
  rw [readNumeric?, List.take_left' length, List.drop_left' length, hexValue?_hexNumeral _ _ fits]
  rfl

theorem readPoint?_numericEscape (point : CodePoint) (rest : List Char) :
    readPoint? (numericEscape point.number ++ rest) = some (point, rest) := by
  have bound : point.number < 0x110000 := by
    cases point with
    | char c => exact toNat_lt c
    | surrogate offset =>
        have small := offset.isLt
        simp only [CodePoint.number]
        omega
  have digits {width : Nat} (fits : point.number < Nat.pow 16 width) :
      readNumeric? width (hexNumeral width point.number ++ rest) = some (point, rest) := by
    rw [readNumeric?_hexNumeral fits, CodePoint.ofNumber_number]
  unfold numericEscape
  split_ifs with short middling
  · exact digits short
  · exact digits middling
  · exact digits (Nat.lt_trans bound (by decide))

theorem readPoint?_quotedChar (isMark : mark = '\x27' ∨ mark = '\x22') (c : Char)
    (rest : List Char) : readPoint? (quotedChar mark c ++ rest) = some (.char c, rest) := by
  unfold quotedChar
  split_ifs with escaped lineFeed carriageReturn tab printable
  · -- Neither the mark nor the backslash is a letter that an escape begins with.
    rw [Bool.or_eq_true, decide_eq_true_eq, decide_eq_true_eq] at escaped
    rcases escaped with rfl | rfl
    · rcases isMark with rfl | rfl <;> rfl
    · rfl
  · rw [lineFeed]
    rfl
  · rw [carriageReturn]
    rfl
  · rw [tab]
    rfl
  · have plain : c ≠ '\\' := by
      rintro rfl
      simp at escaped
    exact if_neg plain
  · exact readPoint?_numericEscape (.char c) rest

theorem readPoint?_quotedPoint (isMark : mark = '\x27' ∨ mark = '\x22') (point : CodePoint)
    (rest : List Char) : readPoint? (quotedPoint mark point ++ rest) = some (point, rest) := by
  cases point with
  | char c => exact readPoint?_quotedChar isMark c rest
  | surrogate offset => exact readPoint?_numericEscape (.surrogate offset) rest

theorem quotationMark_cases (text : Text) :
    quotationMark text = '\x27' ∨ quotationMark text = '\x22' := by
  unfold quotationMark
  split
  · exact .inr rfl
  · exact .inl rfl

/-- The mark never begins a quoted point. -/
theorem exists_quotedPoint_cons (isMark : mark = '\x27' ∨ mark = '\x22') (point : CodePoint) :
    ∃ c others, quotedPoint mark point = c :: others ∧ c ≠ mark := by
  have backslash : '\\' ≠ mark := by
    rcases isMark with rfl | rfl <;> decide
  have numeric (number : Nat) : ∃ others, numericEscape number = '\\' :: others := by
    unfold numericEscape
    split_ifs <;> exact ⟨_, rfl⟩
  cases point with
  | surrogate offset =>
      obtain ⟨others, same⟩ := numeric (CodePoint.surrogate offset).number
      exact ⟨_, others, same, backslash⟩
  | char c =>
      rw [quotedPoint]
      unfold quotedChar
      split_ifs with escaped
      · exact ⟨_, _, rfl, backslash⟩
      · exact ⟨_, _, rfl, backslash⟩
      · exact ⟨_, _, rfl, backslash⟩
      · exact ⟨_, _, rfl, backslash⟩
      · refine ⟨_, _, rfl, ?_⟩
        rintro rfl
        simp at escaped
      · obtain ⟨others, same⟩ := numeric c.toNat
        exact ⟨_, others, same, backslash⟩

theorem flatMap_quotedPoint_injective (isMark : mark = '\x27' ∨ mark = '\x22')
    (same : left.flatMap (quotedPoint mark) ++ [mark] = right.flatMap (quotedPoint mark) ++ [mark]) :
    left = right := by
  have ends (point : CodePoint) (rest : Text) :
      [mark] ≠ (point :: rest).flatMap (quotedPoint mark) ++ [mark] := by
    obtain ⟨c, others, front, different⟩ := exists_quotedPoint_cons isMark point
    rw [List.flatMap_cons, front]
    exact fun closed => different (List.cons.inj closed).1.symm
  induction left generalizing right with
  | nil =>
      cases right with
      | nil => rfl
      | cons point rest => exact absurd same (ends point rest)
  | cons point rest ih =>
      cases right with
      | nil => exact absurd same.symm (ends point rest)
      | cons other others =>
          rw [List.flatMap_cons, List.flatMap_cons, List.append_assoc, List.append_assoc] at same
          have read := congrArg readPoint? same
          rw [readPoint?_quotedPoint isMark, readPoint?_quotedPoint isMark, Option.some.injEq,
            Prod.mk.injEq] at read
          rw [read.1, ih read.2]

theorem quotedChars_injective (same : quotedChars left = quotedChars right) : left = right := by
  obtain ⟨marks, behind⟩ := List.cons.inj same
  rw [← marks] at behind
  exact flatMap_quotedPoint_injective (quotationMark_cases left) behind

end CucumberExpression.Text
