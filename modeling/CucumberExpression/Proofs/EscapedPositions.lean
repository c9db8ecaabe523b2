import CucumberExpression.Proofs.Stages
import Mathlib.Algebra.Ring.Parity
import Mathlib.Data.List.DropRight

namespace CucumberExpression

/-! # Escaped positions

A position of an expression is escaped when an odd number of backslashes ends in front of it. No
glyph begins or ends at such a position, so reading gets stuck exactly where one is the end of the
expression or holds what has no need of a backslash. -/

namespace Text

/-- Whether a text ends with a backslash that escapes what comes next. -/
def Escapes (front : Text) : Prop :=
  Odd (front.rtakeWhile (· == .char '\\')).length

def EscapedAt (text : Text) (index : Nat) : Prop :=
  Escapes (text.take index)

/-- Whether a position is escaped and what it holds may not be. -/
def OffendsAt (text : Text) (index : Nat) : Prop :=
  text.EscapedAt index ∧ ∃ point ∈ text[index]?, Token.isReserved point = false

instance : DecidablePred Escapes :=
  fun _ => inferInstanceAs (Decidable (Odd _))

instance (text : Text) : DecidablePred text.EscapedAt :=
  fun _ => inferInstanceAs (Decidable (Escapes _))

instance (text : Text) : DecidablePred text.OffendsAt :=
  fun _ => inferInstanceAs (Decidable (_ ∧ ∃ point ∈ _, _))

variable {front before text : Text} {point : CodePoint} {index : Nat}

theorem not_escapes_nil : ¬ Escapes [] := by
  decide

theorem escapes_concat : Escapes (front ++ [point]) ↔ point = .char '\\' ∧ ¬ Escapes front := by
  rw [Escapes, Escapes, List.rtakeWhile_concat]
  by_cases backslash : point = .char '\\'
  · simp [backslash, Nat.odd_add_one]
  · simp [backslash]

theorem escapedAt_append_length (front rest : Text) :
    EscapedAt (front ++ rest) front.length ↔ Escapes front := by
  rw [EscapedAt, List.take_left]

/-- An offending position tells an expression apart into what stands before, at and behind it. -/
theorem offendsAt_iff : text.OffendsAt index ↔
    ∃ left point right, text = left ++ point :: right ∧ left.length = index ∧ Escapes left ∧
      Token.isReserved point = false := by
  constructor
  · intro offends
    obtain ⟨escaped, point, there, free⟩ := offends
    obtain ⟨inside, rfl⟩ := List.getElem?_eq_some_iff.mp there
    refine ⟨text.take index, text[index], text.drop (index + 1), ?_, ?_, escaped, free⟩
    · rw [List.getElem_cons_drop, List.take_append_drop]
    · exact List.length_take_of_le (Nat.le_of_lt inside)
  · intro split
    obtain ⟨left, point, right, rfl, rfl, escapes, free⟩ := split
    exact ⟨(escapedAt_append_length ..).mpr escapes, point, by simp, free⟩

theorem OffendsAt.lt_length (offends : text.OffendsAt index) : index < text.length := by
  obtain ⟨-, point, there, -⟩ := offends
  exact (List.getElem?_eq_some_iff.mp there).1

end Text

namespace Glyph

variable {offset : Nat} {glyph : Glyph} {glyphs : List Glyph} {before front rest : Text}
  {kind : Diagnostic.Kind}

theorem not_escapes_spelling (proper : glyph.token.Proper) (clear : ¬ before.Escapes) :
    ¬ Text.Escapes (before ++ glyph.spelling) := by
  by_cases escaped : glyph.IsEscaped
  · rw [spelling_escaped escaped, List.append_cons, Text.escapes_concat, Text.escapes_concat]
    simp [clear]
  · rw [spelling_unescaped escaped, Text.escapes_concat]
    simp [(kind_unescaped proper escaped).1]

theorem Spells.not_escapes (spells : Spells offset glyphs front) (clear : ¬ before.Escapes) :
    ¬ Text.Escapes (before ++ front) := by
  induction glyphs generalizing offset front before with
  | nil =>
      obtain rfl : [] = front := spells.written
      rw [List.append_nil]
      exact clear
  | cons glyph others ih =>
      obtain ⟨proper, -, tail, rfl⟩ := spells.of_cons
      rw [← List.append_assoc]
      exact ih tail (not_escapes_spelling proper clear)

/-- What glyphs escape may be escaped. -/
theorem Spells.reserved {left right : Text} {point : CodePoint}
    (spells : Spells offset glyphs (left ++ point :: right)) (clear : ¬ before.Escapes)
    (escapes : Text.Escapes (before ++ left)) : Token.isReserved point = true := by
  induction glyphs generalizing offset left before with
  | nil => simpa using spells.written
  | cons glyph others ih =>
      obtain ⟨proper, -, tail, written⟩ := spells.of_cons
      have next := not_escapes_spelling proper clear
      obtain _ | ⟨first, left⟩ := left
      · rw [List.append_nil] at escapes
        exact absurd escapes clear
      by_cases escaped : glyph.IsEscaped
      · rw [spelling_escaped escaped] at written next
        obtain _ | ⟨second, left⟩ := left
        · obtain ⟨-, rfl, -⟩ : _ ∧ point = glyph.point ∧ _ := by simpa using written
          exact escaped.2
        · obtain ⟨rfl, rfl, same⟩ : first = .char '\\' ∧ second = glyph.point ∧ _ := by
            simpa using written
          rw [← same] at tail
          exact ih tail next (by simpa using escapes)
      · rw [spelling_unescaped escaped] at written next
        obtain ⟨rfl, same⟩ : first = glyph.point ∧ _ := by simpa using written
        rw [← same] at tail
        exact ih tail next (by simpa using escapes)

/-- Reading does not get past an offending position. -/
theorem Spells.not_offendsAt {index : Nat} (spells : Spells 0 glyphs front) (rest : Text)
    (bound : index ≤ front.length) : ¬ Text.OffendsAt (front ++ rest) index := by
  intro offends
  rcases Nat.lt_or_eq_of_le bound with inside | rfl
  · obtain ⟨escaped, point, there, free⟩ := offends
    rw [List.getElem?_append_left inside] at there
    rw [Text.EscapedAt, List.take_append_of_le_length bound] at escaped
    have within : front.OffendsAt index := ⟨escaped, point, there, free⟩
    obtain ⟨left, point, right, rfl, -, escapes, free⟩ := Text.offendsAt_iff.mp within
    rw [spells.reserved Text.not_escapes_nil escapes] at free
    cases free
  · exact spells.not_escapes Text.not_escapes_nil
      ((Text.escapedAt_append_length front rest).mp offends.1)

theorem Spells.escapes_concat (spells : Spells 0 glyphs front) :
    Text.Escapes (front ++ [.char '\\']) :=
  Text.escapes_concat.mpr ⟨rfl, spells.not_escapes Text.not_escapes_nil⟩

end Glyph

section

variable {expression front others : Text} {glyphs : List Glyph} {point : CodePoint}

theorem spelled_positions (spells : Glyph.Spells 0 glyphs expression) :
    (∀ index, ¬ expression.OffendsAt index) ∧ ¬ expression.EscapedAt expression.length := by
  constructor
  · intro index offends
    have clear := spells.not_offendsAt [] (Nat.le_of_lt offends.lt_length)
    rw [List.append_nil] at clear
    exact clear offends
  · rw [Text.EscapedAt, List.take_length]
    exact spells.not_escapes Text.not_escapes_nil

theorem lineEnd_positions (spells : Glyph.Spells 0 glyphs front) :
    (∀ index, ¬ Text.OffendsAt (front ++ [.char '\\']) index) ∧
      Text.EscapedAt (front ++ [.char '\\']) (front ++ [CodePoint.char '\\']).length := by
  constructor
  · intro index offends
    have inside := offends.lt_length
    rw [List.length_append, List.length_singleton] at inside
    exact spells.not_offendsAt _ (Nat.le_of_lt_succ inside) offends
  · rw [Text.EscapedAt, List.take_length]
    exact spells.escapes_concat

theorem unescapable_position (spells : Glyph.Spells 0 glyphs front)
    (free : Token.isReserved point = false) :
    Text.OffendsAt (front ++ .char '\\' :: point :: others) (front.length + 1) :=
  Text.offendsAt_iff.mpr ⟨front ++ [.char '\\'], point, others, by simp, by simp,
    spells.escapes_concat, free⟩

/-- Tokenizing fails at the first position that is escaped and may not be, else at the end if that is
escaped, else not at all, and reading fails with it whatever delimiters are not closed. -/
theorem tokenize_cases (expression : Text) :
    (∀ index, expression.OffendsAt index →
      ∃ least ≤ index, expression.OffendsAt least ∧
        (∀ earlier < least, ¬ expression.OffendsAt earlier) ∧
        ∃ diagnostic : Diagnostic, diagnostic.kind = .unescapable ∧
          diagnostic.column = least + 1 ∧
          tokenize expression = .error (.diagnosed diagnostic) ∧
          parse expression = .error (.diagnosed diagnostic)) ∧
      ((∀ index, ¬ expression.OffendsAt index) → expression.EscapedAt expression.length →
        ∃ diagnostic : Diagnostic, diagnostic.kind = .escapedLineEnd ∧
          diagnostic.column = expression.length + 1 ∧
          tokenize expression = .error (.diagnosed diagnostic) ∧
          parse expression = .error (.diagnosed diagnostic)) ∧
      ((∀ index, ¬ expression.OffendsAt index) → ¬ expression.EscapedAt expression.length →
        ∃ tokens, tokenize expression = .ok tokens) := by
  obtain ⟨glyphs, front, rest, rfl, spells, rfl | ⟨kind, stuck⟩⟩ :=
    Glyph.exists_spells 0 expression
  · rw [List.append_nil]
    obtain ⟨clear, unescaped⟩ := spelled_positions spells
    refine ⟨fun index offends => absurd offends (clear index),
      fun _ escaped => absurd escaped unescaped, fun _ _ => ?_⟩
    have cut := spells.ofGlyphs
    rw [Nat.zero_add] at cut
    exact ⟨_, tokenize_of_spells cut⟩
  have failed := tokenize_stuck spells stuck
  have both := And.intro failed (parse_of_tokenize_error failed)
  cases stuck with
  | lineEnd =>
      obtain ⟨clear, escaped⟩ := lineEnd_positions spells
      refine ⟨fun index offends => absurd offends (clear index), fun _ _ => ?_,
        fun _ unescaped => absurd escaped unescaped⟩
      refine ⟨_, rfl, ?_, both⟩
      rw [Diagnostic.column_ofStuck, List.length_append, List.length_singleton]
      omega
  | @unescapable point free others =>
      have there : Text.OffendsAt (front ++ .char '\\' :: point :: others) (front.length + 1) :=
        unescapable_position spells free
      refine ⟨fun index offends => ?_, fun clear => absurd there (clear _),
        fun clear => absurd there (clear _)⟩
      have before (index : Nat) (bound : index < front.length + 1) :=
        spells.not_offendsAt (.char '\\' :: point :: others) (Nat.le_of_lt_succ bound)
      refine ⟨front.length + 1, ?_, there, before, _, rfl, ?_, both⟩
      · by_contra outside
        exact before index (Nat.lt_of_not_le outside) offends
      · rw [Diagnostic.column_ofStuck]
        omega

/-- The bracket is not closed and the end is escaped, but what is reported is the letter. -/
theorem tokenize_cases_of_escaped_letter :
    ∃ diagnostic : Diagnostic, diagnostic.kind = .unescapable ∧ diagnostic.column = 3 ∧
      tokenize "(\\a\\" = .error (.diagnosed diagnostic) ∧
      parse "(\\a\\" = .error (.diagnosed diagnostic) := by
  obtain ⟨fails, -, -⟩ := tokenize_cases "(\\a\\"
  obtain ⟨least, bound, offends, -, diagnostic, kind, column, failed⟩ := fails 2 (by decide)
  obtain rfl | rfl | rfl : least = 0 ∨ least = 1 ∨ least = 2 := by omega
  · exact absurd offends (by decide)
  · exact absurd offends (by decide)
  · exact ⟨diagnostic, kind, column, failed⟩

end

end CucumberExpression
