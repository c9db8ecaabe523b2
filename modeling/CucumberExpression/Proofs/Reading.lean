import CucumberExpression.Glyph
import CucumberExpression.Token.Basic
import CucumberExpression.Proofs.Tiling

namespace CucumberExpression

/-! # Reading glyphs

A token is proper when its text is one that its kind can have and its span is as long as its
spelling. A glyph is a token of one code point. Reading an expression gives the proper glyphs that
spell it, up to the first backslash that escapes nothing. -/

namespace Token

def Kind.Fits : Kind → Text → Prop
  | .space, content => content ≠ [] ∧ ∀ point ∈ content, ofCodePoint point = .space
  | .text, content => content ≠ []
  | kind, content => ∃ symbol, kind.symbol? = some symbol ∧ content = [.char symbol]

theorem Kind.exists_symbol_iff {kind : Kind} {content : Text} :
    (∃ symbol, kind.symbol? = some symbol ∧ content = [.char symbol]) ↔
      kind.symbol?.map (fun symbol => [CodePoint.char symbol]) = some content := by
  simp only [Option.map_eq_some_iff, eq_comm (a := content)]

instance (kind : Kind) (content : Text) : Decidable (kind.Fits content) :=
  match kind with
  | .space => inferInstanceAs (Decidable (_ ≠ _ ∧ ∀ point ∈ content, _ = _))
  | .text => inferInstanceAs (Decidable (_ ≠ _))
  | .lineStart | .lineEnd | .optionalOpen | .optionalClose | .parameterOpen | .parameterClose
  | .separator => decidable_of_iff' _ Kind.exists_symbol_iff

structure Proper (token : Token) : Prop where
  fits : token.kind.Fits token.text
  width : token.stop = token.start + token.spelling.length

theorem Kind.symbol?_of_ofCodePoint {point : CodePoint} (delimiter : ofCodePoint point ≠ .text)
    (visible : ofCodePoint point ≠ .space) :
    ∃ symbol, (ofCodePoint point).symbol? = some symbol ∧ point = .char symbol := by
  cases point with
  | surrogate offset => exact absurd rfl delimiter
  | char c => grind [ofCodePoint, ofChar, symbol?]

theorem Kind.fits_singleton {kind : Kind} {point : CodePoint} :
    kind.Fits [point] ↔ kind = .text ∨ kind = ofCodePoint point := by
  by_cases plain : kind = .text
  · subst plain
    simp [Fits]
  by_cases blank : kind = .space
  · subst blank
    simp [Fits, eq_comm]
  have delimiter :
      kind.Fits [point] ↔ ∃ symbol, kind.symbol? = some symbol ∧ point = .char symbol := by
    cases kind <;> simp_all [Fits]
  rw [delimiter]
  constructor
  · intro delimiter
    obtain ⟨symbol, written, rfl⟩ := delimiter
    exact .inr (ofChar_of_symbol? written).symm
  · rintro (same | rfl)
    · exact absurd same plain
    · exact symbol?_of_ofCodePoint plain blank

theorem isReserved_eq_false {point : CodePoint} (plain : isReserved point = false) :
    point ≠ .char '\\' ∧ Kind.ofCodePoint point = .text := by
  simpa [isReserved] using plain

end Token

namespace Diagnostic

/-- The diagnostic of a backslash that escapes nothing. The column is that of what follows it. -/
def ofStuck (kind : Kind) (expression : Text) (column : Int) : Diagnostic :=
  match kind with
  | .escapedLineEnd =>
      ⟨.escapedLineEnd, expression, column, "The end of line can not be escaped.",
        "You can use '\\\\' to escape the the '\\'"⟩
  | _ =>
      ⟨.unescapable, expression, column,
        "Only the characters '\x7b', '\x7d', '(', ')', '\\', '/' and whitespace can be escaped.",
        "If you did mean to use an '\\' you can use '\\\\' to escape it"⟩

theorem escapedLineEnd_eq_ok (expression : Text) :
    escapedLineEnd expression =
      .ok (ofStuck .escapedLineEnd expression (expression.length + 1)) :=
  new_eq_ok_iff.mpr ⟨by omega, by omega, rfl⟩

theorem unescapable_eq_ok {expression : Text} {index : Nat} (inside : index < expression.length) :
    unescapable expression index = .ok (ofStuck .unescapable expression (index + 1)) :=
  new_eq_ok_iff.mpr ⟨by omega, by omega, rfl⟩

theorem column_ofStuck (kind : Kind) (expression : Text) (column : Int) :
    (ofStuck kind expression column).column = column := by
  cases kind <;> rfl

end Diagnostic

namespace Glyph

def token (glyph : Glyph) : Token :=
  ⟨glyph.kind, [glyph.point], glyph.start, glyph.stop⟩

def spelling (glyph : Glyph) : Text :=
  glyph.token.spelling

def IsEscaped (glyph : Glyph) : Prop :=
  glyph.kind = .text ∧ Token.isReserved glyph.point = true

theorem spelling_escaped {glyph : Glyph} (escaped : glyph.IsEscaped) :
    glyph.spelling = [.char '\\', glyph.point] := by
  simp [spelling, token, Token.spelling, Token.escape, escaped.1, escaped.2]

theorem spelling_unescaped {glyph : Glyph} (unescaped : ¬ glyph.IsEscaped) :
    glyph.spelling = [glyph.point] := by
  obtain ⟨kind, point, start, stop⟩ := glyph
  cases kind <;> simp_all [IsEscaped, spelling, token, Token.spelling, Token.escape]

theorem stop_eq {glyph : Glyph} (proper : glyph.token.Proper) :
    glyph.stop = glyph.start + glyph.spelling.length := by
  have width : (glyph.stop : Int) = glyph.start + glyph.spelling.length := proper.width
  omega

theorem kind_unescaped {glyph : Glyph} (proper : glyph.token.Proper)
    (unescaped : ¬ glyph.IsEscaped) :
    glyph.point ≠ .char '\\' ∧ glyph.kind = Token.Kind.ofCodePoint glyph.point := by
  by_cases plain : glyph.kind = .text
  · have free : Token.isReserved glyph.point = false := by simpa [IsEscaped, plain] using unescaped
    obtain ⟨different, same⟩ := Token.isReserved_eq_false free
    exact ⟨different, plain.trans same.symm⟩
  · have same : glyph.kind = Token.Kind.ofCodePoint glyph.point :=
      (Token.Kind.fits_singleton.mp proper.fits).resolve_left plain
    refine ⟨?_, same⟩
    intro backslash
    rw [backslash] at same
    exact plain (same.trans (by decide))

variable {source : Text}

theorem read_plain {point : CodePoint} (plain : point ≠ .char '\\') (offset : Nat) (rest : Text) :
    read .standard source offset (point :: rest) =
      (read .standard source (offset + 1) rest).map
        (⟨Token.Kind.ofCodePoint point, point, offset, offset + 1⟩ :: ·) := by
  rw [read.eq_def]
  simp only [if_neg plain]
  cases read .standard source (offset + 1) rest <;> rfl

theorem read_escape {classify : Classifier} {point : CodePoint}
    (reserved : Token.isReserved point = true) (offset : Nat) (rest : Text) :
    read classify source offset (.char '\\' :: point :: rest) =
      (read classify source (offset + 2) rest).map (⟨.text, point, offset, offset + 2⟩ :: ·) := by
  rw [read, if_pos rfl]
  simp only [reserved, if_true]
  cases read classify source (offset + 2) rest <;> rfl

theorem read_spelling {glyph : Glyph} (proper : glyph.token.Proper) (rest : Text) :
    read .standard source glyph.start (glyph.spelling ++ rest) =
      (read .standard source glyph.stop rest).map (glyph :: ·) := by
  have width := stop_eq proper
  by_cases escaped : glyph.IsEscaped
  · rw [spelling_escaped escaped] at width ⊢
    obtain ⟨kind, point, start, stop⟩ := glyph
    obtain ⟨rfl, reserved⟩ := escaped
    obtain rfl : stop = start + 2 := width
    exact read_escape reserved start rest
  · rw [spelling_unescaped escaped] at width ⊢
    obtain ⟨plain, same⟩ := kind_unescaped proper escaped
    obtain ⟨kind, point, start, stop⟩ := glyph
    obtain rfl : kind = Token.Kind.ofCodePoint point := same
    obtain rfl : stop = start + 1 := width
    exact read_plain plain start rest

/-- Glyphs that spell a text which begins at an offset. -/
structure Spells (offset : Nat) (glyphs : List Glyph) (text : Text) : Prop where
  proper : ∀ glyph ∈ glyphs, glyph.token.Proper
  tiled : Tiled start stop offset glyphs (offset + text.length)
  written : glyphs.flatMap spelling = text

namespace Spells

variable {offset : Nat} {glyphs others : List Glyph} {text rest : Text}

theorem nil : Spells offset [] [] :=
  ⟨by simp, rfl, rfl⟩

theorem cons {glyph : Glyph} (proper : glyph.token.Proper) (start : glyph.start = offset)
    (spells : Spells glyph.stop glyphs text) :
    Spells offset (glyph :: glyphs) (glyph.spelling ++ text) := by
  subst start
  refine ⟨?_, ⟨rfl, ?_⟩, ?_⟩
  · intro other member
    rcases List.mem_cons.mp member with rfl | member
    · exact proper
    · exact spells.proper other member
  · rw [List.length_append, ← Nat.add_assoc, ← stop_eq proper]
    exact spells.tiled
  · rw [List.flatMap_cons, spells.written]

theorem append (front : Spells offset glyphs text)
    (back : Spells (offset + text.length) others rest) :
    Spells offset (glyphs ++ others) (text ++ rest) := by
  refine ⟨?_, front.tiled.append ?_, ?_⟩
  · intro glyph member
    rcases List.mem_append.mp member with member | member
    · exact front.proper glyph member
    · exact back.proper glyph member
  · rw [List.length_append, ← Nat.add_assoc]
    exact back.tiled
  · rw [List.flatMap_append, front.written, back.written]

theorem of_cons {glyph : Glyph} (spells : Spells offset (glyph :: glyphs) text) :
    glyph.token.Proper ∧ glyph.start = offset ∧
      Spells glyph.stop glyphs (glyphs.flatMap spelling) ∧
      text = glyph.spelling ++ glyphs.flatMap spelling := by
  obtain ⟨proper, ⟨rfl, tiled⟩, rfl⟩ := spells
  have own := proper glyph (by simp)
  refine ⟨own, rfl, ⟨fun other member => proper other (by simp [member]), ?_, rfl⟩, rfl⟩
  rw [List.flatMap_cons, List.length_append, ← Nat.add_assoc, ← stop_eq own] at tiled
  exact tiled

theorem of_append (spells : Spells offset (glyphs ++ others) text) :
    ∃ front back, text = front ++ back ∧ Spells offset glyphs front ∧
      Spells (offset + front.length) others back := by
  induction glyphs generalizing offset text with
  | nil => exact ⟨[], text, rfl, .nil, spells⟩
  | cons glyph rest ih =>
      obtain ⟨proper, rfl, tail, rfl⟩ := of_cons spells
      obtain ⟨front, back, split, first, second⟩ := ih tail
      refine ⟨glyph.spelling ++ front, back, ?_, .cons proper rfl first, ?_⟩
      · rw [split, List.append_assoc]
      · rw [List.length_append, ← Nat.add_assoc, ← stop_eq proper]
        exact second

end Spells

/-- Reading goes on after the glyphs that spell the front of an expression. -/
theorem read_append {offset : Nat} {glyphs : List Glyph} {front : Text}
    (spells : Spells offset glyphs front) (rest : Text) :
    read .standard source offset (front ++ rest) =
      (read .standard source (offset + front.length) rest).map (glyphs ++ ·) := by
  induction glyphs generalizing offset front with
  | nil =>
      obtain rfl : [] = front := spells.written
      rw [List.nil_append, List.length_nil, Nat.add_zero]
      cases read .standard source offset rest <;> rfl
  | cons glyph others ih =>
      obtain ⟨proper, rfl, tail, rfl⟩ := spells.of_cons
      rw [List.append_assoc, read_spelling proper, ih tail, List.length_append, ← Nat.add_assoc,
        ← stop_eq proper]
      cases read .standard source _ rest <;> rfl

/-- What reading cannot get past: a backslash that escapes nothing. -/
inductive Stuck : Diagnostic.Kind → Text → Prop
  | lineEnd : Stuck .escapedLineEnd [.char '\\']
  | unescapable {point : CodePoint} (free : Token.isReserved point = false) (rest : Text) :
      Stuck .unescapable (.char '\\' :: point :: rest)

theorem proper_escaped {point : CodePoint} (reserved : Token.isReserved point = true)
    (offset : Nat) : (⟨.text, point, offset, offset + 2⟩ : Glyph).token.Proper := by
  refine ⟨by simp [token, Token.Kind.Fits], ?_⟩
  simp [token, Token.spelling, Token.escape, reserved]

theorem not_isEscaped {point : CodePoint} (plain : point ≠ .char '\\') (offset : Nat) :
    ¬ (⟨Token.Kind.ofCodePoint point, point, offset, offset + 1⟩ : Glyph).IsEscaped := by
  simp [IsEscaped, Token.isReserved, plain]

theorem proper_unescaped {point : CodePoint} (plain : point ≠ .char '\\') (offset : Nat) :
    (⟨Token.Kind.ofCodePoint point, point, offset, offset + 1⟩ : Glyph).token.Proper := by
  refine ⟨Token.Kind.fits_singleton.mpr (.inr rfl), ?_⟩
  have written := spelling_unescaped (not_isEscaped plain offset)
  simp only [spelling] at written
  rw [written]
  rfl

/-- Every expression is spelled by glyphs up to its end or to where reading gets stuck. -/
theorem exists_spells (offset : Nat) (text : Text) :
    ∃ glyphs front rest, text = front ++ rest ∧ Spells offset glyphs front ∧
      (rest = [] ∨ ∃ kind, Stuck kind rest) := by
  fun_induction read .standard [] offset text with
  | case1 => exact ⟨[], [], [], rfl, .nil, .inl rfl⟩
  | case2 => exact ⟨[], [], _, rfl, .nil, .inr ⟨_, .lineEnd⟩⟩
  | case3 offset point others reserved ih =>
      obtain ⟨glyphs, front, rest, rfl, spells, ending⟩ := ih
      refine ⟨_ :: glyphs, _, rest, ?_, .cons (proper_escaped reserved offset) rfl spells, ending⟩
      rw [spelling_escaped ⟨rfl, reserved⟩]
      rfl
  | case4 offset point others reserved =>
      have free : Token.isReserved point = false := by simpa using reserved
      exact ⟨[], [], _, rfl, .nil, .inr ⟨_, .unescapable free others⟩⟩
  | case5 offset point others plain ih =>
      obtain ⟨glyphs, front, rest, rfl, spells, ending⟩ := ih
      refine ⟨_ :: glyphs, _, rest, ?_, .cons (proper_unescaped plain offset) rfl spells, ending⟩
      rw [spelling_unescaped (not_isEscaped plain offset)]
      rfl

theorem read_of_spells {offset : Nat} {glyphs : List Glyph} {text : Text}
    (spells : Spells offset glyphs text) :
    read .standard source offset text = .ok glyphs := by
  rw [← List.append_nil text, read_append spells []]
  simp [read, Except.map]

theorem Stuck.kind_ofStuck {rest : Text} {kind : Diagnostic.Kind} (stuck : Stuck kind rest)
    (expression : Text) (column : Int) :
    (Diagnostic.ofStuck kind expression column).kind = kind := by
  cases stuck <;> rfl

/-- The diagnostic of a backslash that escapes nothing points at what follows the backslash. -/
theorem read_stuck {glyphs : List Glyph} {front rest : Text} {kind : Diagnostic.Kind}
    (spells : Spells 0 glyphs front) (stuck : Stuck kind rest) :
    read .standard (front ++ rest) 0 (front ++ rest) =
      .error (.diagnosed (.ofStuck kind (front ++ rest) (front.length + 2))) := by
  rw [read_append spells, Nat.zero_add]
  cases stuck with
  | lineEnd =>
      simp only [read, if_true, Diagnostic.escapedLineEnd_eq_ok, List.length_append,
        List.length_singleton, Int.natCast_add, Int.natCast_one, Int.add_assoc]
      rfl
  | @unescapable point free others =>
      have inside : front.length + 1 < (front ++ .char '\\' :: point :: others).length := by
        simp only [List.length_append, List.length_cons]
        omega
      have column : ((front.length + 1 : Nat) : Int) + 1 = front.length + 2 := by omega
      simp only [read, if_true, free, Bool.false_eq_true, if_false]
      rw [← Int.natCast_succ, Diagnostic.unescapable_eq_ok inside, column]
      rfl

theorem read_eq_ok_iff {glyphs : List Glyph} {expression : Text} :
    read .standard expression 0 expression = .ok glyphs ↔ Spells 0 glyphs expression := by
  constructor
  · intro reading
    obtain ⟨others, front, rest, rfl, spells, ending⟩ := exists_spells 0 expression
    rcases ending with rfl | ⟨kind, stuck⟩
    · rw [List.append_nil] at reading ⊢
      rw [read_of_spells spells] at reading
      cases reading
      exact spells
    · rw [read_stuck spells stuck] at reading
      cases reading
  · exact read_of_spells

end Glyph

end CucumberExpression
