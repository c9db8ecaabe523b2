import CucumberExpression.Proofs.Partition

namespace CucumberExpression

/-! # Lexemes

A lexeme is what a token says wherever it stands: a kind, and a text that the kind can have.
Tokenizing cuts an expression into lexemes where their spellings stand. Whatever lexemes are spelled
one after the other are read back, unless two neighbours could be one token. -/

structure Lexeme where
  kind : Token.Kind
  text : Text
  fits : kind.Fits text

namespace Lexeme

def token (lexeme : Lexeme) (offset : Int) : Token :=
  ⟨lexeme.kind, lexeme.text, offset,
    offset + (Token.spelling ⟨lexeme.kind, lexeme.text, 0, 0⟩).length⟩

def spelling (lexeme : Lexeme) : Text :=
  (lexeme.token 0).spelling

/-- Neighbours that could not be one token. -/
def Apart (left right : Lexeme) : Prop :=
  ¬ (left.kind = right.kind ∧ left.kind.isRun = true)

def spell (lexemes : List Lexeme) : Text :=
  lexemes.flatMap spelling

/-- The tokens of lexemes that are spelled from an offset on. -/
def tokensFrom : Int → List Lexeme → List Token
  | _, [] => []
  | offset, lexeme :: rest =>
      lexeme.token offset :: tokensFrom (offset + lexeme.spelling.length) rest

theorem proper_token (lexeme : Lexeme) (offset : Int) : (lexeme.token offset).Proper :=
  ⟨lexeme.fits, rfl⟩

theorem seam_tokensFrom {lexeme : Lexeme} {rest : List Lexeme}
    (apart : (lexeme :: rest).IsChain Apart) (offset next : Int) :
    Token.Seam [lexeme.token offset] (tokensFrom next rest) := by
  intro last lastMember first firstMember
  obtain rfl : lexeme.token offset = last := by simpa using lastMember
  cases rest with
  | nil => cases firstMember
  | cons second rest =>
      obtain rfl : second.token next = first := by simpa [tokensFrom] using firstMember
      exact (List.isChain_cons_cons.mp apart).1

theorem spells_tokensFrom {lexemes : List Lexeme} (apart : lexemes.IsChain Apart) (offset : Int) :
    Token.Spells offset (tokensFrom offset lexemes) (offset + (spell lexemes).length)
      (spell lexemes) := by
  induction lexemes generalizing offset with
  | nil =>
      have same : offset + (spell []).length = offset := Int.add_zero offset
      rw [same]
      exact ⟨.nil, rfl⟩
  | cons lexeme rest ih =>
      have first : Token.Spells offset [lexeme.token offset] (offset + lexeme.spelling.length)
          lexeme.spelling :=
        ⟨.singleton (lexeme.proper_token offset), List.flatMap_singleton ..⟩
      have whole := first.append (ih apart.tail _) (seam_tokensFrom apart offset _)
      rw [Int.add_assoc, ← Int.natCast_add, ← List.length_append] at whole
      exact whole

end Lexeme

variable {expression : Text} {tokens : List Token}

/-- The tokens of an expression between the line markers share it out without a gap. Each is spelled
where it stands, has a text of its kind, and could not be one with its neighbour. -/
theorem tokens_of_tokenize (tokenized : tokenize expression = .ok tokens) :
    ∃ inner : List Token,
      tokens = ⟨.lineStart, [], 0, 0⟩ ::
        (inner ++ [⟨.lineEnd, [], expression.length, expression.length⟩]) ∧
      Tiled Token.start Token.stop 0 inner expression.length ∧
      inner.IsChain Token.Apart ∧
      ∀ token ∈ inner, token.kind ≠ .lineStart ∧ token.kind ≠ .lineEnd ∧
        token.start < token.stop ∧ token.kind.Fits token.text ∧
        expression.slice token.start token.stop = token.spelling := by
  obtain ⟨inner, rfl, spells⟩ := tokenize_eq_ok_iff.mp tokenized
  refine ⟨inner, rfl, spells.row.tiled, spells.row.apart, ?_⟩
  intro token member
  have proper := spells.row.proper token member
  obtain ⟨before, after, rfl, start, -⟩ := spells.exists_split member
  refine ⟨proper.fits.not_marker.1, proper.fits.not_marker.2, proper.start_lt_stop, proper.fits, ?_⟩
  rw [proper.width, start]
  exact Text.slice_append before token.spelling after

/-- An escaped blank is text, with its backslash in the span. -/
theorem tokens_of_tokenize_of_escaped_blank :
    ∃ inner : List Token,
      tokenize "a\\ b  \x7b" =
        .ok (⟨.lineStart, [], 0, 0⟩ :: (inner ++ [⟨.lineEnd, [], 7, 7⟩])) ∧
      inner = [⟨.text, "a b", 0, 4⟩, ⟨.space, "  ", 4, 6⟩, ⟨.parameterOpen, "\x7b", 6, 7⟩] ∧
      Tiled Token.start Token.stop 0 inner 7 ∧ inner.IsChain Token.Apart ∧
      ∀ token ∈ inner, token.kind.Fits token.text ∧
        Text.slice "a\\ b  \x7b" token.start token.stop = token.spelling := by
  have tokenized : tokenize "a\\ b  \x7b" = .ok [⟨.lineStart, [], 0, 0⟩, ⟨.text, "a b", 0, 4⟩,
      ⟨.space, "  ", 4, 6⟩, ⟨.parameterOpen, "\x7b", 6, 7⟩, ⟨.lineEnd, [], 7, 7⟩] := by
    decide +kernel
  obtain ⟨inner, same, tiled, apart, each⟩ := tokens_of_tokenize tokenized
  refine ⟨inner, tokenized.trans (congrArg Except.ok same), ?_, tiled, apart, ?_⟩
  · have between := congrArg (fun tokens : List Token => tokens.tail.dropLast) same
    simp only [List.tail_cons, List.dropLast_concat] at between
    exact between.symm
  · intro token member
    obtain ⟨-, -, -, fits, slice⟩ := each token member
    exact ⟨fits, slice⟩

/-- Lexemes that are spelled one after the other are the tokens of what they spell. -/
theorem tokenize_spell {lexemes : List Lexeme} (apart : lexemes.IsChain Lexeme.Apart) :
    tokenize (Lexeme.spell lexemes) =
      .ok (Token.withMarkers (Lexeme.spell lexemes).length (Lexeme.tokensFrom 0 lexemes)) := by
  have spells := Lexeme.spells_tokensFrom apart 0
  rw [Int.zero_add] at spells
  exact tokenize_of_spells spells

/-- Text of delimiters, a backslash and a blank stays text next to a delimiter and a blank. -/
theorem tokenize_spell_of_delimiters :
    ∃ lexemes : List Lexeme,
      lexemes.map (fun lexeme => (lexeme.kind, lexeme.text)) =
        [(.text, ("(/\\ " : Text)), (.optionalOpen, "("), (.space, " \t"), (.text, "x")] ∧
      lexemes.IsChain Lexeme.Apart ∧
      Lexeme.spell lexemes = "\\(\\/\\\\\\ ( \tx" ∧
      tokenize "\\(\\/\\\\\\ ( \tx" =
        .ok [⟨.lineStart, [], 0, 0⟩, ⟨.text, "(/\\ ", 0, 8⟩, ⟨.optionalOpen, "(", 8, 9⟩,
          ⟨.space, " \t", 9, 11⟩, ⟨.text, "x", 11, 12⟩, ⟨.lineEnd, [], 12, 12⟩] := by
  let lexemes : List Lexeme := [⟨.text, "(/\\ ", by decide⟩, ⟨.optionalOpen, "(", by decide⟩,
    ⟨.space, " \t", by decide⟩, ⟨.text, "x", by decide⟩]
  have apart : lexemes.IsChain Lexeme.Apart := by
    simp [lexemes, Lexeme.Apart]
  have spelled : Lexeme.spell lexemes = "\\(\\/\\\\\\ ( \tx" := by
    decide +kernel
  have read := tokenize_spell apart
  rw [spelled] at read
  refine ⟨lexemes, rfl, apart, spelled, read.trans ?_⟩
  decide +kernel

end CucumberExpression
