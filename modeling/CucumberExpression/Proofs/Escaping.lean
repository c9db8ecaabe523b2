import CucumberExpression.Proofs.Nesting
import CucumberExpression.Proofs.TreeRow

namespace CucumberExpression.Token

/-! # Escaping

A backslash before an opening token makes text of it, together with the text around it, and moves
what stands behind it along. If the token was not closed, all up to the new text is in order, and the
next token that is not closed stands behind it. -/

def shift (distance : Int) (token : Token) : Token :=
  { token with start := token.start + distance, stop := token.stop + distance }

theorem spelling_shift (distance : Int) (token : Token) :
    (token.shift distance).spelling = token.spelling :=
  rfl

variable {tokens before after front rest : List Token} {opener : Token} {symbol : Char}
  {low high : Int}

theorem Row.shift (row : Row low tokens high) (distance : Int) :
    Row (low + distance) (tokens.map (Token.shift distance)) (high + distance) := by
  obtain ⟨proper, apart, tiled⟩ := row
  refine ⟨?_, ?_, ?_⟩
  · intro token member
    obtain ⟨original, inside, rfl⟩ := List.mem_map.mp member
    obtain ⟨fits, width⟩ := proper original inside
    refine ⟨fits, ?_⟩
    rw [spelling_shift]
    simp only [Token.shift]
    omega
  · rw [List.isChain_map]
    exact apart
  · rw [Tiled.map_iff]
    clear proper apart
    induction tokens generalizing low with
    | nil => exact congrArg (· + distance) tiled
    | cons token others ih => exact ⟨congrArg (· + distance) tiled.1, ih tiled.2⟩

theorem map_kind_shift (tokens : List Token) (distance : Int) :
    (tokens.map (shift distance)).map kind = tokens.map kind := by
  rw [List.map_map]
  rfl

def textKind (content : Text) : List Kind :=
  if content = [] then [] else [.text]

/-- A row and the text that it ends with. -/
theorem Row.split_last_text (row : Row low tokens high) :
    ∃ front content, Row low front (high - (escape content).length) ∧
      tokens.flatMap spelling = front.flatMap spelling ++ escape content ∧
      (∀ last ∈ front.getLast?, last.kind ≠ .text) ∧
      tokens.map kind = front.map kind ++ textKind content := by
  by_cases ends : ∀ last ∈ tokens.getLast?, last.kind ≠ .text
  · exact ⟨tokens, [], by simpa [escape] using row, by simp [escape], ends, by simp [textKind]⟩
  · push Not at ends
    obtain ⟨last, member, isText⟩ := ends
    obtain ⟨init, rfl⟩ := List.getLast?_eq_some_iff.mp member
    obtain ⟨middle, front, back, seam⟩ := row.of_append
    obtain ⟨proper, rfl, stop⟩ := back.of_cons
    have written : last.spelling = escape last.text := by rw [spelling, isText]
    refine ⟨init, last.text, ?_, ?_, ?_, ?_⟩
    · have width := proper.width
      have same : last.stop = high := stop.tiled
      rw [written] at width
      have start : last.start = high - (escape last.text).length := by omega
      rw [← start]
      exact front
    · rw [List.flatMap_append, List.flatMap_singleton, written]
    · intro other otherLast isText'
      exact seam other otherLast last (by simp) ⟨isText'.trans isText.symm, by rw [isText']; rfl⟩
    · rw [List.map_append, textKind, if_neg proper.fits.ne_nil, List.map_singleton, isText]

theorem Row.split_first_text (row : Row low tokens high) :
    ∃ content rest, Row (low + (escape content).length) rest high ∧
      tokens.flatMap spelling = escape content ++ rest.flatMap spelling ∧
      (∀ first ∈ rest.head?, first.kind ≠ .text) ∧
      tokens.map kind = textKind content ++ rest.map kind := by
  by_cases begins : ∀ first ∈ tokens.head?, first.kind ≠ .text
  · exact ⟨[], tokens, by simpa [escape] using row, by simp [escape], begins, by simp [textKind]⟩
  · push Not at begins
    obtain ⟨first, member, isText⟩ := begins
    obtain ⟨rest, rfl⟩ := List.head?_eq_some_iff.mp member
    rw [← List.singleton_append] at row
    obtain ⟨-, -, -, seam⟩ := row.of_append
    obtain ⟨proper, rfl, tail⟩ := row.of_cons
    have written : first.spelling = escape first.text := by rw [spelling, isText]
    refine ⟨first.text, rest, ?_, ?_, ?_, ?_⟩
    · have width := proper.width
      rw [written] at width
      rw [← width]
      exact tail
    · rw [List.flatMap_cons, written]
    · intro other otherFirst isText'
      exact seam first (by simp) other otherFirst
        ⟨isText.trans isText'.symm, by rw [isText]; rfl⟩
    · rw [List.map_cons, textKind, if_neg proper.fits.ne_nil, isText]
      rfl

theorem isReserved_of_symbol {kind : Kind} (written : kind.symbol? = some symbol) :
    isReserved (.char symbol) = true := by
  have same : Kind.ofCodePoint (.char symbol) = kind := Kind.ofChar_of_symbol? written
  rw [isReserved, same]
  cases kind <;> cases written <;> rfl

/-- A text between what neither ends nor begins with one. -/
theorem Row.surround {text : Token} (frontRow : Row low front text.start) (proper : text.Proper)
    (isText : text.kind = .text) (restRow : Row text.stop rest high)
    (frontEnds : ∀ last ∈ front.getLast?, last.kind ≠ .text)
    (restBegins : ∀ first ∈ rest.head?, first.kind ≠ .text) :
    Row low (front ++ text :: rest) high := by
  have back : Row text.start ([text] ++ rest) high := by
    apply (Row.singleton proper).append restRow
    intro last lastMember first firstMember joined
    obtain rfl : text = last := by simpa using lastMember
    exact restBegins first firstMember (joined.1.symm.trans isText)
  apply frontRow.append back
  intro last lastMember first firstMember joined
  obtain rfl : text = first := by simpa using firstMember
  exact frontEnds last lastMember (joined.1.trans isText)

/-- The row of an expression with one of its delimiters escaped. The delimiter is in a text that goes
as far as there is text around it. -/
theorem Row.exists_escaped (row : Row low (before ++ opener :: after) high)
    (written : opener.kind.symbol? = some symbol) :
    ∃ front left right rest, ∃ text : Token, text.kind = .text ∧ opener.start + 2 ≤ text.stop ∧
      Spells low (front ++ text :: rest) (high + 1) (before.flatMap spelling ++
        .char '\\' :: (opener.spelling ++ after.flatMap spelling)) ∧
      before.map kind = front.map kind ++ textKind left ∧
      after.map kind = textKind right ++ rest.map kind := by
  obtain ⟨middle, beforeRow, back, -⟩ := row.of_append
  obtain ⟨proper, rfl, afterRow⟩ := back.of_cons
  obtain ⟨front, left, frontRow, beforeWritten, frontEnds, beforeKinds⟩ :=
    beforeRow.split_last_text
  obtain ⟨right, rest, restRow, afterWritten, restBegins, afterKinds⟩ := afterRow.split_first_text
  have openerWritten := Node.spelling_of_symbol proper written
  have width := proper.width
  rw [openerWritten, List.length_singleton] at width
  have escaped : escape (left ++ .char symbol :: right) =
      escape left ++ .char '\\' :: .char symbol :: escape right := by
    simp [escape, isReserved_of_symbol written]
  let text : Token := ⟨.text, left ++ .char symbol :: right,
    opener.start - (escape left).length, opener.stop + (escape right).length + 1⟩
  have textWritten : text.spelling = escape left ++ .char '\\' :: .char symbol :: escape right :=
    escaped
  have textProper : text.Proper := by
    refine ⟨by simp [text, Kind.Fits], ?_⟩
    rw [textWritten]
    simp only [text, List.length_append, List.length_cons]
    omega
  have shiftedBegins : ∀ first ∈ (rest.map (Token.shift 1)).head?, first.kind ≠ .text := by
    intro first member
    rw [List.head?_map] at member
    obtain ⟨original, begins, rfl⟩ := Option.map_eq_some_iff.mp member
    exact restBegins original begins
  refine ⟨front, left, right, rest.map (Token.shift 1), text, rfl, ?_, ⟨?_, ?_⟩, beforeKinds, ?_⟩
  · simp only [text]
    omega
  · exact frontRow.surround textProper rfl (restRow.shift 1) frontEnds shiftedBegins
  · have shifted : (rest.map (Token.shift 1)).flatMap spelling = rest.flatMap spelling := by
      rw [List.flatMap_map]
      rfl
    rw [List.flatMap_append, List.flatMap_cons, shifted, textWritten, beforeWritten, afterWritten,
      openerWritten]
    simp
  · rw [map_kind_shift]
    exact afterKinds

/-- Behind tokens that are in order, either all is or what comes next is not closed. -/
theorem nesting_behind (nested : Nested nesting front) (rest : List Token) :
    Nested nesting (front ++ rest) ∨
      ∃ between opener after, rest = between ++ opener :: after ∧
        Unclosed (front ++ between) opener after := by
  rcases nesting_cases rest with restNested | ⟨between, opener, after, split, unclosed⟩
  · exact .inl (nested.star_trans restNested)
  · exact .inr ⟨between, opener, after, split, unclosed.append nested⟩

/-- An optional is closed, and all behind it is in order or not, whatever is not closed inside. -/
theorem nesting_behind_optional {outer : Token} {content : List Token}
    (nested : Nested nesting front) (outside : outer.kind = .optionalOpen)
    (within : Nested optionalContent content) (closed : ∃ token ∈ rest, token.kind = .optionalClose) :
    Nested nesting (front ++ outer :: content ++ rest) ∨
      ∃ between opener after, rest = between ++ opener :: after ∧
        Unclosed (front ++ outer :: content ++ between) opener after := by
  cases found : cut .optionalClose rest with
  | none =>
      obtain ⟨token, member, closes⟩ := closed
      exact absurd closes (cut_eq_none_iff.mp found token member)
  | some cut =>
      obtain ⟨inside, closer, tail⟩ := cut
      obtain ⟨rfl, closes, without⟩ := cut_eq_some_iff.mp found
      rcases content_cases inside without with
        insideNested | ⟨between, opener, more, rfl, betweenNested, opens, missing⟩
      · have whole : Nested optionalContent (content ++ inside) := within.star_trans insideNested
        have optional := Nested.nesting_optional
          ⟨outside, closes, whole.content_inside⟩ whole
        have split : front ++ outer :: content ++ (inside ++ closer :: tail) =
            (front ++ outer :: (content ++ inside ++ [closer])) ++ tail := by simp
        rcases nesting_behind (nested.star_trans optional.star_single) tail with
          all | ⟨between, opener, after, rfl, unclosed⟩
        · rw [split]
          exact .inl all
        · refine .inr ⟨inside ++ closer :: between, opener, after, by simp, ?_⟩
          simpa using unclosed
      · refine .inr ⟨between, opener, more ++ closer :: tail, by simp, ?_⟩
        rw [List.append_assoc, List.cons_append]
        refine .inner nested outside (within.star_trans betweenNested) opens ?_ closes
        intro token member
        simpa using ⟨missing token member, without token (by simp [member])⟩

/-- Once a token that is not closed is text, only tokens behind it may not be closed. -/
theorem Unclosed.escaped {text : Token} {left right : Text} (unclosed : Unclosed before opener after)
    (isText : text.kind = .text) (beforeKinds : before.map kind = front.map kind ++ textKind left)
    (afterKinds : after.map kind = textKind right ++ rest.map kind) :
    Nested nesting (front ++ [text] ++ rest) ∨
      ∃ between opener after, rest = between ++ opener :: after ∧
        Unclosed (front ++ [text] ++ between) opener after := by
  -- The text that was in front of the token, if any, is part of the new one.
  obtain ⟨extra, extraText, same⟩ : ∃ extra, (extra = [] ∨ extra = [text]) ∧
      (front ++ [text]).map kind = (before ++ extra).map kind := by
    simp only [List.map_append, beforeKinds, textKind]
    split
    · exact ⟨[text], .inr rfl, by simp⟩
    · exact ⟨[], .inl rfl, by simp [isText]⟩
  cases unclosed with
  | outer nested opens missing =>
      have extraNested : Nested nesting extra := by
        rcases extraText with rfl | rfl
        · exact Nested.star_nil
        · exact (Nested.nesting_token (by simp [isText]) (by simp [isText])).star_single
      exact nesting_behind ((nested.star_trans extraNested).of_kinds same) rest
  | @inner before content inside after outer opener closer nested outside within opens missing
      closes =>
      have extraNested : Nested optionalContent extra := by
        rcases extraText with rfl | rfl
        · exact Nested.star_nil
        · exact (Nested.content_token (by simp [isText]) (by simp [isText])).star_single
      rw [List.append_assoc, List.cons_append] at same
      obtain ⟨before', back, split, beforeSame, backSame⟩ :=
        List.map_eq_append_iff.mp (same.trans List.map_append)
      obtain ⟨outer', content', rfl, outerSame, contentSame⟩ := List.map_eq_cons_iff.mp backSame
      have closed : ∃ token ∈ rest, token.kind = .optionalClose := by
        have member : Kind.optionalClose ∈ textKind right ++ rest.map kind := by
          rw [← afterKinds]
          simp [closes]
        rcases List.mem_append.mp member with member | member
        · rw [textKind] at member
          split at member <;> simp at member
        · exact List.mem_map.mp member
      rw [split]
      exact nesting_behind_optional (nested.of_kinds beforeSame) (outerSame.trans outside)
        ((within.star_trans extraNested).of_kinds contentSame) closed

end CucumberExpression.Token
