import CucumberExpression.Proofs.Acceptance
import CucumberExpression.Proofs.Escaping

namespace CucumberExpression

/-! # Repair

Every diagnostic advises to put one more backslash into the expression. Following the advice takes
one flaw away, a backslash that escapes nothing or an opening delimiter that is not escaped, and adds
none. So it ends with an expression that can be read. -/

def Text.insertAt (text : Text) (index : Int) (point : CodePoint) : Text :=
  text.take index.toNat ++ point :: text.drop index.toNat

/-- An expression after the advice of its diagnostic was followed. -/
def repair (expression : Text) : Text :=
  match parse expression with
  | .error (.diagnosed diagnostic) =>
      match diagnostic.kind with
      | .escapedLineEnd => expression ++ [.char '\\']
      | .unescapable => expression.insertAt (diagnostic.column - 2) (.char '\\')
      | .unclosed => expression.insertAt (diagnostic.column - 1) (.char '\\')
  | _ => expression

def CodePoint.opens (point : CodePoint) : Prop :=
  point = .char '(' ∨ point = .char '{'

instance : DecidablePred CodePoint.opens :=
  fun _ => inferInstanceAs (Decidable (_ ∨ _))

/-- The number of backslashes that escape nothing and of opening delimiters that are not escaped. -/
def Text.flaws : Text → Nat
  | [] => 0
  | point :: rest =>
      if point = .char '\\' then
        match rest with
        | [] => 1
        | escaped :: others =>
            if Token.isReserved escaped then flaws others else 1 + flaws (escaped :: others)
      else
        (if point.opens then 1 else 0) + flaws rest

namespace Text

variable {offset : Nat} {glyphs : List Glyph} {front rest : Text} {kind : Diagnostic.Kind}

theorem take_insertAt (front rest : Text) (point : CodePoint) :
    insertAt (front ++ rest) front.length point = front ++ point :: rest := by
  rw [insertAt, Int.toNat_natCast, List.take_left, List.drop_left]

theorem flaws_nil : flaws [] = 0 :=
  rfl

theorem flaws_escape {point : CodePoint} (reserved : Token.isReserved point = true) (rest : Text) :
    flaws (.char '\\' :: point :: rest) = flaws rest := by
  rw [flaws, if_pos rfl]
  exact if_pos reserved

theorem flaws_plain {point : CodePoint} (plain : point ≠ .char '\\') (rest : Text) :
    flaws (point :: rest) = (if point.opens then 1 else 0) + flaws rest := by
  rw [flaws.eq_def]
  exact if_neg plain

theorem flaws_append (spells : Glyph.Spells offset glyphs front) (rest : Text) :
    flaws (front ++ rest) = flaws front + flaws rest := by
  induction glyphs generalizing offset front with
  | nil =>
      obtain rfl : [] = front := spells.written
      rw [List.nil_append, flaws, Nat.zero_add]
  | cons glyph others ih =>
      obtain ⟨proper, rfl, tail, rfl⟩ := spells.of_cons
      have single (rest : Text) : flaws (glyph.spelling ++ rest) =
          flaws glyph.spelling + flaws rest := by
        by_cases escaped : glyph.IsEscaped
        · rw [Glyph.spelling_escaped escaped, List.cons_append, List.cons_append, List.nil_append,
            flaws_escape escaped.2, flaws_escape escaped.2, flaws_nil, Nat.zero_add]
        · have plain := (Glyph.kind_unescaped proper escaped).1
          rw [Glyph.spelling_unescaped escaped, List.cons_append, List.nil_append,
            flaws_plain plain, flaws_plain plain, flaws_nil, Nat.add_zero]
      rw [List.append_assoc, single, ih tail, single, Nat.add_assoc]

theorem flaws_le_count (text : Text) :
    text.flaws ≤ text.count (.char '\\') + text.count (.char '(') + text.count (.char '{') := by
  fun_induction flaws text with
  | case1 => exact Nat.zero_le _
  | case2 => simp
  | case3 escaped others reserved ih =>
      simp only [List.count_cons]
      omega
  | case4 escaped others free ih =>
      have bracket : CodePoint.char '\\' ≠ .char '(' := by decide
      have brace : CodePoint.char '\\' ≠ .char '{' := by decide
      rw [List.count_cons_self, List.count_cons_of_ne bracket, List.count_cons_of_ne brace]
      omega
  | case5 point rest plain ih =>
      rw [List.count_cons_of_ne plain]
      split
      · rename_i opens
        rcases opens with rfl | rfl
        · rw [List.count_cons_self, List.count_cons_of_ne (by decide)]
          omega
        · rw [List.count_cons_self, List.count_cons_of_ne (by decide)]
          omega
      · simp only [List.count_cons]
        omega

end Text

section

variable {glyphs : List Glyph} {front rest expression : Text} {kind : Diagnostic.Kind}
  {before after : List Token} {opener : Token} {low high : Int}

theorem Glyph.Stuck.exists_tail (stuck : Glyph.Stuck kind rest) :
    kind ≠ .unclosed ∧ ∃ tail, rest = .char '\\' :: tail ∧ rest.flaws = 1 + Text.flaws tail := by
  cases stuck with
  | lineEnd => exact ⟨by decide, [], rfl, rfl⟩
  | @unescapable point free others =>
      refine ⟨by decide, point :: others, rfl, ?_⟩
      rw [Text.flaws, if_pos rfl]
      simp [free]

theorem Glyph.Spells.escaped {point : CodePoint} (spells : Spells 0 glyphs front)
    (reserved : Token.isReserved point = true) :
    ∃ glyphs, Spells 0 glyphs (front ++ [.char '\\', point]) := by
  have one := Spells.cons (proper_escaped reserved (0 + front.length)) rfl .nil
  rw [spelling_escaped ⟨rfl, reserved⟩] at one
  exact ⟨_, spells.append one⟩

theorem Token.Unclosed.exists_symbol (unclosed : Token.Unclosed before opener after) :
    ∃ symbol, opener.kind.symbol? = some symbol ∧ (CodePoint.char symbol).opens := by
  cases unclosed with
  | outer nested opens missing =>
      cases kind : opener.kind <;> rw [kind] at opens <;> cases opens
      · exact ⟨'(', rfl, .inl rfl⟩
      · exact ⟨'{', rfl, .inr rfl⟩
  | inner nested outside within opens missing closes =>
      rw [opens]
      exact ⟨'{', rfl, .inr rfl⟩

theorem parse_of_stuck (spells : Glyph.Spells 0 glyphs front) (stuck : Glyph.Stuck kind rest) :
    ∃ diagnostic, parse (front ++ rest) = .error (.diagnosed diagnostic) ∧
      diagnostic.kind = kind ∧ diagnostic.column = front.length + 2 :=
  ⟨_, parse_of_tokenize_error (tokenize_stuck spells stuck), stuck.kind_ofStuck _ _,
    Diagnostic.column_ofStuck _ _ _⟩

theorem repair_of_stuck (spells : Glyph.Spells 0 glyphs front) (stuck : Glyph.Stuck kind rest) :
    repair (front ++ rest) = front ++ .char '\\' :: rest := by
  obtain ⟨diagnostic, failed, same, column⟩ := parse_of_stuck spells stuck
  cases stuck with
  | lineEnd => simp [repair, failed, same]
  | unescapable free others =>
      have index : diagnostic.column - 2 = front.length := by omega
      simp only [repair, failed, same, index, Text.take_insertAt]

theorem repair_of_unclosed
    (spells : Token.Spells 0 (before ++ opener :: after) expression.length expression)
    (unclosed : Token.Unclosed before opener after) :
    repair expression = before.flatMap Token.spelling ++
      .char '\\' :: (opener.spelling ++ after.flatMap Token.spelling) := by
  have failed := parse_of_unclosed spells unclosed
  have kind := Diagnostic.kind_ofOpener expression opener
  obtain ⟨middle, front, back, -⟩ := spells.row.of_append
  obtain ⟨-, rfl, -⟩ := back.of_cons
  have index : opener.start + 1 - 1 = (before.flatMap Token.spelling).length := by
    have start := front.high_eq
    omega
  have written := spells.written
  rw [List.flatMap_append, List.flatMap_cons] at written
  simp only [repair, failed, kind, Diagnostic.column_ofOpener, index]
  rw [← written, Text.take_insertAt]

/-- The next backslash that escapes nothing comes behind the one that was doubled. -/
theorem column_of_stuck (spells : Glyph.Spells 0 glyphs front) (tail : Text)
    {diagnostic : Diagnostic} (lexical : diagnostic.kind ≠ .unclosed)
    (failed : parse (front ++ .char '\\' :: .char '\\' :: tail) =
      .error (.diagnosed diagnostic)) : front.length + 3 < diagnostic.column := by
  have reserved : Token.isReserved (.char '\\') = true := by decide
  obtain ⟨escaped, escapedSpells⟩ := spells.escaped reserved
  obtain ⟨others, middle, rest, rfl, middleSpells, ending⟩ := Glyph.exists_spells
    (0 + (front ++ [CodePoint.char '\\', .char '\\']).length) tail
  have longer := escapedSpells.append middleSpells
  have whole : front ++ .char '\\' :: .char '\\' :: (middle ++ rest) =
      front ++ [.char '\\', .char '\\'] ++ middle ++ rest := by simp
  rw [whole] at failed
  rcases ending with rfl | ⟨kind, stuck⟩
  · rw [List.append_nil] at failed
    rcases spelled_cases longer with ⟨node, parsed⟩ | ⟨before, opener, after, spelled, unclosed⟩
    · rw [parsed] at failed
      cases failed
    · rw [parse_of_unclosed spelled unclosed] at failed
      cases failed
      exact absurd (Diagnostic.kind_ofOpener _ _) lexical
  · obtain ⟨diagnostic', failed', -, column⟩ := parse_of_stuck longer stuck
    rw [failed'] at failed
    cases failed
    simp only [List.length_append, List.length_cons, List.length_nil] at column
    omega

/-- The next opening delimiter that is not closed stands behind the one that was escaped, and
nothing else is wrong then. -/
theorem repaired_unclosed
    (spells : Token.Spells 0 (before ++ opener :: after) expression.length expression)
    (unclosed : Token.Unclosed before opener after) :
    (∃ tokens, tokenize (repair expression) = .ok tokens) ∧
      ∀ diagnostic, parse (repair expression) = .error (.diagnosed diagnostic) →
        opener.start + 2 < diagnostic.column := by
  obtain ⟨symbol, written, -⟩ := unclosed.exists_symbol
  obtain ⟨front, left, right, rest, text, isText, behind, spelled, beforeKinds, afterKinds⟩ :=
    spells.row.exists_escaped written
  rw [← repair_of_unclosed spells unclosed] at spelled
  have length := spelled.high_eq
  rw [Int.zero_add] at length
  rw [length] at spelled
  refine ⟨⟨_, tokenize_of_spells spelled⟩, fun diagnostic failed => ?_⟩
  have split (between : List Token) : front ++ [text] ++ between = front ++ text :: between := by
    simp
  rcases unclosed.escaped isText beforeKinds afterKinds with
    nested | ⟨between, next, others, rfl, again⟩
  · rw [split] at nested
    obtain ⟨node, parsed⟩ := exists_parse_of_nested spelled nested
    rw [parsed] at failed
    cases failed
  · have order := spelled.row.stop_le_start
    rw [← split, ← List.append_assoc] at spelled
    rw [parse_of_unclosed spelled again] at failed
    cases failed
    rw [Diagnostic.column_ofOpener]
    omega

theorem flaws_repair (failed : ¬ ∃ node, parse expression = .ok node) :
    (repair expression).flaws + 1 = expression.flaws := by
  rcases failure_cases expression with parsed | ⟨before, opener, after, spells, unclosed⟩ |
    ⟨glyphs, front, rest, kind, rfl, spells, stuck⟩
  · exact absurd parsed failed
  · obtain ⟨symbol, written, opens⟩ := unclosed.exists_symbol
    obtain ⟨middle, front, -, -⟩ := spells.row.of_append
    obtain ⟨glyphs, frontSpells⟩ := front.exists_glyphs
    have proper := spells.row.proper opener (by simp)
    have plain : CodePoint.char symbol ≠ .char '\\' := by
      rcases opens with same | same <;> rw [same] <;> decide
    have source := spells.written
    rw [List.flatMap_append, List.flatMap_cons, Node.spelling_of_symbol proper written] at source
    rw [repair_of_unclosed spells unclosed, Node.spelling_of_symbol proper written, ← source,
      Text.flaws_append frontSpells, Text.flaws_append frontSpells, List.singleton_append,
      Text.flaws_escape (Token.isReserved_of_symbol written), Text.flaws_plain plain, if_pos opens]
    omega
  · obtain ⟨-, tail, rfl, count⟩ := stuck.exists_tail
    rw [repair_of_stuck spells stuck, Text.flaws_append spells, Text.flaws_append spells,
      Text.flaws_escape (by decide), count]
    omega

/-- Following the advice of one diagnostic after the other ends with an expression that is read. -/
theorem exists_iterate_repair (expression : Text) :
    ∃ steps ≤ expression.flaws, ∃ node, parse (repair^[steps] expression) = .ok node := by
  -- The column would not do as a measure: delimiters are only looked at once all escapes are right,
  -- and may stand in front of them.
  by_cases parsed : ∃ node, parse expression = .ok node
  · exact ⟨0, Nat.zero_le _, parsed⟩
  · have fewer := flaws_repair parsed
    obtain ⟨steps, bound, read⟩ := exists_iterate_repair (repair expression)
    exact ⟨steps + 1, by omega, read⟩
termination_by expression.flaws
decreasing_by omega

/-- After each repair the next failure of the same stage lies further on, the repair of an unclosed
delimiter leaves no escape to object to, and the repairs end with an expression that is read, at the
latest when every backslash and every opening delimiter had its turn. -/
theorem repair_succeeds (expression : Text) :
    (∀ error, parse expression = .error error →
      ∃ diagnostic, error = .diagnosed diagnostic ∧
        (∀ next, parse (repair expression) = .error (.diagnosed next) →
          (next.kind = .unclosed ↔ diagnostic.kind = .unclosed) →
          diagnostic.column + 1 < next.column) ∧
        (diagnostic.kind = .unclosed → ∃ tokens, tokenize (repair expression) = .ok tokens)) ∧
      ∃ steps ≤ expression.count (.char '\\') + expression.count (.char '(') +
          expression.count (.char '{'),
        ∃ node, parse (repair^[steps] expression) = .ok node := by
  constructor
  · intro error failed
    rcases failure_cases expression with ⟨node, parsed⟩ | ⟨before, opener, after, spells, unclosed⟩ |
      ⟨glyphs, front, rest, kind, rfl, spells, stuck⟩
    · rw [parsed] at failed
      cases failed
    · rw [parse_of_unclosed spells unclosed] at failed
      cases failed
      obtain ⟨tokenized, further⟩ := repaired_unclosed spells unclosed
      refine ⟨_, rfl, fun next again _ => ?_, fun _ => tokenized⟩
      rw [Diagnostic.column_ofOpener, Int.add_assoc]
      exact further next again
    · obtain ⟨diagnostic, found, same, column⟩ := parse_of_stuck spells stuck
      obtain ⟨lexical, tail, rfl, -⟩ := stuck.exists_tail
      rw [found] at failed
      cases failed
      refine ⟨diagnostic, rfl, fun next again phase => ?_, fun closing => ?_⟩
      · rw [repair_of_stuck spells stuck] at again
        have further := column_of_stuck spells tail
          (fun closing => lexical (same.symm.trans (phase.mp closing))) again
        omega
      · exact absurd (same.symm.trans closing) lexical
  · obtain ⟨steps, bound, read⟩ := exists_iterate_repair expression
    exact ⟨steps, Nat.le_trans bound (Text.flaws_le_count expression), read⟩

theorem repair_succeeds_of_two_openers :
    ∃ first second, parse "(\x7b" = .error (.diagnosed first) ∧
      parse (repair "(\x7b") = .error (.diagnosed second) ∧ first.column + 1 < second.column ∧
      (∃ tokens, tokenize (repair "(\x7b") = .ok tokens) ∧
      ∃ steps ≤ 2, ∃ node, parse (repair^[steps] "(\x7b") = .ok node := by
  let first := Diagnostic.ofOpener "(\x7b" ⟨.optionalOpen, "(", 0, 1⟩
  let second := Diagnostic.ofOpener "\\(\x7b" ⟨.parameterOpen, "\x7b", 2, 3⟩
  have failed : parse "(\x7b" = .error (.diagnosed first) := by decide +kernel
  have again : parse (repair "(\x7b") = .error (.diagnosed second) := by decide +kernel
  obtain ⟨failures, steps, bound, read⟩ := repair_succeeds "(\x7b"
  obtain ⟨diagnostic, same, further, tokenized⟩ := failures _ failed
  cases same
  exact ⟨first, second, failed, again, further second again Iff.rfl, tokenized rfl, steps, bound,
    read⟩

end

end CucumberExpression
