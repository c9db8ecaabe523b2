import CucumberExpression.Proofs.Ordering
import CucumberExpression.Proofs.Stopping

namespace CucumberExpression

/-! # Acceptance

Reading goes through exactly when the kinds of the tokens are nested, and otherwise points at the one
opening token that is not closed. So it is for the tokens of an expression, and for all others that
are in order. -/

section

variable {expression : Text} {opener : Token} {before after : List Token} {low high : Int}

/-- Where tokens are in order, an opening token that is not closed is what reading stops at. -/
theorem Token.Unclosed.stops (unclosed : Token.Unclosed before opener after)
    (ordered : Token.Ordered low (before ++ opener :: after) high) (nonnegative : 0 ≤ low) :
    Item.Stops opener (before ++ opener :: after) := by
  cases unclosed with
  | outer nested opens missing =>
      obtain ⟨middle, front, -⟩ := Spaced.append_iff.mp ordered
      obtain ⟨items, reads⟩ := Item.exists_reads nested front nonnegative
      exact .outer reads opens missing
  | @inner before content inside after outer opener closer nested outside within opens missing
      closes =>
      have split : before ++ outer :: content ++ opener :: (inside ++ closer :: after) =
          before ++ outer :: ((content ++ opener :: inside) ++ closer :: after) := by simp
      rw [split] at ordered ⊢
      obtain ⟨middle, front, back⟩ := Spaced.append_iff.mp ordered
      obtain ⟨items, reads⟩ := Item.exists_reads nested front nonnegative
      obtain ⟨-, -, between, -⟩ := Token.Ordered.of_brackets back
      obtain ⟨border, start, -⟩ := Spaced.append_iff.mp between
      have valid := ordered.valid nonnegative outer (by simp)
      obtain ⟨nodes, readsContent⟩ := Node.exists_readsContent within start valid.nonnegative
      have brackets : Token.Brackets .optionalOpen .optionalClose outer
          (content ++ opener :: inside) closer := by
        refine ⟨outside, closes, fun token member => ?_⟩
        rcases List.mem_append.mp member with member | member
        · exact within.content_inside token member
        rcases List.mem_cons.mp member with rfl | member
        · simp [opens]
        · exact fun closing => missing token member (by simp [closing])
      have unmatched : ∀ token ∈ inside, token.kind ≠ .parameterClose :=
        fun token member closing => missing token member (by simp [closing])
      exact .inner reads brackets (.behind readsContent opens unmatched)

theorem Item.ofTokens_of_unclosed (unclosed : Token.Unclosed before opener after)
    (ordered : Token.Ordered low (before ++ opener :: after) high) (nonnegative : 0 ≤ low)
    (bound : opener.start ≤ expression.length) :
    ofTokens expression (before ++ opener :: after) =
      .error (.diagnosed (Diagnostic.ofOpener expression opener)) := by
  have valid := ordered.valid nonnegative opener (by simp)
  exact (unclosed.stops ordered nonnegative).ofTokens_eq ⟨valid.1, bound, rfl⟩

end

section

variable {expression : Text} {first last opener : Token} {inner before after : List Token}
  {low high : Int}

theorem Token.Unclosed.opens (unclosed : Token.Unclosed before opener after) :
    opener.kind = .optionalOpen ∨ opener.kind = .parameterOpen := by
  cases unclosed with
  | outer nested opens missing =>
      cases kind : opener.kind <;> rw [kind] at opens <;> cases opens
      · exact .inl rfl
      · exact .inr rfl
  | inner nested outside within opens missing closes => exact .inr opens

theorem Node.ofTokens_of_unclosed (starts : first.kind = .lineStart) (ends : last.kind = .lineEnd)
    (ordered : Token.Ordered low (first :: (before ++ opener :: after ++ [last])) high)
    (nonnegative : 0 ≤ low) (bound : opener.start ≤ expression.length)
    (unclosed : Token.Unclosed before opener after) :
    ofTokens expression (first :: (before ++ opener :: after ++ [last])) =
      .error (.diagnosed (Diagnostic.ofOpener expression opener)) := by
  obtain ⟨below, opens, between, -⟩ := ordered.of_brackets
  have further : 0 ≤ first.stop := by omega
  rw [ofTokens_between starts ends, Item.ofTokens_of_unclosed unclosed between further bound]
  rfl

/-- Tokens in order are read as a tree in which all is in order, or have an opening token that is not
closed. Spans may be empty and offsets left over between them. -/
theorem Node.ofTokens_of_inOrder (starts : first.kind = .lineStart) (ends : last.kind = .lineEnd)
    (nonnegative : 0 ≤ first.start)
    (forward : ∀ token ∈ first :: (inner ++ [last]), token.start ≤ token.stop)
    (follow : (first :: (inner ++ [last])).IsChain fun left right => left.stop ≤ right.start)
    (bound : ∀ token ∈ inner, token.kind = .optionalOpen ∨ token.kind = .parameterOpen →
      token.start ≤ expression.length) :
    (∃ tree, ofTokens expression (first :: (inner ++ [last])) = .ok tree ∧
      ∀ path shape start stop children,
        tree.descendant? path = some (.branch shape start stop children) →
        (∀ child ∈ children, start ≤ child.start ∧ child.start ≤ child.stop ∧ child.stop ≤ stop) ∧
          children.Pairwise fun left right => left.stop ≤ right.start) ∨
      ∃ diagnostic, ofTokens expression (first :: (inner ++ [last])) =
        .error (.diagnosed diagnostic) ∧ diagnostic.kind = .unclosed := by
  have ordered := Spaced.of_isChain forward follow
  rcases Token.nesting_cases inner with nested | ⟨before, opener, after, rfl, unclosed⟩
  · obtain ⟨tree, read⟩ := exists_ofTokens starts ends ordered nonnegative nested
    refine .inl ⟨tree, read, fun path shape start stop children found => ?_⟩
    have spaced := throughout_isOrdered read ordered path _ found
    exact ⟨fun child member => spaced.inside member, spaced.pairwise⟩
  · have within : opener.start ≤ expression.length := bound opener (by simp) unclosed.opens
    exact .inr ⟨_, ofTokens_of_unclosed starts ends ordered nonnegative within unclosed,
      Diagnostic.kind_ofOpener expression opener⟩

/-- A separator between an optional and an empty text, with a line marker in the optional. -/
theorem Node.ofTokens_of_inOrder_of_gaps :
    ∃ tree, ofTokens "a(" (⟨.lineStart, [], 0, 1⟩ :: ([⟨.optionalOpen, "(", 2, 2⟩,
        ⟨.lineEnd, [], 4, 4⟩, ⟨.optionalClose, ")", 4, 5⟩, ⟨.separator, "/", 7, 7⟩,
        ⟨.text, [], 9, 9⟩] ++ [⟨.lineEnd, [], 12, 20⟩])) = .ok tree ∧
      ∀ path shape start stop children,
        tree.descendant? path = some (.branch shape start stop children) →
        (∀ child ∈ children, start ≤ child.start ∧ child.start ≤ child.stop ∧ child.stop ≤ stop) ∧
          children.Pairwise fun left right => left.stop ≤ right.start := by
  refine (ofTokens_of_inOrder rfl rfl ?_ ?_ ?_ ?_).resolve_right ?_
  · decide
  · decide
  · decide
  · decide
  · rintro ⟨diagnostic, failed, -⟩
    have read : (ofTokens "a(" (⟨.lineStart, [], 0, 1⟩ :: ([⟨.optionalOpen, "(", 2, 2⟩,
        ⟨.lineEnd, [], 4, 4⟩, ⟨.optionalClose, ")", 4, 5⟩, ⟨.separator, "/", 7, 7⟩,
        ⟨.text, [], 9, 9⟩] ++ [⟨.lineEnd, [], 12, 20⟩]))).isOk = true := by
      decide +kernel
    rw [failed] at read
    cases read

end

namespace Token

variable {token : Token} {before before' after after' : List Token} {low high : Int}

theorem Row.stop_le_start {first second : Token} {between : List Token}
    (row : Row low (before ++ first :: (between ++ second :: after)) high) :
    first.stop ≤ second.start := by
  obtain ⟨_, -, -, -, tail⟩ := Spaced.append_iff.mp row.ordered
  exact (tail.inside (by simp)).1

theorem Row.start_lt {first second : Token} {between : List Token}
    (row : Row low (before ++ first :: (between ++ second :: after)) high) :
    first.start < second.start :=
  Int.lt_of_lt_of_le (row.proper first (by simp)).start_lt_stop row.stop_le_start

/-- Where a token starts tells which one of a row it is. -/
theorem Row.split_unique {first second : Token} (row : Row low (before ++ first :: after) high)
    (same : before ++ first :: after = before' ++ second :: after')
    (start : first.start = second.start) :
    before = before' ∧ first = second ∧ after = after' := by
  rcases List.append_eq_append_iff.mp same with ⟨between, rfl, rest⟩ | ⟨between, rfl, rest⟩
  · cases between with
    | nil => simpa using rest
    | cons other between =>
        obtain ⟨rfl, rfl⟩ := List.cons.inj rest
        have := row.start_lt
        omega
  · cases between with
    | nil => simpa [eq_comm] using rest
    | cons other between =>
        obtain ⟨rfl, rfl⟩ := List.cons.inj rest
        rw [List.append_assoc] at row
        have := row.start_lt
        omega

end Token

section

variable {expression : Text} {inner before after : List Token} {opener : Token}

theorem exists_parse_of_nested (spells : Token.Spells 0 inner expression.length expression)
    (nested : Token.Nested Token.nesting inner) : ∃ node, parse expression = .ok node := by
  have ordered := spells.row.ordered
  obtain ⟨items, reads⟩ := Item.exists_reads nested ordered (Int.le_refl 0)
  obtain ⟨children, made⟩ := Node.exists_ofItems [] (reads.arranged ordered) (Int.le_refl 0)
  exact ⟨_, parse_eq_ok_iff.mpr ⟨inner, items, children, spells, reads, made, rfl⟩⟩

/-- An opening token that is not closed is reported. -/
theorem parse_of_unclosed
    (spells : Token.Spells 0 (before ++ opener :: after) expression.length expression)
    (unclosed : Token.Unclosed before opener after) :
    parse expression = .error (.diagnosed (Diagnostic.ofOpener expression opener)) := by
  have ordered := spells.row.ordered
  have bound : opener.start ≤ opener.stop ∧ opener.stop ≤ expression.length :=
    (ordered.inside (by simp)).2
  rw [parse_of_tokenize (tokenize_of_spells spells), Node.ofTokens_withMarkers,
    Item.ofTokens_of_unclosed unclosed ordered (Int.le_refl 0) (by omega)]
  rfl

theorem exists_nested_of_parse {node : Node} (parsed : parse expression = .ok node) :
    ∃ inner, Token.Spells 0 inner expression.length expression ∧
      Token.Nested Token.nesting inner := by
  obtain ⟨inner, items, children, spells, -⟩ := parse_eq_ok_iff.mp parsed
  rcases Token.nesting_cases inner with nested | ⟨before, opener, after, rfl, unclosed⟩
  · exact ⟨inner, spells, nested⟩
  · rw [parse_of_unclosed spells unclosed] at parsed
    cases parsed

/-- An expression that glyphs spell can be read, or has an opening token that is not closed. -/
theorem spelled_cases {glyphs : List Glyph} (spells : Glyph.Spells 0 glyphs expression) :
    (∃ node, parse expression = .ok node) ∨
      ∃ before opener after,
        Token.Spells 0 (before ++ opener :: after) expression.length expression ∧
          Token.Unclosed before opener after := by
  obtain ⟨row, written⟩ := Token.spells_iff.mpr ⟨glyphs, spells, rfl⟩
  rw [Nat.zero_add] at row
  rcases Token.nesting_cases (Token.ofGlyphs glyphs) with
    nested | ⟨before, opener, after, split, unclosed⟩
  · exact .inl (exists_parse_of_nested ⟨row, written⟩ nested)
  · rw [split] at row written
    exact .inr ⟨before, opener, after, ⟨row, written⟩, unclosed⟩

/-- Every expression can be read, or has an opening token that is not closed, or gets reading stuck. -/
theorem failure_cases (expression : Text) :
    (∃ node, parse expression = .ok node) ∨
      (∃ before opener after,
        Token.Spells 0 (before ++ opener :: after) expression.length expression ∧
          Token.Unclosed before opener after) ∨
      ∃ glyphs front rest kind, expression = front ++ rest ∧ Glyph.Spells 0 glyphs front ∧
        Glyph.Stuck kind rest := by
  obtain ⟨glyphs, front, rest, rfl, spells, rfl | ⟨kind, stuck⟩⟩ :=
    Glyph.exists_spells 0 expression
  · rw [List.append_nil]
    rcases spelled_cases spells with read | unclosed
    · exact .inl read
    · exact .inr (.inl unclosed)
  · exact .inr (.inr ⟨glyphs, front, rest, kind, rfl, spells, stuck⟩)

/-- Every expression is read as a tree, or there is a diagnostic. -/
theorem parse_cases (expression : Text) :
    (∃ tree, parse expression = .ok tree) ∨
      ∃ diagnostic, parse expression = .error (.diagnosed diagnostic) := by
  rcases failure_cases expression with read | ⟨before, opener, after, spells, unclosed⟩ |
    ⟨glyphs, front, rest, kind, rfl, spells, stuck⟩
  · exact .inl read
  · exact .inr ⟨_, parse_of_unclosed spells unclosed⟩
  · exact .inr ⟨_, parse_of_tokenize_error (tokenize_stuck spells stuck)⟩

/-- Reading goes through when the kinds of the tokens between the line markers are nested. When they
are not, exactly one opening token is not closed, and the diagnostic points at it. -/
theorem parse_ok_iff_nested {tokens : List Token} (tokenized : tokenize expression = .ok tokens) :
    ∃ inner, tokens = Token.withMarkers expression.length inner ∧
      ((∃ node, parse expression = .ok node) ↔ Token.Nested Token.nesting inner) ∧
      (¬ Token.Nested Token.nesting inner →
        ∃ before opener after, inner = before ++ opener :: after ∧
          Token.Unclosed before opener after ∧
          parse expression = .error (.diagnosed (Diagnostic.ofOpener expression opener)) ∧
          ∀ before' opener' after', inner = before' ++ opener' :: after' →
            Token.Unclosed before' opener' after' →
            before' = before ∧ opener' = opener ∧ after' = after) := by
  obtain ⟨inner, rfl, spells⟩ := tokenize_eq_ok_iff.mp tokenized
  refine ⟨inner, rfl, ⟨?_, exists_parse_of_nested spells⟩, ?_⟩
  · intro read
    obtain ⟨node, parsed⟩ := read
    rcases Token.nesting_cases inner with nested | ⟨before, opener, after, rfl, unclosed⟩
    · exact nested
    · rw [parse_of_unclosed spells unclosed] at parsed
      cases parsed
  · intro unnested
    rcases Token.nesting_cases inner with nested | ⟨before, opener, after, rfl, unclosed⟩
    · exact absurd nested unnested
    · have failed := parse_of_unclosed spells unclosed
      refine ⟨before, opener, after, rfl, unclosed, failed, ?_⟩
      intro before' opener' after' same unclosed'
      have failed' : parse expression =
          .error (.diagnosed (Diagnostic.ofOpener expression opener')) := by
        rw [same] at spells
        exact parse_of_unclosed spells unclosed'
      have column : opener'.start = opener.start := by
        rw [failed] at failed'
        injection failed' with errors
        injection errors with diagnostics
        have columns := congrArg Diagnostic.column diagnostics
        rw [Diagnostic.column_ofOpener, Diagnostic.column_ofOpener] at columns
        omega
      obtain ⟨rfl, rfl, rfl⟩ := spells.row.split_unique same column.symm
      exact ⟨rfl, rfl, rfl⟩

theorem parse_ok_iff_nested_of_crossing :
    ∃ inner before opener after,
      tokenize "(\x7ba)\x7d" = .ok (Token.withMarkers 5 inner) ∧ ¬ Token.Nested Token.nesting inner ∧
        inner = before ++ opener :: after ∧ Token.Unclosed before opener after ∧
        parse "(\x7ba)\x7d" =
          .error (.diagnosed (Diagnostic.ofOpener "(\x7ba)\x7d" opener)) := by
  have tokenized : tokenize "(\x7ba)\x7d" = .ok (Token.withMarkers 5
      [⟨.optionalOpen, "(", 0, 1⟩, ⟨.parameterOpen, "\x7b", 1, 2⟩, ⟨.text, "a", 2, 3⟩,
        ⟨.optionalClose, ")", 3, 4⟩, ⟨.parameterClose, "\x7d", 4, 5⟩]) := by
    decide +kernel
  obtain ⟨inner, same, accepted, rejected⟩ := parse_ok_iff_nested tokenized
  have failed : (parse "(\x7ba)\x7d").isOk = false := by decide +kernel
  have unnested : ¬ Token.Nested Token.nesting inner := by
    intro nested
    obtain ⟨node, parsed⟩ := accepted.mpr nested
    rw [parsed] at failed
    cases failed
  obtain ⟨before, opener, after, split, unclosed, error, -⟩ := rejected unnested
  exact ⟨inner, before, opener, after, tokenized.trans (congrArg _ same), unnested, split, unclosed,
    error⟩

end

end CucumberExpression
