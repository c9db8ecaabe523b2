import CucumberExpression.Proofs.Descendants
import CucumberExpression.Proofs.EscapedPositions

namespace CucumberExpression

/-! # Partition

The spans of a tree share out the expression: children follow one another from end to end of their
parent, but for the delimiters of brackets and the separators of alternations, which are not escaped
where they stand. A leaf is longer than its text by the backslashes that escape something in it. -/

namespace Text

/-- Whether a character that is not escaped stands at an offset. -/
def StandsAt (text : Text) (symbol : Char) (offset : Int) : Prop :=
  0 ≤ offset ∧ text[offset.toNat]? = some (.char symbol) ∧ ¬ text.EscapedAt offset.toNat

instance (text : Text) (symbol : Char) : DecidablePred (text.StandsAt symbol) :=
  fun _ => inferInstanceAs (Decidable (_ ∧ _ ∧ _))

/-- The number of backslashes in a range that escape what comes after them. -/
def escapeCount (text : Text) (start stop : Int) : Nat :=
  (List.range' start.toNat (stop - start).toNat).countP
    fun offset : Nat => text.StandsAt '\\' offset

variable {before : Text}

theorem standsAt_length_iff {symbol : Char} {point : CodePoint} {rest : Text} :
    StandsAt (before ++ point :: rest) symbol before.length ↔
      point = .char symbol ∧ ¬ before.Escapes := by
  have there : (before ++ point :: rest)[before.length]? = some point := by simp
  rw [StandsAt, Int.toNat_natCast, there, escapedAt_append_length]
  simp

end Text

namespace Glyph

variable {offset : Nat} {glyph : Glyph} {glyphs : List Glyph} {before front : Text}

/-- An escaped glyph has one backslash that escapes, any other has none. -/
theorem countP_spelling (proper : glyph.token.Proper) (clear : ¬ before.Escapes) (after : Text) :
    glyph.spelling.length = 1 + (List.range' before.length glyph.spelling.length).countP
      fun offset : Nat => Text.StandsAt (before ++ (glyph.spelling ++ after)) '\\' offset := by
  by_cases escaped : glyph.IsEscaped
  · have first : Text.StandsAt (before ++ .char '\\' :: glyph.point :: after) '\\' before.length :=
      Text.standsAt_length_iff.mpr ⟨rfl, clear⟩
    have second : ¬ Text.StandsAt (before ++ .char '\\' :: glyph.point :: after) '\\'
        (before.length + 1) := by
      have escapes : Text.Escapes (before ++ [.char '\\']) := Text.escapes_concat.mpr ⟨rfl, clear⟩
      have next : Text.StandsAt (before ++ [.char '\\'] ++ glyph.point :: after) '\\'
          (before ++ [CodePoint.char '\\']).length ↔ _ := Text.standsAt_length_iff
      rw [List.length_append, List.length_singleton, List.append_assoc, Int.natCast_add] at next
      exact fun stands => (next.mp stands).2 escapes
    rw [spelling_escaped escaped]
    simp [List.range', first, second]
  · have none : ¬ Text.StandsAt (before ++ glyph.point :: after) '\\' before.length := by
      intro stands
      exact (kind_unescaped proper escaped).1 (Text.standsAt_length_iff.mp stands).1
    rw [spelling_unescaped escaped]
    simp [none]

theorem Spells.length_eq (spells : Spells offset glyphs front) (clear : ¬ before.Escapes)
    (after : Text) :
    front.length = glyphs.length + (List.range' before.length front.length).countP
      fun offset : Nat => Text.StandsAt (before ++ (front ++ after)) '\\' offset := by
  induction glyphs generalizing offset front before with
  | nil =>
      obtain rfl : [] = front := spells.written
      rfl
  | cons glyph others ih =>
      obtain ⟨proper, -, tail, rfl⟩ := spells.of_cons
      have own := countP_spelling proper clear (others.flatMap spelling ++ after)
      have rest := ih tail (not_escapes_spelling proper clear)
      rw [List.length_append] at rest ⊢
      rw [← List.range'_append_1, List.countP_append, List.length_cons]
      simp only [List.append_assoc] at rest ⊢
      omega

end Glyph

namespace Token

variable {token : Token} {tokens : List Token} {high : Int} {text : Text}

/-- Where a token of an expression stands in it. -/
theorem Spells.exists_split (spells : Spells 0 tokens high text) (member : token ∈ tokens) :
    ∃ before after : Text, text = before ++ (token.spelling ++ after) ∧
      token.start = before.length ∧ ¬ before.Escapes := by
  obtain ⟨left, right, rfl⟩ := List.append_of_mem member
  obtain ⟨middle, front, back, -⟩ := spells.row.of_append
  obtain ⟨-, rfl, -⟩ := back.of_cons
  obtain ⟨glyphs, spelled⟩ := front.exists_glyphs
  refine ⟨left.flatMap spelling, right.flatMap spelling, ?_, ?_, ?_⟩
  · rw [← spells.written, List.flatMap_append, List.flatMap_cons]
  · rw [front.high_eq, Int.zero_add]
  · exact spelled.not_escapes Text.not_escapes_nil

theorem Spells.standsAt {symbol : Char} (spells : Spells 0 tokens high text)
    (member : token ∈ tokens) (written : token.kind.symbol? = some symbol) :
    text.StandsAt symbol token.start := by
  obtain ⟨before, after, rfl, start, clear⟩ := spells.exists_split member
  rw [Node.spelling_of_symbol (spells.row.proper token member) written, start]
  exact Text.standsAt_length_iff.mpr ⟨rfl, clear⟩

/-- A token is longer than its text by the backslashes that escape in its span. -/
theorem Spells.width_eq (spells : Spells 0 tokens high text) (member : token ∈ tokens) :
    token.stop - token.start = token.text.length + text.escapeCount token.start token.stop := by
  obtain ⟨before, after, rfl, start, clear⟩ := spells.exists_split member
  obtain ⟨fits, width⟩ := spells.row.proper token member
  have spelled : Glyph.Spells 0 (Glyph.row token.kind 0 token.text) token.spelling :=
    Glyph.spells_row fun point inside => fits.single inside
  have glyphs : (Glyph.row token.kind 0 token.text).length = token.text.length := by
    rw [← congrArg List.length (Glyph.map_point_row token.kind 0 token.text), List.length_map]
  have count := spelled.length_eq clear after
  have span : (token.stop - token.start).toNat = token.spelling.length := by omega
  rw [Text.escapeCount, span, start, Int.toNat_natCast]
  omega

theorem Spells.countP_covers {low : Int} (spells : Spells low tokens high text) (offset : Int) :
    tokens.countP (fun token => token.start ≤ offset ∧ offset < token.stop) =
      if low ≤ offset ∧ offset < high then 1 else 0 := by
  apply Tiled.countP_covers (fun token member => ?_) spells.row.tiled
  have width := (spells.row.proper token member).width
  omega

end Token

namespace Node

variable {expression : Text} {tokens : List Token} {node child : Node} {nodes children : List Node}
  {start stop : Int} {shape : Branch}

/-- How the children of a branch share out its span. -/
def Partitions (expression : Text) (start stop : Int) (children : List Node) : Branch → Prop
  | .expression | .alternative => Tiled Node.start Node.stop start children stop
  | .optional =>
      expression.StandsAt '(' start ∧ expression.StandsAt ')' (stop - 1) ∧
        Tiled Node.start Node.stop (start + 1) children (stop - 1)
  | .parameter =>
      expression.StandsAt '\x7b' start ∧ expression.StandsAt '\x7d' (stop - 1) ∧
        Tiled Node.start Node.stop (start + 1) children (stop - 1)
  | .alternation =>
      children ≠ [] ∧ Tiled Node.start (·.stop + 1) start children (stop + 1) ∧
        ∀ child ∈ children.dropLast, expression.StandsAt '/' child.stop

theorem separator_mem (member : child ∈ nodes.dropLast) :
    delimiter .separator child.stop ∈ tokensOfAlternatives nodes := by
  induction nodes with
  | nil => cases member
  | cons node rest ih =>
      cases rest with
      | nil => cases member
      | cons second rest =>
          rw [tokensOfAlternatives_cons_cons]
          rw [List.dropLast_cons_cons] at member
          rcases List.mem_cons.mp member with rfl | member
          · simp
          · exact List.mem_append_right _ (List.mem_cons_of_mem _ (ih member))

theorem Placed.partitions (placed : (branch shape start stop children).Placed expression tokens)
    (spells : Token.Spells 0 tokens expression.length expression) :
    Partitions expression start stop children shape := by
  have stands (kind : Token.Kind) {symbol : Char} {offset : Int}
      (written : kind.symbol? = some symbol)
      (member : delimiter kind offset ∈ (branch shape start stop children).tokens) :
      expression.StandsAt symbol offset :=
    spells.standsAt (placed.tokens member) written
  cases placed.shaped with
  | leaf isLeaf => exact isLeaf.elim
  | parameter isParameter =>
      obtain _ | _ | _ | _ | _ := shape <;> try exact isParameter.elim
      exact ⟨stands .parameterOpen rfl (by simp [Node.tokens]),
        stands .parameterClose rfl (by simp [Node.tokens]), Siblings.tiled isParameter⟩
  | optional isOptional =>
      obtain _ | _ | _ | _ | _ := shape <;> try exact isOptional.elim
      exact ⟨stands .optionalOpen rfl (by simp [Node.tokens]),
        stands .optionalClose rfl (by simp [Node.tokens]), Siblings.tiled isOptional⟩
  | alternative isAlternative =>
      obtain _ | _ | _ | _ | _ := shape <;> try exact isAlternative.elim
      exact Siblings.tiled isAlternative
  | alternation isAlternation =>
      obtain _ | _ | _ | _ | _ := shape <;> try exact isAlternation.elim
      obtain ⟨several, -, tiled⟩ := isAlternation
      refine ⟨?_, tiled, fun child member => stands .separator rfl (separator_mem member)⟩
      exact List.ne_nil_of_length_pos (Nat.lt_of_lt_of_le Nat.two_pos several)
  | root canonical =>
      obtain _ | _ | _ | _ | _ := shape <;> try exact canonical.elim
      obtain ⟨rfl, siblings, -⟩ := canonical
      exact siblings.tiled

theorem Placed.width_eq {content : Text}
    (placed : (leaf start stop content).Placed expression tokens)
    (spells : Token.Spells 0 tokens expression.length expression) :
    stop - start = content.length + expression.escapeCount start stop := by
  have member : leafToken start stop content ∈ tokens := placed.tokens (List.mem_singleton_self _)
  exact spells.width_eq member

end Node

/-- The children of every branch share out its span, in which only delimiters and separators that
are not escaped belong to none of them, and every offset lies in exactly one leaf, delimiter or
separator. -/
theorem partition_of_parse {expression : Text} {tree : Node}
    (parsed : parse expression = .ok tree) :
    tree.start = 0 ∧ tree.stop = expression.length ∧
      (∀ path shape start stop children,
        tree.descendant? path = some (.branch shape start stop children) →
        Node.Partitions expression start stop children shape) ∧
      (∀ path start stop content, tree.descendant? path = some (.leaf start stop content) →
        stop - start = content.length + expression.escapeCount start stop) ∧
      ∀ index < expression.length,
        tree.tokens.countP (fun token : Token => token.start ≤ index ∧ index < token.stop) = 1 := by
  have spells := spells_of_parse parsed
  obtain ⟨start, stop⟩ : tree.start = 0 ∧ tree.stop = expression.length := by
    obtain ⟨inner, items, children, -, -, -, rfl⟩ := parse_eq_ok_iff.mp parsed
    exact ⟨rfl, rfl⟩
  refine ⟨start, stop, ?_, ?_, ?_⟩
  · intro path shape start stop children found
    exact (placed_of_parse parsed found).partitions spells
  · intro path start stop content found
    exact (placed_of_parse parsed found).width_eq spells
  · intro index inside
    rw [spells.countP_covers, if_pos ⟨by omega, by omega⟩]

theorem partition_of_parse_of_escaped_bracket :
    ∃ tree, parse "\\(x(y)/" = .ok tree ∧
      tree.descendant? [0] = some (.branch .alternation 0 7
        [.branch .alternative 0 6 [.leaf 0 3 "(x", .branch .optional 3 6 [.leaf 4 5 "y"]],
          .branch .alternative 7 7 []]) ∧
      Text.StandsAt "\\(x(y)/" '(' 3 ∧ Text.StandsAt "\\(x(y)/" ')' 5 ∧
      Text.StandsAt "\\(x(y)/" '/' 6 ∧ Text.escapeCount "\\(x(y)/" 0 3 = 1 ∧
      tree.tokens.countP (fun token : Token => token.start ≤ 1 ∧ 1 < token.stop) = 1 := by
  have parsed : parse "\\(x(y)/" = .ok (.branch .expression 0 7 [.branch .alternation 0 7
      [.branch .alternative 0 6 [.leaf 0 3 "(x", .branch .optional 3 6 [.leaf 4 5 "y"]],
        .branch .alternative 7 7 []]]) := by
    decide +kernel
  obtain ⟨-, -, branches, leaves, offsets⟩ := partition_of_parse parsed
  obtain ⟨opens, closes, -⟩ := branches [0, 0, 1] .optional 3 6 _ rfl
  obtain ⟨-, -, separators⟩ := branches [0] .alternation 0 7 _ rfl
  have separator := separators (.branch .alternative 0 6 _) (List.mem_singleton_self _)
  have width : (3 : Int) - 0 = 2 + Text.escapeCount "\\(x(y)/" 0 3 := leaves [0, 0, 0] 0 3 _ rfl
  exact ⟨_, parsed, rfl, opens, closes, separator, by omega, offsets 1 (by decide)⟩

end CucumberExpression
