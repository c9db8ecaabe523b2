import Mathlib
import CucumberExpression.Expression
import CucumberExpression.Node.Outline
import CucumberExpression.Proofs.Numerals
import CucumberExpression.Proofs.QuotedText
import CucumberExpression.Proofs.Tags
import CucumberExpression.Proofs.Trees

namespace CucumberExpression

/-! # Labels

The outline of a tree has the shape of the tree, and a label where the tree has a node. The tags of a
label are those of its two styles, so no token brings in another. What a label shows is the caption
of its node, but for a backslash that stands in the quoted token right before a bracket that opens no
tag. No two trees have the same outline. -/

namespace Outline

def label : Outline → String
  | .entry label _ => label

def entries : Outline → List Outline
  | .entry _ entries => entries

/-- The label at the end of a path of positions. -/
def labelAt? (outline : Outline) : List Nat → Option String
  | [] => some outline.label
  | index :: rest => outline.entries[index]?.bind (·.labelAt? rest)

end Outline

theorem opensTagName_of_isDigit {c : Char} (digit : c.isDigit) :
    Markup.opensTagName c = false := by
  by_contra opens
  rw [Bool.not_eq_false, Markup.opensTagName] at opens
  simp only [Bool.or_eq_true, beq_iff_eq] at opens
  rcases opens with ((small | rfl) | rfl) | rfl
  · rw [Char.isDigit, Bool.and_eq_true, decide_eq_true_eq, decide_eq_true_eq] at digit
    rw [Char.isLower, Bool.and_eq_true, decide_eq_true_eq, decide_eq_true_eq] at small
    exact absurd (UInt32.le_trans small.1 digit.2) (by decide)
  · exact absurd digit (by decide)
  · exact absurd digit (by decide)
  · exact absurd digit (by decide)

namespace Node

variable {node left right : Node}

/-- What a label is to say, with the token displayed in some way. -/
def caption (display : Text → String) (node : Node) : String :=
  let head := node.kind.name ++ " " ++ node.spanText
  match node.token? with
  | none => head
  | some token => head ++ " " ++ display token

/-! ## The characters of a label -/

def offsets (node : Node) : List Char :=
  node.start.repr.toList ++ ',' :: ' ' :: (node.stop.repr.toList ++ [')'])

/-- Markup of a kind and a span in front of other markup. -/
def heading (node : Node) (rest : List Char) : List Char :=
  '[' :: ("bold green".toList ++ ']' :: (node.kind.name.toList ++ '[' :: ("/bold green".toList ++
    ']' :: ' ' :: '[' :: (node.offsets ++ rest))))

def tokenMarkup (token : Text) : List Char :=
  ' ' :: '[' :: ("yellow".toList ++ ']' :: (Markup.escapeFrom 0 (Text.quotedChars token) ++ '[' ::
    ("/yellow".toList ++ [']'])))

theorem spanText_toList (node : Node) : node.spanText.toList = '[' :: node.offsets := by
  simp [spanText]
  rfl

theorem mem_offsets {c : Char} (member : c ∈ node.offsets) : c ≠ '\\' ∧ c ≠ '[' := by
  have number {value : Int} (member : c ∈ value.repr.toList) : c ≠ '\\' ∧ c ≠ '[' := by
    rcases Json.mem_toList_repr member with rfl | digit
    · decide
    · constructor <;> rintro rfl <;> exact absurd digit (by decide)
  simp only [offsets, List.mem_append, List.mem_cons, List.not_mem_nil, or_false] at member
  rcases member with member | rfl | rfl | member | rfl
  · exact number member
  · decide
  · decide
  · exact number member
  · decide

/-- The bracket of a span opens no tag. -/
theorem opensTag_offsets (node : Node) (rest : List Char) :
    Markup.opensTag (node.offsets ++ rest) = false := by
  have notOpen {first : Char} (small : first = '-' ∨ first.isDigit) (others : List Char) :
      Markup.opensTag (first :: others) = false := by
    have other : Markup.opensTagName first = false := by
      rcases small with rfl | digit
      · decide
      · exact opensTagName_of_isDigit digit
    rw [Markup.opensTag, other, Bool.false_and]
  rw [offsets]
  cases digits : node.start.repr.toList with
  | nil => rfl
  | cons first others => exact notOpen (Json.mem_toList_repr (digits ▸ List.mem_cons_self)) _

theorem escape_spanText (node : Node) : Markup.escape node.spanText = node.spanText := by
  have opens : Markup.opensTag node.offsets = false := by
    simpa using opensTag_offsets node []
  have same : Markup.escapeFrom 0 ('[' :: node.offsets) = '[' :: node.offsets := by
    rw [Markup.escapeFrom, if_neg (by decide), if_neg (by simp [opens]),
      Markup.escapeFrom_eq_self fun c member => mem_offsets member]
    rfl
  obtain ⟨front, ends⟩ : ∃ front, '[' :: node.offsets = front ++ [')'] :=
    ⟨'[' :: (node.start.repr.toList ++ ',' :: ' ' :: node.stop.repr.toList), by simp [offsets]⟩
  rw [Markup.escape, spanText_toList, ends, Markup.escapeChars_concat (by decide), ← ends, same,
    ← spanText_toList, String.ofList_toList]

theorem escape_quoted_toList (token : Text) :
    (Markup.escape (Text.quoted token)).toList =
      Markup.escapeFrom 0 (Text.quotedChars token) := by
  have plain : Text.quotationMark token ≠ '\\' := by
    rcases Text.quotationMark_cases token with mark | mark <;> rw [mark] <;> decide
  rw [Markup.escape, Text.quoted, String.toList_ofList, String.toList_ofList]
  exact Markup.escapeChars_concat plain _

theorem styled_toList (style markup : String) :
    (Markup.styled style markup).toList =
      '[' :: (style.toList ++ ']' :: (markup.toList ++ '[' :: '/' :: (style.toList ++ [']']))) := by
  simp [Markup.styled]
  rfl

theorem label_toList (node : Node) :
    node.label.toList = node.heading ((node.token?.map tokenMarkup).getD []) := by
  have front (rest : List Char) :
      (Markup.styled "bold green" node.kind.name ++ " " ++ Markup.escape node.spanText).toList ++
        rest = node.heading rest := by
    rw [String.toList_append, String.toList_append, styled_toList, escape_spanText, spanText_toList]
    simp [heading]
  rw [label]
  cases node.token? with
  | none => simpa using front []
  | some token =>
      have behind : (Markup.styled "yellow" (Markup.escape (Text.quoted token))).toList =
          (tokenMarkup token).tail := by
        rw [styled_toList, escape_quoted_toList]
        rfl
      rw [String.toList_append, String.toList_append, behind, List.append_assoc, front]
      rfl

/-! ## Tags and text of a label -/

theorem piecesFrom_heading (node : Node) (rest : List Char) :
    Markup.piecesFrom 0 (node.heading rest) =
      .tag "bold green".toList :: (Markup.chars node.kind.name.toList ++
        .tag "/bold green".toList :: (Markup.chars (' ' :: '[' :: node.offsets) ++
          Markup.piecesFrom 0 rest)) := by
  have kindName : ∀ c ∈ node.kind.name.toList, c ≠ '\\' ∧ c ≠ '[' := by
    rcases node.kind with _ | _ | _ | _ | _ | _ <;> simp [Kind.name]
  have span : Markup.piecesFrom 0 (' ' :: '[' :: (node.offsets ++ rest)) =
      Markup.chars (' ' :: '[' :: node.offsets) ++ Markup.piecesFrom 0 rest := by
    rw [show ' ' :: '[' :: (node.offsets ++ rest) = [' '] ++ '[' :: (node.offsets ++ rest) from rfl,
      Markup.piecesFrom_append (by simp), Markup.piecesFrom_bracket (opensTag_offsets node rest),
      Markup.piecesFrom_append fun c member => mem_offsets member]
    rfl
  rw [heading, Markup.piecesFrom_tag (by decide), Markup.piecesFrom_append kindName,
    Markup.piecesFrom_tag (by decide), span]

/-- The tag behind a quoted token is not drawn into it, nor is a tag made in it. -/
theorem piecesFrom_tokenMarkup (token : Text) :
    Markup.piecesFrom 0 (tokenMarkup token) =
      .char ' ' :: .tag "yellow".toList ::
        (Markup.chars (Markup.shown (Text.quotedChars token)) ++ [.tag "/yellow".toList]) := by
  have ends : ∀ last ∈ (Text.quotedChars token).getLast?, last ≠ '\\' := by
    intro last member
    rw [Text.quotedChars, List.getLast?_concat, Option.mem_some_iff] at member
    rcases Text.quotationMark_cases token with mark | mark <;> rw [← member, mark] <;> decide
  have inside (rest : List Char) :
      Markup.piecesFrom 0 (Markup.escapeFrom 0 (Text.quotedChars token) ++ '[' :: rest) =
        Markup.chars (Markup.shown (Text.quotedChars token)) ++ Markup.piecesFrom 0 ('[' :: rest) :=
    @Markup.piecesFrom_escapeFrom 0 _ rest ends
  rw [tokenMarkup, show ∀ rest, ' ' :: '[' :: rest = [' '] ++ '[' :: rest from fun _ => rfl,
    Markup.piecesFrom_append (by simp), Markup.piecesFrom_tag (by decide),
    inside, Markup.piecesFrom_tag (by decide)]
  rfl

theorem pieces_label (node : Node) :
    Markup.pieces node.label =
      .tag "bold green".toList :: (Markup.chars node.kind.name.toList ++
        .tag "/bold green".toList :: (Markup.chars (' ' :: '[' :: node.offsets) ++
          Markup.piecesFrom 0 ((node.token?.map tokenMarkup).getD []))) := by
  rw [Markup.pieces, label_toList, piecesFrom_heading]

theorem tagNames_label (node : Node) :
    Markup.tagNames node.label =
      match node.token? with
      | none => ["bold green", "/bold green"]
      | some _ => ["bold green", "/bold green", "yellow", "/yellow"] := by
  rw [Markup.tagNames, pieces_label]
  cases node.token? with
  | none =>
      have rest : Markup.piecesFrom 0 [] = [] := rfl
      simp [rest, Markup.filterMap_name?_chars, Markup.Piece.name?]
  | some token =>
      simp [piecesFrom_tokenMarkup, List.filterMap_cons, Markup.filterMap_name?_chars,
        Markup.Piece.name?]

theorem caption_toList (display : Text → String) (node : Node) :
    (node.caption display).toList =
      node.kind.name.toList ++ (' ' :: '[' :: node.offsets ++
        (node.token?.map fun token => ' ' :: (display token).toList).getD []) := by
  rw [caption]
  cases node.token? with
  | none => simp [spanText_toList]
  | some token => simp [spanText_toList]

theorem plain_label (node : Node) :
    Markup.plain node.label =
      node.caption fun token => String.ofList (Markup.shown (Text.quotedChars token)) := by
  apply String.toList_inj.mp
  rw [Markup.plain_eq, String.toList_ofList, caption_toList, pieces_label]
  cases node.token? with
  | none =>
      have rest : Markup.piecesFrom 0 [] = [] := rfl
      simp [rest, List.filterMap_cons, Markup.filterMap_char?_chars, Markup.Piece.char?]
  | some token =>
      simp [piecesFrom_tokenMarkup, List.filterMap_cons, Markup.filterMap_char?_chars,
        Markup.Piece.char?]

theorem plain_label_eq_iff (node : Node) :
    Markup.plain node.label = node.caption Text.quoted ↔
      ∀ token ∈ node.token?, ¬ Markup.Exposed (Text.quotedChars token) := by
  rw [plain_label, ← String.toList_inj, caption_toList, caption_toList, List.append_cancel_left_eq,
    List.append_cancel_left_eq]
  cases node.token? with
  | none => simp
  | some token => simp [Text.quoted, Markup.shown_eq_self_iff]

/-! ## Labels that are the same -/

/-- What stands before the first separator is known from the whole. -/
theorem eq_of_append_cons {separator : Char} {front before rest behind : List Char}
    (absent : separator ∉ front) (missing : separator ∉ before)
    (same : front ++ separator :: rest = before ++ separator :: behind) :
    front = before ∧ rest = behind := by
  rcases List.append_eq_append_iff.mp same with ⟨between, rfl, tail⟩ | ⟨between, rfl, tail⟩
  · cases between with
    | nil => simpa using tail
    | cons c others => simp [(List.cons.inj tail).1] at missing
  · cases between with
    | nil => simpa [eq_comm] using tail
    | cons c others => simp [(List.cons.inj tail).1] at absent

theorem Kind.name_injective {kind other : Kind} (same : kind.name = other.name) : kind = other := by
  rw [← Option.some_inj, ← ofName?_name kind, same, ofName?_name]

theorem heading_injective {rest behind : List Char} (same : left.heading rest = right.heading behind) :
    left.kind = right.kind ∧ left.start = right.start ∧ left.stop = right.stop ∧ rest = behind := by
  have noBracket (kind : Kind) : '[' ∉ kind.name.toList := by
    rcases kind with _ | _ | _ | _ | _ | _ <;> decide
  have noMark {mark : Char} (other : mark ≠ '-' ∧ ¬ mark.isDigit) (number : Int) :
      mark ∉ number.repr.toList :=
    fun member => (Json.mem_toList_repr member).elim other.1 other.2
  -- A name ends at a bracket, the numbers at a comma and a parenthesis, none of which they hold.
  simp only [heading, List.cons.injEq, List.append_cancel_left_eq, true_and] at same
  obtain ⟨names, same⟩ := eq_of_append_cons (noBracket left.kind) (noBracket right.kind) same
  simp only [offsets, List.append_assoc, List.cons_append, List.append_cancel_left_eq,
    List.cons.injEq, true_and] at same
  obtain ⟨starts, same⟩ := eq_of_append_cons (noMark (by decide) _) (noMark (by decide) _) same
  simp only [List.nil_append, List.cons.injEq, true_and] at same
  obtain ⟨stops, same⟩ := eq_of_append_cons (noMark (by decide) _) (noMark (by decide) _) same
  exact ⟨Kind.name_injective (String.toList_inj.mp names),
    Int.repr_inj.mp (String.toList_inj.mp starts), Int.repr_inj.mp (String.toList_inj.mp stops), same⟩

theorem tokenMarkup_injective {token other : Text} (same : tokenMarkup token = tokenMarkup other) :
    token = other := by
  simp only [tokenMarkup, List.cons.injEq, List.append_cancel_left_eq, true_and] at same
  exact Text.quotedChars_injective (Markup.escapeFrom_injective (List.append_cancel_right same))

theorem label_injective (same : left.label = right.label) :
    left.kind = right.kind ∧ left.start = right.start ∧ left.stop = right.stop ∧
      left.token? = right.token? := by
  rw [← String.toList_inj, label_toList, label_toList] at same
  obtain ⟨kinds, starts, stops, rest⟩ := heading_injective same
  refine ⟨kinds, starts, stops, ?_⟩
  cases first : left.token? with
  | none =>
      cases second : right.token? with
      | none => rfl
      | some other =>
          rw [first, second] at rest
          cases rest
  | some token =>
      cases second : right.token? with
      | none =>
          rw [first, second] at rest
          cases rest
      | some other =>
          rw [first, second] at rest
          rw [tokenMarkup_injective rest]

/-! ## Outlines -/

theorem outlines_eq_map (nodes : List Node) : outlines nodes = nodes.map outline := by
  induction nodes with
  | nil => rfl
  | cons node rest ih => rw [outlines, ih, List.map_cons]

theorem label_outline (node : Node) : node.outline.label = node.label := by
  cases node <;> rfl

theorem entries_outline (node : Node) : node.outline.entries = node.children.map outline := by
  cases node with
  | leaf => rfl
  | branch shape start stop children => exact outlines_eq_map children

theorem labelAt?_outline (path : List Nat) (node : Node) :
    node.outline.labelAt? path = (node.descendant? path).map label := by
  induction path generalizing node with
  | nil => rw [Outline.labelAt?, label_outline, descendant?, Option.map_some]
  | cons index rest ih =>
      rw [Outline.labelAt?, descendant?, entries_outline, List.getElem?_map]
      cases node.children[index]? with
      | none => rfl
      | some child => exact ih child

theorem eq_of_map_outline {nodes others : List Node}
    (each : ∀ node ∈ nodes, ∀ {other}, node.outline = other.outline → node = other)
    (same : nodes.map outline = others.map outline) : nodes = others := by
  induction nodes generalizing others with
  | nil => exact (List.map_eq_nil_iff.mp same.symm).symm
  | cons node rest ih =>
      obtain ⟨other, behind, rfl, first, further⟩ := List.map_eq_cons_iff.mp same.symm
      obtain ⟨own, below⟩ := List.forall_mem_cons.mp each
      rw [own first.symm, ih below further.symm]

theorem outline_injective (same : left.outline = right.outline) : left = right := by
  have labels {left right : Node} (same : left.outline = right.outline) :
      left.label = right.label := by
    rw [← label_outline, same, label_outline]
  induction left using children_induction generalizing right with
  | leaf start stop token =>
      obtain ⟨kinds, starts, stops, tokens⟩ := label_injective (labels same)
      cases right with
      | branch => cases kinds
      | leaf =>
          cases starts
          cases stops
          cases tokens
          rfl
  | branch shape start stop children ih =>
      obtain ⟨kinds, starts, stops, -⟩ := label_injective (labels same)
      cases right with
      | leaf => cases kinds
      | branch shape' start' stop' others =>
          cases kinds
          cases starts
          cases stops
          have entries := congrArg Outline.entries same
          rw [entries_outline, entries_outline] at entries
          obtain rfl : children = others :=
            eq_of_map_outline (fun child member _ same => ih child member same) entries
          rfl

/-- An outline has a label for each node and no others. The tags of a label are those of the styles of
its node, so a token brings in none. The text of a label is the caption of its node, if no backslash
stands in the quoted token right before a bracket that opens no tag; such a backslash is not shown, and
nothing else is missing. Even so the labels leave nothing of a tree open. -/
theorem outline_shows_tree (node : Node) :
    (∀ path, node.outline.labelAt? path = (node.descendant? path).map label) ∧
      (∀ path below, node.descendant? path = some below →
        (Markup.tagNames below.label =
          match below.token? with
          | none => ["bold green", "/bold green"]
          | some _ => ["bold green", "/bold green", "yellow", "/yellow"]) ∧
        Markup.plain below.label =
          below.caption (fun token => String.ofList (Markup.shown (Text.quotedChars token))) ∧
        (Markup.plain below.label = below.caption Text.quoted ↔
          ∀ token ∈ below.token?, ¬ Markup.Exposed (Text.quotedChars token))) ∧
      ∀ other, node.outline = other.outline → node = other :=
  ⟨fun path => labelAt?_outline path node,
    fun _ below _ => ⟨tagNames_label below, plain_label below, plain_label_eq_iff below⟩,
    fun _ same => outline_injective same⟩

/-- The token of an escaped backslash and a bracket is quoted with two backslashes, one of which its
label does not show. -/
theorem plain_label_backslash_bracket :
    let node := Node.leaf 0 3 "\\["
    parse "\\\\[" = .ok (.branch .expression 0 3 [node]) ∧
      node.caption Text.quoted = "TEXT_NODE [0, 3) '\\\\['" ∧
      Markup.plain node.label = "TEXT_NODE [0, 3) '\\['" ∧
      Markup.plain node.label ≠ node.caption Text.quoted := by
  decide +kernel

end Node

end CucumberExpression
