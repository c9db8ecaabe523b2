import CucumberExpression.Proofs.Stages
import CucumberExpression.Proofs.TreeRow
import CucumberExpression.Proofs.Words

namespace CucumberExpression

/-! # Reconstruction

What a row of tokens is read as is canonical and has these tokens again. This is followed from
brackets to items and from items to words. -/

namespace Token

variable {opening closing : Kind} {openSymbol closeSymbol : Char} {opener closer : Token}
  {content rest : List Token} {low high : Int}

theorem Row.of_brackets (opens : opening.symbol? = some openSymbol)
    (closes : closing.symbol? = some closeSymbol)
    (brackets : Brackets opening closing opener content closer)
    (row : Row low (opener :: (content ++ closer :: rest)) high) :
    opener = Node.delimiter opening opener.start ∧
      closer = Node.delimiter closing (closer.stop - 1) ∧
      Row (opener.start + 1) content (closer.stop - 1) ∧ Row closer.stop rest high := by
  obtain ⟨properOpener, -, tail⟩ := row.of_cons
  obtain ⟨middle, inner, back, -⟩ := tail.of_append
  obtain ⟨properCloser, rfl, tail⟩ := back.of_cons
  obtain ⟨rfl, rfl, -⟩ := brackets
  have opened := Node.eq_delimiter properOpener opens
  have closed := Node.eq_delimiter properCloser closes
  have start : closer.stop - 1 = closer.start := by
    rw [closed]
    exact Int.add_sub_cancel ..
  have stop : opener.stop = opener.start + 1 := congrArg stop opened
  rw [start]
  rw [stop] at inner
  exact ⟨opened, closed, inner, tail⟩

end Token

namespace Node

variable {content : List Token} {low high : Int} {place : Place}

def Place.excluded : Place → List Token.Kind
  | root => [.optionalOpen, .parameterOpen, .separator]
  | alternative => [.space, .optionalOpen, .parameterOpen, .separator]
  | optional => [.optionalClose, .parameterOpen]
  | parameter => [.parameterClose]
  | innerParameter => [.optionalClose, .parameterClose]

/-- A place holds the leaves of all tokens but those that have another meaning there. -/
theorem Place.mem_leaves {token : Token} (proper : token.Proper)
    (free : ∀ kind ∈ place.excluded, token.kind ≠ kind) : token.kind ∈ place.leaves := by
  have either : ∀ kind : Token.Kind, kind ∈ place.leaves ∨ kind ∈ place.excluded ∨
      kind = .lineStart ∨ kind = .lineEnd := by
    cases place <;> intro kind <;> cases kind <;> decide
  rcases either token.kind with held | excluded | start | stop
  · exact held
  · exact absurd rfl (free _ excluded)
  · exact absurd start proper.fits.not_marker.1
  · exact absurd stop proper.fits.not_marker.2

theorem flatMap_tokens_leaf (proper : ∀ token ∈ content, token.Proper) :
    (content.map Token.leaf).flatMap Node.tokens = content := by
  rw [List.flatMap_map]
  calc content.flatMap (fun token => token.leaf.tokens)
      = content.flatMap (fun token => [token]) :=
        List.flatMap_congr fun token member => tokens_leaf (proper token member)
    _ = content := List.flatMap_singleton' content

theorem isParameter_of_row (row : Token.Row (low + 1) content (high - 1))
    (held : ∀ token ∈ content, token.kind ∈ place.leaves) :
    IsParameter place (.branch .parameter low high (content.map Token.leaf)) := by
  apply (siblings_iff fun node impossible => impossible.elim).mpr ⟨?_, ?_⟩
  · intro node member
    obtain ⟨token, inside, rfl⟩ := List.mem_map.mp member
    exact .inl ⟨token.kind, held token inside, (row.proper token inside).isLeaf⟩
  · rw [flatMap_tokens_leaf row.proper]
    exact row

theorem tokens_parameter {opener closer : Token}
    (opened : opener = delimiter .parameterOpen opener.start)
    (closed : closer = delimiter .parameterClose (closer.stop - 1))
    (row : Token.Row (opener.start + 1) content (closer.stop - 1)) :
    tokens (.branch .parameter opener.start closer.stop (content.map Token.leaf)) =
      opener :: (content ++ [closer]) := by
  rw [tokens, tokensOfAll_eq_flatMap, flatMap_tokens_leaf row.proper, ← opened, ← closed]

theorem ReadsContent.members {content : List Token} {nodes : List Node}
    (reads : ReadsContent content nodes) (row : Token.Row low content high)
    (inside : ∀ token ∈ content, token.kind ≠ .optionalClose) :
    nodes.flatMap tokens = content ∧ Members .optional (IsParameter .innerParameter) nodes := by
  induction reads generalizing low with
  | nil => exact ⟨rfl, by simp [Members]⟩
  | @leaf token rest nodes plain valid others ih =>
      obtain ⟨proper, -, tail⟩ := row.of_cons
      obtain ⟨written, members⟩ := ih tail fun other member => inside other (by simp [member])
      refine ⟨?_, List.forall_mem_cons.mpr ⟨.inl ⟨token.kind, ?_, proper.isLeaf⟩, members⟩⟩
      · rw [List.flatMap_cons, tokens_leaf proper, written]
        rfl
      · exact Place.mem_leaves proper (by simpa [Place.excluded] using ⟨inside token (by simp), plain⟩)
  | @parameter opener closer content rest nodes brackets valid forward others ih =>
      obtain ⟨opened, closed, inner, tail⟩ := Token.Row.of_brackets rfl rfl brackets row
      obtain ⟨written, members⟩ := ih tail fun other member => inside other (by simp [member])
      refine ⟨?_, List.forall_mem_cons.mpr ⟨.inr (isParameter_of_row inner ?_), members⟩⟩
      · rw [List.flatMap_cons, tokens_parameter opened closed inner, written]
        simp
      · intro token member
        have within := inside token (by simp [member])
        exact Place.mem_leaves (inner.proper token member)
          (by simpa [Place.excluded] using ⟨within, brackets.inside token member⟩)

end Node

namespace Part

def tokens : Part → List Token
  | .node child => child.tokens
  | .separator token => [token]

/-- Whether a part of a word is one that a row of tokens is read as. -/
def IsPiece : Part → Prop
  | .node child => (∃ kind ∈ Node.Place.alternative.leaves, child.IsLeaf kind) ∨ child.IsBracket
  | .separator token => token.kind = .separator

theorem IsPiece.solid {node : Node} (piece : (Part.node node).IsPiece) : node.Solid := by
  rcases piece with ⟨kind, -, isLeaf⟩ | isBracket
  · exact isLeaf.solid
  · exact isBracket.solid_firm.1

theorem IsPiece.not_space {node : Node} (piece : (Part.node node).IsPiece) : ¬ node.IsLeaf .space := by
  intro isLeaf
  rcases piece with ⟨kind, held, isLeaf'⟩ | isBracket
  · rw [isLeaf'.kind_unique isLeaf] at held
    exact absurd held (by decide)
  · have firm := isBracket.solid_firm.2
    obtain ⟨token, kind, proper, rfl⟩ := Node.exists_token isLeaf
    rw [Node.Firm, Node.tokens_leaf proper] at firm
    have run := firm.first token (by simp)
    rw [kind] at run
    cases run

theorem IsPiece.tiled {part : Part} (piece : part.IsPiece) :
    part.tokens ≠ [] ∧ Tiled Token.start Token.stop part.start part.tokens part.stop := by
  cases part with
  | node child => exact ⟨piece.solid.nonempty, piece.solid.sound.row.tiled⟩
  | separator token => exact ⟨by simp [tokens], rfl, rfl⟩

theorem flatMap_tokens_node (nodes : List Node) :
    (nodes.map node).flatMap tokens = nodes.flatMap Node.tokens :=
  List.flatMap_map ..

end Part

namespace Item

def tokens : Item → List Token
  | .part piece => piece.tokens
  | .space token => [token]

def IsPiece : Item → Prop
  | .part piece => piece.IsPiece
  | .space token => token.kind = .space

variable {content : List Token} {items : List Item} {low high : Int}

theorem Reads.pieces (reads : Reads content items) (row : Token.Row low content high) :
    items.flatMap tokens = content ∧ ∀ item ∈ items, item.IsPiece := by
  induction reads generalizing low with
  | nil => exact ⟨rfl, by simp⟩
  | @leaf token rest items plain valid others ih =>
      obtain ⟨proper, -, tail⟩ := row.of_cons
      obtain ⟨written, pieces⟩ := ih tail
      refine ⟨?_, List.forall_mem_cons.mpr ⟨.inl ⟨token.kind, ?_, proper.isLeaf⟩, pieces⟩⟩
      · rw [List.flatMap_cons, written, tokens, Part.tokens, Node.tokens_leaf proper]
        rfl
      · obtain ⟨parameter, optional, space, separator⟩ := plain
        exact Node.Place.mem_leaves proper
          (by simpa [Node.Place.excluded] using ⟨space, optional, parameter, separator⟩)
  | space kind others ih =>
      obtain ⟨-, -, tail⟩ := row.of_cons
      obtain ⟨written, pieces⟩ := ih tail
      refine ⟨?_, List.forall_mem_cons.mpr ⟨kind, pieces⟩⟩
      rw [List.flatMap_cons, written]
      rfl
  | separator kind others ih =>
      obtain ⟨-, -, tail⟩ := row.of_cons
      obtain ⟨written, pieces⟩ := ih tail
      refine ⟨?_, List.forall_mem_cons.mpr ⟨kind, pieces⟩⟩
      rw [List.flatMap_cons, written]
      rfl
  | @parameter opener closer content rest items brackets valid forward others ih =>
      obtain ⟨opened, closed, inner, tail⟩ := Token.Row.of_brackets rfl rfl brackets row
      obtain ⟨written, pieces⟩ := ih tail
      refine ⟨?_, List.forall_mem_cons.mpr
        ⟨.inr (.inr (Node.isParameter_of_row inner ?_)), pieces⟩⟩
      · rw [List.flatMap_cons, written, tokens, Part.tokens,
          Node.tokens_parameter opened closed inner]
        simp
      · intro token member
        exact Node.Place.mem_leaves (inner.proper token member)
          (by simpa [Node.Place.excluded] using brackets.inside token member)
  | @optional opener closer content rest nodes items brackets reads forward others ih =>
      obtain ⟨opened, closed, inner, tail⟩ := Token.Row.of_brackets rfl rfl brackets row
      obtain ⟨written, pieces⟩ := ih tail
      obtain ⟨content, members⟩ := reads.members inner brackets.inside
      refine ⟨?_, List.forall_mem_cons.mpr ⟨.inr (.inl ?_), pieces⟩⟩
      · rw [List.flatMap_cons, written, tokens, Part.tokens, Node.tokens,
          Node.tokensOfAll_eq_flatMap, content, ← opened, ← closed]
        simp
      · rw [← content] at inner
        exact (Node.siblings_iff fun node => Node.IsParameter.solid_firm).mpr ⟨members, inner⟩

end Item

namespace Node

section

variable {wordStop start low high : Int} {parts word : List Part} {children nodes : List Node}

theorem isAlternative_of_row (pieces : ∀ part ∈ nodes.map Part.node, part.IsPiece)
    (row : Token.Row low (nodes.flatMap tokens) high) :
    IsAlternative (.branch .alternative low high nodes) :=
  (siblings_iff fun _ => IsBracket.solid_firm).mpr
    ⟨fun node member => pieces (.node node) (List.mem_map_of_mem member), row⟩

/-- The alternatives of a row of tokens tile it with the separators between them. -/
theorem ReadsAlternatives.alternatives (reads : ReadsAlternatives wordStop start parts children)
    (pieces : ∀ part ∈ parts, part.IsPiece)
    (row : Token.Row start (parts.flatMap Part.tokens) wordStop) :
    (∀ child ∈ children, child.IsAlternative) ∧
      Tiled Node.start (·.stop + 1) start children (wordStop + 1) ∧
      tokensOfAlternatives children = parts.flatMap Part.tokens := by
  induction reads with
  | @last start nodes forward =>
      rw [Part.flatMap_tokens_node] at row ⊢
      refine ⟨?_, ⟨rfl, rfl⟩, ?_⟩
      · simpa using isAlternative_of_row pieces row
      · rw [tokensOfAlternatives, tokens, tokensOfAll_eq_flatMap]
  | @next start nodes token rest children forward others ih =>
      rw [List.flatMap_append, Part.flatMap_tokens_node, List.flatMap_cons] at row ⊢
      obtain ⟨middle, front, back, -⟩ := row.of_append
      obtain ⟨proper, rfl, tail⟩ := back.of_cons
      have kind : token.kind = .separator := pieces (.separator token) (by simp)
      have separator : token = delimiter .separator token.start := by
        rw [← kind]
        exact eq_delimiter proper (show token.kind.symbol? = some '/' by rw [kind]; rfl)
      have stop : token.stop = token.start + 1 := congrArg Token.stop separator
      obtain ⟨each, tiled, written⟩ := ih (fun part member => pieces part (by simp [member])) tail
      refine ⟨?_, ⟨rfl, ?_⟩, ?_⟩
      · refine List.forall_mem_cons.mpr ⟨isAlternative_of_row ?_ front, each⟩
        exact fun part member => pieces part (by simp [member])
      · rw [stop] at tiled
        exact tiled
      · obtain ⟨first, more, rfl⟩ : ∃ first more, children = first :: more :=
          List.exists_cons_of_length_pos (by rw [others.length_eq]; omega)
        rw [tokensOfAlternatives_cons_cons, written, tokens, tokensOfAll_eq_flatMap]
        simp only [Node.stop]
        rw [← separator]
        rfl

theorem IsBracket.not_isAlternation {node : Node} (isBracket : node.IsBracket) :
    ¬ node.IsAlternation := by
  intro isAlternation
  obtain _ | ⟨_ | _ | _ | _ | _, start, stop, children⟩ := node <;>
    first | exact isAlternation.elim | exact isBracket.elim id id

theorem IsLeaf.bounded_right {node : Node} (isLeaf : node.IsLeaf .space) (right : Node) :
    node.Bounded right :=
  ⟨fun isAlternation => absurd isLeaf (isAlternation.not_isLeaf _), fun _ => isLeaf⟩

theorem IsLeaf.bounded_left {node : Node} (isLeaf : node.IsLeaf .space) (left : Node) :
    left.Bounded node :=
  ⟨fun _ => isLeaf, fun isAlternation => absurd isLeaf (isAlternation.not_isLeaf _)⟩

theorem IsLeaf.members_join {node : Node} {left right : List Node} (isLeaf : node.IsLeaf .space)
    (front : Members .root IsRootBranch left) (back : Members .root IsRootBranch right) :
    Members .root IsRootBranch (left ++ node :: right) :=
  List.forall_mem_append.mpr
    ⟨front, List.forall_mem_cons.mpr ⟨.inl ⟨.space, by decide, isLeaf⟩, back⟩⟩

theorem IsLeaf.bounded_join {node : Node} {left right : List Node} (isLeaf : node.IsLeaf .space)
    (front : left.IsChain Bounded) (back : right.IsChain Bounded) :
    (left ++ node :: right).IsChain Bounded := by
  apply List.isChain_append.mpr
  refine ⟨front, List.isChain_cons.mpr ⟨?_, back⟩, ?_⟩
  · exact fun other _ => isLeaf.bounded_right other
  · intro last _ first member
    obtain rfl : node = first := by simpa using member
    exact isLeaf.bounded_left last

theorem members_of_pieces (pieces : ∀ node ∈ nodes, (Part.node node).IsPiece) :
    Members .root IsRootBranch nodes ∧ nodes.IsChain Bounded := by
  constructor
  · intro node member
    rcases pieces node member with ⟨kind, held, isLeaf⟩ | isBracket
    · exact .inl ⟨kind, by simp_all [Place.leaves], isLeaf⟩
    · exact .inr (.inl isBracket)
  · have single : ∀ node ∈ nodes, ¬ node.IsAlternation := by
      intro node member isAlternation
      rcases pieces node member with ⟨kind, -, isLeaf⟩ | isBracket
      · exact isAlternation.not_isLeaf kind isLeaf
      · exact isBracket.not_isAlternation isAlternation
    apply (List.pairwise_of_forall_mem_list _).isChain
    exact fun left leftMember right rightMember =>
      ⟨fun isAlternation => absurd isAlternation (single left leftMember),
        fun isAlternation => absurd isAlternation (single right rightMember)⟩

/-- What a word is read as: leaves and brackets, or an alternation of its own. -/
theorem ofWord_row (pieces : ∀ part ∈ word, part.IsPiece)
    (row : Token.Row low (word.flatMap Part.tokens) high) (made : ofWord word = .ok nodes) :
    nodes.flatMap tokens = word.flatMap Part.tokens ∧ Members .root IsRootBranch nodes ∧
      nodes.IsChain Bounded := by
  cases separated : word.any Part.isSeparator with
  | false =>
      obtain ⟨children, rfl⟩ := exists_nodes separated
      rw [ofWord_map_node] at made
      cases made
      refine ⟨(Part.flatMap_tokens_node nodes).symm, members_of_pieces fun node member => ?_⟩
      exact pieces _ (List.mem_map_of_mem member)
  | true =>
      obtain ⟨first, rest, rfl⟩ : ∃ first rest, word = first :: rest :=
        List.exists_cons_of_ne_nil (by rintro rfl; cases separated)
      obtain ⟨children, rfl, forward, reads⟩ := (ofWord_eq_ok_iff separated).mp made
      have tiled : Tiled Part.start Part.stop low (first :: rest) high :=
        row.tiled.of_flatMap fun part member => (pieces part member).tiled
      rw [tiled.head_start, tiled.last_stop] at reads ⊢
      obtain ⟨each, children', written⟩ := reads.alternatives pieces row
      refine ⟨?_, ?_, .singleton _⟩
      · rw [List.flatMap_singleton, tokens, written]
      · refine List.forall_mem_singleton.mpr (.inr (.inr ⟨?_, each, children'⟩))
        rw [reads.length_eq]
        have some' := List.countP_pos_iff.mpr (List.any_eq_true.mp separated)
        omega

theorem ofItems_row (word : List Part) {items : List Item} (wordPieces : ∀ part ∈ word, part.IsPiece)
    (pieces : ∀ item ∈ items, item.IsPiece)
    (row : Token.Row low (word.flatMap Part.tokens ++ items.flatMap Item.tokens) high)
    (made : ofItems word items = .ok nodes) :
    nodes.flatMap tokens = word.flatMap Part.tokens ++ items.flatMap Item.tokens ∧
      Members .root IsRootBranch nodes ∧ nodes.IsChain Bounded := by
  induction items generalizing word low nodes with
  | nil =>
      rw [List.flatMap_nil, List.append_nil] at row ⊢
      exact ofWord_row wordPieces row made
  | cons item rest ih =>
      obtain ⟨piece, others⟩ := List.forall_mem_cons.mp pieces
      rw [List.flatMap_cons] at row ⊢
      cases item with
      | part part =>
          have appended : ∀ other ∈ word ++ [part], other.IsPiece :=
            List.forall_mem_append.mpr ⟨wordPieces, List.forall_mem_singleton.mpr piece⟩
          have flattened : (word ++ [part]).flatMap Part.tokens =
              word.flatMap Part.tokens ++ (Item.part part).tokens := by
            rw [List.flatMap_append, List.flatMap_singleton, Item.tokens]
          rw [← List.append_assoc, ← flattened] at row ⊢
          exact ih _ appended others row made
      | space token =>
          obtain ⟨front, after, first, valid, tail, rfl⟩ := ofItems_space_eq_ok_iff.mp made
          obtain ⟨middle, wordRow, back, -⟩ := row.of_append
          obtain ⟨proper, rfl, restRow⟩ := back.of_cons
          obtain ⟨written, members, bounded⟩ := ofWord_row wordPieces wordRow first
          obtain ⟨written', members', bounded'⟩ := ih [] (by simp) others restRow tail
          have isLeaf : token.leaf.IsLeaf .space := piece ▸ proper.isLeaf
          refine ⟨?_, isLeaf.members_join members members', isLeaf.bounded_join bounded bounded'⟩
          rw [List.flatMap_append, List.flatMap_cons, tokens_leaf proper, written, written']
          rfl

end

end Node

variable {expression : Text} {node : Node}

/-- What an expression is read as is canonical and gives the expression back. -/
theorem canonical_of_parse (parsed : parse expression = .ok node) :
    node.IsCanonical ∧ node.source = expression := by
  obtain ⟨inner, items, children, spells, reads, made, rfl⟩ := parse_eq_ok_iff.mp parsed
  obtain ⟨written, pieces⟩ := reads.pieces spells.row
  have row := spells.row
  rw [← written] at row
  obtain ⟨written', members, bounded⟩ := Node.ofItems_row [] (by simp) pieces row made
  replace written' : children.flatMap Node.tokens = items.flatMap Item.tokens := written'
  rw [← written'] at row
  have canonical := Node.isCanonical_iff.mpr ⟨rfl, members, bounded, row⟩
  refine ⟨canonical, ?_⟩
  obtain ⟨-, -, own⟩ := canonical.spells
  rw [← own.written, Node.tokens, Node.tokensOfAll_eq_flatMap, written', written, spells.written]

end CucumberExpression
