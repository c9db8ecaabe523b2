import CucumberExpression.Proofs.Ordering
import CucumberExpression.Proofs.Reconstruction

namespace CucumberExpression

/-! # Rereading

A canonical tree is what its source is read as: its tokens are read as items that its nodes are put
together from. -/

namespace Token

variable {tokens : List Token} {low high : Int}

theorem Row.forward (row : Row low tokens high) (nonnegative : 0 ≤ low) : Forward low high :=
  ⟨nonnegative, row.ordered.low_le_high⟩

end Token

namespace Node

variable {node : Node} {nodes : List Node} {place : Place} {low high start stop : Int}

theorem Solid.forward (solid : node.Solid) (row : Token.Row low node.tokens high)
    (nonnegative : 0 ≤ low) : Forward node.start node.stop := by
  obtain rfl : node.start = low := solid.sound.row.low_unique solid.nonempty row
  exact solid.sound.row.forward nonnegative

theorem Members.map_leaf (members : Members place (fun _ => False) nodes) :
    (nodes.flatMap tokens).map Token.leaf = nodes := by
  induction nodes with
  | nil => rfl
  | cons node rest ih =>
      obtain ⟨own, others⟩ := List.forall_mem_cons.mp members
      obtain ⟨kind, -, isLeaf⟩ | impossible := own
      · obtain ⟨token, -, proper, rfl⟩ := exists_token isLeaf
        rw [List.flatMap_cons, tokens_leaf proper, List.map_append, ih others]
        rfl
      · exact impossible.elim

/-- A kind that a place does not hold does not come up there, if it does not in the branches. -/
theorem Members.avoid {Inner : Node → Prop} {kind : Token.Kind}
    (members : Members place Inner nodes) (outside : kind ∉ place.leaves)
    (inner : ∀ node, Inner node → ∀ token ∈ node.tokens, token.kind ≠ kind) :
    ∀ token ∈ nodes.flatMap tokens, token.kind ≠ kind := by
  intro token member
  obtain ⟨node, inside, member⟩ := List.mem_flatMap.mp member
  obtain ⟨other, held, isLeaf⟩ | isInner := members node inside
  · obtain ⟨own, rfl, proper, rfl⟩ := exists_token isLeaf
    rw [tokens_leaf proper] at member
    obtain rfl : token = own := List.mem_singleton.mp member
    exact fun same => outside (same ▸ held)
  · exact inner node isInner token member

/-- A parameter is made of the leaves of the tokens between its braces. -/
theorem IsParameter.exists_brackets (isParameter : node.IsParameter place)
    (outside : Token.Kind.parameterClose ∉ place.leaves) :
    ∃ opener content closer,
      Token.Brackets .parameterOpen .parameterClose opener content closer ∧
        node.tokens = opener :: (content ++ [closer]) ∧
        (∀ token ∈ content, token.kind ∈ place.leaves) ∧
        node = .branch .parameter opener.start closer.stop (content.map Token.leaf) := by
  obtain _ | ⟨_ | _ | _ | _ | _, start, stop, children⟩ := node <;> try exact isParameter.elim
  have members := Siblings.members isParameter
  refine ⟨delimiter .parameterOpen start, children.flatMap tokens,
    delimiter .parameterClose (stop - 1), ⟨rfl, rfl, ?_⟩, ?_, ?_, ?_⟩
  · exact members.avoid outside fun node impossible => impossible.elim
  · rw [tokens, tokensOfAll_eq_flatMap]
  · intro token member
    by_contra absent
    exact members.avoid absent (fun node impossible => impossible.elim) token member rfl
  · rw [members.map_leaf]
    simp [delimiter]

theorem Members.readsContent (members : Members .optional (IsParameter .innerParameter) nodes)
    (row : Token.Row low (nodes.flatMap tokens) high) (nonnegative : 0 ≤ low) :
    ReadsContent (nodes.flatMap tokens) nodes := by
  induction nodes generalizing low with
  | nil => exact .nil
  | cons node rest ih =>
      obtain ⟨own, others⟩ := List.forall_mem_cons.mp members
      rw [List.flatMap_cons] at row ⊢
      obtain ⟨middle, front, back, -⟩ := row.of_append
      have forward := front.forward nonnegative
      have reads := ih others back forward.nonnegative
      obtain ⟨kind, held, isLeaf⟩ | isParameter := own
      · obtain ⟨token, rfl, proper, rfl⟩ := exists_token isLeaf
        rw [tokens_leaf proper] at front ⊢
        refine .leaf ?_ (front.valid nonnegative token (by simp)) reads
        intro opens
        rw [opens] at held
        exact absurd held (by decide)
      · have forward := isParameter.solid_firm.1.forward front nonnegative
        obtain ⟨opener, content, closer, brackets, written, -, rfl⟩ :=
          isParameter.exists_brackets (by decide)
        rw [written] at front ⊢
        rw [List.cons_append, List.append_assoc]
        refine .parameter brackets (fun token member => ?_) forward reads
        exact front.valid nonnegative token (by simp [member])

theorem IsOptional.exists_brackets (isOptional : node.IsOptional) (nonnegative : 0 ≤ node.start) :
    ∃ opener content closer nodes,
      Token.Brackets .optionalOpen .optionalClose opener content closer ∧
        node.tokens = opener :: (content ++ [closer]) ∧ ReadsContent content nodes ∧
        node = .branch .optional opener.start closer.stop nodes := by
  obtain _ | ⟨_ | _ | _ | _ | _, start, stop, children⟩ := node <;> try exact isOptional.elim
  obtain ⟨members, row⟩ := (siblings_iff fun _ => IsParameter.solid_firm).mp isOptional
  refine ⟨delimiter .optionalOpen start, children.flatMap tokens,
    delimiter .optionalClose (stop - 1), children, ⟨rfl, rfl, ?_⟩, ?_, ?_, ?_⟩
  · apply members.avoid (by decide) fun node isParameter => ?_
    obtain ⟨opener, content, closer, brackets, written, held, -⟩ :=
      isParameter.exists_brackets (by decide)
    rw [written]
    intro token member closing
    rcases List.mem_cons.mp member with rfl | member
    · cases closing.symm.trans brackets.opens
    rcases List.mem_append.mp member with member | member
    · exact absurd (closing ▸ held token member) (by decide)
    · obtain rfl : token = closer := List.mem_singleton.mp member
      cases closing.symm.trans brackets.closes
  · rw [tokens, tokensOfAll_eq_flatMap]
  · exact members.readsContent row (Int.le_add_one nonnegative)
  · simp [delimiter]

end Node

namespace Item

variable {part : Part} {items : List Item} {rest : List Token} {low high : Int}

theorem Reads.append_part (piece : part.IsPiece) (row : Token.Row low part.tokens high)
    (nonnegative : 0 ≤ low) (others : Reads rest items) :
    Reads (part.tokens ++ rest) (.part part :: items) := by
  have valid := row.valid nonnegative
  cases part with
  | separator token => exact .separator piece others
  | node child =>
      have forward := piece.solid.forward row nonnegative
      rw [Part.tokens] at row valid ⊢
      obtain ⟨kind, held, isLeaf⟩ | isOptional | isParameter := piece
      · obtain ⟨token, rfl, proper, rfl⟩ := Node.exists_token isLeaf
        rw [Node.tokens_leaf proper] at valid ⊢
        refine .leaf ?_ (valid token (by simp)) others
        refine ⟨?_, ?_, ?_, ?_⟩ <;> intro kind <;> rw [kind] at held <;> exact absurd held (by decide)
      · obtain ⟨opener, content, closer, nodes, brackets, written, reads, rfl⟩ :=
          isOptional.exists_brackets forward.1
        rw [written, List.cons_append, List.append_assoc]
        exact .optional brackets reads forward others
      · obtain ⟨opener, content, closer, brackets, written, -, rfl⟩ :=
          isParameter.exists_brackets (by decide)
        rw [written] at valid ⊢
        rw [List.cons_append, List.append_assoc]
        exact .parameter brackets (fun token member => valid token (by simp [member])) forward others

theorem reads_of_pieces (pieces : ∀ item ∈ items, item.IsPiece)
    (row : Token.Row low (items.flatMap tokens) high) (nonnegative : 0 ≤ low) :
    Reads (items.flatMap tokens) items := by
  induction items generalizing low with
  | nil => exact .nil
  | cons item rest ih =>
      obtain ⟨piece, others⟩ := List.forall_mem_cons.mp pieces
      rw [List.flatMap_cons] at row ⊢
      obtain ⟨middle, front, back, -⟩ := row.of_append
      have forward := front.forward nonnegative
      have reads := ih others back forward.nonnegative
      cases item with
      | part part => exact reads.append_part piece front nonnegative
      | space token => exact .space piece reads

end Item

namespace Node

variable {node : Node} {nodes : List Node} {low high start stop : Int}

theorem IsAlternative.exists_nodes (isAlternative : node.IsAlternative) :
    ∃ nodes, node = .branch .alternative node.start node.stop nodes ∧
      (∀ part ∈ nodes.map Part.node, part.IsPiece) ∧
      (nodes.map Part.node).flatMap Part.tokens = node.tokens := by
  obtain _ | ⟨_ | _ | _ | _ | _, start, stop, children⟩ := node <;> try exact isAlternative.elim
  refine ⟨children, rfl, ?_, ?_⟩
  · intro part member
    obtain ⟨child, inside, rfl⟩ := List.mem_map.mp member
    exact Siblings.members isAlternative child inside
  · rw [Part.flatMap_tokens_node, tokens, tokensOfAll_eq_flatMap]

theorem exists_parts {first : Node} {rest : List Node}
    (each : ∀ child ∈ first :: rest, child.IsAlternative)
    (tiled : Tiled Node.start (·.stop + 1) start (first :: rest) (stop + 1))
    (nonnegative : 0 ≤ start) :
    ∃ parts, ReadsAlternatives stop start parts (first :: rest) ∧
      (∀ part ∈ parts, part.IsPiece) ∧
      parts.flatMap Part.tokens = tokensOfAlternatives (first :: rest) := by
  induction rest generalizing start first with
  | nil =>
      have isAlternative := each first (by simp)
      obtain ⟨rfl, last⟩ := tiled
      obtain rfl : first.stop = stop := by simpa [Tiled] using last
      have forward := isAlternative.sound_ends.1.row.forward nonnegative
      obtain ⟨nodes, same, pieces, written⟩ := isAlternative.exists_nodes
      refine ⟨nodes.map .node, ?_, pieces, written⟩
      have reads := ReadsAlternatives.last nodes forward
      rw [← same] at reads
      exact reads
  | cons second rest ih =>
      have isAlternative := each first (by simp)
      obtain ⟨rfl, tail⟩ := tiled
      have forward := isAlternative.sound_ends.1.row.forward nonnegative
      obtain ⟨nodes, same, pieces, written⟩ := isAlternative.exists_nodes
      obtain ⟨parts, reads, others, spelled⟩ := ih
        (fun child member => each child (by simp [member])) tail
        (by obtain ⟨_, ordered⟩ := forward; show 0 ≤ first.stop + 1; omega)
      refine ⟨nodes.map .node ++ .separator (delimiter .separator first.stop) :: parts, ?_, ?_, ?_⟩
      · have next := @ReadsAlternatives.next _ _ nodes (delimiter .separator first.stop) _ _
          forward reads
        simp only [delimiter] at next
        rw [← same] at next
        exact next
      · intro part member
        rcases List.mem_append.mp member with member | member
        · exact pieces part member
        rcases List.mem_cons.mp member with rfl | member
        · rfl
        · exact others part member
      · rw [List.flatMap_append, written, List.flatMap_cons, spelled, tokensOfAlternatives_cons_cons]
        rfl

theorem IsAlternation.exists_word (isAlternation : node.IsAlternation)
    (nonnegative : 0 ≤ node.start) :
    ∃ word, ofWord word = .ok [node] ∧ (∀ part ∈ word, part.IsPiece) ∧
      word.flatMap Part.tokens = node.tokens := by
  have solid := isAlternation.solid_ends.1
  obtain _ | ⟨_ | _ | _ | _ | _, start, stop, children⟩ := node <;> try exact isAlternation.elim
  obtain ⟨several, each, tiled⟩ := isAlternation
  obtain _ | ⟨first, _ | ⟨second, rest⟩⟩ := children <;> try simp at several
  obtain ⟨word, reads, pieces, written⟩ := exists_parts each tiled nonnegative
  have separated : word.any Part.isSeparator = true := by
    have length := reads.length_eq
    rw [List.length_cons, List.length_cons] at length
    exact List.any_eq_true.mpr (List.countP_pos_iff.mp (by omega))
  obtain _ | ⟨part, others⟩ := word
  · cases separated
  have row := solid.sound.row
  rw [tokens, ← written] at row
  have spans : Tiled Part.start Part.stop start (part :: others) stop :=
    row.tiled.of_flatMap fun part member => (pieces part member).tiled
  refine ⟨part :: others, ?_, pieces, written⟩
  rw [ofWord_eq_ok_iff separated, spans.head_start, spans.last_stop]
  exact ⟨_, rfl, row.forward nonnegative, reads⟩

theorem root_cases (member : (∃ kind ∈ Place.root.leaves, node.IsLeaf kind) ∨ node.IsRootBranch) :
    node.IsLeaf .space ∨ (Part.node node).IsPiece ∨ node.IsAlternation := by
  rcases member with ⟨kind, held, isLeaf⟩ | isBracket | isAlternation
  · by_cases blank : kind = .space
    · exact .inl (blank ▸ isLeaf)
    · exact .inr (.inl (.inl ⟨kind, by simp_all [Place.leaves], isLeaf⟩))
  · exact .inr (.inl (.inr isBracket))
  · exact .inr (.inr isAlternation)

/-- Items that nodes are put together from, behind the nodes of a word under way. -/
structure Assembles (before nodes : List Node) (items : List Item) : Prop where
  made : ofItems (before.map .node) items = .ok (before ++ nodes)
  pieces : ∀ item ∈ items, item.IsPiece
  written : items.flatMap Item.tokens = nodes.flatMap tokens
  begins : (∀ node ∈ nodes.head?, node.IsLeaf .space) →
    ∀ item ∈ items.head?, ∃ token, item = .space token

variable {before : List Node} {items : List Item}

theorem Assembles.nil (before : List Node) : Assembles before [] [] := by
  refine ⟨?_, by simp, rfl, by simp⟩
  rw [ofItems, ofWord_map_node, List.append_nil]

/-- White space ends the word under way. -/
theorem Assembles.space {token : Token} (rest : Assembles [] nodes items) (before : List Node)
    (kind : token.kind = .space) (proper : token.Proper) (valid : token.Valid) :
    Assembles before (token.leaf :: nodes) (.space token :: items) := by
  refine ⟨?_, ?_, ?_, by simp⟩
  · apply ofItems_space_eq_ok_iff.mpr
    exact ⟨before, nodes, ofWord_map_node before, valid, rest.made, rfl⟩
  · exact List.forall_mem_cons.mpr ⟨kind, rest.pieces⟩
  · rw [List.flatMap_cons, List.flatMap_cons, rest.written, tokens_leaf proper]
    rfl

theorem Assembles.part (rest : Assembles (before ++ [node]) nodes items)
    (piece : (Part.node node).IsPiece) :
    Assembles before (node :: nodes) (.part (.node node) :: items) := by
  refine ⟨?_, ?_, ?_, ?_⟩
  · have made := rest.made
    rw [List.map_append, List.append_assoc] at made
    exact made
  · exact List.forall_mem_cons.mpr ⟨piece, rest.pieces⟩
  · rw [List.flatMap_cons, List.flatMap_cons, rest.written]
    rfl
  · intro blank
    exact absurd (blank node (by simp)) piece.not_space

/-- An alternation is the whole of its word. -/
theorem Assembles.alternation (rest : Assembles [] nodes items)
    (isAlternation : node.IsAlternation) (nonnegative : 0 ≤ node.start)
    (bounded : ∀ next ∈ nodes.head?, next.IsLeaf .space) :
    ∃ items, Assembles [] (node :: nodes) items := by
  obtain ⟨word, made, pieces, written⟩ := isAlternation.exists_word nonnegative
  refine ⟨word.map .part ++ items, ?_, ?_, ?_, ?_⟩
  · have whole : ofItems word items = .ok ([node] ++ nodes) :=
      ofItems_of_ofWord made rest.made (rest.begins bounded)
    rw [List.map_nil, ofItems_map_part]
    exact whole
  · intro item member
    rcases List.mem_append.mp member with member | member
    · obtain ⟨part, inside, rfl⟩ := List.mem_map.mp member
      exact pieces part inside
    · exact rest.pieces item member
  · rw [List.flatMap_append, List.flatMap_map, rest.written, List.flatMap_cons, ← written]
    rfl
  · intro blank
    exact absurd (blank node (by simp)) (isAlternation.not_isLeaf _)

theorem exists_assembles (before : List Node) (members : Members .root IsRootBranch nodes)
    (pieces : ∀ node ∈ before, (Part.node node).IsPiece)
    (bounded : (before ++ nodes).IsChain Bounded)
    (row : Token.Row low (nodes.flatMap tokens) high) (nonnegative : 0 ≤ low) :
    ∃ items, Assembles before nodes items := by
  induction nodes generalizing before low with
  | nil => exact ⟨[], .nil before⟩
  | cons node rest ih =>
      obtain ⟨own, others⟩ := List.forall_mem_cons.mp members
      obtain ⟨-, tailBounded, seam⟩ := List.isChain_append.mp bounded
      obtain ⟨headBounded, restBounded⟩ := List.isChain_cons.mp tailBounded
      rw [List.flatMap_cons] at row
      obtain ⟨middle, front, back, -⟩ := row.of_append
      have further := (front.forward nonnegative).nonnegative
      rcases root_cases own with isLeaf | piece | isAlternation
      · obtain ⟨token, kind, proper, rfl⟩ := exists_token isLeaf
        rw [tokens_leaf proper] at front
        obtain ⟨items, assembles⟩ := ih [] others (by simp) restBounded back further
        exact ⟨_, assembles.space before kind proper (front.valid nonnegative token (by simp))⟩
      · have morePieces : ∀ other ∈ before ++ [node], (Part.node other).IsPiece :=
          List.forall_mem_append.mpr ⟨pieces, List.forall_mem_singleton.mpr piece⟩
        rw [List.append_cons] at bounded
        obtain ⟨items, assembles⟩ := ih (before ++ [node]) others morePieces bounded back further
        exact ⟨_, assembles.part piece⟩
      · -- White space comes before an alternation, so no word is under way.
        obtain rfl : before = [] := by
          rcases List.eq_nil_or_concat before with rfl | ⟨init, last, rfl⟩
          · rfl
          · have blank := (seam last (by simp) node (by simp)).2 isAlternation
            exact absurd blank (pieces last (by simp)).not_space
        have start : node.start = low :=
          isAlternation.solid_ends.1.sound.row.low_unique isAlternation.solid_ends.1.nonempty front
        obtain ⟨items, assembles⟩ := ih [] others (by simp) restBounded back further
        apply assembles.alternation isAlternation (by rw [start]; exact nonnegative)
        exact fun next member => (headBounded next member).1 isAlternation

end Node

/-- A canonical tree is what its source is read as. -/
theorem parse_source {node : Node} (canonical : node.IsCanonical) :
    parse node.source = .ok node := by
  obtain ⟨children, same, spells⟩ := canonical.spells
  have length : node.stop = node.source.length := by rw [spells.high_eq, Int.zero_add]
  rw [length] at same spells
  rw [same] at canonical
  obtain ⟨-, members, bounded, row⟩ := Node.isCanonical_iff.mp canonical
  obtain ⟨items, made, pieces, written, -⟩ :=
    Node.exists_assembles [] members (by simp) bounded row (Int.le_refl 0)
  rw [← written] at row
  apply parse_eq_ok_iff.mpr
  refine ⟨items.flatMap Item.tokens, items, children, ?_,
    Item.reads_of_pieces pieces row (Int.le_refl 0), made, same⟩
  have tokens : node.tokens = items.flatMap Item.tokens := by
    rw [same, Node.tokens, Node.tokensOfAll_eq_flatMap, written]
  rw [← tokens]
  exact spells

end CucumberExpression
