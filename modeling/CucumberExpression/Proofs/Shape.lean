import CucumberExpression.Proofs.Descendants

namespace CucumberExpression

/-! # Shape

Which kinds of nodes stand below which in the tree of an expression, and which leaves stand where.
Every kind has a rank below that of the kinds that hold it, so none comes up twice on the way down
and the way is short. -/

def Branch.childKinds : Branch → List Node.Kind
  | .expression => [.text, .branch .optional, .branch .parameter, .branch .alternation]
  | .alternation => [.branch .alternative]
  | .alternative => [.text, .branch .optional, .branch .parameter]
  | .optional => [.text, .branch .parameter]
  | .parameter => [.text]

namespace Node

def Kind.rank : Kind → Nat
  | .text => 0
  | .branch .parameter => 1
  | .branch .optional => 2
  | .branch .alternative => 3
  | .branch .alternation => 4
  | .branch .expression => 5

theorem Kind.rank_lt {kind : Kind} {shape : Branch} (held : kind ∈ shape.childKinds) :
    kind.rank < (Kind.branch shape).rank := by
  revert kind
  cases shape <;> decide

/-- Whether a node is the leaf of one of some tokens. -/
def MadeOf (tokens : List Token) (kind : Token.Kind) (node : Node) : Prop :=
  ∃ token ∈ tokens, token.kind = kind ∧ node = token.leaf

/-- Whether a leaf stands over a single code point of an expression, which is a delimiter. -/
def IsBare (expression : Text) (symbol : Char) (node : Node) : Prop :=
  node.kind = .text ∧ node.stop = node.start + 1 ∧
    expression.slice node.start node.stop = [.char symbol]

/-- The children of a branch in the tree of an expression with some tokens. -/
structure WellShaped (expression : Text) (tokens : List Token) (shape : Branch)
    (children : List Node) : Prop where
  kinds : ∀ child ∈ children, child.kind ∈ shape.childKinds
  several : shape = .alternation → 2 ≤ children.length
  visible : shape = .alternative → ∀ child ∈ children, ¬ child.MadeOf tokens .space
  literal : shape ∈ [.expression, .alternative] →
    ∀ child ∈ children, ∀ symbol ∈ ['/', '(', '\x7b'], ¬ child.IsBare expression symbol
  apart : ∀ kind ∈ [Token.Kind.text, .space], children.IsChain fun left right =>
    ¬ (left.MadeOf tokens kind ∧ right.MadeOf tokens kind)
  bounded : shape = .expression → children.IsChain fun left right =>
    (left.kind = .branch .alternation → right.MadeOf tokens .space) ∧
      (right.kind = .branch .alternation → left.MadeOf tokens .space)

variable {expression : Text} {tokens : List Token} {kind : Token.Kind} {place : Place}
  {node : Node} {children : List Node} {start stop : Int} {Inner : Node → Prop}

theorem MadeOf.isLeaf (made : node.MadeOf tokens kind) (proper : ∀ token ∈ tokens, token.Proper) :
    node.IsLeaf kind := by
  obtain ⟨token, member, rfl, rfl⟩ := made
  exact (proper token member).isLeaf

theorem IsLeaf.madeOf (isLeaf : node.IsLeaf kind) (inside : node.tokens ⊆ tokens) :
    node.MadeOf tokens kind := by
  obtain ⟨token, same, proper, rfl⟩ := exists_token isLeaf
  rw [tokens_leaf proper] at inside
  exact ⟨token, inside (by simp), same, rfl⟩

theorem IsLeaf.kind_eq (isLeaf : node.IsLeaf kind) : node.kind = .text := by
  cases node with
  | leaf start stop content => rfl
  | branch shape start stop children => exact isLeaf.elim

theorem IsParameter.kind_eq (isParameter : node.IsParameter place) :
    node.kind = .branch .parameter := by
  obtain _ | ⟨_ | _ | _ | _ | _, start, stop, children⟩ := node <;> try exact isParameter.elim
  rfl

theorem IsOptional.kind_eq (isOptional : node.IsOptional) : node.kind = .branch .optional := by
  obtain _ | ⟨_ | _ | _ | _ | _, start, stop, children⟩ := node <;> try exact isOptional.elim
  rfl

theorem IsBracket.kind_cases (isBracket : node.IsBracket) :
    node.kind = .branch .optional ∨ node.kind = .branch .parameter := by
  rcases isBracket with isOptional | isParameter
  · exact .inl isOptional.kind_eq
  · exact .inr isParameter.kind_eq

theorem IsAlternative.kind_eq (isAlternative : node.IsAlternative) :
    node.kind = .branch .alternative := by
  obtain _ | ⟨_ | _ | _ | _ | _, start, stop, children⟩ := node <;> try exact isAlternative.elim
  rfl

theorem IsAlternation.kind_eq (isAlternation : node.IsAlternation) :
    node.kind = .branch .alternation := by
  obtain _ | ⟨_ | _ | _ | _ | _, start, stop, children⟩ := node <;> try exact isAlternation.elim
  rfl

/-- A leaf that is written as a single code point is of the kind of that. -/
theorem IsLeaf.kind_of_single {point : CodePoint} (isLeaf : node.IsLeaf kind)
    (single : node.source = [point]) : kind = Token.Kind.ofCodePoint point := by
  obtain ⟨token, rfl, proper, rfl⟩ := exists_token isLeaf
  rw [source_leaf proper] at single
  have fits := proper.fits
  by_cases plain : token.kind = .text
  · have width := Token.length_escape token.text
    have written : Token.escape token.text = [point] := by rwa [Token.spelling, plain] at single
    have nonempty := List.length_pos_iff.mpr fits.ne_nil
    rw [written, List.length_singleton] at width
    obtain ⟨same, isText⟩ := Token.countP_isReserved_eq_zero
      (show token.text.countP Token.isReserved = 0 by omega)
    rw [← same, written] at isText
    exact plain.trans isText.symm
  · have written : token.text = [point] := by
      rw [Token.spelling] at single
      split at single
      · exact absurd ‹_› plain
      · exact single
    rw [written] at fits
    exact (Token.Kind.fits_singleton.mp fits).resolve_left plain

theorem Members.kinds {kinds : List Kind} (members : Members place Inner children)
    (leaf : .text ∈ kinds) (inner : ∀ node, Inner node → node.kind ∈ kinds) :
    ∀ child ∈ children, child.kind ∈ kinds := by
  intro child member
  rcases members child member with ⟨kind, -, isLeaf⟩ | isInner
  · rw [isLeaf.kind_eq]
    exact leaf
  · exact inner child isInner

theorem Siblings.not_made (siblings : Siblings place Inner start stop children)
    (proper : ∀ token ∈ tokens, token.Proper) :
    ∀ kind ∈ [Token.Kind.text, .space], children.IsChain fun left right =>
      ¬ (left.MadeOf tokens kind ∧ right.MadeOf tokens kind) := by
  intro kind run
  apply siblings.apart.imp
  intro left right apart made
  have leaves := And.intro (made.1.isLeaf proper) (made.2.isLeaf proper)
  rcases List.mem_pair.mp run with rfl | rfl
  · exact apart.1 leaves
  · exact apart.2 leaves

/-- Where a delimiter has a meaning of its own, no leaf is one. -/
theorem Siblings.not_isBare (siblings : Siblings place Inner start stop children)
    (inner : ∀ node, Inner node → node.kind ≠ .text)
    (located : ∀ child ∈ children, child.Located expression)
    (outside : ∀ kind ∈ [.separator, .optionalOpen, .parameterOpen], kind ∉ place.leaves) :
    ∀ child ∈ children, ∀ symbol ∈ ['/', '(', '\x7b'], ¬ child.IsBare expression symbol := by
  intro child member symbol meaning bare
  obtain ⟨isText, -, written⟩ := bare
  have delimiter : Token.Kind.ofChar symbol ∈ [.separator, .optionalOpen, .parameterOpen] := by
    simp only [List.mem_cons, List.not_mem_nil, or_false] at meaning
    rcases meaning with rfl | rfl | rfl <;> decide
  rcases siblings.members child member with ⟨kind, held, isLeaf⟩ | isInner
  · rw [(located child member).slice.2.2.2] at written
    rw [isLeaf.kind_of_single written] at held
    exact outside _ delimiter held
  · exact inner child isInner isText

/-- White space on both sides of an alternation is that of tokens. -/
theorem Bounded.madeOf {left right : Node} (bounded : left.Bounded right)
    (leftInside : left.tokens ⊆ tokens) (rightInside : right.tokens ⊆ tokens)
    (leftMember : (∃ kind ∈ Place.root.leaves, left.IsLeaf kind) ∨ left.IsRootBranch)
    (rightMember : (∃ kind ∈ Place.root.leaves, right.IsLeaf kind) ∨ right.IsRootBranch) :
    (left.kind = .branch .alternation → right.MadeOf tokens .space) ∧
      (right.kind = .branch .alternation → left.MadeOf tokens .space) := by
  have alternation {node : Node} (kind : node.kind = .branch .alternation)
      (member : (∃ kind ∈ Place.root.leaves, node.IsLeaf kind) ∨ node.IsRootBranch) :
      node.IsAlternation := by
    rcases member with ⟨other, -, isLeaf⟩ | isBracket | isAlternation
    · cases kind.symm.trans isLeaf.kind_eq
    · rcases isBracket.kind_cases with same | same <;> cases kind.symm.trans same
    · exact isAlternation
  exact ⟨fun kind => (bounded.1 (alternation kind leftMember)).madeOf rightInside,
    fun kind => (bounded.2 (alternation kind rightMember)).madeOf leftInside⟩

theorem Placed.wellShaped {shape : Branch}
    (placed : (branch shape start stop children).Placed expression tokens)
    (proper : ∀ token ∈ tokens, token.Proper) : WellShaped expression tokens shape children := by
  have located : ∀ child ∈ children, child.Located expression := fun child member =>
    (placed.of_mem member).located
  have inside : ∀ child ∈ children, child.tokens ⊆ tokens := fun child member =>
    (placed.of_mem member).tokens
  cases placed.shaped with
  | leaf isLeaf => exact isLeaf.elim
  | @parameter place isParameter =>
      obtain rfl : shape = .parameter := Kind.branch.inj isParameter.kind_eq
      have siblings : Siblings place _ _ _ children := isParameter
      exact {
        kinds := siblings.members.kinds (by decide) fun _ impossible => impossible.elim
        several := nofun
        visible := nofun
        literal := by simp
        apart := siblings.not_made proper
        bounded := nofun }
  | optional isOptional =>
      obtain rfl : shape = .optional := Kind.branch.inj isOptional.kind_eq
      have siblings : Siblings .optional _ _ _ children := isOptional
      have kinds : ∀ node : Node, node.IsParameter .innerParameter →
          node.kind ∈ Branch.optional.childKinds := by
        intro node isParameter
        simp [isParameter.kind_eq, Branch.childKinds]
      exact {
        kinds := siblings.members.kinds (by decide) kinds
        several := nofun
        visible := nofun
        literal := by simp
        apart := siblings.not_made proper
        bounded := nofun }
  | alternative isAlternative =>
      obtain rfl : shape = .alternative := Kind.branch.inj isAlternative.kind_eq
      have siblings : Siblings .alternative _ _ _ children := isAlternative
      have kinds : ∀ node : Node, node.IsBracket →
          node.kind ≠ .text ∧ node.kind ∈ Branch.alternative.childKinds := by
        intro node isBracket
        rcases isBracket.kind_cases with same | same <;> simp [same, Branch.childKinds]
      refine {
        kinds := siblings.members.kinds (by decide) fun node isBracket => (kinds node isBracket).2
        several := nofun
        visible := fun _ child member made => ?_
        literal := fun _ => siblings.not_isBare (fun node isBracket => (kinds node isBracket).1)
          located (by decide)
        apart := siblings.not_made proper
        bounded := nofun }
      · have piece : (Part.node child).IsPiece := siblings.members child member
        exact piece.not_space (made.isLeaf proper)
  | alternation isAlternation =>
      obtain rfl : shape = .alternation := Kind.branch.inj isAlternation.kind_eq
      obtain ⟨several, each, -⟩ := isAlternation
      refine {
        kinds := fun child member => ?_
        several := fun _ => several
        visible := nofun
        literal := by simp
        apart := fun kind _ => ?_
        bounded := nofun }
      · simp [(each child member).kind_eq, Branch.childKinds]
      · have noLeaf : ∀ left ∈ children, ∀ right ∈ children,
            ¬ (left.MadeOf tokens kind ∧ right.MadeOf tokens kind) := by
          intro left member right _ made
          cases (each left member).kind_eq.symm.trans (made.1.isLeaf proper).kind_eq
        exact (List.pairwise_of_forall_mem_list noLeaf).isChain
  | root canonical =>
      obtain _ | _ | _ | _ | _ := shape <;> try exact canonical.elim
      obtain ⟨rfl, siblings, bounded⟩ := canonical
      have kinds : ∀ node : Node, node.IsRootBranch →
          node.kind ≠ .text ∧ node.kind ∈ Branch.expression.childKinds := by
        intro node isBranch
        rcases isBranch with isBracket | isAlternation
        · rcases isBracket.kind_cases with same | same <;> simp [same, Branch.childKinds]
        · simp [isAlternation.kind_eq, Branch.childKinds]
      refine {
        kinds := siblings.members.kinds (by decide) fun node isBranch => (kinds node isBranch).2
        several := nofun
        visible := nofun
        literal := fun _ => siblings.not_isBare (fun node isBranch => (kinds node isBranch).1)
          located (by decide)
        apart := siblings.not_made proper
        bounded := fun _ => ?_ }
      · apply bounded.imp_of_mem_imp
        intro left right leftMember rightMember pair
        exact pair.madeOf (inside left leftMember) (inside right rightMember)
          (siblings.members left leftMember) (siblings.members right rightMember)

theorem IsShaped.content_ne_nil {content : Text} (shaped : (Node.leaf start stop content).IsShaped) :
    content ≠ [] := by
  cases shaped with
  | leaf isLeaf => exact isLeaf.1.ne_nil
  | parameter impossible | optional impossible | alternative impossible | alternation impossible
  | root impossible => exact impossible.elim

/-- With every step down a tree the rank falls. -/
theorem Placed.rank_add_length_le {path : List Nat} {below : Node}
    (placed : node.Placed expression tokens) (proper : ∀ token ∈ tokens, token.Proper)
    (found : node.descendant? path = some below) :
    below.kind.rank + path.length ≤ node.kind.rank := by
  induction path generalizing node with
  | nil =>
      cases found
      exact Nat.le_refl _
  | cons index rest ih =>
      obtain ⟨child, there, further⟩ := Option.bind_eq_some_iff.mp found
      have member := List.mem_of_getElem? there
      have lower := ih (placed.of_mem member) further
      obtain _ | ⟨shape, start, stop, children⟩ := node
      · cases member
      have falls : child.kind.rank < (Kind.branch shape).rank :=
        Kind.rank_lt ((placed.wellShaped proper).kinds child member)
      exact Nat.lt_of_le_of_lt lower falls

end Node

/-- The tree of an expression has the expression as its root, well shaped branches and no empty
leaf; no kind comes up twice on the way down and the way has five steps at most. -/
theorem wellShaped_of_parse {expression : Text} {tree : Node}
    (parsed : parse expression = .ok tree) :
    ∃ tokens, tokenize expression = .ok (Token.withMarkers expression.length tokens) ∧
      tree.kind = .branch .expression ∧
      (∀ path shape start stop children,
        tree.descendant? path = some (.branch shape start stop children) →
        Node.WellShaped expression tokens shape children) ∧
      (∀ path start stop content, tree.descendant? path = some (.leaf start stop content) →
        content ≠ []) ∧
      ∀ path below, tree.descendant? path = some below →
        path.length ≤ 5 ∧ ∀ further deeper, further ≠ [] →
          below.descendant? further = some deeper → deeper.kind ≠ below.kind := by
  have spells := spells_of_parse parsed
  have proper := spells.row.proper
  have root : tree.kind = .branch .expression := by
    obtain ⟨inner, items, children, -, -, -, rfl⟩ := parse_eq_ok_iff.mp parsed
    rfl
  refine ⟨tree.tokens, tokenize_of_spells spells, root, ?_, ?_, ?_⟩
  · intro path shape start stop children found
    exact (placed_of_parse parsed found).wellShaped proper
  · intro path start stop content found
    exact (placed_of_parse parsed found).shaped.content_ne_nil
  · intro path below found
    have self : tree.descendant? [] = some tree := rfl
    have whole := placed_of_parse parsed self
    have bound := whole.rank_add_length_le proper found
    rw [root, Node.Kind.rank] at bound
    refine ⟨by omega, fun further deeper steps reached same => ?_⟩
    have lower := (placed_of_parse parsed found).rank_add_length_le proper reached
    have positive := List.length_pos_iff.mpr steps
    rw [same] at lower
    omega

theorem wellShaped_of_parse_of_nested :
    ∃ tree tokens children, parse "a (b\x7bc\x7d)/" = .ok tree ∧
      tokenize "a (b\x7bc\x7d)/" = .ok (Token.withMarkers 9 tokens) ∧
      tree.descendant? [2] = some (.branch .alternation 2 9 children) ∧
      Node.WellShaped "a (b\x7bc\x7d)/" tokens .alternation children ∧
      tree.descendant? [2, 0, 0, 1, 0] = some (.leaf 5 6 "c") := by
  have parsed : parse "a (b\x7bc\x7d)/" = .ok (.branch .expression 0 9
      [.leaf 0 1 "a", .leaf 1 2 " ", .branch .alternation 2 9
        [.branch .alternative 2 8
          [.branch .optional 2 8 [.leaf 3 4 "b", .branch .parameter 4 7 [.leaf 5 6 "c"]]],
        .branch .alternative 9 9 []]]) := by
    decide +kernel
  obtain ⟨tokens, tokenized, -, shaped, -⟩ := wellShaped_of_parse parsed
  exact ⟨_, tokens, _, parsed, tokenized, rfl, shaped [2] _ _ _ _ rfl, rfl⟩

end CucumberExpression
