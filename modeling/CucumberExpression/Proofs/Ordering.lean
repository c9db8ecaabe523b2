import CucumberExpression.Proofs.Canonical
import CucumberExpression.Proofs.Nesting
import CucumberExpression.Proofs.Spacing
import CucumberExpression.Proofs.Stages
import CucumberExpression.Proofs.Trees
import CucumberExpression.Proofs.Words

namespace CucumberExpression

/-! # Tokens in order

Tokens whose spans are spaced out can be read when their kinds are nested, and have an opening token
that is not closed when they are not: no span that is made on the way is in the way. In the tree the
children of each node are spaced out over its span. -/

abbrev Token.Ordered : Int → List Token → Int → Prop :=
  Spaced Token.start Token.stop

namespace Token.Ordered

variable {tokens content rest : List Token} {opener closer : Token} {low high : Int}

theorem valid (ordered : Token.Ordered low tokens high) (nonnegative : 0 ≤ low) :
    ∀ token ∈ tokens, token.Valid := by
  intro token member
  obtain ⟨below, forward, -⟩ := ordered.inside member
  exact ⟨Int.le_trans nonnegative below, forward⟩

theorem of_brackets (ordered : Token.Ordered low (opener :: (content ++ closer :: rest)) high) :
    low ≤ opener.start ∧ opener.start ≤ opener.stop ∧
      Token.Ordered opener.stop content closer.start ∧ closer.start ≤ closer.stop ∧
      Token.Ordered closer.stop rest high := by
  obtain ⟨below, opens, tail⟩ := ordered
  obtain ⟨middle, inner, before, closes, back⟩ := Spaced.append_iff.mp tail
  exact ⟨below, opens, inner.widen_right before, closes, back⟩

theorem forward_brackets (ordered : Token.Ordered low (opener :: (content ++ closer :: rest)) high)
    (nonnegative : 0 ≤ low) : Forward opener.start closer.stop := by
  obtain ⟨below, opens, inner, closes, -⟩ := ordered.of_brackets
  have within := inner.low_le_high
  exact ⟨by omega, by omega⟩

end Token.Ordered

namespace Token

variable {tokens : List Token} {low high : Int}

theorem Row.ordered (row : Row low tokens high) : Ordered low tokens high :=
  .of_tiled (fun token member => Int.le_of_lt (row.proper token member).start_lt_stop) row.tiled

theorem Row.valid (row : Row low tokens high) (nonnegative : 0 ≤ low) :
    ∀ token ∈ tokens, token.Valid :=
  row.ordered.valid nonnegative

end Token

namespace Node

abbrev Ordered : Int → List Node → Int → Prop :=
  Spaced Node.start Node.stop

/-- Whether the children of a node lie inside its span, one after the other. -/
def IsOrdered (node : Node) : Prop :=
  Ordered node.start node.children node.stop

/-- Nodes that lie inside a range one after the other, and so do the children of all that is below. -/
structure Arranged (low : Int) (nodes : List Node) (high : Int) : Prop where
  ordered : Ordered low nodes high
  below : ∀ node ∈ nodes, node.Throughout IsOrdered

variable {node : Node} {nodes left right : List Node} {low middle high : Int}

theorem throughout_isOrdered_iff {shape : Branch} :
    (branch shape low high nodes).Throughout IsOrdered ↔ Arranged low nodes high := by
  rw [throughout_branch]
  exact ⟨fun throughout => ⟨throughout.1, throughout.2⟩, fun arranged => ⟨arranged.1, arranged.2⟩⟩

namespace Arranged

theorem nil (forward : low ≤ high) : Arranged low [] high :=
  ⟨forward, List.forall_mem_nil _⟩

theorem append_iff :
    Arranged low (left ++ right) high ↔
      ∃ middle, Arranged low left middle ∧ Arranged middle right high := by
  constructor
  · intro arranged
    obtain ⟨middle, front, back⟩ := Spaced.append_iff.mp arranged.ordered
    obtain ⟨first, second⟩ := List.forall_mem_append.mp arranged.below
    exact ⟨middle, ⟨front, first⟩, ⟨back, second⟩⟩
  · rintro ⟨middle, front, back⟩
    exact ⟨front.ordered.append back.ordered, List.forall_mem_append.mpr ⟨front.below, back.below⟩⟩

theorem append (first : Arranged low left middle) (second : Arranged middle right high) :
    Arranged low (left ++ right) high :=
  append_iff.mpr ⟨middle, first, second⟩

theorem widen {lower higher : Int} (arranged : Arranged low nodes high) (below : lower ≤ low)
    (above : high ≤ higher) : Arranged lower nodes higher :=
  ⟨(arranged.ordered.widen_left below).widen_right above, arranged.below⟩

theorem cons_iff :
    Arranged low (node :: nodes) high ↔
      low ≤ node.start ∧ node.start ≤ node.stop ∧ node.Throughout IsOrdered ∧
        Arranged node.stop nodes high := by
  constructor
  · rintro ⟨⟨before, own, tail⟩, below⟩
    obtain ⟨inside, others⟩ := List.forall_mem_cons.mp below
    exact ⟨before, own, inside, tail, others⟩
  · rintro ⟨before, own, inside, tail, others⟩
    exact ⟨⟨before, own, tail⟩, List.forall_mem_cons.mpr ⟨inside, others⟩⟩

/-- A branch is put around nodes that lie inside its span. -/
theorem cons_branch {shape : Branch} {start stop : Int} {children : List Node}
    (before : low ≤ start) (inside : Arranged start children stop)
    (rest : Arranged stop nodes high) :
    Arranged low (branch shape start stop children :: nodes) high :=
  cons_iff.mpr ⟨before, inside.ordered.low_le_high, throughout_isOrdered_iff.mpr inside, rest⟩

theorem cons_leaf_iff {token : Token} :
    Arranged low (token.leaf :: nodes) high ↔
      low ≤ token.start ∧ token.start ≤ token.stop ∧ Arranged token.stop nodes high := by
  rw [cons_iff, Token.leaf, throughout_leaf]
  constructor
  · rintro ⟨before, own, -, rest⟩
    exact ⟨before, own, rest⟩
  · rintro ⟨before, own, rest⟩
    exact ⟨before, own, own, rest⟩

theorem map_leaf {tokens : List Token} (ordered : Token.Ordered low tokens high) :
    Arranged low (tokens.map Token.leaf) high := by
  induction tokens generalizing low with
  | nil => exact nil ordered
  | cons token rest ih =>
      obtain ⟨before, own, tail⟩ := ordered
      exact cons_leaf_iff.mpr ⟨before, own, ih tail⟩

/-- A bracket is put around what stands between its tokens. -/
theorem bracket {shape : Branch} {opener closer : Token} {content rest : List Token}
    {children : List Node}
    (ordered : Token.Ordered low (opener :: (content ++ closer :: rest)) high)
    (inside : Arranged opener.stop children closer.start)
    (others : Arranged closer.stop nodes high) :
    Arranged low (branch shape opener.start closer.stop children :: nodes) high := by
  obtain ⟨before, opens, -, closes, -⟩ := ordered.of_brackets
  exact cons_branch before (inside.widen opens closes) others

end Arranged

section

variable {content : List Token}

theorem exists_readsContent (nested : Token.Nested Token.optionalContent content)
    (ordered : Token.Ordered low content high) (nonnegative : 0 ≤ low) :
    ∃ nodes, ReadsContent content nodes := by
  apply Token.Nested.star_induction (motive := fun content => ∀ low,
    Token.Ordered low content high → 0 ≤ low → ∃ nodes, ReadsContent content nodes) ?_ ?_ nested low
    ordered nonnegative
  · exact fun _ _ _ => ⟨[], .nil⟩
  · intro front back first rest low ordered nonnegative
    have valid := ordered.valid nonnegative
    rcases first.content_part_cases with
      ⟨token, rfl, plain, -⟩ | ⟨opener, content, closer, rfl, brackets, -⟩
    · have own := valid token (by simp)
      obtain ⟨nodes, reads⟩ := rest token.stop ordered.2.2 own.nonnegative
      exact ⟨_, .leaf plain own reads⟩
    · rw [List.cons_append, List.append_assoc] at ordered valid ⊢
      have span := ordered.forward_brackets nonnegative
      obtain ⟨-, -, -, -, tail⟩ := ordered.of_brackets
      obtain ⟨nodes, reads⟩ := rest closer.stop tail span.nonnegative
      exact ⟨_, .parameter brackets (fun token member => valid token (by simp [member])) span reads⟩

theorem ReadsContent.arranged (reads : ReadsContent content nodes)
    (ordered : Token.Ordered low content high) : Arranged low nodes high := by
  induction reads generalizing low with
  | nil => exact .nil ordered
  | leaf plain valid others ih =>
      obtain ⟨before, own, tail⟩ := ordered
      exact Arranged.cons_leaf_iff.mpr ⟨before, own, ih tail⟩
  | parameter brackets valid forward others ih =>
      obtain ⟨-, -, inner, -, tail⟩ := ordered.of_brackets
      exact .bracket ordered (.map_leaf inner) (ih tail)

end

end Node

/-- A part of a word as a node; a separator is one as if it were text. -/
def Part.asNode : Part → Node
  | .node child => child
  | .separator token => token.leaf

theorem Part.start_asNode (part : Part) : part.asNode.start = part.start := by
  cases part <;> rfl

theorem Part.stop_asNode (part : Part) : part.asNode.stop = part.stop := by
  cases part <;> rfl

theorem Part.map_asNode_node (nodes : List Node) : (nodes.map Part.node).map Part.asNode = nodes := by
  rw [List.map_map]
  exact List.map_id nodes

def Item.asNode : Item → Node
  | .part piece => piece.asNode
  | .space token => token.leaf

namespace Item

variable {tokens : List Token} {items : List Item} {low high : Int}

theorem exists_reads (nested : Token.Nested Token.nesting tokens)
    (ordered : Token.Ordered low tokens high) (nonnegative : 0 ≤ low) :
    ∃ items, Reads tokens items := by
  apply Token.Nested.star_induction (motive := fun tokens => ∀ low,
    Token.Ordered low tokens high → 0 ≤ low → ∃ items, Reads tokens items) ?_ ?_ nested low ordered
    nonnegative
  · exact fun _ _ _ => ⟨[], .nil⟩
  · intro front back first rest low ordered nonnegative
    have valid := ordered.valid nonnegative
    rcases first.nesting_part_cases with ⟨token, rfl, parameter, optional⟩ |
      ⟨opener, content, closer, rfl, brackets⟩ | ⟨opener, content, closer, rfl, brackets, within⟩
    · have own := valid token (by simp)
      obtain ⟨items, reads⟩ := rest token.stop ordered.2.2 own.nonnegative
      by_cases space : token.kind = .space
      · exact ⟨_, .space space reads⟩
      by_cases separator : token.kind = .separator
      · exact ⟨_, .separator separator reads⟩
      exact ⟨_, .leaf ⟨parameter, optional, space, separator⟩ own reads⟩
    · rw [List.cons_append, List.append_assoc] at ordered valid ⊢
      have span := ordered.forward_brackets nonnegative
      obtain ⟨-, -, -, -, tail⟩ := ordered.of_brackets
      obtain ⟨items, reads⟩ := rest closer.stop tail span.nonnegative
      exact ⟨_, .parameter brackets (fun token member => valid token (by simp [member])) span reads⟩
    · rw [List.cons_append, List.append_assoc] at ordered valid ⊢
      have span := ordered.forward_brackets nonnegative
      have opened := valid opener (by simp)
      obtain ⟨-, -, inner, -, tail⟩ := ordered.of_brackets
      obtain ⟨items, reads⟩ := rest closer.stop tail span.nonnegative
      obtain ⟨nodes, content⟩ := Node.exists_readsContent within inner opened.nonnegative
      exact ⟨_, .optional brackets content span reads⟩

theorem Reads.arranged (reads : Reads tokens items) (ordered : Token.Ordered low tokens high) :
    Node.Arranged low (items.map asNode) high := by
  induction reads generalizing low with
  | nil => exact .nil ordered
  | leaf plain valid others ih =>
      obtain ⟨before, own, tail⟩ := ordered
      exact Node.Arranged.cons_leaf_iff.mpr ⟨before, own, ih tail⟩
  | space kind others ih =>
      obtain ⟨before, own, tail⟩ := ordered
      exact Node.Arranged.cons_leaf_iff.mpr ⟨before, own, ih tail⟩
  | separator kind others ih =>
      obtain ⟨before, own, tail⟩ := ordered
      exact Node.Arranged.cons_leaf_iff.mpr ⟨before, own, ih tail⟩
  | parameter brackets valid forward others ih =>
      obtain ⟨-, -, inner, -, tail⟩ := ordered.of_brackets
      exact .bracket ordered (.map_leaf inner) (ih tail)
  | optional brackets reads forward others ih =>
      obtain ⟨-, -, inner, -, tail⟩ := ordered.of_brackets
      exact .bracket ordered (reads.arranged inner) (ih tail)

end Item

namespace Node

variable {parts word : List Part} {items : List Item} {children nodes : List Node}
  {start stop low high : Int}

theorem exists_alternatives (before : List Node)
    (arranged : Arranged start (parts.map Part.asNode) stop) (nonnegative : 0 ≤ start) :
    ∃ children, alternatives stop start before parts = .ok children := by
  induction parts generalizing start before with
  | nil =>
      simp only [alternatives, bind_eq_ok_iff, pure_eq_ok_iff, orInvalid_newBranch_eq_ok_iff]
      exact ⟨_, _, ⟨⟨nonnegative, arranged.ordered⟩, rfl⟩, rfl⟩
  | cons part rest ih =>
      rw [List.map_cons] at arranged
      cases part with
      | node child =>
          obtain ⟨below, own, -, tail⟩ := Arranged.cons_iff.mp arranged
          exact ih (before ++ [child]) (tail.widen (Int.le_trans below own) (Int.le_refl _))
            nonnegative
      | separator token =>
          obtain ⟨below, own, tail⟩ := Arranged.cons_leaf_iff.mp arranged
          obtain ⟨children, made⟩ := ih [] tail (by omega)
          simp only [alternatives, bind_eq_ok_iff, pure_eq_ok_iff, orInvalid_newBranch_eq_ok_iff]
          exact ⟨_, _, ⟨⟨nonnegative, below⟩, rfl⟩, _, made, rfl⟩

theorem ReadsAlternatives.arranged (reads : ReadsAlternatives stop start word children)
    (arranged : Arranged start (word.map Part.asNode) stop) : Arranged start children stop := by
  induction reads with
  | last nodes forward =>
      rw [Part.map_asNode_node] at arranged
      exact .cons_branch (Int.le_refl _) arranged (.nil (Int.le_refl _))
  | next nodes forward others ih =>
      rw [List.map_append, Part.map_asNode_node, List.map_cons] at arranged
      obtain ⟨middle, own, separated⟩ := Arranged.append_iff.mp arranged
      obtain ⟨before, width, tail⟩ := Arranged.cons_leaf_iff.mp separated
      exact .cons_branch (Int.le_refl _) (own.widen (Int.le_refl _) before)
        ((ih tail).widen width (Int.le_refl _))

/-- A word is as wide as from its first to its last part. -/
theorem Arranged.tight {first : Part} {rest : List Part}
    (arranged : Arranged low ((first :: rest).map Part.asNode) high) :
    Arranged first.start ((first :: rest).map Part.asNode) (rest.getLastD first).stop ∧
      low ≤ first.start ∧ (rest.getLastD first).stop ≤ high := by
  have spaced := Spaced.map_iff.mp arranged.ordered
  have below := (spaced.inside (List.mem_cons_self ..)).1
  have above := (spaced.inside (List.getLastD_mem_cons ..)).2.2
  have narrow := Spaced.map_iff.mpr spaced.tight
  simp only [Function.comp_apply, Part.start_asNode, Part.stop_asNode] at below above narrow
  exact ⟨⟨narrow, arranged.below⟩, below, above⟩

theorem exists_ofWord (arranged : Arranged low (word.map Part.asNode) high)
    (nonnegative : 0 ≤ low) : ∃ nodes, ofWord word = .ok nodes := by
  cases separated : word.any Part.isSeparator with
  | false =>
      obtain ⟨nodes, rfl⟩ := exists_nodes separated
      exact ⟨nodes, ofWord_map_node nodes⟩
  | true =>
      obtain ⟨first, rest, rfl⟩ : ∃ first rest, word = first :: rest :=
        List.exists_cons_of_ne_nil (by rintro rfl; cases separated)
      obtain ⟨narrow, below, -⟩ := arranged.tight
      have nonnegative' := Int.le_trans nonnegative below
      obtain ⟨children, made⟩ := exists_alternatives [] narrow nonnegative'
      exact ⟨_, (ofWord_eq_ok_iff separated).mpr ⟨children, rfl,
        ⟨nonnegative', narrow.ordered.low_le_high⟩, alternatives_eq_ok_iff.mp made⟩⟩

theorem arranged_ofWord (made : ofWord word = .ok nodes)
    (arranged : Arranged low (word.map Part.asNode) high) : Arranged low nodes high := by
  cases separated : word.any Part.isSeparator with
  | false =>
      obtain ⟨others, rfl⟩ := exists_nodes separated
      rw [ofWord_map_node] at made
      cases made
      rwa [Part.map_asNode_node] at arranged
  | true =>
      obtain ⟨first, rest, rfl⟩ : ∃ first rest, word = first :: rest :=
        List.exists_cons_of_ne_nil (by rintro rfl; cases separated)
      obtain ⟨children, rfl, -, reads⟩ := (ofWord_eq_ok_iff separated).mp made
      obtain ⟨narrow, below, above⟩ := arranged.tight
      exact .cons_branch below (reads.arranged narrow) (.nil above)

theorem exists_ofItems (word : List Part)
    (arranged : Arranged low (word.map Part.asNode ++ items.map Item.asNode) high)
    (nonnegative : 0 ≤ low) : ∃ nodes, ofItems word items = .ok nodes := by
  induction items generalizing word low with
  | nil =>
      rw [List.map_nil, List.append_nil] at arranged
      exact exists_ofWord arranged nonnegative
  | cons item rest ih =>
      cases item with
      | part part =>
          apply ih (word ++ [part]) ?_ nonnegative
          rw [List.map_append, List.append_assoc]
          exact arranged
      | space token =>
          obtain ⟨middle, own, back⟩ := Arranged.append_iff.mp arranged
          obtain ⟨below, width, tail⟩ := Arranged.cons_leaf_iff.mp back
          have further := own.ordered.low_le_high
          have valid : token.Valid := ⟨by omega, width⟩
          obtain ⟨front, first⟩ := exists_ofWord own nonnegative
          obtain ⟨after, remaining⟩ := ih [] tail valid.nonnegative
          exact ⟨_, ofItems_space_eq_ok_iff.mpr ⟨front, after, first, valid, remaining, rfl⟩⟩

theorem arranged_ofItems (made : ofItems word items = .ok nodes)
    (arranged : Arranged low (word.map Part.asNode ++ items.map Item.asNode) high) :
    Arranged low nodes high := by
  induction items generalizing word low nodes with
  | nil =>
      rw [List.map_nil, List.append_nil] at arranged
      exact arranged_ofWord made arranged
  | cons item rest ih =>
      cases item with
      | part part =>
          have longer : ofItems (word ++ [part]) rest = .ok nodes := made
          apply ih longer
          rw [List.map_append, List.append_assoc]
          exact arranged
      | space token =>
          obtain ⟨middle, own, back⟩ := Arranged.append_iff.mp arranged
          obtain ⟨below, width, tail⟩ := Arranged.cons_leaf_iff.mp back
          obtain ⟨front, after, first, -, remaining, rfl⟩ := ofItems_space_eq_ok_iff.mp made
          exact (arranged_ofWord first own).append
            (Arranged.cons_leaf_iff.mpr ⟨below, width, ih remaining tail⟩)

section

variable {expression : Text} {first last : Token} {inner tokens : List Token} {tree : Node}

theorem exists_ofTokens (starts : first.kind = .lineStart) (ends : last.kind = .lineEnd)
    (ordered : Token.Ordered low (first :: (inner ++ [last])) high) (nonnegative : 0 ≤ low)
    (nested : Token.Nested Token.nesting inner) :
    ∃ tree, ofTokens expression (first :: (inner ++ [last])) = .ok tree := by
  have forward := ordered.forward_brackets nonnegative
  obtain ⟨below, opens, between, -⟩ := ordered.of_brackets
  have further : 0 ≤ first.stop := by omega
  obtain ⟨items, reads⟩ := Item.exists_reads nested between further
  obtain ⟨children, made⟩ := exists_ofItems [] (reads.arranged between) further
  exact ⟨_, ofTokens_eq_ok_iff.mpr
    ⟨first, inner, last, items, children, rfl, starts, ends, reads, made, forward, rfl⟩⟩

/-- What is read from tokens in order is in order at every node. -/
theorem throughout_isOrdered (read : ofTokens expression tokens = .ok tree)
    (ordered : Token.Ordered low tokens high) : tree.Throughout IsOrdered := by
  obtain ⟨first, inner, last, items, children, rfl, -, -, reads, made, -, rfl⟩ :=
    ofTokens_eq_ok_iff.mp read
  obtain ⟨-, opens, between, closes, -⟩ := ordered.of_brackets
  have arranged := arranged_ofItems made (reads.arranged between)
  exact throughout_isOrdered_iff.mpr (arranged.widen opens closes)

end

end Node

end CucumberExpression
