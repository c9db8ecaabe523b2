import CucumberExpression.Proofs.RoundTrip

namespace CucumberExpression

/-! # Descendants

What nodes hand down to their children holds of all that is below. So every node of a tree that was
read has a shape, stands where its span says and has tokens of the expression. -/

namespace Node

variable {node child : Node} {nodes : List Node}

theorem tokens_subset_alternatives (member : child ∈ nodes) :
    child.tokens ⊆ tokensOfAlternatives nodes := by
  induction nodes with
  | nil => cases member
  | cons node rest ih =>
      cases rest with
      | nil =>
          obtain rfl : child = node := List.mem_singleton.mp member
          exact List.Subset.refl _
      | cons second rest =>
          rw [tokensOfAlternatives_cons_cons]
          rcases List.mem_cons.mp member with rfl | member
          · exact List.subset_append_left ..
          · exact List.subset_append_of_subset_right _ (List.subset_cons_of_subset _ (ih member))

theorem tokens_subset (member : child ∈ node.children) : child.tokens ⊆ node.tokens := by
  obtain _ | ⟨shape, start, stop, children⟩ := node
  · cases member
  replace member : child ∈ children := member
  have inside : child.tokens ⊆ tokensOfAll children := by
    rw [tokensOfAll_eq_flatMap]
    exact fun token own => List.mem_flatMap.mpr ⟨child, member, own⟩
  cases shape with
  | expression | alternative => exact inside
  | optional | parameter =>
      exact List.subset_cons_of_subset _ (List.subset_append_of_subset_left _ inside)
  | alternation => exact tokens_subset_alternatives member

/-- A node of the tree of an expression, seen from the expression. -/
structure Placed (expression : Text) (tokens : List Token) (node : Node) : Prop where
  shaped : node.IsShaped
  located : node.Located expression
  tokens : node.tokens ⊆ tokens

theorem Placed.of_mem {expression : Text} {tokens : List Token}
    (placed : node.Placed expression tokens) (member : child ∈ node.children) :
    child.Placed expression tokens := by
  obtain ⟨shaped, step⟩ := placed.shaped.of_mem member
  exact ⟨shaped, step placed.located, List.Subset.trans (tokens_subset member) placed.tokens⟩

end Node

variable {expression : Text} {tree : Node}

/-- The tokens of an expression that was read are those of its tree. -/
theorem spells_of_parse (parsed : parse expression = .ok tree) :
    Token.Spells 0 tree.tokens expression.length expression := by
  obtain ⟨canonical, rfl⟩ := canonical_of_parse parsed
  obtain ⟨children, -, spells⟩ := canonical.spells
  have length := spells.high_eq
  rw [Int.zero_add] at length
  rw [← length]
  exact spells

theorem placed_of_parse (parsed : parse expression = .ok tree) {path : List Nat} {below : Node}
    (found : tree.descendant? path = some below) : below.Placed expression tree.tokens := by
  obtain ⟨canonical, rfl⟩ := canonical_of_parse parsed
  have shaped : tree.IsShaped := .root canonical
  have located : tree.Located tree.source := by
    have start : tree.start = ([] : Text).length := by
      obtain ⟨children, same, -⟩ := canonical.spells
      rw [same]
      rfl
    simpa using shaped.sound.located start []
  apply Node.descendant_induction (motive := (·.Placed tree.source tree.tokens)) ?_ ?_ found
  · exact ⟨shaped, located, List.Subset.refl _⟩
  · exact fun node child placed member => placed.of_mem member

end CucumberExpression
