import CucumberExpression.Node.Traversal

namespace CucumberExpression.Node

/-! # Whole trees

A property of trees is shown for a branch from its children, or for a child from its parent. What
holds throughout a tree holds of its root and throughout its children. -/

variable {holds : Node → Prop} {tree child below : Node} {path : List Nat}

@[elab_as_elim]
theorem children_induction {motive : Node → Prop}
    (leaf : ∀ start stop token, motive (.leaf start stop token))
    (branch : ∀ shape start stop children, (∀ child ∈ children, motive child) →
      motive (.branch shape start stop children))
    (node : Node) : motive node := by
  refine @Node.rec motive (fun nodes => ∀ child ∈ nodes, motive child) leaf branch ?_ ?_ node
  · exact List.forall_mem_nil _
  · exact fun _ _ first others => List.forall_mem_cons.mpr ⟨first, others⟩

theorem descendant_induction {motive : Node → Prop} (root : motive tree)
    (step : ∀ node child, motive node → child ∈ node.children → motive child)
    (found : tree.descendant? path = some below) : motive below := by
  induction path generalizing tree with
  | nil =>
      cases found
      exact root
  | cons index rest ih =>
      obtain ⟨child, there, further⟩ := Option.bind_eq_some_iff.mp found
      exact ih (step tree child root (List.mem_of_getElem? there)) further

/-- Whether something holds of a tree and of all that is below. -/
def Throughout (holds : Node → Prop) (tree : Node) : Prop :=
  ∀ path below, tree.descendant? path = some below → holds below

theorem throughout_iff :
    tree.Throughout holds ↔ holds tree ∧ ∀ child ∈ tree.children, child.Throughout holds := by
  constructor
  · intro throughout
    refine ⟨throughout [] tree rfl, ?_⟩
    intro child member path below found
    obtain ⟨index, there⟩ := List.getElem?_of_mem member
    exact throughout (index :: path) below (Option.bind_eq_some_iff.mpr ⟨child, there, found⟩)
  · rintro ⟨root, inside⟩ path below found
    cases path with
    | nil =>
        cases found
        exact root
    | cons index rest =>
        obtain ⟨child, there, further⟩ := Option.bind_eq_some_iff.mp found
        exact inside child (List.mem_of_getElem? there) rest below further

theorem throughout_leaf {start stop : Int} {token : Text} :
    (Node.leaf start stop token).Throughout holds ↔ holds (.leaf start stop token) := by
  rw [throughout_iff]
  exact and_iff_left (List.forall_mem_nil _)

theorem throughout_branch {shape : Branch} {start stop : Int} {children : List Node} :
    (Node.branch shape start stop children).Throughout holds ↔
      holds (.branch shape start stop children) ∧ ∀ child ∈ children, child.Throughout holds :=
  throughout_iff

theorem not_throughout_iff :
    ¬ tree.Throughout holds ↔
      ∃ path below, tree.descendant? path = some below ∧ ¬ holds below := by
  simp [Throughout]

end CucumberExpression.Node
