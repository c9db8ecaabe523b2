import CucumberExpression.Proofs.Trees
import Mathlib.Logic.Function.Iterate

namespace CucumberExpression.Node

/-! # Pre-order

`dfs` meets every position below a node once, in the order of the positions: a position before those
below it, and these before the next one beside it. A loop over a stack lists the same nodes, and is
through when the stack is empty. -/

mutual

/-- The positions below a node, as paths of child positions. -/
def positions : Node → List (List Nat)
  | .leaf .. => []
  | .branch _ _ _ children => positionsFrom 0 children

/-- The positions of nodes, the first of which is the child at an index, and of what is below. -/
def positionsFrom (index : Nat) : List Node → List (List Nat)
  | [] => []
  | node :: rest =>
      ([index] :: node.positions.map (index :: ·)) ++ positionsFrom (index + 1) rest

end

variable {node : Node} {nodes before : List Node} {index : Nat} {path : List Nat}

theorem walk_eq_flatMap (nodes : List Node) :
    walk nodes = nodes.flatMap fun node => node :: node.dfs := by
  induction nodes with
  | nil => rw [walk, List.flatMap_nil]
  | cons node rest ih => rw [walk_cons, List.flatMap_cons, ih]

theorem walk_eq_nil_iff : walk nodes = [] ↔ nodes = [] := by
  cases nodes with
  | nil => simp [walk]
  | cons node rest => simp [walk]

theorem positions_eq (node : Node) : node.positions = positionsFrom 0 node.children := by
  cases node with
  | leaf => rw [positions, children, positionsFrom]
  | branch => rw [positions, children]

theorem mem_positionsFrom_iff :
    path ∈ positionsFrom index nodes ↔
      ∃ offset further child, path = (index + offset) :: further ∧ nodes[offset]? = some child ∧
        (further = [] ∨ further ∈ child.positions) := by
  induction nodes generalizing index with
  | nil => simp [positionsFrom]
  | cons node rest ih =>
      simp only [positionsFrom, List.mem_append, List.mem_cons, List.mem_map, ih]
      constructor
      · rintro ((rfl | ⟨further, member, rfl⟩) | ⟨offset, further, child, rfl, there, ends⟩)
        · exact ⟨0, [], node, rfl, rfl, .inl rfl⟩
        · exact ⟨0, further, node, rfl, rfl, .inr member⟩
        · exact ⟨offset + 1, further, child, by rw [Nat.add_right_comm, Nat.add_assoc], there, ends⟩
      · rintro ⟨_ | offset, further, child, rfl, there, ends⟩
        · cases there
          rcases ends with rfl | member
          · exact .inl (.inl rfl)
          · exact .inl (.inr ⟨further, member, rfl⟩)
        · exact .inr ⟨offset, further, child, by rw [Nat.add_right_comm, Nat.add_assoc], there, ends⟩

theorem mem_positions_iff :
    path ∈ node.positions ↔ path ≠ [] ∧ (node.descendant? path).isSome := by
  induction path generalizing node with
  | nil =>
      rw [positions_eq, mem_positionsFrom_iff]
      simp
  | cons first rest ih =>
      have further (child : Node) :
          rest = [] ∨ rest ∈ child.positions ↔ (child.descendant? rest).isSome := by
        cases rest with
        | nil => simp [descendant?]
        | cons => simp [ih]
      rw [positions_eq, mem_positionsFrom_iff, descendant?]
      simp only [Nat.zero_add, List.cons.injEq, ne_eq, reduceCtorEq, not_false_eq_true, true_and]
      constructor
      · rintro ⟨offset, _, child, ⟨rfl, rfl⟩, there, ends⟩
        rw [there]
        exact (further child).mp ends
      · intro found
        obtain ⟨below, reached⟩ := Option.isSome_iff_exists.mp found
        obtain ⟨child, there, reached⟩ := Option.bind_eq_some_iff.mp reached
        exact ⟨first, rest, child, ⟨rfl, rfl⟩, there, (further child).mpr (by simp [reached])⟩

/-- Positions come in their order, so none comes twice. -/
theorem pairwise_positionsFrom (each : ∀ node ∈ nodes, node.positions.Pairwise (· < ·)) :
    (positionsFrom index nodes).Pairwise (· < ·) := by
  induction nodes generalizing index with
  | nil => exact .nil
  | cons node rest ih =>
      obtain ⟨own, others⟩ := List.forall_mem_cons.mp each
      rw [positionsFrom, List.pairwise_append, List.pairwise_cons, List.pairwise_map]
      refine ⟨⟨?_, own.imp (List.cons_lt_cons_self ..).mpr⟩, ih others, ?_⟩
      · intro path member
        obtain ⟨further, below, rfl⟩ := List.mem_map.mp member
        obtain ⟨first, others, rfl⟩ := List.exists_cons_of_ne_nil (mem_positions_iff.mp below).1
        exact List.cons_lt_cons_self.mpr (List.nil_lt_cons ..)
      · intro path member other later
        obtain ⟨offset, further, child, rfl, -⟩ := mem_positionsFrom_iff.mp later
        obtain ⟨inside, rfl⟩ : ∃ inside, path = index :: inside := by
          rcases List.mem_cons.mp member with rfl | member
          · exact ⟨[], rfl⟩
          · obtain ⟨inside, -, rfl⟩ := List.mem_map.mp member
            exact ⟨inside, rfl⟩
        exact List.cons_lt_cons_iff.mpr (.inl (by omega))

theorem pairwise_positions (node : Node) : node.positions.Pairwise (· < ·) := by
  induction node using children_induction with
  | leaf => rw [positions]; exact .nil
  | branch shape start stop children ih =>
      rw [positions]
      exact pairwise_positionsFrom ih

/-- The nodes at the positions of children that stand behind others. -/
theorem map_descendant?_positionsFrom {parent : Node} (split : parent.children = before ++ nodes)
    (each : ∀ node ∈ nodes, node.positions.map node.descendant? = node.dfs.map some) :
    (positionsFrom before.length nodes).map parent.descendant? = (walk nodes).map some := by
  induction nodes generalizing before with
  | nil => rw [positionsFrom, walk, List.map_nil, List.map_nil]
  | cons node rest ih =>
      obtain ⟨own, others⟩ := List.forall_mem_cons.mp each
      have through (further : List Nat) :
          parent.descendant? (before.length :: further) = node.descendant? further := by
        simp [descendant?, split]
      have behind := @ih (before ++ [node]) (by simp [split]) others
      rw [List.length_append, List.length_singleton] at behind
      rw [positionsFrom, List.map_append, behind, List.map_cons, List.map_map, walk_cons,
        List.map_append, List.map_cons, ← own, through]
      simp only [Function.comp_def, through]
      rfl

theorem map_descendant?_positions (node : Node) :
    node.positions.map node.descendant? = node.dfs.map some := by
  induction node using children_induction with
  | leaf start stop token =>
      rw [positions, dfs, children, walk, List.map_nil, List.map_nil]
  | branch shape start stop children ih =>
      rw [positions]
      exact @map_descendant?_positionsFrom children [] (.branch shape start stop children) rfl ih

theorem textOfAll_append (left right : List Node) :
    textOfAll (left ++ right) = textOfAll left ++ textOfAll right := by
  induction left with
  | nil => rfl
  | cons node rest ih => rw [List.cons_append, textOfAll, textOfAll, ih, List.append_assoc]

theorem text_eq (node : Node) : node.text = node.token?.getD [] ++ textOfAll node.children := by
  cases node with
  | leaf start stop token => exact (List.append_nil token).symm
  | branch => rfl

theorem textOfAll_eq_walk (nodes : List Node) :
    textOfAll nodes = ((walk nodes).filterMap token?).flatten := by
  induction nodes using walk.induct with
  | case1 => rw [walk]; rfl
  | case2 node pending ih =>
      rw [textOfAll_append] at ih
      rw [walk, textOfAll, text_eq, List.append_assoc, ih]
      cases node <;> rfl

/-- What a loop has listed, and the nodes that it still has to take from its stack, the last one
first. -/
structure Listing where
  listed : List Node
  stack : List Node

namespace Listing

/-- One round lists the node on top of the stack and puts its children there instead, the first one
on top. -/
def round (listing : Listing) : Listing :=
  match listing.stack.getLast? with
  | none => listing
  | some top =>
      ⟨listing.listed ++ [top], listing.stack.dropLast ++ top.children.reverse⟩

def ofChildren (node : Node) : Listing :=
  ⟨[], node.children.reverse⟩

variable {listing : Listing}

/-- The stack is a forest that is still to be walked, from its top on. -/
theorem round_eq (listing : Listing) :
    listing.round.listed = listing.listed ++ (walk listing.stack.reverse).take 1 ∧
      walk listing.round.stack.reverse = (walk listing.stack.reverse).drop 1 := by
  obtain ⟨listed, stack⟩ := listing
  rcases List.eq_nil_or_concat stack with rfl | ⟨rest, top, rfl⟩
  · simp [round, walk]
  · simp [round, walk]

theorem iterate_round (listing : Listing) (rounds : Nat) :
    (round^[rounds] listing).listed =
        listing.listed ++ (walk listing.stack.reverse).take rounds ∧
      walk (round^[rounds] listing).stack.reverse =
        (walk listing.stack.reverse).drop rounds := by
  induction rounds with
  | zero => simp
  | succ rounds ih =>
      obtain ⟨listed, pending⟩ := ih
      obtain ⟨next, remaining⟩ := round_eq (round^[rounds] listing)
      rw [Function.iterate_succ_apply', next, remaining, listed, pending, List.append_assoc,
        List.drop_drop, ← List.take_add]
      exact ⟨rfl, rfl⟩

end Listing

/-- What is below a node comes child by child, each child before what is below it. So every position
below comes once, and in order. A loop over a stack lists one node a round, and has emptied the stack
when it has listed all. The text of a branch is that of the leaves below. -/
theorem dfs_eq_preorder (node : Node) :
    node.dfs = node.children.flatMap (fun child => child :: child.dfs) ∧
      node.positions.map node.descendant? = node.dfs.map some ∧
      (∀ path, path ∈ node.positions ↔ path ≠ [] ∧ (node.descendant? path).isSome) ∧
      node.positions.Nodup ∧ node.positions.Pairwise (· < ·) ∧
      (∀ rounds, (Listing.round^[rounds] (.ofChildren node)).listed = node.dfs.take rounds ∧
        ((Listing.round^[rounds] (.ofChildren node)).stack = [] ↔ node.dfs.length ≤ rounds)) ∧
      (node.kind ≠ .text → node.text = (node.dfs.filterMap token?).flatten) := by
  have ordered := pairwise_positions node
  have once : node.positions.Nodup := by
    apply ordered.imp
    rintro path _ less rfl
    exact List.lt_irrefl path less
  refine ⟨walk_eq_flatMap node.children, map_descendant?_positions node,
    fun path => mem_positions_iff, once, ordered, fun rounds => ?_, ?_⟩
  · obtain ⟨listed, pending⟩ := Listing.iterate_round (.ofChildren node) rounds
    rw [Listing.ofChildren, List.reverse_reverse] at listed pending
    refine ⟨listed, ?_⟩
    rw [Listing.ofChildren, ← List.reverse_eq_nil_iff, ← walk_eq_nil_iff, pending,
      List.drop_eq_nil_iff, dfs]
  · intro isBranch
    obtain _ | ⟨shape, start, stop, children⟩ := node
    · exact absurd rfl isBranch
    · exact textOfAll_eq_walk children

/-- Two children that are the same node are listed at each of their positions. -/
theorem dfs_eq_preorder_of_twins :
    let twin := Node.branch .optional 1 2 [.leaf 1 2 "a"]
    let node := Node.branch .expression 0 3 [twin, .leaf 2 3 "b", twin]
    node.positions = [[0], [0, 0], [1], [2], [2, 0]] ∧
      node.dfs = [twin, .leaf 1 2 "a", .leaf 2 3 "b", twin, .leaf 1 2 "a"] ∧
      (Listing.round^[5] (.ofChildren node)).stack = [] ∧
      node.kind ≠ .text ∧ node.text = (node.dfs.filterMap token?).flatten ∧ node.text = "aba" := by
  intro twin node
  obtain ⟨-, -, -, -, -, rounds, text⟩ := dfs_eq_preorder node
  have isBranch : node.kind ≠ .text := by decide
  have listed : node.dfs = [twin, .leaf 1 2 "a", .leaf 2 3 "b", twin, .leaf 1 2 "a"] := by
    simp [node, twin, dfs, walk, children]
  refine ⟨rfl, listed, (rounds 5).2.mpr (by rw [listed]; exact Nat.le_refl 5), isBranch,
    text isBranch, rfl⟩

end CucumberExpression.Node
