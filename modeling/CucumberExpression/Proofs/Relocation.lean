import CucumberExpression.Proofs.Stopping
import CucumberExpression.Proofs.Words

namespace CucumberExpression

/-! # Relocation

Reading copies the offsets of tokens into the tree and only looks whether spans go forward. So where
the offsets of tokens are moved and their spans still go forward, the tree is the same with its
offsets moved, and so is the column of a diagnostic. The expression is only for showing: another one
makes no difference to the tree. -/

def Token.relocate (place : Int → Int) (token : Token) : Token :=
  { token with start := place token.start, stop := place token.stop }

namespace Node

mutual

def relocate (place : Int → Int) : Node → Node
  | .leaf start stop content => .leaf (place start) (place stop) content
  | .branch shape start stop children =>
      .branch shape (place start) (place stop) (relocateAll place children)

def relocateAll (place : Int → Int) : List Node → List Node
  | [] => []
  | node :: rest => node.relocate place :: relocateAll place rest

end

variable (place : Int → Int)

theorem relocateAll_eq_map (nodes : List Node) :
    relocateAll place nodes = nodes.map (relocate place) := by
  induction nodes with
  | nil => rfl
  | cons node rest ih => rw [relocateAll, List.map_cons, ih]

theorem relocate_branch (shape : Branch) (start stop : Int) (children : List Node) :
    relocate place (.branch shape start stop children) =
      .branch shape (place start) (place stop) (children.map (relocate place)) := by
  rw [relocate, relocateAll_eq_map]

theorem start_relocate (node : Node) : (node.relocate place).start = place node.start := by
  cases node <;> rfl

theorem stop_relocate (node : Node) : (node.relocate place).stop = place node.stop := by
  cases node <;> rfl

end Node

def Part.relocate (place : Int → Int) : Part → Part
  | .node child => .node (child.relocate place)
  | .separator token => .separator (token.relocate place)

theorem Part.start_relocate (place : Int → Int) (part : Part) :
    (part.relocate place).start = place part.start := by
  cases part with
  | node child => exact child.start_relocate place
  | separator token => rfl

theorem Part.stop_relocate (place : Int → Int) (part : Part) :
    (part.relocate place).stop = place part.stop := by
  cases part with
  | node child => exact child.stop_relocate place
  | separator token => rfl

def Item.relocate (place : Int → Int) : Item → Item
  | .part piece => .part (piece.relocate place)
  | .space token => .space (token.relocate place)

/-- Whether spans that go forward still do when offsets are moved. -/
def KeepsForward (place : Int → Int) : Prop :=
  ∀ start stop, Forward start stop → Forward (place start) (place stop)

theorem KeepsForward.add {distance : Int} (nonnegative : 0 ≤ distance) :
    KeepsForward (· + distance) := by
  intro start stop forward
  obtain ⟨low, ordered⟩ := forward
  exact ⟨Int.add_nonneg low nonnegative, Int.add_le_add_right ordered distance⟩

theorem KeepsForward.of_monotone {place : Int → Int}
    (monotone : ∀ low high, low ≤ high → place low ≤ place high)
    (nonnegative : ∀ offset, 0 ≤ place offset) : KeepsForward place :=
  fun start stop forward => ⟨nonnegative start, monotone start stop forward.2⟩

section

variable {place : Int → Int} {opening closing : Token.Kind} {opener closer : Token}
  {content tokens : List Token} {items : List Item} {nodes : List Node}

theorem Token.Brackets.relocate (brackets : Brackets opening closing opener content closer)
    (place : Int → Int) :
    Brackets opening closing (opener.relocate place) (content.map (Token.relocate place))
      (closer.relocate place) :=
  ⟨brackets.opens, brackets.closes, List.forall_mem_map.mpr brackets.inside⟩

theorem Token.map_leaf_relocate (place : Int → Int) (tokens : List Token) :
    (tokens.map (Token.relocate place)).map Token.leaf =
      (tokens.map Token.leaf).map (Node.relocate place) := by
  rw [List.map_map, List.map_map]
  rfl

theorem valid_relocate (keeps : KeepsForward place) (valid : ∀ token ∈ tokens, token.Valid) :
    ∀ token ∈ tokens.map (Token.relocate place), token.Valid :=
  List.forall_mem_map.mpr fun token member => keeps _ _ (valid token member)

theorem Node.ReadsContent.relocate (reads : ReadsContent tokens nodes)
    (keeps : KeepsForward place) :
    ReadsContent (tokens.map (Token.relocate place)) (nodes.map (Node.relocate place)) := by
  induction reads with
  | nil => exact .nil
  | leaf plain valid others ih => exact .leaf plain (keeps _ _ valid) ih
  | parameter brackets valid forward others ih =>
      rw [List.map_cons, List.map_append, List.map_cons, List.map_cons, relocate_branch,
        ← Token.map_leaf_relocate]
      exact .parameter (brackets.relocate place) (valid_relocate keeps valid)
        (keeps _ _ forward) ih

theorem Item.Reads.relocate (reads : Reads tokens items) (keeps : KeepsForward place) :
    Reads (tokens.map (Token.relocate place)) (items.map (Item.relocate place)) := by
  induction reads with
  | nil => exact .nil
  | leaf plain valid others ih => exact .leaf plain (keeps _ _ valid) ih
  | space kind others ih => exact .space kind ih
  | separator kind others ih => exact .separator kind ih
  | parameter brackets valid forward others ih =>
      rw [List.map_cons, List.map_append, List.map_cons, List.map_cons, Item.relocate,
        Part.relocate, Node.relocate_branch, ← Token.map_leaf_relocate]
      exact .parameter (brackets.relocate place) (valid_relocate keeps valid)
        (keeps _ _ forward) ih
  | optional brackets reads forward others ih =>
      rw [List.map_cons, List.map_append, List.map_cons, List.map_cons, Item.relocate,
        Part.relocate, Node.relocate_branch]
      exact .optional (brackets.relocate place) (reads.relocate keeps) (keeps _ _ forward) ih

theorem Node.StopsContent.relocate (stops : StopsContent opener tokens)
    (keeps : KeepsForward place) :
    StopsContent (opener.relocate place) (tokens.map (Token.relocate place)) := by
  obtain ⟨reads, opens, missing⟩ := stops
  rw [List.map_append, List.map_cons]
  exact .behind (reads.relocate keeps) opens (List.forall_mem_map.mpr missing)

/-- Reading stops at the same token wherever the tokens are. -/
theorem Item.Stops.relocate (stops : Stops opener tokens) (keeps : KeepsForward place) :
    Stops (opener.relocate place) (tokens.map (Token.relocate place)) := by
  cases stops with
  | outer reads opens missing =>
      rw [List.map_append, List.map_cons]
      exact .outer (reads.relocate keeps) opens (List.forall_mem_map.mpr missing)
  | inner reads brackets stops =>
      rw [List.map_append, List.map_cons, List.map_append, List.map_cons]
      exact .inner (reads.relocate keeps) (brackets.relocate place) (stops.relocate keeps)

end

namespace Node

variable {place : Int → Int} {wordStop start : Int} {word parts : List Part} {items : List Item}
  {children nodes : List Node}

theorem map_node_relocate (place : Int → Int) (nodes : List Node) :
    (nodes.map Part.node).map (Part.relocate place) =
      (nodes.map (Node.relocate place)).map Part.node := by
  rw [List.map_map, List.map_map]
  rfl

theorem ReadsAlternatives.relocate (reads : ReadsAlternatives wordStop start parts children)
    (keeps : KeepsForward place) :
    ReadsAlternatives (place wordStop) (place start) (parts.map (Part.relocate place))
      (children.map (Node.relocate place)) := by
  induction reads with
  | last nodes forward =>
      rw [map_node_relocate, List.map_singleton, relocate_branch]
      exact .last _ (keeps _ _ forward)
  | next nodes forward others ih =>
      rw [List.map_append, map_node_relocate, List.map_cons, List.map_cons, relocate_branch]
      exact .next _ (keeps _ _ forward) ih

theorem any_isSeparator_relocate (place : Int → Int) (word : List Part) :
    (word.map (Part.relocate place)).any Part.isSeparator = word.any Part.isSeparator := by
  rw [List.any_map]
  congr 1
  funext part
  cases part <;> rfl

theorem ofWord_relocate (made : ofWord word = .ok nodes) (keeps : KeepsForward place) :
    ofWord (word.map (Part.relocate place)) = .ok (nodes.map (Node.relocate place)) := by
  cases separated : word.any Part.isSeparator with
  | false =>
      obtain ⟨others, rfl⟩ := exists_nodes separated
      rw [ofWord_map_node] at made
      cases made
      rw [map_node_relocate, ofWord_map_node]
  | true =>
      obtain ⟨first, rest, rfl⟩ : ∃ first rest, word = first :: rest :=
        List.exists_cons_of_ne_nil (by rintro rfl; cases separated)
      obtain ⟨children, rfl, forward, reads⟩ := (ofWord_eq_ok_iff separated).mp made
      have last : (rest.map (Part.relocate place)).getLastD (first.relocate place) =
          (rest.getLastD first).relocate place := by
        rw [List.getLastD_eq_getLast?, List.getLastD_eq_getLast?, List.getLast?_map,
          Option.getD_map]
      rw [← any_isSeparator_relocate place] at separated
      rw [List.map_cons] at separated ⊢
      rw [ofWord_eq_ok_iff separated, last, Part.start_relocate, Part.stop_relocate]
      refine ⟨_, ?_, keeps _ _ forward, reads.relocate keeps⟩
      rw [List.map_singleton, relocate_branch]

theorem ofItems_relocate (made : ofItems word items = .ok nodes) (keeps : KeepsForward place) :
    ofItems (word.map (Part.relocate place)) (items.map (Item.relocate place)) =
      .ok (nodes.map (Node.relocate place)) := by
  induction items generalizing word nodes with
  | nil => exact ofWord_relocate made keeps
  | cons item rest ih =>
      cases item with
      | part part =>
          have longer : ofItems (word ++ [part]) rest = .ok nodes := made
          have moved := ih longer
          rw [List.map_append] at moved
          exact moved
      | space token =>
          obtain ⟨front, others, first, valid, tail, rfl⟩ := ofItems_space_eq_ok_iff.mp made
          apply ofItems_space_eq_ok_iff.mpr
          refine ⟨_, _, ofWord_relocate first keeps, keeps _ _ valid, ih tail, ?_⟩
          rw [List.map_append]
          rfl

theorem ofTokens_relocate_of_ok {expression : Text} {tokens : List Token} {tree : Node}
    (read : ofTokens expression tokens = .ok tree) (keeps : KeepsForward place) (other : Text) :
    ofTokens other (tokens.map (Token.relocate place)) = .ok (tree.relocate place) := by
  obtain ⟨first, inner, last, items, children, rfl, starts, ends, reads, made, forward, rfl⟩ :=
    ofTokens_eq_ok_iff.mp read
  rw [relocate_branch, List.map_cons, List.map_append, List.map_singleton]
  exact ofTokens_eq_ok_iff.mpr ⟨_, _, _, _, _, rfl, starts, ends, reads.relocate keeps,
    ofItems_relocate made keeps, keeps _ _ forward, rfl⟩

end Node

theorem Diagnostic.ofOpener_relocate (place : Int → Int) (expression other : Text)
    (opener : Token) :
    ofOpener other (opener.relocate place) =
      { ofOpener expression opener with
        expression := other
        column := place ((ofOpener expression opener).column - 1) + 1 } := by
  rw [column_ofOpener, Int.add_sub_cancel]
  cases kind : opener.kind <;> simp [ofOpener, Token.relocate, kind]

/-- A tree is the same with its offsets moved, and a diagnostic is the same but for the expression and
the column, when the offsets of the tokens are moved and the expression is another one. The offsets
may be in any order, and spans may be closed up. -/
theorem Node.ofTokens_relocate {place : Int → Int}
    (monotone : ∀ low high, low ≤ high → place low ≤ place high)
    (nonnegative : ∀ offset, 0 ≤ place offset) (expression other : Text) (tokens : List Token) :
    (∀ tree, ofTokens expression tokens = .ok tree →
      ofTokens other (tokens.map (Token.relocate place)) = .ok (tree.relocate place)) ∧
    ∀ diagnostic, ofTokens expression tokens = .error (.diagnosed diagnostic) →
      place (diagnostic.column - 1) ≤ other.length →
      ofTokens other (tokens.map (Token.relocate place)) =
        .error (.diagnosed { diagnostic with
          expression := other
          column := place (diagnostic.column - 1) + 1 }) := by
  have keeps := KeepsForward.of_monotone monotone nonnegative
  constructor
  · intro tree read
    exact ofTokens_relocate_of_ok read keeps other
  · intro diagnostic failed bound
    obtain ⟨first, inner, last, opener, rfl, starts, ends, stops, blames⟩ :=
      ofTokens_eq_diagnosed_iff.mp failed
    obtain ⟨-, -, rfl⟩ := blames
    have within : place opener.start ≤ other.length := by
      rw [Diagnostic.column_ofOpener, Int.add_sub_cancel] at bound
      exact bound
    rw [← Diagnostic.ofOpener_relocate, List.map_cons, List.map_append, List.map_singleton]
    exact ofTokens_eq_diagnosed_iff.mpr ⟨_, _, _, _, rfl, starts, ends, stops.relocate keeps,
      nonnegative _, within, rfl⟩

/-- Offsets halved and cut off at zero, so that most spans are closed up. -/
theorem Node.ofTokens_relocate_of_halved :
    let halve (offset : Int) : Int := max 0 offset / 2
    let read (inner : List Token) : List Token :=
      ⟨.lineStart, [], 0, 0⟩ :: (inner ++ [⟨.lineEnd, [], 9, 9⟩])
    let closed := read [⟨.text, "a", 0, 1⟩, ⟨.separator, "/", 4, 5⟩, ⟨.parameterOpen, "\x7b", 2, 3⟩,
      ⟨.parameterClose, "\x7d", 6, 7⟩]
    let unclosed := read [⟨.space, " ", 3, 1⟩, ⟨.optionalOpen, "(", 5, 6⟩]
    (∃ tree, ofTokens "a/\x7b\x7d" closed = .ok tree ∧
        ofTokens "b" (closed.map (Token.relocate halve)) = .ok (tree.relocate halve)) ∧
      ofTokens "     (" unclosed =
        .error (.diagnosed (Diagnostic.ofOpener "     (" ⟨.optionalOpen, "(", 5, 6⟩)) ∧
      ofTokens "bc" (unclosed.map (Token.relocate halve)) =
        .error (.diagnosed { Diagnostic.ofOpener "     (" ⟨.optionalOpen, "(", 5, 6⟩ with
          expression := "bc"
          column := 3 }) := by
  intro halve read closed unclosed
  have monotone (low high : Int) (ordered : low ≤ high) : halve low ≤ halve high := by
    simp only [halve]
    omega
  have nonnegative (offset : Int) : 0 ≤ halve offset := by
    simp only [halve]
    omega
  have failed : ofTokens "     (" unclosed =
      .error (.diagnosed (Diagnostic.ofOpener "     (" ⟨.optionalOpen, "(", 5, 6⟩)) := by
    decide +kernel
  refine ⟨?_, failed, ?_⟩
  · obtain ⟨tree, made⟩ : ∃ tree, ofTokens "a/\x7b\x7d" closed = .ok tree :=
      ⟨.branch .expression 0 9 [.branch .alternation 0 7 [.branch .alternative 0 4 [.leaf 0 1 "a"],
        .branch .alternative 5 7 [.branch .parameter 2 7 []]]], by decide +kernel⟩
    exact ⟨tree, made, (ofTokens_relocate monotone nonnegative _ "b" closed).1 tree made⟩
  · exact (ofTokens_relocate monotone nonnegative _ "bc" unclosed).2 _ failed (by decide)

end CucumberExpression
