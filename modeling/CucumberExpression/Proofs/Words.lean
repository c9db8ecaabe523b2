import CucumberExpression.Word
import CucumberExpression.Proofs.Items

namespace CucumberExpression.Node

/-! # Wording

Which nodes a word is read as, apart from errors. A word without separators is its nodes; in any
other, each separator ends an alternative and the end of the word ends the last one. -/

/-- What the parts of a word that stops at `wordStop` are read as, from `start` on. -/
inductive ReadsAlternatives (wordStop : Int) : Int → List Part → List Node → Prop
  | last {start : Int} (nodes : List Node) (forward : Forward start wordStop) :
      ReadsAlternatives wordStop start (nodes.map .node)
        [.branch .alternative start wordStop nodes]
  | next {start : Int} (nodes : List Node) {token : Token} {rest : List Part}
      {children : List Node} (forward : Forward start token.start)
      (others : ReadsAlternatives wordStop token.stop rest children) :
      ReadsAlternatives wordStop start (nodes.map .node ++ .separator token :: rest)
        (.branch .alternative start token.start nodes :: children)

section

variable {wordStop start : Int} {children nodes : List Node} {parts : List Part}

theorem alternatives_map_node (wordStop start : Int) (before nodes : List Node)
    (parts : List Part) :
    alternatives wordStop start before (nodes.map .node ++ parts) =
      alternatives wordStop start (before ++ nodes) parts := by
  induction nodes generalizing before with
  | nil => rw [List.append_nil]; rfl
  | cons node rest ih =>
      rw [List.map_cons, List.cons_append, alternatives, ih, List.append_assoc]
      rfl

theorem ReadsAlternatives.of_alternatives
    (made : alternatives wordStop start nodes parts = .ok children) :
    ReadsAlternatives wordStop start (nodes.map .node ++ parts) children := by
  induction parts generalizing start nodes children with
  | nil =>
      simp only [alternatives, bind_eq_ok_iff, pure_eq_ok_iff, orInvalid_newBranch_eq_ok_iff] at made
      obtain ⟨_, ⟨forward, rfl⟩, rfl⟩ := made
      rw [List.append_nil]
      exact .last nodes forward
  | cons part rest ih =>
      cases part with
      | node node =>
          have others := ih made
          rw [List.map_append, List.append_assoc] at others
          exact others
      | separator token =>
          simp only [alternatives, bind_eq_ok_iff, pure_eq_ok_iff,
            orInvalid_newBranch_eq_ok_iff] at made
          obtain ⟨_, ⟨forward, rfl⟩, others, tail, rfl⟩ := made
          exact .next nodes forward (ih tail)

theorem alternatives_eq_ok_iff :
    alternatives wordStop start [] parts = .ok children ↔
      ReadsAlternatives wordStop start parts children := by
  constructor
  · exact ReadsAlternatives.of_alternatives
  · intro reads
    induction reads with
    | last nodes forward =>
        rw [← List.append_nil (nodes.map Part.node), alternatives_map_node]
        simp only [alternatives, bind_eq_ok_iff, pure_eq_ok_iff, orInvalid_newBranch_eq_ok_iff]
        exact ⟨_, ⟨forward, rfl⟩, rfl⟩
    | next nodes forward others ih =>
        rw [alternatives_map_node]
        simp only [alternatives, bind_eq_ok_iff, pure_eq_ok_iff, orInvalid_newBranch_eq_ok_iff]
        exact ⟨_, ⟨forward, rfl⟩, _, ih, rfl⟩

theorem ReadsAlternatives.length_eq (reads : ReadsAlternatives wordStop start parts children) :
    children.length = parts.countP Part.isSeparator + 1 := by
  have free (nodes : List Node) : (nodes.map Part.node).countP Part.isSeparator = 0 := by
    simp [Part.isSeparator]
  induction reads with
  | last nodes forward => rw [free]; rfl
  | next nodes forward others ih =>
      rw [List.countP_append, free, List.countP_cons, List.length_cons, ih]
      simp [Part.isSeparator]

end

section

variable {word : List Part} {first : Part} {rest : List Part} {nodes : List Node}

theorem exists_nodes (free : word.any Part.isSeparator = false) :
    ∃ nodes : List Node, word = nodes.map .node := by
  induction word with
  | nil => exact ⟨[], rfl⟩
  | cons part rest ih =>
      rw [List.any_cons, Bool.or_eq_false_iff] at free
      obtain ⟨single, others⟩ := free
      obtain ⟨nodes, rfl⟩ := ih others
      cases part with
      | node node => exact ⟨node :: nodes, rfl⟩
      | separator token => cases single

theorem ofWord_map_node (nodes : List Node) : ofWord (nodes.map .node) = .ok nodes := by
  cases nodes with
  | nil => rfl
  | cons first rest =>
      have free : ((first :: rest).map Part.node).any Part.isSeparator = false := by
        simp [Part.isSeparator]
      rw [List.map_cons] at free ⊢
      rw [ofWord, free, ← List.map_cons, List.filterMap_map]
      simp only [Bool.false_eq_true, if_false, Except.ok.injEq]
      exact List.filterMap_some

theorem ofWord_eq_ok_iff (separated : (first :: rest).any Part.isSeparator = true) :
    ofWord (first :: rest) = .ok nodes ↔
      ∃ children, nodes = [.branch .alternation first.start (rest.getLastD first).stop children] ∧
        Forward first.start (rest.getLastD first).stop ∧
        ReadsAlternatives (rest.getLastD first).stop first.start (first :: rest) children := by
  simp only [ofWord, if_pos separated, alternation, bind_eq_ok_iff, pure_eq_ok_iff,
    orInvalid_newBranch_eq_ok_iff, alternatives_eq_ok_iff]
  constructor
  · intro made
    obtain ⟨_, ⟨children, reads, forward, rfl⟩, rfl⟩ := made
    exact ⟨children, rfl, forward, reads⟩
  · intro described
    obtain ⟨children, rfl, forward, reads⟩ := described
    exact ⟨_, ⟨children, reads, forward, rfl⟩, rfl⟩

end

section

variable {word : List Part} {items : List Item} {token : Token} {nodes : List Node}

theorem ofItems_space_eq_ok_iff :
    ofItems word (.space token :: items) = .ok nodes ↔
      ∃ front others, ofWord word = .ok front ∧ token.Valid ∧ ofItems [] items = .ok others ∧
        nodes = front ++ token.leaf :: others := by
  simp only [ofItems, bind_eq_ok_iff, pure_eq_ok_iff, ofToken_eq_ok_iff]
  constructor
  · intro steps
    obtain ⟨front, made, _, ⟨valid, rfl⟩, others, tail, rfl⟩ := steps
    exact ⟨front, others, made, valid, tail, rfl⟩
  · intro described
    obtain ⟨front, others, made, valid, tail, rfl⟩ := described
    exact ⟨front, made, _, ⟨valid, rfl⟩, others, tail, rfl⟩

theorem ofItems_map_part (word parts : List Part) (items : List Item) :
    ofItems word (parts.map .part ++ items) = ofItems (word ++ parts) items := by
  induction parts generalizing word with
  | nil => rw [List.append_nil]; rfl
  | cons part rest ih =>
      rw [List.map_cons, List.cons_append, ofItems, ih, List.append_assoc]
      rfl

/-- A word that white space or the end follows is read on its own. -/
theorem ofItems_of_ofWord {front others : List Node} (made : ofWord word = .ok front)
    (tail : ofItems [] items = .ok others)
    (ends : ∀ item ∈ items.head?, ∃ token, item = .space token) :
    ofItems word items = .ok (front ++ others) := by
  cases items with
  | nil =>
      cases tail
      rw [List.append_nil]
      exact made
  | cons item rest =>
      obtain ⟨token, rfl⟩ := ends item (by simp)
      obtain ⟨nothing, after, empty, valid, remaining, rfl⟩ := ofItems_space_eq_ok_iff.mp tail
      cases empty
      exact ofItems_space_eq_ok_iff.mpr ⟨front, after, made, valid, remaining, rfl⟩

/-- What white space stands between is read apart. -/
theorem ofItems_append_space {rest : List Item} {others : List Node}
    (made : ofItems word items = .ok nodes) (valid : token.Valid)
    (tail : ofItems [] rest = .ok others) :
    ofItems word (items ++ .space token :: rest) = .ok (nodes ++ token.leaf :: others) := by
  induction items generalizing word nodes with
  | nil => exact ofItems_space_eq_ok_iff.mpr ⟨nodes, others, made, valid, tail, rfl⟩
  | cons item items ih =>
      cases item with
      | part part =>
          have longer : ofItems (word ++ [part]) items = .ok nodes := made
          exact ih longer
      | space first =>
          obtain ⟨front, after, single, firstValid, remaining, rfl⟩ :=
            ofItems_space_eq_ok_iff.mp made
          have further := ih remaining
          exact ofItems_space_eq_ok_iff.mpr
            ⟨front, _, single, firstValid, further, by rw [List.append_assoc]; rfl⟩

end

end CucumberExpression.Node
