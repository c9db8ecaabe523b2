import CucumberExpression.Proofs.Runs

namespace CucumberExpression

/-! # Folds

A visitor all of whose methods are implemented folds every tree that it visits: it calls one method a
node, before those of the nodes below it, and puts the answers together from the leaves up. What it
has kept from earlier visits makes no difference. -/

def Wrap.around (wrap : Wrap) (inner : Text) : Text :=
  wrap.before ++ inner ++ wrap.after

namespace Node

mutual

/-- The text of a tree with what is put around the inside of each node. -/
def wrapped (wraps : Kind → Wrap) : Node → Text
  | .leaf _ _ token => (wraps .text).around token
  | .branch shape _ _ children => (wraps (.branch shape)).around (wrappedAll wraps children)

def wrappedAll (wraps : Kind → Wrap) : List Node → Text
  | [] => []
  | node :: rest => node.wrapped wraps ++ wrappedAll wraps rest

end

variable {methods : Kind → Method} {labels : Kind → String} {wraps : Kind → Wrap}

theorem wrapped_of_empty (empty : ∀ kind, wraps kind = ⟨[], []⟩) (node : Node) :
    node.wrapped wraps = node.text := by
  have around (kind : Kind) (inner : Text) : (wraps kind).around inner = inner := by
    rw [empty, Wrap.around, List.nil_append, List.append_nil]
  induction node using children_induction with
  | leaf start stop token => exact around .text token
  | branch shape start stop children ih =>
      rw [wrapped, around, text]
      induction children with
      | nil => rfl
      | cons first rest tail =>
          obtain ⟨own, others⟩ := List.forall_mem_cons.mp ih
          rw [wrappedAll, textOfAll, own, tail others]

theorem answer_of_wrapping (wrapping : ∀ kind, methods kind = .wrapping (labels kind) (wraps kind))
    (node : Node) : node.answer methods = .ok (node.wrapped wraps) := by
  induction node using children_induction with
  | leaf start stop token =>
      rw [answer, wrapping]
      rfl
  | branch shape start stop children ih =>
      have all : answerAll methods children = .ok (wrappedAll wraps children) := by
        induction children with
        | nil => rfl
        | cons first rest tail =>
            obtain ⟨own, others⟩ := List.forall_mem_cons.mp ih
            rw [answerAll, own, tail others]
            rfl
      rw [answer, wrapping, all]
      rfl

/-- Nothing stops a visit whose methods are all implemented. -/
theorem reached_of_implemented (implemented : ∀ kind, methods kind ≠ .unimplemented)
    (nodes : List Node) : reached methods nodes = nodes := by
  induction nodes with
  | nil => rfl
  | cons node rest ih => rw [reached_cons_of_goes (implemented node.kind), ih]

end Node

namespace Visitor

variable {visitor : Visitor} {shared : Methods} {methods : Node.Kind → Method}
  {labels : Node.Kind → String} {wraps : Node.Kind → Wrap}

theorem Follows.visit (follows : visitor.Follows methods) (node : Node) :
    (visitor.step (.visit node)).Follows methods := by
  rw [step, visit_eq_through follows]
  exact follows.replay_met _

theorem Follows.visits (follows : visitor.Follows methods) (nodes : List Node) :
    (visitor.run (nodes.map .visit)).Follows methods := by
  induction nodes generalizing visitor with
  | nil => exact follows
  | cons node rest ih => exact ih (follows.visit node)

/-- One visit with methods that are all implemented. -/
theorem Follows.visit_of_wrapping (follows : visitor.Follows methods)
    (wrapping : ∀ kind, methods kind = .wrapping (labels kind) (wraps kind)) (node : Node) :
    (visitor.visit node).1 = .ok (node.wrapped wraps) ∧
      (visitor.visit node).2.calls = (node :: node.dfs).map fun below =>
        ⟨labels below.kind, below.kind, below.start, below.stop⟩ := by
  have implemented (kind : Node.Kind) : methods kind ≠ .unimplemented := by
    rw [wrapping]
    nofun
  rw [visit_eq follows, Node.answer_of_wrapping wrapping, Node.reached_of_implemented implemented]
  refine ⟨rfl, ?_⟩
  simp only [wrapping, Method.call?]
  exact congrFun List.filterMap_eq_map _

/-- A visitor that was just made goes by the methods that it shares with its kind. -/
theorem Follows.of_new (made : Visitor.new shared = some visitor)
    (direct : shared.lookup .visit = none) :
    visitor.Follows fun kind =>
      ((shared.lookup (.kind kind)).or (shared.lookup .generic)).getD .unimplemented := by
  obtain ⟨-, rfl⟩ := new_eq_some_iff.mp made
  exact .of_direct direct

theorem exists_wrapping (generic : (shared.lookup .generic).isSome)
    (implemented : ∀ entry ∈ shared, entry.2 ≠ .unimplemented) (kind : Node.Kind) :
    ∃ label wrap, (shared.lookup (.kind kind)).or (shared.lookup .generic) =
      some (.wrapping label wrap) := by
  obtain ⟨method, found⟩ : ∃ method,
      (shared.lookup (.kind kind)).or (shared.lookup .generic) = some method := by
    apply Option.isSome_iff_exists.mp
    rw [Option.isSome_or, generic, Bool.or_true]
  obtain ⟨selector, lookedUp⟩ : ∃ selector, shared.lookup selector = some method := by
    rcases Option.or_eq_some_iff.mp found with own | ⟨-, fallback⟩
    · exact ⟨_, own⟩
    · exact ⟨_, fallback⟩
  obtain ⟨before, after, rfl, -⟩ := List.lookup_eq_some_iff.mp lookedUp
  cases method with
  | unimplemented => exact absurd rfl (implemented (selector, .unimplemented) (by simp))
  | wrapping label wrap => exact ⟨label, wrap, found⟩

/-- Whatever a visitor has visited before, a visit of a tree calls one method a node, the one for its
kind or else the generic one, each node before those below it, and its answer is the text of the tree
with what these methods put around each node. So it is with a visitor that was just made. -/
theorem visit_eq_wrapped (made : Visitor.new shared = some visitor)
    (direct : shared.lookup .visit = none)
    (implemented : ∀ entry ∈ shared, entry.2 ≠ .unimplemented) :
    ∃ (labels : Node.Kind → String) (wraps : Node.Kind → Wrap),
      (∀ kind, (shared.lookup (.kind kind)).or (shared.lookup .generic) =
        some (.wrapping (labels kind) (wraps kind))) ∧
      ∀ (earlier : List Node) (node : Node),
        let visited := (visitor.run (earlier.map .visit)).visit node
        visited.1 = .ok (node.wrapped wraps) ∧
        visited.2.calls = ((node :: node.dfs).map fun below =>
          ⟨labels below.kind, below.kind, below.start, below.stop⟩) ∧
        visited.1 = (visitor.visit node).1 ∧ visited.2.calls = (visitor.visit node).2.calls ∧
        ((∀ kind, wraps kind = ⟨[], []⟩) → visited.1 = .ok node.text) := by
  obtain ⟨generic, -⟩ := new_eq_some_iff.mp made
  choose labels wraps wrapping using exists_wrapping generic implemented
  refine ⟨labels, wraps, wrapping, fun earlier node => ?_⟩
  have follows := Follows.of_new made direct
  simp only [wrapping, Option.getD_some] at follows
  obtain ⟨answer, calls⟩ := (follows.visits earlier).visit_of_wrapping (fun _ => rfl) node
  obtain ⟨answer', calls'⟩ := follows.visit_of_wrapping (fun _ => rfl) node
  refine ⟨answer, calls, answer.trans answer'.symm, calls.trans calls'.symm, fun empty => ?_⟩
  rw [answer, Node.wrapped_of_empty empty]

/-- Texts have a method of their own, which is kept from an earlier visit; the optional has none. -/
theorem visit_eq_wrapped_of_kept_text :
    ∃ visitor,
      Visitor.new [(.generic, .wrapping "generic_visit" ⟨"(", ")?"⟩),
        (.kind .text, .wrapping "visit_text_node" ⟨"<", ">"⟩)] = some visitor ∧
      let visited := (visitor.run [.visit (.leaf 4 5 "c")]).visit
        (.branch .optional 0 4 [.leaf 1 2 "a", .leaf 2 3 "b"])
      visited.1 = .ok "(<a><b>)?" ∧
        visited.2.calls = [⟨"generic_visit", .branch .optional, 0, 4⟩,
          ⟨"visit_text_node", .text, 1, 2⟩, ⟨"visit_text_node", .text, 2, 3⟩] := by
  have made : Visitor.new [(.generic, .wrapping "generic_visit" ⟨"(", ")?"⟩),
      (.kind .text, .wrapping "visit_text_node" ⟨"<", ">"⟩)] = some _ := rfl
  obtain ⟨labels, wraps, wrapping, visits⟩ := visit_eq_wrapped made rfl (by decide)
  obtain ⟨textLabel, textWrap⟩ := Method.wrapping.inj (Option.some.inj (wrapping .text))
  obtain ⟨optionalLabel, optionalWrap⟩ :=
    Method.wrapping.inj (Option.some.inj (wrapping (.branch .optional)))
  obtain ⟨answer, calls, -⟩ := visits [.leaf 4 5 "c"]
    (.branch .optional 0 4 [.leaf 1 2 "a", .leaf 2 3 "b"])
  refine ⟨_, made, answer.trans ?_, calls.trans ?_⟩
  · simp only [Node.wrapped, Node.wrappedAll, ← textWrap, ← optionalWrap]
    rfl
  · simp [Node.dfs, Node.walk, Node.children, Node.kind, Node.start, Node.stop, ← textLabel,
      ← optionalLabel]

end Visitor

end CucumberExpression
