import CucumberExpression.Proofs.Dispatch
import CucumberExpression.Proofs.Trees

namespace CucumberExpression

/-! # Visits

A visit as it would be if nothing had to be kept: the methods are a function of the kind, and the
nodes are met in the order of `dfs`, up to the first one whose method is not implemented. -/

/-- What a method makes of the text inside a node. -/
def Method.around : Method → Except Abandoned Text → Except Abandoned Text
  | .wrapping _ wrap, inner => inner.map fun text => wrap.before ++ text ++ wrap.after
  | .unimplemented, _ => .error .unimplemented

def Method.call? (node : Node) : Method → Option Call
  | .wrapping label _ => some ⟨label, node.kind, node.start, node.stop⟩
  | .unimplemented => none

namespace Node

mutual

/-- The answer for a node when the method of each kind is given. -/
def answer (methods : Kind → Method) : Node → Except Abandoned Text
  | .leaf _ _ token => (methods .text).around (.ok token)
  | .branch shape _ _ children => (methods (.branch shape)).around (answerAll methods children)

def answerAll (methods : Kind → Method) : List Node → Except Abandoned Text
  | [] => .ok []
  | node :: rest => do
      let first ← node.answer methods
      let others ← answerAll methods rest
      return first ++ others

end

/-- Of nodes that come one after the other those that are met. -/
def reached (methods : Kind → Method) : List Node → List Node
  | [] => []
  | node :: rest =>
      node :: if methods node.kind = .unimplemented then [] else reached methods rest

variable {methods : Kind → Method} {node : Node} {nodes left right : List Node}

theorem reached_cons_of_stops (stops : methods node.kind = .unimplemented) :
    reached methods (node :: nodes) = [node] := by
  rw [reached, if_pos stops]

theorem reached_cons_of_goes (goes : methods node.kind ≠ .unimplemented) :
    reached methods (node :: nodes) = node :: reached methods nodes := by
  rw [reached, if_neg goes]

theorem reached_append (methods : Kind → Method) (left right : List Node) :
    reached methods (left ++ right) = reached methods left ++
      if ∃ node ∈ left, methods node.kind = .unimplemented then [] else reached methods right := by
  induction left with
  | nil => simp [reached]
  | cons node rest ih =>
      by_cases stops : methods node.kind = .unimplemented
      · simp [reached, stops]
      · simp [reached, stops, ih]

theorem around_eq_error_iff {method : Method} {inner : Except Abandoned Text} {reason : Abandoned} :
    method.around inner = .error reason ↔ method = .unimplemented ∨ inner = .error reason := by
  cases reason
  cases method <;> cases inner <;> simp [Method.around, Except.map]

theorem answerAll_cons_eq_error_iff {reason : Abandoned} :
    answerAll methods (node :: nodes) = .error reason ↔
      node.answer methods = .error reason ∨ answerAll methods nodes = .error reason := by
  cases reason
  rw [answerAll]
  rcases node.answer methods with ⟨⟨⟩⟩ | first <;>
    rcases answerAll methods nodes with ⟨⟨⟩⟩ | others <;> simp [bind, Except.bind, pure, Except.pure]

/-- A visit is abandoned when the method of some node in the tree is not implemented. -/
theorem answer_eq_error_iff {reason : Abandoned} :
    node.answer methods = .error reason ↔
      ∃ below ∈ node :: node.dfs, methods below.kind = .unimplemented := by
  induction node using children_induction with
  | leaf start stop token => simp [answer, around_eq_error_iff, dfs, Node.children, walk, kind]
  | branch shape start stop children ih =>
      have all : answerAll methods children = .error reason ↔
          ∃ below ∈ walk children, methods below.kind = .unimplemented := by
        induction children with
        | nil => simp [answerAll, walk]
        | cons first rest tail =>
            obtain ⟨own, others⟩ := List.forall_mem_cons.mp ih
            simp only [answerAll_cons_eq_error_iff, own, tail others, walk_cons, List.mem_append,
              or_and_right, exists_or]
      rw [answer, around_eq_error_iff, all]
      simp [dfs, Node.children, kind]

end Node

namespace Visitor

/-- The progress of a visit when it has gone through some nodes. -/
def Progress.through (methods : Node.Kind → Method) (progress : Progress) (nodes : List Node) :
    Progress :=
  ⟨progress.visitor.replay ((nodes.map Node.kind).map .met),
    progress.calls ++ nodes.filterMap fun node => (methods node.kind).call? node⟩

/-- Whether a visitor dispatches by itself, and to the methods given. -/
structure Follows (visitor : Visitor) (methods : Node.Kind → Method) : Prop where
  direct : visitor.method? .visit = none
  current : ∀ kind, visitor.current kind = methods kind

theorem Follows.of_direct {visitor : Visitor} (direct : visitor.method? .visit = none) :
    visitor.Follows visitor.current :=
  ⟨direct, fun _ => rfl⟩

variable {visitor : Visitor} {progress : Progress} {methods : Node.Kind → Method} {node : Node}
  {nodes : List Node}

theorem Progress.through_append (methods : Node.Kind → Method) (progress : Progress)
    (left right : List Node) : progress.through methods (left ++ right) =
      (progress.through methods left).through methods right := by
  simp only [through, List.map_append, replay_append, List.filterMap_append, List.append_assoc]

theorem Progress.through_of_unimplemented (stops : methods node.kind = .unimplemented) :
    progress.through methods [node] =
      { progress with visitor := (progress.visitor.dispatch node.kind).2 } := by
  simp [through, replay, observe, stops, Method.call?]

theorem Progress.through_of_wrapping {label : String} {wrap : Wrap}
    (goes : methods node.kind = .wrapping label wrap) :
    progress.through methods [node] = ⟨(progress.visitor.dispatch node.kind).2,
      progress.calls ++ [⟨label, node.kind, node.start, node.stop⟩]⟩ := by
  simp [through, replay, observe, goes, Method.call?]

theorem Follows.replay_met (follows : visitor.Follows methods) (kinds : List Node.Kind) :
    (visitor.replay (kinds.map .met)).Follows methods where
  direct := by
    rw [replay_map_met]
    exact follows.direct
  current kind := by
    rw [current_replay, settled_map_met]
    exact follows.current kind

theorem Follows.select_eq (follows : visitor.Follows methods) (kind : Node.Kind) :
    visitor.select kind = (methods kind, (visitor.dispatch kind).2) := by
  rw [select, follows.direct, ← follows.current, ← dispatch_fst]

theorem visitAllFrom_eq
    (each : ∀ node ∈ nodes, ∀ progress : Progress, progress.visitor.Follows methods →
      visitFrom progress node = (node.answer methods,
        progress.through methods (Node.reached methods (node :: node.dfs))))
    (follows : progress.visitor.Follows methods) :
    visitAllFrom progress nodes = (Node.answerAll methods nodes,
      progress.through methods (Node.reached methods (Node.walk nodes))) := by
  induction nodes generalizing progress with
  | nil => simp [visitAllFrom, Node.answerAll, Node.walk, Node.reached, Progress.through, replay]
  | cons node rest ih =>
      obtain ⟨own, others⟩ := List.forall_mem_cons.mp each
      rw [visitAllFrom, own progress follows, Node.walk_cons, Node.reached_append, Node.answerAll]
      cases answered : node.answer methods with
      | error reason =>
          rw [if_pos (Node.answer_eq_error_iff.mp answered), List.append_nil]
          rfl
      | ok first =>
          have complete : ¬ ∃ below ∈ node :: node.dfs, methods below.kind = .unimplemented := by
            intro stops
            have failed : node.answer methods = .error .unimplemented :=
              Node.answer_eq_error_iff.mpr stops
            rw [answered] at failed
            cases failed
          have further : (progress.through methods
              (Node.reached methods (node :: node.dfs))).visitor.Follows methods :=
            follows.replay_met _
          rw [if_neg complete, Progress.through_append]
          simp only [ih others further]
          cases Node.answerAll methods rest <;> rfl

/-- A visit goes through the nodes of a tree as if nothing had to be kept. -/
theorem visitFrom_eq (follows : progress.visitor.Follows methods) (node : Node) :
    visitFrom progress node = (node.answer methods,
      progress.through methods (Node.reached methods (node :: node.dfs))) := by
  induction node using Node.children_induction generalizing progress with
  | leaf start stop token =>
      have below : (Node.leaf start stop token).dfs = [] := by
        rw [Node.dfs, Node.children, Node.walk]
      rw [visitFrom, follows.select_eq, Node.answer, below]
      cases method : methods .text with
      | unimplemented =>
          rw [Node.reached_cons_of_stops method, Progress.through_of_unimplemented method]
          rfl
      | wrapping label wrap =>
          have goes : methods .text ≠ .unimplemented := by simp [method]
          rw [Node.reached_cons_of_goes goes, Node.reached, Progress.through_of_wrapping method]
          rfl
  | branch shape start stop children ih =>
      rw [visitFrom, follows.select_eq, Node.answer]
      cases method : methods (.branch shape) with
      | unimplemented =>
          rw [Node.reached_cons_of_stops method, Progress.through_of_unimplemented method]
          rfl
      | wrapping label wrap =>
          have goes : methods (.branch shape) ≠ .unimplemented := by simp [method]
          have met : progress.through methods [.branch shape start stop children] =
              ⟨(progress.visitor.dispatch (.branch shape)).2,
                progress.calls ++ [⟨label, .branch shape, start, stop⟩]⟩ :=
            Progress.through_of_wrapping method
          have further : (progress.through methods [.branch shape start stop children]).visitor.Follows
              methods := follows.replay_met _
          rw [Node.reached_cons_of_goes goes, ← List.singleton_append, Progress.through_append]
          rw [met] at further ⊢
          simp only [visitAllFrom_eq (fun child member _ => ih child member) further]
          cases Node.answerAll methods children <;> rfl

theorem visit_eq_through (follows : visitor.Follows methods) (node : Node) :
    visitor.visit node = (node.answer methods,
      Progress.through methods ⟨visitor, []⟩ (Node.reached methods (node :: node.dfs))) := by
  have start : (Progress.mk visitor []).visitor.Follows methods := follows
  exact visitFrom_eq start node

/-- A visit, finished or abandoned, adds what look-up gives the kinds that are new among the nodes it
met, and changes nothing else. -/
theorem visit_eq (follows : visitor.Follows methods) (node : Node) :
    visitor.visit node = (node.answer methods,
      ⟨{ visitor with
          dispatched := visitor.dispatched ++
            (visitor.newKinds ((Node.reached methods (node :: node.dfs)).map Node.kind)).map
              fun kind => (kind, methods kind) },
        (Node.reached methods (node :: node.dfs)).filterMap
          fun met => (methods met.kind).call? met⟩) := by
  have agree : ∀ kind ∈ visitor.newKinds ((Node.reached methods (node :: node.dfs)).map Node.kind),
      visitor.resolve kind = methods kind := by
    intro kind new
    rw [← current_of_new (mem_newKinds_iff.mp new).2, follows.current]
  rw [visit_eq_through follows, Progress.through, replay_map_met, List.nil_append,
    List.map_congr_left fun kind new => congrArg _ (agree kind new)]

end Visitor

end CucumberExpression
