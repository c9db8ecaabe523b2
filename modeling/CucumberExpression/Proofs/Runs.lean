import CucumberExpression.Proofs.Visits
import Mathlib.Data.List.Induction

namespace CucumberExpression.Visitor

/-! # Runs

A run is any sequence of visits, finished or abandoned, and of methods that are set between them. Its
history is told by look-up alone: which nodes a visit meets depends on the methods that look-up gave
when their kinds were first met. What a visitor does agrees with its history at every step. -/

inductive Step where
  | define (selector : Selector) (method : Method)
  | visit (node : Node)
deriving DecidableEq

def step (visitor : Visitor) : Step → Visitor
  | .define selector method => visitor.define selector method
  | .visit node => (visitor.visit node).2.visitor

def run (visitor : Visitor) (steps : List Step) : Visitor :=
  steps.foldl step visitor

/-- What happens in a step that comes after other events. -/
def Step.events (visitor : Visitor) (before : List Event) : Step → List Event
  | .define selector method => [.defined selector method]
  | .visit node =>
      ((Node.reached (visitor.settled · before) (node :: node.dfs)).map Node.kind).map .met

def history (visitor : Visitor) (steps : List Step) : List Event :=
  steps.foldl (fun before step => before ++ step.events visitor before) []

variable {visitor state : Visitor} {steps more : List Step} {kind : Node.Kind}
  {events : List Event} {shared : Methods}

/-- A step does what its events do. -/
theorem step_eq_replay (follows : state.Follows (visitor.settled · events)) (step : Step) :
    state.step step = state.replay (step.events visitor events) := by
  cases step with
  | define selector method => rfl
  | visit node =>
      rw [Visitor.step, visit_eq_through follows]
      rfl

theorem direct_step {step : Step} (direct : visitor.method? .visit = none)
    (untouched : ∀ method, step ≠ .define .visit method) :
    (visitor.step step).method? .visit = none := by
  cases step with
  | define selector method =>
      have different : .visit ≠ selector := by
        rintro rfl
        exact untouched method rfl
      exact (method?_define_of_ne different method).trans direct
  | visit node =>
      have follows := Follows.of_direct direct
      rw [Visitor.step, visit_eq_through follows]
      exact (follows.replay_met _).direct

theorem direct_run (direct : visitor.method? .visit = none)
    (untouched : ∀ method, .define .visit method ∉ steps) :
    (visitor.run steps).method? .visit = none := by
  induction steps generalizing visitor with
  | nil => exact direct
  | cons step rest ih =>
      apply ih
      · exact direct_step direct fun method same => untouched method (by simp [same])
      · exact fun method member => untouched method (List.mem_cons_of_mem _ member)

theorem run_append (visitor : Visitor) (steps more : List Step) :
    visitor.run (steps ++ more) = (visitor.run steps).run more :=
  List.foldl_append

theorem history_concat (visitor : Visitor) (steps : List Step) (step : Step) :
    visitor.history (steps ++ [step]) =
      visitor.history steps ++ step.events visitor (visitor.history steps) := by
  rw [history, List.foldl_append]
  rfl

theorem history_prefix (visitor : Visitor) (steps more : List Step) :
    visitor.history steps <+: visitor.history (steps ++ more) := by
  induction more using List.reverseRecOn with
  | nil => simp
  | append_singleton more step ih =>
      rw [← List.append_assoc, history_concat]
      exact ih.trans (List.prefix_append ..)

/-- A visitor that starts with nothing kept follows what look-up gave first. -/
theorem Follows.of_replay (fresh : visitor.dispatched = [])
    (direct : (visitor.replay events).method? .visit = none) :
    (visitor.replay events).Follows (visitor.settled · events) where
  direct := direct
  current kind := by
    rw [current_replay, fresh]
    rfl

theorem run_eq_replay (fresh : visitor.dispatched = []) (direct : visitor.method? .visit = none)
    (untouched : ∀ method, .define .visit method ∉ steps) :
    visitor.run steps = visitor.replay (visitor.history steps) := by
  induction steps using List.reverseRecOn with
  | nil => rfl
  | append_singleton steps step ih =>
      have earlier : ∀ method, .define .visit method ∉ steps :=
        fun method member => untouched method (List.mem_append_left _ member)
      have still := direct_run direct earlier
      rw [run_append, history_concat, replay_append]
      rw [ih earlier] at still ⊢
      exact step_eq_replay (.of_replay fresh still) step

theorem Follows.of_run (fresh : visitor.dispatched = []) (direct : visitor.method? .visit = none)
    (untouched : ∀ method, .define .visit method ∉ steps) :
    (visitor.run steps).Follows (visitor.settled · (visitor.history steps)) := by
  have still := direct_run direct untouched
  rw [run_eq_replay fresh direct untouched] at still ⊢
  exact .of_replay fresh still

/-- A longer run keeps what a shorter one has kept. -/
theorem dispatched_prefix_run (fresh : visitor.dispatched = [])
    (direct : visitor.method? .visit = none)
    (untouched : ∀ method, .define .visit method ∉ steps ++ more) :
    (visitor.run steps).dispatched <+: (visitor.run (steps ++ more)).dispatched := by
  have earlier : ∀ method, .define .visit method ∉ steps :=
    fun method member => untouched method (List.mem_append_left _ member)
  obtain ⟨later, longer⟩ := history_prefix visitor steps more
  rw [run_eq_replay fresh direct earlier, run_eq_replay fresh direct untouched, ← longer,
    replay_append]
  exact dispatched_prefix_replay _ later

theorem settled_history_append (met : kind ∈ metKinds (visitor.history steps)) :
    visitor.settled kind (visitor.history (steps ++ more)) =
      visitor.settled kind (visitor.history steps) := by
  obtain ⟨later, longer⟩ := history_prefix visitor steps more
  rw [← longer, settled_append_of_met (mem_metKinds_iff.mp met)]

/-- At every meeting of a kind it is dispatched to what look-up gave at the first one. -/
theorem dispatch_replay (fresh : visitor.dispatched = []) (before after : List Event)
    (kind : Node.Kind) : ((visitor.replay before).dispatch kind).1 =
      visitor.settled kind (before ++ .met kind :: after) := by
  rw [dispatch_fst, current_replay, fresh, settled_append_met]
  rfl

theorem dispatched_replay_of_fresh (fresh : visitor.dispatched = []) (events : List Event) :
    (visitor.replay events).dispatched =
      (metKinds events).map fun kind => (kind, visitor.settled kind events) := by
  have all : visitor.newKinds (events.filterMap Event.kind?) = metKinds events := by
    simp [newKinds, keptKinds, fresh, metKinds, List.removeAll]
  rw [dispatched_replay, fresh, all, List.nil_append]

theorem new_eq_some_iff :
    Visitor.new shared = some visitor ↔
      (shared.lookup .generic).isSome ∧ visitor = ⟨[], shared, []⟩ := by
  rw [new, Option.ite_none_right_eq_some, Option.some.injEq, eq_comm (b := visitor)]

/-- Over any run, a kind is dispatched to the method that look-up gave when it was first met: a method
that is set before takes effect, one that is set later does not. What is kept are the kinds met so
far, in that order. A visit, finished or abandoned, adds those that are new among the kinds of the
nodes it met, and nothing that is kept is ever removed, replaced or moved. -/
theorem settled_of_run (made : Visitor.new shared = some visitor)
    (direct : shared.lookup .visit = none)
    (untouched : ∀ method, .define .visit method ∉ steps) :
    let events := visitor.history steps
    let methods := fun kind => visitor.settled kind events
    visitor.run steps = visitor.replay events ∧
      (∀ before kind after, events = before ++ .met kind :: after →
        ((visitor.replay before).dispatch kind).1 = methods kind) ∧
      (∀ kind, kind ∉ metKinds events → methods kind = (visitor.run steps).resolve kind) ∧
      (visitor.run steps).dispatched = (metKinds events).map (fun kind => (kind, methods kind)) ∧
      (∀ node,
        let met := Node.reached methods (node :: node.dfs)
        (visitor.run steps).visit node = (node.answer methods,
          ⟨{ visitor.run steps with
              dispatched := (visitor.run steps).dispatched ++
                ((visitor.run steps).newKinds (met.map Node.kind)).map
                  fun kind => (kind, methods kind) },
            met.filterMap fun node => (methods node.kind).call? node⟩)) ∧
      ∀ more, (∀ method, .define .visit method ∉ more) →
        (visitor.run steps).dispatched <+: (visitor.run (steps ++ more)).dispatched ∧
          ∀ kind ∈ metKinds events,
            visitor.settled kind (visitor.history (steps ++ more)) = methods kind := by
  obtain ⟨-, rfl⟩ := new_eq_some_iff.mp made
  have fresh : (Visitor.mk [] shared []).dispatched = [] := rfl
  have unreplaced : (Visitor.mk [] shared []).method? .visit = none := direct
  have replayed := run_eq_replay fresh unreplaced untouched
  refine ⟨replayed, ?_, ?_, ?_, ?_, ?_⟩
  · intro before kind after split
    rw [split]
    exact dispatch_replay fresh before after kind
  · intro kind unmet
    rw [replayed]
    exact settled_of_unmet (mt mem_metKinds_iff.mpr unmet)
  · rw [replayed]
    exact dispatched_replay_of_fresh fresh _
  · exact visit_eq (.of_run fresh unreplaced untouched)
  · intro more unchanged
    have throughout : ∀ method, .define .visit method ∉ steps ++ more := by
      intro method member
      exact (List.mem_append.mp member).elim (untouched method) (unchanged method)
    exact ⟨dispatched_prefix_run fresh unreplaced throughout, fun kind => settled_history_append⟩

/-- Texts are met before they have a method of their own, parameters only after: the one set for
texts comes too late. -/
theorem settled_of_run_of_late_method :
    ∃ visitor,
      Visitor.new [(.kind (.branch .expression), .wrapping "class" ⟨"[", "]"⟩),
        (.generic, .unimplemented)] = some visitor ∧
      (visitor.run [.visit (.branch .expression 0 1 [.leaf 0 1 "a"]),
          .define (.kind .text) (.wrapping "late" ⟨[], []⟩),
          .define (.kind (.branch .parameter)) (.wrapping "early" ⟨[], []⟩),
          .visit (.branch .parameter 0 3 [.leaf 1 2 "a"])]).dispatched =
        [(.branch .expression, .wrapping "class" ⟨"[", "]"⟩), (.text, .unimplemented),
          (.branch .parameter, .wrapping "early" ⟨[], []⟩)] := by
  have made : Visitor.new [(.kind (.branch .expression), .wrapping "class" ⟨"[", "]"⟩),
      (.generic, .unimplemented)] = some _ := rfl
  refine ⟨_, made, (settled_of_run made rfl ?_).2.2.2.1.trans ?_⟩
  · simp
  · decide +kernel

end CucumberExpression.Visitor
