import CucumberExpression.Visitor
import Mathlib.Data.List.Basic

namespace CucumberExpression.Visitor

/-! # Dispatch

Two things change a visitor: a method is set, or a node of some kind is met. In whatever order they
come, a kind is dispatched to the method that look-up gave when the kind was first met, and what is
kept are the kinds met so far, in the order in which they were first met. -/

inductive Event where
  | defined (selector : Selector) (method : Method)
  | met (kind : Node.Kind)
deriving DecidableEq, Repr

def Event.kind? : Event → Option Node.Kind
  | .defined .. => none
  | .met kind => some kind

def observe (visitor : Visitor) : Event → Visitor
  | .defined selector method => visitor.define selector method
  | .met kind => (visitor.dispatch kind).2

def replay (visitor : Visitor) (events : List Event) : Visitor :=
  events.foldl observe visitor

/-- The method that look-up gives a kind when it is first met, or at the end if it is not met. -/
def settled (visitor : Visitor) (kind : Node.Kind) : List Event → Method
  | [] => visitor.resolve kind
  | event :: rest =>
      if event = .met kind then visitor.resolve kind else (visitor.observe event).settled kind rest

/-- The kinds met, in the order in which they are first met. -/
def metKinds (events : List Event) : List Node.Kind :=
  (events.filterMap Event.kind?).eraseDups

/-- The kinds that something is kept for. -/
def keptKinds (visitor : Visitor) : List Node.Kind :=
  visitor.dispatched.map (·.1)

/-- Of some kinds those that nothing is kept for, in the order in which they first occur. -/
def newKinds (visitor : Visitor) (kinds : List Node.Kind) : List Node.Kind :=
  (kinds.removeAll visitor.keptKinds).eraseDups

/-- The method that a kind is dispatched to: the one kept for it, else the one it has now. -/
def current (visitor : Visitor) (kind : Node.Kind) : Method :=
  (visitor.dispatched.lookup kind).getD (visitor.resolve kind)

variable {visitor : Visitor} {kind other : Node.Kind} {events : List Event}

theorem mem_metKinds_iff : kind ∈ metKinds events ↔ .met kind ∈ events := by
  rw [metKinds, List.mem_eraseDups, List.mem_filterMap]
  constructor
  · rintro ⟨event, member, same⟩
    cases event <;> cases same
    exact member
  · exact fun member => ⟨.met kind, member, rfl⟩

theorem dispatch_of_kept {method : Method} (kept : visitor.dispatched.lookup kind = some method) :
    visitor.dispatch kind = (method, visitor) := by
  simp only [dispatch, kept]

theorem dispatch_of_new (new : visitor.dispatched.lookup kind = none) :
    visitor.dispatch kind = (visitor.resolve kind,
      { visitor with dispatched := visitor.dispatched ++ [(kind, visitor.resolve kind)] }) := by
  simp only [dispatch, new]

theorem dispatch_fst (visitor : Visitor) (kind : Node.Kind) :
    (visitor.dispatch kind).1 = visitor.current kind := by
  cases kept : visitor.dispatched.lookup kind with
  | none => rw [dispatch_of_new kept, current, kept]; rfl
  | some method => rw [dispatch_of_kept kept, current, kept]; rfl

/-- Dispatch changes nothing but what is kept. -/
theorem dispatch_frame (visitor : Visitor) (kind : Node.Kind) (kept : List (Node.Kind × Method)) :
    { (visitor.dispatch kind).2 with dispatched := kept } =
      { visitor with dispatched := kept } := by
  cases found : visitor.dispatched.lookup kind with
  | none => rw [dispatch_of_new found]
  | some method => rw [dispatch_of_kept found]

theorem resolve_dispatch (visitor : Visitor) (kind other : Node.Kind) :
    (visitor.dispatch kind).2.resolve other = visitor.resolve other :=
  congrArg (·.resolve other) (dispatch_frame visitor kind [])

theorem lookup_dispatch_of_ne (different : other ≠ kind) :
    (visitor.dispatch kind).2.dispatched.lookup other = visitor.dispatched.lookup other := by
  cases kept : visitor.dispatched.lookup kind with
  | none =>
      have unequal : (other == kind) = false := beq_eq_false_iff_ne.mpr different
      simp [dispatch_of_new kept, List.lookup_append, List.lookup_cons, unequal]
  | some method => rw [dispatch_of_kept kept]

theorem lookup_eq_none_iff : visitor.dispatched.lookup kind = none ↔ kind ∉ visitor.keptKinds := by
  rw [List.lookup_eq_none_iff, keptKinds, List.mem_map]
  constructor
  · rintro absent ⟨entry, member, rfl⟩
    simpa using absent entry member
  · intro absent entry member
    exact bne_iff_ne.mpr fun same => absent ⟨entry, member, same.symm⟩

theorem current_of_new (new : kind ∉ visitor.keptKinds) :
    visitor.current kind = visitor.resolve kind := by
  rw [current, lookup_eq_none_iff.mpr new]
  rfl

theorem mem_keptKinds_dispatch (visitor : Visitor) (kind : Node.Kind) :
    kind ∈ (visitor.dispatch kind).2.keptKinds := by
  by_contra absent
  have missing := lookup_eq_none_iff.mpr absent
  rw [lookup_dispatch] at missing
  cases missing

theorem mem_newKinds_iff {kinds : List Node.Kind} :
    kind ∈ visitor.newKinds kinds ↔ kind ∈ kinds ∧ kind ∉ visitor.keptKinds := by
  simp [newKinds, List.removeAll]

theorem newKinds_cons_of_kept {kinds : List Node.Kind} (kept : kind ∈ visitor.keptKinds) :
    visitor.newKinds (kind :: kinds) = visitor.newKinds kinds := by
  simp [newKinds, List.removeAll, kept]

theorem newKinds_cons_of_new {kinds : List Node.Kind} (new : kind ∉ visitor.keptKinds) :
    visitor.newKinds (kind :: kinds) = kind :: (visitor.dispatch kind).2.newKinds kinds := by
  have added : (visitor.dispatch kind).2.keptKinds = visitor.keptKinds ++ [kind] := by
    rw [dispatch_of_new (lookup_eq_none_iff.mpr new), keptKinds, List.map_append]
    rfl
  have rest : kinds.removeAll (visitor.keptKinds ++ [kind]) =
      (kinds.removeAll visitor.keptKinds).filter fun other => !other == kind := by
    simp only [List.removeAll, List.filter_filter]
    apply List.filter_congr
    intro other _
    by_cases same : other = kind <;> simp [same]
  have first : (kind :: kinds).removeAll visitor.keptKinds =
      kind :: kinds.removeAll visitor.keptKinds := by
    simp [List.removeAll, new]
  rw [newKinds, newKinds, added, rest, first, List.eraseDups_cons]

theorem replay_append (visitor : Visitor) (first second : List Event) :
    visitor.replay (first ++ second) = (visitor.replay first).replay second :=
  List.foldl_append

/-- What is kept stays in its place, whatever happens. -/
theorem dispatched_prefix_replay (visitor : Visitor) (events : List Event) :
    visitor.dispatched <+: (visitor.replay events).dispatched := by
  induction events generalizing visitor with
  | nil => exact List.prefix_rfl
  | cons event rest ih =>
      have first : visitor.dispatched <+: (visitor.observe event).dispatched := by
        cases event with
        | defined selector method => exact List.prefix_rfl
        | met kind => exact dispatched_stays visitor kind
      exact first.trans (ih _)

theorem settled_met (visitor : Visitor) (kind : Node.Kind) (events : List Event) :
    visitor.settled kind (.met kind :: events) = visitor.resolve kind :=
  if_pos rfl

theorem settled_met_of_ne (different : kind ≠ other) (events : List Event) :
    visitor.settled kind (.met other :: events) =
      (visitor.dispatch other).2.settled kind events :=
  if_neg fun same => different (Event.met.inj same).symm

/-- Once a kind has been met, nothing that happens later matters to it. -/
theorem settled_append_met (visitor : Visitor) (kind : Node.Kind) (before after : List Event) :
    visitor.settled kind (before ++ .met kind :: after) = visitor.settled kind before := by
  induction before generalizing visitor with
  | nil => exact settled_met visitor kind after
  | cons event rest ih => rw [List.cons_append, settled, settled, ih]

theorem settled_append_of_met (met : .met kind ∈ events) (more : List Event) :
    visitor.settled kind (events ++ more) = visitor.settled kind events := by
  obtain ⟨before, after, rfl⟩ := List.append_of_mem met
  rw [List.append_assoc, List.cons_append, settled_append_met, settled_append_met]

/-- Until a kind is met, what look-up gives it now is what counts. -/
theorem settled_of_unmet (unmet : .met kind ∉ events) :
    visitor.settled kind events = (visitor.replay events).resolve kind := by
  induction events generalizing visitor with
  | nil => rfl
  | cons event rest ih =>
      have different : event ≠ .met kind := fun same => unmet (same ▸ List.mem_cons_self)
      rw [settled, if_neg different, ih (List.not_mem_of_not_mem_cons unmet)]
      rfl

theorem settled_map_met (visitor : Visitor) (kind : Node.Kind) (kinds : List Node.Kind) :
    visitor.settled kind (kinds.map .met) = visitor.resolve kind := by
  induction kinds generalizing visitor with
  | nil => rfl
  | cons first rest ih =>
      rw [List.map_cons, settled, ih, observe, resolve_dispatch, ite_self]

/-- A kind is dispatched to what is kept for it from the start, else to what look-up gave first. -/
theorem current_replay (visitor : Visitor) (kind : Node.Kind) (events : List Event) :
    (visitor.replay events).current kind =
      (visitor.dispatched.lookup kind).getD (visitor.settled kind events) := by
  induction events generalizing visitor with
  | nil => rfl
  | cons event rest ih =>
      rw [replay, List.foldl_cons, ← replay, ih]
      cases event with
      | defined selector method => rfl
      | met first =>
          by_cases same : kind = first
          · subst same
            rw [settled_met, observe, lookup_dispatch, dispatch_fst]
            rfl
          · rw [settled_met_of_ne same, observe, lookup_dispatch_of_ne same]

/-- What is kept grows by the kinds that are new, each with what look-up gave it first. -/
theorem dispatched_replay (visitor : Visitor) (events : List Event) :
    (visitor.replay events).dispatched = visitor.dispatched ++
      (visitor.newKinds (events.filterMap Event.kind?)).map
        fun kind => (kind, visitor.settled kind events) := by
  induction events generalizing visitor with
  | nil => simp [replay, newKinds, List.removeAll]
  | cons event rest ih =>
      rw [replay, List.foldl_cons, ← replay, ih]
      cases event with
      | defined selector method => rfl
      | met first =>
          have kinds : (Event.met first :: rest).filterMap Event.kind? =
              first :: rest.filterMap Event.kind? := rfl
          have later : ∀ kind ∈ (visitor.dispatch first).2.newKinds (rest.filterMap Event.kind?),
              visitor.settled kind (.met first :: rest) =
                (visitor.dispatch first).2.settled kind rest := by
            intro kind new
            apply settled_met_of_ne
            rintro rfl
            exact (mem_newKinds_iff.mp new).2 (mem_keptKinds_dispatch visitor kind)
          rw [kinds, observe, ← List.map_congr_left fun kind new => congrArg _ (later kind new)]
          cases kept : visitor.dispatched.lookup first with
          | some method =>
              have member := mem_keptKinds_dispatch visitor first
              rw [dispatch_of_kept kept] at member ⊢
              rw [newKinds_cons_of_kept member]
          | none =>
              rw [newKinds_cons_of_new (lookup_eq_none_iff.mp kept), List.map_cons, settled_met,
                dispatch_of_new kept, List.append_assoc, List.singleton_append]

/-- Meeting kinds changes nothing but what is kept. -/
theorem replay_map_met_frame (visitor : Visitor) (kinds : List Node.Kind) :
    visitor.replay (kinds.map .met) =
      { visitor with dispatched := (visitor.replay (kinds.map .met)).dispatched } := by
  induction kinds generalizing visitor with
  | nil => rfl
  | cons first rest ih =>
      have step : visitor.replay ((first :: rest).map .met) =
          (visitor.dispatch first).2.replay (rest.map .met) := rfl
      rw [step]
      exact (ih _).trans (dispatch_frame visitor first _)

theorem replay_map_met (visitor : Visitor) (kinds : List Node.Kind) :
    visitor.replay (kinds.map .met) = { visitor with
      dispatched := visitor.dispatched ++
        (visitor.newKinds kinds).map fun kind => (kind, visitor.resolve kind) } := by
  have same : (kinds.map Event.met).filterMap Event.kind? = kinds := by
    rw [List.filterMap_map]
    exact List.filterMap_some
  rw [replay_map_met_frame, dispatched_replay, same]
  simp only [settled_map_met]

end CucumberExpression.Visitor
