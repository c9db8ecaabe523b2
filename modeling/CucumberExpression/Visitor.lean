import CucumberExpression.Node.Basic

namespace CucumberExpression

/-! # Visitors

A visitor has methods by name, its own ones before those it shares with its kind. Visiting a node
calls the method of the node's kind, or the generic one, and the method found for a kind is kept: a
method that is set later does not replace it. A method answers with the token of a leaf or the
answers for the children, in order, between two texts of its own. -/

/-- What a visitor can have a method for. `visit` stands for dispatch itself. -/
inductive Selector where
  | visit
  | generic
  | kind (kind : Node.Kind)
deriving DecidableEq, Repr

namespace Selector

def name : Selector → String
  | visit => "visit"
  | generic => "generic_visit"
  | kind .text => "visit_text_node"
  | kind (.branch .optional) => "visit_optional_node"
  | kind (.branch .alternation) => "visit_alternation_node"
  | kind (.branch .alternative) => "visit_alternative_node"
  | kind (.branch .parameter) => "visit_parameter_node"
  | kind (.branch .expression) => "visit_expression_node"

def all : List Selector :=
  visit :: generic :: Node.Kind.all.map kind

def ofName? (name : String) : Option Selector :=
  all.find? (·.name == name)

theorem ofName?_name (selector : Selector) : ofName? selector.name = some selector := by
  rcases selector with _ | _ | _ | shape
  · decide
  · decide
  · decide
  · cases shape <;> decide

end Selector

/-- The texts that a method puts around what is inside a node. -/
structure Wrap where
  before : Text
  after : Text
deriving DecidableEq, Repr

inductive Method where
  | wrapping (label : String) (wrap : Wrap)
  /-- The generic method that every visitor has to replace. -/
  | unimplemented
deriving DecidableEq, Repr

structure Call where
  label : String
  kind : Node.Kind
  start : Int
  stop : Int
deriving DecidableEq, Repr

/-- Methods by selector; the first of a selector counts. -/
abbrev Methods := List (Selector × Method)

structure Visitor where
  own : Methods
  shared : Methods
  /-- The methods kept for the kinds met so far, in the order they were met. -/
  dispatched : List (Node.Kind × Method)
deriving DecidableEq, Repr

inductive Abandoned where
  | unimplemented
deriving DecidableEq, Repr

namespace Visitor

/-- A visitor needs a generic method. -/
def new (shared : Methods) : Option Visitor :=
  if (shared.lookup .generic).isSome then some ⟨[], shared, []⟩ else none

def define (visitor : Visitor) (selector : Selector) (method : Method) : Visitor :=
  { visitor with own := (selector, method) :: visitor.own }

def method? (visitor : Visitor) (selector : Selector) : Option Method :=
  (visitor.own.lookup selector).or (visitor.shared.lookup selector)

/-- The method that a kind has now, whatever was kept for it. -/
def resolve (visitor : Visitor) (kind : Node.Kind) : Method :=
  ((visitor.method? (.kind kind)).or (visitor.method? .generic)).getD .unimplemented

def dispatch (visitor : Visitor) (kind : Node.Kind) : Method × Visitor :=
  match visitor.dispatched.lookup kind with
  | some method => (method, visitor)
  | none =>
      let method := visitor.resolve kind
      (method, { visitor with dispatched := visitor.dispatched ++ [(kind, method)] })

theorem method?_define (visitor : Visitor) (selector : Selector) (method : Method) :
    (visitor.define selector method).method? selector = some method := by
  simp [define, method?]

theorem method?_define_of_ne {visitor : Visitor} {selector other : Selector}
    (different : other ≠ selector) (method : Method) :
    (visitor.define selector method).method? other = visitor.method? other := by
  have unequal : (other == selector) = false := beq_eq_false_iff_ne.mpr different
  simp [define, method?, List.lookup_cons, unequal]

/-- The method that dispatch finds is the one kept afterwards. -/
theorem lookup_dispatch (visitor : Visitor) (kind : Node.Kind) :
    (visitor.dispatch kind).2.dispatched.lookup kind = some (visitor.dispatch kind).1 := by
  cases kept : visitor.dispatched.lookup kind with
  | none => simp [dispatch, kept, List.lookup_append]
  | some method => simp [dispatch, kept]

/-- What is kept stays in its place. -/
theorem dispatched_stays (visitor : Visitor) (kind : Node.Kind) :
    visitor.dispatched <+: (visitor.dispatch kind).2.dispatched := by
  cases kept : visitor.dispatched.lookup kind with
  | none => simp [dispatch, kept]
  | some method => simp [dispatch, kept]

/-- The method called for a node: the visitor's `visit` if it has one, else that of its kind. -/
def select (visitor : Visitor) (kind : Node.Kind) : Method × Visitor :=
  match visitor.method? .visit with
  | some method => (method, visitor)
  | none => visitor.dispatch kind

/-- A visit under way: the visitor as it is by now and the calls so far. -/
structure Progress where
  visitor : Visitor
  calls : List Call
deriving DecidableEq, Repr

mutual

/-- The answer of a visit, or that it was abandoned, and how far it came. -/
def visitFrom (progress : Progress) : Node → Except Abandoned Text × Progress
  | .leaf start stop token =>
      match progress.visitor.select .text with
      | (.unimplemented, visitor) => (.error .unimplemented, { progress with visitor })
      | (.wrapping label wrap, visitor) =>
          (.ok (wrap.before ++ token ++ wrap.after),
            ⟨visitor, progress.calls ++ [⟨label, .text, start, stop⟩]⟩)
  | .branch shape start stop children =>
      match progress.visitor.select (.branch shape) with
      | (.unimplemented, visitor) => (.error .unimplemented, { progress with visitor })
      | (.wrapping label wrap, visitor) =>
          let call : Call := ⟨label, .branch shape, start, stop⟩
          match visitAllFrom ⟨visitor, progress.calls ++ [call]⟩ children with
          | (.ok inner, progress) => (.ok (wrap.before ++ inner ++ wrap.after), progress)
          | (.error reason, progress) => (.error reason, progress)

def visitAllFrom (progress : Progress) : List Node → Except Abandoned Text × Progress
  | [] => (.ok [], progress)
  | node :: rest =>
      match visitFrom progress node with
      | (.error reason, progress) => (.error reason, progress)
      | (.ok first, progress) =>
          match visitAllFrom progress rest with
          | (.error reason, progress) => (.error reason, progress)
          | (.ok others, progress) => (.ok (first ++ others), progress)

end

def visit (visitor : Visitor) (node : Node) : Except Abandoned Text × Progress :=
  visitFrom ⟨visitor, []⟩ node

end Visitor

end CucumberExpression
