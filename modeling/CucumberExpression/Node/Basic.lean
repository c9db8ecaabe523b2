import CucumberExpression.Text.CodePoint

namespace CucumberExpression

/-! # Syntax trees

A leaf holds literal text, a branch holds children. Every node has the span of its source, end
excluded. Trees are made through `Node.ofFields`, which admits only spans that start at zero or
later and do not end before they start; `Node.fields` gives back what it was made from. -/

/-- The nodes that have children. -/
inductive Branch where
  | optional
  | alternation
  | alternative
  | parameter
  | expression
deriving DecidableEq, Repr

inductive Node.Kind where
  | text
  | branch (shape : Branch)
deriving DecidableEq, Repr

inductive Node where
  | leaf (start stop : Int) (token : Text)
  | branch (shape : Branch) (start stop : Int) (children : List Node)
deriving Repr

namespace Node.Kind

def all : List Kind :=
  [text, branch .optional, branch .alternation, branch .alternative, branch .parameter,
    branch .expression]

def name : Kind → String
  | text => "TEXT_NODE"
  | branch .optional => "OPTIONAL_NODE"
  | branch .alternation => "ALTERNATION_NODE"
  | branch .alternative => "ALTERNATIVE_NODE"
  | branch .parameter => "PARAMETER_NODE"
  | branch .expression => "EXPRESSION_NODE"

def ofName? (name : String) : Option Kind :=
  all.find? (·.name == name)

theorem ofName?_name (kind : Kind) : ofName? kind.name = some kind := by
  rcases kind with _ | shape
  · decide
  · cases shape <;> decide

end Node.Kind

namespace Node

mutual

def decEq : (left right : Node) → Decidable (left = right)
  | .leaf start stop token, .leaf start' stop' token' =>
      decidable_of_iff (start = start' ∧ stop = stop' ∧ token = token') (by simp)
  | .branch shape start stop children, .branch shape' start' stop' children' =>
      match decEqList children children' with
      | isTrue same =>
          decidable_of_iff (shape = shape' ∧ start = start' ∧ stop = stop') (by simp [same])
      | isFalse different => isFalse (by simp [different])
  | .leaf .., .branch .. => isFalse (by simp)
  | .branch .., .leaf .. => isFalse (by simp)

def decEqList : (left right : List Node) → Decidable (left = right)
  | [], [] => isTrue rfl
  | [], _ :: _ => isFalse (by simp)
  | _ :: _, [] => isFalse (by simp)
  | node :: rest, node' :: rest' =>
      match decEq node node', decEqList rest rest' with
      | isTrue same, isTrue sameRest => isTrue (by rw [same, sameRest])
      | isFalse different, _ => isFalse (by simp [different])
      | _, isFalse different => isFalse (by simp [different])

end

instance : DecidableEq Node := decEq

def kind : Node → Kind
  | .leaf .. => .text
  | .branch shape .. => .branch shape

def start : Node → Int
  | .leaf start .. => start
  | .branch _ start .. => start

def stop : Node → Int
  | .leaf _ stop _ => stop
  | .branch _ _ stop _ => stop

def token? : Node → Option Text
  | .leaf _ _ token => some token
  | .branch .. => none

/-- The children of a branch; a leaf has none. -/
def children : Node → List Node
  | .leaf .. => []
  | .branch _ _ _ children => children

structure Fields where
  kind : Kind
  start : Int
  stop : Int
  nodes : Option (List Node)
  token : Option Text
deriving DecidableEq, Repr

def fields : Node → Fields
  | .leaf start stop token => ⟨.text, start, stop, none, some token⟩
  | .branch shape start stop children => ⟨.branch shape, start, stop, some children, none⟩

/-- Why a record is not a node. -/
inductive Invalid where
  | span (start stop : Int) (kind : Kind)
  | leafFields
  | branchFields (shape : Branch)
deriving DecidableEq, Repr

/-- Offsets are written out whatever their length; no limit on digits applies. -/
def Invalid.message : Invalid → String
  | span start stop kind => s!"Invalid span [{start}, {stop}) for a {kind.name}"
  | leafFields => s!"{Kind.text.name} must have a token and no child nodes"
  | branchFields shape => s!"{(Kind.branch shape).name} must have child nodes and no token"

/-- The node of a record. The span is looked at before the other fields. -/
def ofFields (fields : Fields) : Except Invalid Node :=
  if fields.start < 0 || fields.stop < fields.start then
    .error (.span fields.start fields.stop fields.kind)
  else
    match fields.kind, fields.nodes, fields.token with
    | .text, none, some token => .ok (.leaf fields.start fields.stop token)
    | .text, _, _ => .error .leafFields
    | .branch shape, some children, none => .ok (.branch shape fields.start fields.stop children)
    | .branch shape, _, _ => .error (.branchFields shape)

def newLeaf (start stop : Int) (token : Text) : Except Invalid Node :=
  ofFields ⟨.text, start, stop, none, some token⟩

def newBranch (kind : Kind) (start stop : Int) (children : List Node) : Except Invalid Node :=
  ofFields ⟨kind, start, stop, some children, none⟩

theorem fields_of_ofFields {fields : Fields} {node : Node} (made : ofFields fields = .ok node) :
    node.fields = fields ∧ 0 ≤ node.start ∧ node.start ≤ node.stop := by
  obtain ⟨kind, start, stop, nodes, token⟩ := fields
  simp only [ofFields, Bool.or_eq_true, decide_eq_true_eq] at made
  split at made
  · cases made
  · rename_i ordered
    split at made <;> cases made <;> simp_all [Node.fields, Node.start, Node.stop]

theorem ofFields_fields {node : Node} (nonneg : 0 ≤ node.start)
    (ordered : node.start ≤ node.stop) :
    ofFields node.fields = .ok node := by
  cases node <;> simp only [Node.start, Node.stop] at nonneg ordered <;>
    simp [Node.fields, ofFields, Int.not_lt.mpr nonneg, Int.not_lt.mpr ordered]

end Node

end CucumberExpression
