import CucumberExpression.Node.Basic
import CucumberExpression.Text.Quoted

namespace CucumberExpression.Node

/-! # Trees for display

All fields of a node by name. Children stand in parentheses, with a comma after one that is
alone. -/

def Kind.describe (kind : Kind) : String :=
  s!"<NodeType.{kind.name}: '{kind.name}'>"

def parenthesized : List String → String
  | [item] => s!"({item},)"
  | items => "(" ++ ", ".intercalate items ++ ")"

mutual

def describe : Node → String
  | .leaf start stop token =>
      let kind := Kind.text
      let token := Text.quoted token
      s!"Node(type={kind.describe}, start={start}, end={stop}, nodes=None, token={token})"
  | .branch shape start stop children =>
      let kind := Kind.branch shape
      let nodes := parenthesized (describeAll children)
      s!"Node(type={kind.describe}, start={start}, end={stop}, nodes={nodes}, token=None)"

def describeAll : List Node → List String
  | [] => []
  | node :: rest => node.describe :: describeAll rest

end

/-- What is attempted on a field of a node, in vain. -/
inductive Change where
  | assignment
  | deletion
deriving DecidableEq, Repr

/-- Nodes do not change: the refusal of an attempt on a field. -/
def Change.refusal (change : Change) (field : Text) : String :=
  match change with
  | .assignment => s!"cannot assign to field {Text.quoted field}"
  | .deletion => s!"cannot delete field {Text.quoted field}"

end CucumberExpression.Node
