import CucumberExpression.Markup
import CucumberExpression.Node.Basic
import CucumberExpression.Text.Quoted

namespace CucumberExpression

/-! # Outlines

An outline is a tree of labels in markup. It is printed one label a line, with guide lines from a
label to those below it. -/

inductive Outline where
  | entry (label : String) (below : List Outline)

namespace Outline

/-- The lines of an entry under another one: the first gets one guide, the others a second. -/
def hang (first others : String) : List String → List String
  | [] => []
  | line :: rest => (first ++ line) :: rest.map (others ++ ·)

mutual

def lines : Outline → List String
  | .entry label below => Markup.plain label :: linesBelow below

def linesBelow : List Outline → List String
  | [] => []
  | [last] => hang "└── " "    " last.lines
  | item :: rest => hang "├── " "│   " item.lines ++ linesBelow rest

end

def print (outline : Outline) : String :=
  String.join (outline.lines.map (· ++ "\n"))

end Outline

namespace Node

/-- The span as it is shown, with offsets of any length. -/
def spanText (node : Node) : String :=
  s!"[{node.start}, {node.stop})"

/-- The label of a node: its kind, its span, and the token of a leaf in quotation marks. -/
def label (node : Node) : String :=
  let head := Markup.styled "bold green" node.kind.name ++ " " ++ Markup.escape node.spanText
  match node.token? with
  | none => head
  | some token => head ++ " " ++ Markup.styled "yellow" (Markup.escape (Text.quoted token))

mutual

def outline : Node → Outline
  | .leaf start stop token => .entry (label (.leaf start stop token)) []
  | .branch shape start stop children =>
      .entry (label (.branch shape start stop children)) (outlines children)

def outlines : List Node → List Outline
  | [] => []
  | node :: rest => node.outline :: outlines rest

end

end Node

end CucumberExpression
