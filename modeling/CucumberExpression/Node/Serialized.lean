import CucumberExpression.Json.Reader
import CucumberExpression.Json.Writer
import CucumberExpression.Node.Basic

namespace CucumberExpression.Node

/-! # Trees as documents

A node is a record of its type, its span, and either its children or its token. Reading is generous
with the form of offsets and tokens, takes the fields in a fixed order and stops at the first that
cannot be had; the node is checked when all fields are there. -/

inductive Field where
  | type
  | start
  | stop
  | nodes
  | token
deriving DecidableEq, Repr

def Field.name : Field → String
  | type => "type"
  | start => "start"
  | stop => "end"
  | nodes => "nodes"
  | token => "token"

def Field.expected : Field → String
  | type => "NodeType"
  | start | stop => "int"
  | nodes => "list"
  | token => "str"

mutual

def toDocument : Node → Json
  | .leaf start stop token =>
      .record [(Field.type.name, .text Kind.text.name), (Field.start.name, .integer start),
        (Field.stop.name, .integer stop), (Field.token.name, .text token)]
  | .branch shape start stop children =>
      .record [(Field.type.name, .text (Kind.branch shape).name),
        (Field.start.name, .integer start), (Field.stop.name, .integer stop),
        (Field.nodes.name, .list (toDocuments children))]

def toDocuments : List Node → List Json
  | [] => []
  | node :: rest => node.toDocument :: toDocuments rest

end

/-- How a value fails to be what a field needs. -/
inductive Unsuitable where
  | value
  | shape
  | size
  | depth
deriving DecidableEq, Repr

inductive DocumentError where
  | notRecord
  | missing (field : Field)
  | invalid (field : Field) (cause : DocumentError)
  | unsuitable (fault : Unsuitable)
  | rejected (reason : Invalid)
deriving DecidableEq, Repr

def DocumentError.message : DocumentError → String
  | missing field =>
      s!"Field \"{field.name}\" of type {field.expected} is missing in Node instance"
  | rejected reason => reason.message
  | _ => ""

def kindOf : Json → Except DocumentError Kind
  | .text name =>
      match name.string?.bind Kind.ofName? with
      | some kind => .ok kind
      | none => .error (.unsuitable .value)
  | _ => .error (.unsuitable .value)

/-- Offsets may be numerals, truth values, or reals, whose integer part counts. -/
def offsetOf : Json → Except DocumentError Int
  | .integer value => .ok value
  | .boolean value => .ok value.toInt
  | .real (.infinite _) => .error (.unsuitable .size)
  | .real value =>
      match value.truncate? with
      | some whole => .ok whole
      | none => .error (.unsuitable .value)
  | .text text =>
      match Integer.ofText? text with
      | some value => .ok value
      | none => .error (.unsuitable .value)
  | _ => .error (.unsuitable .shape)

/-- Any value that can be displayed will do for a token, as text. -/
def tokenOf (members : List (Text × Json)) : Except DocumentError (Option Text) :=
  match Json.member? Field.token.name members with
  | none | some .null => .ok none
  | some value =>
      if value.depth ≤ Json.depthLimit then .ok (some value.asText)
      else .error (.unsuitable .depth)

/-- The value of a field that must be there. -/
def required {α : Type} (field : Field) (convert : Json → Except DocumentError α)
    (members : List (Text × Json)) : Except DocumentError α :=
  match Json.member? field.name members with
  | none => .error (.missing field)
  | some value => (convert value).mapError (.invalid field)

mutual

def ofDocument : Json → Except DocumentError Node
  | .record members => do
      let kind ← required .type kindOf members
      let start ← required .start offsetOf members
      let stop ← required .stop offsetOf members
      let nodes ← (nodesOf members).mapError (.invalid .nodes)
      let token ← (tokenOf members).mapError (.invalid .token)
      (ofFields ⟨kind, start, stop, nodes, token⟩).mapError .rejected
  | _ => .error .notRecord

def nodesOf : List (Text × Json) → Except DocumentError (Option (List Node))
  | [] => .ok none
  | (key, value) :: rest => if key = Field.nodes.name then childrenOf value else nodesOf rest

/-- Children come in a list. The elements of a text or of a record are texts, hence no nodes. -/
def childrenOf : Json → Except DocumentError (Option (List Node))
  | .null => .ok none
  | .list items => (ofDocuments items).map some
  | .text text => if text.isEmpty then .ok (some []) else .error .notRecord
  | .record members => if members.isEmpty then .ok (some []) else .error .notRecord
  | _ => .error (.unsuitable .shape)

def ofDocuments : List Json → Except DocumentError (List Node)
  | [] => .ok []
  | item :: rest => do
      let node ← ofDocument item
      let others ← ofDocuments rest
      return node :: others

end

/-! ## Documents as JSON text -/

inductive LoadError where
  | unreadable (reason : Json.ReadError)
  | document (reason : DocumentError)
deriving DecidableEq, Repr

def toJson (dialect : Json.Dialect) (indented : Bool) (node : Node) :
    Except Json.WriteError String :=
  node.toDocument.toText dialect indented

def ofReading (reading : Except Json.ReadError Json) : Except LoadError Node :=
  match reading with
  | .error reason => .error (.unreadable reason)
  | .ok value => (ofDocument value).mapError .document

def ofJson (dialect : Json.Dialect) (text : Text) : Except LoadError Node :=
  ofReading (Json.ofText dialect text)

def ofJsonBytes (dialect : Json.Dialect) (bytes : List UInt8) : Except LoadError Node :=
  ofReading (Json.ofBytes dialect bytes)

end CucumberExpression.Node
