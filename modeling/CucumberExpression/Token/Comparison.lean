import CucumberExpression.Json.Basic
import CucumberExpression.Token.Basic

namespace CucumberExpression.Token

/-! # Comparing tokens

A token equals another with the same fields, a plain sequence of the same fields, and the bare kind
that it is of. -/

inductive Entry where
  | kind (kind : Kind)
  | value (value : Json)

inductive Operand where
  | token (token : Token)
  | kind (kind : Kind)
  | sequence (entries : List Entry)
  | value (value : Json)

def entries (token : Token) : List Entry :=
  [.kind token.kind, .value (.text token.text), .value (.integer token.start),
    .value (.integer token.stop)]

def Entry.same : Entry → Entry → Bool
  | .kind left, .kind right => left == right
  | .value left, .value right => left.same right
  | _, _ => false

def sameEntries : List Entry → List Entry → Bool
  | [], [] => true
  | left :: lefts, right :: rights => left.same right && sameEntries lefts rights
  | _, _ => false

def Operand.entries? : Operand → Option (List Entry)
  | .token operand => some operand.entries
  | .sequence found => some found
  | _ => none

def Operand.same : Operand → Operand → Bool
  | .token operand, .kind bare | .kind bare, .token operand => operand.kind == bare
  | .kind left, .kind right => left == right
  | .value left, .value right => left.same right
  | left, right =>
      match left.entries?, right.entries? with
      | some lefts, some rights => sameEntries lefts rights
      | _, _ => false

end CucumberExpression.Token
