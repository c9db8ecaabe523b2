import CucumberExpression.Glyph
import CucumberExpression.Json.Basic
import CucumberExpression.Word

namespace CucumberExpression

/-! # Reading expressions

`parse` reads an expression into its tree. Its two inner steps are replaceable (`Components`), so
that what happens when one of them breaks down can be told: the error is marked as internal once, by
the stage it arose in, and is recorded if tracing is on. -/

abbrev Resolver := List Item → Except Error (List Node)

structure Components where
  classify : Classifier
  resolve : Resolver

namespace Components

def standard : Components := ⟨.standard, Node.ofItems []⟩

/-- The components with one of the given stage out of order. -/
def crashing : Stage → Components
  | .tokenizing => { standard with classify := fun _ => .error .crash }
  | .parsing => { standard with resolve := fun _ => .error .crash }

end Components

/-- The tree of tokens, which must begin and end with the line markers. -/
def Node.ofTokensWith (resolve : Resolver) (expression : Text) (tokens : List Token) :
    Except Error Node :=
  match tokens with
  | [] => .error (.misuse .noLineMarkers)
  | first :: rest =>
      match rest.getLast? with
      | none => .error (.misuse .noLineMarkers)
      | some last =>
          if first.kind = .lineStart ∧ last.kind = .lineEnd then do
            let items ← Item.ofTokens expression rest.dropLast
            let children ← resolve items
            Error.orInvalid (Node.newBranch (.branch .expression) first.start last.stop children)
          else
            .error (.misuse .noLineMarkers)

def Node.ofTokens (expression : Text) (tokens : List Token) : Except Error Node :=
  Node.ofTokensWith Components.standard.resolve expression tokens

def parseWith (components : Components) (expression : Text) : Except Error Node := do
  let tokens ← tokenizeWith components.classify expression
  Stage.parsing.guard (Node.ofTokensWith components.resolve expression tokens)

def parse (expression : Text) : Except Error Node :=
  parseWith .standard expression

/-- A value that is not text in the place of an expression. -/
structure NotText where
  shape : Json.Shape
deriving DecidableEq, Repr

def NotText.message (found : NotText) : String :=
  s!"Expected a string expression, got {found.shape.name}"

def expressionOf : Json → Except NotText Text
  | .text expression => .ok expression
  | value => .error ⟨value.shape⟩

/-- A debug record of an internal error. -/
structure Record where
  stage : Stage
  cause : Error
deriving DecidableEq

def Record.message (record : Record) : String :=
  match record.stage with
  | .tokenizing => "Internal error tokenizing expression"
  | .parsing => "Internal error parsing expression"

/-- The records of an outcome: one for an internal error if tracing is on, none for all else. -/
def records {α : Type} (tracing : Bool) : Except Error α → List Record
  | .error (.internal stage cause) => if tracing then [⟨stage, cause⟩] else []
  | _ => []

end CucumberExpression
