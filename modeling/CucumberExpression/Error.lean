import CucumberExpression.Diagnostic
import CucumberExpression.Node.Basic

namespace CucumberExpression

/-! # Errors

What reading an expression can end with instead of a tree. A diagnostic and an invalid node are
errors of the expression and are passed on as they are; anything else that happens inside a stage is
an internal error of that stage (`Stage.guard`). -/

inductive Stage where
  | tokenizing
  | parsing
deriving DecidableEq, Repr

inductive Error where
  | diagnosed (diagnostic : Diagnostic)
  | invalidNode (reason : Node.Invalid)
  | misuse (reason : Misuse)
  /-- A component gave up. -/
  | crash
  | internal (stage : Stage) (cause : Error)
deriving DecidableEq, Repr

def Stage.failure : Stage → String
  | tokenizing =>
      "Failed to tokenize a cucumber expression due to internal error. Please report it!"
  | parsing =>
      "Failed to parse a cucumber expression due to internal error. Please report it!"

namespace Error

def message : Error → Text
  | diagnosed diagnostic => diagnostic.message
  | invalidNode reason => reason.message
  | misuse reason => reason.message
  | crash => ""
  | internal stage _ => stage.failure

def isExpected : Error → Bool
  | diagnosed _ | invalidNode _ | internal .. => true
  | misuse _ | crash => false

end Error

/-- The outcome of a stage, its unexpected errors marked as internal to it. -/
def Stage.guard {α : Type} (stage : Stage) : Except Error α → Except Error α
  | .ok value => .ok value
  | .error error => .error (if error.isExpected then error else .internal stage error)

/-- The failure that a diagnostic is for. -/
def Error.diagnose {α : Type} : Except Misuse Diagnostic → Except Error α
  | .ok diagnostic => .error (.diagnosed diagnostic)
  | .error reason => .error (.misuse reason)

/-- The outcome of making a node. That the node is invalid is an error of the expression. -/
def Error.orInvalid : Except Node.Invalid Node → Except Error Node
  | .ok node => .ok node
  | .error reason => .error (.invalidNode reason)

end CucumberExpression
