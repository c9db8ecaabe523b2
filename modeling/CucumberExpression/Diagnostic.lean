import CucumberExpression.Token.Basic

namespace CucumberExpression

/-! # Diagnostics

A diagnostic shows the expression, a caret under the offending column, what is wrong and how to mend
it. Columns count code points of the whole expression from one; the column past the last one stands
for the end of the line. -/

/-! ## Requests that have no answer -/

/-- What a caller can ask for in vain. -/
inductive Misuse where
  | columnBelowOne
  | columnBeyondEnd
  | noSymbol (kind : Token.Kind)
  | noPurpose (kind : Token.Kind)
  | noSuchNumber (number : Int)
  | noLineMarkers
deriving DecidableEq, Repr

def Misuse.message : Misuse → String
  | columnBelowOne => "Column must be 1 or greater"
  | columnBeyondEnd => "Column is out of range"
  | noSymbol kind => s!"{kind.name} does not have a symbol"
  | noPurpose kind => s!"{kind.name} does not have a purpose"
  | noSuchNumber number => s!"{number} is not a valid TokenType"
  | noLineMarkers =>
      s!"Tokens must start with {Token.Kind.lineStart.name} and end with {Token.Kind.lineEnd.name}"

namespace Token.Kind

def symbol (kind : Kind) : Except Misuse Char :=
  match kind.symbol? with
  | some symbol => .ok symbol
  | none => .error (.noSymbol kind)

def purpose (kind : Kind) : Except Misuse String :=
  match kind.purpose? with
  | some purpose => .ok purpose
  | none => .error (.noPurpose kind)

def ofNumber (number : Int) : Except Misuse Kind :=
  match ofNumber? number with
  | some kind => .ok kind
  | none => .error (.noSuchNumber number)

end Token.Kind

/-! ## Pointing at a column -/

inductive Diagnostic.Kind where
  | escapedLineEnd
  | unescapable
  | unclosed
deriving DecidableEq, Repr

structure Diagnostic where
  kind : Diagnostic.Kind
  expression : Text
  column : Int
  problem : Text
  solution : Text
deriving DecidableEq, Repr

namespace Diagnostic

def caret (column : Int) : Text :=
  List.replicate (column - 1).toNat (.char ' ') ++ [.char '^']

/-- The line that points at a column of a text, which must exist or be the one past its end. -/
def pointer (text : Text) (column : Int) : Except Misuse Text :=
  if column < 1 then .error .columnBelowOne
  else if column > text.length + 1 then .error .columnBeyondEnd
  else .ok (caret column)

def layout (expression : Text) (column : Int) (pointerLine problem solution : Text) : Text :=
  let heading := s!"This Cucumber Expression has a problem at column {column}:"
  [.char '\n'].intercalate [heading, [], expression, pointerLine, problem, solution]

def report (expression : Text) (column : Int) (problem solution : Text) :
    Except Misuse Text :=
  (pointer expression column).map (layout expression column · problem solution)

/-- A diagnostic exists only for a column that can be pointed at. -/
def new (kind : Kind) (expression : Text) (column : Int) (problem solution : Text) :
    Except Misuse Diagnostic :=
  (pointer expression column).map fun _ => ⟨kind, expression, column, problem, solution⟩

def message (diagnostic : Diagnostic) : Text :=
  layout diagnostic.expression diagnostic.column (caret diagnostic.column) diagnostic.problem
    diagnostic.solution

theorem pointer_eq_ok_iff {text line : Text} {column : Int} :
    pointer text column = .ok line ↔
      1 ≤ column ∧ column ≤ text.length + 1 ∧ line = caret column := by
  simp only [pointer]
  split
  · simp only [reduceCtorEq, false_iff]
    omega
  · split
    · simp only [reduceCtorEq, false_iff]
      omega
    · simp only [Except.ok.injEq, eq_comm]
      constructor
      · intro same
        exact ⟨by omega, by omega, same⟩
      · exact fun bounds => bounds.2.2

theorem new_eq_ok_iff {kind : Kind} {expression problem solution : Text} {column : Int}
    {diagnostic : Diagnostic} :
    new kind expression column problem solution = .ok diagnostic ↔
      1 ≤ column ∧ column ≤ expression.length + 1 ∧
        diagnostic = ⟨kind, expression, column, problem, solution⟩ := by
  cases pointed : pointer expression column with
  | error reason =>
      simp only [new, pointed, Except.map, reduceCtorEq, false_iff]
      rintro ⟨low, high, -⟩
      have found := pointer_eq_ok_iff.mpr ⟨low, high, rfl⟩
      rw [pointed] at found
      cases found
  | ok line =>
      have bounds := pointer_eq_ok_iff.mp pointed
      simp [new, pointed, Except.map, bounds.1, bounds.2.1, eq_comm]

theorem report_eq_message {kind : Kind} {expression problem solution : Text} {column : Int}
    {diagnostic : Diagnostic}
    (made : new kind expression column problem solution = .ok diagnostic) :
    report expression column problem solution = .ok diagnostic.message := by
  obtain ⟨low, high, rfl⟩ := new_eq_ok_iff.mp made
  simp [report, pointer_eq_ok_iff.mpr ⟨low, high, rfl⟩, Except.map, message]

/-- A backslash is the last code point. -/
def escapedLineEnd (expression : Text) : Except Misuse Diagnostic :=
  new .escapedLineEnd expression (expression.length + 1)
    "The end of line can not be escaped."
    "You can use '\\\\' to escape the the '\\'"

/-- A backslash stands before the code point at an index that has no need of it. -/
def unescapable (expression : Text) (index : Int) : Except Misuse Diagnostic :=
  new .unescapable expression (index + 1)
    "Only the characters '\x7b', '\x7d', '(', ')', '\\', '/' and whitespace can be escaped."
    "If you did mean to use an '\\' you can use '\\\\' to escape it"

/-- An opening delimiter has no closing one. -/
def unclosed (expression : Text) (opening closing : Token.Kind) (opener : Token) :
    Except Misuse Diagnostic := do
  let openSymbol ← opening.symbol
  let closeSymbol ← closing.symbol
  let purpose ← opening.purpose
  new .unclosed expression (opener.start + 1)
    s!"The '{openSymbol}' does not have a matching '{closeSymbol}'."
    s!"If you did not intend to use {purpose} you can use '\\{openSymbol}' to escape the {purpose}"

end Diagnostic

end CucumberExpression
