import CucumberExpression.Text.Quoted

namespace CucumberExpression

/-! # Tokens

A token is a piece of an expression with the offsets of its source. Between two line markers stand
runs of white space, runs of text, and single delimiters. -/

inductive Token.Kind where
  | lineStart
  | lineEnd
  | space
  | optionalOpen
  | optionalClose
  | parameterOpen
  | parameterClose
  | separator
  | text
deriving DecidableEq, Repr

/-- Offsets are integers and not bound to one another: tokens may come from anywhere, and it is the
tree built from them that is checked. -/
structure Token where
  kind : Token.Kind
  text : Text
  start : Int
  stop : Int
deriving DecidableEq, Repr

namespace Token.Kind

def all : List Kind :=
  [lineStart, lineEnd, space, optionalOpen, optionalClose, parameterOpen, parameterClose, separator,
    text]

def name : Kind → String
  | lineStart => "START_OF_LINE"
  | lineEnd => "END_OF_LINE"
  | space => "WHITE_SPACE"
  | optionalOpen => "BEGIN_OPTIONAL"
  | optionalClose => "END_OPTIONAL"
  | parameterOpen => "BEGIN_PARAMETER"
  | parameterClose => "END_PARAMETER"
  | separator => "ALTERNATION"
  | text => "TEXT"

/-- Kinds are numbered from one, in the order of `all`. -/
def number : Kind → Nat
  | lineStart => 1
  | lineEnd => 2
  | space => 3
  | optionalOpen => 4
  | optionalClose => 5
  | parameterOpen => 6
  | parameterClose => 7
  | separator => 8
  | text => 9

def ofName? (name : String) : Option Kind :=
  all.find? (·.name == name)

def ofNumber? (number : Int) : Option Kind :=
  all.find? fun kind => (kind.number : Int) == number

/-- The character that a delimiter is written as. -/
def symbol? : Kind → Option Char
  | optionalOpen => some '('
  | optionalClose => some ')'
  | parameterOpen => some '{'
  | parameterClose => some '}'
  | separator => some '/'
  | _ => none

/-- What a delimiter is for, in the words of a diagnostic. -/
def purpose? : Kind → Option String
  | optionalOpen | optionalClose => some "optional text"
  | parameterOpen | parameterClose => some "a parameter"
  | separator => some "alternation"
  | _ => none

def ofChar (c : Char) : Kind :=
  if Text.isBlank c then space
  else if c = '(' then optionalOpen
  else if c = ')' then optionalClose
  else if c = '{' then parameterOpen
  else if c = '}' then parameterClose
  else if c = '/' then separator
  else text

/-- The kind of token that an unescaped code point belongs to. -/
def ofCodePoint : CodePoint → Kind
  | .char c => ofChar c
  | .surrogate _ => text

/-- Neighbouring code points of these kinds form one token; delimiters stand alone. -/
def isRun : Kind → Bool
  | space | text => true
  | _ => false

theorem mem_all (kind : Kind) : kind ∈ all := by
  cases kind <;> decide

theorem ofNumber?_number (kind : Kind) : ofNumber? kind.number = some kind := by
  cases kind <;> decide

theorem ofChar_of_symbol? {kind : Kind} {c : Char} (symbol : kind.symbol? = some c) :
    ofChar c = kind := by
  cases kind <;> cases symbol <;> decide

end Token.Kind

namespace Token

/-- What may be escaped: white space, the delimiters and the backslash. -/
def isReserved (point : CodePoint) : Bool :=
  point == .char '\\' || Kind.ofCodePoint point != .text

def describe (token : Token) : String :=
  s!"Token({token.kind.name}, {Text.quoted token.text}, {token.start}, {token.stop})"

/-! ## Spelling

How a token is written in an expression: text with a backslash before all that is reserved in it, all
else as it is. -/

def escape (text : Text) : Text :=
  text.flatMap fun point => if isReserved point then [.char '\\', point] else [point]

def spelling (token : Token) : Text :=
  match token.kind with
  | .text => escape token.text
  | _ => token.text

theorem escape_append (left right : Text) :
    escape (left ++ right) = escape left ++ escape right :=
  List.flatMap_append

theorem length_escape (text : Text) :
    (escape text).length = text.length + text.countP isReserved := by
  induction text with
  | nil => rfl
  | cons point rest ih =>
      rw [escape, List.flatMap_cons, ← escape, List.length_append, ih, List.countP_cons]
      split <;> simp_all <;> omega

end Token

end CucumberExpression
