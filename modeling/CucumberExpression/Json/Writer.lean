import CucumberExpression.Json.Basic
import CucumberExpression.Text.Surrogate

namespace CucumberExpression.Json

/-! # Writing JSON text

The strict dialect keeps characters as they are and leaves no gaps on a single line; it has no
integers beyond the machine range, no surrogates and no deep nesting. The lenient one writes ASCII
only, with a blank after each comma and colon. Indented, both look alike: two blanks a level, and a
blank after each colon. -/

structure Layout where
  indented : Bool
  comma : List Char
  colon : List Char

def Dialect.layout (dialect : Dialect) (indented : Bool) : Layout :=
  if indented then ⟨true, [','], [':', ' ']⟩
  else
    match dialect with
    | .strict => ⟨false, [','], [':']⟩
    | .lenient => ⟨false, [',', ' '], [':', ' ']⟩

/-- The end of a line and the blanks of the next. -/
def Layout.newLine (layout : Layout) (depth : Nat) : List Char :=
  if layout.indented then '\n' :: List.replicate (2 * depth) ' ' else []

def escapedUnit (unit : Nat) : List Char :=
  '\\' :: 'u' :: Text.hexNumeral 4 unit

/-- Whether a character of a quoted text is written as it is. -/
def isPlain (dialect : Dialect) (c : Char) : Bool :=
  match dialect with
  | .strict => 0x20 ≤ c.toNat
  | .lenient => 0x20 ≤ c.toNat && c.toNat < 0x7f

def escapedChar (dialect : Dialect) (c : Char) : List Char :=
  if c = '"' then ['\\', '"']
  else if c = '\\' then ['\\', '\\']
  else if isPlain dialect c then [c]
  else if c = '\x08' then ['\\', 'b']
  else if c = '\x0c' then ['\\', 'f']
  else if c = '\n' then ['\\', 'n']
  else if c = '\r' then ['\\', 'r']
  else if c = '\t' then ['\\', 't']
  else if c.toNat < 0x10000 then escapedUnit c.toNat
  else escapedUnit (Text.highSurrogate c) ++ escapedUnit (Text.lowSurrogate c)

def escapedPoint (dialect : Dialect) (point : CodePoint) : List Char :=
  match point with
  | .char c => escapedChar dialect c
  | .surrogate _ => escapedUnit point.number

def quotedText (dialect : Dialect) (text : Text) : List Char :=
  '"' :: text.flatMap (escapedPoint dialect) ++ ['"']

/-- The strict dialect has no form for a real that is not finite. -/
def writeReal (dialect : Dialect) (value : Binary64) : List Char :=
  match dialect, value with
  | .strict, .notANumber | .strict, .infinite _ => ['n', 'u', 'l', 'l']
  | .lenient, .notANumber => ['N', 'a', 'N']
  | .lenient, .infinite negative =>
      (if negative then ['-'] else []) ++ ['I', 'n', 'f', 'i', 'n', 'i', 't', 'y']
  | _, finite => finite.text.toList

def writeInteger (value : Int) : List Char :=
  if value < 0 then '-' :: Nat.toDigits 10 value.natAbs else Nat.toDigits 10 value.natAbs

mutual

def writeValue (dialect : Dialect) (layout : Layout) (depth : Nat) : Json → List Char
  | .null => ['n', 'u', 'l', 'l']
  | .boolean true => ['t', 'r', 'u', 'e']
  | .boolean false => ['f', 'a', 'l', 's', 'e']
  | .integer value => writeInteger value
  | .real value => writeReal dialect value
  | .text value => quotedText dialect value
  | .list [] => ['[', ']']
  | .list (item :: rest) =>
      '[' :: layout.newLine (depth + 1) ++
        writeItems dialect layout (depth + 1) (item :: rest) ++ layout.newLine depth ++ [']']
  | .record [] => ['{', '}']
  | .record (member :: rest) =>
      '{' :: layout.newLine (depth + 1) ++
        writeMembers dialect layout (depth + 1) (member :: rest) ++ layout.newLine depth ++ ['}']

def writeItems (dialect : Dialect) (layout : Layout) (depth : Nat) : List Json → List Char
  | [] => []
  | [item] => writeValue dialect layout depth item
  | item :: rest =>
      writeValue dialect layout depth item ++ layout.comma ++ layout.newLine depth ++
        writeItems dialect layout depth rest

def writeMembers (dialect : Dialect) (layout : Layout) (depth : Nat) :
    List (Text × Json) → List Char
  | [] => []
  | [(key, value)] =>
      quotedText dialect key ++ layout.colon ++ writeValue dialect layout depth value
  | (key, value) :: rest =>
      quotedText dialect key ++ layout.colon ++ writeValue dialect layout depth value ++
        layout.comma ++ layout.newLine depth ++ writeMembers dialect layout depth rest

end

inductive WriteError where
  | integerOutOfRange
  | surrogate
  | tooDeep
deriving DecidableEq, Repr

def WriteError.message : WriteError → String
  | integerOutOfRange => "Integer exceeds 64-bit range"
  | surrogate => "str is not valid UTF-8: surrogates not allowed"
  | tooDeep => "Recursion limit reached"

def textObstacle? (text : Text) : Option WriteError :=
  if text.chars?.isSome then none else some .surrogate

mutual

/-- What the strict dialect cannot write in a value, the first thing in the order of writing. Lists
and records may nest `room` deep. -/
def obstacle? (room : Nat) : Json → Option WriteError
  | .integer value => if inMachineRange value then none else some .integerOutOfRange
  | .text value => textObstacle? value
  | .list items => if room = 0 then some .tooDeep else obstacleInItems? (room - 1) items
  | .record members => if room = 0 then some .tooDeep else obstacleInMembers? (room - 1) members
  | _ => none

def obstacleInItems? (room : Nat) : List Json → Option WriteError
  | [] => none
  | item :: rest => (obstacle? room item).or (obstacleInItems? room rest)

def obstacleInMembers? (room : Nat) : List (Text × Json) → Option WriteError
  | [] => none
  | (key, value) :: rest =>
      (textObstacle? key).or ((obstacle? room value).or (obstacleInMembers? room rest))

end

def toText (dialect : Dialect) (indented : Bool) (value : Json) : Except WriteError String :=
  let obstacle :=
    match dialect with
    | .strict => value.obstacle? writingDepth
    | .lenient => none
  match obstacle with
  | some reason => .error reason
  | none => .ok (String.ofList (writeValue dialect (dialect.layout indented) 0 value))

end CucumberExpression.Json
