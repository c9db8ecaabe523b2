import CucumberExpression.Json.Basic
import CucumberExpression.Number.Integer
import CucumberExpression.Text.Encoding
import CucumberExpression.Text.Surrogate

namespace CucumberExpression.Json

/-! # Reading JSON

A reader takes a value off the front of a text and gives back the rest. In the strict dialect an
integer out of range is read as a real, a real must be finite, and a text must be without
surrogates. -/

inductive ReadError where
  | malformed
  /-- An integer of more digits than are accepted. -/
  | tooManyDigits (count : Nat)
  /-- A list or a record inside too many others. -/
  | tooDeep (shape : Shape)
  /-- Bytes that are not text. -/
  | undecodable
deriving DecidableEq, Repr

def isGap (point : CodePoint) : Bool :=
  point == .char ' ' || point == .char '\t' || point == .char '\n' || point == .char '\r'

def skipGap (text : Text) : Text :=
  text.dropWhile isGap

/-- An element of a quoted text: a code point, or the number that an escape gives. -/
inductive Piece where
  | point (point : CodePoint)
  | unit (number : Nat)
deriving DecidableEq

def shortEscape? : CodePoint → Option Char
  | .char '"' => some '"'
  | .char '\\' => some '\\'
  | .char '/' => some '/'
  | .char 'b' => some '\x08'
  | .char 'f' => some '\x0c'
  | .char 'n' => some '\n'
  | .char 'r' => some '\r'
  | .char 't' => some '\t'
  | _ => none

def unitOf? (digits : Text) : Option Nat :=
  digits.chars?.bind Text.hexValue?

/-- The pieces of a quoted text up to its closing mark. -/
def pieces : Text → Except ReadError (List Piece × Text)
  | [] => .error .malformed
  | .char '"' :: rest => .ok ([], rest)
  | .char '\\' :: .char 'u' :: a :: b :: c :: d :: rest =>
      match unitOf? [a, b, c, d] with
      | none => .error .malformed
      | some number => do
          let (others, rest) ← pieces rest
          return (.unit number :: others, rest)
  | .char '\\' :: letter :: rest =>
      match shortEscape? letter with
      | none => .error .malformed
      | some meant => do
          let (others, rest) ← pieces rest
          return (.point (.char meant) :: others, rest)
  | point :: rest =>
      if point.number < 0x20 || point == .char '\\' then .error .malformed
      else do
        let (others, rest) ← pieces rest
        return (.point point :: others, rest)

/-- The text of pieces. Only the surrogates of two neighbouring escapes make a pair. -/
def joinPieces : List Piece → Text
  | [] => []
  | .point point :: rest => point :: joinPieces rest
  | .unit high :: .unit low :: rest =>
      if Text.isHighSurrogate high && Text.isLowSurrogate low then
        .char (Text.pairedChar high low) :: joinPieces rest
      else
        .ofNumber high :: joinPieces (.unit low :: rest)
  | .unit number :: rest => .ofNumber number :: joinPieces rest

def readQuoted (dialect : Dialect) (text : Text) : Except ReadError (Text × Text) := do
  let (found, rest) ← pieces text
  let content := joinPieces found
  if dialect = .strict && content.chars?.isNone then .error .malformed
  else return (content, rest)

def asciiDigit? : CodePoint → Option Nat
  | .char c => if c.isDigit then some (c.toNat - 48) else none
  | .surrogate _ => none

def digitRun : Text → List Nat × Text
  | [] => ([], [])
  | point :: rest =>
      match asciiDigit? point with
      | some digit => (digit :: (digitRun rest).1, (digitRun rest).2)
      | none => ([], point :: rest)

def fraction? : Text → Option (List Nat × Text)
  | .char '.' :: rest =>
      match digitRun rest with
      | ([], _) => none
      | found => some found
  | _ => none

/-- The sign at the front of a text: whether it is negative. -/
def readSign : Text → Bool × Text
  | .char '-' :: rest => (true, rest)
  | .char '+' :: rest => (false, rest)
  | rest => (false, rest)

def exponent? : Text → Option (Int × Text)
  | [] => none
  | mark :: rest =>
      if mark = .char 'e' ∨ mark = .char 'E' then
        let (negative, rest) := readSign rest
        match digitRun rest with
        | ([], _) => none
        | (digits, rest) =>
            let value : Int := Integer.ofDigits digits
            some (if negative then -value else value, rest)
      else none

def integerValue (dialect : Dialect) (negative : Bool) (digits : List Nat) :
    Except ReadError Json :=
  let magnitude := Integer.ofDigits digits
  let value : Int := if negative then -magnitude else magnitude
  match dialect with
  | .lenient =>
      if digits.length ≤ Integer.digitLimit then .ok (.integer value)
      else .error (.tooManyDigits digits.length)
  | .strict =>
      if inMachineRange value then .ok (.integer value)
      else
        match Binary64.ofDecimal negative magnitude 0 with
        | .infinite _ => .error .malformed
        | number => .ok (.real number)

def realValue (dialect : Dialect) (negative : Bool) (digits : List Nat) (exponent : Int) :
    Except ReadError Json :=
  match dialect, Binary64.ofDecimal negative (Integer.ofDigits digits) exponent with
  | .strict, .infinite _ => .error .malformed
  | _, number => .ok (.real number)

/-- A number without its sign. A zero stands alone before the point. With a point or an exponent the
number is a real. -/
def readMagnitude (dialect : Dialect) (negative : Bool) (text : Text) :
    Except ReadError (Json × Text) := do
  let (whole, rest) ←
    match text with
    | .char '0' :: rest => Except.ok ([0], rest)
    | front =>
        match digitRun front with
        | ([], _) => .error ReadError.malformed
        | found => .ok found
  match fraction? rest with
  | some (decimals, rest) =>
      let (exponent, rest) := (exponent? rest).getD (0, rest)
      let value ← realValue dialect negative (whole ++ decimals) (exponent - decimals.length)
      return (value, rest)
  | none =>
      match exponent? rest with
      | some (exponent, rest) => do
          let value ← realValue dialect negative whole exponent
          return (value, rest)
      | none => do
          let value ← integerValue dialect negative whole
          return (value, rest)

def readNumber (dialect : Dialect) : Text → Except ReadError (Json × Text)
  | .char '-' :: rest => readMagnitude dialect true rest
  | rest => readMagnitude dialect false rest

/-- The values that have names. Those that are not finite have them in the lenient dialect. -/
def Dialect.named (dialect : Dialect) : List (String × Json) :=
  let common := [("null", .null), ("true", .boolean true), ("false", .boolean false)]
  match dialect with
  | .strict => common
  | .lenient =>
      common ++ [("NaN", .real .notANumber), ("Infinity", .real (.infinite false)),
        ("-Infinity", .real (.infinite true))]

def named? (dialect : Dialect) (text : Text) : Option (Json × Text) :=
  dialect.named.findSome? fun (name, value) =>
    (List.isPrefixOf? (Text.ofString name) text).map fun rest => (value, rest)

def Dialect.tooDeep (dialect : Dialect) (shape : Shape) : ReadError :=
  match dialect with
  | .strict => .malformed
  | .lenient => .tooDeep shape

mutual

/-- A value. Lists and records may nest `room` deep; the first argument bounds how often one reader
calls another. -/
def readValue (dialect : Dialect) : Nat → Nat → Text → Except ReadError (Json × Text)
  | 0, _, _ => .error .malformed
  | fuel + 1, room, source =>
      match skipGap source with
      | .char '"' :: rest => do
          let (content, rest) ← readQuoted dialect rest
          return (.text content, rest)
      | .char '[' :: rest =>
          if room = 0 then .error (dialect.tooDeep .list)
          else
            match skipGap rest with
            | .char ']' :: rest => .ok (.list [], rest)
            | rest => do
                let (items, rest) ← readItems dialect fuel (room - 1) rest
                return (.list items, rest)
      | .char '{' :: rest =>
          if room = 0 then .error (dialect.tooDeep .record)
          else
            match skipGap rest with
            | .char '}' :: rest => .ok (.record [], rest)
            | rest => do
                let (members, rest) ← readMembers dialect fuel (room - 1) rest
                return (.record (distinctMembers members), rest)
      | rest =>
          match named? dialect rest with
          | some found => .ok found
          | none => readNumber dialect rest

def readItems (dialect : Dialect) : Nat → Nat → Text → Except ReadError (List Json × Text)
  | 0, _, _ => .error .malformed
  | fuel + 1, room, source => do
      let (first, rest) ← readValue dialect fuel room source
      match skipGap rest with
      | .char ',' :: rest => do
          let (others, rest) ← readItems dialect fuel room rest
          return (first :: others, rest)
      | .char ']' :: rest => return ([first], rest)
      | _ => .error .malformed

def readMembers (dialect : Dialect) :
    Nat → Nat → Text → Except ReadError (List (Text × Json) × Text)
  | 0, _, _ => .error .malformed
  | fuel + 1, room, source =>
      match skipGap source with
      | .char '"' :: rest => do
          let (key, rest) ← readQuoted dialect rest
          match skipGap rest with
          | .char ':' :: rest => do
              let (first, rest) ← readValue dialect fuel room rest
              match skipGap rest with
              | .char ',' :: rest => do
                  let (others, rest) ← readMembers dialect fuel room rest
                  return ((key, first) :: others, rest)
              | .char '}' :: rest => return ([(key, first)], rest)
              | _ => .error .malformed
          | _ => .error .malformed
      | _ => .error .malformed

end

/-- The value that a text consists of. Each reader takes a code point before it calls itself again,
so the bound on their calls is never reached. -/
def ofText (dialect : Dialect) (text : Text) : Except ReadError Json := do
  let (found, rest) ← readValue dialect (2 * text.length + 2) dialect.readingDepth text
  if (skipGap rest).isEmpty then return found else .error .malformed

/-! ## Reading from bytes

The strict dialect is UTF-8. The lenient one takes any encoding of Unicode: a byte order mark tells
which, and without one the zeros among the first bytes do, as a text begins with ASCII. -/

/-- The encoding of a text, and the text without its byte order mark. -/
def detectEncoding (bytes : List UInt8) : Text.Encoding × List UInt8 :=
  match bytes with
  | 0x00 :: 0x00 :: 0xfe :: 0xff :: rest => (.utf32 .big, rest)
  | 0xff :: 0xfe :: 0x00 :: 0x00 :: rest => (.utf32 .little, rest)
  | 0xfe :: 0xff :: rest => (.utf16 .big, rest)
  | 0xff :: 0xfe :: rest => (.utf16 .little, rest)
  | 0xef :: 0xbb :: 0xbf :: rest => (.utf8, rest)
  | a :: b :: c :: d :: _ =>
      if a = 0 then (if b = 0 then .utf32 .big else .utf16 .big, bytes)
      else if b = 0 then (if c = 0 ∧ d = 0 then .utf32 .little else .utf16 .little, bytes)
      else (.utf8, bytes)
  | [a, b] =>
      if a = 0 then (.utf16 .big, bytes)
      else if b = 0 then (.utf16 .little, bytes)
      else (.utf8, bytes)
  | _ => (.utf8, bytes)

/-- The value that bytes stand for. Bytes that are not text are malformed in the strict dialect. -/
def ofBytes (dialect : Dialect) (bytes : List UInt8) : Except ReadError Json :=
  match dialect with
  | .strict =>
      match Text.Encoding.utf8.decode false bytes with
      | some source => ofText .strict source
      | none => .error .malformed
  | .lenient =>
      let (encoding, content) := detectEncoding bytes
      match encoding.decode true content with
      | some source => ofText .lenient source
      | none => .error .undecodable

end CucumberExpression.Json
