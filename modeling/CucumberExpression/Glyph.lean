import CucumberExpression.Error

namespace CucumberExpression

/-! # Glyphs

A glyph is one code point of the meaning of an expression, with the span of its source: one code
point, or two where a backslash escapes it. What is escaped is text whatever it is otherwise.
Neighbouring glyphs of white space or of text make one token. -/

structure Glyph where
  kind : Token.Kind
  point : CodePoint
  start : Nat
  stop : Nat
deriving DecidableEq, Repr

/-- How the kind of an unescaped code point is found, which may fail. -/
abbrev Classifier := CodePoint → Except Error Token.Kind

namespace Glyph

/-- The glyphs of the code points from an offset on. Reading ends at the first escape that is not
allowed; `source` is the whole expression, for the diagnostic. -/
def read (classify : Classifier) (source : Text) : Nat → Text → Except Error (List Glyph)
  | _, [] => .ok []
  | offset, point :: rest =>
      if point = .char '\\' then
        match rest with
        | [] => Error.diagnose (Diagnostic.escapedLineEnd source)
        | escaped :: others =>
            if Token.isReserved escaped then do
              let glyphs ← read classify source (offset + 2) others
              return ⟨.text, escaped, offset, offset + 2⟩ :: glyphs
            else
              Error.diagnose (Diagnostic.unescapable source (offset + 1))
      else do
        let kind ← classify point
        let glyphs ← read classify source (offset + 1) rest
        return ⟨kind, point, offset, offset + 1⟩ :: glyphs

def joins (left right : Glyph) : Bool :=
  left.kind == right.kind && left.kind.isRun

end Glyph

namespace Token

/-- The token of a run of glyphs, which is never empty. -/
def ofRun : List Glyph → Token
  | [] => ⟨.text, [], 0, 0⟩
  | first :: rest =>
      ⟨first.kind, (first :: rest).map (·.point), first.start, (rest.getLastD first).stop⟩

def ofGlyphs (glyphs : List Glyph) : List Token :=
  (glyphs.splitBy Glyph.joins).map ofRun

/-- The line markers around the tokens of an expression of some length. -/
def withMarkers (length : Nat) (tokens : List Token) : List Token :=
  ⟨.lineStart, [], 0, 0⟩ :: tokens ++ [⟨.lineEnd, [], length, length⟩]

end Token

def tokenizeWith (classify : Classifier) (expression : Text) : Except Error (List Token) :=
  Stage.tokenizing.guard do
    let glyphs ← Glyph.read classify expression 0 expression
    return Token.withMarkers expression.length (Token.ofGlyphs glyphs)

def Classifier.standard : Classifier := fun point => .ok (Token.Kind.ofCodePoint point)

/-- The tokens of an expression, line markers included. -/
def tokenize (expression : Text) : Except Error (List Token) :=
  tokenizeWith .standard expression

end CucumberExpression
