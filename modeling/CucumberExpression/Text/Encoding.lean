import CucumberExpression.Text.CodePoint
import CucumberExpression.Text.Surrogate

namespace CucumberExpression.Text

/-! # Encodings of Unicode

Bytes are read as UTF-8, UTF-16 or UTF-32. A decoder may be told to let surrogates pass; in UTF-16
two that make a pair are one character, in the other encodings each stays for itself. -/

inductive Endian where
  | big
  | little
deriving DecidableEq, Repr

inductive Encoding where
  | utf8
  | utf16 (endian : Endian)
  | utf32 (endian : Endian)
deriving DecidableEq, Repr

/-- The code point of a number that an encoding gives. -/
def codePoint? (surrogatesPass : Bool) (number : Nat) : Option CodePoint :=
  if isHighSurrogate number || isLowSurrogate number then
    if surrogatesPass then some (.ofNumber number) else none
  else if number < 0x110000 then some (.ofNumber number)
  else none

def isTail (byte : UInt8) : Bool :=
  0x80 ≤ byte && byte < 0xc0

def tailBits (byte : UInt8) : Nat :=
  byte.toNat - 0x80

/-- A sequence of two, three or four bytes stands for a number that needs as many. -/
def decodeUtf8 (surrogatesPass : Bool) : List UInt8 → Option Text
  | [] => some []
  | a :: rest =>
      if a < 0x80 then (decodeUtf8 surrogatesPass rest).map (.char (Char.ofNat a.toNat) :: ·)
      else
        match rest with
        | [] => none
        | b :: rest =>
            if !isTail b || a < 0xc2 then none
            else if a < 0xe0 then do
              let c ← codePoint? surrogatesPass ((a.toNat - 0xc0) * 0x40 + tailBits b)
              return c :: (← decodeUtf8 surrogatesPass rest)
            else
              match rest with
              | [] => none
              | c :: rest =>
                  if !isTail c then none
                  else if a < 0xf0 then
                    let number := ((a.toNat - 0xe0) * 0x40 + tailBits b) * 0x40 + tailBits c
                    if number < 0x800 then none
                    else do
                      let c ← codePoint? surrogatesPass number
                      return c :: (← decodeUtf8 surrogatesPass rest)
                  else
                    match rest with
                    | [] => none
                    | d :: rest =>
                        let number := (((a.toNat - 0xf0) * 0x40 + tailBits b) * 0x40 +
                          tailBits c) * 0x40 + tailBits d
                        if !isTail d || number < 0x10000 then none
                        else do
                          let c ← codePoint? surrogatesPass number
                          return c :: (← decodeUtf8 surrogatesPass rest)

def wordOf (endian : Endian) (first second : UInt8) : Nat :=
  match endian with
  | .big => first.toNat * 0x100 + second.toNat
  | .little => second.toNat * 0x100 + first.toNat

def decodeUtf16 (surrogatesPass : Bool) (endian : Endian) : List UInt8 → Option Text
  | [] => some []
  | a :: b :: c :: d :: rest =>
      if isHighSurrogate (wordOf endian a b) && isLowSurrogate (wordOf endian c d) then
        (decodeUtf16 surrogatesPass endian rest).map
          (.char (pairedChar (wordOf endian a b) (wordOf endian c d)) :: ·)
      else do
        let first ← codePoint? surrogatesPass (wordOf endian a b)
        return first :: (← decodeUtf16 surrogatesPass endian (c :: d :: rest))
  | a :: b :: rest => do
      let first ← codePoint? surrogatesPass (wordOf endian a b)
      return first :: (← decodeUtf16 surrogatesPass endian rest)
  | [_] => none

def decodeUtf32 (surrogatesPass : Bool) (endian : Endian) : List UInt8 → Option Text
  | [] => some []
  | a :: b :: c :: d :: rest => do
      let number :=
        match endian with
        | .big => wordOf endian a b * 0x10000 + wordOf endian c d
        | .little => wordOf endian c d * 0x10000 + wordOf endian a b
      let first ← codePoint? surrogatesPass number
      return first :: (← decodeUtf32 surrogatesPass endian rest)
  | _ => none

def Encoding.decode (encoding : Encoding) (surrogatesPass : Bool) (bytes : List UInt8) :
    Option Text :=
  match encoding with
  | .utf8 => decodeUtf8 surrogatesPass bytes
  | .utf16 endian => decodeUtf16 surrogatesPass endian bytes
  | .utf32 endian => decodeUtf32 surrogatesPass endian bytes

end CucumberExpression.Text
