namespace CucumberExpression

/-! # Code points

A text is a sequence of code points. Most of them are characters; a surrogate is found in a text only
where it was not read as half of a pair. Two surrogates next to each other stay two code points. -/

inductive CodePoint where
  | char (c : Char)
  /-- The surrogate at an offset from U+D800. -/
  | surrogate (offset : Fin 0x800)
deriving DecidableEq, Repr

abbrev Text := List CodePoint

namespace CodePoint

def number : CodePoint → Nat
  | char c => c.toNat
  | surrogate offset => 0xd800 + offset

/-- The code point of a number below U+110000. -/
def ofNumber (number : Nat) : CodePoint :=
  if between : 0xd800 ≤ number ∧ number < 0xe000 then surrogate ⟨number - 0xd800, by omega⟩
  else char (Char.ofNat number)

theorem ofNumber_number (point : CodePoint) : ofNumber point.number = point := by
  cases point with
  | char c =>
      have bounds : c.toNat < 0xd800 ∨ 0xdfff < c.toNat ∧ c.toNat < 0x110000 := c.valid
      have outside : ¬ (0xd800 ≤ c.toNat ∧ c.toNat < 0xe000) := by omega
      simp [number, ofNumber, outside]
  | surrogate offset =>
      have inside : 0xd800 ≤ 0xd800 + offset.val ∧ 0xd800 + offset.val < 0xe000 := by omega
      simp [number, ofNumber, inside]

end CodePoint

namespace Text

def ofChars (cs : List Char) : Text :=
  cs.map .char

def ofString (s : String) : Text :=
  ofChars s.toList

instance : Coe String Text := ⟨ofString⟩

def chars? : Text → Option (List Char)
  | [] => some []
  | .char c :: rest => (chars? rest).map (c :: ·)
  | .surrogate _ :: _ => none

def string? (text : Text) : Option String :=
  (chars? text).map String.ofList

theorem chars?_eq_some_iff {text : Text} {cs : List Char} :
    chars? text = some cs ↔ text = ofChars cs := by
  induction text generalizing cs with
  | nil => cases cs <;> simp [chars?, ofChars]
  | cons point rest ih =>
      cases point with
      | surrogate offset => cases cs <;> simp [chars?, ofChars]
      | char c =>
          cases cs with
          | nil => simp [chars?, ofChars]
          | cons c' cs =>
              have tail : chars? rest = some cs ↔ rest = cs.map .char := ih
              simp only [chars?, ofChars, Option.map_eq_some_iff, List.map_cons, List.cons.injEq,
                CodePoint.char.injEq, ← tail]
              constructor
              · rintro ⟨found, read, rfl, rfl⟩
                exact ⟨rfl, read⟩
              · rintro ⟨rfl, read⟩
                exact ⟨cs, read, rfl, rfl⟩

@[simp]
theorem ofChars_nil : ofChars [] = [] :=
  rfl

@[simp]
theorem ofChars_cons (c : Char) (cs : List Char) : ofChars (c :: cs) = .char c :: ofChars cs :=
  rfl

@[simp]
theorem ofChars_append (left right : List Char) :
    ofChars (left ++ right) = ofChars left ++ ofChars right :=
  List.map_append

theorem chars?_ofChars (cs : List Char) : chars? (ofChars cs) = some cs :=
  chars?_eq_some_iff.mpr rfl

theorem string?_ofString (s : String) : string? (ofString s) = some s := by
  simp [string?, ofString, chars?_ofChars]

theorem length_ofString (s : String) : (ofString s).length = s.length := by
  rw [ofString, ofChars, List.length_map, String.length_toList]

/-! ## White space

White space separates the words of an expression and may be escaped. Here the four information
separators U+001C to U+001F count as white space as well; around a numeral they do not. -/

/-- The Unicode property White_Space. -/
def isWhiteSpace (c : Char) : Bool :=
  let n := c.toNat
  (0x9 ≤ n && n ≤ 0xd) || n == 0x20 || n == 0x85 || n == 0xa0 || n == 0x1680 ||
    (0x2000 ≤ n && n ≤ 0x200a) || n == 0x2028 || n == 0x2029 || n == 0x202f || n == 0x205f ||
    n == 0x3000

def isBlank (c : Char) : Bool :=
  isWhiteSpace c || (0x1c ≤ c.toNat && c.toNat ≤ 0x1f)

/-- The white space of core is white space here too. -/
theorem isWhiteSpace_of_isWhitespace {c : Char} (white : c.isWhitespace = true) :
    isWhiteSpace c = true := by
  simp only [Char.isWhitespace, Bool.or_eq_true, decide_eq_true_eq] at white
  rcases white with ((rfl | rfl) | rfl) | rfl <;> decide

end Text

end CucumberExpression
