import Mathlib.Tactic.SplitIfs
import CucumberExpression.Json.Reader
import CucumberExpression.Json.Writer

namespace CucumberExpression.Json

/-! # Quoted texts in JSON

Whatever a writer does with a character, any reader understands: it leaves it as it is, or escapes
it by a letter, by its number, or by the numbers of its surrogates. -/

variable {dialect : Dialect} {written : List Char} {found : List Piece} {c : Char} {number : Nat}

/-- Whether characters are read as some pieces, whatever follows them. -/
def Conveys (written : List Char) (found : List Piece) : Prop :=
  ∀ rest others after, pieces rest = .ok (others, after) →
    pieces (Text.ofChars written ++ rest) = .ok (found ++ others, after)

theorem Conveys.append {written' : List Char} {found' : List Piece} (left : Conveys written found)
    (right : Conveys written' found') : Conveys (written ++ written') (found ++ found') := by
  intro rest others after read
  have both := left _ _ _ (right _ _ _ read)
  simpa using both

theorem conveys_plain (mark : c ≠ '"') (backslash : c ≠ '\\') (printable : 0x20 ≤ c.toNat) :
    Conveys [c] [.point (.char c)] := by
  intro rest others after read
  have allowed : ¬ ((CodePoint.char c).number < 0x20) := Nat.not_lt.mpr printable
  simp [pieces, mark, backslash, allowed, read, bind, Except.bind, pure, Except.pure]

theorem conveys_letter {letter : Char} (short : shortEscape? (.char letter) = some c) :
    Conveys ['\\', letter] [.point (.char c)] := by
  intro rest others after read
  have other : letter ≠ 'u' := by
    rintro rfl
    cases short
  simp [pieces, other, short, read, bind, Except.bind, pure, Except.pure]

theorem conveys_escapedUnit (short : number < 0x10000) :
    Conveys (escapedUnit number) [.unit number] := by
  intro rest others after read
  have value := Text.hexValue?_hexNumeral 4 number short
  obtain ⟨a, b, c, d, same⟩ : ∃ a b c d, Text.hexNumeral 4 number = [a, b, c, d] :=
    ⟨_, _, _, _, rfl⟩
  rw [same] at value
  have unit : unitOf? [.char a, .char b, .char c, .char d] = some number := value
  simp only [escapedUnit, same, Text.ofChars_cons, Text.ofChars_nil, List.cons_append,
    List.nil_append, pieces, unit, read, bind, Except.bind]
  rfl

theorem joinPieces_unit (single : Text.isHighSurrogate number = false) (others : List Piece) :
    joinPieces (.unit number :: others) = .ofNumber number :: joinPieces others := by
  obtain _ | ⟨_ | _, _⟩ := others <;> simp [joinPieces, single]

theorem joinPieces_surrogates (wide : 0x10000 ≤ c.toNat) (others : List Piece) :
    joinPieces (.unit (Text.highSurrogate c) :: .unit (Text.lowSurrogate c) :: others) =
      .char c :: joinPieces others := by
  simp [joinPieces, Text.isHighSurrogate_highSurrogate, Text.isLowSurrogate_lowSurrogate,
    Text.pairedChar_surrogates wide]

theorem exists_conveys_escapedChar (dialect : Dialect) (c : Char) :
    ∃ found, Conveys (escapedChar dialect c) found ∧
      ∀ others, joinPieces (found ++ others) = .char c :: joinPieces others := by
  have letter {short : Char} (known : shortEscape? (.char short) = some c) :
      ∃ found, Conveys ['\\', short] found ∧
        ∀ others, joinPieces (found ++ others) = .char c :: joinPieces others :=
    ⟨_, conveys_letter known, fun _ => rfl⟩
  unfold escapedChar
  split_ifs with mark backslash plain backspace formFeed lineFeed carriageReturn tab short
  · exact letter (congrArg some mark.symm)
  · exact letter (congrArg some backslash.symm)
  · have printable : 0x20 ≤ c.toNat := by
      cases dialect <;> simp [isPlain] at plain <;> omega
    exact ⟨_, conveys_plain mark backslash printable, fun _ => rfl⟩
  · exact letter (congrArg some backspace.symm)
  · exact letter (congrArg some formFeed.symm)
  · exact letter (congrArg some lineFeed.symm)
  · exact letter (congrArg some carriageReturn.symm)
  · exact letter (congrArg some tab.symm)
  · -- A character is no surrogate, so its number makes no pair with an escape that follows.
    refine ⟨_, conveys_escapedUnit short, fun others => ?_⟩
    have same : CodePoint.ofNumber c.toNat = .char c := CodePoint.ofNumber_number (.char c)
    rw [List.singleton_append, joinPieces_unit (Text.isHighSurrogate_toNat c), same]
  · have wide : 0x10000 ≤ c.toNat := Nat.not_lt.mp short
    have bound := Text.toNat_lt c
    have high : Text.highSurrogate c < 0x10000 := by
      simp only [Text.highSurrogate]
      omega
    have low : Text.lowSurrogate c < 0x10000 := by
      simp only [Text.lowSurrogate]
      omega
    exact ⟨_, (conveys_escapedUnit high).append (conveys_escapedUnit low),
      joinPieces_surrogates wide⟩

theorem exists_pieces_flatMap (dialect : Dialect) (cs : List Char) (rest : Text) :
    ∃ found, pieces (Text.ofChars ((Text.ofChars cs).flatMap (escapedPoint dialect)) ++
        .char '"' :: rest) = .ok (found, rest) ∧
      joinPieces found = Text.ofChars cs := by
  induction cs with
  | nil => exact ⟨[], by simp [pieces], rfl⟩
  | cons c cs ih =>
      obtain ⟨others, read, joined⟩ := ih
      obtain ⟨found, conveys, front⟩ := exists_conveys_escapedChar dialect c
      refine ⟨found ++ others, ?_, by rw [front, joined]; rfl⟩
      have both := conveys _ _ _ read
      simpa [escapedPoint] using both

/-- A text without surrogates that is written between quotation marks is read back. -/
theorem readQuoted_flatMap (writer reader : Dialect) (cs : List Char) (rest : Text) :
    readQuoted reader (Text.ofChars ((Text.ofChars cs).flatMap (escapedPoint writer)) ++
        .char '"' :: rest) = .ok (Text.ofChars cs, rest) := by
  obtain ⟨found, read, joined⟩ := exists_pieces_flatMap writer cs rest
  have plain : (Text.ofChars cs).chars?.isNone = false := by
    rw [Text.chars?_ofChars]
    rfl
  simp only [readQuoted, read, joined, bind, Except.bind, plain, Bool.and_false]
  rfl

end CucumberExpression.Json
