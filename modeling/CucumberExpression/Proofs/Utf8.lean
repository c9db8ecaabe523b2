import Mathlib.Tactic.SplitIfs
import CucumberExpression.Json.Reader

namespace CucumberExpression.Text

/-! # Text from its bytes in UTF-8

The first byte of a character in UTF-8 tells how many more there are, and the bits in all of them
make up its number. -/

variable {surrogatesPass : Bool} {a b c d : UInt8} {rest : List UInt8} {point : CodePoint}

theorem codePoint?_toNat (surrogatesPass : Bool) (c : Char) :
    codePoint? surrogatesPass c.toNat = some (.char c) := by
  have outside : (isHighSurrogate c.toNat || isLowSurrogate c.toNat) = false := by
    rw [isHighSurrogate_toNat, isLowSurrogate_toNat, Bool.or_false]
  have same : CodePoint.ofNumber c.toNat = .char c := CodePoint.ofNumber_number (.char c)
  rw [codePoint?, outside, if_neg Bool.false_ne_true, if_pos (toNat_lt c), same]

theorem not_lt_of_not_lt {lower upper : UInt8} (ordered : lower.toNat ≤ upper.toNat)
    (above : ¬ a < upper) : ¬ a < lower := by
  rw [UInt8.lt_iff_toNat_lt] at above ⊢
  omega

theorem decodeUtf8_one (ascii : a < 0x80) :
    decodeUtf8 surrogatesPass (a :: rest) =
      (decodeUtf8 surrogatesPass rest).map (.char (Char.ofNat a.toNat) :: ·) := by
  rw [decodeUtf8.eq_def]
  simp only [ascii, if_true]

theorem decodeUtf8_two (lead : ¬ a < 0xc2 ∧ a < 0xe0) (tail : isTail b = true)
    (found : codePoint? surrogatesPass ((a.toNat - 0xc0) * 0x40 + tailBits b) = some point) :
    decodeUtf8 surrogatesPass (a :: b :: rest) =
      (decodeUtf8 surrogatesPass rest).map (point :: ·) := by
  have wide : ¬ a < 0x80 := not_lt_of_not_lt (by decide) lead.1
  rw [decodeUtf8.eq_def]
  simp only [wide, lead, tail, found, if_false, if_true, Bool.not_true, Bool.false_or, decide_false,
    Bool.false_eq_true, bind, Option.bind]
  cases decodeUtf8 surrogatesPass rest <;> rfl

theorem decodeUtf8_three (lead : ¬ a < 0xe0 ∧ a < 0xf0) (tails : isTail b = true ∧ isTail c = true)
    {number : Nat} (same : ((a.toNat - 0xe0) * 0x40 + tailBits b) * 0x40 + tailBits c = number)
    (wide : ¬ number < 0x800) (found : codePoint? surrogatesPass number = some point) :
    decodeUtf8 surrogatesPass (a :: b :: c :: rest) =
      (decodeUtf8 surrogatesPass rest).map (point :: ·) := by
  have above : ¬ a < 0x80 ∧ ¬ a < 0xc2 :=
    ⟨not_lt_of_not_lt (by decide) lead.1, not_lt_of_not_lt (by decide) lead.1⟩
  rw [decodeUtf8.eq_def]
  simp only [above, lead, tails, same, wide, found, if_false, if_true, Bool.not_true,
    Bool.false_or, decide_false, Bool.false_eq_true, bind, Option.bind]
  cases decodeUtf8 surrogatesPass rest <;> rfl

theorem decodeUtf8_four (lead : ¬ a < 0xf0)
    (tails : isTail b = true ∧ isTail c = true ∧ isTail d = true) {number : Nat}
    (same : (((a.toNat - 0xf0) * 0x40 + tailBits b) * 0x40 + tailBits c) * 0x40 + tailBits d =
      number)
    (wide : ¬ number < 0x10000) (found : codePoint? surrogatesPass number = some point) :
    decodeUtf8 surrogatesPass (a :: b :: c :: d :: rest) =
      (decodeUtf8 surrogatesPass rest).map (point :: ·) := by
  have above : ¬ a < 0x80 ∧ ¬ a < 0xc2 ∧ ¬ a < 0xe0 :=
    ⟨not_lt_of_not_lt (by decide) lead, not_lt_of_not_lt (by decide) lead,
      not_lt_of_not_lt (by decide) lead⟩
  rw [decodeUtf8.eq_def]
  simp only [above, lead, tails, same, wide, found, if_false, Bool.not_true, Bool.false_or,
    decide_false, Bool.false_eq_true, bind, Option.bind]
  cases decodeUtf8 surrogatesPass rest <;> rfl

theorem toNat_ofNat {number : Nat} (fits : number < 0x100) : (UInt8.ofNat number).toNat = number :=
  UInt8.toNat_ofNat_of_lt' fits

theorem not_lt_ofNat {number : Nat} {bound : UInt8} (fits : number < 0x100)
    (above : bound.toNat ≤ number) : ¬ UInt8.ofNat number < bound := by
  rw [UInt8.lt_iff_toNat_lt, toNat_ofNat fits]
  omega

theorem lt_ofNat {number : Nat} {bound : UInt8} (below : number < bound.toNat) :
    UInt8.ofNat number < bound := by
  have limit := bound.toNat_lt
  rw [UInt8.lt_iff_toNat_lt, toNat_ofNat (by omega)]
  exact below

theorem isTail_ofNat (bits : Nat) : isTail (UInt8.ofNat (bits % 64 + 128)) = true := by
  have value := toNat_ofNat (show bits % 64 + 128 < 0x100 by omega)
  simp only [isTail, Bool.and_eq_true, decide_eq_true_eq, UInt8.le_iff_toNat_le,
    UInt8.lt_iff_toNat_lt, value]
  exact ⟨Nat.le_add_left .., Nat.add_lt_add_right (Nat.mod_lt _ (by decide)) _⟩

theorem tailBits_ofNat (bits : Nat) : tailBits (UInt8.ofNat (bits % 64 + 128)) = bits % 64 := by
  have value := toNat_ofNat (show bits % 64 + 128 < 0x100 by omega)
  generalize UInt8.ofNat (bits % 64 + 128) = byte at value ⊢
  unfold tailBits
  omega

theorem decodeUtf8_utf8EncodeChar (surrogatesPass : Bool) (c : Char) (rest : List UInt8) :
    decodeUtf8 surrogatesPass (String.utf8EncodeChar c ++ rest) =
      (decodeUtf8 surrogatesPass rest).map (.char c :: ·) := by
  have point := codePoint?_toNat surrogatesPass c
  have bound := toNat_lt c
  unfold String.utf8EncodeChar
  have number : c.val.toNat = c.toNat := rfl
  simp only [number]
  generalize same : c.toNat = n at point bound ⊢
  split_ifs with one two three
  · rw [List.singleton_append, decodeUtf8_one (lt_ofNat (Nat.lt_succ_of_le one)),
      toNat_ofNat (by omega), ← same, Char.ofNat_toNat]
  · apply decodeUtf8_two
    · exact ⟨not_lt_ofNat (by omega) (show 194 ≤ _ by omega), lt_ofNat (show _ < 224 by omega)⟩
    · exact isTail_ofNat _
    · rw [tailBits_ofNat, toNat_ofNat (by omega), ← point]
      congr 1
      omega
  · apply decodeUtf8_three _ _ _ _ point
    · exact ⟨not_lt_ofNat (by omega) (show 224 ≤ _ by omega), lt_ofNat (show _ < 240 by omega)⟩
    · exact ⟨isTail_ofNat _, isTail_ofNat _⟩
    · rw [tailBits_ofNat, tailBits_ofNat, toNat_ofNat (by omega)]
      omega
    · omega
  · apply decodeUtf8_four _ _ _ _ point
    · exact not_lt_ofNat (by omega) (show 240 ≤ _ by omega)
    · exact ⟨isTail_ofNat _, isTail_ofNat _, isTail_ofNat _⟩
    · rw [tailBits_ofNat, tailBits_ofNat, tailBits_ofNat, toNat_ofNat (by omega)]
      omega
    · omega

theorem decodeUtf8_flatMap (surrogatesPass : Bool) (cs : List Char) :
    decodeUtf8 surrogatesPass (cs.flatMap String.utf8EncodeChar) = some (ofChars cs) := by
  induction cs with
  | nil => rfl
  | cons c cs ih =>
      rw [List.flatMap_cons, decodeUtf8_utf8EncodeChar, ih]
      rfl

theorem toList_toUTF8 (cs : List Char) :
    (String.ofList cs).toUTF8.data.toList = cs.flatMap String.utf8EncodeChar := by
  rw [String.toUTF8_eq_toByteArray, String.toByteArray_ofList, List.utf8Encode,
    List.toList_data_toByteArray]

end CucumberExpression.Text

namespace CucumberExpression.Json

open Text

variable {dialect : Dialect} {c : Char}

/-- A text that begins with a brace and another character of ASCII is in UTF-8. -/
theorem detectEncoding_of_brace {b : UInt8} (some : b ≠ 0) (rest : List UInt8) :
    detectEncoding (0x7b :: b :: rest) = (.utf8, 0x7b :: b :: rest) := by
  obtain _ | ⟨c, _ | ⟨d, rest⟩⟩ := rest
  · exact if_neg some
  · rfl
  · exact if_neg some

theorem utf8EncodeChar_of_ascii (ascii : c.toNat < 0x80) :
    String.utf8EncodeChar c = [UInt8.ofNat c.toNat] :=
  if_pos (Nat.le_of_lt_succ ascii)

theorem ofNat_ne_zero {number : Nat} (some : 0 < number) (fits : number < 0x100) :
    UInt8.ofNat number ≠ 0 := by
  intro zero
  have value := toNat_ofNat fits
  rw [zero, UInt8.toNat_zero] at value
  omega

/-- The bytes of such a text mean what the text means. -/
theorem ofBytes_toUTF8 (some : 0 < c.toNat) (ascii : c.toNat < 0x80) (rest : List Char) :
    ofBytes dialect (String.ofList ('\x7b' :: c :: rest)).toUTF8.data.toList =
      ofText dialect (ofChars ('\x7b' :: c :: rest)) := by
  have bytes : ('\x7b' :: c :: rest).flatMap String.utf8EncodeChar =
      0x7b :: UInt8.ofNat c.toNat :: rest.flatMap String.utf8EncodeChar := by
    rw [List.flatMap_cons, List.flatMap_cons, utf8EncodeChar_of_ascii ascii]
    rfl
  have detected := detectEncoding_of_brace (ofNat_ne_zero some (by omega))
    (rest.flatMap String.utf8EncodeChar)
  have decoded (surrogatesPass : Bool) := decodeUtf8_flatMap surrogatesPass ('\x7b' :: c :: rest)
  rw [bytes] at decoded
  rw [toList_toUTF8, bytes]
  cases dialect with
  | strict => simp only [ofBytes, Encoding.decode, decoded]
  | lenient => simp only [ofBytes, detected, Encoding.decode, decoded]

end CucumberExpression.Json
