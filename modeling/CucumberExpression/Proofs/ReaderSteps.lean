import Mathlib.Data.List.DropRight
import CucumberExpression.Proofs.Numerals
import CucumberExpression.Proofs.Quotations

namespace CucumberExpression.Json

/-! # Steps of the JSON readers

What a reader does with a value is known from what it does with its parts. Gaps in front of a value
make no difference to it. -/

variable {reader writer : Dialect} {fuel room : Nat} {source left right rest : Text}
  {gap : List Char}

/-! ## Gaps -/

theorem skipGap_append (blank : ∀ c ∈ gap, isGap (.char c) = true) (rest : Text) :
    skipGap (Text.ofChars gap ++ rest) = skipGap rest := by
  apply List.dropWhile_append_of_pos
  intro point member
  obtain ⟨c, inside, rfl⟩ := List.mem_map.mp member
  exact blank c inside

theorem skipGap_skipGap (text : Text) : skipGap (skipGap text) = skipGap text :=
  List.dropWhile_idempotent ..

theorem readValue_congr (same : skipGap left = skipGap right) :
    readValue reader fuel room left = readValue reader fuel room right := by
  cases fuel with
  | zero => rfl
  | succ fuel => simp only [readValue, same]

theorem readItems_congr (same : skipGap left = skipGap right) :
    readItems reader fuel room left = readItems reader fuel room right := by
  cases fuel with
  | zero => rfl
  | succ fuel => simp only [readItems, readValue_congr same]

theorem readMembers_congr (same : skipGap left = skipGap right) :
    readMembers reader fuel room left = readMembers reader fuel room right := by
  cases fuel with
  | zero => rfl
  | succ fuel => simp only [readMembers, same]

/-! ## Lists and records -/

/-- A value that is no text, list or record has a name or is a number. -/
theorem readValue_scalar {point : CodePoint} (solid : isGap point = false)
    (plain : ∀ mark ∈ ['"', '[', '\x7b'], point ≠ .char mark) :
    readValue reader (fuel + 1) room (point :: rest) =
      match named? reader (point :: rest) with
      | some found => .ok found
      | none => readNumber reader (point :: rest) := by
  have here : skipGap (point :: rest) = point :: rest := by
    simp only [skipGap, List.dropWhile_cons, solid, Bool.false_eq_true, if_false]
  simp only [readValue, here]
  split
  · rename_i front
    exact absurd (List.cons.inj front).1 (plain _ (by simp))
  · rename_i front
    exact absurd (List.cons.inj front).1 (plain _ (by simp))
  · rename_i front
    exact absurd (List.cons.inj front).1 (plain _ (by simp))
  · rfl

/-- No value begins with the end of a list. -/
theorem readValue_closed (room : Nat) (rest : Text) :
    readValue reader fuel room (.char ']' :: rest) = .error .malformed := by
  cases fuel with
  | zero => rfl
  | succ fuel =>
      have unnamed : named? reader (.char ']' :: rest) = none := by
        cases reader <;> rfl
      rw [readValue_scalar rfl (by simp), unnamed]
      rfl

theorem readValue_list {items : List Json}
    (read : readItems reader fuel room source = .ok (items, rest)) :
    readValue reader (fuel + 1) (room + 1) (.char '[' :: source) = .ok (.list items, rest) := by
  have opened : skipGap (.char '[' :: source) = .char '[' :: source := rfl
  have again : readItems reader fuel room (skipGap source) = .ok (items, rest) := by
    rw [readItems_congr (skipGap_skipGap source), read]
  simp only [readValue, opened, Nat.add_sub_cancel, Nat.add_one_ne_zero, if_false]
  split
  · -- An empty list is excluded, as its end would have been read as an item.
    rename_i after closed
    rw [closed] at again
    cases fuel with
    | zero => cases again
    | succ fuel =>
        simp only [readItems, readValue_closed, bind, Except.bind] at again
        cases again
  · rw [again]
    rfl

theorem readItems_last {item : Json} {after : Text}
    (read : readValue reader fuel room source = .ok (item, rest))
    (closed : skipGap rest = .char ']' :: after) :
    readItems reader (fuel + 1) room source = .ok ([item], after) := by
  simp only [readItems, read, bind, Except.bind, closed]
  rfl

theorem readItems_cons {item : Json} {items : List Json} {next after : Text}
    (read : readValue reader fuel room source = .ok (item, rest))
    (comma : skipGap rest = .char ',' :: next)
    (others : readItems reader fuel room next = .ok (items, after)) :
    readItems reader (fuel + 1) room source = .ok (item :: items, after) := by
  simp only [readItems, read, bind, Except.bind, comma, others]
  rfl

theorem setMember_of_notMem {name : Text} {value : Json} {members : List (Text × Json)}
    (fresh : name ∉ members.map Prod.fst) :
    setMember name value members = members ++ [(name, value)] := by
  induction members with
  | nil => rfl
  | cons member others ih =>
      rw [List.map_cons, List.mem_cons, not_or] at fresh
      simp only [setMember, if_neg (Ne.symm fresh.1), ih fresh.2, List.cons_append]

theorem foldl_setMember (known : List (Text × Json)) {members : List (Text × Json)}
    (distinct : ((known ++ members).map Prod.fst).Nodup) :
    members.foldl (fun known member => setMember member.1 member.2 known) known =
      known ++ members := by
  induction members generalizing known with
  | nil => simp
  | cons member others ih =>
      have fresh : member.1 ∉ known.map Prod.fst := by
        rw [List.map_append, List.nodup_append] at distinct
        intro old
        exact distinct.2.2 _ old _ List.mem_cons_self rfl
      rw [List.append_cons] at distinct ⊢
      rw [List.foldl_cons, setMember_of_notMem fresh, ih _ distinct]

theorem distinctMembers_eq_self {members : List (Text × Json)}
    (distinct : (members.map Prod.fst).Nodup) : distinctMembers members = members :=
  foldl_setMember [] distinct

theorem readValue_record {members : List (Text × Json)}
    (read : readMembers reader fuel room source = .ok (members, rest))
    (distinct : (members.map Prod.fst).Nodup) :
    readValue reader (fuel + 1) (room + 1) (.char '\x7b' :: source) =
      .ok (.record members, rest) := by
  have opened : skipGap (.char '\x7b' :: source) = .char '\x7b' :: source := rfl
  have again : readMembers reader fuel room (skipGap source) = .ok (members, rest) := by
    rw [readMembers_congr (skipGap_skipGap source), read]
  simp only [readValue, opened, Nat.add_sub_cancel, Nat.add_one_ne_zero, if_false]
  split
  · rename_i after closed
    rw [closed] at again
    cases fuel <;> cases again
  · simp only [again, bind, Except.bind, distinctMembers_eq_self distinct]
    rfl

/-- Whether a text begins with a member of a record. -/
def ReadsMember (reader : Dialect) (fuel room : Nat) (source : Text) (member : Text × Json)
    (rest : Text) : Prop :=
  ∃ quoted next valued,
    skipGap source = .char '"' :: quoted ∧
    readQuoted reader quoted = .ok (member.1, next) ∧
    skipGap next = .char ':' :: valued ∧
    readValue reader fuel room valued = .ok (member.2, rest)

theorem readMembers_last {member : Text × Json} {after : Text}
    (read : ReadsMember reader fuel room source member rest)
    (closed : skipGap rest = .char '\x7d' :: after) :
    readMembers reader (fuel + 1) room source = .ok ([member], after) := by
  obtain ⟨quoted, next, valued, mark, name, colon, value⟩ := read
  simp only [readMembers, mark, name, bind, Except.bind, colon, value, closed]
  rfl

theorem readMembers_cons {member : Text × Json} {members : List (Text × Json)}
    {following after : Text}
    (read : ReadsMember reader fuel room source member rest)
    (comma : skipGap rest = .char ',' :: following)
    (others : readMembers reader fuel room following = .ok (members, after)) :
    readMembers reader (fuel + 1) room source = .ok (member :: members, after) := by
  obtain ⟨quoted, next, valued, mark, name, colon, value⟩ := read
  simp only [readMembers, mark, name, bind, Except.bind, colon, value, comma, others]
  rfl

/-! ## Scalars -/

theorem ofChars_quotedText (text rest : Text) :
    Text.ofChars (quotedText writer text) ++ rest =
      .char '"' :: (Text.ofChars (text.flatMap (escapedPoint writer)) ++ .char '"' :: rest) := by
  simp [quotedText]

theorem skipGap_mark (rest : Text) : skipGap (.char '"' :: rest) = .char '"' :: rest :=
  rfl

theorem readValue_quotedText (cs : List Char) (rest : Text) :
    readValue reader (fuel + 1) room
        (Text.ofChars (quotedText writer (Text.ofChars cs)) ++ rest) =
      .ok (.text (Text.ofChars cs), rest) := by
  rw [ofChars_quotedText]
  simp only [readValue, skipGap_mark, readQuoted_flatMap, bind, Except.bind]
  rfl

theorem readValue_writeInteger {value : Int} (fits : inMachineRange value = true)
    (ends : NumberEnds rest) :
    readValue reader (fuel + 1) room (Text.ofChars (writeInteger value) ++ rest) =
      .ok (.integer value, rest) := by
  have read := readNumber_writeInteger reader fits ends
  have unnamed := named?_writeInteger reader value rest
  obtain ⟨c, others, digit, same | same⟩ := writeInteger_cases value
  · have other : ∀ mark : Char, mark.isDigit = false → CodePoint.char c ≠ .char mark := by
      rintro mark letter ⟨⟩
      rw [digit] at letter
      cases letter
    rw [same] at read unnamed ⊢
    rw [Text.ofChars_cons, List.cons_append] at read unnamed ⊢
    rw [readValue_scalar, unnamed, read]
    · simp only [isGap, Bool.or_eq_false_iff, beq_eq_false_iff_ne]
      exact ⟨⟨⟨other _ rfl, other _ rfl⟩, other _ rfl⟩, other _ rfl⟩
    · intro mark member
      apply other
      simp only [List.mem_cons, List.not_mem_nil, or_false] at member
      rcases member with rfl | rfl | rfl <;> rfl
  · rw [same] at read unnamed ⊢
    rw [Text.ofChars_cons, List.cons_append] at read unnamed ⊢
    rw [readValue_scalar rfl (by simp), unnamed, read]

/-- What the strict dialect has names for, either reader knows by them. -/
theorem readValue_named (name : String) (value : Json)
    (known : (name, value) ∈ Dialect.strict.named) (rest : Text) :
    readValue reader (fuel + 1) room (Text.ofString name ++ rest) = .ok (value, rest) := by
  simp only [Dialect.named, List.mem_cons, Prod.mk.injEq, List.not_mem_nil, or_false] at known
  rcases known with ⟨rfl, rfl⟩ | ⟨rfl, rfl⟩ | ⟨rfl, rfl⟩ <;> cases reader <;> rfl

end CucumberExpression.Json
