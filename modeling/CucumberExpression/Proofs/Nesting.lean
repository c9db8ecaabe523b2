import CucumberExpression.Proofs.Items
import Mathlib.Computability.RegularExpressions

namespace CucumberExpression.Token

/-! # Nesting

The kinds of tokens that can be read form a regular language. Every other sequence of tokens has an
opening token that is not closed, behind tokens that are in order. -/

open Computability

def anyBut (excluded : List Kind) : RegularExpression Kind :=
  ((Kind.all.filter (· ∉ excluded)).map .char).sum

def braced (excluded : List Kind) : RegularExpression Kind :=
  .char .parameterOpen * (.star (anyBut excluded) * .char .parameterClose)

def contentPart : RegularExpression Kind :=
  anyBut [.parameterOpen, .optionalClose] + braced [.parameterClose, .optionalClose]

def optionalContent : RegularExpression Kind :=
  .star contentPart

def nestingPart : RegularExpression Kind :=
  anyBut [.optionalOpen, .parameterOpen] + braced [.parameterClose] +
    .char .optionalOpen * (optionalContent * .char .optionalClose)

/-- What may stand between the line markers. -/
def nesting : RegularExpression Kind :=
  .star nestingPart

def Nested (pattern : RegularExpression Kind) (tokens : List Token) : Prop :=
  tokens.map kind ∈ pattern.matches'

instance (pattern : RegularExpression Kind) (tokens : List Token) :
    Decidable (Nested pattern tokens) :=
  decidable_of_iff _ (pattern.rmatch_iff_matches' (tokens.map kind))

namespace Nested

variable {pattern other : RegularExpression Kind} {tokens front back : List Token}
  {excluded : List Kind}

theorem char_iff {kind : Kind} :
    Nested (.char kind) tokens ↔ ∃ token, tokens = [token] ∧ token.kind = kind := by
  rw [Nested, RegularExpression.matches'_char]
  constructor
  · intro same
    obtain ⟨token, rfl, alike⟩ := List.map_eq_singleton_iff.mp same
    exact ⟨token, rfl, alike⟩
  · intro single
    obtain ⟨token, rfl, rfl⟩ := single
    rfl

theorem add_iff :
    Nested (pattern + other) tokens ↔ Nested pattern tokens ∨ Nested other tokens :=
  Iff.rfl

theorem mul_iff :
    Nested (pattern * other) tokens ↔
      ∃ front back, tokens = front ++ back ∧ Nested pattern front ∧ Nested other back := by
  rw [Nested, RegularExpression.matches'_mul, Language.mem_mul]
  constructor
  · intro product
    obtain ⟨left, leftIn, right, rightIn, same⟩ := product
    obtain ⟨front, back, rfl, rfl, rfl⟩ := List.map_eq_append_iff.mp same.symm
    exact ⟨front, back, rfl, leftIn, rightIn⟩
  · intro split
    obtain ⟨front, back, rfl, frontIn, backIn⟩ := split
    exact ⟨_, frontIn, _, backIn, List.map_append.symm⟩

theorem star_nil : Nested (.star pattern) [] :=
  Language.nil_mem_kstar _

theorem star_append (first : Nested pattern front) (others : Nested (.star pattern) back) :
    Nested (.star pattern) (front ++ back) := by
  obtain ⟨words, same, each⟩ := Language.mem_kstar.mp others
  apply Language.mem_kstar.mpr
  refine ⟨front.map kind :: words, ?_, ?_⟩
  · rw [List.map_append, same, List.flatten_cons]
  · exact List.forall_mem_cons.mpr ⟨first, each⟩

/-- A repetition ends, or goes on after one more time. -/
theorem star_induction {motive : List Token → Prop} (ends : motive [])
    (again : ∀ front back, Nested pattern front → motive back → motive (front ++ back))
    (nested : Nested (.star pattern) tokens) : motive tokens := by
  obtain ⟨words, same, each⟩ := Language.mem_kstar.mp nested
  induction words generalizing tokens with
  | nil =>
      rw [List.map_eq_nil_iff.mp same]
      exact ends
  | cons word rest ih =>
      obtain ⟨first, others⟩ := List.forall_mem_cons.mp each
      obtain ⟨front, back, rfl, rfl, split⟩ := List.map_eq_append_iff.mp same
      exact again front back first
        (ih (Language.mem_kstar.mpr ⟨rest, split, others⟩) split others)

theorem star_single (nested : Nested pattern tokens) : Nested (.star pattern) tokens := by
  have once := star_append nested star_nil
  rw [List.append_nil] at once
  exact once

theorem star_trans (first : Nested (.star pattern) front) (others : Nested (.star pattern) back) :
    Nested (.star pattern) (front ++ back) := by
  apply star_induction (motive := fun front => Nested (.star pattern) (front ++ back)) others ?_
    first
  intro word more one rest
  rw [List.append_assoc]
  exact star_append one rest

theorem of_kinds (nested : Nested pattern front) (same : back.map kind = front.map kind) :
    Nested pattern back := by
  rw [Nested, same]
  exact nested

theorem anyBut_iff :
    Nested (anyBut excluded) tokens ↔ ∃ token, tokens = [token] ∧ token.kind ∉ excluded := by
  have sum (kinds : List Kind) : Nested (kinds.map RegularExpression.char).sum tokens ↔
      ∃ token, tokens = [token] ∧ token.kind ∈ kinds := by
    induction kinds with
    | nil => simp [Nested, RegularExpression.matches'_zero]
    | cons kind rest ih =>
        rw [List.map_cons, List.sum_cons, add_iff, char_iff, ih]
        constructor
        · rintro (⟨token, rfl, rfl⟩ | ⟨token, rfl, member⟩)
          · exact ⟨token, rfl, by simp⟩
          · exact ⟨token, rfl, by simp [member]⟩
        · intro single
          obtain ⟨token, rfl, member⟩ := single
          rcases List.mem_cons.mp member with same | member
          · exact .inl ⟨token, rfl, same⟩
          · exact .inr ⟨token, rfl, member⟩
  rw [anyBut, sum]
  simp [Kind.mem_all]

theorem star_anyBut_iff :
    Nested (.star (anyBut excluded)) tokens ↔ ∀ token ∈ tokens, token.kind ∉ excluded := by
  constructor
  · apply star_induction (motive := fun tokens => ∀ token ∈ tokens, token.kind ∉ excluded) ?_ ?_
    · simp
    · intro front back first others
      obtain ⟨token, rfl, outside⟩ := anyBut_iff.mp first
      exact List.forall_mem_cons.mpr ⟨outside, others⟩
  · intro outside
    induction tokens with
    | nil => exact star_nil
    | cons token rest ih =>
        obtain ⟨first, others⟩ := List.forall_mem_cons.mp outside
        have one : Nested (anyBut excluded) [token] := anyBut_iff.mpr ⟨token, rfl, first⟩
        exact star_append one (ih others)

theorem bracketed_iff {opening closing : Kind} :
    Nested (.char opening * (pattern * .char closing)) tokens ↔
      ∃ opener content closer, tokens = opener :: (content ++ [closer]) ∧
        opener.kind = opening ∧ Nested pattern content ∧ closer.kind = closing := by
  simp only [mul_iff, char_iff]
  constructor
  · intro split
    obtain ⟨_, _, rfl, ⟨opener, rfl, opens⟩, content, _, rfl, inside, closer, rfl, closes⟩ := split
    exact ⟨opener, content, closer, rfl, opens, inside, closes⟩
  · intro brackets
    obtain ⟨opener, content, closer, rfl, opens, inside, closes⟩ := brackets
    exact ⟨[opener], _, rfl, ⟨opener, rfl, opens⟩, content, [closer], rfl, inside, closer, rfl,
      closes⟩

theorem braced_iff : Nested (braced excluded) tokens ↔
    ∃ opener content closer, tokens = opener :: (content ++ [closer]) ∧
      opener.kind = .parameterOpen ∧ (∀ token ∈ content, token.kind ∉ excluded) ∧
      closer.kind = .parameterClose := by
  simp only [braced, bracketed_iff, star_anyBut_iff]

variable {token opener closer : Token} {content : List Token}

theorem exists_brackets (nested : Nested (braced excluded) tokens)
    (closing : .parameterClose ∈ excluded) :
    ∃ opener content closer, tokens = opener :: (content ++ [closer]) ∧
      Brackets .parameterOpen .parameterClose opener content closer ∧
      ∀ token ∈ content, token.kind ∉ excluded := by
  obtain ⟨opener, content, closer, rfl, opens, inside, closes⟩ := braced_iff.mp nested
  refine ⟨opener, content, closer, rfl, ⟨opens, closes, ?_⟩, inside⟩
  intro token member same
  rw [← same] at closing
  exact inside token member closing

theorem content_part_cases (nested : Nested contentPart tokens) :
    (∃ token, tokens = [token] ∧ token.kind ≠ .parameterOpen ∧ token.kind ≠ .optionalClose) ∨
      ∃ opener content closer, tokens = opener :: (content ++ [closer]) ∧
        Brackets .parameterOpen .parameterClose opener content closer ∧
        ∀ token ∈ content, token.kind ≠ .optionalClose := by
  rcases add_iff.mp nested with single | inBraces
  · obtain ⟨token, rfl, outside⟩ := anyBut_iff.mp single
    exact .inl ⟨token, rfl, by simpa using outside⟩
  · obtain ⟨opener, content, closer, rfl, brackets, inside⟩ := inBraces.exists_brackets (by simp)
    refine .inr ⟨opener, content, closer, rfl, brackets, ?_⟩
    exact fun token member closing => inside token member (by simp [closing])

/-- An optional is closed by the first closing token. -/
theorem content_inside (nested : Nested optionalContent tokens) :
    ∀ token ∈ tokens, token.kind ≠ .optionalClose := by
  apply star_induction (motive := fun tokens => ∀ token ∈ tokens, token.kind ≠ .optionalClose)
    ?_ ?_ nested
  · simp
  · intro front back first others
    rcases content_part_cases first with
      ⟨token, rfl, -, plain⟩ | ⟨opener, content, closer, rfl, brackets, inside⟩
    · exact List.forall_mem_cons.mpr ⟨plain, others⟩
    · intro token member
      simp only [List.cons_append, List.append_assoc, List.nil_append, List.mem_cons,
        List.mem_append] at member
      rcases member with rfl | member | rfl | member
      · simp [brackets.opens]
      · exact inside token member
      · simp [brackets.closes]
      · exact others token member

theorem nesting_part_cases (nested : Nested nestingPart tokens) :
    (∃ token, tokens = [token] ∧ token.kind ≠ .parameterOpen ∧ token.kind ≠ .optionalOpen) ∨
      (∃ opener content closer, tokens = opener :: (content ++ [closer]) ∧
        Brackets .parameterOpen .parameterClose opener content closer) ∨
      ∃ opener content closer, tokens = opener :: (content ++ [closer]) ∧
        Brackets .optionalOpen .optionalClose opener content closer ∧
        Nested optionalContent content := by
  rcases add_iff.mp nested with plainOrBraced | inBrackets
  · rcases add_iff.mp plainOrBraced with single | inBraces
    · obtain ⟨token, rfl, outside⟩ := anyBut_iff.mp single
      have different : token.kind ≠ .optionalOpen ∧ token.kind ≠ .parameterOpen := by
        simpa using outside
      exact .inl ⟨token, rfl, different.2, different.1⟩
    · obtain ⟨opener, content, closer, rfl, brackets, -⟩ := inBraces.exists_brackets (by simp)
      exact .inr (.inl ⟨opener, content, closer, rfl, brackets⟩)
  · obtain ⟨opener, content, closer, rfl, opens, within, closes⟩ := bracketed_iff.mp inBrackets
    exact .inr (.inr ⟨opener, content, closer, rfl, ⟨opens, closes, within.content_inside⟩,
      within⟩)

theorem content_token (plain : token.kind ≠ .parameterOpen)
    (inside : token.kind ≠ .optionalClose) : Nested contentPart [token] :=
  add_iff.mpr (.inl (anyBut_iff.mpr ⟨token, rfl, by simpa using ⟨plain, inside⟩⟩))

theorem content_parameter
    (brackets : Brackets .parameterOpen .parameterClose opener content closer)
    (inside : ∀ token ∈ content, token.kind ≠ .optionalClose) :
    Nested contentPart (opener :: (content ++ [closer])) := by
  apply add_iff.mpr (.inr (braced_iff.mpr
    ⟨opener, content, closer, rfl, brackets.opens, fun token member => ?_, brackets.closes⟩))
  simpa using ⟨brackets.inside token member, inside token member⟩

theorem nesting_token (parameter : token.kind ≠ .parameterOpen)
    (optional : token.kind ≠ .optionalOpen) : Nested nestingPart [token] :=
  add_iff.mpr (.inl (add_iff.mpr (.inl
    (anyBut_iff.mpr ⟨token, rfl, by simpa using ⟨optional, parameter⟩⟩))))

theorem nesting_parameter
    (brackets : Brackets .parameterOpen .parameterClose opener content closer) :
    Nested nestingPart (opener :: (content ++ [closer])) := by
  apply add_iff.mpr (.inl (add_iff.mpr (.inr (braced_iff.mpr
    ⟨opener, content, closer, rfl, brackets.opens, fun token member => ?_, brackets.closes⟩))))
  simpa using brackets.inside token member

theorem nesting_optional
    (brackets : Brackets .optionalOpen .optionalClose opener content closer)
    (within : Nested optionalContent content) :
    Nested nestingPart (opener :: (content ++ [closer])) :=
  add_iff.mpr (.inr (bracketed_iff.mpr
    ⟨opener, content, closer, rfl, brackets.opens, within, brackets.closes⟩))

end Nested

def Kind.closing? : Kind → Option Kind
  | .optionalOpen => some .optionalClose
  | .parameterOpen => some .parameterClose
  | _ => none

/-- An opening token that is not closed, between what stands before and after it: either nothing
closes it, or it opens a parameter in an optional and the optional is closed first. -/
inductive Unclosed : List Token → Token → List Token → Prop
  | outer {before after : List Token} {opener : Token} {closing : Kind}
      (nested : Nested nesting before) (opens : opener.kind.closing? = some closing)
      (missing : ∀ token ∈ after, token.kind ≠ closing) : Unclosed before opener after
  | inner {before content inside after : List Token} {outer opener closer : Token}
      (nested : Nested nesting before) (outside : outer.kind = .optionalOpen)
      (within : Nested optionalContent content) (opens : opener.kind = .parameterOpen)
      (missing : ∀ token ∈ inside, token.kind ∉ [.parameterClose, .optionalClose])
      (closes : closer.kind = .optionalClose) :
      Unclosed (before ++ outer :: content) opener (inside ++ closer :: after)

theorem Unclosed.append {front before after : List Token} {opener : Token}
    (first : Nested nesting front) (unclosed : Unclosed before opener after) :
    Unclosed (front ++ before) opener after := by
  cases unclosed with
  | outer nested opens missing => exact .outer (first.star_trans nested) opens missing
  | inner nested outside within opens missing closes =>
      rw [← List.append_assoc]
      exact .inner (first.star_trans nested) outside within opens missing closes

/-- Tokens in an optional are in order, or up to a brace that is not closed. -/
theorem content_cases (tokens : List Token)
    (inside : ∀ token ∈ tokens, token.kind ≠ .optionalClose) :
    Nested optionalContent tokens ∨
      ∃ before opener after, tokens = before ++ opener :: after ∧ Nested optionalContent before ∧
        opener.kind = .parameterOpen ∧ ∀ token ∈ after, token.kind ≠ .parameterClose := by
  have extend {front back : List Token} (first : Nested contentPart front)
      (rest : Nested optionalContent back ∨
        ∃ before opener after, back = before ++ opener :: after ∧ Nested optionalContent before ∧
          opener.kind = .parameterOpen ∧ ∀ token ∈ after, token.kind ≠ .parameterClose) :
      Nested optionalContent (front ++ back) ∨
        ∃ before opener after, front ++ back = before ++ opener :: after ∧
          Nested optionalContent before ∧ opener.kind = .parameterOpen ∧
          ∀ token ∈ after, token.kind ≠ .parameterClose := by
    rcases rest with nested | ⟨before, opener, after, rfl, nested, failure⟩
    · exact .inl (first.star_append nested)
    · exact .inr ⟨front ++ before, opener, after, (List.append_assoc ..).symm,
        first.star_append nested, failure⟩
  induction tokens using Node.ofOptionalContent.induct with
  | case1 => exact .inl Nested.star_nil
  | case2 opener rest opens missing =>
      exact .inr ⟨[], opener, rest, rfl, Nested.star_nil, opens, cut_eq_none_iff.mp missing⟩
  | case3 opener rest opens cut found ih =>
      obtain ⟨rfl, brackets⟩ := Brackets.of_cut opens found
      have first : Nested contentPart (opener :: (cut.before ++ [cut.closer])) :=
        Nested.content_parameter brackets fun token member => inside token (by simp [member])
      simpa using extend first (ih fun token member => inside token (by simp [member]))
  | case4 token rest plain ih =>
      exact extend (Nested.content_token plain (inside token (by simp)))
        (ih fun token member => inside token (by simp [member]))

/-- Tokens are in order, or up to an opening token that is not closed. -/
theorem nesting_cases (tokens : List Token) :
    Nested nesting tokens ∨
      ∃ before opener after, tokens = before ++ opener :: after ∧
        Unclosed before opener after := by
  have extend {front back : List Token} (first : Nested nestingPart front)
      (rest : Nested nesting back ∨
        ∃ before opener after, back = before ++ opener :: after ∧ Unclosed before opener after) :
      Nested nesting (front ++ back) ∨
        ∃ before opener after, front ++ back = before ++ opener :: after ∧
          Unclosed before opener after := by
    rcases rest with nested | ⟨before, opener, after, rfl, unclosed⟩
    · exact .inl (first.star_append nested)
    · exact .inr ⟨front ++ before, opener, after, (List.append_assoc ..).symm,
        unclosed.append first.star_single⟩
  induction tokens using Item.ofTokens.induct with
  | case1 => exact .inl Nested.star_nil
  | case2 opener rest opens missing | case4 opener rest opens missing =>
      refine .inr ⟨[], opener, rest, rfl, .outer Nested.star_nil ?_ (cut_eq_none_iff.mp missing)⟩
      rw [opens]
      rfl
  | case3 opener rest opens cut found ih =>
      obtain ⟨rfl, brackets⟩ := Brackets.of_cut opens found
      simpa using extend (Nested.nesting_parameter brackets) ih
  | case5 opener rest opens cut found ih =>
      obtain ⟨rfl, brackets⟩ := Brackets.of_cut opens found
      rcases content_cases cut.before brackets.inside with
        within | ⟨before, inner, after, split, within, innerOpens, missing⟩
      · simpa using extend (Nested.nesting_optional brackets within) ih
      · have inside : ∀ token ∈ after, token.kind ∉ [.parameterClose, .optionalClose] := by
          intro token member
          have outer := brackets.inside token (by simp [split, member])
          simpa using ⟨missing token member, outer⟩
        have unclosed : Unclosed ([] ++ opener :: before) inner (after ++ cut.closer :: cut.after) :=
          .inner Nested.star_nil opens within innerOpens inside brackets.closes
        refine .inr ⟨opener :: before, inner, after ++ cut.closer :: cut.after, ?_, unclosed⟩
        simp [split]
  | case6 token rest kind ih | case7 token rest kind ih =>
      exact extend (Nested.nesting_token (by simp [kind]) (by simp [kind])) ih
  | case8 token rest parameter optional space separator ih =>
      exact extend (Nested.nesting_token parameter optional) ih

example :
    let ofKind kind : Token := ⟨kind, [], 0, 0⟩
    Nested nesting ([Kind.optionalOpen, .parameterOpen, .text, .parameterClose, .optionalOpen,
        .optionalClose, .parameterClose].map ofKind) ∧
      ¬ Nested nesting ([Kind.optionalOpen, .parameterOpen, .text, .optionalClose].map ofKind) := by
  decide

end CucumberExpression.Token
