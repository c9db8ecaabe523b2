import CucumberExpression.Proofs.Acceptance
import CucumberExpression.Proofs.Relocation
import CucumberExpression.Proofs.Seams

namespace CucumberExpression

/-! # Concatenation

What can be read leaves alone what is written behind it, which can be read or fails as it does on its
own, only further to the right. White space between two expressions keeps their words apart, so the
tree of all has the children of both. -/

namespace Diagnostic

/-- A diagnostic of a part of an expression, as one of the whole. -/
def inside (diagnostic : Diagnostic) (expression : Text) (distance : Int) : Diagnostic :=
  { diagnostic with expression := expression, column := diagnostic.column + distance }

theorem inside_ofStuck (kind : Kind) (part expression : Text) (column distance : Int) :
    (ofStuck kind part column).inside expression distance =
      ofStuck kind expression (column + distance) := by
  cases kind <;> rfl

theorem inside_ofOpener (part expression : Text) (opener : Token) (distance : Int) :
    (ofOpener part opener).inside expression distance =
      ofOpener expression (opener.shift distance) := by
  obtain ⟨kind, content, start, stop⟩ := opener
  have column : start + 1 + distance = start + distance + 1 := Int.add_right_comm ..
  cases kind <;> exact congrArg (Diagnostic.mk _ _ · _ _) column

end Diagnostic

namespace Token

variable {front back gap : Text} {left right : List Token} {low high : Int}

theorem withMarkers_injective {length : Nat} (same : withMarkers length left = withMarkers length right) :
    left = right := by
  simpa [withMarkers] using same

theorem Spells.behind (first : Spells 0 left front.length front)
    (second : Spells 0 right back.length back) :
    Spells 0 (Token.join left (right.map (Token.shift front.length))) (front ++ back).length
      (front ++ back) := by
  have moved := second.shift front.length
  rw [Int.zero_add, Int.add_comm] at moved
  rw [List.length_append, Int.natCast_add]
  exact first.join moved

theorem Spells.head_ne_space (spells : Spells low right high back)
    (visible : ∀ point ∈ back.head?, Kind.ofCodePoint point ≠ .space) :
    ∀ first ∈ right.head?, first.kind ≠ .space := by
  intro first member isSpace
  obtain ⟨rest, rfl⟩ := List.head?_eq_some_iff.mp member
  obtain ⟨proper, -⟩ := spells.row.of_cons
  obtain ⟨point, others, content⟩ := List.exists_cons_of_ne_nil proper.fits.ne_nil
  have single : first.kind.Fits [point] := proper.fits.single (by simp [content])
  rw [isSpace, Kind.fits_singleton] at single
  have written := spells.written
  rw [List.flatMap_cons, spelling, isSpace] at written
  simp only [content] at written
  rw [← written] at visible
  rcases single with impossible | same
  · cases impossible
  · exact visible point rfl same.symm

/-- The token of white space between two expressions. -/
def blank (start : Int) (gap : Text) : Token :=
  ⟨.space, gap, start, start + gap.length⟩

theorem Spells.across (first : Spells 0 left front.length front)
    (second : Spells 0 right back.length back) (nonempty : gap ≠ [])
    (blank : ∀ point ∈ gap, Kind.ofCodePoint point = .space)
    (leftEnds : ∀ last ∈ left.getLast?, last.kind ≠ .space)
    (rightBegins : ∀ first ∈ right.head?, first.kind ≠ .space) :
    Spells 0 (left ++ Token.blank front.length gap ::
        right.map (Token.shift (front.length + gap.length)))
      (front ++ gap ++ back).length (front ++ gap ++ back) := by
  have proper : (Token.blank front.length gap).Proper := ⟨⟨nonempty, blank⟩, rfl⟩
  have between : Spells front.length [Token.blank front.length gap] (front.length + gap.length)
      gap :=
    ⟨.singleton proper, List.flatMap_singleton ..⟩
  have moved := second.shift (front.length + gap.length)
  rw [Int.zero_add, Int.add_comm back.length] at moved
  have opens : Seam left ([Token.blank front.length gap] ++
      right.map (Token.shift (front.length + gap.length))) := by
    intro last member token begins joined
    obtain rfl : Token.blank front.length gap = token := by simpa using begins
    exact leftEnds last member joined.1
  have closes : Seam [Token.blank front.length gap]
      (right.map (Token.shift (front.length + gap.length))) := by
    intro token ends next member joined
    obtain rfl : Token.blank front.length gap = token := by simpa using ends
    rw [List.head?_map] at member
    obtain ⟨original, begins, rfl⟩ := Option.map_eq_some_iff.mp member
    exact rightBegins original begins joined.1.symm
  have whole := first.append (between.append moved closes) opens
  rw [List.append_assoc, List.length_append, List.length_append, Int.natCast_add, Int.natCast_add,
    ← Int.add_assoc]
  exact whole

end Token

section

variable {front back gap : Text} {left right : List Token} {node : Node}

theorem exists_parse_append (spells : Token.Spells 0 left front.length front)
    (nested : Token.Nested Token.nesting left) (parsed : parse back = .ok node) :
    ∃ whole, parse (front ++ back) = .ok whole := by
  obtain ⟨right, others, othersNested⟩ := exists_nested_of_parse parsed
  exact exists_parse_of_nested (spells.behind others) (nested.join (othersNested.shift _))

/-- Behind what can be cut into tokens, tokenizing fails as it does on its own. -/
theorem tokenize_append_of_error (spells : Token.Spells 0 left front.length front) {error : Error}
    (failed : tokenize back = .error error) :
    ∃ diagnostic, error = .diagnosed diagnostic ∧
      tokenize (front ++ back) =
        .error (.diagnosed (diagnostic.inside (front ++ back) front.length)) := by
  obtain ⟨glyphs, known, rest, rfl, others, rfl | ⟨kind, stuck⟩⟩ := Glyph.exists_spells 0 back
  · have cut := others.ofGlyphs
    rw [Nat.zero_add] at cut
    rw [List.append_nil, tokenize_of_spells cut] at failed
    cases failed
  · rw [tokenize_stuck others stuck] at failed
    cases failed
    -- What was read of the second is read behind the first, though its glyphs may now be in the
    -- last token of the first.
    have knownSpells := others.ofGlyphs
    rw [Nat.zero_add] at knownSpells
    have ahead := spells.behind knownSpells
    obtain ⟨wholeGlyphs, whole⟩ := ahead.row.exists_glyphs
    rw [ahead.written] at whole
    have column : (known.length : Int) + 2 + front.length = (front ++ known).length + 2 := by
      rw [List.length_append]
      omega
    refine ⟨_, rfl, ?_⟩
    rw [Diagnostic.inside_ofStuck, column, ← List.append_assoc]
    exact tokenize_stuck whole stuck

/-- Behind an expression that can be cut into tokens, another one is cut as it is on its own, only
further to the right, or fails as it does on its own. Where text meets text or white space meets white
space, the two tokens go on as one; any other two stay apart. -/
theorem tokenize_append {tokens : List Token} (tokenized : tokenize front = .ok tokens)
    (back : Text) :
    ((∃ whole, tokenize (front ++ back) = .ok whole) ↔ ∃ others, tokenize back = .ok others) ∧
      (∀ error, tokenize back = .error error →
        ∃ diagnostic, error = .diagnosed diagnostic ∧
          tokenize (front ++ back) = .error (.diagnosed { diagnostic with
            expression := front ++ back, column := diagnostic.column + front.length })) ∧
      ∀ others, tokenize back = .ok others →
        ∃ left right, tokens = Token.withMarkers front.length left ∧
          others = Token.withMarkers back.length right ∧
          (Token.Seam left right →
            tokenize (front ++ back) = .ok (Token.withMarkers (front ++ back).length
              (left ++ right.map (Token.shift front.length)))) ∧
          ∀ init last first rest, left = init ++ [last] → right = first :: rest →
            last.kind = first.kind → last.kind = .text ∨ last.kind = .space →
            tokenize (front ++ back) = .ok (Token.withMarkers (front ++ back).length
              (init ++ ⟨last.kind, last.text ++ first.text, last.start,
                first.stop + front.length⟩ :: rest.map (Token.shift front.length))) := by
  obtain ⟨left, rfl, spells⟩ := tokenize_eq_ok_iff.mp tokenized
  refine ⟨⟨?_, ?_⟩, fun error => tokenize_append_of_error spells, ?_⟩
  · intro cut
    obtain ⟨whole, cut⟩ := cut
    cases own : tokenize back with
    | ok others => exact ⟨others, rfl⟩
    | error error =>
        obtain ⟨diagnostic, -, failed⟩ := tokenize_append_of_error spells own
        rw [failed] at cut
        cases cut
  · intro cut
    obtain ⟨others, cut⟩ := cut
    obtain ⟨right, -, spelled⟩ := tokenize_eq_ok_iff.mp cut
    exact ⟨_, tokenize_of_spells (spells.behind spelled)⟩
  · intro others cut
    obtain ⟨right, rfl, spelled⟩ := tokenize_eq_ok_iff.mp cut
    have whole := tokenize_of_spells (spells.behind spelled)
    refine ⟨left, right, rfl, rfl, ?_, ?_⟩
    · intro seam
      rw [(seam.shift _).join_eq] at whole
      exact whole
    · rintro init last first rest rfl rfl same run
      have joined : Token.join (init ++ [last]) ((first :: rest).map (Token.shift front.length)) = _ :=
        Token.join_eq_merge same (Token.Kind.isRun_iff.mpr run)
      rw [joined] at whole
      exact whole

/-- An escaped blank goes on with the text in front of it; brackets do not go on with each other. -/
theorem tokenize_append_of_escaped_blank :
    tokenize "(a\\ b" =
        .ok (Token.withMarkers 5 [⟨.optionalOpen, "(", 0, 1⟩, ⟨.text, "a b", 1, 5⟩]) ∧
      tokenize "((" =
        .ok (Token.withMarkers 2 [⟨.optionalOpen, "(", 0, 1⟩, ⟨.optionalOpen, "(", 1, 2⟩]) := by
  have bracket : tokenize "(" = .ok (Token.withMarkers 1 [⟨.optionalOpen, "(", 0, 1⟩]) := by
    decide +kernel
  have first : tokenize "(a" =
      .ok (Token.withMarkers 2 [⟨.optionalOpen, "(", 0, 1⟩, ⟨.text, "a", 1, 2⟩]) := by
    decide +kernel
  have second : tokenize "\\ b" = .ok (Token.withMarkers 3 [⟨.text, " b", 0, 3⟩]) := by
    decide +kernel
  constructor
  · obtain ⟨-, -, goesOn⟩ := tokenize_append first "\\ b"
    obtain ⟨left, right, leftSame, rightSame, -, merges⟩ := goesOn _ second
    obtain rfl := Token.withMarkers_injective leftSame
    obtain rfl := Token.withMarkers_injective rightSame
    exact merges [_] _ _ _ rfl rfl rfl (.inl rfl)
  · obtain ⟨-, -, goesOn⟩ := tokenize_append bracket "("
    obtain ⟨left, right, leftSame, rightSame, apart, -⟩ := goesOn _ bracket
    obtain rfl := Token.withMarkers_injective leftSame
    obtain rfl := Token.withMarkers_injective rightSame
    exact apart (by simp [Token.Seam, Token.Apart, Token.Kind.isRun])

/-- Behind what can be read, reading fails as it does on its own. -/
theorem parse_append_of_error (spells : Token.Spells 0 left front.length front)
    (nested : Token.Nested Token.nesting left) {error : Error} (failed : parse back = .error error) :
    ∃ diagnostic, error = .diagnosed diagnostic ∧
      parse (front ++ back) =
        .error (.diagnosed (diagnostic.inside (front ++ back) front.length)) := by
  rcases failure_cases back with ⟨node, parsed⟩ | ⟨before, opener, after, others, unclosed⟩ |
    ⟨glyphs, known, rest, kind, rfl, others, stuck⟩
  · rw [parsed] at failed
    cases failed
  · rw [parse_of_unclosed others unclosed] at failed
    cases failed
    have whole := spells.behind others
    rw [List.map_append, List.map_cons] at whole
    obtain ⟨ahead, joined, still⟩ := (unclosed.shift front.length).join nested
    rw [joined] at whole
    refine ⟨_, rfl, ?_⟩
    rw [Diagnostic.inside_ofOpener, parse_of_unclosed whole still]
  · have uncut := tokenize_stuck others stuck
    rw [parse_of_tokenize_error uncut] at failed
    cases failed
    obtain ⟨diagnostic, same, whole⟩ := tokenize_append_of_error spells uncut
    exact ⟨diagnostic, same, parse_of_tokenize_error whole⟩

/-- What is read in front of white space and behind it is read in one tree. -/
theorem parse_across {tree other : Node}
    (parsed : parse front = .ok tree) (parsedBack : parse back = .ok other) (nonempty : gap ≠ [])
    (blank : ∀ point ∈ gap, Token.Kind.ofCodePoint point = .space)
    (visible : ∀ point ∈ back.head?, Token.Kind.ofCodePoint point ≠ .space)
    (ends : ∀ inner, Token.Spells 0 inner front.length front →
      ∀ last ∈ inner.getLast?, last.kind ≠ .space) :
    parse (front ++ gap ++ back) = .ok (.branch .expression 0 (front ++ gap ++ back).length
      (tree.children ++ .leaf front.length (front.length + gap.length) gap ::
        other.children.map (Node.relocate (· + (front.length + gap.length : Int))))) := by
  obtain ⟨left, leftItems, children, leftSpells, leftReads, leftMade, rfl⟩ :=
    parse_eq_ok_iff.mp parsed
  obtain ⟨right, rightItems, others, rightSpells, rightReads, rightMade, rfl⟩ :=
    parse_eq_ok_iff.mp parsedBack
  have keeps : KeepsForward (· + (front.length + gap.length : Int)) :=
    .add (by omega)
  have whole := leftSpells.across rightSpells nonempty blank (ends left leftSpells)
    (rightSpells.head_ne_space visible)
  have valid : (Token.blank front.length gap).Valid :=
    whole.row.valid (Int.le_refl 0) _ (by simp)
  have moved := rightReads.relocate keeps
  have made := Node.ofItems_relocate rightMade keeps
  exact parse_eq_ok_iff.mpr ⟨_, _, _, whole, leftReads.append (.space rfl moved),
    Node.ofItems_append_space leftMade valid made, rfl⟩

/-- Behind an expression that can be read, another one can be read exactly when it can be on its own,
and fails with the same diagnostic further to the right. With white space between the two, the tree
of the whole has the children of the first, the white space, and the children of the second. -/
theorem parse_append {tree : Node} (parsed : parse front = .ok tree) (back : Text) :
    ((∃ whole, parse (front ++ back) = .ok whole) ↔ ∃ other, parse back = .ok other) ∧
      (∀ error, parse back = .error error →
        ∃ diagnostic, error = .diagnosed diagnostic ∧
          parse (front ++ back) = .error (.diagnosed { diagnostic with
            expression := front ++ back, column := diagnostic.column + front.length })) ∧
      ∀ gap tokens other, gap ≠ [] → (∀ point ∈ gap, Token.Kind.ofCodePoint point = .space) →
        tokenize front = .ok tokens → (∀ last ∈ tokens.dropLast.getLast?, last.kind ≠ .space) →
        (∀ point ∈ back.head?, Token.Kind.ofCodePoint point ≠ .space) → parse back = .ok other →
        parse (front ++ gap ++ back) = .ok (.branch .expression 0 (front ++ gap ++ back).length
          (tree.children ++ .leaf front.length (front.length + gap.length) gap ::
            other.children.map (Node.relocate (· + (front.length + gap.length : Int))))) := by
  obtain ⟨left, spells, nested⟩ := exists_nested_of_parse parsed
  refine ⟨⟨?_, ?_⟩, fun error => parse_append_of_error spells nested, ?_⟩
  · intro read
    obtain ⟨whole, read⟩ := read
    cases own : parse back with
    | ok other => exact ⟨other, rfl⟩
    | error error =>
        obtain ⟨diagnostic, -, failed⟩ := parse_append_of_error spells nested own
        rw [failed] at read
        cases read
  · intro read
    obtain ⟨other, read⟩ := read
    exact exists_parse_append spells nested read
  · intro gap tokens other nonempty blank tokenized ends visible read
    refine parse_across parsed read nonempty blank visible fun inner spelled last member => ?_
    rw [tokenize_of_spells spelled] at tokenized
    cases tokenized
    obtain ⟨init, rfl⟩ := List.getLast?_eq_some_iff.mp member
    refine ends last ?_
    rw [Token.withMarkers, List.dropLast_concat, ← List.cons_append]
    exact List.getLast?_concat

theorem parse_append_of_alternation :
    parse "a b/c" = .ok (.branch .expression 0 5
      [.leaf 0 1 "a", .leaf 1 2 " ", .branch .alternation 2 5
        [.branch .alternative 2 3 [.leaf 2 3 "b"], .branch .alternative 4 5 [.leaf 4 5 "c"]]]) := by
  have parsed : parse "a" = .ok (.branch .expression 0 1 [.leaf 0 1 "a"]) := by
    decide +kernel
  have parsedBack : parse "b/c" = .ok (.branch .expression 0 3 [.branch .alternation 0 3
      [.branch .alternative 0 1 [.leaf 0 1 "b"], .branch .alternative 2 3 [.leaf 2 3 "c"]]]) := by
    decide +kernel
  have tokenized : tokenize "a" = .ok (Token.withMarkers 1 [⟨.text, "a", 0, 1⟩]) := by
    decide +kernel
  obtain ⟨-, -, across⟩ := parse_append parsed "b/c"
  exact across " " _ _ (by decide) (by decide) tokenized (by decide) (by decide) parsedBack

end

end CucumberExpression
