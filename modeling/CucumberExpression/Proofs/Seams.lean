import CucumberExpression.Proofs.Escaping

namespace CucumberExpression

/-! # Seams

The tokens of two expressions written one after the other are those of both, but that text which
meets text goes on as one token, and white space which meets white space. Delimiters stay apart. So
what is in order in front of the seam leaves alone what stands behind it. -/

namespace Token

/-- Two tokens that go on as one. -/
def merge (left right : Token) : Token :=
  ⟨left.kind, left.text ++ right.text, left.start, right.stop⟩

def join (left right : List Token) : List Token :=
  match left.getLast?, right with
  | some last, first :: rest =>
      if last.kind = first.kind ∧ last.kind.isRun = true then
        left.dropLast ++ last.merge first :: rest
      else left ++ right
  | _, _ => left ++ right

variable {left right before after : List Token} {opener : Token} {low middle high : Int}
  {front back : Text}

theorem join_cases (left right : List Token) :
    (Seam left right ∧ join left right = left ++ right) ∨
      ∃ init last first rest, left = init ++ [last] ∧ right = first :: rest ∧
        last.kind = first.kind ∧ last.kind.isRun = true ∧
        join left right = init ++ last.merge first :: rest := by
  rcases List.eq_nil_or_concat left with rfl | ⟨init, last, rfl⟩
  · exact .inl ⟨by simp [Seam], rfl⟩
  cases right with
  | nil => exact .inl ⟨by simp [Seam], by simp [join]⟩
  | cons first rest =>
      by_cases run : last.kind = first.kind ∧ last.kind.isRun = true
      · refine .inr ⟨init, last, first, rest, by simp, rfl, run.1, run.2, ?_⟩
        simp [join, ← run.1, run.2]
      · refine .inl ⟨?_, by simp [join, run]⟩
        simpa [Seam, Apart] using run

theorem Kind.isRun_iff {kind : Kind} : kind.isRun = true ↔ kind = .text ∨ kind = .space := by
  cases kind <;> simp [isRun]

theorem Seam.join_eq (seam : Seam left right) : join left right = left ++ right := by
  rcases join_cases left right with ⟨-, joined⟩ | ⟨init, last, first, rest, rfl, rfl, same, run, -⟩
  · exact joined
  · exact absurd ⟨same, run⟩ (seam last List.getLast?_concat first rfl)

theorem join_eq_merge {init rest : List Token} {last first : Token} (same : last.kind = first.kind)
    (run : last.kind.isRun = true) :
    join (init ++ [last]) (first :: rest) = init ++ last.merge first :: rest := by
  simp [join, ← same, run]

theorem Seam.shift (seam : Seam left right) (distance : Int) :
    Seam left (right.map (Token.shift distance)) := by
  intro last lastMember first member
  rw [List.head?_map] at member
  obtain ⟨original, begins, rfl⟩ := Option.map_eq_some_iff.mp member
  exact seam last lastMember original begins

theorem spelling_merge {left right : Token} (same : left.kind = right.kind)
    (run : left.kind.isRun = true) : (left.merge right).spelling = left.spelling ++ right.spelling := by
  obtain ⟨kind, content, start, stop⟩ := left
  obtain ⟨_, content', start', stop'⟩ := right
  obtain rfl : kind = _ := same
  cases kind with
  | text => exact escape_append content content'
  | space => rfl
  | _ => cases run

theorem Proper.merge {left right : Token} (leftProper : left.Proper) (rightProper : right.Proper)
    (same : left.kind = right.kind) (run : left.kind.isRun = true)
    (meets : right.start = left.stop) : (left.merge right).Proper := by
  constructor
  · apply Kind.Fits.of_forall (by simp [Token.merge, leftProper.fits.ne_nil]) run
    intro point member
    rcases List.mem_append.mp member with member | member
    · exact leftProper.fits.single member
    · have fits := rightProper.fits.single member
      rw [← same] at fits
      exact fits
  · rw [spelling_merge same run, List.length_append]
    have leftWidth := leftProper.width
    have rightWidth := rightProper.width
    simp only [Token.merge]
    omega

/-- The tokens of two texts, one after the other. -/
theorem Spells.join (first : Spells low left middle front)
    (second : Spells middle right high back) :
    Spells low (Token.join left right) high (front ++ back) := by
  rcases join_cases left right with
    ⟨seam, joined⟩ | ⟨init, last, next, rest, rfl, rfl, same, run, joined⟩
  · rw [joined]
    exact first.append second seam
  · obtain ⟨_, initRow, lastRow, initSeam⟩ := first.row.of_append
    obtain ⟨lastProper, rfl, stop⟩ := lastRow.of_cons
    have row : Row _ ([next] ++ rest) high := second.row
    obtain ⟨-, -, -, restSeam⟩ := row.of_append
    obtain ⟨nextProper, meets, restRow⟩ := second.row.of_cons
    have proper := lastProper.merge nextProper same run (meets.trans stop.tiled.symm)
    -- To its neighbours the merged token is of the kind that each of the two was.
    have mergedSeam : Seam [last.merge next] rest := by
      intro merged mergedLast other member
      obtain rfl : last.merge next = merged := by simpa using mergedLast
      have apart := restSeam next (by simp) other member
      rwa [Apart, ← same] at apart
    have seam : Seam init ([last.merge next] ++ rest) := by
      intro other member merged mergedFirst
      obtain rfl : last.merge next = merged := by simpa using mergedFirst
      exact initSeam other member last (by simp)
    rw [joined]
    refine ⟨initRow.append ((Row.singleton proper).append restRow mergedSeam) seam, ?_⟩
    rw [← first.written, ← second.written]
    simp [spelling_merge same run]

theorem Spells.shift {tokens : List Token} {text : Text} (spells : Spells low tokens high text)
    (distance : Int) :
    Spells (low + distance) (tokens.map (Token.shift distance)) (high + distance) text := by
  refine ⟨spells.row.shift distance, ?_⟩
  rw [List.flatMap_map]
  exact spells.written

section

variable {first last : Token} {init rest : List Token}

theorem closing_of_isRun {kind : Kind} (run : kind.isRun = true) : kind.closing? = none := by
  cases kind with
  | space | text => rfl
  | _ => cases run

theorem Unclosed.exists_closing (unclosed : Unclosed before opener after) :
    ∃ closing, opener.kind.closing? = some closing := by
  cases unclosed with
  | outer nested opens missing => exact ⟨_, opens⟩
  | inner nested outside within opens missing closes =>
      rw [opens]
      exact ⟨_, rfl⟩

/-- What comes after a token that opens nothing is in order on its own. -/
theorem Nested.tail (nested : Nested nesting (first :: rest)) (closing : first.kind.closing? = none) :
    Nested nesting rest := by
  have both : Nested nesting (first :: rest) ∧
      ∀ token others, first :: rest = token :: others → token.kind.closing? = none →
        Nested nesting others := by
    apply star_induction (motive := fun tokens => Nested nesting tokens ∧
      ∀ token others, tokens = token :: others → token.kind.closing? = none →
        Nested nesting others) ?_ ?_ nested
    · exact ⟨star_nil, nofun⟩
    · intro front back one ih
      refine ⟨one.star_append ih.1, fun token others split plain => ?_⟩
      rcases one.nesting_part_cases with ⟨single, rfl, -⟩ |
        ⟨opener, content, closer, rfl, brackets⟩ | ⟨opener, content, closer, rfl, brackets, -⟩
      · cases split
        exact ih.1
      · cases split
        rw [brackets.opens] at plain
        cases plain
      · cases split
        rw [brackets.opens] at plain
        cases plain
  exact both.2 first rest rfl closing

theorem Unclosed.tail (unclosed : Unclosed (first :: before) opener after)
    (closing : first.kind.closing? = none) : Unclosed before opener after := by
  generalize split : first :: before = front at unclosed
  cases unclosed with
  | outer nested opens missing =>
      subst split
      exact .outer (nested.tail closing) opens missing
  | @inner front content inside after outer opener closer nested outside within opens missing closes =>
      cases front with
      | nil =>
          cases split
          rw [outside] at closing
          cases closing
      | cons other front =>
          cases split
          exact .inner (nested.tail closing) outside within opens missing closes

theorem Nested.merge (nested : Nested nesting (init ++ [last])) :
    Nested nesting (init ++ [last.merge first]) :=
  nested.of_kinds (by simp [Token.merge])

theorem Nested.join (leftNested : Nested nesting left) (rightNested : Nested nesting right) :
    Nested nesting (Token.join left right) := by
  rcases join_cases left right with
    ⟨-, joined⟩ | ⟨init, last, first, rest, rfl, rfl, same, run, joined⟩
  · rw [joined]
    exact leftNested.star_trans rightNested
  · rw [same] at run
    rw [joined, List.append_cons]
    exact leftNested.merge.star_trans (rightNested.tail (closing_of_isRun run))

/-- Behind tokens that are in order the same token is not closed. -/
theorem Unclosed.join (nested : Nested nesting left) (unclosed : Unclosed before opener after) :
    ∃ front, Token.join left (before ++ opener :: after) = front ++ opener :: after ∧
      Unclosed front opener after := by
  rcases join_cases left (before ++ opener :: after) with
    ⟨-, joined⟩ | ⟨init, last, first, rest, rfl, split, same, run, joined⟩
  · exact ⟨left ++ before, by rw [joined, List.append_assoc], unclosed.append nested⟩
  · rw [same] at run
    cases before with
    | nil =>
        cases split
        obtain ⟨closing, opens⟩ := unclosed.exists_closing
        rw [closing_of_isRun run] at opens
        cases opens
    | cons token before =>
        cases split
        refine ⟨init ++ [last.merge first] ++ before, by simpa using joined, ?_⟩
        exact (unclosed.tail (closing_of_isRun run)).append nested.merge

theorem Nested.shift {pattern : RegularExpression Kind} {tokens : List Token}
    (nested : Nested pattern tokens) (distance : Int) :
    Nested pattern (tokens.map (Token.shift distance)) :=
  nested.of_kinds (map_kind_shift tokens distance)

theorem Unclosed.shift (unclosed : Unclosed before opener after) (distance : Int) :
    Unclosed (before.map (Token.shift distance)) (opener.shift distance)
      (after.map (Token.shift distance)) := by
  cases unclosed with
  | outer nested opens absent =>
      exact .outer (nested.shift distance) opens (List.forall_mem_map.mpr absent)
  | inner nested outside within opens absent closes =>
      rw [List.map_append, List.map_cons, List.map_append, List.map_cons]
      exact .inner (nested.shift distance) outside (within.shift distance) opens
        (List.forall_mem_map.mpr absent) closes

end

end Token

end CucumberExpression
