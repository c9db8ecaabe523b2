import CucumberExpression.Proofs.Acceptance
import CucumberExpression.Proofs.Numerals
import Mathlib.Data.List.DropRight

namespace CucumberExpression

/-! # Carets

The message of a diagnostic shows all lines of the expression, and below them a caret that is moved
right by the offset of the offending position in the whole expression. So the caret stands under that
position when no line feed comes before it and the last line reads like the first. An expression of
one line is such a case. -/

variable {expression : Text} {diagnostic : Diagnostic}

namespace Text

def lines (text : Text) : List Text :=
  text.splitOn (.char '\n')

/-- The line of a position. A line feed stands at the end of its line. -/
def lineAt? (text : Text) (position : Nat) : Option Text :=
  text.lines[(text.take position).count (.char '\n')]?

/-- The index of a position in its line. -/
def indexInLine (text : Text) (position : Nat) : Nat :=
  ((text.take position).rtakeWhile (· != .char '\n')).length

variable {text : Text} {position : Nat}

theorem lines_append_cons (front rest : Text) :
    lines (front ++ .char '\n' :: rest) = front.lines ++ rest.lines :=
  List.splitOn_append_cons_self front rest

theorem lines_of_notMem (single : .char '\n' ∉ text) : text.lines = [text] :=
  List.splitOn_eq_singleton single

theorem exists_lines_concat (text : Text) : ∃ others last, text.lines = others ++ [last] := by
  rcases List.eq_nil_or_concat text.lines with none | ⟨others, last, split⟩
  · exact absurd none (List.splitOn_ne_nil _ text)
  · exact ⟨others, last, by rw [split, List.concat_eq_append]⟩

theorem indexInLine_eq_iff (bound : position ≤ text.length) :
    text.indexInLine position = position ↔ .char '\n' ∉ text.take position := by
  have length : (text.take position).length = position := List.length_take_of_le bound
  have whole : text.indexInLine position = position ↔
      (text.take position).rtakeWhile (· != .char '\n') = text.take position := by
    rw [indexInLine]
    constructor
    · intro same
      exact (List.rtakeWhile_suffix _ _).eq_of_length (same.trans length.symm)
    · intro same
      rw [same, length]
  rw [whole, List.rtakeWhile_eq_self_iff]
  constructor
  · intro none member
    simpa using none _ member
  · intro absent point member
    rw [bne_iff_ne]
    rintro rfl
    exact absent member

/-- The first line goes up to the first line feed. -/
theorem lineAt?_eq_head? (absent : .char '\n' ∉ text.take position) :
    text.lineAt? position = text.lines.head? := by
  rw [lineAt?, List.count_eq_zero_of_not_mem absent, List.head?_eq_getElem?]

end Text

namespace Diagnostic

/-- The last three lines of a message are one of spaces and a caret, a problem and a solution. The
line before them is that of the offending position, and the caret stands under this position. -/
def PointsInto (expression : Text) (diagnostic : Diagnostic) : Prop :=
  ∃ front line indent problem solution,
    diagnostic.message.lines =
      front ++ [line, List.replicate indent (.char ' ') ++ [.char '^'], problem, solution] ∧
    expression.lineAt? (diagnostic.column - 1).toNat = some line ∧
    indent = expression.indexInLine (diagnostic.column - 1).toNat

def heading (column : Int) : Text :=
  s!"This Cucumber Expression has a problem at column {column}:"

theorem notMem_heading (column : Int) : .char '\n' ∉ heading column := by
  have number : '\n' ∉ column.repr.toList := by
    intro member
    rcases Json.mem_toList_repr member with sign | digit
    · exact absurd sign (by decide)
    · exact absurd digit (by decide)
  have parts : heading column = Text.ofChars
      ("This Cucumber Expression has a problem at column ".toList ++
        (column.repr.toList ++ ":".toList)) := by
    simp [heading, Text.ofString]
    rfl
  rw [parts, Text.ofChars, List.mem_map]
  rintro ⟨c, member, same⟩
  rw [CodePoint.char.inj same, List.mem_append, List.mem_append] at member
  rcases member with front | digits | colon
  · exact absurd front (by decide)
  · exact number digits
  · exact absurd colon (by decide)

theorem notMem_caret (column : Int) : .char '\n' ∉ caret column := by
  rw [caret, List.mem_append, List.mem_singleton]
  rintro (blank | sign)
  · exact absurd (List.eq_of_mem_replicate blank) (by decide)
  · exact absurd sign (by decide)

theorem lines_message (problem : .char '\n' ∉ diagnostic.problem)
    (solution : .char '\n' ∉ diagnostic.solution) :
    diagnostic.message.lines =
      [heading diagnostic.column, []] ++ diagnostic.expression.lines ++
        [caret diagnostic.column, diagnostic.problem, diagnostic.solution] := by
  have parts : diagnostic.message =
      heading diagnostic.column ++ .char '\n' :: ([] ++ .char '\n' ::
        (diagnostic.expression ++ .char '\n' :: (caret diagnostic.column ++ .char '\n' ::
          (diagnostic.problem ++ .char '\n' :: diagnostic.solution)))) := by
    simp [message, layout, heading, List.intercalate]
  rw [parts]
  simp only [Text.lines_append_cons, Text.lines_of_notMem (notMem_heading _),
    Text.lines_of_notMem (notMem_caret _), Text.lines_of_notMem problem,
    Text.lines_of_notMem solution, Text.lines_of_notMem List.not_mem_nil, List.append_assoc]
  rfl

end Diagnostic

/-- What the diagnostics of an expression have in common. -/
theorem diagnostic_of_parse (failed : parse expression = .error (.diagnosed diagnostic)) :
    diagnostic.expression = expression ∧
      1 ≤ diagnostic.column ∧ diagnostic.column ≤ expression.length + 1 ∧
      .char '\n' ∉ diagnostic.problem ∧ .char '\n' ∉ diagnostic.solution := by
  rcases failure_cases expression with ⟨node, parsed⟩ | ⟨before, opener, after, spells, unclosed⟩ |
    ⟨glyphs, front, rest, kind, rfl, spells, stuck⟩
  · rw [parsed] at failed
    cases failed
  · rw [parse_of_unclosed spells unclosed] at failed
    cases failed
    have bounds : 0 ≤ opener.start ∧ opener.start ≤ opener.stop ∧
        opener.stop ≤ expression.length := spells.row.ordered.inside (by simp)
    rw [Diagnostic.column_ofOpener]
    have parts : (Diagnostic.ofOpener expression opener).expression = expression ∧
        .char '\n' ∉ (Diagnostic.ofOpener expression opener).problem ∧
        .char '\n' ∉ (Diagnostic.ofOpener expression opener).solution := by
      rw [Diagnostic.ofOpener]
      split <;> simp [Text.ofString]
    exact ⟨parts.1, by omega, by omega, parts.2⟩
  · rw [parse_of_tokenize_error (tokenize_stuck spells stuck)] at failed
    cases failed
    have inside : 1 ≤ rest.length := by
      cases stuck <;> simp
    rw [Diagnostic.column_ofStuck, List.length_append]
    refine ⟨?_, by omega, by omega, ?_⟩
    · cases kind <;> rfl
    · cases kind <;> simp [Diagnostic.ofStuck, Text.ofString]

theorem pointsInto_iff (failed : parse expression = .error (.diagnosed diagnostic)) :
    diagnostic.PointsInto expression ↔
      .char '\n' ∉ expression.take (diagnostic.column - 1).toNat ∧
        expression.lines.head? = expression.lines.getLast? := by
  obtain ⟨same, low, high, problem, solution⟩ := diagnostic_of_parse failed
  have bound : (diagnostic.column - 1).toNat ≤ expression.length := by omega
  have shown := Diagnostic.lines_message problem solution
  obtain ⟨others, last, split⟩ := expression.exists_lines_concat
  rw [same, split] at shown
  have final : expression.lines.getLast? = some last := by rw [split, List.getLast?_concat]
  constructor
  · rintro ⟨front, line, indent, _, _, ends, there, aligned⟩
    -- The last four lines are known one by one.
    rw [shown, List.append_assoc, List.append_assoc, ← List.append_assoc] at ends
    obtain ⟨-, four⟩ := List.append_inj' ends rfl
    obtain ⟨rfl, pointers, -⟩ : last = line ∧ Diagnostic.caret diagnostic.column =
        List.replicate indent (.char ' ') ++ [.char '^'] ∧ _ := by
      simpa using four
    have indents : indent = (diagnostic.column - 1).toNat := by
      have lengths := congrArg List.length pointers
      simpa [Diagnostic.caret, eq_comm] using lengths
    have absent := (Text.indexInLine_eq_iff bound).mp (aligned.symm.trans indents)
    rw [Text.lineAt?_eq_head? absent] at there
    exact ⟨absent, there.trans final.symm⟩
  · rintro ⟨absent, ends⟩
    refine ⟨[Diagnostic.heading diagnostic.column, []] ++ others, last,
      (diagnostic.column - 1).toNat, diagnostic.problem, diagnostic.solution, ?_, ?_, ?_⟩
    · rw [shown]
      simp [Diagnostic.caret]
    · rw [Text.lineAt?_eq_head? absent, ends, final]
    · exact ((Text.indexInLine_eq_iff bound).mpr absent).symm

/-- A message shows the lines of its expression, then a caret. The caret stands under the offending
position of the line right above when no line feed comes before this position and the last line reads
like the first, so for every expression without a line feed. -/
theorem caret_stands_iff (failed : parse expression = .error (.diagnosed diagnostic)) :
    diagnostic.message.lines =
        [Diagnostic.heading diagnostic.column, []] ++ expression.lines ++
          [Diagnostic.caret diagnostic.column, diagnostic.problem, diagnostic.solution] ∧
      (diagnostic.PointsInto expression ↔
        .char '\n' ∉ expression.take (diagnostic.column - 1).toNat ∧
          expression.lines.head? = expression.lines.getLast?) ∧
      (.char '\n' ∉ expression → diagnostic.PointsInto expression) := by
  obtain ⟨same, -, -, problem, solution⟩ := diagnostic_of_parse failed
  refine ⟨?_, pointsInto_iff failed, ?_⟩
  · rw [Diagnostic.lines_message problem solution, same]
  · intro single
    refine (pointsInto_iff failed).mpr ⟨fun member => single (List.mem_of_mem_take member), ?_⟩
    rw [Text.lines_of_notMem single]
    rfl

theorem caret_stands_iff_of_open_parameter :
    ∃ diagnostic, parse "\x7bstring" = .error (.diagnosed diagnostic) ∧
      diagnostic.PointsInto "\x7bstring" := by
  have failed : parse "\x7bstring" = .error (.diagnosed
      (Diagnostic.ofOpener "\x7bstring" ⟨.parameterOpen, "\x7b", 0, 1⟩)) := by
    decide +kernel
  obtain ⟨-, -, single⟩ := caret_stands_iff failed
  exact ⟨_, failed, single (by decide)⟩

/-- The bracket is the first of its line, but two code points come before it in the expression. -/
theorem not_pointsInto_of_second_line :
    ∃ diagnostic, parse "a\n(" = .error (.diagnosed diagnostic) ∧ diagnostic.column = 3 ∧
      Text.lineAt? "a\n(" 2 = some "(" ∧ Text.indexInLine "a\n(" 2 = 0 ∧
      Diagnostic.caret 3 = "  ^" ∧ ¬ diagnostic.PointsInto "a\n(" := by
  have failed : parse "a\n(" = .error (.diagnosed
      (Diagnostic.ofOpener "a\n(" ⟨.optionalOpen, "(", 2, 3⟩)) := by
    decide +kernel
  refine ⟨_, failed, rfl, by decide, by decide, by decide, ?_⟩
  rw [pointsInto_iff failed]
  exact fun stands => absurd stands.1 (by decide)

end CucumberExpression
