import CucumberExpression.Node.Traversal
import CucumberExpression.Proofs.Stages
import CucumberExpression.Proofs.Words

namespace CucumberExpression

/-! # Marks

A walk over a tree leaves a mark for each leaf, where it enters and leaves a bracket, and between two
alternatives. The marks of a tree that was put together from tokens stand for these tokens, whatever
they are: none is lost, used twice, moved or altered on the way. -/

inductive Mark where
  | leaf (start stop : Int) (content : Text)
  | opens (bracket : Node)
  | closes (bracket : Node)
  | between (previous next : Node)

namespace Node

mutual

def marks : Node → List Mark
  | .leaf start stop content => [.leaf start stop content]
  | .branch .optional start stop children =>
      .opens (.branch .optional start stop children) ::
        (marksOfAll children ++ [.closes (.branch .optional start stop children)])
  | .branch .parameter start stop children =>
      .opens (.branch .parameter start stop children) ::
        (marksOfAll children ++ [.closes (.branch .parameter start stop children)])
  | .branch .alternation _ _ children => marksOfAlternatives children
  | .branch .alternative _ _ children => marksOfAll children
  | .branch .expression _ _ children => marksOfAll children

def marksOfAll : List Node → List Mark
  | [] => []
  | node :: rest => node.marks ++ marksOfAll rest

def marksOfAlternatives : List Node → List Mark
  | [] => []
  | [last] => last.marks
  | node :: next :: rest => node.marks ++ .between node next :: marksOfAlternatives (next :: rest)

end

/-- The marks between those where a walk enters and leaves a node. -/
def marksInside (node : Node) : List Mark :=
  marksOfAll node.children

/-- The kinds of token that a bracket opens and closes with. -/
def Kind.delimiters? : Kind → Option (Token.Kind × Token.Kind)
  | .branch .optional => some (.optionalOpen, .optionalClose)
  | .branch .parameter => some (.parameterOpen, .parameterClose)
  | _ => none

def opening? (node : Node) : Option Token.Kind :=
  node.kind.delimiters?.map (·.1)

def closing? (node : Node) : Option Token.Kind :=
  node.kind.delimiters?.map (·.2)

theorem marksOfAll_append (left right : List Node) :
    marksOfAll (left ++ right) = marksOfAll left ++ marksOfAll right := by
  induction left with
  | nil => rfl
  | cons node rest ih => rw [List.cons_append, marksOfAll, marksOfAll, ih, List.append_assoc]

theorem marks_bracket {node : Node} {delimiters : Token.Kind × Token.Kind}
    (bracket : node.kind.delimiters? = some delimiters) :
    node.marks = .opens node :: (node.marksInside ++ [.closes node]) := by
  obtain _ | ⟨_ | _ | _ | _ | _, start, stop, children⟩ := node <;> first | rfl | cases bracket

end Node

namespace Mark

/-- Whether a mark stands for a token. -/
def StandsFor : Mark → Token → Prop
  | .leaf start stop content, token =>
      token.start = start ∧ token.stop = stop ∧ token.text = content
  | .opens bracket, token => bracket.opening? = some token.kind ∧ token.start = bracket.start
  | .closes bracket, token => bracket.closing? = some token.kind ∧ token.stop = bracket.stop
  | .between previous next, token =>
      token.kind = .separator ∧ token.start = previous.stop ∧ token.stop = next.start

/-- Whether the mark that opens a bracket is followed by those inside it and the one that closes it,
and none of the tokens inside closes a bracket of its kind. -/
def Encloses (mark : Mark) (marks : List Mark) (tokens : List Token) : Prop :=
  match mark with
  | .opens bracket =>
      bracket.marksInside ++ [.closes bracket] <+: marks ∧
        ∀ token ∈ tokens.take bracket.marksInside.length, bracket.closing? ≠ some token.kind
  | _ => True

/-- Whether marks stand for tokens, each for the one at its position. -/
def Trace : List Mark → List Token → Prop
  | [], [] => True
  | mark :: marks, token :: tokens =>
      mark.StandsFor token ∧ mark.Encloses marks tokens ∧ Trace marks tokens
  | _, _ => False

variable {marks others : List Mark} {tokens rest content : List Token}

theorem Encloses.append {mark : Mark} (encloses : mark.Encloses marks tokens)
    (same : marks.length = tokens.length) (others : List Mark) (rest : List Token) :
    mark.Encloses (marks ++ others) (tokens ++ rest) := by
  cases mark with
  | opens bracket =>
      obtain ⟨follows, free⟩ := encloses
      refine ⟨follows.trans (List.prefix_append ..), ?_⟩
      have inside := follows.length_le
      rw [List.length_append, same] at inside
      rw [List.take_append_of_le_length (Nat.le_of_lt inside)]
      exact free
  | _ => trivial

namespace Trace

theorem length_eq (trace : Trace marks tokens) : marks.length = tokens.length := by
  induction marks generalizing tokens with
  | nil =>
      cases tokens with
      | nil => rfl
      | cons token tokens => exact trace.elim
  | cons mark marks ih =>
      cases tokens with
      | nil => exact trace.elim
      | cons token tokens => exact congrArg (· + 1) (ih trace.2.2)

theorem append (front : Trace marks tokens) (back : Trace others rest) :
    Trace (marks ++ others) (tokens ++ rest) := by
  induction marks generalizing tokens with
  | nil =>
      cases tokens with
      | nil => exact back
      | cons token tokens => exact front.elim
  | cons mark marks ih =>
      cases tokens with
      | nil => exact front.elim
      | cons token tokens =>
          obtain ⟨stands, encloses, tail⟩ := front
          exact ⟨stands, encloses.append tail.length_eq others rest, ih tail⟩

theorem single {mark : Mark} {token : Token} (stands : mark.StandsFor token)
    (encloses : mark.Encloses [] []) : Trace [mark] [token] :=
  ⟨stands, encloses, trivial⟩

theorem leaf (token : Token) : Trace token.leaf.marks [token] :=
  single ⟨rfl, rfl, rfl⟩ trivial

theorem bracket (node : Node) {opener closer : Token} {opening closing : Token.Kind}
    (delimited : node.kind.delimiters? = some (opening, closing))
    (brackets : Token.Brackets opening closing opener content closer)
    (start : opener.start = node.start) (stop : closer.stop = node.stop)
    (inside : Trace node.marksInside content) :
    Trace node.marks (opener :: (content ++ [closer])) := by
  have opens : node.opening? = some opener.kind := by
    rw [Node.opening?, delimited, brackets.opens]
    rfl
  have closes : node.closing? = some closing := by
    rw [Node.closing?, delimited]
    rfl
  have last : (Mark.closes node).StandsFor closer := ⟨by rw [closes, brackets.closes], stop⟩
  rw [Node.marks_bracket delimited]
  refine ⟨⟨opens, start⟩, ⟨List.prefix_rfl, ?_⟩, inside.append (single last trivial)⟩
  rw [inside.length_eq, List.take_left, closes]
  intro token member same
  exact brackets.inside token member (Option.some.inj same).symm

theorem map_leaf (tokens : List Token) :
    Trace (Node.marksOfAll (tokens.map Token.leaf)) tokens := by
  induction tokens with
  | nil => trivial
  | cons token rest ih => exact (leaf token).append ih

end Trace

end Mark

open Mark (Trace)

theorem Node.ReadsContent.trace {content : List Token} {nodes : List Node}
    (reads : ReadsContent content nodes) : Trace (marksOfAll nodes) content := by
  induction reads with
  | nil => trivial
  | leaf plain valid others ih => exact (Trace.leaf _).append ih
  | @parameter opener closer content rest nodes brackets valid forward others ih =>
      have own : Trace _ (opener :: (content ++ [closer])) :=
        .bracket (.branch .parameter opener.start closer.stop (content.map Token.leaf))
          rfl brackets rfl rfl (.map_leaf content)
      have whole := own.append ih
      rw [List.cons_append, List.append_assoc] at whole
      exact whole

/-- The tokens that the parts of a word stand for. -/
inductive Part.Traces : List Part → List Token → Prop
  | nil : Traces [] []
  | node {child : Node} {own rest : List Token} {parts : List Part}
      (trace : Trace child.marks own) (others : Traces parts rest) :
      Traces (.node child :: parts) (own ++ rest)
  | separator {token : Token} {rest : List Token} {parts : List Part}
      (kind : token.kind = .separator) (others : Traces parts rest) :
      Traces (.separator token :: parts) (token :: rest)

namespace Part.Traces

variable {left right word : List Part} {tokens rest : List Token} {nodes : List Node}

theorem append (front : Traces left tokens) (back : Traces right rest) :
    Traces (left ++ right) (tokens ++ rest) := by
  induction front with
  | nil => exact back
  | node trace others ih =>
      rw [List.append_assoc]
      exact .node trace ih
  | separator kind others ih => exact .separator kind ih

theorem of_append (traces : Traces (left ++ right) tokens) :
    ∃ front back, tokens = front ++ back ∧ Traces left front ∧ Traces right back := by
  induction left generalizing tokens with
  | nil => exact ⟨[], tokens, rfl, .nil, traces⟩
  | cons part parts ih =>
      cases traces with
      | node trace others =>
          obtain ⟨front, back, rfl, first, second⟩ := ih others
          exact ⟨_ ++ front, back, (List.append_assoc ..).symm, .node trace first, second⟩
      | separator kind others =>
          obtain ⟨front, back, rfl, first, second⟩ := ih others
          exact ⟨_ :: front, back, rfl, .separator kind first, second⟩

theorem map_node (traces : Traces (nodes.map .node) tokens) :
    Trace (Node.marksOfAll nodes) tokens := by
  induction nodes generalizing tokens with
  | nil =>
      cases traces
      trivial
  | cons node nodes ih =>
      cases traces with
      | node trace others => exact trace.append (ih others)

end Part.Traces

namespace Node

variable {wordStop start : Int} {word : List Part} {tokens : List Token} {children nodes : List Node}

/-- The first alternative starts where the alternatives do. -/
theorem ReadsAlternatives.exists_cons (reads : ReadsAlternatives wordStop start word children) :
    ∃ first rest, children = first :: rest ∧ first.start = start := by
  cases reads with
  | last nodes forward => exact ⟨_, _, rfl, rfl⟩
  | next nodes forward others => exact ⟨_, _, rfl, rfl⟩

theorem ReadsAlternatives.trace (reads : ReadsAlternatives wordStop start word children)
    (traces : Part.Traces word tokens) : Trace (marksOfAlternatives children) tokens := by
  induction reads generalizing tokens with
  | last nodes forward => exact traces.map_node
  | next nodes forward others ih =>
      obtain ⟨front, back, rfl, first, second⟩ := traces.of_append
      cases second with
      | separator kind remaining =>
          have rest := ih remaining
          obtain ⟨next, more, rfl, start⟩ := others.exists_cons
          exact first.map_node.append ⟨⟨kind, rfl, start.symm⟩, trivial, rest⟩

theorem trace_ofWord (made : ofWord word = .ok nodes) (traces : Part.Traces word tokens) :
    Trace (marksOfAll nodes) tokens := by
  cases separated : word.any Part.isSeparator with
  | false =>
      obtain ⟨others, rfl⟩ := exists_nodes separated
      rw [ofWord_map_node] at made
      cases made
      exact traces.map_node
  | true =>
      obtain ⟨first, rest, rfl⟩ : ∃ first rest, word = first :: rest :=
        List.exists_cons_of_ne_nil (by rintro rfl; cases separated)
      obtain ⟨children, rfl, -, reads⟩ := (ofWord_eq_ok_iff separated).mp made
      have trace := reads.trace traces
      rw [marksOfAll, marksOfAll, List.append_nil]
      exact trace

end Node

/-- The tokens that items stand for. -/
inductive Item.Traces : List Item → List Token → Prop
  | nil : Traces [] []
  | part {piece : Part} {own rest : List Token} {items : List Item}
      (traces : Part.Traces [piece] own) (others : Traces items rest) :
      Traces (.part piece :: items) (own ++ rest)
  | space {token : Token} {rest : List Token} {items : List Item} (others : Traces items rest) :
      Traces (.space token :: items) (token :: rest)

theorem Item.Traces.node {child : Node} {own rest : List Token} {items : List Item}
    (trace : Trace child.marks own) (others : Traces items rest) :
    Traces (.part (.node child) :: items) (own ++ rest) := by
  have single : Part.Traces [.node child] (own ++ []) := .node trace .nil
  rw [List.append_nil] at single
  exact .part single others

theorem Item.Traces.bracket {node : Node} {opener closer : Token} {content rest : List Token}
    {items : List Item} (trace : Trace node.marks (opener :: (content ++ [closer])))
    (others : Traces items rest) :
    Traces (.part (.node node) :: items) (opener :: (content ++ closer :: rest)) := by
  have whole := Item.Traces.node trace others
  rw [List.cons_append, List.append_assoc] at whole
  exact whole

theorem Item.Reads.traces {tokens : List Token} {items : List Item} (reads : Reads tokens items) :
    Traces items tokens := by
  induction reads with
  | nil => exact .nil
  | leaf plain valid others ih => exact .node (.leaf _) ih
  | space kind others ih => exact .space ih
  | separator kind others ih => exact .part (.separator kind .nil) ih
  | parameter brackets valid forward others ih =>
      exact .bracket (.bracket _ rfl brackets rfl rfl (.map_leaf _)) ih
  | optional brackets reads forward others ih =>
      exact .bracket (.bracket _ rfl brackets rfl rfl reads.trace) ih

theorem Node.trace_ofItems {word : List Part} {items : List Item} {front rest : List Token}
    {nodes : List Node} (made : ofItems word items = .ok nodes) (wordTraces : Part.Traces word front)
    (traces : Item.Traces items rest) : Trace (marksOfAll nodes) (front ++ rest) := by
  induction traces generalizing word front nodes with
  | nil =>
      rw [List.append_nil]
      exact trace_ofWord made wordTraces
  | part single others ih =>
      rw [← List.append_assoc]
      exact ih made (wordTraces.append single)
  | space others ih =>
      obtain ⟨before, after, first, -, tail, rfl⟩ := ofItems_space_eq_ok_iff.mp made
      rw [marksOfAll_append]
      exact (trace_ofWord first wordTraces).append ((Trace.leaf _).append (ih tail .nil))

/-- The tokens between the first and the last are those that the marks of the tree stand for, one by
one and in order. -/
theorem trace_of_ofTokens {expression : Text} {tokens : List Token} {tree : Node}
    (read : Node.ofTokens expression tokens = .ok tree) :
    ∃ first inner last, tokens = first :: (inner ++ [last]) ∧
      tree.kind = .branch .expression ∧ tree.start = first.start ∧ tree.stop = last.stop ∧
      tree.marks.length = inner.length ∧ Trace tree.marks inner := by
  obtain ⟨first, inner, last, items, children, rfl, -, -, reads, made, -, rfl⟩ :=
    Node.ofTokens_eq_ok_iff.mp read
  have trace : Trace (Node.marksOfAll children) inner := Node.trace_ofItems made .nil reads.traces
  exact ⟨first, inner, last, rfl, rfl, rfl, rfl, trace.length_eq, trace⟩

/-- A stray line marker and an opening delimiter of another kind are leaves, whatever their texts and
offsets, and the optional stops where its closing token does. -/
theorem trace_of_ofTokens_of_stray_marker :
    ∃ tree, Node.ofTokens "" [⟨.lineStart, "", 5, 5⟩, ⟨.optionalOpen, "[", 7, 7⟩,
        ⟨.lineEnd, "", 3, 9⟩, ⟨.parameterOpen, "", 2, 2⟩, ⟨.optionalOpen, "(", 4, 4⟩,
        ⟨.parameterClose, "", 0, 2⟩, ⟨.optionalClose, "]", 0, 8⟩, ⟨.separator, "or", 8, 9⟩,
        ⟨.lineEnd, "", 9, 9⟩] = .ok tree ∧
      tree.descendant? [0, 0, 0] = some (.branch .optional 7 8
        [.leaf 3 9 "", .branch .parameter 2 2 [.leaf 4 4 "("]]) ∧
      tree.descendant? [0, 1] = some (.branch .alternative 9 9 []) ∧
      Trace tree.marks [⟨.optionalOpen, "[", 7, 7⟩, ⟨.lineEnd, "", 3, 9⟩, ⟨.parameterOpen, "", 2, 2⟩,
        ⟨.optionalOpen, "(", 4, 4⟩, ⟨.parameterClose, "", 0, 2⟩, ⟨.optionalClose, "]", 0, 8⟩,
        ⟨.separator, "or", 8, 9⟩] := by
  have read : Node.ofTokens "" [⟨.lineStart, "", 5, 5⟩, ⟨.optionalOpen, "[", 7, 7⟩,
      ⟨.lineEnd, "", 3, 9⟩, ⟨.parameterOpen, "", 2, 2⟩, ⟨.optionalOpen, "(", 4, 4⟩,
      ⟨.parameterClose, "", 0, 2⟩, ⟨.optionalClose, "]", 0, 8⟩, ⟨.separator, "or", 8, 9⟩,
      ⟨.lineEnd, "", 9, 9⟩] = .ok (.branch .expression 5 9 [.branch .alternation 7 9
        [.branch .alternative 7 8 [.branch .optional 7 8
            [.leaf 3 9 "", .branch .parameter 2 2 [.leaf 4 4 "("]]],
          .branch .alternative 9 9 []]]) := by
    decide +kernel
  obtain ⟨first, inner, last, same, -, -, -, -, trace⟩ := trace_of_ofTokens read
  have between := congrArg (fun tokens : List Token => tokens.tail.dropLast) same
  simp only [List.tail_cons, List.dropLast_concat] at between
  rw [← between] at trace
  exact ⟨_, read, rfl, rfl, trace⟩

end CucumberExpression
