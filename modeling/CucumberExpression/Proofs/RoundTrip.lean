import CucumberExpression.Proofs.Rereading
import CucumberExpression.Proofs.Trees

namespace CucumberExpression

/-! # Round trips

An expression that can be read and its tree tell each other. Every node of the tree stands in the
expression where its span says, so its source is what the expression has there. -/

def Text.slice (text : Text) (start stop : Int) : Text :=
  (text.take stop.toNat).drop start.toNat

theorem Text.slice_append (before middle after : Text) :
    slice (before ++ (middle ++ after)) before.length (before.length + middle.length) = middle := by
  have front : ((before.length : Int) + middle.length).toNat = before.length + middle.length := by
    omega
  rw [slice, front, Int.toNat_natCast, List.take_length_add_append, List.drop_left, List.take_left]

/-- Reading an expression gives the canonical tree that the expression is the source of. -/
theorem parse_eq_ok_iff_isCanonical {expression : Text} {node : Node} :
    parse expression = .ok node ↔ node.IsCanonical ∧ node.source = expression := by
  constructor
  · exact canonical_of_parse
  · intro described
    obtain ⟨canonical, rfl⟩ := described
    exact parse_source canonical

namespace Node

/-- Whether the source of a node stands in an expression where the span of the node says. -/
def Located (expression : Text) (node : Node) : Prop :=
  ∃ before after, expression = before ++ (node.source ++ after) ∧ node.start = before.length ∧
    node.stop = before.length + node.source.length

variable {expression before after : Text} {node child : Node} {nodes : List Node}
  {start stop : Int}

theorem Located.slice (located : node.Located expression) :
    0 ≤ node.start ∧ node.start ≤ node.stop ∧ node.stop ≤ expression.length ∧
      expression.slice node.start node.stop = node.source := by
  obtain ⟨before, after, rfl, start, stop⟩ := located
  rw [start, stop, List.length_append, List.length_append]
  exact ⟨by omega, by omega, by omega, Text.slice_append before node.source after⟩

theorem Sound.located (sound : node.Sound) {before : Text} (start : node.start = before.length)
    (after : Text) : node.Located (before ++ (node.source ++ after)) :=
  ⟨before, after, rfl, start, by rw [sound.high_eq, start]⟩

theorem located_of_tiled (sound : ∀ node ∈ nodes, node.Sound)
    (tiled : Tiled Node.start Node.stop before.length nodes stop) (after : Text) :
    ∀ node ∈ nodes, node.Located (before ++ (nodes.flatMap source ++ after)) := by
  induction nodes generalizing before with
  | nil => simp
  | cons first rest ih =>
      obtain ⟨own, others⟩ := List.forall_mem_cons.mp sound
      obtain ⟨head, tail⟩ := tiled
      rw [List.flatMap_cons, List.append_assoc]
      refine List.forall_mem_cons.mpr ⟨own.located head _, ?_⟩
      have next : first.stop = (before ++ first.source).length := by
        rw [own.high_eq, head, List.length_append, Int.natCast_add]
      rw [next] at tail
      rw [← List.append_assoc before]
      exact ih others tail

theorem located_of_alternatives {first : Node} {rest : List Node}
    (sound : ∀ node ∈ first :: rest, node.Sound)
    (tiled : Tiled Node.start (·.stop + 1) before.length (first :: rest) stop) (after : Text) :
    ∀ node ∈ first :: rest,
      node.Located (before ++ (sourceOfAlternatives (first :: rest) ++ after)) := by
  induction rest generalizing before first with
  | nil =>
      obtain ⟨own, -⟩ := List.forall_mem_cons.mp sound
      exact List.forall_mem_singleton.mpr (own.located tiled.1 after)
  | cons second rest ih =>
      obtain ⟨own, others⟩ := List.forall_mem_cons.mp sound
      obtain ⟨head, tail⟩ := tiled
      have written : before ++ (sourceOfAlternatives (first :: second :: rest) ++ after) =
          before ++ (first.source ++
            (.char '/' :: (sourceOfAlternatives (second :: rest) ++ after))) := by
        simp [sourceOfAlternatives]
      have next : first.stop + 1 = (before ++ (first.source ++ [CodePoint.char '/'])).length := by
        rw [own.high_eq, head, List.length_append, List.length_append, List.length_singleton]
        omega
      replace tail : Tiled Node.start (·.stop + 1) (first.stop + 1) (second :: rest) stop := tail
      rw [next] at tail
      rw [written]
      refine List.forall_mem_cons.mpr ⟨own.located head _, ?_⟩
      have there := ih others tail
      simpa using there

inductive IsShaped (node : Node) : Prop
  | leaf {kind : Token.Kind} (isLeaf : node.IsLeaf kind)
  | parameter {place : Place} (isParameter : node.IsParameter place)
  | optional (isOptional : node.IsOptional)
  | alternative (isAlternative : node.IsAlternative)
  | alternation (isAlternation : node.IsAlternation)
  | root (canonical : node.IsCanonical)

theorem IsShaped.sound (shaped : node.IsShaped) : node.Sound := by
  cases shaped with
  | leaf isLeaf => exact isLeaf.solid.sound
  | parameter isParameter => exact isParameter.solid_firm.1.sound
  | optional isOptional => exact isOptional.solid_firm.1.sound
  | alternative isAlternative => exact isAlternative.sound_ends.1
  | alternation isAlternation => exact isAlternation.solid_ends.1.sound
  | root canonical =>
      obtain ⟨children, same, spells⟩ := canonical.spells
      rw [Sound, same]
      rw [same] at spells
      exact spells

/-- The children of a node stand side by side behind what its source opens with. -/
theorem Located.of_siblings {place : Place} {Inner : Node → Prop}
    (located : node.Located expression) (opening closing : Text)
    (written : node.source = opening ++ (nodes.flatMap source ++ closing))
    (siblings : Siblings place Inner (node.start + opening.length) stop nodes)
    (solid : ∀ node, Inner node → node.Solid) :
    ∀ child ∈ nodes, child.Located expression := by
  obtain ⟨before, after, rfl, start, -⟩ := located
  have split : before ++ (node.source ++ after) =
      (before ++ opening) ++ (nodes.flatMap source ++ (closing ++ after)) := by
    simp [written]
  have tiled := siblings.tiled
  rw [start, ← Int.natCast_add, ← List.length_append] at tiled
  rw [split]
  exact located_of_tiled (fun node member => (siblings.members.solid solid node member).sound)
    tiled _

theorem IsBracket.isShaped (isBracket : node.IsBracket) : node.IsShaped := by
  rcases isBracket with isOptional | isParameter
  · exact .optional isOptional
  · exact .parameter isParameter

theorem IsRootBranch.isShaped (isBranch : node.IsRootBranch) : node.IsShaped := by
  rcases isBranch with isBracket | isAlternation
  · exact isBracket.isShaped
  · exact .alternation isAlternation

theorem Members.isShaped {place : Place} {Inner : Node → Prop} (members : Members place Inner nodes)
    (inner : ∀ node, Inner node → node.IsShaped) (member : child ∈ nodes) : child.IsShaped := by
  rcases members child member with ⟨kind, -, isLeaf⟩ | isInner
  · exact .leaf isLeaf
  · exact inner child isInner

theorem Siblings.shaped_located {place : Place} {Inner : Node → Prop} {opening : Text}
    (siblings : Siblings place Inner (node.start + opening.length) stop nodes) (closing : Text)
    (written : node.source = opening ++ (nodes.flatMap source ++ closing))
    (inner : ∀ node, Inner node → node.IsShaped ∧ node.Solid) (member : child ∈ nodes) :
    child.IsShaped ∧ (node.Located expression → child.Located expression) := by
  constructor
  · exact siblings.members.isShaped (fun node isInner => (inner node isInner).1) member
  · intro located
    exact located.of_siblings opening closing written siblings
      (fun node isInner => (inner node isInner).2) child member

theorem IsAlternation.shaped_located {start : Int}
    (isAlternation : (branch .alternation start stop nodes).IsAlternation) (member : child ∈ nodes) :
    child.IsShaped ∧
      ((branch .alternation start stop nodes).Located expression → child.Located expression) := by
  obtain ⟨several, each, tiled⟩ := isAlternation
  refine ⟨.alternative (each child member), ?_⟩
  intro located
  obtain ⟨before, after, rfl, begins, -⟩ := located
  obtain rfl : start = before.length := begins
  obtain _ | ⟨first, rest⟩ := nodes
  · cases member
  exact located_of_alternatives (fun node member => (each node member).sound_ends.1) tiled
    after child member

/-- What is below a node of a canonical tree stands where its span says, if the node does. -/
theorem IsShaped.of_mem (shaped : node.IsShaped) (member : child ∈ node.children) :
    child.IsShaped ∧ (node.Located expression → child.Located expression) := by
  obtain _ | ⟨shape, start, stop, children⟩ := node
  · cases member
  replace member : child ∈ children := member
  cases shaped with
  | leaf isLeaf => exact isLeaf.elim
  | @parameter place isParameter =>
      obtain _ | _ | _ | _ | _ := shape <;> try exact isParameter.elim
      have siblings : Siblings place (fun _ => False) (start + ([.char '{'] : Text).length)
        (stop - 1) children := isParameter
      apply siblings.shaped_located [.char '}'] _ (fun _ impossible => impossible.elim) member
      simp [source, sourceOfAll_eq_flatMap]
  | optional isOptional =>
      obtain _ | _ | _ | _ | _ := shape <;> try exact isOptional.elim
      have siblings : Siblings .optional (IsParameter .innerParameter)
        (start + ([.char '('] : Text).length) (stop - 1) children := isOptional
      apply siblings.shaped_located [.char ')'] _
        (fun _ isParameter => ⟨.parameter isParameter, isParameter.solid_firm.1⟩) member
      simp [source, sourceOfAll_eq_flatMap]
  | alternative isAlternative =>
      obtain _ | _ | _ | _ | _ := shape <;> try exact isAlternative.elim
      have siblings : Siblings .alternative IsBracket (start + ([] : Text).length) stop
          children := by
        rw [List.length_nil, Int.natCast_zero, Int.add_zero]
        exact isAlternative
      apply siblings.shaped_located [] _
        (fun _ isBracket => ⟨isBracket.isShaped, isBracket.solid_firm.1⟩) member
      simp [source, sourceOfAll_eq_flatMap]
  | alternation isAlternation =>
      obtain _ | _ | _ | _ | _ := shape <;> try exact isAlternation.elim
      exact isAlternation.shaped_located member
  | root canonical =>
      obtain _ | _ | _ | _ | _ := shape <;> try exact canonical.elim
      obtain ⟨rfl, siblings, -⟩ := canonical
      have siblings : Siblings .root IsRootBranch (0 + ([] : Text).length) stop children := siblings
      apply siblings.shaped_located [] _ (fun _ isBranch => ⟨isBranch.isShaped, isBranch.solid⟩)
        member
      simp [source, sourceOfAll_eq_flatMap]

theorem IsShaped.descendant (shaped : node.IsShaped) (located : node.Located expression)
    {path : List Nat} {below : Node} (found : node.descendant? path = some below) :
    below.Located expression := by
  have both : below.IsShaped ∧ below.Located expression := by
    apply descendant_induction (motive := fun node => node.IsShaped ∧ node.Located expression)
      ⟨shaped, located⟩ ?_ found
    rintro node child ⟨shaped, located⟩ member
    obtain ⟨childShaped, step⟩ := shaped.of_mem member
    exact ⟨childShaped, step located⟩
  exact both.2

end Node

/-- Every node of a tree covers its own source, the root all of the expression, and no other
expression has the same tree. -/
theorem slice_eq_source {expression : Text} {node : Node} (parsed : parse expression = .ok node) :
    (∀ path below, node.descendant? path = some below →
      0 ≤ below.start ∧ below.start ≤ below.stop ∧ below.stop ≤ expression.length ∧
        expression.slice below.start below.stop = below.source) ∧
      node.source = expression ∧ ∀ other, parse other = .ok node → other = expression := by
  obtain ⟨canonical, rfl⟩ := canonical_of_parse parsed
  refine ⟨?_, rfl, fun other same => (canonical_of_parse same).2.symm⟩
  intro path below found
  have shaped : node.IsShaped := .root canonical
  have located : node.Located node.source := by
    have start : node.start = ([] : Text).length := by
      obtain ⟨children, same, -⟩ := canonical.spells
      rw [same]
      rfl
    have whole := shaped.sound.located start []
    simpa using whole
  exact (shaped.descendant located found).slice

theorem slice_eq_source_of_escaped_separator :
    ∃ node, parse "a\\/b//(c\x7bd\x7d)" = .ok node ∧
      node.descendant? [0, 0, 0] = some (.leaf 0 4 "a/b") ∧
      node.descendant? [0, 2, 0, 1] = some (.branch .parameter 8 11 [.leaf 9 10 "d"]) ∧
      Text.slice "a\\/b//(c\x7bd\x7d)" 0 4 = (Node.leaf 0 4 "a/b").source ∧
      Text.slice "a\\/b//(c\x7bd\x7d)" 8 11 =
        (Node.branch .parameter 8 11 [.leaf 9 10 "d"]).source := by
  have parsed : parse "a\\/b//(c\x7bd\x7d)" = .ok (.branch .expression 0 12
      [.branch .alternation 0 12
        [.branch .alternative 0 4 [.leaf 0 4 "a/b"], .branch .alternative 5 5 [],
          .branch .alternative 6 12
            [.branch .optional 6 12
              [.leaf 7 8 "c", .branch .parameter 8 11 [.leaf 9 10 "d"]]]]]) := by
    decide +kernel
  obtain ⟨slices, -, -⟩ := slice_eq_source parsed
  exact ⟨_, parsed, rfl, rfl, (slices [0, 0, 0] _ rfl).2.2.2, (slices [0, 2, 0, 1] _ rfl).2.2.2⟩

end CucumberExpression
