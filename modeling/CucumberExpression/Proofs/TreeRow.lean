import CucumberExpression.Proofs.Canonical

namespace CucumberExpression.Node

/-! # Rows of trees

Nodes stand side by side as a canonical tree has them exactly when their tokens are a row. So every
node of a canonical tree has tokens that spell its source in its span. -/

variable {nodes : List Node} {start stop : Int}

/-- Nodes that take up some of the source tile a range, with seams between them, when their tokens
are a row in the range. -/
theorem row_flatMap_iff (solid : ∀ node ∈ nodes, node.Solid) :
    Token.Row start (nodes.flatMap tokens) stop ↔
      Tiled Node.start Node.stop start nodes stop ∧
        nodes.IsChain fun left right => Token.Seam left.tokens right.tokens := by
  induction nodes generalizing start with
  | nil =>
      constructor
      · exact fun row => ⟨row.tiled, .nil⟩
      · intro row
        obtain ⟨tiled, -⟩ := row
        obtain rfl : start = stop := tiled
        exact .nil
  | cons node rest ih =>
      have own := solid node (by simp)
      have others : ∀ other ∈ rest, other.Solid := fun other member => solid other (by simp [member])
      have head : (rest.flatMap tokens).head? = rest.head?.bind (·.tokens.head?) := by
        cases rest with
        | nil => rfl
        | cons next more =>
            obtain ⟨token, tail, split⟩ :=
              List.exists_cons_of_ne_nil (others next (by simp)).nonempty
            simp [split]
      have seams : Token.Seam node.tokens (rest.flatMap tokens) ↔
          ∀ next ∈ rest.head?, Token.Seam node.tokens next.tokens := by
        simp only [Token.Seam, head]
        cases rest <;> simp
      rw [List.flatMap_cons, Token.Row.append_iff, List.isChain_cons]
      constructor
      · intro split
        obtain ⟨middle, front, back, seam⟩ := split
        obtain rfl : node.start = start := own.sound.row.low_unique own.nonempty front
        obtain rfl : node.stop = middle := own.sound.row.tiled.high_unique front.tiled
        obtain ⟨tiled, chain⟩ := (ih others).mp back
        exact ⟨⟨rfl, tiled⟩, seams.mp seam, chain⟩
      · intro laid
        obtain ⟨⟨rfl, tiled⟩, seam, chain⟩ := laid
        exact ⟨_, own.sound.row, (ih others).mpr ⟨tiled, chain⟩, seams.mpr seam⟩

theorem written_flatMap (sound : ∀ node ∈ nodes, node.Sound) :
    (nodes.flatMap tokens).flatMap Token.spelling = nodes.flatMap source := by
  rw [List.flatMap_assoc]
  exact List.flatMap_congr fun node member => (sound node member).written

theorem apart_iff {left right : Node} (leftLeaf : (∃ kind, left.IsLeaf kind) ∨ left.Firm)
    (rightLeaf : (∃ kind, right.IsLeaf kind) ∨ right.Firm) :
    left.Apart right ↔ Token.Seam left.tokens right.tokens := by
  constructor
  · intro apart
    rcases leftLeaf with ⟨leftKind, leftLeaf⟩ | leftFirm
    · rcases rightLeaf with ⟨rightKind, rightLeaf⟩ | rightFirm
      · refine .of_ends leftLeaf.ends rightLeaf.ends ?_
        rintro kind rfl rfl
        cases kind with
        | text => exact absurd ⟨leftLeaf, rightLeaf⟩ apart.1
        | space => exact absurd ⟨leftLeaf, rightLeaf⟩ apart.2
        | _ => rfl
      · exact .of_first rightFirm.first
    · exact .of_last leftFirm.last
  · intro seam
    have different {kind : Token.Kind} (isRun : kind.isRun = true) :
        ¬ (left.IsLeaf kind ∧ right.IsLeaf kind) := by
      intro leaves
      obtain ⟨leftLeaf, rightLeaf⟩ := leaves
      obtain ⟨token, rfl, proper, rfl⟩ := exists_token leftLeaf
      obtain ⟨other, same, properOther, rfl⟩ := exists_token rightLeaf
      rw [tokens_leaf proper, tokens_leaf properOther] at seam
      exact seam token (by simp) other (by simp) ⟨same.symm, isRun⟩
    exact ⟨different rfl, different rfl⟩

section

variable {place : Place} {Inner : Node → Prop}

theorem Members.solid (members : Members place Inner nodes)
    (inner : ∀ node, Inner node → node.Solid) : ∀ node ∈ nodes, node.Solid := by
  intro node member
  rcases members node member with ⟨kind, -, isLeaf⟩ | isInner
  · exact isLeaf.solid
  · exact inner node isInner

/-- Siblings are what has a row of tokens, if the nodes are apart where their tokens are. -/
theorem siblings_iff_of_chains (inner : ∀ node, Inner node → node.Solid)
    (chains : Members place Inner nodes → (nodes.IsChain Apart ↔
      nodes.IsChain fun left right => Token.Seam left.tokens right.tokens)) :
    Siblings place Inner start stop nodes ↔
      Members place Inner nodes ∧ Token.Row start (nodes.flatMap tokens) stop := by
  constructor
  · intro siblings
    obtain ⟨members, apart, tiled⟩ := siblings
    have seams := (chains members).mp apart
    exact ⟨members, (row_flatMap_iff (Members.solid members inner)).mpr ⟨tiled, seams⟩⟩
  · intro described
    obtain ⟨members, row⟩ := described
    obtain ⟨tiled, seams⟩ := (row_flatMap_iff (members.solid inner)).mp row
    exact ⟨members, (chains members).mpr seams, tiled⟩

theorem siblings_iff (inner : ∀ node, Inner node → node.Solid ∧ node.Firm) :
    Siblings place Inner start stop nodes ↔
      Members place Inner nodes ∧ Token.Row start (nodes.flatMap tokens) stop := by
  apply siblings_iff_of_chains (fun node isInner => (inner node isInner).1) fun members => ?_
  have leafOrFirm : ∀ node ∈ nodes, (∃ kind, node.IsLeaf kind) ∨ node.Firm := by
    intro node member
    rcases members node member with ⟨kind, -, isLeaf⟩ | isInner
    · exact .inl ⟨kind, isLeaf⟩
    · exact .inr (inner node isInner).2
  exact List.IsChain.iff_of_mem_imp fun left right leftMember rightMember =>
    apart_iff (leafOrFirm left leftMember) (leafOrFirm right rightMember)

theorem Siblings.spells (inner : ∀ node, Inner node → node.Solid ∧ node.Firm)
    (siblings : Siblings place Inner start stop nodes) :
    Token.Spells start (nodes.flatMap tokens) stop (nodes.flatMap source) := by
  obtain ⟨members, row⟩ := (siblings_iff inner).mp siblings
  refine ⟨row, written_flatMap fun node member => ?_⟩
  exact (Members.solid members (fun node isInner => (inner node isInner).1) node member).sound

end

section

variable {kind opening closing : Token.Kind} {symbol openSymbol closeSymbol : Char} {text : Text}
  {inner : List Token}

theorem spells_delimiter (written : kind.symbol? = some symbol) (start : Int) :
    Token.Spells start [delimiter kind start] (start + 1) [.char symbol] := by
  have proper : (delimiter kind start).Proper := by
    cases kind <;> cases written <;> exact ⟨⟨_, rfl, rfl⟩, rfl⟩
  refine ⟨.singleton proper, ?_⟩
  cases kind <;> cases written <;> rfl

theorem eq_delimiter {token : Token} (proper : token.Proper)
    (written : token.kind.symbol? = some symbol) : token = delimiter token.kind token.start := by
  obtain ⟨kind, content, start, stop⟩ := token
  obtain ⟨fits, width⟩ := proper
  have single : kind.symbol?.toList.map CodePoint.char = content := by
    cases kind <;> cases written <;> obtain ⟨_, same, rfl⟩ := fits <;> cases same <;> rfl
  have one : ((Token.spelling ⟨kind, content, start, stop⟩).length : Int) = 1 := by
    rw [← single]
    cases kind <;> cases written <;> rfl
  simp only at width
  rw [delimiter, single, width, one]

theorem spelling_of_symbol {token : Token} (proper : token.Proper)
    (written : token.kind.symbol? = some symbol) : token.spelling = [.char symbol] := by
  have spelled := (spells_delimiter written token.start).written
  rw [← eq_delimiter proper written, List.flatMap_singleton] at spelled
  exact spelled

theorem ends_delimiter (written : kind.symbol? = some symbol) (start : Int) :
    Token.EndsIn (fun kind => kind.isRun = false) [delimiter kind start] := by
  refine .singleton ?_
  cases kind <;> cases written <;> rfl

theorem spells_brackets (opens : opening.symbol? = some openSymbol)
    (closes : closing.symbol? = some closeSymbol)
    (spells : Token.Spells (start + 1) inner (stop - 1) text) :
    Token.Spells start (delimiter opening start :: (inner ++ [delimiter closing (stop - 1)])) stop
      (.char openSymbol :: text ++ [.char closeSymbol]) := by
  have back := spells.append (spells_delimiter closes (stop - 1))
    (.of_first (ends_delimiter closes (stop - 1)).first)
  have whole := (spells_delimiter opens start).append back
    (.of_last (ends_delimiter opens start).last)
  rw [Int.sub_add_cancel] at whole
  exact whole

theorem ends_brackets (opens : opening.symbol? = some openSymbol)
    (closes : closing.symbol? = some closeSymbol) :
    Token.EndsIn (fun kind => kind.isRun = false)
      (delimiter opening start :: (inner ++ [delimiter closing (stop - 1)])) := by
  have front := (ends_delimiter opens start).first
  have back := (ends_delimiter closes (stop - 1)).last
  refine ⟨by simpa using front, ?_⟩
  rw [← List.cons_append, List.getLast?_append]
  simpa using back

end

theorem IsParameter.solid_firm {place : Place} {node : Node} (isParameter : node.IsParameter place) :
    node.Solid ∧ node.Firm := by
  obtain _ | ⟨_ | _ | _ | _ | _, start, stop, children⟩ := node <;> try exact isParameter.elim
  have spells := Siblings.spells (fun node impossible => impossible.elim) isParameter
  rw [← tokensOfAll_eq_flatMap, ← sourceOfAll_eq_flatMap] at spells
  exact ⟨⟨spells_brackets rfl rfl spells, List.cons_ne_nil _ _⟩, ends_brackets rfl rfl⟩

theorem IsOptional.solid_firm {node : Node} (isOptional : node.IsOptional) :
    node.Solid ∧ node.Firm := by
  obtain _ | ⟨_ | _ | _ | _ | _, start, stop, children⟩ := node <;> try exact isOptional.elim
  have spells := Siblings.spells (fun node => IsParameter.solid_firm) isOptional
  rw [← tokensOfAll_eq_flatMap, ← sourceOfAll_eq_flatMap] at spells
  exact ⟨⟨spells_brackets rfl rfl spells, List.cons_ne_nil _ _⟩, ends_brackets rfl rfl⟩

theorem IsBracket.solid_firm {node : Node} (isBracket : node.IsBracket) :
    node.Solid ∧ node.Firm := by
  rcases isBracket with isOptional | isParameter
  · exact isOptional.solid_firm
  · exact isParameter.solid_firm

/-- An alternative may be empty, and has no white space at its ends. -/
theorem IsAlternative.sound_ends {node : Node} (isAlternative : node.IsAlternative) :
    node.Sound ∧ Token.EndsIn (· ≠ .space) node.tokens := by
  obtain _ | ⟨_ | _ | _ | _ | _, start, stop, children⟩ := node <;> try exact isAlternative.elim
  have spells := Siblings.spells (fun node => IsBracket.solid_firm) isAlternative
  rw [← tokensOfAll_eq_flatMap, ← sourceOfAll_eq_flatMap] at spells
  refine ⟨spells, ?_⟩
  rw [tokens, tokensOfAll_eq_flatMap]
  refine .flatMap fun node member => ?_
  rcases Siblings.members isAlternative node member with ⟨kind, held, isLeaf⟩ | isBracket
  · apply isLeaf.ends.mono
    rintro _ rfl rfl
    simp [Place.leaves] at held
  · apply isBracket.solid_firm.2.mono
    rintro _ firm rfl
    cases firm

theorem spells_alternatives {first : Node} {rest : List Node}
    (each : ∀ child ∈ first :: rest, child.IsAlternative)
    (tiled : Tiled Node.start (·.stop + 1) start (first :: rest) (stop + 1)) :
    Token.Spells start (tokensOfAlternatives (first :: rest)) stop
        (sourceOfAlternatives (first :: rest)) ∧
      Token.EndsIn (· ≠ .space) (tokensOfAlternatives (first :: rest)) := by
  induction rest generalizing start first with
  | nil =>
      obtain ⟨sound, ends⟩ := (each first (by simp)).sound_ends
      obtain ⟨rfl, last⟩ := tiled
      obtain rfl : first.stop = stop := by simpa [Tiled] using last
      exact ⟨sound, ends⟩
  | cons second rest ih =>
      obtain ⟨sound, ends⟩ := (each first (by simp)).sound_ends
      obtain ⟨rfl, tail⟩ := tiled
      obtain ⟨others, othersEnds⟩ := ih (fun child member => each child (by simp [member])) tail
      have separator : Token.Kind.separator.symbol? = some '/' := rfl
      have firm := ends_delimiter separator first.stop
      have back := (spells_delimiter separator first.stop).append others (.of_last firm.last)
      refine ⟨sound.append back (.of_first (by simpa using firm.first)), ends.append ?_⟩
      rw [← List.singleton_append]
      refine .append (firm.mono ?_) othersEnds
      rintro _ firm rfl
      cases firm

theorem IsAlternation.solid_ends {node : Node} (isAlternation : node.IsAlternation) :
    node.Solid ∧ Token.EndsIn (· ≠ .space) node.tokens := by
  obtain _ | ⟨_ | _ | _ | _ | _, start, stop, children⟩ := node <;> try exact isAlternation.elim
  obtain ⟨several, each, tiled⟩ := isAlternation
  obtain _ | ⟨first, _ | ⟨second, rest⟩⟩ := children <;> try simp at several
  obtain ⟨spells, ends⟩ := spells_alternatives each tiled
  refine ⟨⟨spells, ?_⟩, ends⟩
  simp [tokens, tokensOfAlternatives]

theorem IsAlternation.not_isLeaf {node : Node} (isAlternation : node.IsAlternation)
    (kind : Token.Kind) : ¬ node.IsLeaf kind := by
  intro isLeaf
  cases node with
  | leaf start stop content => exact isAlternation.elim
  | branch shape start stop children => exact isLeaf.elim

theorem IsRootBranch.solid {node : Node} (isBranch : node.IsRootBranch) : node.Solid := by
  rcases isBranch with isBracket | isAlternation
  · exact isBracket.solid_firm.1
  · exact isAlternation.solid_ends.1

theorem Bounded.apart_iff {left right : Node} (bounded : left.Bounded right)
    (leftMember : (∃ kind ∈ Place.root.leaves, left.IsLeaf kind) ∨ left.IsRootBranch)
    (rightMember : (∃ kind ∈ Place.root.leaves, right.IsLeaf kind) ∨ right.IsRootBranch) :
    left.Apart right ↔ Token.Seam left.tokens right.tokens := by
  have different : ∀ kind : Token.Kind, kind ≠ .space → kind = .space → kind.isRun = false :=
    fun kind visible blank => absurd blank visible
  by_cases leftAlternation : left.IsAlternation
  · have apart : left.Apart right :=
      ⟨fun both => leftAlternation.not_isLeaf _ both.1,
        fun both => leftAlternation.not_isLeaf _ both.1⟩
    have seam := Token.Seam.of_ends leftAlternation.solid_ends.2
      (bounded.1 leftAlternation).ends different
    exact iff_of_true apart seam
  by_cases rightAlternation : right.IsAlternation
  · have apart : left.Apart right :=
      ⟨fun both => rightAlternation.not_isLeaf _ both.2,
        fun both => rightAlternation.not_isLeaf _ both.2⟩
    have seam := Token.Seam.of_ends (bounded.2 rightAlternation).ends
      rightAlternation.solid_ends.2 fun kind blank visible => different kind visible blank
    exact iff_of_true apart seam
  have leafOrFirm {node : Node} (single : ¬ node.IsAlternation)
      (member : (∃ kind ∈ Place.root.leaves, node.IsLeaf kind) ∨ node.IsRootBranch) :
      (∃ kind, node.IsLeaf kind) ∨ node.Firm := by
    rcases member with ⟨kind, -, isLeaf⟩ | isBracket | isAlternation
    · exact .inl ⟨kind, isLeaf⟩
    · exact .inr isBracket.solid_firm.2
    · exact absurd isAlternation single
  exact Node.apart_iff (leafOrFirm leftAlternation leftMember)
    (leafOrFirm rightAlternation rightMember)

theorem isCanonical_iff : (branch .expression start stop nodes).IsCanonical ↔
    start = 0 ∧ Members .root IsRootBranch nodes ∧ nodes.IsChain Bounded ∧
      Token.Row 0 (nodes.flatMap tokens) stop := by
  have siblings (bounded : nodes.IsChain Bounded) :
      Siblings .root IsRootBranch 0 stop nodes ↔
        Members .root IsRootBranch nodes ∧ Token.Row 0 (nodes.flatMap tokens) stop := by
    -- An alternation is not firm, so the nodes next to it have to be looked at as well.
    apply siblings_iff_of_chains (fun node => IsRootBranch.solid) fun members => ?_
    have pair := List.isChain_iff_forall_rel_of_append_cons_cons.mp bounded
    simp only [List.isChain_iff_forall_rel_of_append_cons_cons]
    refine ⟨fun apart left right before after split => ?_,
      fun seams left right before after split => ?_⟩
    · exact ((pair split).apart_iff (members left (by simp [split]))
        (members right (by simp [split]))).mp (apart split)
    · exact ((pair split).apart_iff (members left (by simp [split]))
        (members right (by simp [split]))).mpr (seams split)
  constructor
  · intro canonical
    obtain ⟨rfl, side, bounded⟩ := canonical
    obtain ⟨members, row⟩ := (siblings bounded).mp side
    exact ⟨rfl, members, bounded, row⟩
  · intro described
    obtain ⟨rfl, members, bounded, row⟩ := described
    exact ⟨rfl, (siblings bounded).mpr ⟨members, row⟩, bounded⟩

/-- The tokens of a canonical tree spell its source. -/
theorem IsCanonical.spells {node : Node} (canonical : node.IsCanonical) :
    ∃ children, node = .branch .expression 0 node.stop children ∧
      Token.Spells 0 node.tokens node.stop node.source := by
  obtain _ | ⟨_ | _ | _ | _ | _, start, stop, children⟩ := node <;> try exact canonical.elim
  obtain ⟨rfl, members, bounded, row⟩ := isCanonical_iff.mp canonical
  refine ⟨children, rfl, ?_, ?_⟩
  · rw [tokens, tokensOfAll_eq_flatMap]
    exact row
  · rw [tokens, tokensOfAll_eq_flatMap, source, sourceOfAll_eq_flatMap]
    exact written_flatMap fun node member =>
      (members.solid (fun node => IsRootBranch.solid) node member).sound

end CucumberExpression.Node
