import CucumberExpression.Proofs.RoundTrip

namespace CucumberExpression

/-! # Plain text

What is made of text without reserved points is read as it looks: the text alone, with an optional
behind it, as a parameter, beside an alternative, or in escaped brackets. -/

/-- A text that is written as it is. -/
def Text.Plain (text : Text) : Prop :=
  ∀ point ∈ text, Token.isReserved point = false

/-- A text without white space. -/
def Text.Unbroken (text : Text) : Prop :=
  ∀ point ∈ text, Token.Kind.ofCodePoint point ≠ .space

instance : DecidablePred Text.Plain :=
  fun text => inferInstanceAs (Decidable (∀ point ∈ text, _))

instance : DecidablePred Text.Unbroken :=
  fun text => inferInstanceAs (Decidable (∀ point ∈ text, _))

theorem Text.Plain.unbroken {text : Text} (plain : text.Plain) : text.Unbroken := by
  intro point member
  rw [(Token.isReserved_eq_false (plain point member)).2]
  decide

theorem Text.Unbroken.append {left right : Text} (leftUnbroken : left.Unbroken)
    (rightUnbroken : right.Unbroken) : Text.Unbroken (left ++ right) :=
  List.forall_mem_append.mpr ⟨leftUnbroken, rightUnbroken⟩

theorem Token.Kind.Fits.blank {content : Text} (fits : Kind.space.Fits content)
    {point : CodePoint} (member : point ∈ content) : Kind.ofCodePoint point = .space :=
  ((Kind.fits_singleton.mp (fits.single member)).resolve_left nofun).symm

/-- A text that does not end with white space has no white space for its last token. -/
theorem Token.Spells.last_ne_space {tokens : List Token} {low high : Int} {text : Text}
    (spells : Spells low tokens high text)
    (visible : ∀ point ∈ text.getLast?, Kind.ofCodePoint point ≠ .space) :
    ∀ last ∈ tokens.getLast?, last.kind ≠ .space := by
  intro last member isSpace
  obtain ⟨init, rfl⟩ := List.getLast?_eq_some_iff.mp member
  have fits := (spells.row.proper last (by simp)).fits
  rw [isSpace] at fits
  obtain ⟨front, point, content⟩ := (List.eq_nil_or_concat last.text).resolve_left fits.ne_nil
  have written := spells.written
  rw [List.flatMap_append, List.flatMap_singleton, spelling, isSpace] at written
  simp only [content, List.concat_eq_append, ← List.append_assoc] at written
  rw [← written, List.getLast?_concat] at visible
  exact visible point rfl (fits.blank (by simp [content]))

theorem Text.Plain.countP_isReserved {text : Text} (plain : text.Plain) :
    text.countP Token.isReserved = 0 := by
  rw [List.countP_eq_zero]
  exact fun point member => by simp [plain point member]

namespace Node

variable {text other : Text} {start stop : Int}

theorem not_blank_of_unbroken (unbroken : text.Unbroken) : ¬ (leaf start stop text).IsLeaf .space := by
  rintro ⟨fits, -⟩
  obtain ⟨point, rest, rfl⟩ := List.exists_cons_of_ne_nil fits.ne_nil
  exact unbroken point List.mem_cons_self (fits.blank List.mem_cons_self)

theorem isLeaf_of_plain (plain : text.Plain) (nonempty : text ≠ [])
    (width : stop - start = text.length) : (leaf start stop text).IsLeaf .text := by
  refine ⟨nonempty, ?_⟩
  rw [if_pos rfl, plain.countP_isReserved, width]
  rfl

theorem siblings_leaf {place : Place} {Inner : Node → Prop} {high : Int}
    (allowed : .text ∈ place.leaves) (isLeaf : (leaf start stop text).IsLeaf .text)
    (ends : stop = high) : Siblings place Inner start high [.leaf start stop text] :=
  ⟨List.forall_mem_singleton.mpr (.inl ⟨.text, allowed, isLeaf⟩), .singleton _, rfl, ends⟩

/-- An expression that is one node. -/
theorem parse_single {node : Node} (start : node.start = 0)
    (member : (∃ kind ∈ Place.root.leaves, node.IsLeaf kind) ∨ node.IsRootBranch)
    (written : node.source = text) : parse text = .ok (.branch .expression 0 node.stop [node]) := by
  refine parse_eq_ok_iff_isCanonical.mpr ⟨⟨rfl, ⟨?_, .singleton _, start, rfl⟩, .singleton _⟩, ?_⟩
  · exact List.forall_mem_singleton.mpr member
  · rw [source, sourceOfAll, sourceOfAll, List.append_nil, written]

theorem parse_plain (plain : text.Plain) (nonempty : text ≠ []) :
    parse text = .ok (.branch .expression 0 text.length [.leaf 0 text.length text]) := by
  have isLeaf := isLeaf_of_plain plain nonempty (Int.sub_zero text.length)
  exact parse_single rfl (.inl ⟨.text, by decide, isLeaf⟩) (by simp [source])

theorem parse_optional (plain : text.Plain) (nonempty : text ≠ []) (otherPlain : other.Plain)
    (otherNonempty : other ≠ []) :
    parse (text ++ .char '(' :: (other ++ [.char ')'])) =
      .ok (.branch .expression 0 (text.length + other.length + 2)
        [.leaf 0 text.length text, .branch .optional text.length (text.length + other.length + 2)
          [.leaf (text.length + 1) (text.length + other.length + 1) other]]) := by
  have isLeaf := isLeaf_of_plain plain nonempty (Int.sub_zero text.length)
  have inner : (leaf (text.length + 1) (text.length + other.length + 1) other).IsLeaf .text :=
    isLeaf_of_plain otherPlain otherNonempty (by omega)
  have isOptional : IsOptional (.branch .optional text.length (text.length + other.length + 2)
      [.leaf (text.length + 1) (text.length + other.length + 1) other]) :=
    siblings_leaf (by decide) inner (by omega)
  refine parse_eq_ok_iff_isCanonical.mpr ⟨⟨rfl, ⟨?_, ?_, ?_⟩, ?_⟩, ?_⟩
  · refine List.forall_mem_cons.mpr ⟨.inl ⟨.text, by decide, isLeaf⟩, ?_⟩
    exact List.forall_mem_singleton.mpr (.inr (.inl (.inl isOptional)))
  · exact .cons_cons (by simp [Apart, IsLeaf]) (.singleton _)
  · exact ⟨rfl, rfl, rfl⟩
  · exact .cons_cons ⟨nofun, nofun⟩ (.singleton _)
  · have width : (text.length : Int) + other.length + 1 - (text.length + 1) = other.length := by
      omega
    simp [source, sourceOfAll, width]

theorem parse_parameter (plain : text.Plain) :
    parse (.char '\x7b' :: (text ++ [.char '\x7d'])) =
      .ok (.branch .expression 0 (text.length + 2) [.branch .parameter 0 (text.length + 2)
        (if text = [] then [] else [.leaf 1 (text.length + 1) text])]) := by
  have isParameter : IsParameter .parameter (.branch .parameter 0 (text.length + 2)
      (if text = [] then [] else [.leaf 1 (text.length + 1) text])) := by
    split
    · rename_i empty
      subst empty
      exact ⟨nofun, .nil, rfl⟩
    · rename_i nonempty
      have inner : (leaf 1 (text.length + 1) text).IsLeaf .text :=
        isLeaf_of_plain plain nonempty (by omega)
      exact siblings_leaf (by decide) inner (by omega)
  refine parse_single rfl (.inr (.inl (.inr isParameter))) ?_
  split
  · rename_i empty
    subst empty
    rfl
  · simp [source, sourceOfAll]

theorem parse_alternation (plain : text.Plain) (nonempty : text ≠ []) (otherPlain : other.Plain)
    (otherNonempty : other ≠ []) :
    parse (text ++ .char '/' :: other) =
      .ok (.branch .expression 0 (text.length + 1 + other.length)
        [.branch .alternation 0 (text.length + 1 + other.length)
          [.branch .alternative 0 text.length [.leaf 0 text.length text],
            .branch .alternative (text.length + 1) (text.length + 1 + other.length)
              [.leaf (text.length + 1) (text.length + 1 + other.length) other]]]) := by
  have isAlternative {text : Text} {start stop : Int} (plain : text.Plain) (nonempty : text ≠ [])
      (width : stop - start = text.length) :
      IsAlternative (.branch .alternative start stop [.leaf start stop text]) :=
    siblings_leaf (by decide) (isLeaf_of_plain plain nonempty width) rfl
  have width : (text.length : Int) + 1 + other.length - (text.length + 1) = other.length := by omega
  have isAlternation : IsAlternation (.branch .alternation 0 (text.length + 1 + other.length)
      [.branch .alternative 0 text.length [.leaf 0 text.length text],
        .branch .alternative (text.length + 1) (text.length + 1 + other.length)
          [.leaf (text.length + 1) (text.length + 1 + other.length) other]]) := by
    refine ⟨Nat.le_refl 2, ?_, rfl, rfl, rfl⟩
    refine List.forall_mem_cons.mpr ⟨isAlternative plain nonempty (Int.sub_zero _), ?_⟩
    exact List.forall_mem_singleton.mpr (isAlternative otherPlain otherNonempty width)
  refine parse_single rfl (.inr (.inr isAlternation)) ?_
  simp [source, sourceOfAll, sourceOfAlternatives, width]

theorem parse_bracketed (plain : text.Plain) :
    parse (.char '\\' :: .char '(' :: (text ++ [.char '\\', .char ')'])) =
      .ok (.branch .expression 0 (text.length + 4)
        [.leaf 0 (text.length + 4) (.char '(' :: (text ++ [.char ')']))]) := by
  have opening : Token.isReserved (.char '(') = true := by decide
  have closing : Token.isReserved (.char ')') = true := by decide
  have reserved : List.countP Token.isReserved (.char '(' :: (text ++ [.char ')'])) = 2 := by
    simp [opening, closing, plain.countP_isReserved]
  have isLeaf : (leaf 0 (text.length + 4) (.char '(' :: (text ++ [.char ')']))).IsLeaf .text := by
    refine ⟨by simp [Token.Kind.Fits], ?_⟩
    rw [if_pos rfl, reserved, List.length_cons, List.length_append, List.length_singleton]
    omega
  have written : Token.escape (.char '(' :: (text ++ [.char ')'])) =
      .char '\\' :: .char '(' :: (text ++ [.char '\\', .char ')']) := by
    have inside := (Token.countP_isReserved_eq_zero plain.countP_isReserved).1
    have behind : Token.escape (text ++ [.char ')']) = text ++ [.char '\\', .char ')'] := by
      rw [Token.escape_append, inside]
      rfl
    exact (Token.escape_append [.char '('] _).trans (congrArg _ behind)
  refine parse_single rfl (.inl ⟨.text, by decide, isLeaf⟩) ?_
  have longer : ¬ (text.length : Int) + 4 - 0 =
      (CodePoint.char '(' :: (text ++ [.char ')'])).length := by
    rw [List.length_cons, List.length_append, List.length_singleton]
    omega
  rw [source, if_neg longer, written]

end Node

end CucumberExpression
