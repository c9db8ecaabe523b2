import CucumberExpression.Node.Traversal
import CucumberExpression.Proofs.Items
import CucumberExpression.Proofs.Tokenization

namespace CucumberExpression

/-! # Canonical trees

The trees that expressions are read into, described by themselves: which nodes stand where, which
leaves may be neighbours, and how the spans fit together. A canonical tree also tells the tokens that
it was read from. -/

namespace Node

/-- Whether a node is the leaf of a token of a kind, by its text and the length of its span. -/
def IsLeaf (kind : Token.Kind) : Node → Prop
  | .leaf start stop content =>
      kind.Fits content ∧
        stop - start = content.length + if kind = .text then content.countP Token.isReserved else 0
  | .branch .. => False

/-- The places where leaves stand. A parameter holds other leaves in an optional than elsewhere. -/
inductive Place where
  | root
  | alternative
  | optional
  | parameter
  | innerParameter
deriving DecidableEq, Repr

def Place.leaves : Place → List Token.Kind
  | root => [.space, .text, .optionalClose, .parameterClose]
  | alternative => [.text, .optionalClose, .parameterClose]
  | optional => [.space, .text, .optionalOpen, .separator, .parameterClose]
  | parameter => [.space, .text, .optionalOpen, .optionalClose, .parameterOpen, .separator]
  | innerParameter => [.space, .text, .optionalOpen, .parameterOpen, .separator]

def Apart (left right : Node) : Prop :=
  ¬ (left.IsLeaf .text ∧ right.IsLeaf .text) ∧ ¬ (left.IsLeaf .space ∧ right.IsLeaf .space)

def Members (place : Place) (Inner : Node → Prop) (nodes : List Node) : Prop :=
  ∀ node ∈ nodes, (∃ kind ∈ place.leaves, node.IsLeaf kind) ∨ Inner node

structure Siblings (place : Place) (Inner : Node → Prop) (start stop : Int)
    (nodes : List Node) : Prop where
  members : Members place Inner nodes
  apart : nodes.IsChain Apart
  tiled : Tiled Node.start Node.stop start nodes stop

def IsParameter (place : Place) : Node → Prop
  | .branch .parameter start stop children =>
      Siblings place (fun _ => False) (start + 1) (stop - 1) children
  | _ => False

def IsOptional : Node → Prop
  | .branch .optional start stop children =>
      Siblings .optional (IsParameter .innerParameter) (start + 1) (stop - 1) children
  | _ => False

def IsBracket (node : Node) : Prop :=
  node.IsOptional ∨ node.IsParameter .parameter

def IsAlternative : Node → Prop
  | .branch .alternative start stop children => Siblings .alternative IsBracket start stop children
  | _ => False

/-- Alternatives tile an alternation with one offset for the separator after each. -/
def IsAlternation : Node → Prop
  | .branch .alternation start stop children =>
      2 ≤ children.length ∧ (∀ child ∈ children, child.IsAlternative) ∧
        Tiled Node.start (·.stop + 1) start children (stop + 1)
  | _ => False

def IsRootBranch (node : Node) : Prop :=
  node.IsBracket ∨ node.IsAlternation

/-- Next to an alternation stands white space only. -/
def Bounded (left right : Node) : Prop :=
  (left.IsAlternation → right.IsLeaf .space) ∧ (right.IsAlternation → left.IsLeaf .space)

def IsCanonical : Node → Prop
  | .branch .expression start stop children =>
      start = 0 ∧
        Siblings .root IsRootBranch 0 stop children ∧
        children.IsChain Bounded
  | _ => False

section

variable {place : Place} {Inner : Node → Prop} [DecidablePred Inner]

instance (kind : Token.Kind) : (node : Node) → Decidable (node.IsLeaf kind)
  | .leaf _ _ content => inferInstanceAs (Decidable (kind.Fits content ∧ _ = _))
  | .branch .. => inferInstanceAs (Decidable False)

instance (left right : Node) : Decidable (left.Apart right) :=
  inferInstanceAs (Decidable (¬ (_ ∧ _) ∧ ¬ (_ ∧ _)))

instance (nodes : List Node) : Decidable (Members place Inner nodes) :=
  inferInstanceAs (Decidable (∀ node ∈ nodes, _ ∨ _))

instance (start stop : Int) (nodes : List Node) :
    Decidable (Siblings place Inner start stop nodes) :=
  decidable_of_iff (Members place Inner nodes ∧ nodes.IsChain Apart ∧
      Tiled Node.start Node.stop start nodes stop)
    ⟨fun ⟨members, apart, tiled⟩ => ⟨members, apart, tiled⟩,
      fun ⟨members, apart, tiled⟩ => ⟨members, apart, tiled⟩⟩

instance : DecidablePred (IsParameter place)
  | .branch .parameter _ _ _ => inferInstanceAs (Decidable (Siblings ..))
  | .leaf .. | .branch .optional .. | .branch .alternation .. | .branch .alternative ..
  | .branch .expression .. => inferInstanceAs (Decidable False)

instance : DecidablePred IsOptional
  | .branch .optional _ _ _ => inferInstanceAs (Decidable (Siblings ..))
  | .leaf .. | .branch .parameter .. | .branch .alternation .. | .branch .alternative ..
  | .branch .expression .. => inferInstanceAs (Decidable False)

instance : DecidablePred IsBracket :=
  fun _ => inferInstanceAs (Decidable (_ ∨ _))

instance : DecidablePred IsAlternative
  | .branch .alternative _ _ _ => inferInstanceAs (Decidable (Siblings ..))
  | .leaf .. | .branch .parameter .. | .branch .alternation .. | .branch .optional ..
  | .branch .expression .. => inferInstanceAs (Decidable False)

instance : DecidablePred IsAlternation
  | .branch .alternation _ _ children =>
      inferInstanceAs (Decidable (_ ∧ (∀ child ∈ children, _) ∧ _))
  | .leaf .. | .branch .parameter .. | .branch .alternative .. | .branch .optional ..
  | .branch .expression .. => inferInstanceAs (Decidable False)

instance : DecidablePred IsRootBranch :=
  fun _ => inferInstanceAs (Decidable (_ ∨ _))

instance (left right : Node) : Decidable (left.Bounded right) :=
  inferInstanceAs (Decidable ((_ → _) ∧ (_ → _)))

instance : DecidablePred IsCanonical
  | .branch .expression _ _ _ => inferInstanceAs (Decidable (_ ∧ Siblings .. ∧ _))
  | .leaf .. | .branch .parameter .. | .branch .alternative .. | .branch .optional ..
  | .branch .alternation .. => inferInstanceAs (Decidable False)

end

example : IsCanonical (.branch .expression 0 6
    [.leaf 0 3 "a/", .leaf 3 4 " ", .branch .alternation 4 6
      [.branch .alternative 4 5 [.leaf 4 5 ")"], .branch .alternative 6 6 []]]) := by
  decide

example : ¬ IsCanonical (.branch .expression 0 2 [.leaf 0 1 "a", .leaf 1 2 "b"]) := by
  decide

/-- The token that a leaf was made of. A leaf as long as its text was written as it is. -/
def leafToken (start stop : Int) (content : Text) : Token :=
  let kind :=
    if stop - start = content.length then
      (content.head?.map Token.Kind.ofCodePoint).getD .text
    else .text
  ⟨kind, content, start, stop⟩

def delimiter (kind : Token.Kind) (start : Int) : Token :=
  ⟨kind, kind.symbol?.toList.map .char, start, start + 1⟩

mutual

/-- The tokens that a tree was read from. -/
def tokens : Node → List Token
  | .leaf start stop content => [leafToken start stop content]
  | .branch .optional start stop children =>
      delimiter .optionalOpen start :: (tokensOfAll children ++ [delimiter .optionalClose (stop - 1)])
  | .branch .parameter start stop children =>
      delimiter .parameterOpen start ::
        (tokensOfAll children ++ [delimiter .parameterClose (stop - 1)])
  | .branch .alternation _ _ children => tokensOfAlternatives children
  | .branch .alternative _ _ children => tokensOfAll children
  | .branch .expression _ _ children => tokensOfAll children

def tokensOfAll : List Node → List Token
  | [] => []
  | node :: rest => node.tokens ++ tokensOfAll rest

def tokensOfAlternatives : List Node → List Token
  | [] => []
  | [last] => last.tokens
  | node :: rest => node.tokens ++ delimiter .separator node.stop :: tokensOfAlternatives rest

end

theorem tokensOfAll_eq_flatMap (nodes : List Node) : tokensOfAll nodes = nodes.flatMap tokens := by
  induction nodes with
  | nil => rfl
  | cons node rest ih => rw [tokensOfAll, List.flatMap_cons, ih]

theorem tokensOfAlternatives_cons_cons (node second : Node) (rest : List Node) :
    tokensOfAlternatives (node :: second :: rest) =
      node.tokens ++ delimiter .separator node.stop :: tokensOfAlternatives (second :: rest) :=
  rfl

theorem sourceOfAll_eq_flatMap (nodes : List Node) : sourceOfAll nodes = nodes.flatMap source := by
  induction nodes with
  | nil => rfl
  | cons node rest ih => rw [sourceOfAll, List.flatMap_cons, ih]

end Node

namespace Token

variable {token : Token}

theorem width_spelling (kind : Kind) (content : Text) (start stop : Int) :
    ((spelling ⟨kind, content, start, stop⟩).length : Int) =
      content.length + if kind = .text then content.countP isReserved else 0 := by
  cases kind <;> simp [spelling, length_escape]

theorem Proper.isLeaf (proper : token.Proper) : token.leaf.IsLeaf token.kind := by
  obtain ⟨kind, content, start, stop⟩ := token
  obtain ⟨fits, width⟩ := proper
  rw [width_spelling] at width
  refine ⟨fits, ?_⟩
  simp only at width ⊢
  omega

theorem Proper.start_lt_stop (proper : token.Proper) : token.start < token.stop := by
  have nonempty := List.length_pos_iff.mpr proper.fits.ne_nil
  have width := proper.width
  rw [width_spelling] at width
  omega

theorem countP_isReserved_eq_zero {content : Text} (free : content.countP isReserved = 0) :
    escape content = content ∧ (content.head?.map Kind.ofCodePoint).getD .text = .text := by
  have each : ∀ point ∈ content, isReserved point = false := by simpa using free
  constructor
  · induction content with
    | nil => rfl
    | cons point rest ih =>
        have others : ∀ other ∈ rest, isReserved other = false :=
          fun other member => each other (by simp [member])
        rw [escape, List.flatMap_cons, ← escape, ih (by simpa using others) others]
        simp [each point (by simp)]
  · cases content with
    | nil => rfl
    | cons point rest => exact (isReserved_eq_false (each point (by simp))).2

end Token

namespace Node

theorem exists_token {kind : Token.Kind} {node : Node} (isLeaf : node.IsLeaf kind) :
    ∃ token : Token, token.kind = kind ∧ token.Proper ∧ node = token.leaf := by
  cases node with
  | branch shape start stop children => exact isLeaf.elim
  | leaf start stop content =>
      obtain ⟨fits, width⟩ := isLeaf
      refine ⟨⟨kind, content, start, stop⟩, rfl, ⟨fits, ?_⟩, rfl⟩
      rw [Token.width_spelling]
      simp only
      omega

theorem tokens_leaf {token : Token} (proper : token.Proper) : token.leaf.tokens = [token] := by
  obtain ⟨kind, content, start, stop⟩ := token
  obtain ⟨fits, width⟩ := proper.isLeaf
  have known : (leafToken start stop content).kind = kind := by
    simp only [leafToken]
    by_cases plain : kind = .text
    · subst plain
      simp only [if_true] at width
      split
      · have free : content.countP Token.isReserved = 0 := by omega
        exact (Token.countP_isReserved_eq_zero free).2
      · rfl
    · have same : stop - start = content.length := by simpa [plain] using width
      rw [if_pos same]
      cases content with
      | nil => exact absurd rfl fits.ne_nil
      | cons point rest =>
          exact ((Token.Kind.fits_singleton.mp (fits.single (by simp))).resolve_left plain).symm
  simp only [tokens, Token.leaf]
  rw [← known]
  rfl

theorem source_leaf {token : Token} (proper : token.Proper) : token.leaf.source = token.spelling := by
  obtain ⟨kind, content, start, stop⟩ := token
  obtain ⟨fits, width⟩ := proper.isLeaf
  simp only [Token.leaf, source, Token.spelling]
  by_cases plain : kind = .text
  · subst plain
    simp only [if_true] at width ⊢
    split
    · have free : content.countP Token.isReserved = 0 := by omega
      exact (Token.countP_isReserved_eq_zero free).1.symm
    · rfl
  · have same : stop - start = content.length := by simpa [plain] using width
    rw [if_pos same]
    cases kind <;> simp_all

/-- The tokens of a node spell its source in its span. -/
def Sound (node : Node) : Prop :=
  Token.Spells node.start node.tokens node.stop node.source

/-- A sound node that takes up some of the source. -/
structure Solid (node : Node) : Prop where
  sound : node.Sound
  nonempty : node.tokens ≠ []

/-- A node whose tokens never run on into a neighbour. -/
def Firm (node : Node) : Prop :=
  Token.EndsIn (fun kind => kind.isRun = false) node.tokens

theorem solid_leaf {token : Token} (proper : token.Proper) : token.leaf.Solid := by
  refine ⟨⟨?_, ?_⟩, ?_⟩
  · rw [tokens_leaf proper]
    exact .singleton proper
  · rw [tokens_leaf proper, source_leaf proper]
    exact List.flatMap_singleton ..
  · rw [tokens_leaf proper]
    simp

theorem IsLeaf.solid {kind : Token.Kind} {node : Node} (isLeaf : node.IsLeaf kind) : node.Solid := by
  obtain ⟨token, -, proper, rfl⟩ := exists_token isLeaf
  exact solid_leaf proper

theorem IsLeaf.ends {kind : Token.Kind} {node : Node} (isLeaf : node.IsLeaf kind) :
    Token.EndsIn (· = kind) node.tokens := by
  obtain ⟨token, rfl, proper, rfl⟩ := exists_token isLeaf
  rw [tokens_leaf proper]
  exact .singleton rfl

theorem IsLeaf.kind_unique {kind kind' : Token.Kind} {node : Node} (isLeaf : node.IsLeaf kind)
    (isLeaf' : node.IsLeaf kind') : kind = kind' := by
  obtain ⟨token, rfl, proper, rfl⟩ := exists_token isLeaf
  have ends := isLeaf'.ends
  rw [tokens_leaf proper] at ends
  exact ends.first token (by simp)

end Node

end CucumberExpression
