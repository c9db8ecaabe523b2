import CucumberExpression.Error

namespace CucumberExpression

/-! # Items

Between tokens and tree stand items: brackets are closed and their contents read, while white space
and separators still wait for the words to be told apart. A bracket is closed by the first closing
token of its kind, and what lies between is read on its own, so a delimiter inside it never looks
past its end. A closing token that closes nothing is text. -/

inductive Part where
  | node (node : Node)
  | separator (token : Token)
deriving DecidableEq

inductive Item where
  | part (part : Part)
  | space (token : Token)
deriving DecidableEq

def Node.ofToken (token : Token) : Except Error Node :=
  Error.orInvalid (Node.newLeaf token.start token.stop token.text)

namespace Token

/-- A list of tokens cut at one of them. -/
structure Cut where
  before : List Token
  closer : Token
  after : List Token
deriving DecidableEq

/-- The cut at the first token of a kind. -/
def cut (kind : Kind) : List Token → Option Cut
  | [] => none
  | token :: rest =>
      if token.kind = kind then some ⟨[], token, rest⟩
      else (cut kind rest).map fun found => { found with before := token :: found.before }

theorem cut_eq_some_iff {kind : Kind} {tokens : List Token} {found : Cut} :
    cut kind tokens = some found ↔
      tokens = found.before ++ found.closer :: found.after ∧ found.closer.kind = kind ∧
        ∀ token ∈ found.before, token.kind ≠ kind := by
  induction tokens generalizing found with
  | nil => simp [cut]
  | cons token rest ih =>
      obtain ⟨before, closer, after⟩ := found
      by_cases first : token.kind = kind
      · simp only [cut, if_pos first, Option.some.injEq, Cut.mk.injEq]
        constructor
        · rintro ⟨rfl, rfl, rfl⟩
          exact ⟨rfl, first, by simp⟩
        · rintro ⟨same, -, others⟩
          cases before with
          | nil =>
              cases same
              exact ⟨rfl, rfl, rfl⟩
          | cons other before =>
              cases same
              exact absurd first (others token (by simp))
      · simp only [cut, if_neg first, Option.map_eq_some_iff, Cut.mk.injEq]
        constructor
        · rintro ⟨⟨before', closer', after'⟩, found, rfl, rfl, rfl⟩
          obtain ⟨rfl, close, others⟩ := ih.mp found
          exact ⟨rfl, close, by simpa [first] using others⟩
        · rintro ⟨same, close, others⟩
          cases before with
          | nil =>
              cases same
              exact absurd close first
          | cons other before =>
              cases same
              have others' : ∀ token ∈ before, token.kind ≠ kind :=
                fun token member => others token (by simp [member])
              exact ⟨⟨before, closer, after⟩, ih.mpr ⟨rfl, close, others'⟩, rfl, rfl, rfl⟩

theorem cut_eq_none_iff {kind : Kind} {tokens : List Token} :
    cut kind tokens = none ↔ ∀ token ∈ tokens, token.kind ≠ kind := by
  induction tokens with
  | nil => simp [cut]
  | cons token rest ih =>
      by_cases first : token.kind = kind <;> simp [cut, first, ih]

theorem length_after_lt {kind : Kind} {tokens : List Token} {found : Cut}
    (cutAt : cut kind tokens = some found) : found.after.length < tokens.length := by
  rw [(cut_eq_some_iff.mp cutAt).1]
  simp only [List.length_append, List.length_cons]
  omega

end Token

/-- The node of a parameter that opens with `opener`; its content is text. -/
def Node.parameterOf (opener : Token) (cut : Token.Cut) : Except Error Node := do
  let children ← cut.before.mapM Node.ofToken
  Error.orInvalid (Node.newBranch (.branch .parameter) opener.start cut.closer.stop children)

/-- The nodes between the delimiters of an optional: parameters, and text for all else. -/
def Node.ofOptionalContent (expression : Text) : List Token → Except Error (List Node)
  | [] => .ok []
  | token :: rest =>
      if token.kind = .parameterOpen then
        match _found : Token.cut .parameterClose rest with
        | none =>
            Error.diagnose (Diagnostic.unclosed expression .parameterOpen .parameterClose token)
        | some cut => do
            let node ← Node.parameterOf token cut
            let others ← Node.ofOptionalContent expression cut.after
            return node :: others
      else do
        let node ← Node.ofToken token
        let others ← Node.ofOptionalContent expression rest
        return node :: others
termination_by tokens => tokens.length
decreasing_by
  · exact Nat.lt_succ_of_lt (Token.length_after_lt _found)
  · exact Nat.lt_succ_self _

def Node.optionalOf (expression : Text) (opener : Token) (cut : Token.Cut) :
    Except Error Node := do
  let children ← Node.ofOptionalContent expression cut.before
  Error.orInvalid (Node.newBranch (.branch .optional) opener.start cut.closer.stop children)

/-- The items of the tokens between the line markers. -/
def Item.ofTokens (expression : Text) : List Token → Except Error (List Item)
  | [] => .ok []
  | token :: rest =>
      match token.kind with
      | .parameterOpen =>
          match _found : Token.cut .parameterClose rest with
          | none =>
              Error.diagnose (Diagnostic.unclosed expression .parameterOpen .parameterClose token)
          | some cut => do
              let node ← Node.parameterOf token cut
              let others ← Item.ofTokens expression cut.after
              return .part (.node node) :: others
      | .optionalOpen =>
          match _found : Token.cut .optionalClose rest with
          | none =>
              Error.diagnose (Diagnostic.unclosed expression .optionalOpen .optionalClose token)
          | some cut => do
              let node ← Node.optionalOf expression token cut
              let others ← Item.ofTokens expression cut.after
              return .part (.node node) :: others
      | .space => do
          let others ← Item.ofTokens expression rest
          return .space token :: others
      | .separator => do
          let others ← Item.ofTokens expression rest
          return .part (.separator token) :: others
      | _ => do
          let node ← Node.ofToken token
          let others ← Item.ofTokens expression rest
          return .part (.node node) :: others
termination_by tokens => tokens.length
decreasing_by
  · exact Nat.lt_succ_of_lt (Token.length_after_lt _found)
  · exact Nat.lt_succ_of_lt (Token.length_after_lt _found)
  all_goals exact Nat.lt_succ_self _

end CucumberExpression
