import CucumberExpression.Expression
import CucumberExpression.Proofs.Items
import CucumberExpression.Proofs.Tokenization

namespace CucumberExpression

/-! # Stages

Reading an expression is tokenizing it and then putting the tokens between the line markers
together. A failure of the first stage is the failure of the whole. -/

variable {components : Components} {expression : Text} {inner : List Token}

theorem Stage.guard_eq_ok_iff {α : Type} {stage : Stage} {outcome : Except Error α} {value : α} :
    stage.guard outcome = .ok value ↔ outcome = .ok value := by
  cases outcome <;> simp [guard]

theorem Stage.guard_eq_diagnosed_iff {α : Type} {stage : Stage} {outcome : Except Error α}
    {diagnostic : Diagnostic} :
    stage.guard outcome = .error (.diagnosed diagnostic) ↔
      outcome = .error (.diagnosed diagnostic) := by
  cases outcome with
  | ok value => simp [guard]
  | error error => cases error <;> simp [guard, Error.isExpected]

namespace Node

variable {first last : Token}

theorem ofTokensWith_between (starts : first.kind = .lineStart) (ends : last.kind = .lineEnd)
    (resolve : Resolver) (expression : Text) (inner : List Token) :
    ofTokensWith resolve expression (first :: (inner ++ [last])) = (do
      let items ← Item.ofTokens expression inner
      let children ← resolve items
      Error.orInvalid (newBranch (.branch .expression) first.start last.stop children)) := by
  simp only [ofTokensWith, List.getLast?_append, List.getLast?_singleton, Option.or,
    List.dropLast_concat, starts, ends, and_self, if_true]

theorem ofTokens_between (starts : first.kind = .lineStart) (ends : last.kind = .lineEnd)
    (expression : Text) (inner : List Token) :
    ofTokens expression (first :: (inner ++ [last])) = (do
      let items ← Item.ofTokens expression inner
      let children ← ofItems [] items
      Error.orInvalid (newBranch (.branch .expression) first.start last.stop children)) :=
  ofTokensWith_between starts ends (ofItems []) expression inner

theorem ofTokens_withMarkers (expression : Text) (length : Nat) (inner : List Token) :
    ofTokens expression (Token.withMarkers length inner) = (do
      let items ← Item.ofTokens expression inner
      let children ← ofItems [] items
      Error.orInvalid (newBranch (.branch .expression) 0 length children)) :=
  ofTokens_between rfl rfl expression inner

/-- Tokens without line markers around them are not read at all. -/
theorem between_or_misuse (resolve : Resolver) (expression : Text) (tokens : List Token) :
    (∃ first inner last, tokens = first :: (inner ++ [last]) ∧ first.kind = .lineStart ∧
      last.kind = .lineEnd) ∨
        ofTokensWith resolve expression tokens = .error (.misuse .noLineMarkers) := by
  cases tokens with
  | nil => exact .inr rfl
  | cons first rest =>
      rcases List.eq_nil_or_concat rest with rfl | ⟨inner, last, rfl⟩
      · exact .inr rfl
      · simp only [ofTokensWith, List.concat_eq_append, List.getLast?_append,
          List.getLast?_singleton, Option.or]
        split
        · rename_i marked
          exact .inl ⟨first, inner, last, rfl, marked⟩
        · exact .inr rfl

theorem exists_between_of_ofTokens {tokens : List Token} {tree : Node}
    (read : ofTokens expression tokens = .ok tree) :
    ∃ first inner last, tokens = first :: (inner ++ [last]) ∧ first.kind = .lineStart ∧
      last.kind = .lineEnd := by
  apply (between_or_misuse (ofItems []) expression tokens).resolve_right
  intro misused
  have misread : ofTokens expression tokens = .error (.misuse .noLineMarkers) := misused
  rw [misread] at read
  cases read

/-- Putting tokens together goes through when each of its steps does. -/
theorem ofTokens_eq_ok_iff {tokens : List Token} {tree : Node} :
    ofTokens expression tokens = .ok tree ↔
      ∃ first inner last items children, tokens = first :: (inner ++ [last]) ∧
        first.kind = .lineStart ∧ last.kind = .lineEnd ∧ Item.Reads inner items ∧
        ofItems [] items = .ok children ∧ Forward first.start last.stop ∧
        tree = .branch .expression first.start last.stop children := by
  constructor
  · intro read
    obtain ⟨first, inner, last, rfl, starts, ends⟩ := exists_between_of_ofTokens read
    simp only [ofTokens_between starts ends, bind_eq_ok_iff, Item.ofTokens_eq_ok_iff,
      orInvalid_newBranch_eq_ok_iff] at read
    obtain ⟨items, reads, children, made, forward, rfl⟩ := read
    exact ⟨first, inner, last, items, children, rfl, starts, ends, reads, made, forward, rfl⟩
  · intro steps
    obtain ⟨first, inner, last, items, children, rfl, starts, ends, reads, made, forward, rfl⟩ :=
      steps
    simp only [ofTokens_between starts ends, bind_eq_ok_iff, Item.ofTokens_eq_ok_iff,
      orInvalid_newBranch_eq_ok_iff]
    exact ⟨items, reads, children, made, forward, rfl⟩

end Node

theorem parseWith_of_tokenizeWith {tokens : List Token}
    (tokenized : tokenizeWith components.classify expression = .ok tokens) :
    parseWith components expression =
      Stage.parsing.guard (Node.ofTokensWith components.resolve expression tokens) := by
  simp only [parseWith, tokenized]
  rfl

theorem parseWith_of_tokenizeWith_error {error : Error}
    (failed : tokenizeWith components.classify expression = .error error) :
    parseWith components expression = .error error := by
  simp only [parseWith, failed]
  rfl

theorem parse_of_tokenize {tokens : List Token} (tokenized : tokenize expression = .ok tokens) :
    parse expression = Stage.parsing.guard (Node.ofTokens expression tokens) :=
  parseWith_of_tokenizeWith tokenized

theorem parse_of_tokenize_error {error : Error} (failed : tokenize expression = .error error) :
    parse expression = .error error :=
  parseWith_of_tokenizeWith_error failed

theorem tokenize_of_spells (spells : Token.Spells 0 inner expression.length expression) :
    tokenize expression = .ok (Token.withMarkers expression.length inner) :=
  tokenize_eq_ok_iff.mpr ⟨inner, rfl, spells⟩

/-- Reading goes through when each of its steps does. -/
theorem parse_eq_ok_iff {node : Node} :
    parse expression = .ok node ↔
      ∃ inner items children, Token.Spells 0 inner expression.length expression ∧
        Item.Reads inner items ∧ Node.ofItems [] items = .ok children ∧
        node = .branch .expression 0 expression.length children := by
  have steps (inner : List Token) (spells : Token.Spells 0 inner expression.length expression) :
      parse expression = .ok node ↔ ∃ items, Item.Reads inner items ∧ ∃ children,
        Node.ofItems [] items = .ok children ∧
        node = .branch .expression 0 expression.length children := by
    rw [parse_of_tokenize (tokenize_of_spells spells), Stage.guard_eq_ok_iff,
      Node.ofTokens_withMarkers]
    simp only [bind_eq_ok_iff, Item.ofTokens_eq_ok_iff, Node.orInvalid_newBranch_eq_ok_iff]
    simp [Forward]
  cases tokenized : tokenize expression with
  | error reason =>
      have unspelled (inner : List Token) :
          ¬ Token.Spells 0 inner expression.length expression := by
        intro spells
        rw [tokenize_of_spells spells] at tokenized
        cases tokenized
      rw [parse_of_tokenize_error tokenized]
      simp [unspelled]
  | ok tokens =>
      obtain ⟨inner, rfl, spells⟩ := tokenize_eq_ok_iff.mp tokenized
      constructor
      · intro parsed
        obtain ⟨items, reads, children, made, same⟩ := (steps inner spells).mp parsed
        exact ⟨inner, items, children, spells, reads, made, same⟩
      · intro read
        obtain ⟨inner', items, children, spells', reads, made, same⟩ := read
        exact (steps inner' spells').mpr ⟨items, reads, children, made, same⟩

end CucumberExpression
