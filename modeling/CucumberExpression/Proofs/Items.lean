import CucumberExpression.Item

namespace CucumberExpression

/-! # Bracketing

Which items tokens are read as, apart from errors: a relation with one rule for each thing that can
stand next. Reading succeeds with the items that are so related to the tokens, whatever expression
the tokens are from. -/

/-- A span that a node may have. -/
def Forward (start stop : Int) : Prop :=
  0 ≤ start ∧ start ≤ stop

theorem Forward.nonnegative {start stop : Int} (forward : Forward start stop) : 0 ≤ stop :=
  Int.le_trans forward.1 forward.2

namespace Token

variable {opening closing : Kind} {opener closer : Token} {content rest : List Token}

def leaf (token : Token) : Node :=
  .leaf token.start token.stop token.text

def Valid (token : Token) : Prop :=
  Forward token.start token.stop

/-- An opening token, what follows it, and the first closing token after it. -/
structure Brackets (opening closing : Kind) (opener : Token) (content : List Token)
    (closer : Token) : Prop where
  opens : opener.kind = opening
  closes : closer.kind = closing
  inside : ∀ token ∈ content, token.kind ≠ closing

theorem Brackets.cut_eq (brackets : Brackets opening closing opener content closer)
    (rest : List Token) :
    cut closing (content ++ closer :: rest) = some ⟨content, closer, rest⟩ :=
  cut_eq_some_iff.mpr ⟨rfl, brackets.closes, brackets.inside⟩

theorem Brackets.of_cut {tokens : List Token} {found : Cut} (opens : opener.kind = opening)
    (cutAt : cut closing tokens = some found) :
    tokens = found.before ++ found.closer :: found.after ∧
      Brackets opening closing opener found.before found.closer := by
  obtain ⟨split, closes, inside⟩ := cut_eq_some_iff.mp cutAt
  exact ⟨split, opens, closes, inside⟩

end Token

namespace Node

theorem ofFields_eq_ok_iff {fields : Fields} {node : Node} :
    ofFields fields = .ok node ↔ Forward fields.start fields.stop ∧ node.fields = fields := by
  constructor
  · intro made
    obtain ⟨same, span⟩ := fields_of_ofFields made
    subst same
    cases node <;> exact ⟨span, rfl⟩
  · intro made
    obtain ⟨⟨nonnegative, ordered⟩, rfl⟩ := made
    cases node <;> exact ofFields_fields nonnegative ordered

theorem orInvalid_eq_ok_iff {made : Except Invalid Node} {node : Node} :
    Error.orInvalid made = .ok node ↔ made = .ok node := by
  cases made <;> simp [Error.orInvalid]

theorem orInvalid_newBranch_eq_ok_iff {shape : Branch} {start stop : Int} {children : List Node}
    {node : Node} :
    Error.orInvalid (newBranch (.branch shape) start stop children) = .ok node ↔
      Forward start stop ∧ node = .branch shape start stop children := by
  rw [orInvalid_eq_ok_iff, newBranch, ofFields_eq_ok_iff]
  cases node <;> simp [fields]

theorem ofToken_eq_ok_iff {token : Token} {node : Node} :
    ofToken token = .ok node ↔ token.Valid ∧ node = token.leaf := by
  rw [ofToken, orInvalid_eq_ok_iff, newLeaf, ofFields_eq_ok_iff]
  cases node <;> simp [fields, Token.Valid, Token.leaf]

end Node

theorem bind_eq_ok_iff {ε α β : Type} {first : Except ε α} {next : α → Except ε β} {result : β} :
    first >>= next = .ok result ↔ ∃ value, first = .ok value ∧ next value = .ok result := by
  cases first <;> simp [bind, Except.bind]

theorem pure_eq_ok_iff {ε α : Type} {value result : α} :
    (pure value : Except ε α) = .ok result ↔ value = result := by
  simp [pure, Except.pure]

theorem diagnose_ne_ok {α : Type} {made : Except Misuse Diagnostic} {value : α} :
    Error.diagnose made ≠ .ok value := by
  cases made <;> simp [Error.diagnose]

namespace Node

theorem mapM_ofToken_eq_ok_iff {tokens : List Token} {nodes : List Node} :
    tokens.mapM ofToken = .ok nodes ↔
      (∀ token ∈ tokens, token.Valid) ∧ nodes = tokens.map Token.leaf := by
  induction tokens generalizing nodes with
  | nil => simp only [List.mapM_nil, pure_eq_ok_iff]; simp [eq_comm]
  | cons token rest ih =>
      simp only [List.mapM_cons, bind_eq_ok_iff, pure_eq_ok_iff, ofToken_eq_ok_iff, ih]
      constructor
      · intro made
        obtain ⟨_, ⟨valid, rfl⟩, _, ⟨others, rfl⟩, rfl⟩ := made
        exact ⟨by simpa using ⟨valid, others⟩, rfl⟩
      · intro described
        obtain ⟨valid, rfl⟩ := described
        exact ⟨_, ⟨valid token (by simp), rfl⟩, _,
          ⟨fun other member => valid other (by simp [member]), rfl⟩, rfl⟩

theorem parameterOf_eq_ok_iff {opener : Token} {cut : Token.Cut} {node : Node} :
    parameterOf opener cut = .ok node ↔
      (∀ token ∈ cut.before, token.Valid) ∧ Forward opener.start cut.closer.stop ∧
        node = .branch .parameter opener.start cut.closer.stop (cut.before.map Token.leaf) := by
  simp only [parameterOf, bind_eq_ok_iff, mapM_ofToken_eq_ok_iff, orInvalid_newBranch_eq_ok_iff]
  constructor
  · intro steps
    obtain ⟨_, ⟨valid, rfl⟩, made⟩ := steps
    exact ⟨valid, made⟩
  · intro described
    obtain ⟨valid, made⟩ := described
    exact ⟨_, ⟨valid, rfl⟩, made⟩

theorem optionalOf_eq_ok_iff {expression : Text} {opener : Token} {cut : Token.Cut} {node : Node} :
    optionalOf expression opener cut = .ok node ↔
      ∃ children, ofOptionalContent expression cut.before = .ok children ∧
        Forward opener.start cut.closer.stop ∧
        node = .branch .optional opener.start cut.closer.stop children := by
  simp only [optionalOf, bind_eq_ok_iff, orInvalid_newBranch_eq_ok_iff]

section

variable {expression : Text} {token opener : Token} {rest : List Token} {cut : Token.Cut}

theorem ofOptionalContent_leaf (plain : token.kind ≠ .parameterOpen) :
    ofOptionalContent expression (token :: rest) = (do
      let node ← ofToken token
      let others ← ofOptionalContent expression rest
      return node :: others) := by
  rw [ofOptionalContent, if_neg plain]

theorem ofOptionalContent_parameter (opens : opener.kind = .parameterOpen)
    (found : Token.cut .parameterClose rest = some cut) :
    ofOptionalContent expression (opener :: rest) = (do
      let node ← parameterOf opener cut
      let others ← ofOptionalContent expression cut.after
      return node :: others) := by
  rw [ofOptionalContent, if_pos opens]
  split
  · rename_i missing
    rw [found] at missing
    cases missing
  · rename_i other same
    rw [found] at same
    cases same
    rfl

theorem ofOptionalContent_unclosed (opens : opener.kind = .parameterOpen)
    (missing : Token.cut .parameterClose rest = none) :
    ofOptionalContent expression (opener :: rest) =
      Error.diagnose (Diagnostic.unclosed expression .parameterOpen .parameterClose opener) := by
  rw [ofOptionalContent, if_pos opens]
  split
  · rfl
  · rename_i found
    rw [found] at missing
    cases missing

end

inductive ReadsContent : List Token → List Node → Prop
  | nil : ReadsContent [] []
  | leaf {token : Token} {rest : List Token} {nodes : List Node}
      (plain : token.kind ≠ .parameterOpen) (valid : token.Valid)
      (others : ReadsContent rest nodes) : ReadsContent (token :: rest) (token.leaf :: nodes)
  | parameter {opener closer : Token} {content rest : List Token} {nodes : List Node}
      (brackets : Token.Brackets .parameterOpen .parameterClose opener content closer)
      (valid : ∀ token ∈ content, token.Valid) (forward : Forward opener.start closer.stop)
      (others : ReadsContent rest nodes) :
      ReadsContent (opener :: (content ++ closer :: rest))
        (.branch .parameter opener.start closer.stop (content.map Token.leaf) :: nodes)

/-- Reading goes on behind what can be read. -/
theorem ReadsContent.ofOptionalContent_append {expression : Text} {front : List Token}
    {nodes : List Node} (reads : ReadsContent front nodes) (rest : List Token) :
    ofOptionalContent expression (front ++ rest) = (do
      let others ← ofOptionalContent expression rest
      return nodes ++ others) := by
  induction reads with
  | nil =>
      rw [List.nil_append]
      cases ofOptionalContent expression rest <;> rfl
  | leaf plain valid others ih =>
      rw [List.cons_append, ofOptionalContent_leaf plain, ofToken_eq_ok_iff.mpr ⟨valid, rfl⟩, ih]
      cases ofOptionalContent expression rest <;> rfl
  | parameter brackets valid forward others ih =>
      rw [List.cons_append, List.append_assoc, List.cons_append,
        ofOptionalContent_parameter brackets.opens (brackets.cut_eq _),
        parameterOf_eq_ok_iff.mpr ⟨valid, forward, rfl⟩, ih]
      cases ofOptionalContent expression rest <;> rfl

theorem readsContent_of_eq_ok {expression : Text} {tokens : List Token} {nodes : List Node}
    (reading : ofOptionalContent expression tokens = .ok nodes) : ReadsContent tokens nodes := by
  induction tokens using ofOptionalContent.induct generalizing nodes with
  | case1 =>
      rw [ofOptionalContent] at reading
      cases reading
      exact .nil
  | case2 opener rest opens missing =>
      rw [ofOptionalContent_unclosed opens missing] at reading
      exact absurd reading diagnose_ne_ok
  | case3 opener rest opens cut found ih =>
      simp only [ofOptionalContent_parameter opens found, bind_eq_ok_iff, pure_eq_ok_iff,
        parameterOf_eq_ok_iff] at reading
      obtain ⟨_, ⟨valid, forward, rfl⟩, others, tail, rfl⟩ := reading
      obtain ⟨rfl, brackets⟩ := Token.Brackets.of_cut opens found
      exact .parameter brackets valid forward (ih tail)
  | case4 token rest plain ih =>
      simp only [ofOptionalContent_leaf plain, bind_eq_ok_iff, pure_eq_ok_iff,
        ofToken_eq_ok_iff] at reading
      obtain ⟨_, ⟨valid, rfl⟩, others, tail, rfl⟩ := reading
      exact .leaf plain valid (ih tail)

theorem ofOptionalContent_eq_ok_iff {expression : Text} {tokens : List Token} {nodes : List Node} :
    ofOptionalContent expression tokens = .ok nodes ↔ ReadsContent tokens nodes := by
  constructor
  · exact readsContent_of_eq_ok
  · intro reads
    have whole : ofOptionalContent expression (tokens ++ []) = _ :=
      reads.ofOptionalContent_append []
    rw [List.append_nil, ofOptionalContent] at whole
    rw [whole]
    exact congrArg Except.ok (List.append_nil _)

theorem ReadsContent.append {front back : List Token} {nodes others : List Node}
    (first : ReadsContent front nodes) (second : ReadsContent back others) :
    ReadsContent (front ++ back) (nodes ++ others) := by
  have tail : ofOptionalContent [] back = .ok others := ofOptionalContent_eq_ok_iff.mpr second
  have whole : ofOptionalContent [] (front ++ back) = _ := first.ofOptionalContent_append back
  rw [tail] at whole
  exact ofOptionalContent_eq_ok_iff.mp whole

end Node

namespace Item

section

variable {expression : Text} {token opener : Token} {rest : List Token} {cut : Token.Cut}

def Plain (token : Token) : Prop :=
  token.kind ≠ .parameterOpen ∧ token.kind ≠ .optionalOpen ∧ token.kind ≠ .space ∧
    token.kind ≠ .separator

theorem ofTokens_leaf (plain : Plain token) :
    ofTokens expression (token :: rest) = (do
      let node ← Node.ofToken token
      let others ← ofTokens expression rest
      return .part (.node node) :: others) := by
  obtain ⟨parameter, optional, space, separator⟩ := plain
  rw [ofTokens]
  split <;> first | contradiction | rfl

theorem ofTokens_space (kind : token.kind = .space) :
    ofTokens expression (token :: rest) = (do
      let others ← ofTokens expression rest
      return .space token :: others) := by
  rw [ofTokens, kind]

theorem ofTokens_separator (kind : token.kind = .separator) :
    ofTokens expression (token :: rest) = (do
      let others ← ofTokens expression rest
      return .part (.separator token) :: others) := by
  rw [ofTokens, kind]

theorem ofTokens_parameter (opens : opener.kind = .parameterOpen)
    (found : Token.cut .parameterClose rest = some cut) :
    ofTokens expression (opener :: rest) = (do
      let node ← Node.parameterOf opener cut
      let others ← ofTokens expression cut.after
      return .part (.node node) :: others) := by
  rw [ofTokens]
  simp only [opens]
  split <;> simp_all

theorem ofTokens_optional (opens : opener.kind = .optionalOpen)
    (found : Token.cut .optionalClose rest = some cut) :
    ofTokens expression (opener :: rest) = (do
      let node ← Node.optionalOf expression opener cut
      let others ← ofTokens expression cut.after
      return .part (.node node) :: others) := by
  rw [ofTokens]
  simp only [opens]
  split <;> simp_all

theorem ofTokens_unclosed_parameter (opens : opener.kind = .parameterOpen)
    (missing : Token.cut .parameterClose rest = none) :
    ofTokens expression (opener :: rest) =
      Error.diagnose (Diagnostic.unclosed expression .parameterOpen .parameterClose opener) := by
  rw [ofTokens]
  simp only [opens]
  split <;> simp_all

theorem ofTokens_unclosed_optional (opens : opener.kind = .optionalOpen)
    (missing : Token.cut .optionalClose rest = none) :
    ofTokens expression (opener :: rest) =
      Error.diagnose (Diagnostic.unclosed expression .optionalOpen .optionalClose opener) := by
  rw [ofTokens]
  simp only [opens]
  split <;> simp_all

end

/-- What the tokens between the line markers are read as. -/
inductive Reads : List Token → List Item → Prop
  | nil : Reads [] []
  | leaf {token : Token} {rest : List Token} {items : List Item} (plain : Plain token)
      (valid : token.Valid) (others : Reads rest items) :
      Reads (token :: rest) (.part (.node token.leaf) :: items)
  | space {token : Token} {rest : List Token} {items : List Item} (kind : token.kind = .space)
      (others : Reads rest items) : Reads (token :: rest) (.space token :: items)
  | separator {token : Token} {rest : List Token} {items : List Item}
      (kind : token.kind = .separator) (others : Reads rest items) :
      Reads (token :: rest) (.part (.separator token) :: items)
  | parameter {opener closer : Token} {content rest : List Token} {items : List Item}
      (brackets : Token.Brackets .parameterOpen .parameterClose opener content closer)
      (valid : ∀ token ∈ content, token.Valid) (forward : Forward opener.start closer.stop)
      (others : Reads rest items) :
      Reads (opener :: (content ++ closer :: rest))
        (.part (.node (.branch .parameter opener.start closer.stop (content.map Token.leaf))) ::
          items)
  | optional {opener closer : Token} {content rest : List Token} {nodes : List Node}
      {items : List Item}
      (brackets : Token.Brackets .optionalOpen .optionalClose opener content closer)
      (reads : Node.ReadsContent content nodes) (forward : Forward opener.start closer.stop)
      (others : Reads rest items) :
      Reads (opener :: (content ++ closer :: rest))
        (.part (.node (.branch .optional opener.start closer.stop nodes)) :: items)

/-- Reading goes on behind what can be read. -/
theorem Reads.ofTokens_append {expression : Text} {front : List Token} {items : List Item}
    (reads : Reads front items) (rest : List Token) :
    ofTokens expression (front ++ rest) = (do
      let others ← ofTokens expression rest
      return items ++ others) := by
  induction reads with
  | nil =>
      rw [List.nil_append]
      cases ofTokens expression rest <;> rfl
  | leaf plain valid others ih =>
      rw [List.cons_append, ofTokens_leaf plain, Node.ofToken_eq_ok_iff.mpr ⟨valid, rfl⟩, ih]
      cases ofTokens expression rest <;> rfl
  | space kind others ih =>
      rw [List.cons_append, ofTokens_space kind, ih]
      cases ofTokens expression rest <;> rfl
  | separator kind others ih =>
      rw [List.cons_append, ofTokens_separator kind, ih]
      cases ofTokens expression rest <;> rfl
  | parameter brackets valid forward others ih =>
      rw [List.cons_append, List.append_assoc, List.cons_append,
        ofTokens_parameter brackets.opens (brackets.cut_eq _),
        Node.parameterOf_eq_ok_iff.mpr ⟨valid, forward, rfl⟩, ih]
      cases ofTokens expression rest <;> rfl
  | optional brackets reads forward others ih =>
      rw [List.cons_append, List.append_assoc, List.cons_append,
        ofTokens_optional brackets.opens (brackets.cut_eq _),
        Node.optionalOf_eq_ok_iff.mpr
          ⟨_, Node.ofOptionalContent_eq_ok_iff.mpr reads, forward, rfl⟩, ih]
      cases ofTokens expression rest <;> rfl

theorem reads_of_eq_ok {expression : Text} {tokens : List Token} {items : List Item}
    (reading : ofTokens expression tokens = .ok items) : Reads tokens items := by
  induction tokens using ofTokens.induct generalizing items with
  | case1 =>
      rw [ofTokens] at reading
      cases reading
      exact .nil
  | case2 opener rest opens missing =>
      rw [ofTokens_unclosed_parameter opens missing] at reading
      exact absurd reading diagnose_ne_ok
  | case3 opener rest opens cut found ih =>
      simp only [ofTokens_parameter opens found, bind_eq_ok_iff, pure_eq_ok_iff,
        Node.parameterOf_eq_ok_iff] at reading
      obtain ⟨_, ⟨valid, forward, rfl⟩, others, tail, rfl⟩ := reading
      obtain ⟨rfl, brackets⟩ := Token.Brackets.of_cut opens found
      exact .parameter brackets valid forward (ih tail)
  | case4 opener rest opens missing =>
      rw [ofTokens_unclosed_optional opens missing] at reading
      exact absurd reading diagnose_ne_ok
  | case5 opener rest opens cut found ih =>
      simp only [ofTokens_optional opens found, bind_eq_ok_iff, pure_eq_ok_iff,
        Node.optionalOf_eq_ok_iff, Node.ofOptionalContent_eq_ok_iff] at reading
      obtain ⟨_, ⟨nodes, reads, forward, rfl⟩, others, tail, rfl⟩ := reading
      obtain ⟨rfl, brackets⟩ := Token.Brackets.of_cut opens found
      exact .optional brackets reads forward (ih tail)
  | case6 token rest kind ih =>
      simp only [ofTokens_space kind, bind_eq_ok_iff, pure_eq_ok_iff] at reading
      obtain ⟨others, tail, rfl⟩ := reading
      exact .space kind (ih tail)
  | case7 token rest kind ih =>
      simp only [ofTokens_separator kind, bind_eq_ok_iff, pure_eq_ok_iff] at reading
      obtain ⟨others, tail, rfl⟩ := reading
      exact .separator kind (ih tail)
  | case8 token rest parameter optional space separator ih =>
      have plain : Plain token := ⟨parameter, optional, space, separator⟩
      simp only [ofTokens_leaf plain, bind_eq_ok_iff, pure_eq_ok_iff,
        Node.ofToken_eq_ok_iff] at reading
      obtain ⟨_, ⟨valid, rfl⟩, others, tail, rfl⟩ := reading
      exact .leaf plain valid (ih tail)

theorem ofTokens_eq_ok_iff {expression : Text} {tokens : List Token} {items : List Item} :
    ofTokens expression tokens = .ok items ↔ Reads tokens items := by
  constructor
  · exact reads_of_eq_ok
  · intro reads
    have whole : ofTokens expression (tokens ++ []) = _ := reads.ofTokens_append []
    rw [List.append_nil, ofTokens] at whole
    rw [whole]
    exact congrArg Except.ok (List.append_nil _)

theorem Reads.append {front back : List Token} {items others : List Item}
    (first : Reads front items) (second : Reads back others) :
    Reads (front ++ back) (items ++ others) := by
  have tail : ofTokens [] back = .ok others := ofTokens_eq_ok_iff.mpr second
  have whole : ofTokens [] (front ++ back) = _ := first.ofTokens_append back
  rw [tail] at whole
  exact ofTokens_eq_ok_iff.mp whole

end Item

end CucumberExpression
