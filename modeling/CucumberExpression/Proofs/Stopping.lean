import CucumberExpression.Proofs.Nesting
import CucumberExpression.Proofs.Stages

namespace CucumberExpression

/-! # Stopping

Where tokens are not read as a tree and there is a diagnostic, it is for one opening token: what
stands before it has been read, nothing closes it, and its offset is within the expression. No other
step ends with a diagnostic. -/

def Diagnostic.ofOpener (expression : Text) (opener : Token) : Diagnostic :=
  match opener.kind with
  | .optionalOpen =>
      ⟨.unclosed, expression, opener.start + 1, "The '(' does not have a matching ')'.",
        "If you did not intend to use optional text you can use '\\(' to escape the optional text"⟩
  | _ =>
      ⟨.unclosed, expression, opener.start + 1, "The '\x7b' does not have a matching '\x7d'.",
        "If you did not intend to use a parameter you can use '\\\x7b' to escape the a parameter"⟩

theorem Diagnostic.column_ofOpener (expression : Text) (opener : Token) :
    (ofOpener expression opener).column = opener.start + 1 := by
  rw [ofOpener]
  split <;> rfl

theorem Diagnostic.kind_ofOpener (expression : Text) (opener : Token) :
    (ofOpener expression opener).kind = .unclosed := by
  rw [ofOpener]
  split <;> rfl

/-- The diagnostic of an opening token at which reading an expression stops. -/
structure Diagnostic.Blames (expression : Text) (opener : Token) (diagnostic : Diagnostic) :
    Prop where
  nonnegative : 0 ≤ opener.start
  bound : opener.start ≤ expression.length
  same : diagnostic = ofOpener expression opener

theorem Diagnostic.unclosed_eq_ok_iff {expression : Text} {opening closing : Token.Kind}
    {opener : Token} {diagnostic : Diagnostic} (opens : opener.kind = opening)
    (closes : opening.closing? = some closing) :
    unclosed expression opening closing opener = .ok diagnostic ↔
      Blames expression opener diagnostic := by
  have made (kind : Kind) (problem solution : Text)
      (same : ofOpener expression opener =
        ⟨kind, expression, opener.start + 1, problem, solution⟩) :
      new kind expression (opener.start + 1) problem solution = .ok diagnostic ↔
        Blames expression opener diagnostic := by
    rw [new_eq_ok_iff]
    constructor
    · intro pointed
      obtain ⟨low, high, rfl⟩ := pointed
      exact ⟨by omega, by omega, same.symm⟩
    · intro blames
      obtain ⟨low, high, rfl⟩ := blames
      exact ⟨by omega, by omega, same⟩
  cases opening <;> cases closes <;> exact made _ _ _ (by rw [ofOpener, opens]; rfl)

section

variable {ε α β : Type}

theorem bind_eq_error_iff {first : Except ε α} {next : α → Except ε β} {error : ε} :
    first >>= next = .error error ↔
      first = .error error ∨ ∃ value, first = .ok value ∧ next value = .error error := by
  cases first <;> simp [bind, Except.bind]

theorem bind_pure_eq_error_iff {first : Except ε α} {convert : α → β} {error : ε} :
    (first >>= fun value => pure (convert value)) = .error error ↔ first = .error error := by
  cases first <;> simp [bind, Except.bind, pure, Except.pure]

theorem diagnose_eq_diagnosed_iff {made : Except Misuse Diagnostic} {diagnostic : Diagnostic} :
    (Error.diagnose made : Except Error α) = .error (.diagnosed diagnostic) ↔
      made = .ok diagnostic := by
  cases made <;> simp [Error.diagnose]

/-- However a step ends, it is not with a diagnostic. -/
def Undiagnosed (outcome : Except Error α) : Prop :=
  ∀ diagnostic, outcome ≠ .error (.diagnosed diagnostic)

namespace Undiagnosed

variable {first : Except Error α} {next : α → Except Error β}

theorem ok (value : α) : Undiagnosed (.ok value) := by
  intro diagnostic failed
  cases failed

theorem checked (made : Except Node.Invalid Node) : Undiagnosed (Error.orInvalid made) := by
  intro diagnostic failed
  cases made <;> cases failed

theorem bind_eq_iff (plain : Undiagnosed first) {diagnostic : Diagnostic} :
    first >>= next = .error (.diagnosed diagnostic) ↔
      ∃ value, first = .ok value ∧ next value = .error (.diagnosed diagnostic) := by
  rw [bind_eq_error_iff, or_iff_right (plain diagnostic)]

theorem bind (plain : Undiagnosed first) (others : ∀ value, Undiagnosed (next value)) :
    Undiagnosed (first >>= next) := by
  intro diagnostic failed
  obtain ⟨value, -, later⟩ := plain.bind_eq_iff.mp failed
  exact others value diagnostic later

theorem mapM {convert : α → Except Error β} (each : ∀ value, Undiagnosed (convert value))
    (values : List α) : Undiagnosed (values.mapM convert) := by
  induction values with
  | nil => exact .ok []
  | cons value rest ih =>
      rw [List.mapM_cons]
      exact (each value).bind fun first => ih.bind fun others => .ok (first :: others)

end Undiagnosed

end

namespace Node

theorem undiagnosed_ofToken (token : Token) : Undiagnosed (ofToken token) :=
  .checked _

theorem undiagnosed_parameterOf (opener : Token) (cut : Token.Cut) :
    Undiagnosed (parameterOf opener cut) :=
  (Undiagnosed.mapM undiagnosed_ofToken cut.before).bind fun _ => .checked _

theorem undiagnosed_alternatives (wordStop start : Int) (nodes : List Node) (parts : List Part) :
    Undiagnosed (alternatives wordStop start nodes parts) := by
  induction parts generalizing start nodes with
  | nil => exact (Undiagnosed.checked _).bind fun last => .ok [last]
  | cons part rest ih =>
      cases part with
      | node child => exact ih start (nodes ++ [child])
      | separator token =>
          exact (Undiagnosed.checked _).bind fun node =>
            (ih token.stop []).bind fun others => .ok (node :: others)

theorem undiagnosed_ofWord (word : List Part) : Undiagnosed (ofWord word) := by
  cases word with
  | nil => exact .ok []
  | cons first rest =>
      rw [ofWord]
      split
      · apply Undiagnosed.bind ?_ fun node => .ok [node]
        exact (undiagnosed_alternatives _ _ _ _).bind fun _ => .checked _
      · exact .ok _

theorem undiagnosed_ofItems (word : List Part) (items : List Item) :
    Undiagnosed (ofItems word items) := by
  induction items generalizing word with
  | nil => exact undiagnosed_ofWord word
  | cons item rest ih =>
      cases item with
      | part piece => exact ih (word ++ [piece])
      | space token =>
          apply (undiagnosed_ofWord word).bind fun nodes => ?_
          exact (undiagnosed_ofToken token).bind fun space =>
            (ih []).bind fun others => .ok (nodes ++ space :: others)

/-- A parameter that is not closed, behind content that can be read. -/
inductive StopsContent (opener : Token) : List Token → Prop
  | behind {front inside : List Token} {nodes : List Node} (reads : ReadsContent front nodes)
      (opens : opener.kind = .parameterOpen)
      (missing : ∀ token ∈ inside, token.kind ≠ .parameterClose) :
      StopsContent opener (front ++ opener :: inside)

variable {expression : Text} {opener : Token} {content front rest : List Token} {nodes : List Node}
  {diagnostic : Diagnostic}

theorem StopsContent.append (first : ReadsContent front nodes) (stops : StopsContent opener rest) :
    StopsContent opener (front ++ rest) := by
  obtain ⟨reads, opens, missing⟩ := stops
  rw [← List.append_assoc]
  exact .behind (first.append reads) opens missing

theorem StopsContent.ofOptionalContent_eq (stops : StopsContent opener content)
    (blames : Diagnostic.Blames expression opener diagnostic) :
    ofOptionalContent expression content = .error (.diagnosed diagnostic) := by
  obtain ⟨reads, opens, missing⟩ := stops
  rw [reads.ofOptionalContent_append, bind_pure_eq_error_iff,
    ofOptionalContent_unclosed opens (Token.cut_eq_none_iff.mpr missing),
    diagnose_eq_diagnosed_iff, Diagnostic.unclosed_eq_ok_iff opens rfl]
  exact blames

theorem exists_stopsContent
    (failed : ofOptionalContent expression content = .error (.diagnosed diagnostic)) :
    ∃ opener, StopsContent opener content ∧ Diagnostic.Blames expression opener diagnostic := by
  induction content using ofOptionalContent.induct with
  | case1 =>
      rw [ofOptionalContent] at failed
      cases failed
  | case2 opener rest opens missing =>
      rw [ofOptionalContent_unclosed opens missing, diagnose_eq_diagnosed_iff,
        Diagnostic.unclosed_eq_ok_iff opens rfl] at failed
      exact ⟨opener, .behind .nil opens (Token.cut_eq_none_iff.mp missing), failed⟩
  | case3 outer rest opens cut found ih =>
      simp only [ofOptionalContent_parameter opens found, (undiagnosed_parameterOf _ _).bind_eq_iff,
        bind_pure_eq_error_iff, parameterOf_eq_ok_iff] at failed
      obtain ⟨_, ⟨valid, forward, -⟩, later⟩ := failed
      obtain ⟨rfl, brackets⟩ := Token.Brackets.of_cut opens found
      obtain ⟨opener, stops, blames⟩ := ih later
      have first := ReadsContent.parameter brackets valid forward .nil
      exact ⟨opener, by simpa using stops.append first, blames⟩
  | case4 token rest plain ih =>
      simp only [ofOptionalContent_leaf plain, (undiagnosed_ofToken _).bind_eq_iff,
        bind_pure_eq_error_iff, ofToken_eq_ok_iff] at failed
      obtain ⟨_, ⟨valid, -⟩, later⟩ := failed
      obtain ⟨opener, stops, blames⟩ := ih later
      exact ⟨opener, stops.append (.leaf plain valid .nil), blames⟩

end Node

namespace Item

/-- An opening token that is not closed, behind what can be read: either nothing closes it, or it
opens a parameter in an optional and the optional is closed first. -/
inductive Stops (opener : Token) : List Token → Prop
  | outer {front rest : List Token} {items : List Item} {closing : Token.Kind}
      (reads : Reads front items) (opens : opener.kind.closing? = some closing)
      (missing : ∀ token ∈ rest, token.kind ≠ closing) : Stops opener (front ++ opener :: rest)
  | inner {front content rest : List Token} {items : List Item} {outer closer : Token}
      (reads : Reads front items)
      (brackets : Token.Brackets .optionalOpen .optionalClose outer content closer)
      (stops : Node.StopsContent opener content) :
      Stops opener (front ++ outer :: (content ++ closer :: rest))

variable {expression : Text} {opener : Token} {front rest tokens : List Token} {items : List Item}
  {diagnostic : Diagnostic}

theorem Stops.append (first : Reads front items) (stops : Stops opener rest) :
    Stops opener (front ++ rest) := by
  cases stops with
  | outer reads opens missing =>
      rw [← List.append_assoc]
      exact .outer (first.append reads) opens missing
  | inner reads brackets stops =>
      rw [← List.append_assoc]
      exact .inner (first.append reads) brackets stops

/-- Reading stops at such a token. -/
theorem Stops.ofTokens_eq (stops : Stops opener tokens)
    (blames : Diagnostic.Blames expression opener diagnostic) :
    ofTokens expression tokens = .error (.diagnosed diagnostic) := by
  cases stops with
  | @outer _ rest _ closing reads opens missing =>
      rw [reads.ofTokens_append, bind_pure_eq_error_iff]
      have absent : Token.cut closing rest = none := Token.cut_eq_none_iff.mpr missing
      cases kind : opener.kind <;> rw [kind] at opens <;> cases opens
      · rw [ofTokens_unclosed_optional kind absent, diagnose_eq_diagnosed_iff,
          Diagnostic.unclosed_eq_ok_iff kind rfl]
        exact blames
      · rw [ofTokens_unclosed_parameter kind absent, diagnose_eq_diagnosed_iff,
          Diagnostic.unclosed_eq_ok_iff kind rfl]
        exact blames
  | inner reads brackets stops =>
      rw [reads.ofTokens_append, ofTokens_optional brackets.opens (brackets.cut_eq _),
        Node.optionalOf, stops.ofOptionalContent_eq blames]
      rfl

/-- A diagnostic is for a token at which reading stops. -/
theorem exists_stops (failed : ofTokens expression tokens = .error (.diagnosed diagnostic)) :
    ∃ opener, Stops opener tokens ∧ Diagnostic.Blames expression opener diagnostic := by
  induction tokens using ofTokens.induct with
  | case1 =>
      rw [ofTokens] at failed
      cases failed
  | case2 opener rest opens missing =>
      rw [ofTokens_unclosed_parameter opens missing, diagnose_eq_diagnosed_iff,
        Diagnostic.unclosed_eq_ok_iff opens rfl] at failed
      have closing : opener.kind.closing? = some .parameterClose := by rw [opens]; rfl
      exact ⟨opener, .outer .nil closing (Token.cut_eq_none_iff.mp missing), failed⟩
  | case3 outer rest opens cut found ih =>
      simp only [ofTokens_parameter opens found, (Node.undiagnosed_parameterOf _ _).bind_eq_iff,
        bind_pure_eq_error_iff, Node.parameterOf_eq_ok_iff] at failed
      obtain ⟨_, ⟨valid, forward, -⟩, later⟩ := failed
      obtain ⟨rfl, brackets⟩ := Token.Brackets.of_cut opens found
      obtain ⟨opener, stops, blames⟩ := ih later
      have first := Reads.parameter brackets valid forward .nil
      exact ⟨opener, by simpa using stops.append first, blames⟩
  | case4 opener rest opens missing =>
      rw [ofTokens_unclosed_optional opens missing, diagnose_eq_diagnosed_iff,
        Diagnostic.unclosed_eq_ok_iff opens rfl] at failed
      have closing : opener.kind.closing? = some .optionalClose := by rw [opens]; rfl
      exact ⟨opener, .outer .nil closing (Token.cut_eq_none_iff.mp missing), failed⟩
  | case5 outer rest opens cut found ih =>
      rw [ofTokens_optional opens found, bind_eq_error_iff] at failed
      obtain ⟨rfl, brackets⟩ := Token.Brackets.of_cut opens found
      rcases failed with inside | ⟨node, made, later⟩
      · rw [Node.optionalOf, bind_eq_error_iff] at inside
        rcases inside with inside | ⟨children, -, closed⟩
        · obtain ⟨opener, stops, blames⟩ := Node.exists_stopsContent inside
          exact ⟨opener, .inner .nil brackets stops, blames⟩
        · exact absurd closed (Undiagnosed.checked _ diagnostic)
      · obtain ⟨children, content, forward, -⟩ := Node.optionalOf_eq_ok_iff.mp made
        have first :=
          Reads.optional brackets (Node.ofOptionalContent_eq_ok_iff.mp content) forward .nil
        rw [bind_pure_eq_error_iff] at later
        obtain ⟨opener, stops, blames⟩ := ih later
        exact ⟨opener, by simpa using stops.append first, blames⟩
  | case6 token rest kind ih =>
      rw [ofTokens_space kind, bind_pure_eq_error_iff] at failed
      obtain ⟨opener, stops, blames⟩ := ih failed
      exact ⟨opener, stops.append (.space kind .nil), blames⟩
  | case7 token rest kind ih =>
      rw [ofTokens_separator kind, bind_pure_eq_error_iff] at failed
      obtain ⟨opener, stops, blames⟩ := ih failed
      exact ⟨opener, stops.append (.separator kind .nil), blames⟩
  | case8 token rest parameter optional space separator ih =>
      have plain : Plain token := ⟨parameter, optional, space, separator⟩
      simp only [ofTokens_leaf plain, (Node.undiagnosed_ofToken _).bind_eq_iff,
        bind_pure_eq_error_iff, Node.ofToken_eq_ok_iff] at failed
      obtain ⟨_, ⟨valid, -⟩, later⟩ := failed
      obtain ⟨opener, stops, blames⟩ := ih later
      exact ⟨opener, stops.append (.leaf plain valid .nil), blames⟩

end Item

namespace Node

variable {resolve : Resolver} {expression : Text} {tokens : List Token} {diagnostic : Diagnostic}

/-- Tokens are refused with a diagnostic exactly when reading stops between the line markers. -/
theorem ofTokensWith_eq_diagnosed_iff (plain : ∀ items, Undiagnosed (resolve items)) :
    ofTokensWith resolve expression tokens = .error (.diagnosed diagnostic) ↔
      ∃ first inner last opener, tokens = first :: (inner ++ [last]) ∧ first.kind = .lineStart ∧
        last.kind = .lineEnd ∧ Item.Stops opener inner ∧
        Diagnostic.Blames expression opener diagnostic := by
  constructor
  · intro failed
    rcases between_or_misuse resolve expression tokens with
      ⟨first, inner, last, rfl, starts, ends⟩ | misused
    · rw [ofTokensWith_between starts ends, bind_eq_error_iff] at failed
      rcases failed with stopped | ⟨items, -, later⟩
      · obtain ⟨opener, stops, blames⟩ := Item.exists_stops stopped
        exact ⟨first, inner, last, opener, rfl, starts, ends, stops, blames⟩
      · obtain ⟨children, -, closed⟩ := (plain items).bind_eq_iff.mp later
        exact absurd closed (Undiagnosed.checked _ diagnostic)
    · rw [misused] at failed
      cases failed
  · intro stopped
    obtain ⟨first, inner, last, opener, rfl, starts, ends, stops, blames⟩ := stopped
    rw [ofTokensWith_between starts ends, stops.ofTokens_eq blames]
    rfl

theorem ofTokens_eq_diagnosed_iff :
    ofTokens expression tokens = .error (.diagnosed diagnostic) ↔
      ∃ first inner last opener, tokens = first :: (inner ++ [last]) ∧ first.kind = .lineStart ∧
        last.kind = .lineEnd ∧ Item.Stops opener inner ∧
        Diagnostic.Blames expression opener diagnostic :=
  ofTokensWith_eq_diagnosed_iff (undiagnosed_ofItems [])

end Node

end CucumberExpression
