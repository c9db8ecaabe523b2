import CucumberExpression.Proofs.Acceptance
import CucumberExpression.Proofs.EscapedPositions

namespace CucumberExpression

/-! # Faults

What comes of an expression when a component is out of order. The fault shows, as an internal error
of its stage, exactly when reading comes to the component; a diagnostic that is due before is given
all the same. With tracing on, an internal error is recorded once, by the stage it arose in. -/

namespace Text

/-- Whether a position holds what is neither escaped nor a backslash that escapes. -/
def PlainAt (text : Text) (index : Nat) : Prop :=
  ¬ text.EscapedAt index ∧ ∃ point ∈ text[index]?, point ≠ .char '\\'

/-- Whether there is such a position, and none before it offends. -/
def ReachesPlain (text : Text) : Prop :=
  ∃ index, text.PlainAt index ∧ ∀ earlier < index, ¬ text.OffendsAt earlier

variable {text : Text} {point : CodePoint} {index : Nat}

theorem escapes_escape (point : CodePoint) (front : Text) :
    Escapes (.char '\\' :: point :: front) ↔ Escapes front := by
  induction front using List.reverseRecOn with
  | nil =>
      have alone : Escapes [.char '\\'] := by decide
      have pair : Escapes ([.char '\\'] ++ [point]) ↔ _ := escapes_concat
      simpa [alone, not_escapes_nil] using pair
  | append_singleton front last ih =>
      rw [← List.cons_append, ← List.cons_append, escapes_concat, escapes_concat, ih]

theorem escapedAt_escape :
    EscapedAt (.char '\\' :: point :: text) (index + 2) ↔ text.EscapedAt index := by
  rw [EscapedAt, EscapedAt, List.take_succ_cons, List.take_succ_cons, escapes_escape]

theorem escapedAt_one : EscapedAt (.char '\\' :: text) 1 := by
  rw [EscapedAt, List.take_succ_cons, List.take_zero]
  decide

theorem plainAt_escape :
    PlainAt (.char '\\' :: point :: text) (index + 2) ↔ text.PlainAt index := by
  rw [PlainAt, PlainAt, escapedAt_escape]
  rfl

theorem offendsAt_escape :
    OffendsAt (.char '\\' :: point :: text) (index + 2) ↔ text.OffendsAt index := by
  rw [OffendsAt, OffendsAt, escapedAt_escape]
  rfl

theorem not_plainAt_escape (low : index < 2) : ¬ PlainAt (.char '\\' :: point :: text) index := by
  intro plain
  obtain ⟨unescaped, other, there, different⟩ := plain
  obtain rfl | rfl : index = 0 ∨ index = 1 := by omega
  · cases there
    exact different rfl
  · exact unescaped escapedAt_one

theorem reachesPlain_escape (reserved : Token.isReserved point = true) :
    ReachesPlain (.char '\\' :: point :: text) ↔ text.ReachesPlain := by
  constructor
  · intro reaches
    obtain ⟨index, plain, clear⟩ := reaches
    obtain low | ⟨later, rfl⟩ : index < 2 ∨ ∃ later, index = later + 2 := by
      rcases Nat.lt_or_ge index 2 with low | high
      · exact .inl low
      · exact .inr ⟨index - 2, by omega⟩
    · exact absurd plain (not_plainAt_escape low)
    · refine ⟨later, plainAt_escape.mp plain, fun earlier before offends => ?_⟩
      exact clear (earlier + 2) (by omega) (offendsAt_escape.mpr offends)
  · intro reaches
    obtain ⟨index, plain, clear⟩ := reaches
    refine ⟨index + 2, plainAt_escape.mpr plain, fun earlier before offends => ?_⟩
    obtain _ | _ | earlier := earlier
    · exact not_escapes_nil offends.1
    · obtain ⟨-, other, there, free⟩ := offends
      cases there
      rw [reserved] at free
      cases free
    · exact clear earlier (by omega) (offendsAt_escape.mp offends)

theorem not_reachesPlain_nil : ¬ ReachesPlain [] := by
  intro reaches
  obtain ⟨index, ⟨-, point, there, -⟩, -⟩ := reaches
  cases there

theorem not_reachesPlain_lineEnd : ¬ ReachesPlain [.char '\\'] := by
  intro reaches
  obtain ⟨index, ⟨-, point, there, different⟩, -⟩ := reaches
  cases index with
  | zero =>
      cases there
      exact different rfl
  | succ later => cases there

theorem not_reachesPlain_unescapable (free : Token.isReserved point = false) :
    ¬ ReachesPlain (.char '\\' :: point :: text) := by
  intro reaches
  obtain ⟨index, plain, clear⟩ := reaches
  rcases Nat.lt_or_ge index 2 with low | high
  · exact not_plainAt_escape low plain
  · exact clear 1 high ⟨escapedAt_one, point, rfl, free⟩

theorem reachesPlain_plain (plain : point ≠ .char '\\') : ReachesPlain (point :: text) :=
  ⟨0, ⟨not_escapes_nil, point, rfl, plain⟩, fun _ before => absurd before (Nat.not_lt_zero _)⟩

end Text

/-- Glyphs are read as ever up to the first code point whose kind has to be found. -/
theorem Glyph.read_crashing (source : Text) (offset : Nat) (text : Text) :
    (text.ReachesPlain ∧
        read (Components.crashing .tokenizing).classify source offset text = .error .crash) ∨
      ¬ text.ReachesPlain ∧
        read (Components.crashing .tokenizing).classify source offset text =
          read .standard source offset text := by
  induction offset, text using read.induct with
  | case1 offset => exact .inr ⟨Text.not_reachesPlain_nil, rfl⟩
  | case2 offset =>
      refine .inr ⟨Text.not_reachesPlain_lineEnd, ?_⟩
      rw [read, if_pos rfl, read, if_pos rfl]
  | case3 offset escaped others reserved ih =>
      rw [read_escape reserved, read_escape reserved, Text.reachesPlain_escape reserved]
      rcases ih with ⟨reaches, failed⟩ | ⟨clear, same⟩
      · exact .inl ⟨reaches, by rw [failed]; rfl⟩
      · exact .inr ⟨clear, by rw [same]⟩
  | case4 offset escaped others free =>
      have unreserved : Token.isReserved escaped = false := by simpa using free
      refine .inr ⟨Text.not_reachesPlain_unescapable unreserved, ?_⟩
      simp only [read, if_true, unreserved, Bool.false_eq_true, if_false]
  | case5 offset point rest plain ih =>
      refine .inl ⟨Text.reachesPlain_plain plain, ?_⟩
      rw [read.eq_def]
      simp only [if_neg plain]
      rfl

/-! ## Records

The records of a run, gathered stage by stage. -/

/-- What a stage ends with and the records it leaves. -/
structure Watched (α : Type) where
  outcome : Except Error α
  records : List Record

/-- A stage that is gone on from only if it ends well. -/
def Watched.andThen {α β : Type} (first : Watched α) (next : α → Watched β) : Watched β :=
  match first.outcome with
  | .ok value => ⟨(next value).outcome, first.records ++ (next value).records⟩
  | .error error => ⟨.error error, first.records⟩

/-- Where an unexpected error is marked as internal it is recorded, if tracing is on. -/
def Stage.watch {α : Type} (stage : Stage) (tracing : Bool) : Except Error α → Watched α
  | .ok value => ⟨.ok value, []⟩
  | .error error =>
      if error.isExpected then ⟨.error error, []⟩
      else ⟨.error (.internal stage error), if tracing then [⟨stage, error⟩] else []⟩

def tokenizeWatched (tracing : Bool) (classify : Classifier) (expression : Text) :
    Watched (List Token) :=
  Stage.tokenizing.watch tracing do
    let glyphs ← Glyph.read classify expression 0 expression
    return Token.withMarkers expression.length (Token.ofGlyphs glyphs)

def parseWatched (tracing : Bool) (components : Components) (expression : Text) : Watched Node :=
  (tokenizeWatched tracing components.classify expression).andThen fun tokens =>
    Stage.parsing.watch tracing (Node.ofTokensWith components.resolve expression tokens)

/-- Whether reading comes to the component of a stage. Tokenizing has to find the kind of a code
point; words are resolved when all brackets have been read, and nothing fails after that. -/
def Stage.Reached : Stage → Text → Prop
  | .tokenizing, expression => expression.ReachesPlain
  | .parsing, expression => ∃ tree, parse expression = .ok tree

/-- An outcome that is not an internal error. -/
def Faultless {α : Type} (outcome : Except Error α) : Prop :=
  ∀ stage cause, outcome ≠ .error (.internal stage cause)

section

variable {α β : Type} {tracing : Bool} {components : Components} {expression : Text}

theorem records_of_faultless {outcome : Except Error α} (faultless : Faultless outcome) :
    records tracing outcome = [] := by
  cases outcome with
  | ok value => rfl
  | error error =>
      cases error with
      | internal stage cause => exact absurd rfl (faultless stage cause)
      | _ => rfl

namespace Watched

theorem outcome_andThen (first : Watched α) (next : α → Watched β) :
    (first.andThen next).outcome = first.outcome >>= fun value => (next value).outcome := by
  obtain ⟨outcome, kept⟩ := first
  cases outcome <;> rfl

theorem records_andThen {first : Watched α} {next : α → Watched β} (before : first.records = [])
    (after : ∀ value, first.outcome = .ok value → (next value).records = []) :
    (first.andThen next).records = [] := by
  obtain ⟨outcome, kept⟩ := first
  obtain rfl : kept = [] := before
  cases outcome with
  | ok value => exact after value rfl
  | error error => rfl

end Watched

namespace Stage

theorem outcome_watch (stage : Stage) (tracing : Bool) (outcome : Except Error α) :
    (stage.watch tracing outcome).outcome = stage.guard outcome := by
  cases outcome with
  | ok value => rfl
  | error error =>
      simp only [watch, guard]
      split <;> rfl

theorem records_watch_of_faultless {stage : Stage} {outcome : Except Error α}
    (faultless : Faultless (stage.guard outcome)) :
    (stage.watch tracing outcome).records = [] := by
  cases outcome with
  | ok value => rfl
  | error error =>
      cases expected : error.isExpected with
      | true => simp [watch, expected]
      | false =>
          have marked : stage.guard (.error error : Except Error α) =
              .error (.internal stage error) := by
            simp [guard, expected]
          exact absurd marked (faultless stage error)

end Stage

theorem outcome_tokenizeWatched (tracing : Bool) (classify : Classifier) (expression : Text) :
    (tokenizeWatched tracing classify expression).outcome = tokenizeWith classify expression :=
  Stage.outcome_watch _ _ _

theorem tokenizeWatched_of_ok {classify : Classifier} {tokens : List Token}
    (tokenized : tokenizeWith classify expression = .ok tokens) :
    tokenizeWatched tracing classify expression = ⟨.ok tokens, []⟩ := by
  rw [tokenizeWith, Stage.guard_eq_ok_iff] at tokenized
  rw [tokenizeWatched, tokenized]
  rfl

/-- Keeping records makes no difference to what is read. -/
theorem outcome_parseWatched (tracing : Bool) (components : Components) (expression : Text) :
    (parseWatched tracing components expression).outcome = parseWith components expression := by
  rw [parseWatched, Watched.outcome_andThen, outcome_tokenizeWatched]
  simp only [Stage.outcome_watch]
  rfl

/-- No records are left but of internal errors. -/
theorem parseWatched_of_faultless (faultless : Faultless (parseWith components expression)) :
    parseWatched tracing components expression = ⟨parseWith components expression, []⟩ := by
  have kept : (parseWatched tracing components expression).records = [] := by
    apply Watched.records_andThen
    · apply Stage.records_watch_of_faultless
      intro stage cause failed
      exact faultless stage cause (parseWith_of_tokenizeWith_error failed)
    · intro tokens tokenized
      apply Stage.records_watch_of_faultless
      rw [outcome_tokenizeWatched] at tokenized
      rw [← parseWith_of_tokenizeWith tokenized]
      exact faultless
  rw [← outcome_parseWatched tracing, ← kept]

theorem faultless_parse (expression : Text) : Faultless (parse expression) := by
  intro stage cause failed
  rcases parse_cases expression with ⟨tree, read⟩ | ⟨diagnostic, failed'⟩
  · rw [read] at failed
    cases failed
  · rw [failed'] at failed
    cases failed

theorem parseWatched_of_reached {stage : Stage} (tracing : Bool)
    (reached : stage.Reached expression) :
    parseWatched tracing (.crashing stage) expression =
      ⟨.error (.internal stage .crash), if tracing then [⟨stage, .crash⟩] else []⟩ := by
  cases stage with
  | tokenizing =>
      rcases Glyph.read_crashing expression 0 expression with ⟨-, failed⟩ | ⟨clear, -⟩
      · rw [parseWatched, tokenizeWatched, failed]
        rfl
      · exact absurd reached clear
  | parsing =>
      obtain ⟨tree, read⟩ := reached
      obtain ⟨inner, items, children, spells, reads, -, -⟩ := parse_eq_ok_iff.mp read
      have tokenized : tokenizeWith (Components.crashing .parsing).classify expression = .ok _ :=
        tokenize_of_spells spells
      have failed : Node.ofTokensWith (Components.crashing .parsing).resolve expression
          (Token.withMarkers expression.length inner) = .error .crash := by
        rw [Token.withMarkers, List.cons_append, Node.ofTokensWith_between rfl rfl,
          Item.ofTokens_eq_ok_iff.mpr reads]
        rfl
      simp only [parseWatched, tokenizeWatched_of_ok tokenized, Watched.andThen, failed]
      rfl

theorem parseWith_of_not_reached {stage : Stage} (missed : ¬ stage.Reached expression) :
    parseWith (.crashing stage) expression = parse expression := by
  cases stage with
  | tokenizing =>
      rcases Glyph.read_crashing expression 0 expression with ⟨reaches, -⟩ | ⟨-, same⟩
      · exact absurd reaches missed
      · simp only [parse, parseWith, tokenizeWith, same]
        rfl
  | parsing =>
      obtain ⟨diagnostic, failed⟩ := (parse_cases expression).resolve_left missed
      rw [failed]
      cases tokenized : tokenize expression with
      | error error =>
          rw [parse_of_tokenize_error tokenized] at failed
          rw [← failed]
          exact parseWith_of_tokenizeWith_error tokenized
      | ok tokens =>
          rw [parse_of_tokenize tokenized, Stage.guard_eq_diagnosed_iff,
            Node.ofTokens_eq_diagnosed_iff] at failed
          have crashes (items : List Item) :
              Undiagnosed ((Components.crashing .parsing).resolve items) := by
            intro diagnostic failed
            cases failed
          have same := (Node.ofTokensWith_eq_diagnosed_iff crashes).mpr failed
          have alike :
              tokenizeWith (Components.crashing .parsing).classify expression = .ok tokens := tokenized
          rw [parseWith_of_tokenizeWith alike, same]
          rfl

end

end CucumberExpression
