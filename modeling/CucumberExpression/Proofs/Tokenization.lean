import CucumberExpression.Proofs.Reading
import Mathlib.Data.List.SplitBy

namespace CucumberExpression

/-! # Tokenization

A row of tokens is a list of proper tokens one after the other, where no two neighbours could be one
token. Tokenizing gives the one row that spells an expression, between the line markers. -/

namespace Token

def Apart (left right : Token) : Prop :=
  ¬ (left.kind = right.kind ∧ left.kind.isRun = true)

structure Row (low : Int) (tokens : List Token) (high : Int) : Prop where
  proper : ∀ token ∈ tokens, token.Proper
  apart : tokens.IsChain Apart
  tiled : Tiled start stop low tokens high

/-- Where a row goes from one list of tokens to the next, it does not go on with the same token. -/
def Seam (left right : List Token) : Prop :=
  ∀ last ∈ left.getLast?, ∀ first ∈ right.head?, Apart last first

/-- What the first and the last token of a list are like, if it has any. -/
structure EndsIn (Allowed : Kind → Prop) (tokens : List Token) : Prop where
  first : ∀ token ∈ tokens.head?, Allowed token.kind
  last : ∀ token ∈ tokens.getLast?, Allowed token.kind

namespace EndsIn

variable {Allowed : Kind → Prop} {tokens left right : List Token}

theorem nil : EndsIn Allowed [] :=
  ⟨by simp, by simp⟩

theorem singleton {token : Token} (allowed : Allowed token.kind) : EndsIn Allowed [token] :=
  ⟨by simpa using allowed, by simpa using allowed⟩

theorem mono {Allowed' : Kind → Prop} (ends : EndsIn Allowed tokens)
    (weaker : ∀ kind, Allowed kind → Allowed' kind) : EndsIn Allowed' tokens :=
  ⟨fun token member => weaker _ (ends.first token member),
    fun token member => weaker _ (ends.last token member)⟩

theorem append (front : EndsIn Allowed left) (back : EndsIn Allowed right) :
    EndsIn Allowed (left ++ right) := by
  constructor
  · intro token member
    rw [List.head?_append] at member
    cases left with
    | nil => exact back.first token (by simpa using member)
    | cons first rest => exact front.first token (by simpa using member)
  · intro token member
    rw [List.getLast?_append] at member
    cases found : right.getLast? with
    | none => exact front.last token (by simpa [found] using member)
    | some last => exact back.last token (by simpa [found] using member)

theorem flatMap {α : Type} {parts : α → List Token} {items : List α}
    (each : ∀ item ∈ items, EndsIn Allowed (parts item)) : EndsIn Allowed (items.flatMap parts) := by
  induction items with
  | nil => exact nil
  | cons item rest ih =>
      rw [List.flatMap_cons]
      exact append (each item (by simp)) (ih fun other member => each other (by simp [member]))

end EndsIn

theorem Seam.of_ends {Left Right : Kind → Prop} {left right : List Token}
    (leftEnds : EndsIn Left left) (rightEnds : EndsIn Right right)
    (different : ∀ kind, Left kind → Right kind → kind.isRun = false) : Seam left right := by
  intro last lastMember first firstMember joined
  obtain ⟨same, isRun⟩ := joined
  have lastKind := leftEnds.last last lastMember
  have firstKind := rightEnds.first first firstMember
  rw [← same] at firstKind
  rw [different _ lastKind firstKind] at isRun
  cases isRun

theorem Seam.of_last {left right : List Token}
    (firm : ∀ last ∈ left.getLast?, last.kind.isRun = false) : Seam left right := by
  rintro last member first - ⟨-, isRun⟩
  rw [firm last member] at isRun
  cases isRun

theorem Seam.of_first {left right : List Token}
    (firm : ∀ first ∈ right.head?, first.kind.isRun = false) : Seam left right := by
  rintro last - first member ⟨same, isRun⟩
  rw [same, firm first member] at isRun
  cases isRun

namespace Row

variable {low middle high : Int} {token : Token} {tokens left right : List Token}

theorem nil : Row low [] low :=
  ⟨by simp, .nil, rfl⟩

theorem singleton (proper : token.Proper) : Row token.start [token] token.stop :=
  ⟨by simpa using proper, .singleton _, rfl, rfl⟩

theorem append (front : Row low left middle) (back : Row middle right high)
    (seam : Seam left right) : Row low (left ++ right) high := by
  refine ⟨?_, List.isChain_append.mpr ⟨front.apart, back.apart, seam⟩,
    front.tiled.append back.tiled⟩
  intro token member
  rcases List.mem_append.mp member with member | member
  · exact front.proper token member
  · exact back.proper token member

theorem of_append (row : Row low (left ++ right) high) :
    ∃ middle, Row low left middle ∧ Row middle right high ∧ Seam left right := by
  obtain ⟨proper, apart, tiled⟩ := row
  obtain ⟨middle, front, back⟩ := Tiled.append_iff.mp tiled
  obtain ⟨frontApart, backApart, seam⟩ := List.isChain_append.mp apart
  exact ⟨middle, ⟨fun token member => proper token (by simp [member]), frontApart, front⟩,
    ⟨fun token member => proper token (by simp [member]), backApart, back⟩, seam⟩

theorem append_iff : Row low (left ++ right) high ↔
    ∃ middle, Row low left middle ∧ Row middle right high ∧ Seam left right := by
  constructor
  · exact of_append
  · intro split
    obtain ⟨middle, front, back, seam⟩ := split
    exact front.append back seam

theorem low_unique {low' : Int} (nonempty : tokens ≠ []) (row : Row low tokens high)
    (row' : Row low' tokens middle) : low = low' := by
  obtain ⟨first, rest, rfl⟩ := List.exists_cons_of_ne_nil nonempty
  exact row.tiled.1.symm.trans row'.tiled.1

theorem of_cons (row : Row low (token :: tokens) high) :
    token.Proper ∧ token.start = low ∧ Row token.stop tokens high :=
  ⟨row.proper token (by simp), row.tiled.1,
    fun other member => row.proper other (by simp [member]), row.apart.tail, row.tiled.2⟩

/-- A row is as long as its spelling. -/
theorem high_eq (row : Row low tokens high) :
    high = low + (tokens.flatMap spelling).length := by
  induction tokens generalizing low with
  | nil => simpa using row.tiled.symm
  | cons token rest ih =>
      obtain ⟨proper, rfl, tail⟩ := row.of_cons
      rw [ih tail, proper.width, List.flatMap_cons, List.length_append, Int.natCast_add,
        Int.add_assoc]

end Row

structure Spells (low : Int) (tokens : List Token) (high : Int) (text : Text) : Prop where
  row : Row low tokens high
  written : tokens.flatMap spelling = text

namespace Spells

variable {low middle high : Int} {left right tokens : List Token} {front back text : Text}

theorem append (first : Spells low left middle front) (second : Spells middle right high back)
    (seam : Seam left right) : Spells low (left ++ right) high (front ++ back) :=
  ⟨first.row.append second.row seam, by rw [List.flatMap_append, first.written, second.written]⟩

theorem high_eq (spells : Spells low tokens high text) : high = low + text.length := by
  rw [spells.row.high_eq, spells.written]

end Spells

theorem Kind.Fits.single {kind : Kind} {content : Text} (fits : kind.Fits content)
    {point : CodePoint} (member : point ∈ content) : kind.Fits [point] := by
  rw [Kind.fits_singleton]
  cases kind with
  | text => exact .inl rfl
  | space => exact .inr (fits.2 point member).symm
  | _ =>
      obtain ⟨symbol, written, rfl⟩ := fits
      obtain rfl : point = .char symbol := by simpa using member
      exact .inr (ofChar_of_symbol? written).symm

theorem Kind.Fits.ne_nil {kind : Kind} {content : Text} (fits : kind.Fits content) :
    content ≠ [] := by
  cases kind with
  | text => exact fits
  | space => exact fits.1
  | _ =>
      obtain ⟨symbol, written, rfl⟩ := fits
      simp

theorem Kind.Fits.of_forall {kind : Kind} {content : Text} (nonempty : content ≠ [])
    (run : kind.isRun = true) (each : ∀ point ∈ content, kind.Fits [point]) :
    kind.Fits content := by
  cases kind with
  | text => exact nonempty
  | space => exact ⟨nonempty, fun point member => (each point member).2 point (by simp)⟩
  | _ => cases run

theorem Kind.Fits.length_eq_one {kind : Kind} {content : Text} (fits : kind.Fits content)
    (delimiter : kind.isRun = false) : content.length = 1 := by
  cases kind with
  | text | space => cases delimiter
  | _ =>
      obtain ⟨symbol, written, rfl⟩ := fits
      rfl

theorem Kind.Fits.not_marker {kind : Kind} {content : Text} (fits : kind.Fits content) :
    kind ≠ .lineStart ∧ kind ≠ .lineEnd := by
  constructor <;> rintro rfl <;> obtain ⟨symbol, written, -⟩ := fits <;> cases written

theorem spelling_eq_flatMap (kind : Kind) (content : Text) (start stop : Int) :
    spelling ⟨kind, content, start, stop⟩ =
      content.flatMap fun point => spelling ⟨kind, [point], start, stop⟩ := by
  cases kind with
  | text => simp [spelling, escape]
  | _ => simp [spelling]

end Token

namespace Glyph

/-- Glyphs that make one token. -/
structure Run (kind : Token.Kind) (run : List Glyph) : Prop where
  nonempty : run ≠ []
  uniform : ∀ glyph ∈ run, glyph.kind = kind
  single : kind.isRun = true ∨ run.length = 1

theorem isRun_of_joins {left right : Glyph} (joined : left.joins right = true) :
    left.kind = right.kind ∧ left.kind.isRun = true := by
  simpa [joins] using joined

theorem Run.of_isChain {run : List Glyph} (nonempty : run ≠ [])
    (chain : run.IsChain fun left right => left.joins right = true) : ∃ kind, Run kind run := by
  induction run with
  | nil => exact absurd rfl nonempty
  | cons first rest ih =>
      cases rest with
      | nil => exact ⟨first.kind, by simp, by simp, .inr rfl⟩
      | cons second rest =>
          obtain ⟨joined, chain⟩ := List.isChain_cons_cons.mp chain
          obtain ⟨same, isRun⟩ := isRun_of_joins joined
          obtain ⟨kind, run⟩ := ih (by simp) chain
          obtain rfl : second.kind = kind := run.uniform second (by simp)
          refine ⟨second.kind, by simp, ?_, .inl (same ▸ isRun)⟩
          intro glyph member
          rcases List.mem_cons.mp member with rfl | member
          · exact same
          · exact run.uniform glyph member

theorem Run.isChain {kind : Token.Kind} {run : List Glyph} (uniform : Run kind run) :
    run.IsChain fun left right => left.joins right = true := by
  rcases uniform.single with isRun | single
  · apply List.Pairwise.isChain
    apply List.pairwise_of_forall_mem_list
    intro left leftMember right rightMember
    simp [joins, uniform.uniform left leftMember, uniform.uniform right rightMember, isRun]
  · obtain ⟨glyph, rfl⟩ := List.length_eq_one_iff.mp single
    exact List.isChain_singleton glyph

variable {kind : Token.Kind} {offset : Nat} {run : List Glyph} {text : Text}

theorem flatMap_spelling (uniform : ∀ glyph ∈ run, glyph.kind = kind) (start stop : Int) :
    run.flatMap spelling = Token.spelling ⟨kind, run.map (·.point), start, stop⟩ := by
  rw [Token.spelling_eq_flatMap, List.flatMap_map]
  apply List.flatMap_congr
  intro glyph member
  rw [← uniform glyph member]
  rfl

theorem ofRun_eq (uniform : Run kind run) (spells : Spells offset run text) :
    Token.ofRun run = ⟨kind, run.map (·.point), offset, (offset + text.length : Nat)⟩ := by
  cases run with
  | nil => exact absurd rfl uniform.nonempty
  | cons first rest =>
      have tiled := spells.tiled
      simp only [Token.ofRun, uniform.uniform first (by simp), tiled.head_start, tiled.last_stop]

theorem proper_ofRun (uniform : Run kind run) (spells : Spells offset run text) :
    (Token.ofRun run).Proper ∧ (Token.ofRun run).spelling = text := by
  have written : Token.spelling (Token.ofRun run) = text := by
    rw [ofRun_eq uniform spells, ← flatMap_spelling uniform.uniform, spells.written]
  refine ⟨⟨?_, ?_⟩, written⟩
  · rw [ofRun_eq uniform spells]
    have each : ∀ point ∈ run.map (·.point), kind.Fits [point] := by
      intro point member
      obtain ⟨glyph, inside, rfl⟩ := List.mem_map.mp member
      rw [← uniform.uniform glyph inside]
      exact (spells.proper glyph inside).fits
    rcases uniform.single with isRun | single
    · exact .of_forall (by simpa using uniform.nonempty) isRun each
    · obtain ⟨glyph, rfl⟩ := List.length_eq_one_iff.mp single
      exact each glyph.point (by simp)
  · rw [written, ofRun_eq uniform spells]
    exact Int.natCast_add offset text.length

theorem apart_ofRun_iff {leftKind rightKind : Token.Kind} {left right : List Glyph}
    (leftRun : Run leftKind left) (rightRun : Run rightKind right) :
    Token.Apart (Token.ofRun left) (Token.ofRun right) ↔
      ∃ hasLast hasFirst, (left.getLast hasLast).joins (right.head hasFirst) = false := by
  have kindOf {kind : Token.Kind} {run : List Glyph} (isRun : Run kind run) :
      (Token.ofRun run).kind = kind := by
    cases run with
    | nil => exact absurd rfl isRun.nonempty
    | cons first rest => exact isRun.uniform first (by simp)
  have last := leftRun.uniform _ (List.getLast_mem leftRun.nonempty)
  have first := rightRun.uniform _ (List.head_mem rightRun.nonempty)
  simp [Token.Apart, kindOf leftRun, kindOf rightRun, joins, last, first, leftRun.nonempty,
    rightRun.nonempty]

theorem spells_map_ofRun {runs : List (List Glyph)} (uniform : ∀ run ∈ runs, ∃ kind, Run kind run)
    (apart : (runs.map Token.ofRun).IsChain Token.Apart) (spells : Spells offset runs.flatten text) :
    Token.Spells offset (runs.map Token.ofRun) (offset + text.length : Nat) text := by
  induction runs generalizing offset text with
  | nil =>
      obtain rfl : [] = text := spells.written
      exact ⟨.nil, rfl⟩
  | cons run rest ih =>
      rw [List.flatten_cons] at spells
      obtain ⟨front, back, rfl, first, second⟩ := spells.of_append
      obtain ⟨kind, isRun⟩ := uniform run (by simp)
      obtain ⟨proper, written⟩ := proper_ofRun isRun first
      obtain ⟨tail, others⟩ :=
        ih (fun other member => uniform other (by simp [member])) apart.tail second
      refine ⟨⟨?_, apart, ?_⟩, ?_⟩
      · simpa using ⟨proper, fun other member => tail.proper _ (List.mem_map_of_mem member)⟩
      · rw [List.map_cons, ofRun_eq isRun first, List.length_append, ← Nat.add_assoc]
        exact ⟨rfl, tail.tiled⟩
      · rw [List.map_cons, List.flatMap_cons, written, others]

theorem Spells.ofGlyphs {glyphs : List Glyph} (spells : Spells offset glyphs text) :
    Token.Spells offset (Token.ofGlyphs glyphs) (offset + text.length : Nat) text := by
  have uniform : ∀ run ∈ glyphs.splitBy joins, ∃ kind, Run kind run := fun run member =>
    Run.of_isChain (List.ne_nil_of_mem_splitBy member) (List.isChain_of_mem_splitBy member)
  apply spells_map_ofRun uniform ?_ (by rwa [List.flatten_splitBy])
  rw [List.isChain_map]
  apply (List.isChain_getLast_head_splitBy joins glyphs).imp_of_mem_imp ?_
  intro left right leftMember rightMember different
  obtain ⟨leftKind, leftRun⟩ := uniform left leftMember
  obtain ⟨rightKind, rightRun⟩ := uniform right rightMember
  exact (apart_ofRun_iff leftRun rightRun).mpr different

def row (kind : Token.Kind) : Nat → Text → List Glyph
  | _, [] => []
  | offset, point :: rest =>
      let width := (Token.spelling ⟨kind, [point], 0, 0⟩).length
      ⟨kind, point, offset, offset + width⟩ :: row kind (offset + width) rest

theorem map_point_row (kind : Token.Kind) (offset : Nat) (content : Text) :
    (row kind offset content).map (·.point) = content := by
  induction content generalizing offset with
  | nil => rfl
  | cons point rest ih => rw [row, List.map_cons, ih]

theorem spells_row {content : Text} (each : ∀ point ∈ content, kind.Fits [point]) :
    Spells offset (row kind offset content) (Token.spelling ⟨kind, content, 0, 0⟩) := by
  induction content generalizing offset with
  | nil =>
      rw [Token.spelling_eq_flatMap]
      exact .nil
  | cons point rest ih =>
      rw [Token.spelling_eq_flatMap, List.flatMap_cons, ← Token.spelling_eq_flatMap]
      exact .cons ⟨each point (by simp), Int.natCast_add _ _⟩ rfl
        (ih fun other member => each other (by simp [member]))

theorem run_row {content : Text} (fits : kind.Fits content) : Run kind (row kind offset content) := by
  have length : (row kind offset content).length = content.length := by
    rw [← congrArg List.length (map_point_row kind offset content), List.length_map]
  refine ⟨?_, ?_, ?_⟩
  · intro empty
    rw [empty, List.length_nil] at length
    exact fits.ne_nil (List.length_eq_zero_iff.mp length.symm)
  · clear fits length
    induction content generalizing offset with
    | nil => simp [row]
    | cons point rest ih => simpa [row] using ih
  · cases isRun : kind.isRun with
    | true => exact .inl rfl
    | false => exact .inr (length.trans (fits.length_eq_one isRun))

theorem exists_run {token : Token} (proper : token.Proper) (start : token.start = offset) :
    ∃ run, Run token.kind run ∧ Spells offset run token.spelling ∧ Token.ofRun run = token := by
  obtain ⟨kind, content, low, high⟩ := token
  obtain ⟨fits, width⟩ := proper
  obtain rfl : low = offset := start
  have spells : Spells offset (row kind offset content) (Token.spelling ⟨kind, content, 0, 0⟩) :=
    spells_row fun point member => fits.single member
  refine ⟨row kind offset content, run_row fits, spells, ?_⟩
  rw [ofRun_eq (run_row fits) spells, map_point_row, Int.natCast_add]
  exact congrArg _ width.symm

/-- Every row of tokens comes from runs of the glyphs that spell it. -/
theorem exists_runs {tokens : List Token} {high : Int} (row : Token.Row offset tokens high) :
    ∃ runs : List (List Glyph), (∀ run ∈ runs, ∃ kind, Run kind run) ∧
      Spells offset runs.flatten (tokens.flatMap Token.spelling) ∧
      runs.map Token.ofRun = tokens := by
  induction tokens generalizing offset with
  | nil => exact ⟨[], by simp, .nil, rfl⟩
  | cons token rest ih =>
      obtain ⟨proper, start, tail⟩ := row.of_cons
      obtain ⟨run, isRun, spells, made⟩ := exists_run proper start
      have stop : token.stop = (offset + token.spelling.length : Nat) := by
        rw [proper.width, start, Int.natCast_add]
      rw [stop] at tail
      obtain ⟨runs, uniform, others, same⟩ := ih tail
      refine ⟨run :: runs, ?_, ?_, by rw [List.map_cons, made, same]⟩
      · simpa using ⟨⟨_, isRun⟩, uniform⟩
      · rw [List.flatten_cons, List.flatMap_cons]
        exact spells.append others

theorem ofGlyphs_flatten {runs : List (List Glyph)} (uniform : ∀ run ∈ runs, ∃ kind, Run kind run)
    (apart : (runs.map Token.ofRun).IsChain Token.Apart) :
    Token.ofGlyphs runs.flatten = runs.map Token.ofRun := by
  rw [Token.ofGlyphs, List.splitBy_flatten]
  · intro member
    obtain ⟨kind, isRun⟩ := uniform [] member
    exact isRun.nonempty rfl
  · intro run member
    obtain ⟨kind, isRun⟩ := uniform run member
    exact isRun.isChain
  · rw [List.isChain_map] at apart
    apply apart.imp_of_mem_imp
    intro left right leftMember rightMember different
    obtain ⟨leftKind, leftRun⟩ := uniform left leftMember
    obtain ⟨rightKind, rightRun⟩ := uniform right rightMember
    exact (apart_ofRun_iff leftRun rightRun).mp different

end Glyph

namespace Token

/-- A row of tokens and the glyphs it consists of spell the same. -/
theorem spells_iff {offset : Nat} {tokens : List Token} {text : Text} :
    Spells offset tokens (offset + text.length : Nat) text ↔
      ∃ glyphs, Glyph.Spells offset glyphs text ∧ ofGlyphs glyphs = tokens := by
  constructor
  · intro spells
    obtain ⟨row, rfl⟩ := spells
    obtain ⟨runs, uniform, spells, rfl⟩ := Glyph.exists_runs row
    exact ⟨runs.flatten, spells, Glyph.ofGlyphs_flatten uniform row.apart⟩
  · intro read
    obtain ⟨glyphs, spells, rfl⟩ := read
    exact spells.ofGlyphs

theorem Row.exists_glyphs {tokens : List Token} {high : Int} (row : Row 0 tokens high) :
    ∃ glyphs, Glyph.Spells 0 glyphs (tokens.flatMap spelling) := by
  have spells : Spells (0 : Nat) tokens (0 + (tokens.flatMap spelling).length : Nat)
      (tokens.flatMap spelling) := by
    refine ⟨?_, rfl⟩
    have same := row.high_eq
    rw [Int.zero_add] at same
    rw [Nat.zero_add, ← same]
    exact row
  obtain ⟨glyphs, spelled, -⟩ := spells_iff.mp spells
  exact ⟨glyphs, spelled⟩

end Token

variable {expression : Text}

theorem tokenize_eq_ok_iff {tokens : List Token} :
    tokenize expression = .ok tokens ↔
      ∃ inner, tokens = Token.withMarkers expression.length inner ∧
        Token.Spells 0 inner expression.length expression := by
  have cutting : ∀ inner, Token.Spells 0 inner expression.length expression ↔
      ∃ glyphs, Glyph.read .standard expression 0 expression = .ok glyphs ∧
        Token.ofGlyphs glyphs = inner := by
    intro inner
    simp only [Glyph.read_eq_ok_iff, ← Token.spells_iff, Nat.zero_add]
    rfl
  simp only [cutting, tokenize, tokenizeWith]
  cases Glyph.read .standard expression 0 expression with
  | error reason => simp [Stage.guard, bind, Except.bind]
  | ok glyphs => simp [Stage.guard, bind, Except.bind, pure, Except.pure, eq_comm]

/-- Tokenizing fails where reading gets stuck, with the same diagnostic. -/
theorem tokenize_stuck {glyphs : List Glyph} {front rest : Text} {kind : Diagnostic.Kind}
    (spells : Glyph.Spells 0 glyphs front) (stuck : Glyph.Stuck kind rest) :
    tokenize (front ++ rest) =
      .error (.diagnosed (.ofStuck kind (front ++ rest) (front.length + 2))) := by
  simp [tokenize, tokenizeWith, Glyph.read_stuck spells stuck, Stage.guard, bind, Except.bind,
    Error.isExpected]

end CucumberExpression
