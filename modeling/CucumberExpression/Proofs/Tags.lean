import Mathlib.Data.List.Basic
import CucumberExpression.Markup

namespace CucumberExpression.Markup

/-! # Tags

Markup is characters and tags. Escaped text that a tag follows holds no tags. It reads as it was, but
for a backslash that stands right before a bracket that opens no tag (`shown`), though no two texts
are escaped alike. -/

/-- What markup consists of for a reader. -/
inductive Piece where
  | char (c : Char)
  | tag (name : List Char)
deriving DecidableEq, Repr

def Piece.char? : Piece → Option Char
  | char c => some c
  | tag _ => none

def Piece.name? : Piece → Option (List Char)
  | char _ => none
  | tag name => some name

def chars (cs : List Char) : List Piece :=
  cs.map .char

mutual

/-- The pieces of markup that follows on some backslashes. -/
def piecesFrom (pending : Nat) : List Char → List Piece
  | [] => chars (backslashes pending)
  | c :: rest =>
      if c = '\\' then piecesFrom (pending + 1) rest
      else if c = '[' then
        if opensTag rest then
          chars (backslashes (pending / 2)) ++
            (if pending % 2 = 1 then .char '[' :: piecesFrom 0 rest else tagFrom [] rest)
        else
          chars (backslashes (pending - 1)) ++ .char '[' :: piecesFrom 0 rest
      else
        chars (backslashes pending) ++ .char c :: piecesFrom 0 rest

/-- The pieces of markup from within a tag whose name has begun. -/
def tagFrom (name : List Char) : List Char → List Piece
  | [] => []
  | c :: rest => if c = ']' then .tag name :: piecesFrom 0 rest else tagFrom (name ++ [c]) rest

end

def pieces (markup : String) : List Piece :=
  piecesFrom 0 markup.toList

def tagNames (markup : String) : List String :=
  ((pieces markup).filterMap Piece.name?).map String.ofList

section

variable {pending : Nat} {cs rest : List Char} {name : List Char}

theorem filterMap_char?_chars (cs : List Char) : (chars cs).filterMap Piece.char? = cs := by
  rw [chars, List.filterMap_map]
  exact List.filterMap_some

theorem filterMap_name?_chars (cs : List Char) : (chars cs).filterMap Piece.name? = [] := by
  rw [chars, List.filterMap_map]
  exact List.filterMap_none cs

/-- The text of markup is what it holds besides tags. -/
theorem plainFrom_eq (pending : Nat) (cs : List Char) :
    plainFrom pending cs = (piecesFrom pending cs).filterMap Piece.char? := by
  suffices both : (∀ pending, plainFrom pending cs = (piecesFrom pending cs).filterMap Piece.char?) ∧
      ∀ name, skipTag cs = (tagFrom name cs).filterMap Piece.char? from both.1 pending
  induction cs with
  | nil =>
      refine ⟨fun pending => ?_, fun name => rfl⟩
      rw [plainFrom, piecesFrom, filterMap_char?_chars]
  | cons c rest ih =>
      obtain ⟨outside, inside⟩ := ih
      constructor
      · intro pending
        rw [plainFrom, piecesFrom]
        split
        · exact outside _
        · split
          · split
            · rw [List.filterMap_append, filterMap_char?_chars]
              split
              · rw [outside]
                rfl
              · rw [inside []]
            · rw [List.filterMap_append, filterMap_char?_chars, outside]
              rfl
          · rw [List.filterMap_append, filterMap_char?_chars, outside]
            rfl
      · intro name
        rw [skipTag, tagFrom]
        split
        · exact outside 0
        · exact inside _

theorem plain_eq (markup : String) :
    plain markup = String.ofList ((pieces markup).filterMap Piece.char?) := by
  rw [plain, pieces, plainFrom_eq]

theorem piecesFrom_backslashes (pending count : Nat) (rest : List Char) :
    piecesFrom pending (backslashes count ++ rest) = piecesFrom (pending + count) rest := by
  induction count generalizing pending with
  | zero => rfl
  | succ count ih =>
      rw [backslashes, List.replicate_succ, List.cons_append, piecesFrom, if_pos rfl]
      exact (ih (pending + 1)).trans (by rw [Nat.add_right_comm, Nat.add_assoc])

theorem piecesFrom_append (plain : ∀ c ∈ cs, c ≠ '\\' ∧ c ≠ '[') (rest : List Char) :
    piecesFrom 0 (cs ++ rest) = chars cs ++ piecesFrom 0 rest := by
  induction cs with
  | nil => rfl
  | cons c others ih =>
      obtain ⟨⟨backslash, bracket⟩, behind⟩ := List.forall_mem_cons.mp plain
      rw [List.cons_append, piecesFrom, if_neg backslash, if_neg bracket, ih behind]
      rfl

theorem piecesFrom_bracket (opens : opensTag rest = false) :
    piecesFrom 0 ('[' :: rest) = .char '[' :: piecesFrom 0 rest := by
  rw [piecesFrom, if_neg (by decide), if_pos rfl, if_neg (by simp [opens])]
  rfl

theorem closes_append (plain : ∀ c ∈ cs, c ≠ '[' ∧ c ≠ ']') (rest : List Char) :
    closes (cs ++ rest) = closes rest := by
  induction cs with
  | nil => rfl
  | cons c others ih =>
      obtain ⟨⟨opening, closing⟩, behind⟩ := List.forall_mem_cons.mp plain
      rw [List.cons_append, closes, if_neg closing, if_neg opening, ih behind]

theorem tagFrom_append (plain : ∀ c ∈ cs, c ≠ '[' ∧ c ≠ ']') (rest : List Char) :
    tagFrom name (cs ++ ']' :: rest) = .tag (name ++ cs) :: piecesFrom 0 rest := by
  induction cs generalizing name with
  | nil => rw [List.nil_append, tagFrom, if_pos rfl, List.append_nil]
  | cons c others ih =>
      obtain ⟨⟨-, closing⟩, behind⟩ := List.forall_mem_cons.mp plain
      rw [List.cons_append, tagFrom, if_neg closing, ih behind, List.append_assoc]
      rfl

/-- What may stand between the brackets of a tag. -/
def isTagName (name : List Char) : Bool :=
  name.head?.any opensTagName && name.all fun c => c != '[' && c != ']'

theorem piecesFrom_tag (isName : isTagName name = true) (rest : List Char) :
    piecesFrom 0 ('[' :: (name ++ ']' :: rest)) = .tag name :: piecesFrom 0 rest := by
  obtain ⟨opens, plain⟩ : name.head?.any opensTagName = true ∧ ∀ c ∈ name, c ≠ '[' ∧ c ≠ ']' := by
    simpa [isTagName] using isName
  obtain ⟨first, others, rfl⟩ : ∃ first others, name = first :: others := by
    cases name with
    | nil => cases opens
    | cons first others => exact ⟨first, others, rfl⟩
  have opensHere : opensTag (first :: others ++ ']' :: rest) = true := by
    have closed := closes_append (List.forall_mem_cons.mp plain).2 (']' :: rest)
    rw [List.cons_append, opensTag, closed]
    exact (Bool.and_true _).trans opens
  rw [piecesFrom, if_neg (by decide), if_pos rfl, if_pos opensHere, tagFrom_append plain]
  rfl

end

/-! ## Escaped text -/

section

variable {pending : Nat} {cs tail : List Char}

/-- A text without the backslashes that stand right before a bracket that opens no tag. -/
def shown : List Char → List Char
  | [] => []
  | c :: rest =>
      if c = '\\' ∧ rest.head? = some '[' ∧ opensTag rest.tail = false then shown rest
      else c :: shown rest

theorem exists_escapeFrom_succ (pending : Nat) (cs : List Char) :
    ∃ others, escapeFrom (pending + 1) cs = '\\' :: others := by
  induction cs generalizing pending with
  | nil => exact ⟨_, rfl⟩
  | cons c rest ih =>
      rw [escapeFrom]
      split
      · exact ih _
      · split <;> exact ⟨_, rfl⟩

theorem closes_backslashes (count : Nat) (rest : List Char) :
    closes (backslashes count ++ rest) = closes rest :=
  closes_append (fun c member => by
    rw [List.eq_of_mem_replicate member]
    decide) rest

theorem closes_escapeFrom (pending : Nat) (cs tail : List Char) :
    closes (escapeFrom pending cs ++ tail) = closes (cs ++ tail) := by
  induction cs generalizing pending with
  | nil => exact closes_backslashes pending tail
  | cons c rest ih =>
      rw [escapeFrom]
      split
      · rename_i backslash
        rw [ih, backslash]
        rfl
      · split
        · rename_i tag
          obtain ⟨rfl, -⟩ : c = '[' ∧ opensTag rest = true := by simpa using tag
          rw [List.append_assoc, closes_backslashes]
          rfl
        · rw [List.append_assoc, closes_backslashes, List.cons_append, List.cons_append, closes,
            closes, ih]

/-- Escaping neither makes nor breaks the tags behind a bracket. -/
theorem opensTag_escapeFrom (cs tail : List Char) :
    opensTag (escapeFrom 0 cs ++ tail) = opensTag (cs ++ tail) := by
  have notOpen {c : Char} (other : opensTagName c = false) (rest : List Char) :
      opensTag (c :: rest) = false := by
    rw [opensTag, other, Bool.false_and]
  cases cs with
  | nil => rfl
  | cons c rest =>
      rw [escapeFrom]
      split
      · rename_i backslash
        obtain ⟨others, front⟩ := exists_escapeFrom_succ 0 rest
        rw [front, backslash]
        exact (notOpen rfl _).trans (notOpen rfl _).symm
      · split
        · rename_i tag
          obtain ⟨rfl, -⟩ : c = '[' ∧ opensTag rest = true := by simpa using tag
          exact (notOpen rfl _).trans (notOpen rfl _).symm
        · show (opensTagName c && closes (escapeFrom 0 rest ++ tail)) = _
          rw [closes_escapeFrom]
          rfl

theorem opensTag_append_bracket (cs rest : List Char) :
    opensTag (cs ++ '[' :: rest) = opensTag cs := by
  have closing (cs : List Char) : closes (cs ++ '[' :: rest) = closes cs := by
    induction cs with
    | nil => rfl
    | cons c others ih => rw [List.cons_append, closes, closes, ih]
  cases cs with
  | nil => rfl
  | cons c others => rw [List.cons_append, opensTag, opensTag, closing]

theorem backslashes_append_cons (count : Nat) (rest : List Char) :
    backslashes count ++ '\\' :: rest = backslashes (count + 1) ++ rest := by
  rw [backslashes, backslashes, List.replicate_succ', List.append_assoc]
  rfl

theorem shown_cons {c : Char} (plain : c ≠ '\\') (rest : List Char) :
    shown (c :: rest) = c :: shown rest := by
  rw [shown, if_neg (fun dropped => plain dropped.1)]

theorem shown_backslashes (count : Nat) {c : Char} (plain : c ≠ '\\') (rest : List Char) :
    shown (backslashes count ++ c :: rest) =
      backslashes (if c = '[' ∧ opensTag rest = false then count - 1 else count) ++
        c :: shown rest := by
  match count with
  | 0 =>
      show shown (c :: rest) = _
      rw [shown_cons plain, Nat.zero_sub, ite_self]
      rfl
  | 1 =>
      show shown ('\\' :: c :: rest) = _
      rw [shown, shown_cons plain]
      simp only [List.head?_cons, Option.some.injEq, List.tail_cons, true_and]
      split <;> rfl
  | count + 2 =>
      have behind := shown_backslashes (count + 1) plain rest
      have next : (backslashes (count + 1) ++ c :: rest).head? = some '\\' := rfl
      show shown ('\\' :: (backslashes (count + 1) ++ c :: rest)) = _
      rw [shown, if_neg (by simp [next]), behind]
      split <;> rfl

/-- Escaped text in front of a tag, or of anything else with a bracket, is read as characters. -/
theorem piecesFrom_escapeFrom
    (ends : ∀ last ∈ (backslashes pending ++ cs).getLast?, last ≠ '\\') :
    piecesFrom 0 (escapeFrom pending cs ++ '[' :: tail) =
      chars (shown (backslashes pending ++ cs)) ++ piecesFrom 0 ('[' :: tail) := by
  induction cs generalizing pending with
  | nil =>
      cases pending with
      | zero => rfl
      | succ pending => simp [backslashes, List.getLast?_replicate] at ends
  | cons c rest ih =>
      have behind : piecesFrom 0 (escapeFrom 0 rest ++ '[' :: tail) =
          chars (shown rest) ++ piecesFrom 0 ('[' :: tail) := by
        apply @ih 0
        intro last member
        obtain ⟨init, rfl⟩ := List.getLast?_eq_some_iff.mp (Option.mem_def.mp member)
        apply ends
        rw [Option.mem_def, ← List.cons_append, ← List.append_assoc, List.getLast?_concat]
      have same : opensTag (escapeFrom 0 rest ++ '[' :: tail) = opensTag rest := by
        rw [opensTag_escapeFrom, opensTag_append_bracket]
      rw [escapeFrom]
      split
      · rename_i backslash
        rw [backslash, backslashes_append_cons] at ends ⊢
        exact ih ends
      · rename_i plain
        rw [shown_backslashes _ plain]
        split
        · -- An odd number of backslashes makes characters of the tag, and half of them are shown.
          rename_i tag
          obtain ⟨rfl, opens⟩ : c = '[' ∧ opensTag rest = true := by simpa using tag
          have half : (0 + (2 * pending + 1)) / 2 = pending := by omega
          have odd : (0 + (2 * pending + 1)) % 2 = 1 := by omega
          rw [List.append_assoc, piecesFrom_backslashes, List.cons_append, piecesFrom, if_neg plain,
            if_pos rfl, if_pos (same.trans opens), half, if_pos odd, behind]
          simp [opens, chars]
        · rename_i tag
          rw [List.append_assoc, piecesFrom_backslashes, List.cons_append, piecesFrom, if_neg plain,
            behind, Nat.zero_add]
          by_cases bracket : c = '['
          · have opens : opensTag rest = false := by simpa [bracket] using tag
            rw [if_pos bracket, if_neg (by simp [same, opens]), if_pos ⟨bracket, opens⟩, bracket]
            simp [chars]
          · rw [if_neg bracket, if_neg (fun exposed => bracket exposed.1)]
            simp [chars]

/-- A text with a backslash right before a bracket that opens no tag. -/
def Exposed (cs : List Char) : Prop :=
  ∃ front behind, cs = front ++ '\\' :: '[' :: behind ∧ opensTag behind = false

theorem length_shown_le (cs : List Char) : (shown cs).length ≤ cs.length := by
  induction cs with
  | nil => exact Nat.le_refl 0
  | cons c rest ih =>
      rw [shown]
      split
      · exact Nat.le_succ_of_le ih
      · exact Nat.succ_le_succ ih

theorem shown_eq_self_iff (cs : List Char) : shown cs = cs ↔ ¬ Exposed cs := by
  induction cs with
  | nil => simp [shown, Exposed]
  | cons c rest ih =>
      rw [shown]
      split
      · rename_i dropped
        obtain ⟨rfl, bracket, opens⟩ := dropped
        obtain ⟨behind, rfl⟩ := List.head?_eq_some_iff.mp bracket
        have shorter : shown ('[' :: behind) ≠ '\\' :: '[' :: behind := by
          intro same
          have length := length_shown_le ('[' :: behind)
          rw [same] at length
          exact Nat.not_succ_le_self _ length
        exact iff_of_false shorter (not_not_intro ⟨[], behind, rfl, opens⟩)
      · rename_i kept
        rw [List.cons.injEq, ih]
        simp only [true_and]
        refine not_congr ⟨?_, ?_⟩
        · rintro ⟨front, behind, rfl, opens⟩
          exact ⟨c :: front, behind, rfl, opens⟩
        · rintro ⟨front, behind, split, opens⟩
          rcases List.cons_eq_append_iff.mp split with ⟨-, here⟩ | ⟨others, -, there⟩
          · obtain ⟨rfl, rfl⟩ := List.cons.inj here
            exact absurd ⟨rfl, rfl, opens⟩ kept
          · exact ⟨others, behind, there, opens⟩

theorem escapeFrom_eq_self (plain : ∀ c ∈ cs, c ≠ '\\' ∧ c ≠ '[') : escapeFrom 0 cs = cs := by
  induction cs with
  | nil => rfl
  | cons c rest ih =>
      obtain ⟨⟨backslash, bracket⟩, behind⟩ := List.forall_mem_cons.mp plain
      rw [escapeFrom, if_neg backslash, if_neg (by simp [bracket]), ih behind]
      rfl

theorem escapeFrom_concat {last : Char} (pending : Nat) (plain : last ≠ '\\') (cs : List Char) :
    ∃ front, escapeFrom pending (cs ++ [last]) = front ++ [last] := by
  induction cs generalizing pending with
  | nil =>
      refine ⟨backslashes pending, ?_⟩
      rw [List.nil_append, escapeFrom, if_neg plain, if_neg (by simp [opensTag])]
      rfl
  | cons c rest ih =>
      rw [List.cons_append, escapeFrom]
      split
      · exact ih _
      · obtain ⟨front, behind⟩ := ih 0
        rw [behind]
        split
        · exact ⟨_, (List.append_assoc _ ('[' :: front) [last]).symm⟩
        · exact ⟨_, (List.append_assoc _ (c :: front) [last]).symm⟩

/-- Text that ends in another character than a backslash gets no backslash at its end. -/
theorem escapeChars_concat {last : Char} (plain : last ≠ '\\') (cs : List Char) :
    escapeChars (cs ++ [last]) = escapeFrom 0 (cs ++ [last]) := by
  obtain ⟨front, whole⟩ := escapeFrom_concat 0 plain cs
  have ends : endsInSingleBackslash (escapeFrom 0 (cs ++ [last])) = false := by
    rw [whole, endsInSingleBackslash, List.reverse_concat]
    split
    · rename_i same
      exact absurd (List.cons.inj same).1 plain
    · rename_i same
      exact absurd (List.cons.inj same).1 plain
    · rfl
  rw [escapeChars, ends]
  rfl

/-- The text that was escaped to characters that follow on some backslashes. -/
def unescapeFrom (pending : Nat) : List Char → List Char
  | [] => backslashes pending
  | c :: rest =>
      if c = '\\' then unescapeFrom (pending + 1) rest
      else if c = '[' && opensTag rest then backslashes (pending / 2) ++ '[' :: unescapeFrom 0 rest
      else backslashes pending ++ c :: unescapeFrom 0 rest

theorem unescapeFrom_backslashes (pending count : Nat) (rest : List Char) :
    unescapeFrom pending (backslashes count ++ rest) = unescapeFrom (pending + count) rest := by
  induction count generalizing pending with
  | zero => rfl
  | succ count ih =>
      rw [backslashes, List.replicate_succ, List.cons_append, unescapeFrom, if_pos rfl]
      exact (ih (pending + 1)).trans (by rw [Nat.add_right_comm, Nat.add_assoc])

theorem unescapeFrom_escapeFrom (pending : Nat) (cs : List Char) :
    unescapeFrom 0 (escapeFrom pending cs) = backslashes pending ++ cs := by
  induction cs generalizing pending with
  | nil =>
      have whole := unescapeFrom_backslashes 0 pending []
      rw [List.append_nil, Nat.zero_add] at whole
      rw [escapeFrom, whole, unescapeFrom, List.append_nil]
  | cons c rest ih =>
      have behind : unescapeFrom 0 (escapeFrom 0 rest) = rest := ih 0
      have same : opensTag (escapeFrom 0 rest) = opensTag rest := by
        simpa using opensTag_escapeFrom rest []
      rw [escapeFrom]
      split
      · rename_i backslash
        rw [ih, backslash, backslashes_append_cons]
      · rename_i plain
        split
        · rename_i tag
          obtain ⟨rfl, opens⟩ : c = '[' ∧ opensTag rest = true := by simpa using tag
          have half : (0 + (2 * pending + 1)) / 2 = pending := by omega
          rw [unescapeFrom_backslashes, unescapeFrom, if_neg plain, same, if_pos tag, half, behind]
        · rename_i tag
          rw [unescapeFrom_backslashes, unescapeFrom, if_neg plain, same, if_neg tag, behind,
            Nat.zero_add]

theorem escapeFrom_injective {left right : List Char}
    (same : escapeFrom 0 left = escapeFrom 0 right) : left = right := by
  have read := congrArg (unescapeFrom 0) same
  rw [unescapeFrom_escapeFrom, unescapeFrom_escapeFrom] at read
  exact read

end

end CucumberExpression.Markup
