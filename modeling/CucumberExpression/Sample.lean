namespace CucumberExpression.Sample

/-! # Sample expressions

Expressions of any number of words, made from a counter that moves on by one a word and is kept from
one expression to the next. The words take turns in five shapes: plain, with an optional, a
parameter, an alternation, and in escaped brackets. -/

def vocabulary : List String :=
  ["three", "blind", "mice", "rats", "cuke", "have", "I", "hungry"]

def parameters : List String :=
  ["int", "float", "word", "string", ""]

/-- The entry of a list that a counter points at, counting round and round. -/
def pick (entries : List String) (counter : Int) : String :=
  entries.getD (counter % entries.length).toNat ""

/-- The word at a position, made from a counter. -/
def word (position : Nat) (counter : Int) : String :=
  let plain := pick vocabulary counter
  match position % 5 with
  | 0 => plain
  | 1 => plain ++ "(s)"
  | 2 => "\x7b" ++ pick parameters counter ++ "\x7d"
  | 3 => plain ++ "/" ++ pick vocabulary (counter + 1)
  | _ => "\\(" ++ plain ++ "\\)"

/-- An expression under way: the words that are there, and the counter. -/
structure Draft where
  words : List String
  counter : Int
deriving DecidableEq, Repr

/-- The counter moves on before the word at a position is made from it. -/
def Draft.add (draft : Draft) (position : Nat) : Draft :=
  let counter := draft.counter + 1
  ⟨draft.words ++ [word position counter], counter⟩

theorem Draft.words_add (draft : Draft) (position : Nat) :
    (draft.add position).words = draft.words ++ [word position (draft.counter + 1)] :=
  rfl

theorem Draft.counter_add (draft : Draft) (position : Nat) :
    (draft.add position).counter = draft.counter + 1 :=
  rfl

/-- The words at the first positions, each made from the counter that the one before it left. -/
def draft (counter : Int) (count : Nat) : Draft :=
  (List.range count).foldl Draft.add ⟨[], counter⟩

theorem draft_succ (counter : Int) (count : Nat) :
    draft counter (count + 1) = (draft counter count).add count := by
  rw [draft, draft, List.range_succ, List.foldl_append]
  rfl

/-- An expression of some words, none if their number is negative, and the counter after it. -/
def expression (counter : Int) (count : Int) : String × Int :=
  let made := draft counter count.toNat
  (" ".intercalate made.words, made.counter)

def expressions (counter : Int) : List Int → List (String × Int)
  | [] => []
  | count :: rest =>
      let made := expression counter count
      made :: expressions made.2 rest

end CucumberExpression.Sample
