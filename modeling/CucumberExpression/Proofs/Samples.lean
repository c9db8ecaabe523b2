import Mathlib.Algebra.Ring.Int.Defs
import Mathlib.Data.List.GetD
import CucumberExpression.Proofs.Concatenation
import CucumberExpression.Proofs.PlainText
import CucumberExpression.Sample

namespace CucumberExpression

/-! # Samples

Each word of a sample is read as it was meant, and the blanks between the words keep them apart. A
sample grows by one word at its end, so it is read as its words one after the other, by induction on
their number. -/

namespace Node

/-- The runs of nodes between leaves of white space. -/
def words : List Node → List (List Node)
  | [] => []
  | nodes => nodes.splitOnP (·.IsLeaf .space)

theorem words_of_ne_nil {nodes : List Node} (nonempty : nodes ≠ []) :
    words nodes = nodes.splitOnP (·.IsLeaf .space) := by
  cases nodes with
  | nil => exact absurd rfl nonempty
  | cons => rfl

end Node

namespace Sample

variable {entries : List String} {counter : Int} {count : Nat} {children nodes : List Node}

theorem ofString_append (left right : String) :
    Text.ofString (left ++ right) = Text.ofString left ++ Text.ofString right := by
  rw [Text.ofString, String.toList_append, Text.ofChars_append]
  rfl

theorem pick_mem (nonempty : entries ≠ []) (counter : Int) : pick entries counter ∈ entries := by
  have positive : (0 : Int) < entries.length := by
    have length := List.length_pos_iff.mpr nonempty
    omega
  have low := Int.emod_nonneg counter (Int.ne_of_gt positive)
  have high := Int.emod_lt_of_pos counter positive
  rw [pick, List.getD_eq_getElem _ _ (by omega)]
  exact List.getElem_mem _

theorem pick_vocabulary (counter : Int) :
    Text.Plain (pick vocabulary counter) ∧ (pick vocabulary counter : Text) ≠ [] := by
  have each : ∀ entry ∈ vocabulary, Text.Plain entry ∧ (entry : Text) ≠ [] := by
    decide
  exact each _ (pick_mem (by decide) counter)

theorem pick_parameters (counter : Int) : Text.Plain (pick parameters counter) := by
  have each : ∀ entry ∈ parameters, Text.Plain entry := by
    decide
  exact each _ (pick_mem (by decide) counter)

/-- The nodes of a word by the remainder of its position, wherever they stand. -/
inductive Shape (counter : Int) : Nat → List Node → Prop
  | plain (start stop : Int) :
      Shape counter 0 [.leaf start stop (pick vocabulary counter)]
  | plural (start middle stop low high : Int) :
      Shape counter 1 [.leaf start middle (pick vocabulary counter),
        .branch .optional middle stop [.leaf low high "s"]]
  | parameter (start stop low high : Int) :
      Shape counter 2 [.branch .parameter start stop
        (if (pick parameters counter : Text) = [] then []
          else [.leaf low high (pick parameters counter)])]
  | alternation (start middle next stop : Int) :
      Shape counter 3 [.branch .alternation start stop
        [.branch .alternative start middle [.leaf start middle (pick vocabulary counter)],
          .branch .alternative next stop [.leaf next stop (pick vocabulary (counter + 1))]]]
  | bracketed (start stop : Int) :
      Shape counter 4 [.leaf start stop ("(" ++ pick vocabulary counter ++ ")")]

theorem parse_word (position : Nat) (counter : Int) :
    ∃ stop children,
      parse (Sample.word position counter) = .ok (.branch .expression 0 stop children) ∧
        Shape counter (position % 5) children := by
  obtain ⟨plain, nonempty⟩ := pick_vocabulary counter
  obtain ⟨nextPlain, nextNonempty⟩ := pick_vocabulary (counter + 1)
  have ending : Text.Plain "s" ∧ ("s" : Text) ≠ [] := by decide
  have bound : position % 5 < 5 := Nat.mod_lt _ (by decide)
  rw [Sample.word]
  match position % 5, bound with
  | 0, _ => exact ⟨_, _, Node.parse_plain plain nonempty, .plain ..⟩
  | 1, _ =>
      have read := Node.parse_optional plain nonempty ending.1 ending.2
      simp only [ofString_append]
      exact ⟨_, _, read, .plural ..⟩
  | 2, _ =>
      have read := Node.parse_parameter (pick_parameters counter)
      simp only [ofString_append]
      exact ⟨_, _, read, .parameter ..⟩
  | 3, _ =>
      have read := Node.parse_alternation plain nonempty nextPlain nextNonempty
      simp only [ofString_append, List.append_assoc]
      exact ⟨_, _, read, .alternation ..⟩
  | 4, _ =>
      have read := Node.parse_bracketed plain
      simp only [ofString_append, List.append_assoc]
      exact ⟨_, _, read, .bracketed ..⟩

theorem unbroken_word (position : Nat) (counter : Int) :
    Text.Unbroken (Sample.word position counter) := by
  have plain := (pick_vocabulary counter).1.unbroken
  have next := (pick_vocabulary (counter + 1)).1.unbroken
  have parameter := (pick_parameters counter).unbroken
  rw [Sample.word]
  split
  · exact plain
  · rw [ofString_append]
    exact plain.append (by decide)
  · rw [ofString_append, ofString_append]
    exact (Text.Unbroken.append (by decide) parameter).append (by decide)
  · rw [ofString_append, ofString_append]
    exact (plain.append (by decide)).append next
  · rw [ofString_append, ofString_append]
    exact (Text.Unbroken.append (by decide) plain).append (by decide)

theorem Shape.relocate {remainder : Nat} (shape : Shape counter remainder nodes)
    (place : Int → Int) : Shape counter remainder (nodes.map (Node.relocate place)) := by
  cases shape with
  | plain => exact .plain ..
  | plural => exact .plural ..
  | parameter start stop low high =>
      rw [List.map_singleton, Node.relocate_branch, apply_ite (List.map (Node.relocate place))]
      exact .parameter ..
  | alternation => exact .alternation ..
  | bracketed => exact .bracketed ..

theorem Shape.ne_nil {remainder : Nat} (shape : Shape counter remainder nodes) : nodes ≠ [] := by
  cases shape <;> exact List.cons_ne_nil _ _

theorem Shape.not_blank {remainder : Nat} (shape : Shape counter remainder nodes) :
    ∀ node ∈ nodes, ¬ node.IsLeaf .space := by
  have plain := (pick_vocabulary counter).1.unbroken
  cases shape with
  | plain => exact List.forall_mem_singleton.mpr (Node.not_blank_of_unbroken plain)
  | plural => exact List.forall_mem_cons.mpr ⟨Node.not_blank_of_unbroken plain, by simp [Node.IsLeaf]⟩
  | parameter => simp [Node.IsLeaf]
  | alternation => simp [Node.IsLeaf]
  | bracketed =>
      refine List.forall_mem_singleton.mpr (Node.not_blank_of_unbroken ?_)
      exact (Text.Unbroken.append (by decide) plain).append (by decide)

theorem Shape.words {remainder : Nat} (shape : Shape counter remainder nodes) :
    Node.words nodes = [nodes] := by
  rw [Node.words_of_ne_nil shape.ne_nil]
  exact List.splitOnP_eq_singleton fun node member => by simp [shape.not_blank node member]

/-- Whether nodes are the words of a sample that was made from a counter, one space between any two. -/
structure Sampled (counter : Int) (count : Nat) (children : List Node) : Prop where
  length : (Node.words children).length = count
  shaped : ∀ (position : Nat) (nodes : List Node), (Node.words children)[position]? = some nodes →
    Shape (counter + position + 1) (position % 5) nodes
  blanks : ∀ node ∈ children, node.IsLeaf .space → ∃ start, node = .leaf start (start + 1) " "

theorem Sampled.none (counter : Int) : Sampled counter 0 [] :=
  ⟨rfl, nofun, nofun⟩

theorem Sampled.single (shape : Shape (counter + 1) 0 nodes) : Sampled counter 1 nodes := by
  refine ⟨by rw [shape.words]; rfl, ?_, ?_⟩
  · intro position own found
    rw [shape.words] at found
    obtain ⟨rfl, rfl⟩ : position = 0 ∧ nodes = own := by
      simpa [List.getElem?_singleton] using found
    simpa using shape
  · exact fun node member blank => absurd blank (shape.not_blank node member)

theorem Sampled.across (sampled : Sampled counter count children) (positive : 0 < count)
    (shape : Shape (counter + count + 1) (count % 5) nodes) (start : Int) :
    Sampled counter (count + 1) (children ++ .leaf start (start + 1) " " :: nodes) := by
  have blank : (Node.leaf start (start + 1) " ").IsLeaf .space := by
    refine ⟨by decide, ?_⟩
    show start + 1 - start = 1
    omega
  have nonempty : children ≠ [] := by
    rintro rfl
    exact absurd sampled.length (Nat.ne_of_lt positive)
  have words : Node.words (children ++ .leaf start (start + 1) " " :: nodes) =
      Node.words children ++ [nodes] := by
    rw [Node.words_of_ne_nil (by simp), List.splitOnP_append_cons _ _ (by simpa using blank),
      ← Node.words_of_ne_nil nonempty, ← Node.words_of_ne_nil shape.ne_nil, shape.words]
  refine ⟨?_, ?_, ?_⟩
  · rw [words, List.length_append, sampled.length]
    rfl
  · intro position own found
    rw [words, List.getElem?_append, sampled.length] at found
    split at found
    · exact sampled.shaped position own found
    · obtain ⟨last, rfl⟩ : position - count = 0 ∧ nodes = own := by
        simpa [List.getElem?_singleton] using found
      obtain rfl : position = count := by omega
      exact shape
  · intro node member isBlank
    rcases List.mem_append.mp member with before | between
    · exact sampled.blanks node before isBlank
    · rcases List.mem_cons.mp between with rfl | within
      · exact ⟨start, rfl⟩
      · exact absurd isBlank (shape.not_blank node within)

theorem intercalate_concat {parts : List String} (nonempty : parts ≠ []) (separator last : String) :
    separator.intercalate (parts ++ [last]) = separator.intercalate parts ++ separator ++ last := by
  induction parts with
  | nil => exact absurd rfl nonempty
  | cons first rest ih =>
      rw [List.cons_append, String.intercalate_cons_of_ne_nil (by simp)]
      by_cases single : rest = []
      · simp [single]
      · rw [ih single, String.intercalate_cons_of_ne_nil single]
        simp only [String.append_assoc]

/-! ## Word by word -/

theorem parse_nil : parse [] = .ok (.branch .expression 0 0 []) := by
  decide +kernel

theorem word_ne_nil (position : Nat) (counter : Int) :
    (Sample.word position counter : Text) ≠ [] := by
  obtain ⟨stop, nodes, parsed, shape⟩ := parse_word position counter
  intro empty
  rw [empty, parse_nil] at parsed
  cases parsed
  exact shape.ne_nil rfl

/-- Whether the counter has gone on by one a word, and the words are read as a sample. No blank ends
them, so the one that is put between them and the next word is a leaf of its own. -/
structure Draft.Reads (made : Draft) (start : Int) (count : Nat) : Prop where
  counter : made.counter = start + count
  length : made.words.length = count
  parsed : ∃ stop children,
    parse (" ".intercalate made.words) = .ok (.branch .expression 0 stop children) ∧
      Sampled start count children
  visible : ∀ point ∈ (" ".intercalate made.words : Text).getLast?,
    Token.Kind.ofCodePoint point ≠ .space

theorem Draft.Reads.empty (start : Int) : Draft.Reads ⟨[], start⟩ start 0 :=
  ⟨(Int.add_zero start).symm, rfl, ⟨0, [], parse_nil, .none start⟩, nofun⟩

theorem Draft.Reads.add {made : Draft} (reads : made.Reads counter count) :
    (made.add count).Reads counter (count + 1) := by
  obtain ⟨counted, length, ⟨_, children, parsed, sampled⟩, visible⟩ := reads
  obtain ⟨stop, nodes, parsedWord, shape⟩ := parse_word count (made.counter + 1)
  have unbroken := unbroken_word count (made.counter + 1)
  have goesOn : (made.add count).counter = counter + (count + 1 : Nat) := by
    rw [Draft.counter_add, counted, Int.natCast_succ, Int.add_assoc]
  have oneMore : (made.add count).words.length = count + 1 := by
    rw [Draft.words_add, List.length_append, length, List.length_singleton]
  rcases Nat.eq_zero_or_pos count with rfl | positive
  · -- No blank stands in front of the first word.
    have only : " ".intercalate (made.add 0).words = Sample.word 0 (made.counter + 1) := by
      rw [Draft.words_add, List.length_eq_zero_iff.mp length]
      exact String.intercalate_singleton
    refine ⟨goesOn, oneMore, ⟨stop, nodes, only ▸ parsedWord, .single ?_⟩, ?_⟩
    · simpa [counted] using shape
    · rw [only]
      exact fun point member => unbroken point (List.mem_of_getLast? member)
  · have nonempty : made.words ≠ [] := List.length_pos_iff.mp (length ▸ positive)
    have joined : Text.ofString (" ".intercalate (made.add count).words) =
        Text.ofString (" ".intercalate made.words) ++ " " ++
          Sample.word count (made.counter + 1) := by
      rw [Draft.words_add, intercalate_concat nonempty, ofString_append, ofString_append]
    have gap : (" " : Text) ≠ [] ∧ ∀ point ∈ (" " : Text),
        Token.Kind.ofCodePoint point = .space := by
      decide
    have read := parse_across parsed parsedWord gap.1 gap.2
      (fun point member => unbroken point (List.mem_of_head? member))
      (fun inner spells => spells.last_ne_space visible)
    rw [counted] at shape
    refine ⟨goesOn, oneMore, ⟨_, _, joined ▸ read, sampled.across positive (shape.relocate _) _⟩, ?_⟩
    rw [joined, List.getLast?_append_of_ne_nil _ (word_ne_nil count (made.counter + 1))]
    exact fun point member => unbroken point (List.mem_of_getLast? member)

theorem reads_draft (counter : Int) (count : Nat) : (draft counter count).Reads counter count := by
  induction count with
  | zero => exact .empty counter
  | succ count ih =>
      rw [draft_succ]
      exact ih.add

theorem counter_draft (counter : Int) (count : Nat) :
    (draft counter count).counter = counter + count :=
  (reads_draft counter count).counter

/-! ## The counter -/

theorem pick_add_mul (entries : List String) (counter turns : Int) :
    pick entries (counter + entries.length * turns) = pick entries counter := by
  rw [pick, pick, Int.add_mul_emod_self_left]

theorem word_add_mul (position : Nat) (counter turns : Int) :
    Sample.word position (counter + 40 * turns) = Sample.word position counter := by
  have vocabularyTurns (counter : Int) :
      pick vocabulary (counter + 40 * turns) = pick vocabulary counter := by
    rw [← pick_add_mul vocabulary counter (5 * turns), ← Int.mul_assoc]
    rfl
  have parameterTurns : pick parameters (counter + 40 * turns) = pick parameters counter := by
    rw [← pick_add_mul parameters counter (8 * turns), ← Int.mul_assoc]
    rfl
  rw [Sample.word, Sample.word, Int.add_right_comm counter, vocabularyTurns, vocabularyTurns,
    parameterTurns]

theorem words_draft_add_mul (counter turns : Int) (count : Nat) :
    (draft (counter + 40 * turns) count).words = (draft counter count).words := by
  induction count with
  | zero => rfl
  | succ count ih =>
      rw [draft_succ, draft_succ, Draft.words_add, Draft.words_add, ih, counter_draft,
        counter_draft, Int.add_right_comm counter, Int.add_right_comm _ _ 1, word_add_mul]

theorem expressions_cons (counter count : Int) (rest : List Int) :
    expressions counter (count :: rest) =
      (" ".intercalate (draft counter count.toNat).words, counter + count.toNat) ::
        expressions (counter + count.toNat) rest := by
  rw [expressions, expression, counter_draft]

theorem expressions_add_mul (counter turns : Int) (counts : List Int) :
    (expressions (counter + 40 * turns) counts).map Prod.fst =
      (expressions counter counts).map Prod.fst := by
  induction counts generalizing counter with
  | nil => rfl
  | cons count rest ih =>
      rw [expressions_cons, expressions_cons, List.map_cons, List.map_cons, words_draft_add_mul,
        Int.add_right_comm counter, ih]

/-- How far counts move the counter on. -/
def total (counts : List Int) : Int :=
  (counts.map (max · 0)).sum

/-- The counter when the samples of all counts have been made. -/
def counterAfter (counter : Int) (counts : List Int) : Int :=
  ((expressions counter counts).getLast?.map Prod.snd).getD counter

theorem total_cons (count : Int) (rest : List Int) :
    total (count :: rest) = count.toNat + total rest := by
  rw [total, List.map_cons, List.sum_cons, ← Int.toNat_eq_max]
  rfl

theorem counterAfter_eq (counter : Int) (counts : List Int) :
    counterAfter counter counts = counter + total counts := by
  induction counts generalizing counter with
  | nil => exact (Int.add_zero counter).symm
  | cons count rest ih =>
      have behind := ih (counter + count.toNat)
      rw [total_cons, ← Int.add_assoc, ← behind, counterAfter, counterAfter, expressions_cons,
        List.getLast?_cons]
      cases (expressions (counter + count.toNat) rest).getLast? <;> rfl

theorem length_expressions (counter : Int) (counts : List Int) :
    (expressions counter counts).length = counts.length := by
  induction counts generalizing counter with
  | nil => rfl
  | cons count rest ih => rw [expressions_cons, List.length_cons, ih, List.length_cons]

theorem parse_expressions (counter : Int) (counts : List Int) {index : Nat} {made : String}
    {after : Int} (found : (expressions counter counts)[index]? = some (made, after)) :
    ∃ count stop children, counts[index]? = some count ∧
      parse made = .ok (.branch .expression 0 stop children) ∧
      Sampled (counter + total (counts.take index)) count.toNat children ∧
      after = counter + total (counts.take (index + 1)) := by
  induction counts generalizing counter index with
  | nil => cases found
  | cons count rest ih =>
      rw [expressions_cons] at found
      cases index with
      | zero =>
          cases found
          obtain ⟨stop, children, parsed, sampled⟩ := (reads_draft counter count.toNat).parsed
          refine ⟨count, stop, children, rfl, parsed, ?_, ?_⟩
          · rw [List.take_zero, total, List.map_nil, List.sum_nil, Int.add_zero]
            exact sampled
          · rw [List.take_succ_cons, List.take_zero, total_cons]
            exact congrArg (counter + ·) (Int.add_zero _).symm
      | succ index =>
          obtain ⟨own, stop, children, there, parsed, sampled, later⟩ := ih _ found
          rw [Int.add_assoc, ← total_cons, ← List.take_succ_cons] at sampled later
          exact ⟨own, stop, children, there, parsed, sampled, later⟩

/-- Every sample is read, as words in the five shapes by turns. The counter has moved on by the number
of words, and after forty words the samples are the same again. -/
theorem expressions_sampled (counter : Int) (counts : List Int) :
    (expressions counter counts).length = counts.length ∧
      (∀ (index : Nat) (made : String) (after : Int),
        (expressions counter counts)[index]? = some (made, after) →
        ∃ count stop children, counts[index]? = some count ∧
          parse made = .ok (.branch .expression 0 stop children) ∧
          Sampled (counter + total (counts.take index)) count.toNat children ∧
          after = counter + total (counts.take (index + 1))) ∧
      counterAfter counter counts = counter + total counts ∧
      ∀ turns : Int, (expressions (counter + 40 * turns) counts).map Prod.fst =
        (expressions counter counts).map Prod.fst :=
  ⟨length_expressions counter counts, fun _ _ _ found => parse_expressions counter counts found,
    counterAfter_eq counter counts, fun turns => expressions_add_mul counter turns counts⟩

example : (expression (-1) 5).1 = "three blind(s) \x7bword\x7d rats/cuke \\(cuke\\)" := by
  decide +kernel

end Sample

end CucumberExpression
