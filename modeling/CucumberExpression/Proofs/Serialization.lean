import CucumberExpression.Node.Serialized
import CucumberExpression.Proofs.Documents
import CucumberExpression.Proofs.Rendering
import CucumberExpression.Proofs.Utf8

namespace CucumberExpression.Node

/-! # Trees as JSON text and back

Either dialect reads what either writes of a tree, as text or as bytes, if offsets are those of
machines and tokens are without surrogates. The strict dialect refuses a tree for nothing but its
offsets. -/

open Json (Portable)

variable {node : Node} {room : Nat}

/-- Whether the token of a node, if it has one, is without surrogates. -/
def IsPlain (node : Node) : Prop :=
  ∀ token ∈ node.token?, token.chars?.isSome = true

/-- Whether the offsets of a node are below 2 to the 64. -/
def InRange (node : Node) : Prop :=
  node.start < 1 <<< 64 ∧ node.stop < 1 <<< 64

instance (node : Node) : Decidable node.IsPlain :=
  inferInstanceAs (Decidable (∀ token ∈ node.token?, token.chars?.isSome = true))

instance (node : Node) : Decidable node.InRange :=
  inferInstanceAs (Decidable (_ ∧ _))

theorem IsPlain.exists_ofChars {start stop : Int} {token : Text}
    (plain : (Node.leaf start stop token).IsPlain) : ∃ cs, token = Text.ofChars cs := by
  obtain ⟨cs, found⟩ := Option.isSome_iff_exists.mp (plain token rfl)
  exact ⟨cs, Text.chars?_eq_some_iff.mp found⟩

theorem inMachineRange_iff_lt {offset : Int} (nonnegative : 0 ≤ offset) :
    Json.inMachineRange offset = true ↔ offset < 1 <<< 64 := by
  rw [Json.inMachineRange_iff]
  omega

theorem portable_ofString (text : String) : Portable (.text text) :=
  .text text.toList

theorem portable_membersOf {kind : Kind} {start stop : Int} {field : Field} {value : Json}
    (own : field ∉ [.type, .start, .stop])
    (fits : ∀ offset ∈ [start, stop], Json.inMachineRange offset = true)
    (portable : Portable value) : Portable (.record (membersOf kind start stop field value)) := by
  refine .record ?_ ?_ ?_
  · have names : (membersOf kind start stop field value).map Prod.fst =
        [.type, .start, .stop, field].map fun field => (field.name : Text) := rfl
    rw [names]
    revert own
    cases field <;> decide
  · simp only [membersOf, List.forall_mem_cons, List.not_mem_nil, false_implies, implies_true]
    exact ⟨⟨_, rfl⟩, ⟨_, rfl⟩, ⟨_, rfl⟩, ⟨_, rfl⟩, trivial⟩
  · simp only [membersOf, List.forall_mem_cons, List.not_mem_nil, false_implies, implies_true]
    exact ⟨portable_ofString _, .integer (fits _ (by simp)), .integer (fits _ (by simp)), portable,
      trivial⟩

theorem depth_membersOf (kind : Kind) (start stop : Int) (field : Field) (value : Json) :
    (Json.record (membersOf kind start stop field value)).depth = value.depth + 1 := by
  simp [membersOf, Json.depth, Json.depthOfMembers]

theorem obstacle?_offset {offset : Int} (nonnegative : 0 ≤ offset) :
    (Json.integer offset).obstacle? room =
      if offset < 1 <<< 64 then none else some .integerOutOfRange := by
  rw [Json.obstacle?]
  exact if_congr (inMachineRange_iff_lt nonnegative) rfl rfl

/-- Of a node itself only the offsets stand in the way. -/
theorem obstacle?_membersOf {kind : Kind} {start stop : Int} {field : Field} {value : Json}
    (forward : Forward start stop) :
    (Json.record (membersOf kind start stop field value)).obstacle? (room + 1) =
      if start < 1 <<< 64 ∧ stop < 1 <<< 64 then value.obstacle? room
      else some .integerOutOfRange := by
  have plain (text : String) : Json.textObstacle? text = none :=
    Json.textObstacle?_ofChars text.toList
  have typed : (Json.text kind.name).obstacle? room = none := plain _
  rw [Json.obstacle?_record]
  simp only [membersOf, Json.obstacleInMembers?, plain, typed, Option.none_or, Option.or_none,
    obstacle?_offset forward.1, obstacle?_offset forward.nonnegative]
  by_cases low : start < 1 <<< 64 <;> by_cases high : stop < 1 <<< 64 <;>
    simp only [low, high, if_true, if_false, and_self, and_false, false_and, Option.none_or,
      Option.some_or]

theorem inMachineRange_of_inRange (valid : node.Valid) (inRange : node.InRange) :
    ∀ offset ∈ [node.start, node.stop], Json.inMachineRange offset = true := by
  obtain ⟨low, high⟩ := inRange
  simp only [List.forall_mem_cons, List.not_mem_nil, false_implies, implies_true, and_true]
  exact ⟨(inMachineRange_iff_lt valid.1).mpr low, (inMachineRange_iff_lt valid.nonnegative).mpr high⟩

/-- The document of a tree is one that both dialects have a form for. -/
theorem portable_toDocument (valid : node.Throughout Valid) (plain : node.Throughout IsPlain)
    (inRange : node.Throughout InRange) : Portable node.toDocument := by
  induction node using children_induction with
  | leaf start stop token =>
      rw [throughout_leaf] at valid plain inRange
      have fits := inMachineRange_of_inRange valid inRange
      obtain ⟨cs, rfl⟩ := plain.exists_ofChars
      rw [toDocument_leaf]
      exact portable_membersOf (by decide) fits (.text cs)
  | branch shape start stop children ih =>
      rw [throughout_branch] at valid plain inRange
      have fits := inMachineRange_of_inRange valid.1 inRange.1
      rw [toDocument_branch]
      apply portable_membersOf (by decide) fits
      apply Portable.list
      rw [List.forall_mem_map]
      exact fun child member =>
        ih child member (valid.2 child member) (plain.2 child member) (inRange.2 child member)

/-- The child that is out of range may stand behind others, but each of them passes or is refused
for the same reason. -/
theorem obstacleInItems?_map_toDocument {children : List Node}
    (valid : ∀ child ∈ children, child.Throughout Valid)
    (plain : ∀ child ∈ children, child.Throughout IsPlain)
    (shallow : ∀ child ∈ children, child.toDocument.depth ≤ room)
    (refused : ∀ child ∈ children, ¬ child.Throughout InRange →
      child.toDocument.obstacle? room = some .integerOutOfRange)
    (outside : ∃ child ∈ children, ¬ child.Throughout InRange) :
    Json.obstacleInItems? room (children.map toDocument) = some .integerOutOfRange := by
  apply Json.obstacleInItems?_eq_some
  · rw [List.forall_mem_map]
    intro child member
    by_cases inRange : child.Throughout InRange
    · have portable := portable_toDocument (valid child member) (plain child member) inRange
      rw [Json.obstacle?_of_portable portable (shallow child member)]
      exact List.mem_cons_self
    · rw [refused child member inRange]
      exact List.mem_cons_of_mem _ List.mem_cons_self
  · obtain ⟨child, member, below⟩ := outside
    exact ⟨_, List.mem_map_of_mem member, refused child member below⟩

/-- A tree with an offset out of range is refused for it. -/
theorem obstacle?_toDocument (valid : node.Throughout Valid) (plain : node.Throughout IsPlain)
    (shallow : node.toDocument.depth ≤ room) (outside : ¬ node.Throughout InRange) :
    node.toDocument.obstacle? room = some .integerOutOfRange := by
  induction node using children_induction generalizing room with
  | leaf start stop token =>
      rw [throughout_leaf] at valid outside
      rw [toDocument_leaf] at shallow ⊢
      rw [depth_membersOf] at shallow
      obtain ⟨room, rfl⟩ := Nat.exists_eq_add_one_of_ne_zero (Nat.ne_zero_of_lt shallow)
      exact (obstacle?_membersOf valid).trans (if_neg outside)
  | branch shape start stop children ih =>
      rw [throughout_branch] at valid plain outside
      rw [toDocument_branch] at shallow ⊢
      rw [depth_membersOf, Json.depth] at shallow
      obtain ⟨room, rfl⟩ := Nat.exists_eq_add_one_of_ne_zero (Nat.ne_zero_of_lt shallow)
      replace shallow := Nat.le_of_succ_le_succ shallow
      refine (obstacle?_membersOf valid.1).trans ?_
      split
      · rename_i root
        have below : ∃ child ∈ children, ¬ child.Throughout InRange := by
          by_contra none
          push Not at none
          exact outside ⟨root, none⟩
        obtain ⟨room, rfl⟩ := Nat.exists_eq_add_one_of_ne_zero (Nat.ne_zero_of_lt shallow)
        have fits : ∀ child ∈ children, child.toDocument.depth ≤ room := fun child member =>
          Nat.le_trans (Json.depth_le_depthOfItems (List.mem_map_of_mem member))
            (Nat.le_of_succ_le_succ shallow)
        rw [Json.obstacle?_list]
        apply obstacleInItems?_map_toDocument valid.2 plain.2 fits _ below
        exact fun child member =>
          ih child member (valid.2 child member) (plain.2 child member) (fits child member)
      · rfl

theorem toDocument_eq_record (node : Node) :
    ∃ members, members ≠ [] ∧ node.toDocument = .record members := by
  cases node with
  | leaf start stop token => exact ⟨_, List.cons_ne_nil _ _, toDocument_leaf ..⟩
  | branch shape start stop children => exact ⟨_, List.cons_ne_nil _ _, toDocument_branch ..⟩

variable {writer reader : Json.Dialect} {indented : Bool} {text : String}

theorem toJson_of_inRange (valid : node.Throughout Valid) (plain : node.Throughout IsPlain)
    (inRange : node.Throughout InRange)
    (shallow : writer = .strict → node.toDocument.depth ≤ Json.writingDepth) (indented : Bool) :
    ∃ text, node.toJson writer indented = .ok text :=
  ⟨_, Json.toText_of_portable (portable_toDocument valid plain inRange) shallow indented⟩

theorem ofJson_of_toJson (valid : node.Throughout Valid) (plain : node.Throughout IsPlain)
    (inRange : node.Throughout InRange) (shallow : node.toDocument.depth ≤ reader.readingDepth)
    (written : node.toJson writer indented = .ok text) : ofJson reader text = .ok node := by
  have portable := portable_toDocument valid plain inRange
  have read := Json.ofText_writeValue writer portable shallow indented
  rw [Json.eq_of_toText written, ofJson, Text.ofString, String.toList_ofList, read, ofReading,
    ofDocument_toDocument valid]
  rfl

/-- The bytes of a written tree are read as its text is. -/
theorem ofJsonBytes_of_toJson (written : node.toJson writer indented = .ok text) :
    ofJsonBytes reader text.toUTF8.data.toList = ofJson reader text := by
  obtain ⟨members, some, document⟩ := node.toDocument_eq_record
  have same := Json.eq_of_toText written
  rw [document] at same
  obtain ⟨second, mark, others, front⟩ :=
    Json.writeValue_record writer (writer.layout indented) 0 some
  have ascii : 0 < second.toNat ∧ second.toNat < 0x80 := by
    simp only [List.mem_cons, List.not_mem_nil, or_false] at mark
    rcases mark with rfl | rfl <;> decide
  rw [same, front, ofJsonBytes, Json.ofBytes_toUTF8 ascii.1 ascii.2, ofJson, Text.ofString,
    String.toList_ofList]

theorem toJson_of_not_inRange (valid : node.Throughout Valid) (plain : node.Throughout IsPlain)
    (shallow : node.toDocument.depth ≤ Json.writingDepth) (outside : ¬ node.Throughout InRange)
    (indented : Bool) : node.toJson .strict indented = .error .integerOutOfRange := by
  rw [toJson, Json.toText]
  simp only [obstacle?_toDocument valid plain shallow outside]

theorem not_throughout_inRange_iff :
    ¬ node.Throughout InRange ↔
      ∃ path below, node.descendant? path = some below ∧
        (1 <<< 64 ≤ below.start ∨ 1 <<< 64 ≤ below.stop) := by
  simp only [not_throughout_iff, InRange, not_and_or, Int.not_lt]

/-- What either dialect writes of a tree of machine offsets and plain tokens, either reads as the
tree, and nothing but an offset keeps the strict dialect from writing. -/
theorem ofJson_toJson (valid : node.Throughout Valid) (plain : node.Throughout IsPlain)
    (indented : Bool) :
    (node.Throughout InRange → ∀ writer reader : Json.Dialect,
      (writer = .strict → node.toDocument.depth ≤ Json.writingDepth) →
      node.toDocument.depth ≤ reader.readingDepth →
      ∃ text : String, node.toJson writer indented = .ok text ∧
        ofJson reader text = .ok node ∧
        ofJsonBytes reader text.toUTF8.data.toList = .ok node) ∧
    (node.toDocument.depth ≤ Json.writingDepth → ∀ reason,
      node.toJson .strict indented = .error reason ↔
        reason = .integerOutOfRange ∧ ∃ path below, node.descendant? path = some below ∧
          (1 <<< 64 ≤ below.start ∨ 1 <<< 64 ≤ below.stop)) := by
  constructor
  · intro inRange writer reader writable readable
    obtain ⟨text, written⟩ := toJson_of_inRange valid plain inRange writable indented
    have read := ofJson_of_toJson valid plain inRange readable written
    exact ⟨text, written, read, (ofJsonBytes_of_toJson written).trans read⟩
  · intro shallow reason
    rw [← not_throughout_inRange_iff]
    by_cases inRange : node.Throughout InRange
    · obtain ⟨text, written⟩ := toJson_of_inRange valid plain inRange (fun _ => shallow) indented
      rw [written]
      simp [inRange]
    · rw [toJson_of_not_inRange valid plain shallow inRange]
      simp [inRange, eq_comm]

/-- A quotation mark, a character past U+FFFF and the last offset of the strict dialect come back;
the next offset is refused. -/
theorem ofJson_toJson_of_last_offset :
    ∃ (node : Node) (text : String),
      node = .branch .optional 0 (1 <<< 64 - 1) [.leaf 1 2 "\"é😀", .leaf 3 3 []] ∧
      text = "\x7b\"type\": \"OPTIONAL_NODE\", \"start\": 0, \"end\": 18446744073709551615, " ++
        "\"nodes\": [\x7b\"type\": \"TEXT_NODE\", \"start\": 1, \"end\": 2, " ++
        "\"token\": \"\\\"\\u00e9\\ud83d\\ude00\"\x7d, " ++
        "\x7b\"type\": \"TEXT_NODE\", \"start\": 3, \"end\": 3, \"token\": \"\"\x7d]\x7d" ∧
      node.toJson .lenient false = .ok text ∧ ofJson .strict text = .ok node ∧
      ofJsonBytes .strict text.toUTF8.data.toList = .ok node ∧
      (Node.leaf 0 (1 <<< 64) []).toJson .strict true = .error .integerOutOfRange := by
  let node : Node := .branch .optional 0 (1 <<< 64 - 1) [.leaf 1 2 "\"é😀", .leaf 3 3 []]
  have valid : node.Throughout Valid := by
    simp only [node, throughout_branch, throughout_leaf, List.forall_mem_cons]
    exact ⟨by decide, by decide, by decide, List.forall_mem_nil _⟩
  have plain : node.Throughout IsPlain := by
    simp only [node, throughout_branch, throughout_leaf, List.forall_mem_cons]
    exact ⟨by decide, by decide, by decide, List.forall_mem_nil _⟩
  have inRange : node.Throughout InRange := by
    simp only [node, throughout_branch, throughout_leaf, List.forall_mem_cons]
    exact ⟨by decide, by decide, by decide, List.forall_mem_nil _⟩
  obtain ⟨text, written, read, bytes⟩ := (ofJson_toJson valid plain false).1 inRange .lenient .strict
    (by simp) (by decide)
  refine ⟨node, text, rfl, ?_, written, read, bytes, ?_⟩
  · rw [Json.eq_of_toText written]
    decide +kernel
  · decide +kernel

end CucumberExpression.Node
