import CucumberExpression.Node.Serialized
import CucumberExpression.Proofs.Items
import CucumberExpression.Proofs.Trees

namespace CucumberExpression.Node

/-! # Trees from their documents

The document of a tree is read as the tree, if all spans go forward. They do in every tree that is
read from a document, however its offsets and tokens are given. -/

variable {node : Node} {children : List Node}

/-- Whether a node has a span that nodes may have. -/
def Valid (node : Node) : Prop :=
  Forward node.start node.stop

instance (node : Node) : Decidable node.Valid :=
  inferInstanceAs (Decidable (_ ∧ _))

/-- The members of a document: three that all nodes have and one that depends on the kind. -/
def membersOf (kind : Kind) (start stop : Int) (field : Field) (value : Json) :
    List (Text × Json) :=
  [(Field.type.name, .text kind.name), (Field.start.name, .integer start),
    (Field.stop.name, .integer stop), (field.name, value)]

theorem toDocuments_eq_map (nodes : List Node) : toDocuments nodes = nodes.map toDocument := by
  induction nodes with
  | nil => rfl
  | cons node rest ih => rw [toDocuments, ih, List.map_cons]

theorem toDocument_leaf (start stop : Int) (token : Text) :
    toDocument (.leaf start stop token) =
      .record (membersOf .text start stop .token (.text token)) :=
  rfl

theorem toDocument_branch (shape : Branch) (start stop : Int) (children : List Node) :
    toDocument (.branch shape start stop children) =
      .record (membersOf (.branch shape) start stop .nodes (.list (children.map toDocument))) := by
  rw [toDocument, toDocuments_eq_map]
  rfl

theorem Field.name_eq_iff (left right : Field) :
    (left.name : Text) = (right.name : Text) ↔ left = right := by
  cases left <;> cases right <;> decide

theorem kindOf_name (kind : Kind) : kindOf (.text kind.name) = .ok kind := by
  rw [kindOf, Text.string?_ofString, Option.bind_some, Kind.ofName?_name]

theorem offsetOf_integer (offset : Int) : offsetOf (.integer offset) = .ok offset :=
  rfl

theorem required_eq_ok {α : Type} {field : Field} {convert : Json → Except DocumentError α}
    {members : List (Text × Json)} {value : Json} {result : α}
    (found : Json.member? field.name members = some value) (converted : convert value = .ok result) :
    required field convert members = .ok result := by
  simp only [required, found, converted]
  rfl

section

variable {kind : Kind} {start stop : Int} {field : Field} {value : Json}

/-- In a document the kind and the span can be had, so it depends on the other fields alone whether
it is read. -/
theorem ofDocument_membersOf_eq :
    ofDocument (.record (membersOf kind start stop field value)) = (do
      let nodes ← (nodesOf (membersOf kind start stop field value)).mapError (.invalid .nodes)
      let token ← (tokenOf (membersOf kind start stop field value)).mapError (.invalid .token)
      (ofFields ⟨kind, start, stop, nodes, token⟩).mapError .rejected) := by
  have kindRead : required .type kindOf (membersOf kind start stop field value) = .ok kind := by
    apply required_eq_ok _ (kindOf_name kind)
    simp [membersOf, Json.member?]
  have startRead : required .start offsetOf (membersOf kind start stop field value) = .ok start := by
    apply required_eq_ok _ (offsetOf_integer start)
    simp [membersOf, Json.member?, Field.name_eq_iff]
  have stopRead : required .stop offsetOf (membersOf kind start stop field value) = .ok stop := by
    apply required_eq_ok _ (offsetOf_integer stop)
    simp [membersOf, Json.member?, Field.name_eq_iff]
  rw [ofDocument, kindRead, startRead, stopRead]
  rfl

theorem ofDocument_membersOf {nodes : Option (List Node)} {token : Option Text}
    (foundNodes : nodesOf (membersOf kind start stop field value) = .ok nodes)
    (foundToken : tokenOf (membersOf kind start stop field value) = .ok token) :
    ofDocument (.record (membersOf kind start stop field value)) =
      (ofFields ⟨kind, start, stop, nodes, token⟩).mapError .rejected := by
  rw [ofDocument_membersOf_eq, foundNodes, foundToken]
  rfl

end

theorem ofDocuments_map (each : ∀ child ∈ children, ofDocument child.toDocument = .ok child) :
    ofDocuments (children.map toDocument) = .ok children := by
  induction children with
  | nil => rw [List.map_nil, ofDocuments]
  | cons node rest ih =>
      rw [List.map_cons, ofDocuments, each node List.mem_cons_self,
        ih fun child member => each child (List.mem_cons_of_mem _ member)]
      rfl

theorem ofFields_of_valid (valid : node.Valid) : ofFields node.fields = .ok node :=
  ofFields_fields valid.1 valid.2

/-- A tree whose spans go forward is read from its document. -/
theorem ofDocument_toDocument (valid : node.Throughout Valid) :
    ofDocument node.toDocument = .ok node := by
  induction node using children_induction with
  | leaf start stop token =>
      have made := ofFields_of_valid (throughout_leaf.mp valid)
      rw [fields] at made
      rw [toDocument_leaf, ofDocument_membersOf, made]
      · rfl
      · simp [membersOf, nodesOf, Field.name_eq_iff]
      · simp [membersOf, tokenOf, Json.member?, Field.name_eq_iff, Json.depth, Json.asText]
  | branch shape start stop children ih =>
      obtain ⟨root, inside⟩ := throughout_branch.mp valid
      have made := ofFields_of_valid root
      have read := ofDocuments_map fun child member => ih child member (inside child member)
      rw [fields] at made
      rw [toDocument_branch, ofDocument_membersOf, made]
      · rfl
      · simp [membersOf, nodesOf, Field.name_eq_iff, childrenOf, read]
        rfl
      · simp [membersOf, tokenOf, Json.member?, Field.name_eq_iff]

theorem mapError_eq_ok_iff {ε ε' α : Type} {convert : ε → ε'} {made : Except ε α} {value : α} :
    made.mapError convert = .ok value ↔ made = .ok value := by
  cases made <;> constructor <;> intro same <;> cases same <;> rfl

theorem exists_record_of_ofDocument {value : Json} (read : ofDocument value = .ok node) :
    ∃ members, value = .record members := by
  cases value with
  | record members => exact ⟨members, rfl⟩
  | _ => simp [ofDocument] at read

/-- A record is read as a node when the span is one that nodes may have and the members give the
fields. -/
theorem ofDocument_record_eq_ok_iff {members : List (Text × Json)} :
    ofDocument (.record members) = .ok node ↔
      node.Valid ∧ required .type kindOf members = .ok node.fields.kind ∧
        required .start offsetOf members = .ok node.fields.start ∧
        required .stop offsetOf members = .ok node.fields.stop ∧
        nodesOf members = .ok node.fields.nodes ∧ tokenOf members = .ok node.fields.token := by
  simp only [ofDocument, bind_eq_ok_iff, mapError_eq_ok_iff, ofFields_eq_ok_iff]
  constructor
  · intro steps
    obtain ⟨kind, kindRead, start, startRead, stop, stopRead, nodes, nodesRead, token, tokenRead,
      forward, same⟩ := steps
    rw [same]
    refine ⟨?_, kindRead, startRead, stopRead, nodesRead, tokenRead⟩
    cases node <;> cases same <;> exact forward
  · intro described
    obtain ⟨valid, kindRead, startRead, stopRead, nodesRead, tokenRead⟩ := described
    refine ⟨_, kindRead, _, startRead, _, stopRead, _, nodesRead, _, tokenRead, ?_, rfl⟩
    cases node <;> exact valid

section

variable {child : Node} {nodes : List Node}

theorem exists_item_of_ofDocuments {items : List Json} (read : ofDocuments items = .ok nodes)
    (member : child ∈ nodes) : ∃ item ∈ items, ofDocument item = .ok child := by
  induction items generalizing nodes with
  | nil =>
      rw [ofDocuments] at read
      cases read
      cases member
  | cons first rest ih =>
      simp only [ofDocuments, bind_eq_ok_iff, pure_eq_ok_iff] at read
      obtain ⟨node, own, others, tail, rfl⟩ := read
      rcases List.mem_cons.mp member with rfl | member
      · exact ⟨first, List.mem_cons_self, own⟩
      · obtain ⟨item, inside, found⟩ := ih tail member
        exact ⟨item, List.mem_cons_of_mem _ inside, found⟩

/-- Only a list has elements that are nodes. -/
theorem childrenOf_eq_ok_some_iff {value : Json} :
    childrenOf value = .ok (some nodes) ↔
      (∃ items, value = .list items ∧ ofDocuments items = .ok nodes) ∨
        (value = .text [] ∨ value = .record []) ∧ nodes = [] := by
  cases value with
  | list items => cases read : ofDocuments items <;> simp [childrenOf, read, Except.map]
  | text content => cases content <;> simp [childrenOf, eq_comm]
  | record members => cases members <;> simp [childrenOf, eq_comm]
  | _ => simp [childrenOf]

theorem exists_document_of_nodesOf {members : List (Text × Json)}
    (read : nodesOf members = .ok (some nodes)) (member : child ∈ nodes) :
    ∃ item, ofDocument item = .ok child := by
  induction members with
  | nil =>
      rw [nodesOf] at read
      cases read
  | cons first rest ih =>
      obtain ⟨key, value⟩ := first
      rw [nodesOf] at read
      split at read
      · rcases childrenOf_eq_ok_some_iff.mp read with ⟨items, -, items⟩ | ⟨-, rfl⟩
        · obtain ⟨item, -, found⟩ := exists_item_of_ofDocuments items member
          exact ⟨item, found⟩
        · cases member
      · exact ih read

/-- The children of a node that was read were read themselves. -/
theorem exists_document_of_mem {value : Json} (read : ofDocument value = .ok node)
    (member : child ∈ node.children) : ∃ item, ofDocument item = .ok child := by
  obtain ⟨members, rfl⟩ := exists_record_of_ofDocument read
  obtain ⟨-, -, -, -, nodes, -⟩ := ofDocument_record_eq_ok_iff.mp read
  cases node with
  | leaf start stop token => cases member
  | branch shape start stop children => exact exists_document_of_nodesOf nodes member

end

theorem valid_of_ofDocument {value : Json} (read : ofDocument value = .ok node) : node.Valid := by
  obtain ⟨members, rfl⟩ := exists_record_of_ofDocument read
  exact (ofDocument_record_eq_ok_iff.mp read).1

theorem throughout_valid_of_ofDocument {value : Json} (read : ofDocument value = .ok node) :
    node.Throughout Valid := by
  intro path below found
  obtain ⟨item, own⟩ : ∃ item, ofDocument item = .ok below := by
    apply descendant_induction (motive := fun node => ∃ item, ofDocument item = .ok node) ?_ ?_ found
    · exact ⟨value, read⟩
    · rintro node child ⟨item, own⟩ member
      exact exists_document_of_mem own member
  exact valid_of_ofDocument own

/-- What the fields of a node have to be like: the span goes forward, and there is a token and no
children, or the other way round, as the kind asks for. -/
structure Fields.Lawful (fields : Fields) : Prop where
  forward : Forward fields.start fields.stop
  leaf : fields.kind = .text → fields.token.isSome ∧ fields.nodes = none
  branch : fields.kind ≠ .text → fields.nodes.isSome ∧ fields.token = none

/-- A record of fields is a node exactly when they are lawful. -/
theorem Fields.lawful_iff {fields : Fields} :
    fields.Lawful ↔ ∃ node, ofFields fields = .ok node := by
  simp only [ofFields_eq_ok_iff]
  constructor
  · intro lawful
    obtain ⟨kind, start, stop, nodes, token⟩ := fields
    obtain ⟨forward, leaf, branch⟩ := lawful
    cases kind with
    | text =>
        obtain ⟨some, rfl⟩ := leaf rfl
        obtain ⟨content, rfl⟩ := Option.isSome_iff_exists.mp some
        exact ⟨.leaf start stop content, forward, rfl⟩
    | branch shape =>
        obtain ⟨some, rfl⟩ := branch nofun
        obtain ⟨children, rfl⟩ := Option.isSome_iff_exists.mp some
        exact ⟨.branch shape start stop children, forward, rfl⟩
  · rintro ⟨node, forward, rfl⟩
    cases node with
    | leaf start stop token => exact ⟨forward, fun _ => ⟨rfl, rfl⟩, fun other => absurd rfl other⟩
    | branch shape start stop children => exact ⟨forward, nofun, fun _ => ⟨rfl, rfl⟩⟩

theorem lawful_fields_iff : node.fields.Lawful ↔ node.Valid := by
  rw [Fields.lawful_iff]
  constructor
  · rintro ⟨other, made⟩
    obtain ⟨forward, -⟩ := ofFields_eq_ok_iff.mp made
    cases node <;> exact forward
  · exact fun valid => ⟨node, ofFields_of_valid valid⟩

/-- Reading documents gives back every lawful tree from its own document, and nothing but lawful
trees from any value, so each tree that was read is read again from its document. -/
theorem ofDocument_retracts :
    (∀ node : Node, node.Throughout (·.fields.Lawful) → ofDocument node.toDocument = .ok node) ∧
      ∀ (value : Json) (node : Node), ofDocument value = .ok node →
        node.Throughout (·.fields.Lawful) ∧ ofDocument node.toDocument = .ok node := by
  simp only [lawful_fields_iff]
  refine ⟨fun node => ofDocument_toDocument, fun value node read => ?_⟩
  have valid := throughout_valid_of_ofDocument read
  exact ⟨valid, ofDocument_toDocument valid⟩

/-- Offsets as a numeral with a sign and an underscore, a real and a truth value, a token that is a
list, members in another order and one that no field needs. -/
theorem ofDocument_retracts_of_spelled_offsets :
    ∃ node, node = .branch .optional 0 15 [.leaf 1 11 "[1]"] ∧
      ofDocument (.record [("type", .text "OPTIONAL_NODE"), ("start", .text " +0_0 "),
        ("end", .real (.finite false 31 (-1))),
        ("nodes", .list [.record [("token", .list [.integer 1]), ("end", .text "1_1"),
          ("start", .boolean true), ("type", .text "TEXT_NODE"), ("label", .null)]])]) =
        .ok node ∧
      node.Throughout (·.fields.Lawful) ∧ ofDocument node.toDocument = .ok node := by
  refine ⟨_, rfl, ?_⟩
  have read : ofDocument (.record [("type", .text "OPTIONAL_NODE"), ("start", .text " +0_0 "),
      ("end", .real (.finite false 31 (-1))),
      ("nodes", .list [.record [("token", .list [.integer 1]), ("end", .text "1_1"),
        ("start", .boolean true), ("type", .text "TEXT_NODE"), ("label", .null)]])]) =
      .ok (.branch .optional 0 15 [.leaf 1 11 "[1]"]) := by
    rfl
  exact ⟨read, ofDocument_retracts.2 _ _ read⟩

end CucumberExpression.Node
