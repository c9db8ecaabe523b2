import CucumberExpression.Proofs.Documents
import Mathlib.Data.List.Lex
import Mathlib.Data.List.MinMax

namespace CucumberExpression

/-! # Replacements

In the document of a tree, the documents of some nodes are replaced by values that are no nodes.
Then the document is no tree either, and its error leads from the root to the leftmost of these
values, whatever else is wrong behind it. -/

namespace Json

def changeMembers (name : Text) (change : Json → Json) : Json → Json
  | .record members =>
      .record (members.map fun (key, value) => (key, if key = name then change value else value))
  | value => value

def changeItem (index : Nat) (change : Json → Json) : Json → Json
  | .list items => .list (items.modify index change)
  | value => value

end Json

/-- A value that is put where a path of child positions leads to. -/
structure Replacement where
  path : List Nat
  value : Json

namespace Replacement

open Node

def putAt (value : Json) : List Nat → Json → Json
  | [] => fun _ => value
  | index :: rest =>
      Json.changeMembers Field.nodes.name (Json.changeItem index (putAt value rest))

def apply (replacement : Replacement) (document : Json) : Json :=
  putAt replacement.value replacement.path document

def applyAll (replacements : List Replacement) (document : Json) : Json :=
  replacements.foldl (fun changed replacement => replacement.apply changed) document

/-- Whether neither of two replacements is made inside the other. -/
def Apart (left right : Replacement) : Prop :=
  ¬ left.path <+: right.path ∧ ¬ right.path <+: left.path

/-- Whether a replacement is made further left than another. -/
def Precedes (left right : Replacement) : Prop :=
  List.Lex (· < ·) left.path right.path

instance (left right : Replacement) : Decidable (left.Apart right) :=
  inferInstanceAs (Decidable (_ ∧ _))

/-- A replacement inside a child as that child sees it. -/
def inside? (index : Nat) : Replacement → Option Replacement
  | ⟨[], _⟩ => none
  | ⟨first :: rest, value⟩ => if first = index then some ⟨rest, value⟩ else none

variable {replacement : Replacement} {replacements : List Replacement} {index : Nat}
  {path : List Nat} {value : Json} {items : List Json} {kind : Kind} {start stop : Int}

theorem inside?_eq_some_iff {own : Replacement} :
    replacement.inside? index = some own ↔ replacement = ⟨index :: own.path, own.value⟩ := by
  obtain ⟨_ | ⟨first, rest⟩, value⟩ := replacement
  · simp [inside?]
  · obtain ⟨path, value'⟩ := own
    simp [inside?, and_assoc]

theorem apply_cons_membersOf (index : Nat) (path : List Nat) (value : Json) :
    apply ⟨index :: path, value⟩ (.record (membersOf kind start stop .nodes (.list items))) =
      .record (membersOf kind start stop .nodes
        (.list (items.modify index (apply ⟨path, value⟩)))) := by
  simp [apply, putAt, Json.changeMembers, Json.changeItem, membersOf, Field.name_eq_iff]
  rfl

/-- Replacements below a node are made in its children, each in the one that its path leads to. -/
theorem applyAll_membersOf (below : ∀ replacement ∈ replacements, replacement.path ≠ []) :
    applyAll replacements (.record (membersOf kind start stop .nodes (.list items))) =
      .record (membersOf kind start stop .nodes (.list (items.mapIdx fun index item =>
        applyAll (replacements.filterMap (inside? index)) item))) := by
  induction replacements generalizing items with
  | nil =>
      have same : (items.mapIdx fun _ item => item) = items := by
        apply List.ext_getElem?
        simp [List.getElem?_mapIdx]
      simp only [applyAll, List.filterMap_nil, List.foldl_nil, same]
  | cons replacement rest ih =>
      obtain ⟨own, others⟩ := List.forall_mem_cons.mp below
      obtain ⟨_ | ⟨first, path⟩, value⟩ := replacement
      · exact absurd rfl own
      have step : applyAll (⟨first :: path, value⟩ :: rest)
          (.record (membersOf kind start stop .nodes (.list items))) =
          applyAll rest (.record (membersOf kind start stop .nodes
            (.list (items.modify first (apply ⟨path, value⟩))))) := by
        rw [← apply_cons_membersOf]
        rfl
      have changed : ((items.modify first (apply ⟨path, value⟩)).mapIdx fun index item =>
          applyAll (rest.filterMap (inside? index)) item) =
          items.mapIdx fun index item =>
            applyAll ((⟨first :: path, value⟩ :: rest).filterMap (inside? index)) item := by
        apply List.ext_getElem?
        intro index
        rw [List.getElem?_mapIdx, List.getElem?_mapIdx, List.getElem?_modify]
        by_cases same : first = index <;>
          cases items[index]? <;> simp [inside?, same, applyAll]
      rw [step, ih others, changed]

theorem leftmost_inside
    (leftmost : ∀ other ∈ replacements, ¬ other.Precedes ⟨index :: path, value⟩) :
    ∀ other ∈ replacements.filterMap (inside? index), ¬ other.Precedes ⟨path, value⟩ := by
  intro other member precedes
  obtain ⟨outer, among, inside⟩ := List.mem_filterMap.mp member
  obtain rfl := inside?_eq_some_iff.mp inside
  exact leftmost _ among (.cons precedes)

/-- Further left than the leftmost replacement there is none. -/
theorem filterMap_inside_eq_nil {earlier : Nat}
    (leftmost : ∀ other ∈ replacements, ¬ other.Precedes ⟨index :: path, value⟩)
    (before : earlier < index) : replacements.filterMap (inside? earlier) = [] := by
  apply List.filterMap_eq_nil_iff.mpr
  intro other member
  by_contra inside
  obtain ⟨own, found⟩ := Option.ne_none_iff_exists'.mp inside
  obtain rfl := inside?_eq_some_iff.mp found
  exact leftmost _ member (.rel before)

theorem pairwise_apart_inside (apart : replacements.Pairwise Apart) (index : Nat) :
    (replacements.filterMap (inside? index)).Pairwise Apart := by
  apply apart.filterMap
  intro left right apart first inside second inside'
  obtain rfl := inside?_eq_some_iff.mp inside
  obtain rfl := inside?_eq_some_iff.mp inside'
  obtain ⟨outside, outside'⟩ := apart
  exact ⟨fun within => outside (List.cons_prefix_cons.mpr ⟨rfl, within⟩),
    fun within => outside' (List.cons_prefix_cons.mpr ⟨rfl, within⟩)⟩

/-- What is replaced as a whole is replaced once. -/
theorem eq_singleton_of_mem (apart : replacements.Pairwise Apart)
    (member : ⟨[], value⟩ ∈ replacements) : replacements = [⟨[], value⟩] := by
  obtain ⟨before, after, rfl⟩ := List.append_of_mem member
  obtain ⟨-, follows, across⟩ := List.pairwise_append.mp apart
  have nothingBefore : before = [] := by
    apply List.eq_nil_iff_forall_not_mem.mpr
    intro other among
    exact (across other among _ List.mem_cons_self).2 (List.nil_prefix ..)
  have nothingAfter : after = [] := by
    apply List.eq_nil_iff_forall_not_mem.mpr
    intro other among
    exact (List.rel_of_pairwise_cons follows among).1 (List.nil_prefix ..)
  rw [nothingBefore, nothingAfter, List.nil_append]

theorem not_precedes_self (replacement : Replacement) : ¬ replacement.Precedes replacement :=
  lt_irrefl replacement.path

theorem exists_leftmost (nonempty : replacements ≠ []) :
    ∃ first ∈ replacements, ∀ other ∈ replacements, ¬ other.Precedes first := by
  cases least : replacements.argmin Replacement.path with
  | none => exact absurd (List.argmin_eq_none.mp least) nonempty
  | some first =>
      exact ⟨first, List.argmin_mem least, fun other member => List.not_lt_of_mem_argmin member least⟩

end Replacement

namespace Node

variable {items : List Json} {item : Json} {index : Nat} {error : DocumentError} {kind : Kind}
  {start stop : Int}

/-- Elements are read from left to right up to the first that is no node. -/
theorem ofDocuments_eq_error (there : items[index]? = some item)
    (earlier : ∀ before < index, ∀ other ∈ items[before]?, ∃ node, ofDocument other = .ok node)
    (fails : ofDocument item = .error error) : ofDocuments items = .error error := by
  induction items generalizing index with
  | nil => cases there
  | cons first rest ih =>
      rw [ofDocuments]
      cases index with
      | zero =>
          cases there
          rw [fails]
          rfl
      | succ index =>
          obtain ⟨node, read⟩ := earlier 0 (Nat.succ_pos index) first rfl
          have others : ofDocuments rest = .error error := by
            apply ih there
            intro before less other member
            exact earlier (before + 1) (Nat.succ_lt_succ less) other member
          rw [read, others]
          rfl

/-- A node whose children cannot be read is not read, and says so. -/
theorem ofDocument_of_children_error (fails : ofDocuments items = .error error) :
    ofDocument (.record (membersOf kind start stop .nodes (.list items))) =
      .error (.invalid .nodes error) := by
  have nodes : nodesOf (membersOf kind start stop .nodes (.list items)) = .error error := by
    simp [membersOf, nodesOf, Field.name_eq_iff, childrenOf, fails, Except.map]
  rw [ofDocument_membersOf_eq, nodes]
  rfl

/-- A value that is no node is reported through all nodes that it is below, and only the leftmost of
several is. -/
theorem ofDocument_applyAll {node below : Node} {replacements : List Replacement} {path : List Nat}
    {value : Json} (valid : node.Throughout Valid) (found : node.descendant? path = some below)
    (fails : ofDocument value = .error error) (member : ⟨path, value⟩ ∈ replacements)
    (apart : replacements.Pairwise Replacement.Apart)
    (leftmost : ∀ other ∈ replacements, ¬ other.Precedes ⟨path, value⟩) :
    ofDocument (Replacement.applyAll replacements node.toDocument) =
      .error ((DocumentError.invalid .nodes)^[path.length] error) := by
  induction path generalizing node replacements with
  | nil =>
      rw [Replacement.eq_singleton_of_mem apart member]
      exact fails
  | cons index path ih =>
      obtain ⟨child, there, further⟩ := Option.bind_eq_some_iff.mp found
      obtain _ | ⟨shape, start, stop, children⟩ := node
      · cases there
      replace there : children[index]? = some child := there
      obtain ⟨-, inside⟩ := throughout_branch.mp valid
      have below : ∀ other ∈ replacements, other.path ≠ [] := by
        intro other among root
        apply leftmost other among
        rw [Replacement.Precedes, root]
        exact .nil
      have own := ih (inside child (List.mem_of_getElem? there)) further
        (List.mem_filterMap.mpr ⟨_, member, Replacement.inside?_eq_some_iff.mpr rfl⟩)
        (Replacement.pairwise_apart_inside apart index) (Replacement.leftmost_inside leftmost)
      rw [toDocument_branch, Replacement.applyAll_membersOf below, List.length_cons,
        Function.iterate_succ_apply']
      have changed : ((children.map toDocument).mapIdx fun index item =>
          Replacement.applyAll (replacements.filterMap (Replacement.inside? index)) item)[index]? =
          some (Replacement.applyAll (replacements.filterMap (Replacement.inside? index))
            child.toDocument) := by
        rw [List.getElem?_mapIdx, List.getElem?_map, there]
        rfl
      apply ofDocument_of_children_error
      apply ofDocuments_eq_error changed ?_ own
      intro before less other among
      rw [List.getElem?_mapIdx, Replacement.filterMap_inside_eq_nil leftmost less,
        List.getElem?_map, Option.map_map] at among
      obtain ⟨sibling, found, rfl⟩ := Option.map_eq_some_iff.mp among
      exact ⟨sibling, ofDocument_toDocument (inside sibling (List.mem_of_getElem? found))⟩

/-- What stands where a path leads to is the document of the node there. -/
theorem apply_toDocument {node below : Node} {path : List Nat}
    (found : node.descendant? path = some below) :
    Replacement.apply ⟨path, below.toDocument⟩ node.toDocument = node.toDocument := by
  induction path generalizing node with
  | nil =>
      cases found
      rfl
  | cons index path ih =>
      obtain ⟨child, there, further⟩ := Option.bind_eq_some_iff.mp found
      obtain _ | ⟨shape, start, stop, children⟩ := node
      · cases there
      replace there : children[index]? = some child := there
      have same : (children.map toDocument).modify index (Replacement.apply ⟨path, below.toDocument⟩) =
          children.map toDocument := by
        apply List.ext_getElem?
        intro position
        rw [List.getElem?_modify]
        by_cases here : index = position
        · subst here
          simp [there, ih further]
        · simp [here]
      rw [toDocument_branch, Replacement.apply_cons_membersOf, same]

/-- Where one value that is no node is put into the document of a tree, its own error is found below
as many nodes as the path to it has steps. Where several are put into it, none inside another, the
error is that of the leftmost one alone. -/
theorem ofDocument_replaced {node : Node} (valid : node.Throughout (·.fields.Lawful)) :
    (∀ path below, node.descendant? path = some below →
      Replacement.apply ⟨path, below.toDocument⟩ node.toDocument = node.toDocument ∧
      ∀ value error, ofDocument value = .error error →
        ofDocument (Replacement.apply ⟨path, value⟩ node.toDocument) =
          .error ((DocumentError.invalid .nodes)^[path.length] error)) ∧
    ∀ replacements : List Replacement, replacements ≠ [] →
      replacements.Pairwise Replacement.Apart →
      (∀ replacement ∈ replacements, ∃ below error,
        node.descendant? replacement.path = some below ∧
          ofDocument replacement.value = .error error) →
      ∃ first ∈ replacements, (∀ other ∈ replacements, ¬ other.Precedes first) ∧
        ofDocument (Replacement.applyAll replacements node.toDocument) =
          ofDocument (first.apply node.toDocument) := by
  simp only [lawful_fields_iff] at valid
  have single {path : List Nat} {below : Node} {value : Json} {error : DocumentError}
      (found : node.descendant? path = some below) (fails : ofDocument value = .error error) :
      ofDocument (Replacement.apply ⟨path, value⟩ node.toDocument) =
        .error ((DocumentError.invalid .nodes)^[path.length] error) := by
    apply ofDocument_applyAll valid found fails (List.mem_singleton_self _)
      (List.pairwise_singleton ..)
    intro other member
    rw [List.mem_singleton.mp member]
    exact Replacement.not_precedes_self _
  refine ⟨fun path below found => ⟨apply_toDocument found, fun _ _ => single found⟩, ?_⟩
  intro replacements nonempty apart each
  obtain ⟨first, member, leftmost⟩ := Replacement.exists_leftmost nonempty
  obtain ⟨below, error, found, fails⟩ := each first member
  refine ⟨first, member, leftmost, ?_⟩
  rw [ofDocument_applyAll valid found fails member apart leftmost]
  exact (single found fails).symm

/-- A child without offsets inside the optional and no record behind it. -/
theorem ofDocument_replaced_of_two_children :
    ofDocument (Replacement.applyAll
      [⟨[2], .null⟩, ⟨[1, 1], .record [("token", .null), ("type", .text "TEXT_NODE")]⟩]
      (branch .expression 0 7 [.leaf 0 1 "a",
        .branch .optional 1 6 [.leaf 2 3 "b", .branch .parameter 3 5 []], .leaf 6 7 "c"]).toDocument) =
      .error (.invalid .nodes (.invalid .nodes (.missing .start))) := by
  have valid : (branch .expression 0 7 [.leaf 0 1 "a",
      .branch .optional 1 6 [.leaf 2 3 "b", .branch .parameter 3 5 []], .leaf 6 7 "c"]).Throughout
      (·.fields.Lawful) := by
    simp [lawful_fields_iff, throughout_branch, throughout_leaf, Valid, Forward, Node.start, Node.stop]
  obtain ⟨single, several⟩ := ofDocument_replaced valid
  obtain ⟨first, member, leftmost, same⟩ := several
    [⟨[2], .null⟩, ⟨[1, 1], .record [("token", .null), ("type", .text "TEXT_NODE")]⟩]
    (List.cons_ne_nil _ _) (by decide) (by
      simp only [List.forall_mem_cons]
      exact ⟨⟨_, .notRecord, rfl, rfl⟩, ⟨_, .missing .start, rfl, rfl⟩, List.forall_mem_nil _⟩)
  rw [same]
  rcases List.mem_pair.mp member with rfl | rfl
  · exact absurd (.rel (by decide)) (leftmost _ (List.mem_cons_of_mem _ (List.mem_singleton_self _)))
  · exact (single [1, 1] _ rfl).2 _ (.missing .start) rfl

end Node

end CucumberExpression
