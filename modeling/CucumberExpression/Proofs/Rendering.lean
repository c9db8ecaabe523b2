import CucumberExpression.Proofs.ReaderSteps

namespace CucumberExpression.Json

/-! # Values as JSON text

The values that both dialects have forms for are read back by either from what either writes, with
or without indentation. A reader that finds its way through the parts of a list or of a record finds
its way through the whole, so the proof follows the value. -/

/-- Values that both dialects have a form for. -/
inductive Portable : Json → Prop where
  | null : Portable .null
  | boolean (value : Bool) : Portable (.boolean value)
  | integer {value : Int} (fits : inMachineRange value = true) : Portable (.integer value)
  | text (cs : List Char) : Portable (.text (Text.ofChars cs))
  | list {items : List Json} (each : ∀ item ∈ items, Portable item) : Portable (.list items)
  | record {members : List (Text × Json)} (distinct : (members.map Prod.fst).Nodup)
      (plain : ∀ member ∈ members, ∃ cs, member.1 = Text.ofChars cs)
      (each : ∀ member ∈ members, Portable member.2) : Portable (.record members)

variable {reader writer : Dialect} {fuel room depth : Nat} {layout : Layout} {rest : Text}

/-! ## Layouts -/

/-- Whether only gaps are around the marks of a layout. -/
structure Layout.Regular (layout : Layout) : Prop where
  comma : ∃ gap, layout.comma = ',' :: gap ∧ ∀ c ∈ gap, isGap (.char c) = true
  colon : ∃ gap, layout.colon = ':' :: gap ∧ ∀ c ∈ gap, isGap (.char c) = true

theorem Dialect.layout_regular (dialect : Dialect) (indented : Bool) :
    (dialect.layout indented).Regular := by
  cases dialect <;> cases indented <;>
    exact ⟨⟨_, rfl, by simp [isGap]⟩, ⟨_, rfl, by simp [isGap]⟩⟩

theorem Layout.newLine_blank (layout : Layout) (depth : Nat) :
    ∀ c ∈ layout.newLine depth, isGap (.char c) = true := by
  intro c member
  unfold Layout.newLine at member
  split at member
  · rcases List.mem_cons.mp member with rfl | member
    · rfl
    · rw [List.eq_of_mem_replicate member]
      rfl
  · cases member

theorem numberEnds_mark {mark : Char} (member : mark ∈ [',', ']', '\x7d', '\n']) (rest : Text) :
    NumberEnds (.char mark :: rest) := by
  simp only [List.mem_cons, List.not_mem_nil, or_false] at member
  rintro point ⟨⟩
  rcases member with rfl | rfl | rfl | rfl <;> simp [asciiDigit?]

theorem Layout.numberEnds_newLine (layout : Layout) (depth : Nat) (ends : NumberEnds rest) :
    NumberEnds (Text.ofChars (layout.newLine depth) ++ rest) := by
  unfold Layout.newLine
  split
  · exact numberEnds_mark (by simp) _
  · exact ends

/-! ## Written values -/

/-- Whether a value is read from what is written for it, whatever follows. Each reader that calls
another has taken a character before, so the length of what is written bounds the calls. -/
def ReadsBack (writer reader : Dialect) (layout : Layout) (value : Json) : Prop :=
  ∀ depth fuel room rest, (writeValue writer layout depth value).length ≤ fuel →
    value.depth ≤ room → NumberEnds rest →
    readValue reader fuel room (Text.ofChars (writeValue writer layout depth value) ++ rest) =
      .ok (value, rest)

theorem writeItems_cons_cons (item second : Json) (others : List Json) :
    writeItems writer layout depth (item :: second :: others) =
      writeValue writer layout depth item ++ layout.comma ++ layout.newLine depth ++
        writeItems writer layout depth (second :: others) :=
  rfl

theorem readItems_writeItems (regular : layout.Regular) {items : List Json} (some : items ≠ [])
    (each : ∀ item ∈ items, ReadsBack writer reader layout item) {after : Text}
    (closed : skipGap rest = .char ']' :: after) (ends : NumberEnds rest)
    (enough : (writeItems writer layout depth items).length < fuel)
    (shallow : depthOfItems items ≤ room) :
    readItems reader fuel room (Text.ofChars (writeItems writer layout depth items) ++ rest) =
      .ok (items, after) := by
  induction items generalizing fuel with
  | nil => exact absurd rfl some
  | cons item others ih =>
      obtain ⟨fuel, rfl⟩ := Nat.exists_eq_add_one_of_ne_zero (Nat.ne_zero_of_lt enough)
      have first := each item List.mem_cons_self depth fuel room
      rw [depthOfItems] at shallow
      cases others with
      | nil =>
          rw [writeItems] at enough ⊢
          exact readItems_last (first rest (by omega) (by omega) ends) closed
      | cons second others =>
          obtain ⟨gap, comma, blank⟩ := regular.comma
          rw [writeItems_cons_cons, comma] at enough ⊢
          simp only [List.length_append, List.length_cons] at enough
          simp only [Text.ofChars_append, Text.ofChars_cons, List.append_assoc, List.cons_append]
          -- The reader takes the comma itself; the gap and the new line are in front of the others.
          refine readItems_cons (first _ (by omega) (by omega) (numberEnds_mark (by simp) _)) rfl ?_
          rw [readItems_congr (skipGap_append blank _),
            readItems_congr (skipGap_append (layout.newLine_blank depth) _)]
          apply ih (List.cons_ne_nil second others) _ (by omega) (by omega)
          exact fun item member => each item (List.mem_cons_of_mem _ member)

theorem readsBack_list (regular : layout.Regular) {items : List Json}
    (each : ∀ item ∈ items, ReadsBack writer reader layout item) :
    ReadsBack writer reader layout (.list items) := by
  intro depth fuel room rest enough shallow ends
  rw [Json.depth] at shallow
  obtain ⟨room, rfl⟩ := Nat.exists_eq_add_one_of_ne_zero (Nat.ne_zero_of_lt shallow)
  cases items with
  | nil =>
      rw [writeValue] at enough ⊢
      obtain ⟨fuel, rfl⟩ := Nat.exists_eq_add_one_of_ne_zero (Nat.ne_zero_of_lt enough)
      rfl
  | cons item others =>
      rw [writeValue] at enough ⊢
      obtain ⟨fuel, rfl⟩ := Nat.exists_eq_add_one_of_ne_zero (Nat.ne_zero_of_lt enough)
      simp only [List.length_append, List.length_cons] at enough
      simp only [Text.ofChars_append, Text.ofChars_cons, Text.ofChars_nil, List.append_assoc,
        List.cons_append, List.nil_append]
      apply readValue_list
      rw [readItems_congr (skipGap_append (layout.newLine_blank (depth + 1)) _)]
      apply readItems_writeItems regular (List.cons_ne_nil item others) each _
        (layout.numberEnds_newLine depth (numberEnds_mark (by simp) rest)) (by omega)
        (Nat.le_of_succ_le_succ shallow)
      exact skipGap_append (layout.newLine_blank depth) _

theorem writeMembers_cons_cons (member second : Text × Json) (others : List (Text × Json)) :
    writeMembers writer layout depth (member :: second :: others) =
      quotedText writer member.1 ++ layout.colon ++ writeValue writer layout depth member.2 ++
        layout.comma ++ layout.newLine depth ++
        writeMembers writer layout depth (second :: others) :=
  rfl

theorem readsMember_written (regular : layout.Regular) {key : Text} {cs : List Char}
    (plain : key = Text.ofChars cs) {value : Json} (reads : ReadsBack writer reader layout value)
    (enough : (writeValue writer layout depth value).length ≤ fuel) (shallow : value.depth ≤ room)
    (ends : NumberEnds rest) :
    ReadsMember reader fuel room
      (Text.ofChars (quotedText writer key) ++ (Text.ofChars layout.colon ++
        (Text.ofChars (writeValue writer layout depth value) ++ rest))) (key, value) rest := by
  subst plain
  obtain ⟨gap, colon, blank⟩ := regular.colon
  have read : readValue reader fuel room (Text.ofChars gap ++
      (Text.ofChars (writeValue writer layout depth value) ++ rest)) = .ok (value, rest) := by
    rw [← reads depth fuel room rest enough shallow ends]
    exact readValue_congr (skipGap_append blank _)
  rw [ofChars_quotedText, colon]
  exact ⟨_, _, _, skipGap_mark _, readQuoted_flatMap writer reader cs _, rfl, read⟩

theorem readMembers_writeMembers (regular : layout.Regular) {members : List (Text × Json)}
    (some : members ≠ []) (plain : ∀ member ∈ members, ∃ cs, member.1 = Text.ofChars cs)
    (each : ∀ member ∈ members, ReadsBack writer reader layout member.2) {after : Text}
    (closed : skipGap rest = .char '\x7d' :: after) (ends : NumberEnds rest)
    (enough : (writeMembers writer layout depth members).length < fuel)
    (shallow : depthOfMembers members ≤ room) :
    readMembers reader fuel room
        (Text.ofChars (writeMembers writer layout depth members) ++ rest) =
      .ok (members, after) := by
  induction members generalizing fuel with
  | nil => exact absurd rfl some
  | cons member others ih =>
      obtain ⟨fuel, rfl⟩ := Nat.exists_eq_add_one_of_ne_zero (Nat.ne_zero_of_lt enough)
      obtain ⟨cs, name⟩ := plain member List.mem_cons_self
      have reads := each member List.mem_cons_self
      rw [depthOfMembers] at shallow
      cases others with
      | nil =>
          rw [writeMembers] at enough ⊢
          simp only [List.length_append] at enough
          simp only [Text.ofChars_append, List.append_assoc]
          apply readMembers_last ?_ closed
          exact readsMember_written regular name reads (by omega) (by omega) ends
      | cons second others =>
          obtain ⟨gap, comma, blank⟩ := regular.comma
          rw [writeMembers_cons_cons, comma] at enough ⊢
          simp only [List.length_append, List.length_cons] at enough
          simp only [Text.ofChars_append, Text.ofChars_cons, List.append_assoc, List.cons_append]
          refine readMembers_cons (readsMember_written regular name reads (by omega) (by omega)
            (numberEnds_mark (by simp) _)) rfl ?_
          rw [readMembers_congr (skipGap_append blank _),
            readMembers_congr (skipGap_append (layout.newLine_blank depth) _)]
          apply ih (List.cons_ne_nil second others) _ _ (by omega) (by omega)
          · exact fun member inside => plain member (List.mem_cons_of_mem _ inside)
          · exact fun member inside => each member (List.mem_cons_of_mem _ inside)

theorem readsBack_record (regular : layout.Regular) {members : List (Text × Json)}
    (distinct : (members.map Prod.fst).Nodup)
    (plain : ∀ member ∈ members, ∃ cs, member.1 = Text.ofChars cs)
    (each : ∀ member ∈ members, ReadsBack writer reader layout member.2) :
    ReadsBack writer reader layout (.record members) := by
  intro depth fuel room rest enough shallow ends
  rw [Json.depth] at shallow
  obtain ⟨room, rfl⟩ := Nat.exists_eq_add_one_of_ne_zero (Nat.ne_zero_of_lt shallow)
  cases members with
  | nil =>
      rw [writeValue] at enough ⊢
      obtain ⟨fuel, rfl⟩ := Nat.exists_eq_add_one_of_ne_zero (Nat.ne_zero_of_lt enough)
      rfl
  | cons member others =>
      rw [writeValue] at enough ⊢
      obtain ⟨fuel, rfl⟩ := Nat.exists_eq_add_one_of_ne_zero (Nat.ne_zero_of_lt enough)
      simp only [List.length_append, List.length_cons] at enough
      simp only [Text.ofChars_append, Text.ofChars_cons, Text.ofChars_nil, List.append_assoc,
        List.cons_append, List.nil_append]
      apply readValue_record _ distinct
      rw [readMembers_congr (skipGap_append (layout.newLine_blank (depth + 1)) _)]
      apply readMembers_writeMembers regular (List.cons_ne_nil member others) plain each _
        (layout.numberEnds_newLine depth (numberEnds_mark (by simp) rest)) (by omega)
        (Nat.le_of_succ_le_succ shallow)
      exact skipGap_append (layout.newLine_blank depth) _

theorem readsBack_scalar {value : Json} {written : List Char} (some : written ≠ [])
    (same : ∀ depth, writeValue writer layout depth value = written)
    (read : ∀ fuel room rest, NumberEnds rest →
      readValue reader (fuel + 1) room (Text.ofChars written ++ rest) = .ok (value, rest)) :
    ReadsBack writer reader layout value := by
  intro depth fuel room rest enough shallow ends
  rw [same] at enough ⊢
  have positive := List.length_pos_iff.mpr some
  obtain ⟨fuel, rfl⟩ := Nat.exists_eq_add_one_of_ne_zero (show fuel ≠ 0 by omega)
  exact read fuel room rest ends

/-- What either dialect writes of a value that both have a form for, either reads back. -/
theorem readsBack_of_portable (writer reader : Dialect) (regular : layout.Regular) {value : Json}
    (portable : Portable value) : ReadsBack writer reader layout value := by
  induction portable with
  | null =>
      exact readsBack_scalar (by simp) (fun _ => rfl) fun _ _ rest _ =>
        readValue_named "null" .null (by simp [Dialect.named]) rest
  | boolean value =>
      cases value with
      | true =>
          exact readsBack_scalar (by simp) (fun _ => rfl) fun _ _ rest _ =>
            readValue_named "true" (.boolean true) (by simp [Dialect.named]) rest
      | false =>
          exact readsBack_scalar (by simp) (fun _ => rfl) fun _ _ rest _ =>
            readValue_named "false" (.boolean false) (by simp [Dialect.named]) rest
  | @integer value fits =>
      have some : writeInteger value ≠ [] := by
        obtain ⟨c, others, -, same | same⟩ := writeInteger_cases value <;> simp [same]
      exact readsBack_scalar some (fun _ => rfl) fun _ _ _ ends => readValue_writeInteger fits ends
  | text cs =>
      exact readsBack_scalar (by simp) (fun _ => rfl) fun _ _ rest _ =>
        readValue_quotedText cs rest
  | list each ih => exact readsBack_list regular ih
  | record distinct plain each ih => exact readsBack_record regular distinct plain ih

/-- A value that both dialects have a form for comes back from its text. -/
theorem ofText_writeValue (writer : Dialect) {value : Json} (portable : Portable value)
    (shallow : value.depth ≤ reader.readingDepth) (indented : Bool) :
    ofText reader (Text.ofChars (writeValue writer (writer.layout indented) 0 value)) =
      .ok value := by
  let written := writeValue writer (writer.layout indented) 0 value
  have enough : written.length ≤ 2 * (Text.ofChars written).length + 2 := by
    rw [Text.ofChars, List.length_map]
    omega
  have ends : NumberEnds [] := by simp [NumberEnds]
  have read := readsBack_of_portable writer reader (writer.layout_regular indented) portable
    0 _ _ [] enough shallow ends
  rw [List.append_nil] at read
  simp only [ofText, written, read, bind, Except.bind]
  rfl

/-! ## What the strict dialect writes -/

theorem depth_le_depthOfItems {item : Json} {items : List Json} (member : item ∈ items) :
    item.depth ≤ depthOfItems items := by
  induction items with
  | nil => cases member
  | cons first others ih =>
      rw [depthOfItems]
      rcases List.mem_cons.mp member with rfl | member
      · exact Nat.le_max_left ..
      · exact Nat.le_trans (ih member) (Nat.le_max_right ..)

theorem depth_le_depthOfMembers {member : Text × Json} {members : List (Text × Json)}
    (inside : member ∈ members) : member.2.depth ≤ depthOfMembers members := by
  induction members with
  | nil => cases inside
  | cons first others ih =>
      rw [depthOfMembers]
      rcases List.mem_cons.mp inside with rfl | inside
      · exact Nat.le_max_left ..
      · exact Nat.le_trans (ih inside) (Nat.le_max_right ..)

theorem textObstacle?_ofChars (cs : List Char) : textObstacle? (Text.ofChars cs) = none := by
  rw [textObstacle?, Text.chars?_ofChars]
  rfl

theorem obstacle?_list (room : Nat) (items : List Json) :
    obstacle? (room + 1) (.list items) = obstacleInItems? room items := by
  rw [obstacle?, if_neg (Nat.succ_ne_zero room), Nat.add_sub_cancel]

theorem obstacle?_record (room : Nat) (members : List (Text × Json)) :
    obstacle? (room + 1) (.record members) = obstacleInMembers? room members := by
  rw [obstacle?, if_neg (Nat.succ_ne_zero room), Nat.add_sub_cancel]

theorem obstacleInItems?_eq_none {items : List Json}
    (each : ∀ item ∈ items, item.obstacle? room = none) : obstacleInItems? room items = none := by
  induction items with
  | nil => rfl
  | cons item others ih =>
      rw [obstacleInItems?, each item List.mem_cons_self,
        ih fun item member => each item (List.mem_cons_of_mem _ member)]
      rfl

theorem obstacleInItems?_eq_some {items : List Json} {reason : WriteError}
    (each : ∀ item ∈ items, item.obstacle? room ∈ [none, some reason])
    (refused : ∃ item ∈ items, item.obstacle? room = some reason) :
    obstacleInItems? room items = some reason := by
  induction items with
  | nil =>
      obtain ⟨item, member, -⟩ := refused
      cases member
  | cons first others ih =>
      have front := each first List.mem_cons_self
      rw [List.mem_cons, List.mem_singleton] at front
      rw [obstacleInItems?]
      rcases front with passed | stopped
      · rw [passed, Option.none_or]
        apply ih fun item member => each item (List.mem_cons_of_mem _ member)
        obtain ⟨item, member, found⟩ := refused
        rcases List.mem_cons.mp member with rfl | member
        · rw [passed] at found
          cases found
        · exact ⟨item, member, found⟩
      · rw [stopped, Option.some_or]

theorem obstacleInMembers?_eq_none {members : List (Text × Json)}
    (plain : ∀ member ∈ members, textObstacle? member.1 = none)
    (each : ∀ member ∈ members, member.2.obstacle? room = none) :
    obstacleInMembers? room members = none := by
  induction members with
  | nil => rfl
  | cons member others ih =>
      rw [obstacleInMembers?, plain member List.mem_cons_self, each member List.mem_cons_self,
        ih (fun member inside => plain member (List.mem_cons_of_mem _ inside))
          fun member inside => each member (List.mem_cons_of_mem _ inside)]
      rfl

theorem obstacle?_of_portable {value : Json} (portable : Portable value)
    (shallow : value.depth ≤ room) : value.obstacle? room = none := by
  induction portable generalizing room with
  | null | boolean => rfl
  | integer fits => rw [obstacle?, if_pos fits]
  | text cs => exact textObstacle?_ofChars cs
  | @list items each ih =>
      rw [Json.depth] at shallow
      obtain ⟨room, rfl⟩ := Nat.exists_eq_add_one_of_ne_zero (Nat.ne_zero_of_lt shallow)
      rw [obstacle?_list]
      apply obstacleInItems?_eq_none
      intro item member
      exact ih item member
        (Nat.le_trans (depth_le_depthOfItems member) (Nat.le_of_succ_le_succ shallow))
  | @record members distinct plain each ih =>
      rw [Json.depth] at shallow
      obtain ⟨room, rfl⟩ := Nat.exists_eq_add_one_of_ne_zero (Nat.ne_zero_of_lt shallow)
      rw [obstacle?_record]
      apply obstacleInMembers?_eq_none
      · intro member inside
        obtain ⟨cs, name⟩ := plain member inside
        rw [name, textObstacle?_ofChars]
      · intro member inside
        exact ih member inside
          (Nat.le_trans (depth_le_depthOfMembers inside) (Nat.le_of_succ_le_succ shallow))

theorem toText_of_portable {value : Json} (portable : Portable value)
    (shallow : writer = .strict → value.depth ≤ writingDepth) (indented : Bool) :
    value.toText writer indented =
      .ok (String.ofList (writeValue writer (writer.layout indented) 0 value)) := by
  cases writer with
  | strict => simp only [toText, obstacle?_of_portable portable (shallow rfl)]
  | lenient => rfl

theorem eq_of_toText {value : Json} {indented : Bool} {text : String}
    (written : value.toText writer indented = .ok text) :
    text = String.ofList (writeValue writer (writer.layout indented) 0 value) := by
  simp only [toText] at written
  split at written
  · cases written
  · exact (Except.ok.inj written).symm

/-- A record begins with two characters of ASCII. -/
theorem writeValue_record (writer : Dialect) (layout : Layout) (depth : Nat)
    {members : List (Text × Json)} (some : members ≠ []) :
    ∃ second ∈ ['"', '\n'], ∃ others,
      writeValue writer layout depth (.record members) = '\x7b' :: second :: others := by
  cases members with
  | nil => exact absurd rfl some
  | cons member rest =>
      rw [writeValue]
      unfold Layout.newLine
      split
      · exact ⟨'\n', by simp, _, rfl⟩
      · cases rest <;> exact ⟨'"', by simp, _, rfl⟩

end CucumberExpression.Json
