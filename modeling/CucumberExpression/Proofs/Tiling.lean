namespace CucumberExpression

/-! # Tilings

Items with a span tile a range of offsets when the first starts where the range does, each next one
starts where the one before stops, and the last stops where the range does. -/

variable {α β ω : Type}

def Tiled (start stop : α → ω) : ω → List α → ω → Prop
  | low, [], high => low = high
  | low, item :: rest, high => start item = low ∧ Tiled start stop (stop item) rest high

instance Tiled.decidable [DecidableEq ω] (start stop : α → ω) :
    (low : ω) → (items : List α) → (high : ω) → Decidable (Tiled start stop low items high)
  | low, [], high => inferInstanceAs (Decidable (low = high))
  | low, item :: rest, high =>
      have := Tiled.decidable start stop (stop item) rest high
      inferInstanceAs (Decidable (start item = low ∧ Tiled start stop (stop item) rest high))

namespace Tiled

variable {start stop : α → ω} {low middle high : ω} {items left right : List α}

theorem append_iff :
    Tiled start stop low (left ++ right) high ↔
      ∃ middle, Tiled start stop low left middle ∧ Tiled start stop middle right high := by
  induction left generalizing low with
  | nil => simp [Tiled]
  | cons item rest ih => simp [Tiled, ih, and_assoc]

theorem append (first : Tiled start stop low left middle)
    (second : Tiled start stop middle right high) :
    Tiled start stop low (left ++ right) high :=
  append_iff.mpr ⟨middle, first, second⟩

/-- Where a tiling stops is settled by where it starts. -/
theorem high_unique {high' : ω} (tiled : Tiled start stop low items high)
    (tiled' : Tiled start stop low items high') : high = high' := by
  induction items generalizing low with
  | nil => exact tiled.symm.trans tiled'
  | cons item rest ih => exact ih tiled.2 tiled'.2

theorem map_iff {place : β → α} {sources : List β} :
    Tiled start stop low (sources.map place) high ↔
      Tiled (start ∘ place) (stop ∘ place) low sources high := by
  induction sources generalizing low with
  | nil => rfl
  | cons item rest ih => simp [Tiled, ih]

theorem head_start {first : α} {rest : List α} (tiled : Tiled start stop low (first :: rest) high) :
    start first = low :=
  tiled.1

theorem last_stop {first : α} {rest : List α} (tiled : Tiled start stop low (first :: rest) high) :
    stop (rest.getLastD first) = high := by
  induction rest generalizing low first with
  | nil => exact tiled.2
  | cons second rest ih =>
      rw [List.getLastD_cons]
      exact ih tiled.2

section

variable {start stop : α → Int} {low high : Int}

theorem low_le_high (ordered : ∀ item ∈ items, start item ≤ stop item)
    (tiled : Tiled start stop low items high) : low ≤ high := by
  induction items generalizing low with
  | nil => exact Int.le_of_eq tiled
  | cons item rest ih =>
      obtain ⟨own, others⟩ := List.forall_mem_cons.mp ordered
      obtain ⟨rfl, tail⟩ := tiled
      exact Int.le_trans own (ih others tail)

/-- Every offset in a range lies in exactly one of the items that tile it. -/
theorem countP_covers (ordered : ∀ item ∈ items, start item ≤ stop item)
    (tiled : Tiled start stop low items high) (offset : Int) :
    items.countP (fun item => start item ≤ offset ∧ offset < stop item) =
      if low ≤ offset ∧ offset < high then 1 else 0 := by
  induction items generalizing low with
  | nil =>
      obtain rfl : low = high := tiled
      have outside : ¬ (low ≤ offset ∧ offset < low) := by omega
      rw [if_neg outside, List.countP_nil]
  | cons item rest ih =>
      obtain ⟨own, others⟩ := List.forall_mem_cons.mp ordered
      obtain ⟨rfl, tail⟩ := tiled
      have further := low_le_high others tail
      rw [List.countP_cons, ih others tail]
      simp only [decide_eq_true_eq]
      split <;> split <;> split <;> omega

end

variable {parts : α → List β} {start' stop' : β → ω}

/-- Items that are tiled by parts, at least one each, tile what their parts tile. -/
theorem of_flatMap (each : ∀ item ∈ items, parts item ≠ [] ∧
      Tiled start' stop' (start item) (parts item) (stop item))
    (tiled : Tiled start' stop' low (items.flatMap parts) high) :
    Tiled start stop low items high := by
  induction items generalizing low with
  | nil => exact tiled
  | cons item rest ih =>
      rw [List.flatMap_cons] at tiled
      obtain ⟨middle, front, back⟩ := append_iff.mp tiled
      obtain ⟨nonempty, own⟩ := each item (by simp)
      obtain ⟨part, others, split⟩ := List.exists_cons_of_ne_nil nonempty
      rw [split] at front own
      obtain rfl : start item = low := own.1.symm.trans front.1
      obtain rfl : stop item = middle := high_unique own front
      exact ⟨rfl, ih (fun other member => each other (by simp [member])) back⟩

end Tiled

end CucumberExpression
