import CucumberExpression.Proofs.Tiling
import Mathlib.Data.List.Chain

namespace CucumberExpression

/-! # Spacing

Items with a span are spaced out over a range of offsets when each of them goes forward, each starts
where the one before it stops or later, and all lie inside the range. Unlike in a tiling, offsets may
be left over between them. -/

variable {α β : Type}

def Spaced (start stop : α → Int) : Int → List α → Int → Prop
  | low, [], high => low ≤ high
  | low, item :: rest, high =>
      low ≤ start item ∧ start item ≤ stop item ∧ Spaced start stop (stop item) rest high

namespace Spaced

variable {start stop : α → Int} {low middle high : Int} {item : α} {items left right : List α}

theorem low_le_high (spaced : Spaced start stop low items high) : low ≤ high := by
  induction items generalizing low with
  | nil => exact spaced
  | cons item rest ih =>
      obtain ⟨before, own, tail⟩ := spaced
      exact Int.le_trans before (Int.le_trans own (ih tail))

theorem append_iff :
    Spaced start stop low (left ++ right) high ↔
      ∃ middle, Spaced start stop low left middle ∧ Spaced start stop middle right high := by
  induction left generalizing low with
  | nil =>
      constructor
      · exact fun spaced => ⟨low, Int.le_refl low, spaced⟩
      · rintro ⟨middle, before, spaced⟩
        cases right with
        | nil => exact Int.le_trans before spaced
        | cons item rest => exact ⟨Int.le_trans before spaced.1, spaced.2⟩
  | cons item rest ih => simp [Spaced, ih, and_assoc]

theorem append (first : Spaced start stop low left middle)
    (second : Spaced start stop middle right high) : Spaced start stop low (left ++ right) high :=
  append_iff.mpr ⟨middle, first, second⟩

theorem widen_left {lower : Int} (spaced : Spaced start stop low items high) (below : lower ≤ low) :
    Spaced start stop lower items high := by
  have nothing : Spaced start stop lower [] low := below
  exact nothing.append spaced

theorem widen_right {higher : Int} (spaced : Spaced start stop low items high)
    (above : high ≤ higher) : Spaced start stop low items higher := by
  have nothing : Spaced start stop high [] higher := above
  have whole := spaced.append nothing
  rw [List.append_nil] at whole
  exact whole

theorem singleton (forward : start item ≤ stop item) :
    Spaced start stop (start item) [item] (stop item) :=
  ⟨Int.le_refl _, forward, Int.le_refl _⟩

theorem inside (spaced : Spaced start stop low items high) (member : item ∈ items) :
    low ≤ start item ∧ start item ≤ stop item ∧ stop item ≤ high := by
  obtain ⟨before, after, rfl⟩ := List.append_of_mem member
  obtain ⟨middle, front, below, own, back⟩ := append_iff.mp spaced
  exact ⟨Int.le_trans front.low_le_high below, own, back.low_le_high⟩

theorem pairwise (spaced : Spaced start stop low items high) :
    items.Pairwise fun first second => stop first ≤ start second := by
  induction items generalizing low with
  | nil => exact .nil
  | cons item rest ih =>
      obtain ⟨-, -, tail⟩ := spaced
      exact .cons (fun other member => (tail.inside member).1) (ih tail)

/-- The first and the last item bound the others. -/
theorem tight {first : α} {rest : List α} (spaced : Spaced start stop low (first :: rest) high) :
    Spaced start stop (start first) (first :: rest) (stop (rest.getLastD first)) := by
  induction rest generalizing low first with
  | nil => exact singleton spaced.2.1
  | cons second rest ih =>
      obtain ⟨-, own, tail⟩ := spaced
      rw [List.getLastD_cons]
      exact ⟨Int.le_refl _, own, (ih tail).widen_left tail.1⟩

/-- Items that go forward, neighbour by neighbour, are spaced out. -/
theorem of_isChain {first : α} {rest : List α}
    (forward : ∀ item ∈ first :: rest, start item ≤ stop item)
    (chained : (first :: rest).IsChain fun left right => stop left ≤ start right) :
    Spaced start stop (start first) (first :: rest) (stop (rest.getLastD first)) := by
  induction rest generalizing first with
  | nil => exact singleton (forward first (by simp))
  | cons second rest ih =>
      obtain ⟨own, others⟩ := List.forall_mem_cons.mp forward
      obtain ⟨meets, tail⟩ := List.isChain_cons_cons.mp chained
      rw [List.getLastD_cons]
      exact ⟨Int.le_refl _, own, (ih others tail).widen_left meets⟩

theorem of_tiled (forward : ∀ item ∈ items, start item ≤ stop item)
    (tiled : Tiled start stop low items high) : Spaced start stop low items high := by
  induction items generalizing low with
  | nil => exact Int.le_of_eq tiled
  | cons item rest ih =>
      obtain ⟨own, others⟩ := List.forall_mem_cons.mp forward
      obtain ⟨rfl, tail⟩ := tiled
      exact ⟨Int.le_refl _, own, ih others tail⟩

theorem map_iff {place : β → α} {sources : List β} :
    Spaced start stop low (sources.map place) high ↔
      Spaced (start ∘ place) (stop ∘ place) low sources high := by
  induction sources generalizing low with
  | nil => rfl
  | cons item rest ih => simp [Spaced, ih]

end Spaced

end CucumberExpression
