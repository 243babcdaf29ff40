import Mathlib.Algebra.Ring.Nat
import Mathlib.Order.Interval.Finset.Nat

/-- An address range. -/
structure Range where
  start : Nat
  size : Nat

namespace Range

def Apart (a b : Range) : Prop :=
  a.start + a.size ≤ b.start ∨ b.start + b.size ≤ a.start

/-- The range lies in `[lo, hi)`. -/
def Inside (lo hi : Nat) (a : Range) : Prop :=
  lo ≤ a.start ∧ a.start + a.size ≤ hi

instance (a b : Range) : Decidable (a.Apart b) :=
  instDecidableOr

instance (lo hi : Nat) (a : Range) : Decidable (a.Inside lo hi) :=
  instDecidableAnd

/-- Ranges at a fixed distance of at least their size do not overlap. -/
theorem pairwise_apart_stride {first stride size : Nat} (n : Nat) (hle : size ≤ stride) :
    ((List.range n).map fun i => Range.mk (first + i * stride) size).Pairwise Apart := by
  rw [List.pairwise_map]
  refine List.pairwise_lt_range.imp ?_
  intro i j hij
  have hmul : (i + 1) * stride ≤ j * stride := Nat.mul_le_mul_right _ hij
  rw [Nat.succ_mul] at hmul
  exact Or.inl (show first + i * stride + size ≤ first + j * stride by omega)

/-- The addresses of some ranges. -/
def cover (ranges : List Range) : Finset Nat :=
  ranges.foldr (fun a s => Finset.Ico a.start (a.start + a.size) ∪ s) ∅

theorem mem_cover {ranges : List Range} {x : Nat} :
    x ∈ cover ranges ↔ ∃ a ∈ ranges, a.start ≤ x ∧ x < a.start + a.size := by
  induction ranges with
  | nil => simp [cover]
  | cons a ranges ih =>
    have hcons : cover (a :: ranges) = Finset.Ico a.start (a.start + a.size) ∪ cover ranges := rfl
    rw [hcons, Finset.mem_union, Finset.mem_Ico, ih]
    simp

theorem Apart.disjoint {a : Range} {ranges : List Range} (hapart : ∀ b ∈ ranges, a.Apart b) :
    Disjoint (Finset.Ico a.start (a.start + a.size)) (cover ranges) := by
  rw [Finset.disjoint_left]
  intro x hx hcover
  obtain ⟨b, hb, hlow, hhigh⟩ := mem_cover.mp hcover
  rw [Finset.mem_Ico] at hx
  have hsides : a.start + a.size ≤ b.start ∨ b.start + b.size ≤ a.start := hapart b hb
  omega

theorem card_cover {ranges : List Range} (hapart : ranges.Pairwise Apart) :
    (cover ranges).card = (ranges.map size).sum := by
  induction ranges with
  | nil => rfl
  | cons a ranges ih =>
    obtain ⟨hfirst, hrest⟩ := List.pairwise_cons.mp hapart
    have hcons : cover (a :: ranges) = Finset.Ico a.start (a.start + a.size) ∪ cover ranges := rfl
    rw [hcons, Finset.card_union_of_disjoint (Apart.disjoint hfirst), ih hrest, Nat.card_Ico,
      List.map_cons, List.sum_cons, Nat.add_sub_cancel_left]

/-- Ranges that do not overlap take no more room than there is. -/
theorem sum_size_le {ranges : List Range} {lo hi : Nat} (hapart : ranges.Pairwise Apart)
    (hinside : ∀ a ∈ ranges, a.Inside lo hi) : (ranges.map size).sum ≤ hi - lo := by
  have hsubset : cover ranges ⊆ Finset.Ico lo hi := by
    intro x hx
    obtain ⟨a, ha, hlow, hhigh⟩ := mem_cover.mp hx
    obtain ⟨hlo, hhi⟩ := hinside a ha
    rw [Finset.mem_Ico]
    omega
  have hcard := Finset.card_le_card hsubset
  rwa [card_cover hapart, Nat.card_Ico] at hcard

end Range
