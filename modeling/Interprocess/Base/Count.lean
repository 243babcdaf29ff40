import Mathlib.Algebra.Order.BigOperators.Group.Finset
import Mathlib.Data.Fintype.Basic

namespace Count

variable {τ β : Type} [Fintype τ]

/-- The sum over the parties of a weight of the party and of what it holds. -/
def tally (weight : τ → β → Nat) (holds : τ → β) : Nat :=
  ∑ t, weight t (holds t)

/-- What one party holds adds its weight to a share that does not depend on it. -/
theorem exists_tally_update [DecidableEq τ] (weight : τ → β → Nat) (holds : τ → β) (t : τ) :
    ∃ others, ∀ b, tally weight (Function.update holds t b) = others + weight t b := by
  refine ⟨∑ u ∈ Finset.univ.erase t, weight u (holds u), ?_⟩
  intro b
  have hrest : ∑ u ∈ Finset.univ.erase t, weight u (Function.update holds t b u) =
      ∑ u ∈ Finset.univ.erase t, weight u (holds u) := by
    refine Finset.sum_congr rfl fun u hu => ?_
    rw [Function.update_of_ne (Finset.ne_of_mem_erase hu)]
  rw [tally, ← Finset.sum_erase_add _ _ (Finset.mem_univ t), hrest, Function.update_self]

/-- Replacing what one party holds exchanges its weight. -/
theorem tally_update [DecidableEq τ] (weight : τ → β → Nat) (holds : τ → β) (t : τ) (b : β) :
    tally weight (Function.update holds t b) + weight t (holds t) = tally weight holds + weight t b := by
  obtain ⟨others, hothers⟩ := exists_tally_update weight holds t
  have hbefore := hothers (holds t)
  rw [Function.update_eq_self] at hbefore
  rw [hothers b, hbefore]
  omega

theorem weight_le_tally (weight : τ → β → Nat) (holds : τ → β) (t : τ) :
    weight t (holds t) ≤ tally weight holds :=
  Finset.single_le_sum_of_canonicallyOrdered (f := fun u => weight u (holds u)) (Finset.mem_univ t)

/-- The sum of a weight over what every party holds. -/
def total (weight : β → Nat) (holds : τ → β) : Nat :=
  ∑ t, weight (holds t)

theorem exists_total_update [DecidableEq τ] (weight : β → Nat) (holds : τ → β) (t : τ) :
    ∃ others, ∀ b, total weight (Function.update holds t b) = others + weight b :=
  exists_tally_update (fun _ => weight) holds t

theorem total_update [DecidableEq τ] (weight : β → Nat) (holds : τ → β) (t : τ) (b : β) :
    total weight (Function.update holds t b) + weight (holds t) = total weight holds + weight b :=
  tally_update (fun _ => weight) holds t b

theorem weight_le_total (weight : β → Nat) (holds : τ → β) (t : τ) :
    weight (holds t) ≤ total weight holds :=
  weight_le_tally (fun _ => weight) holds t

theorem total_eq_zero_iff (weight : β → Nat) (holds : τ → β) :
    total weight holds = 0 ↔ ∀ t, weight (holds t) = 0 := by
  simp [total]

theorem total_add (weight weight' : β → Nat) (holds : τ → β) :
    total (fun b => weight b + weight' b) holds = total weight holds + total weight' holds :=
  Finset.sum_add_distrib

theorem total_le_total {weight weight' : β → Nat} (hle : ∀ b, weight b ≤ weight' b) (holds : τ → β) :
    total weight holds ≤ total weight' holds :=
  Finset.sum_le_sum fun t _ => hle (holds t)

theorem total_one (holds : τ → β) : total (fun _ => 1) holds = Fintype.card τ := by
  simp [total]

/-- The number of parties for which a property of what they hold is true. -/
def count (P : β → Bool) (holds : τ → β) : Nat :=
  total (fun b => (P b).toNat) holds

theorem count_update [DecidableEq τ] (P : β → Bool) (holds : τ → β) (t : τ) (b : β) :
    count P (Function.update holds t b) + (P (holds t)).toNat = count P holds + (P b).toNat :=
  total_update _ holds t b

theorem count_pos_iff (P : β → Bool) (holds : τ → β) : 0 < count P holds ↔ ∃ t, P (holds t) = true := by
  rw [Nat.pos_iff_ne_zero, ne_eq, count, total_eq_zero_iff]
  simp

/-- Two parties with a property that at most one has are the same. -/
theorem eq_of_count_le_one {P : β → Bool} {holds : τ → β} (hle : count P holds ≤ 1) {t u : τ}
    (ht : P (holds t) = true) (hu : P (holds u) = true) : t = u := by
  classical
  by_contra hne
  have hpair : (P (holds t)).toNat + (P (holds u)).toNat ≤ count P holds := by
    rw [← Finset.sum_pair (f := fun v => (P (holds v)).toNat) hne]
    exact Finset.sum_le_sum_of_subset (Finset.subset_univ _)
  rw [ht, hu, Bool.toNat_true] at hpair
  omega

theorem count_le_count {P Q : β → Bool} (himp : ∀ b, P b = true → Q b = true) (holds : τ → β) :
    count P holds ≤ count Q holds := by
  refine Finset.sum_le_sum fun t _ => ?_
  change (P (holds t)).toNat ≤ (Q (holds t)).toNat
  cases hP : P (holds t) with
  | false => exact Nat.zero_le _
  | true => rw [himp _ hP]

end Count
