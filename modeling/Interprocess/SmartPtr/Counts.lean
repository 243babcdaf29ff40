import Interprocess.SmartPtr.Operations
import Mathlib.Tactic.SplitIfs

namespace interprocess.smart_ptr

/-- The counters of a control block against the references there are: the owners
    have one weak reference together, and the disposal and the destruction
    happen once, when the respective count gets to zero. -/
structure Counts (created : Bool) (use weak disposed destroyed : Nat)
    (owners observers disposing destroying : Nat) : Prop where
  use_eq : use = owners
  weak_eq : weak = observers + if use = 0 then 0 else 1
  disposed_eq : disposed + disposing = if created = true ∧ use = 0 then 1 else 0
  destroyed_eq : destroyed + destroying = if created = true ∧ weak = 0 then 1 else 0
  uncreated : created = false → weak = 0

namespace Counts

variable {created : Bool} {use weak disposed destroyed owners observers disposing destroying : Nat}

theorem created_of_pos (h : Counts created use weak disposed destroyed owners observers disposing
    destroying) (hpos : 0 < weak) : created = true := by
  cases hcreated : created with
  | true => rfl
  | false =>
    have := h.uncreated hcreated
    omega

theorem weak_pos (h : Counts created use weak disposed destroyed owners observers disposing
    destroying) (hpos : 0 < owners + observers) : 0 < weak := by
  have huse := h.use_eq
  have hweak := h.weak_eq
  split_ifs at hweak <;> omega

theorem add_owner (h : Counts created use weak disposed destroyed owners observers disposing
    destroying) (hpos : 0 < owners) (hmax : use < uint32_max) :
    Counts created (atomic_inc32 use) weak disposed destroyed (owners + 1) observers disposing
      destroying := by
  have huse := h.use_eq
  have hweak := h.weak_eq
  have hdisposed := h.disposed_eq
  rw [if_neg (by omega)] at hweak
  rw [if_neg (by omega)] at hdisposed
  rw [atomic_inc32, if_neg (by omega)]
  refine ⟨by omega, ?_, ?_, h.destroyed_eq, h.uncreated⟩
  · rw [if_neg (by omega)]
    exact hweak
  · rw [if_neg (by omega)]
    exact hdisposed

theorem release (h : Counts created use weak disposed destroyed owners observers disposing
    destroying) (hmany : use ≠ 1) (hpos : 0 < owners) :
    Counts created (atomic_dec32 use) weak disposed destroyed (owners - 1) observers disposing
      destroying := by
  have huse := h.use_eq
  have hweak := h.weak_eq
  have hdisposed := h.disposed_eq
  rw [if_neg (by omega)] at hweak
  rw [if_neg (by omega)] at hdisposed
  rw [atomic_dec32, if_neg (by omega)]
  refine ⟨by omega, ?_, ?_, h.destroyed_eq, h.uncreated⟩
  · rw [if_neg (by omega)]
    exact hweak
  · rw [if_neg (by omega)]
    exact hdisposed

/-- The last owner takes over the weak reference of the owners and has to dispose. -/
theorem release_last (h : Counts created 1 weak disposed destroyed owners observers disposing
    destroying) :
    Counts created (atomic_dec32 1) weak disposed destroyed (owners - 1) (observers + 1)
      (disposing + 1) destroying := by
  have huse := h.use_eq
  have hweak := h.weak_eq
  have hdisposed := h.disposed_eq
  rw [if_neg (by omega)] at hweak
  rw [if_neg (by omega)] at hdisposed
  have hcreated := h.created_of_pos (by omega)
  have hzero : atomic_dec32 1 = 0 := rfl
  rw [hzero]
  refine ⟨by omega, ?_, ?_, h.destroyed_eq, h.uncreated⟩
  · rw [if_pos rfl]
    omega
  · rw [if_pos ⟨hcreated, rfl⟩]
    omega

theorem dispose (h : Counts created use weak disposed destroyed owners observers (disposing + 1)
    destroying) :
    Counts created use weak (disposed + 1) destroyed owners observers disposing destroying := by
  have hdisposed := h.disposed_eq
  exact ⟨h.use_eq, h.weak_eq, by omega, h.destroyed_eq, h.uncreated⟩

theorem add_observer (h : Counts created use weak disposed destroyed owners observers disposing
    destroying) (hpos : 0 < owners + observers) (hmax : weak < uint32_max) :
    Counts created use (atomic_inc32 weak) disposed destroyed owners (observers + 1) disposing
      destroying := by
  have hweak := h.weak_eq
  have hdestroyed := h.destroyed_eq
  have hwpos := h.weak_pos hpos
  have hcreated := h.created_of_pos hwpos
  rw [if_neg (by omega)] at hdestroyed
  rw [atomic_inc32, if_neg (by omega)]
  refine ⟨h.use_eq, by omega, h.disposed_eq, ?_, ?_⟩
  · rw [if_neg (by omega)]
    exact hdestroyed
  · intro hfalse
    rw [hcreated] at hfalse
    cases hfalse

theorem weak_release (h : Counts created use weak disposed destroyed owners observers disposing
    destroying) (hmany : weak ≠ 1) (hpos : 0 < observers) :
    Counts created use (atomic_dec32 weak) disposed destroyed owners (observers - 1) disposing
      destroying := by
  have hweak := h.weak_eq
  have hdestroyed := h.destroyed_eq
  have hwpos := h.weak_pos (by omega)
  have hcreated := h.created_of_pos hwpos
  rw [if_neg (by omega)] at hdestroyed
  rw [atomic_dec32, if_neg (by omega)]
  refine ⟨h.use_eq, by omega, h.disposed_eq, ?_, ?_⟩
  · rw [if_neg (by omega)]
    exact hdestroyed
  · intro hfalse
    rw [hcreated] at hfalse
    cases hfalse

/-- The last weak reference has to destroy the control block. -/
theorem weak_release_last (h : Counts created use 1 disposed destroyed owners observers disposing
    destroying) (hpos : 0 < observers) :
    Counts created use (atomic_dec32 1) disposed destroyed owners (observers - 1) disposing
      (destroying + 1) := by
  have hweak := h.weak_eq
  have hdestroyed := h.destroyed_eq
  have hcreated := h.created_of_pos (by omega)
  rw [if_neg (by omega)] at hdestroyed
  have hzero : atomic_dec32 1 = 0 := rfl
  rw [hzero]
  refine ⟨h.use_eq, by omega, h.disposed_eq, ?_, fun _ => rfl⟩
  rw [if_pos ⟨hcreated, rfl⟩]
  omega

theorem destroy (h : Counts created use weak disposed destroyed owners observers disposing
    (destroying + 1)) :
    Counts created use weak disposed (destroyed + 1) owners observers disposing destroying := by
  have hdestroyed := h.destroyed_eq
  exact ⟨h.use_eq, h.weak_eq, h.disposed_eq, by omega, h.uncreated⟩

end Counts

end interprocess.smart_ptr
