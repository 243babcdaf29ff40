import Mathlib.Logic.Function.Basic
import Mathlib.Data.Fintype.Basic
import Mathlib.Tactic.SplitIfs

namespace Monitor

/-- Where a waiter stands between entering a condition wait and getting the
    mutex back: not notified, woken by a notification, woken without one, or
    past its time point. -/
inductive Phase where
  | asleep
  | notified
  | awake
  | expired
  deriving DecidableEq

/-- What a section under the mutex notifies. -/
inductive Notification (γ : Type) where
  | none
  | all (gate : γ)
  | one (gate : γ)
  deriving DecidableEq

variable {τ γ : Type} [DecidableEq γ]

/-- Waiting at a condition variable without a notification. -/
def asleep_at (waits : τ → Option γ) (phase : τ → Phase) (gate : γ) (t : τ) : Bool :=
  phase t = .asleep ∧ waits t = some gate

variable [DecidableEq τ] [Fintype τ]

/-- A `notify_all` wakes the sleepers of its condition variable. A `notify_one`
    wakes one of them, when there is one. -/
def notify (waits : τ → Option γ) (phase : τ → Phase) (woken : Option τ) :
    Notification γ → Option (τ → Phase)
  | .none => some phase
  | .all gate => some fun t => if asleep_at waits phase gate t then .notified else phase t
  | .one gate =>
    match woken with
    | some w => if asleep_at waits phase gate w then some (Function.update phase w .notified) else none
    | none => if ∀ w, asleep_at waits phase gate w = false then some phase else none

/-- Who still sleeps after a notification: none of those it is addressed to,
    when a `notify_one` is addressed to one at most. -/
theorem asleep_of_notify {waits : τ → Option γ} {phase phase' : τ → Phase} {woken : Option τ}
    {notification : Notification γ} (hnotify : notify waits phase woken notification = some phase')
    {t : τ} (hasleep : phase' t = .asleep) :
    phase t = .asleep ∧ (∀ gate, notification = .all gate → waits t ≠ some gate) ∧
      ∀ gate, notification = .one gate →
        (∀ u v, waits u = some gate → waits v = some gate → u = v) → waits t ≠ some gate := by
  cases notification with
  | none =>
    cases hnotify
    exact ⟨hasleep, by simp, by simp⟩
  | all gate =>
    cases hnotify
    simp only at hasleep
    split_ifs at hasleep with hat
    refine ⟨hasleep, ?_, by simp⟩
    intro gate' heq hwaits
    cases heq
    exact hat (decide_eq_true ⟨hasleep, hwaits⟩)
  | one gate =>
    cases woken with
    | none =>
      simp only [notify] at hnotify
      split_ifs at hnotify with hnobody
      cases hnotify
      refine ⟨hasleep, by simp, ?_⟩
      intro gate' heq _ hwaits
      cases heq
      exact of_decide_eq_false (hnobody t) ⟨hasleep, hwaits⟩
    | some w =>
      simp only [notify] at hnotify
      split_ifs at hnotify with hat
      cases hnotify
      have htw : t ≠ w := by
        rintro rfl
        rw [Function.update_self] at hasleep
        cases hasleep
      rw [Function.update_of_ne htw] at hasleep
      refine ⟨hasleep, by simp, ?_⟩
      intro gate' heq hunique hwaits
      cases heq
      exact htw (hunique t w hwaits (of_decide_eq_true hat).2)

end Monitor
