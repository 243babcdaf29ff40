import Mathlib.Data.Fintype.Basic
import Mathlib.Tactic.SplitIfs

namespace Transition

/-- The states reached from `start` by guarded steps, each taken in a state
    where its label is allowed. A disabled label has no successor. -/
inductive Reaches {σ α : Type} (step : σ → α → Option σ) (allowed : σ → α → Prop)
    (start : σ) : σ → Prop where
  | refl : Reaches step allowed start start
  | tail {s t : σ} {a : α} (hrun : Reaches step allowed start s) (hallowed : allowed s a)
      (hstep : step s a = some t) : Reaches step allowed start t

/-- Every state reached through guarded steps, with no restriction on the labels. -/
abbrev Reachable {σ α : Type} (step : σ → α → Option σ) (start : σ) : σ → Prop :=
  Reaches step (fun _ _ => True) start

/-- A property of the start that every allowed step keeps holds in every state
    of every run whose steps are all allowed. -/
theorem Reaches.invariant {σ α : Type} {step : σ → α → Option σ} {allowed : σ → α → Prop}
    {start s : σ} {P : σ → Prop} (hrun : Reaches step allowed start s) (hstart : P start)
    (hkeep : ∀ s a t, P s → allowed s a → step s a = some t → P t) : P s := by
  induction hrun with
  | refl => exact hstart
  | tail _ hallowed hstep ih => exact hkeep _ _ _ ih hallowed hstep

/-- Runs compose. -/
theorem Reaches.trans {σ α : Type} {step : σ → α → Option σ} {allowed : σ → α → Prop}
    {start middle s : σ} (hfirst : Reaches step allowed start middle)
    (hsecond : Reaches step allowed middle s) : Reaches step allowed start s := by
  induction hsecond with
  | refl => exact hfirst
  | tail _ hallowed hstep ih => exact .tail ih hallowed hstep

/-- Replays a schedule of labels, stopping at the first disabled or disallowed one. -/
def replay {σ α : Type} (step : σ → α → Option σ) (allowed : σ → α → Prop)
    [∀ s a, Decidable (allowed s a)] (start : σ) (schedule : List α) : Option σ :=
  schedule.foldlM (fun s a => if allowed s a then step s a else none) start

/-- A successful replay is a run. -/
theorem reaches_of_replay {σ α : Type} {step : σ → α → Option σ} {allowed : σ → α → Prop}
    [∀ s a, Decidable (allowed s a)] {schedule : List α} {start s : σ}
    (hreplay : replay step allowed start schedule = some s) : Reaches step allowed start s := by
  induction schedule generalizing start with
  | nil =>
    simp only [replay, List.foldlM_nil, pure, Option.some.injEq] at hreplay
    subst hreplay
    exact .refl
  | cons a rest ih =>
    simp only [replay, List.foldlM_cons] at hreplay
    split_ifs at hreplay with hallowed
    · cases hstep : step start a with
      | none => simp [hstep] at hreplay
      | some next =>
        simp only [hstep] at hreplay
        exact Reaches.trans (.tail .refl hallowed hstep) (ih hreplay)
    · simp at hreplay

/-- A schedule that replays to a state with a decidable property reaches one. -/
theorem exists_reaches_of_replay {σ α : Type} (step : σ → α → Option σ) (allowed : σ → α → Prop)
    [∀ s a, Decidable (allowed s a)] (start : σ) (schedule : List α) (p : σ → Bool)
    (hreplay : (replay step allowed start schedule).any p = true) :
    ∃ s, Reaches step allowed start s ∧ p s = true := by
  cases hfinal : replay step allowed start schedule with
  | none => simp [hfinal] at hreplay
  | some s =>
    rw [hfinal, Option.any_some] at hreplay
    exact ⟨s, reaches_of_replay hfinal, hreplay⟩

/-- The same for runs without a restriction. -/
theorem exists_reachable_of_replay {σ α : Type} (step : σ → α → Option σ) (start : σ)
    (schedule : List α) (p : σ → Bool)
    (hreplay : (replay step (fun _ _ => True) start schedule).any p = true) :
    ∃ s, Reachable step start s ∧ p s = true :=
  exists_reaches_of_replay step (fun _ _ => True) start schedule p hreplay

section Along

variable {σ α : Type}

/-- Every step of a run of a deterministic system has a property, which may look at the
    state before it and at the label. -/
def Along (step : σ → α → σ) (P : σ → α → Prop) : σ → List α → Prop
  | _, [] => True
  | s, a :: labels => P s a ∧ Along step P (step s a) labels

theorem along_of_forall {step : σ → α → σ} {P : σ → α → Prop} (hall : ∀ s a, P s a) (s : σ)
    (labels : List α) : Along step P s labels := by
  induction labels generalizing s with
  | nil => trivial
  | cons a labels ih => exact ⟨hall s a, ih (step s a)⟩

/-- Two properties of steps hold along the same runs if they agree wherever the steps
    so far had the second of them, which keeps an invariant. -/
theorem along_iff {step : σ → α → σ} {legal P Q : σ → α → Prop} {I : σ → Prop}
    (hagree : ∀ s a, I s → legal s a → (P s a ↔ Q s a))
    (hkeep : ∀ s a, I s → legal s a → Q s a → I (step s a)) {s : σ} {labels : List α}
    (hstart : I s) (hlegal : Along step legal s labels) :
    Along step P s labels ↔ Along step Q s labels := by
  induction labels generalizing s with
  | nil => exact Iff.rfl
  | cons a labels ih =>
    obtain ⟨hfirst, hrest⟩ := hlegal
    have hiff := hagree s a hstart hfirst
    constructor
    · rintro ⟨hP, hPs⟩
      have hQ := hiff.mp hP
      exact ⟨hQ, (ih (hkeep s a hstart hfirst hQ) hrest).mp hPs⟩
    · rintro ⟨hQ, hQs⟩
      exact ⟨hiff.mpr hQ, (ih (hkeep s a hstart hfirst hQ) hrest).mpr hQs⟩

end Along

end Transition
