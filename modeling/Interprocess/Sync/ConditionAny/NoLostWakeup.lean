import Interprocess.Sync.ConditionAny.Invariant

namespace interprocess.ipcdetail.condition_any_algorithm

open Transition scoped_lock

variable {τ L : Type} [DecidableEq τ] [DecidableEq L] [Fintype τ] {s s' : State τ L} {t : τ}
  {grants : (L → τ → Bool) → L → τ → Bool}

section Soundness

omit [DecidableEq τ] [DecidableEq L] [Fintype τ]

/-- A thread that is about to notify has locked the internal mutex, so nobody is between
    releasing an external lock and being enqueued. -/
theorem Inv.found (hinv : Inv s) {n : τ} {signal : Signal τ} {number : Nat}
    (hcall : s.calls n = .signalling signal) (hplace : signal.place = .notifying)
    (hreleased : signal.released t = some number) :
    (s.calls t).enqueued = true ∨ Awakened s t number := by
  have hnotifier : s.internal = some n := by
    rw [← hinv.internal n, hcall]
    have hallowed := hinv.calls n
    rw [hcall] at hallowed
    obtain ⟨broadcast, internal_lock, place, released⟩ := signal
    cases hplace
    cases hallowed
    rfl
  obtain ⟨hle, hentered⟩ := hinv.recorded n signal hcall t number hreleased
  by_cases hless : number < s.waits t
  · exact Or.inr (Or.inl hless)
  by_cases hwaiting : ∃ wait, s.calls t = .waiting wait
  · obtain ⟨wait, hwait⟩ := hwaiting
    have hentering := hentered (by omega) wait hwait
    have hallowed := hinv.calls t
    have hholds := hinv.internal t
    rw [hwait] at hallowed hholds
    have hnot : wait.holds_internal = false := by
      by_contra hheld
      have hself : s.internal = some t := hholds.mp (eq_true_of_ne_false hheld)
      rw [hnotifier] at hself
      cases hself
      rw [hcall] at hwait
      cases hwait
    have hawakened : ∀ outcome, wait.place = .awakened outcome ∨
        wait.place = .destructing outcome → Awakened s t number := by
      intro outcome hplace
      refine Or.inr fun wait' hwait' => ⟨outcome, ?_⟩
      rw [hwait] at hwait'
      cases hwait'
      exact hplace
    obtain ⟨lock, timed, internal_lock, external_unlock, internal_unlock, place⟩ := wait
    simp only [Local] at hallowed
    cases hallowed.1 with
    | entered => exact absurd (Or.inl rfl) hentering
    | locked => exact absurd (Or.inr rfl) hentering
    | released => cases hnot
    | swapped => cases hnot
    | enqueued =>
      left
      rw [hwait]
      rfl
    | awakened outcome => exact Or.inr (hawakened outcome (Or.inl rfl))
    | ended outcome | unlocked outcome | relocked outcome | thrown outcome | left outcome =>
      exact Or.inr (hawakened outcome (Or.inr rfl))
  · exact Or.inr (Or.inr fun wait hwait => absurd ⟨wait, hwait⟩ hwaiting)

/-- Nobody waits for an external lock with the internal mutex: it is unlocked before. -/
theorem Inv.ordered (hinv : Inv s) (hwaits : WaitsForExternal s t) : s.internal ≠ some t := by
  rw [Ne, ← hinv.internal t]
  rcases hwaits with ⟨lock, hcall⟩ | ⟨wait, outcome, guard, hcall, hplace, hinner, houter, -⟩
  · rw [hcall]
    exact Bool.false_ne_true
  · have hallowed := hinv.calls t
    rw [hcall] at hallowed ⊢
    obtain ⟨lock, timed, internal_lock, external_unlock, internal_unlock, place⟩ := wait
    simp only at hplace hinner houter
    subst hplace hinner houter
    cases hallowed.1
    exact Bool.false_ne_true

end Soundness

omit [DecidableEq τ] [DecidableEq L] [Fintype τ] in
theorem Call.exists_waiting_of_awaken {call : Call τ L} {outcome : Outcome} {wait : Wait L}
    (hcall : call = .waiting wait) : ∃ wait', call.awaken outcome = .waiting wait' := by
  subst hcall
  by_cases henqueued : wait.place = .enqueued
  · exact ⟨_, if_pos henqueued⟩
  · exact ⟨_, if_neg henqueued⟩

/-- The guards of a call that is about to end are destructed. -/
def Wait.Destructed (wait : Wait L) : Prop :=
  (∃ outcome, wait.place = .destructing outcome) ∧ wait.internal_lock = none ∧
    wait.external_unlock = none ∧ wait.internal_unlock = none

omit [Fintype τ] in
theorem waiting_or_destructed_of_next {wait : Wait L}
    (hnext : s.next_of_wait grants t wait = some s') :
    (∃ wait', s'.calls t = .waiting wait') ∨ (wait.Destructed ∧ s' = s.continue_ t .outside) := by
  obtain ⟨lock, timed, internal_lock, external_unlock, internal_unlock, place⟩ := wait
  cases place with
  | constructing_internal_lock =>
    simp only [State.next_of_wait] at hnext
    split_ifs at hnext
    cases hnext
    exact Or.inl ⟨_, Function.update_self ..⟩
  | constructing_external_unlock =>
    cases hnext
    exact Or.inl ⟨_, Function.update_self ..⟩
  | swapping =>
    cases hnext
    exact Or.inl ⟨_, Function.update_self ..⟩
  | calling_condvar =>
    simp only [State.next_of_wait] at hnext
    split_ifs at hnext <;> cases hnext <;> exact Or.inl ⟨_, Function.update_self ..⟩
  | enqueued => cases hnext
  | awakened outcome =>
    simp only [State.next_of_wait] at hnext
    split_ifs at hnext
    cases hnext
    exact Or.inl ⟨_, Function.update_self ..⟩
  | destructing outcome =>
    cases internal_unlock with
    | some guard =>
      cases hnext
      exact Or.inl ⟨_, Function.update_self ..⟩
    | none =>
      cases external_unlock with
      | some guard =>
        simp only [State.next_of_wait, State.destruct] at hnext
        split_ifs at hnext <;> cases hnext <;> exact Or.inl ⟨_, Function.update_self ..⟩
      | none =>
        cases internal_lock with
        | some guard =>
          cases hnext
          exact Or.inl ⟨_, Function.update_self ..⟩
        | none =>
          cases hnext
          exact Or.inr ⟨⟨⟨outcome, rfl⟩, rfl, rfl, rfl⟩, rfl⟩

omit [DecidableEq τ] [DecidableEq L] [Fintype τ] in
/-- What others do to a waiter is to awaken it. -/
theorem waiting_of_awakens {wait : Wait L} (hawakens : Awakens s s')
    (hcall : s.calls t = .waiting wait) : ∃ wait', s'.calls t = .waiting wait' := by
  rcases hawakens.calls t with hsame | ⟨outcome, hsame⟩
  · exact ⟨wait, hsame.trans hcall⟩
  · rw [hsame]
    exact Call.exists_waiting_of_awaken hcall

omit [DecidableEq L] in
theorem waiting_of_signal {u : τ} {signal : Signal τ} {wait : Wait L} {woken : Option τ}
    (hnext : s.next_of_signal u signal woken = some s') (hne : t ≠ u)
    (hcall : s.calls t = .waiting wait) : ∃ wait', s'.calls t = .waiting wait' := by
  simp only [State.next_of_signal] at hnext
  split at hnext
  · split_ifs at hnext
    cases hnext
    exact ⟨wait, (Function.update_of_ne hne _ _).trans hcall⟩
  · obtain ⟨s₁, hnotify, heq⟩ := Option.map_eq_some_iff.mp hnext
    cases heq
    obtain ⟨wait', hwait'⟩ := waiting_of_awakens (awakens_of_notify hnotify) hcall
    exact ⟨wait', (Function.update_of_ne hne _ _).trans hwait'⟩
  · split at hnext
    · rename_i guard hguard
      cases hnext
      refine ⟨wait, (Function.update_of_ne hne _ _).trans ?_⟩
      split_ifs <;> exact hcall
    · cases hnext
      exact ⟨wait, (Function.update_of_ne hne _ _).trans hcall⟩

omit [DecidableEq L] [Fintype τ] in
theorem waiting_of_throw {u : τ} {wait : Wait L} (hthrow : s.throw u = some s')
    (hcall : s.calls t = .waiting wait) : ∃ wait', s'.calls t = .waiting wait' := by
  by_cases htu : t = u
  · subst htu
    simp only [State.throw, hcall] at hthrow
    split at hthrow <;> cases hthrow <;> exact ⟨_, Function.update_self ..⟩
  · unfold State.throw at hthrow
    split at hthrow
    · split at hthrow <;> cases hthrow <;>
        exact ⟨wait, (Function.update_of_ne htu _ _).trans hcall⟩
    · split at hthrow <;> cases hthrow
      exact ⟨wait, (Function.update_of_ne htu _ _).trans hcall⟩
    · cases hthrow

/-- Only the end of a call makes a thread not be in a wait any more. -/
theorem destructed_of_ended {wait : Wait L} {a : Label τ L} (hinv : Inv s)
    (hcall : s.calls t = .waiting wait) (hstep : step grants s a = some s')
    (hended : ∀ wait', s'.calls t ≠ .waiting wait') :
    wait.Destructed ∧ s' = s.continue_ t .outside := by
  have hother : ∀ u call, u ≠ t → s'.calls ≠ Function.update s.calls u call := by
    intro u call hne hcalls
    refine hended wait ?_
    rw [hcalls, Function.update_of_ne hne.symm, hcall]
  have hne : ∀ u call, s.calls u = call → (∀ wait, call ≠ .waiting wait) → u ≠ t := by
    rintro u call hu hnot rfl
    exact hnot wait (hu.symm.trans hcall)
  cases a with
  | lock u lock =>
    simp only [step] at hstep
    split at hstep
    · rename_i hu
      split_ifs at hstep
      cases hstep
      have hut := hne u _ hu (by simp)
      cases hother u _ hut rfl
    · cases hstep
  | unlock u lock =>
    simp only [step] at hstep
    split at hstep
    · split_ifs at hstep
      cases hstep
      exact absurd hcall (hended wait)
    · cases hstep
  | wait u lock timed =>
    simp only [step] at hstep
    split at hstep
    · rename_i hu
      split_ifs at hstep
      cases hstep
      have hut := hne u _ hu (by simp)
      cases hother u _ hut rfl
    · cases hstep
  | signal u broadcast =>
    simp only [step] at hstep
    split at hstep
    · rename_i hu
      cases hstep
      have hut := hne u _ hu (by simp)
      cases hother u _ hut rfl
    · cases hstep
  | next u woken =>
    simp only [step] at hstep
    split at hstep
    · cases hstep
    · rename_i lock hu
      split_ifs at hstep
      cases hstep
      have hut := hne u _ hu (by simp)
      cases hother u _ hut rfl
    · rename_i before hu
      by_cases hut : u = t
      · subst hut
        rw [hcall] at hu
        cases hu
        rcases waiting_or_destructed_of_next hstep with ⟨wait', hwait'⟩ | hdestructed
        · exact absurd hwait' (hended wait')
        · exact hdestructed
      · obtain ⟨call, hmoves⟩ := exists_moves_of_wait hinv hu hstep
        exact absurd hmoves.calls (hother u call hut)
    · rename_i signal hu
      obtain ⟨wait', hwait'⟩ := waiting_of_signal hstep (hne u _ hu (by simp)).symm hcall
      exact absurd hwait' (hended wait')
  | throw u =>
    obtain ⟨wait', hwait'⟩ := waiting_of_throw hstep hcall
    exact absurd hwait' (hended wait')
  | wake u outcome =>
    obtain ⟨wait', hwait'⟩ := waiting_of_awakens (awakens_of_wake hstep) hcall
    exact absurd hwait' (hended wait')

/-- A call ends with its external lock and without the internal mutex. -/
theorem Inv.ended {wait : Wait L} {a : Label τ L} (hinv : Inv s)
    (hcall : s.calls t = .waiting wait) (hstep : step grants s a = some s')
    (hended : ∀ wait', s'.calls t ≠ .waiting wait') :
    s'.holds wait.lock t = true ∧ s'.internal ≠ some t := by
  obtain ⟨⟨⟨outcome, hplace⟩, hinternal, hexternal, hinner⟩, rfl⟩ :=
    destructed_of_ended hinv hcall hstep hended
  have hallowed := hinv.calls t
  have hself := hinv.internal t
  rw [hcall] at hallowed hself
  constructor
  · refine hallowed.2.trans ?_
    rw [Wait.released, hexternal]
    rfl
  · intro hlocked
    have hheld := hself.mpr hlocked
    simp only [Call.holds_internal, Wait.holds_internal, hplace, hinternal, hinner] at hheld
    cases hheld

end interprocess.ipcdetail.condition_any_algorithm
