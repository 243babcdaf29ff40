import Interprocess.Sync.ConditionAny.Steps

namespace interprocess.ipcdetail.condition_any_algorithm

open Transition scoped_lock

variable {τ L : Type} [DecidableEq τ] [DecidableEq L] {s s' : State τ L} {t : τ}
  {grants : (L → τ → Bool) → L → τ → Bool}

omit [DecidableEq L] in
theorem Inv.throw (hinv : Inv s) (hthrow : s.throw t = some s') : Inv s' := by
  have hallowed := hinv.calls t
  unfold State.throw at hthrow
  split at hthrow
  · rename_i wait hcall
    rw [hcall] at hallowed
    obtain ⟨hguarded, hheld⟩ := hallowed
    obtain ⟨lock, timed, internal_lock, external_unlock, internal_unlock, place⟩ := wait
    simp only at hguarded
    cases hguarded with
    | entered =>
      cases hthrow
      exact hinv.move (moves_of_wait hcall rfl rfl (fun _ _ _ => rfl) (.kept _ _)
        ⟨.left _, hheld⟩ fun _ => Or.inl rfl)
    | locked =>
      cases hthrow
      exact hinv.move (moves_of_wait hcall rfl rfl (fun _ _ _ => rfl) (.kept _ _)
        ⟨.thrown _, hheld⟩ fun _ => Or.inr rfl)
    | swapped =>
      cases hthrow
      exact hinv.move (moves_of_wait hcall rfl rfl (fun _ _ _ => rfl) (.kept _ _)
        ⟨.ended _, hheld⟩ (by rintro (h | h) <;> cases h))
    | released | enqueued | awakened | ended | unlocked | relocked | thrown | left => cases hthrow
  · rename_i signal hcall
    rw [hcall] at hallowed
    obtain ⟨broadcast, internal_lock, place, released⟩ := signal
    simp only [Local] at hallowed
    cases hallowed with
    | entered =>
      cases hthrow
      exact hinv.move (moves_of_signal hinv hcall rfl ⟨rfl, rfl⟩ (.kept _ _) (.left _) rfl)
    | locked | notified | left => cases hthrow
  · cases hthrow

omit [DecidableEq L] in
theorem awakens_of_wake {outcome : Outcome} (hwake : s.wake t outcome = some s') :
    Awakens s s' := by
  unfold State.wake at hwake
  split at hwake
  · rename_i wait hcall
    split_ifs at hwake with henqueued
    cases hwake
    refine ⟨rfl, rfl, rfl, fun u => ?_⟩
    by_cases hut : u = t
    · subst hut
      refine Or.inr ⟨outcome, ?_⟩
      simp only [State.continue_, Function.update_self, hcall, Call.awaken, henqueued.1, if_true]
    · exact Or.inl (Function.update_of_ne hut _ _)
  · cases hwake

omit [DecidableEq L] in
theorem Inv.next_of_signal [Fintype τ] {signal : Signal τ} {woken : Option τ} (hinv : Inv s)
    (hcall : s.calls t = .signalling signal)
    (hnext : s.next_of_signal t signal woken = some s') : Inv s' := by
  have hallowed := hinv.calls t
  rw [hcall] at hallowed
  obtain ⟨broadcast, internal_lock, place, released⟩ := signal
  simp only [Local] at hallowed
  cases hallowed with
  | entered =>
    simp only [State.next_of_signal] at hnext
    split_ifs at hnext with hfree
    cases hnext
    refine hinv.move (moves_of_signal hinv hcall rfl ⟨rfl, rfl⟩ ?_ .locked rfl)
    rw [hfree]
    exact .locked
  | locked =>
    obtain ⟨s₁, hnotify, heq⟩ := Option.map_eq_some_iff.mp hnext
    cases heq
    have hawakens := awakens_of_notify hnotify
    have hinv₁ := hinv.awaken hawakens
    exact hinv₁.move (moves_of_signal hinv₁ (signalling_of_awakens hawakens hcall) rfl ⟨rfl, rfl⟩
      (.kept _ _) (.notified _) rfl)
  | notified =>
    cases hnext
    exact hinv.move (moves_of_signal hinv hcall rfl ⟨rfl, rfl⟩ (.unlocked _) (.left _) rfl)
  | left =>
    cases hnext
    exact hinv.move (moves_outside (by rw [hcall]; rfl) (Or.inl rfl) rfl rfl rfl fun _ _ _ => rfl)

variable [Fintype τ]

end interprocess.ipcdetail.condition_any_algorithm
