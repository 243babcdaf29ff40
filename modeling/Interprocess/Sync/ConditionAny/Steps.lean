import Interprocess.Sync.ConditionAny.Guards

namespace interprocess.ipcdetail.condition_any_algorithm

open Transition scoped_lock

variable {τ L : Type} [DecidableEq τ] [DecidableEq L] {s s' : State τ L} {t : τ}
  {grants : (L → τ → Bool) → L → τ → Bool}

section Moves

variable {wait wait' : Wait L}

omit [DecidableEq L] in
/-- An operation of a wait that does not go back to where it has not released its lock. -/
theorem moves_of_wait (hcall : s.calls t = .waiting wait)
    (hcalls : s'.calls = Function.update s.calls t (.waiting wait')) (hwaits : s'.waits = s.waits)
    (hholds : ∀ lock u, u ≠ t → s'.holds lock u = s.holds lock u)
    (hinternal : Passes t s.internal wait.holds_internal s'.internal wait'.holds_internal)
    (hallowed : Local (τ := τ) (s'.holds · t) (.waiting wait'))
    (hentering : wait'.Entering → wait.Entering) : Moves s s' t (.waiting wait') where
  calls := hcalls
  waits := by
    rw [hwaits]
    exact ⟨Nat.le_refl _, fun _ _ => rfl⟩
  holds := hholds
  internal := by
    rw [hcall]
    exact hinternal
  allowed := hallowed
  entering := by
    intro next hnext hnext_entering
    cases hnext
    exact Or.inr ⟨wait, hcall, hentering hnext_entering⟩
  recorded := by
    intro signal hsignal
    cases hsignal

omit [DecidableEq L] in
/-- A call that ends, or one that has to do with no guard. -/
theorem moves_outside {call : Call τ L} (hheld : (s.calls t).holds_internal = false)
    (hcall : call = .outside ∨ ∃ lock, call = .locking lock) (hinternal : s'.internal = s.internal)
    (hcalls : s'.calls = Function.update s.calls t call) (hwaits : s'.waits = s.waits)
    (hholds : ∀ lock u, u ≠ t → s'.holds lock u = s.holds lock u) : Moves s s' t call where
  calls := hcalls
  waits := by
    rw [hwaits]
    exact ⟨Nat.le_refl _, fun _ _ => rfl⟩
  holds := hholds
  internal := by
    rw [hheld, hinternal]
    rcases hcall with rfl | ⟨lock, rfl⟩ <;> exact .kept _ _
  allowed := by
    rcases hcall with rfl | ⟨lock, rfl⟩ <;> trivial
  entering := by
    rintro wait rfl
    rcases hcall with hcall | ⟨lock, hcall⟩ <;> cases hcall
  recorded := by
    rintro signal rfl
    rcases hcall with hcall | ⟨lock, hcall⟩ <;> cases hcall

theorem holds_of_lock_external (s : State τ L) (t : τ) (lock : L) :
    (s.lock_external t lock).holds lock t = true ∧
      ∀ lock' u, u ≠ t → (s.lock_external t lock).holds lock' u = s.holds lock' u := by
  constructor
  · simp [State.lock_external]
  · intro lock' u hu
    by_cases hlock : lock' = lock
    · subst hlock
      simp [State.lock_external, hu]
    · simp [State.lock_external, hlock]

theorem holds_of_unlock_external (s : State τ L) (t : τ) (lock : L) :
    (s.unlock_external t lock).holds lock t = false ∧
      ∀ lock' u, u ≠ t → (s.unlock_external t lock).holds lock' u = s.holds lock' u := by
  constructor
  · simp [State.unlock_external]
  · intro lock' u hu
    by_cases hlock : lock' = lock
    · subst hlock
      simp [State.unlock_external, hu]
    · simp [State.unlock_external, hlock]

theorem exists_moves_of_destruct {outcome : Outcome} (hinv : Inv s)
    (hcall : s.calls t = .waiting wait) (hplace : wait.place = .destructing outcome)
    (hdestruct : s.destruct grants t wait = some s') : ∃ call, Moves s s' t call := by
  have hallowed := hinv.calls t
  rw [hcall] at hallowed
  obtain ⟨hguarded, hheld⟩ := hallowed
  obtain ⟨lock, timed, internal_lock, external_unlock, internal_unlock, place⟩ := wait
  simp only at hguarded hplace
  subst hplace
  cases hguarded with
  | ended =>
    cases hdestruct
    exact ⟨_, moves_of_wait hcall rfl rfl (fun _ _ _ => rfl) (.unlocked _) ⟨.unlocked _, hheld⟩
      (by rintro (h | h) <;> cases h)⟩
  | unlocked =>
    simp only [State.destruct] at hdestruct
    split_ifs at hdestruct with howns hgrants
    · cases hdestruct
      obtain ⟨hlocked, hothers⟩ := holds_of_lock_external s t lock
      exact ⟨_, moves_of_wait hcall rfl rfl hothers (.kept _ _) ⟨.relocked _, hlocked⟩
        (by rintro (h | h) <;> cases h)⟩
    · exact absurd rfl howns
  | relocked =>
    cases hdestruct
    exact ⟨_, moves_of_wait hcall rfl rfl (fun _ _ _ => rfl) (.kept _ _) ⟨.left _, hheld⟩
      (by rintro (h | h) <;> cases h)⟩
  | thrown =>
    cases hdestruct
    exact ⟨_, moves_of_wait hcall rfl rfl (fun _ _ _ => rfl) (.unlocked _) ⟨.left _, hheld⟩
      (by rintro (h | h) <;> cases h)⟩
  | left =>
    cases hdestruct
    exact ⟨_, moves_outside (by rw [hcall]; rfl) (Or.inl rfl) rfl rfl rfl (fun _ _ _ => rfl)⟩

theorem exists_moves_of_wait (hinv : Inv s) (hcall : s.calls t = .waiting wait)
    (hnext : s.next_of_wait grants t wait = some s') : ∃ call, Moves s s' t call := by
  have hallowed := hinv.calls t
  rw [hcall] at hallowed
  obtain ⟨hguarded, hheld⟩ := hallowed
  by_cases hdestructing : ∃ outcome, wait.place = .destructing outcome
  · obtain ⟨outcome, hplace⟩ := hdestructing
    simp only [State.next_of_wait, hplace] at hnext
    exact exists_moves_of_destruct hinv hcall hplace hnext
  obtain ⟨lock, timed, internal_lock, external_unlock, internal_unlock, place⟩ := wait
  simp only at hguarded hdestructing
  cases hguarded with
  | entered =>
    simp only [State.next_of_wait] at hnext
    split_ifs at hnext with hfree
    cases hnext
    refine ⟨_, moves_of_wait hcall rfl rfl (fun _ _ _ => rfl) ?_ ⟨.locked, hheld⟩
      fun _ => Or.inl rfl⟩
    rw [hfree]
    exact .locked
  | locked =>
    cases hnext
    obtain ⟨hunlocked, hothers⟩ := holds_of_unlock_external s t lock
    exact ⟨_, moves_of_wait hcall rfl rfl hothers (.kept _ _) ⟨.released, hunlocked⟩
      fun _ => Or.inr rfl⟩
  | released =>
    cases hnext
    exact ⟨_, moves_of_wait hcall rfl rfl (fun _ _ _ => rfl) (.kept _ _) ⟨.swapped, hheld⟩
      (by rintro (h | h) <;> cases h)⟩
  | swapped =>
    cases hnext
    exact ⟨_, moves_of_wait hcall rfl rfl (fun _ _ _ => rfl) (.unlocked _) ⟨.enqueued, hheld⟩
      (by rintro (h | h) <;> cases h)⟩
  | enqueued => cases hnext
  | awakened outcome =>
    simp only [State.next_of_wait] at hnext
    split_ifs at hnext with hfree
    cases hnext
    refine ⟨_, moves_of_wait hcall rfl rfl (fun _ _ _ => rfl) ?_ ⟨.ended outcome, hheld⟩
      (by rintro (h | h) <;> cases h)⟩
    rw [hfree]
    exact .locked
  | ended outcome | unlocked outcome | relocked outcome | thrown outcome | left outcome =>
    exact absurd ⟨outcome, rfl⟩ hdestructing

omit [DecidableEq L] in
/-- An operation of a `signal`, which goes on with what it recorded. -/
theorem moves_of_signal {signal signal' : Signal τ} (hinv : Inv s)
    (hcall : s.calls t = .signalling signal)
    (hcalls : s'.calls = Function.update s.calls t (.signalling signal'))
    (hsame : s'.waits = s.waits ∧ s'.holds = s.holds)
    (hinternal : Passes t s.internal (signal.internal_lock.any owns) s'.internal
      (signal'.internal_lock.any owns))
    (hguarded : SignalGuarded signal'.place signal'.internal_lock)
    (hrecorded : signal'.released = signal.released) :
    Moves s s' t (.signalling signal') where
  calls := hcalls
  waits := by
    rw [hsame.1]
    exact ⟨Nat.le_refl _, fun _ _ => rfl⟩
  holds := by
    rw [hsame.2]
    exact fun _ _ _ => rfl
  internal := by
    rw [hcall]
    exact hinternal
  allowed := hguarded
  entering := nofun
  recorded := by
    intro next hnext
    cases hnext
    rw [hrecorded]
    exact hinv.recorded t signal hcall

end Moves

section Awakening

omit [DecidableEq τ] [DecidableEq L]

theorem holds_internal_awaken (call : Call τ L) (outcome : Outcome) :
    (call.awaken outcome).holds_internal = call.holds_internal := by
  cases call with
  | waiting wait =>
    simp only [Call.awaken]
    split_ifs with henqueued
    · simp only [Call.holds_internal, Wait.holds_internal, henqueued]
    · rfl
  | outside | locking | signalling => rfl

theorem local_awaken {held : L → Bool} {call : Call τ L} (hlocal : Local held call)
    (outcome : Outcome) : Local held (call.awaken outcome) := by
  cases call with
  | waiting wait =>
    obtain ⟨hguarded, hheld⟩ := hlocal
    simp only [Call.awaken]
    split_ifs with henqueued
    · obtain ⟨lock, timed, internal_lock, external_unlock, internal_unlock, place⟩ := wait
      simp only at henqueued hguarded
      subst henqueued
      cases hguarded
      exact ⟨.awakened outcome, hheld⟩
    · exact ⟨hguarded, hheld⟩
  | outside | locking | signalling => exact hlocal

/-- A waiter that is awakened was a waiter before, and was not entering. -/
theorem not_entering_awaken {call : Call τ L} {outcome : Outcome} {wait : Wait L}
    (hbefore : ∀ wait, call = .waiting wait → ¬ wait.Entering)
    (hawaken : call.awaken outcome = .waiting wait) : ¬ wait.Entering := by
  cases call with
  | waiting before =>
    simp only [Call.awaken] at hawaken
    split_ifs at hawaken with henqueued
    · cases hawaken
      rintro (h | h) <;> cases h
    · cases hawaken
      exact hbefore _ rfl
  | outside | locking | signalling => cases hawaken

theorem signalling_of_awaken {call : Call τ L} {outcome : Outcome} {signal : Signal τ}
    (hawaken : call.awaken outcome = .signalling signal) : call = .signalling signal := by
  cases call with
  | waiting before =>
    simp only [Call.awaken] at hawaken
    split_ifs at hawaken
  | outside | locking => cases hawaken
  | signalling => exact hawaken

/-- Some waiters are awakened. -/
structure Awakens (s s' : State τ L) : Prop where
  internal : s'.internal = s.internal
  holds : s'.holds = s.holds
  waits : s'.waits = s.waits
  calls : ∀ t, s'.calls t = s.calls t ∨ ∃ outcome, s'.calls t = (s.calls t).awaken outcome

theorem Awakens.refl (s : State τ L) : Awakens s s :=
  ⟨rfl, rfl, rfl, fun _ => Or.inl rfl⟩

theorem Inv.awaken (hinv : Inv s) (hawakens : Awakens s s') : Inv s' := by
  constructor
  · intro t
    rw [hawakens.internal, ← hinv.internal t]
    rcases hawakens.calls t with hcall | ⟨outcome, hcall⟩ <;> rw [hcall]
    rw [holds_internal_awaken]
  · intro t
    rw [hawakens.holds]
    rcases hawakens.calls t with hcall | ⟨outcome, hcall⟩ <;> rw [hcall]
    · exact hinv.calls t
    · exact local_awaken (hinv.calls t) outcome
  · intro t signal hsignal u number hu
    have hbefore : s.calls t = .signalling signal := by
      rcases hawakens.calls t with hcall | ⟨outcome, hcall⟩ <;> rw [hcall] at hsignal
      · exact hsignal
      · exact signalling_of_awaken hsignal
    obtain ⟨hle, hentered⟩ := hinv.recorded t signal hbefore u number hu
    rw [hawakens.waits]
    refine ⟨hle, fun heq wait hwait => ?_⟩
    rcases hawakens.calls u with hcall | ⟨outcome, hcall⟩ <;> rw [hcall] at hwait
    · exact hentered heq wait hwait
    · exact not_entering_awaken (hentered heq) hwait

end Awakening

omit [DecidableEq L] in
/-- A notification awakens waiters only, all of them if it is to. -/
theorem awakens_of_notify [Fintype τ] {broadcast : Bool} {woken : Option τ}
    (hnotify : s.notify broadcast woken = some s') : Awakens s s' := by
  cases broadcast with
  | true =>
    cases hnotify
    exact ⟨rfl, rfl, rfl, fun t => Or.inr ⟨_, rfl⟩⟩
  | false =>
    simp only [State.notify, Bool.false_eq_true, if_false] at hnotify
    cases woken with
    | none =>
      simp only at hnotify
      split_ifs at hnotify
      cases hnotify
      exact .refl s
    | some u =>
      simp only at hnotify
      split_ifs at hnotify
      cases hnotify
      refine ⟨rfl, rfl, rfl, fun t => ?_⟩
      by_cases htu : t = u
      · subst htu
        exact Or.inr ⟨_, Function.update_self ..⟩
      · exact Or.inl (Function.update_of_ne htu _ _)

omit [DecidableEq τ] [DecidableEq L] in
theorem signalling_of_awakens {signal : Signal τ} (hawakens : Awakens s s')
    (hcall : s.calls t = .signalling signal) : s'.calls t = .signalling signal := by
  rcases hawakens.calls t with hsame | ⟨outcome, hsame⟩ <;> rw [hsame, hcall]
  rfl

end interprocess.ipcdetail.condition_any_algorithm
