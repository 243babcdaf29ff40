import Interprocess.Sync.LockGuards.Transfers

namespace interprocess.lock_guards

open interprocess_upgradable_mutex Count Transition

variable {M G : Type} [DecidableEq M] [DecidableEq G] [Fintype G] {s t : State M G} {g source : G}
  {how : WaitEnd} {report : Report M} {u : Guard M}

omit [DecidableEq G] in
theorem tally_released_of_ne (s : State M G) {m m' : M} (hne : m' ≠ m) (r : Kind → Nat) :
    tally { s with released := Function.update s.released m r } m' = tally s m' := by
  simp only [tally, owning, Function.update_of_ne hne]

omit [DecidableEq G] in
/-- One more released ownership is one more owner. -/
theorem tally_released_succ (s : State M G) (m : M) (kind : Kind) (k : Nat) :
    tally { s with
        released := Function.update s.released m
          (Function.update (s.released m) kind (k + 1)) } m =
      (tally { s with
        released := Function.update s.released m
          (Function.update (s.released m) kind k) } m).with_owner (ownership kind) := by
  cases kind <;> simp [tally, owning, ownership, Tally.with_owner] <;> omega

omit [DecidableEq G] in
theorem tally_released_self (s : State M G) (m : M) (kind : Kind) :
    tally { s with
        released := Function.update s.released m
          (Function.update (s.released m) kind (s.released m kind)) } m = tally s m := by
  simp only [Function.update_eq_self]

/-- What a guard releases is owned still. -/
theorem Inv.release (hinv : Inv s) (hcall : s.release g = some (t, report)) : Inv t := by
  obtain ⟨u, hu, heq⟩ := Option.map_eq_some_iff.mp hcall
  rcases owns_cases u with ⟨m, hlocked, hmutex, -⟩ | hnot
  · simp only [hlocked, hmutex] at heq
    cases heq
    refine hinv.of_eq rfl fun m' => ?_
    obtain ⟨n, hn, hset⟩ := tally_set s g (some u.release) m'
    rw [holding_release] at hset
    rw [hu, holding_of_owns hlocked hmutex] at hn
    by_cases hm : m' = m
    · subst hm
      refine (tally_released_succ (s.set g (some u.release)) m' u.kind _).trans ?_
      rw [tally_released_self, hn, hset, if_pos rfl]
      rfl
    · refine (tally_released_of_ne (s.set g (some u.release)) hm _).trans ?_
      rw [hn, hset, if_neg hm]
  · have hfree : ∀ m, holding (s.guards g) m = .none := by
      rw [hu]
      exact holding_of_not_owns hnot
    have hset := hinv.set_free (holding_release u) hfree
    split at heq
    · rename_i m hlocked hmutex
      rw [Guard.owns, hlocked, hmutex] at hnot
      cases hnot
    · cases heq
      exact hset

/-- What a guard accepts was released. -/
theorem Inv.accept (hinv : Inv s) {kind : Kind} {m : M} (hg : s.guards g = none)
    (hreleased : 0 < s.released m kind) : Inv (s.accept g kind m).1 := by
  obtain ⟨k, hk⟩ := Nat.exists_eq_succ_of_ne_zero hreleased.ne'
  refine hinv.of_eq rfl fun m' => ?_
  have hfree := holding_none_of_empty hg
  have hbefore := tally_released_succ s m kind k
  rw [← Nat.succ_eq_add_one, ← hk, tally_released_self] at hbefore
  by_cases hm : m' = m
  · subst hm
    obtain ⟨n, hn, hset⟩ := tally_set { s with
      released := Function.update s.released m'
        (Function.update (s.released m') kind k) } g (some ⟨kind, some m', true⟩) m'
    have hnone : holding (s.guards g) m' = .none := hfree m'
    rw [hbefore, hn]
    simp only [State.accept, hk, Nat.succ_sub_one, hnone]
    refine hset.trans ?_
    rw [holding_locked, if_pos rfl]
    rfl
  · refine (tally_released_of_ne (s.set g (some ⟨kind, some m, true⟩)) hm _).trans ?_
    refine tally_set_eq ?_
    rw [holding_locked, if_neg hm, hfree]

theorem Inv.destroy (hinv : Inv s) (hcall : s.destroy g = some (t, report)) : Inv t := by
  unfold State.destroy at hcall
  split at hcall
  · cases hcall
  · rename_i u hu
    rcases owns_cases u with ⟨m, hlocked, hmutex, howns⟩ | hnot
    · obtain ⟨c', hunlock⟩ := unlock_eq hu hlocked hmutex
      rw [if_pos howns, hunlock] at hcall
      cases hcall
      refine (hinv.unlock hunlock).set_free (fun _ => rfl) fun m' => ?_
      refine Eq.trans ?_ (holding_unlocked u.kind u.mp_mutex m')
      exact congrArg (holding · m') (Function.update_self ..)
    · rw [if_neg (by rw [hnot]; exact Bool.false_ne_true)] at hcall
      cases hcall
      refine hinv.set_free (fun _ => rfl) ?_
      rw [hu]
      exact holding_of_not_owns hnot

theorem Inv.lock (hinv : Inv s) {locking : Locking}
    (hcall : s.lock g locking how = some (t, report)) : Inv t := by
  unfold State.lock at hcall
  split at hcall
  · cases hcall
  · rename_i u hu
    split at hcall
    · rename_i m hlocked hmutex
      refine hinv.lock_with ?_ hcall
      rw [hu]
      refine holding_of_not_owns ?_
      rw [Guard.owns, hlocked, Bool.false_and]
    · cases hcall
      exact hinv

theorem Inv.swap (hinv : Inv s) (hcall : s.swap g source = some (t, report)) : Inv t := by
  cases hcall
  exact hinv.of_eq rfl (tally_swap s g source)

/-- Every operation that returns keeps the control words and the guards in step. -/
theorem Inv.call (hinv : Inv s) {op : GuardOp M G} (hwell : Wellformed s op)
    (hcall : call s op = some (t, report)) : Inv t := by
  cases op with
  | construct g kind =>
    cases hcall
    exact hinv.set_free (holding_unlocked _ _) (holding_none_of_empty hwell)
  | construct_lock g kind m locking how =>
    exact hinv.lock_with (holding_none_of_empty hwell) hcall
  | construct_defer g kind m =>
    cases hcall
    exact hinv.set_free (holding_unlocked _ _) (holding_none_of_empty hwell)
  | construct_accept g kind m =>
    cases hcall
    exact hinv.accept hwell.1 hwell.2
  | move_construct g source =>
    obtain ⟨u, hu, heq⟩ := Option.map_eq_some_iff.mp hcall
    cases heq
    have hne : source ≠ g := by
      rintro rfl
      rw [hwell.1] at hu
      cases hu
    exact hinv.move hne hu (holding_none_of_empty hwell.1) rfl
  | convert g source conversion how =>
    obtain ⟨hg, u, hu, hkind⟩ := hwell
    exact hinv.convert hg hu hkind hcall
  | try_convert g source conversion how =>
    obtain ⟨hg, u, hu, hkind⟩ := hwell
    exact hinv.try_convert hg hu hkind hcall
  | move_assign g source =>
    obtain ⟨kind, ⟨w, hw, hwkind⟩, u, hu, hukind⟩ := hwell
    exact hinv.move_assign hw hu (hwkind.trans hukind.symm) hcall
  | lock g locking how => exact hinv.lock hcall
  | unlock g => exact hinv.unlock hcall
  | swap g other => exact hinv.swap hcall
  | release g => exact hinv.release hcall
  | destroy g => exact hinv.destroy hcall

end interprocess.lock_guards
