import Interprocess.Base.Transition
import Interprocess.Sync.LockGuards.MutexCalls

namespace interprocess.lock_guards

open interprocess_upgradable_mutex Count Transition

variable {M G : Type} {c : control_word_t} {kind : Kind} {how : WaitEnd} {result : Result}

section Ops

theorem Locking.op_requires (locking : Locking) (kind : Kind) :
    (locking.op kind).requires = .none := by
  cases locking <;> cases kind <;> rfl

theorem Locking.op_grants (locking : Locking) (kind : Kind) :
    grants (locking.op kind) = ownership kind := by
  cases locking <;> cases kind <;> rfl

theorem unlock_op_requires (kind : Kind) : (unlock_op kind).requires = ownership kind := by
  cases kind <;> rfl

theorem unlock_op_grants (kind : Kind) : grants (unlock_op kind) = .none := by
  cases kind <;> rfl

/-- Unlocking does not wait and does not fail. -/
theorem perform_unlock (c : control_word_t) (kind : Kind) (how : WaitEnd) :
    ∃ c', perform c (unlock_op kind) how = some (c', .acquired) := by
  cases kind <;> exact ⟨_, rfl⟩

theorem Conversion.op_requires (conversion : Conversion) :
    conversion.op.requires = ownership conversion.source := by
  cases conversion <;> rfl

theorem Conversion.op_grants (conversion : Conversion) :
    grants conversion.op = ownership conversion.target := by
  cases conversion <;> rfl

/-- A conversion that returns has the ownership it asked for. -/
theorem Conversion.perform_op {conversion : Conversion} {c' : control_word_t}
    (hperform : perform c conversion.op how = some (c', result)) : result ≠ .failed := by
  rintro rfl
  cases conversion with
  | scoped_of_upgradable =>
    simp only [Conversion.op, perform, Op.enter, unlock_upgradable_and_lock, promote,
      pass_second_gate] at hperform
    split_ifs at hperform
    · simp only [Bool.false_eq_true, and_false, or_false] at hperform
      split_ifs at hperform with hthrown
      rw [hthrown] at hperform
      cases hperform
    · cases hperform
  | upgradable_of_scoped => cases hperform
  | sharable_of_upgradable => cases hperform
  | sharable_of_scoped => cases hperform

theorem TryConversion.op_requires (conversion : TryConversion) :
    conversion.op.requires = ownership conversion.source := by
  cases conversion <;> rfl

theorem TryConversion.op_grants (conversion : TryConversion) :
    grants conversion.op = ownership conversion.target := by
  cases conversion <;> rfl

theorem ownership_ne_none (kind : Kind) : ownership kind ≠ .none := by
  cases kind <;> exact nofun

end Ops

section Holding

variable [DecidableEq M] {m : M} {u : Guard M}

theorem holding_of_not_owns (hnot : u.owns = false) (m : M) : holding (some u) m = .none := by
  simp only [holding, hnot, Bool.false_eq_true, false_and, if_false]

theorem holding_unlocked (kind : Kind) (mp_mutex : Option M) (m : M) :
    holding (some ⟨kind, mp_mutex, false⟩) m = .none :=
  holding_of_not_owns rfl m

theorem holding_release (u : Guard M) (m : M) : holding (some u.release) m = .none :=
  holding_of_not_owns rfl m

theorem holding_locked (kind : Kind) (m m' : M) :
    holding (some ⟨kind, some m, true⟩) m' = if m' = m then ownership kind else .none := by
  simp only [holding, Guard.owns, Option.isSome_some, Bool.and_self, true_and, Option.some.injEq,
    eq_comm]

/-- The guard that gets mutex and ownership of another one holds what that held. -/
theorem holding_moved (u : Guard M) (m : M) :
    holding (some ⟨u.kind, u.mp_mutex, u.owns⟩) m = holding (some u) m := by
  obtain ⟨kind, mp_mutex, m_locked⟩ := u
  cases mp_mutex <;> cases m_locked <;> rfl

end Holding

section Tallies

variable [DecidableEq M] [DecidableEq G] [Fintype G] {s t : State M G}

/-- The owners of a mutex among the guards and among the released ownerships. -/
def tally (s : State M G) (m : M) : Tally where
  exclusive := owning s m .exclusive + s.released m .exclusive
  upgradable := owning s m .upgradable + s.released m .upgradable
  sharable := owning s m .sharable + s.released m .sharable
  lockers := 0
  promoters := 0

/-- One guard adds what it holds to the others. -/
theorem exists_tally_set (s : State M G) (g : G) (m : M) :
    ∃ n : Tally, ∀ guard, tally (s.set g guard) m = n.with_owner (holding guard m) := by
  have hcount : ∀ kind, ∃ others, ∀ guard, owning (s.set g guard) m kind =
      others + (decide (holding guard m = ownership kind)).toNat :=
    fun kind => exists_total_update
      (fun guard => (decide (holding guard m = ownership kind)).toNat) s.guards g
  obtain ⟨exclusive, hexclusive⟩ := hcount .exclusive
  obtain ⟨upgradable, hupgradable⟩ := hcount .upgradable
  obtain ⟨sharable, hsharable⟩ := hcount .sharable
  refine ⟨⟨exclusive + s.released m .exclusive, upgradable + s.released m .upgradable,
    sharable + s.released m .sharable, 0, 0⟩, ?_⟩
  intro guard
  simp only [tally, hexclusive, hupgradable, hsharable]
  cases holding guard m <;> simp [State.set, ownership, Tally.with_owner] <;> omega

theorem tally_set (s : State M G) (g : G) (guard : Option (Guard M)) (m : M) :
    ∃ n : Tally, tally s m = n.with_owner (holding (s.guards g) m) ∧
      tally (s.set g guard) m = n.with_owner (holding guard m) := by
  obtain ⟨n, hn⟩ := exists_tally_set s g m
  have hsame := hn (s.guards g)
  rw [State.set, Function.update_eq_self] at hsame
  exact ⟨n, hsame, hn guard⟩

/-- A guard that holds what the one before it held. -/
theorem tally_set_eq {g : G} {guard : Option (Guard M)} {m : M}
    (hholding : holding guard m = holding (s.guards g) m) :
    tally (s.set g guard) m = tally s m := by
  obtain ⟨n, hn, hset⟩ := tally_set s g guard m
  rw [hn, hset, hholding]

theorem Tally.with_owner_injective {n n' : Tally} {owned : Ownership}
    (h : n.with_owner owned = n'.with_owner owned) : n = n' := by
  obtain ⟨a, b, c, d, e⟩ := n
  obtain ⟨a', b', c', d', e'⟩ := n'
  cases owned <;> simpa [Tally.with_owner] using h

/-- What one guard gives up is what another one gets. -/
theorem tally_set_set {source g : G} (hne : source ≠ g) {guard : Option (Guard M)} {m : M}
    (hfree : holding (s.guards g) m = .none) (hempty : holding guard m = .none) :
    ∃ n : Tally, tally s m = n.with_owner (holding (s.guards source) m) ∧
      ∀ guard', tally ((s.set source guard).set g guard') m =
        n.with_owner (holding guard' m) := by
  obtain ⟨n, hn, hset⟩ := tally_set s source guard m
  obtain ⟨n', hn'⟩ := exists_tally_set (s.set source guard) g m
  have hsame : holding ((s.set source guard).guards g) m = .none := by
    have hother : (s.set source guard).guards g = s.guards g := Function.update_of_ne hne.symm _ _
    rw [hother, hfree]
  have hkept : tally ((s.set source guard).set g none) m = tally (s.set source guard) m :=
    tally_set_eq hsame.symm
  rw [hn', hset, hempty] at hkept
  have heq : n' = n := hkept
  exact ⟨n, hn, heq ▸ hn'⟩

/-- Swapping two guards leaves every tally. -/
theorem tally_swap (s : State M G) (g other : G) (m : M) :
    tally ((s.set g (s.guards other)).set other (s.guards g)) m = tally s m := by
  by_cases hne : g = other
  · rw [hne]
    have hsame : (s.set other (s.guards other)).set other (s.guards other) = s := by
      simp only [State.set, Function.update_eq_self]
    rw [hsame]
  · obtain ⟨n, hn, hset⟩ := tally_set s g (s.guards other) m
    obtain ⟨n', hn', hset'⟩ := tally_set (s.set g (s.guards other)) other (s.guards g) m
    have hsame : (s.set g (s.guards other)).guards other = s.guards other :=
      Function.update_of_ne (Ne.symm hne) _ _
    rw [hsame, hset] at hn'
    rw [hset', hn, Tally.with_owner_injective hn']

/-- The control words describe the owners. -/
def Inv (s : State M G) : Prop :=
  ∀ m, Consistent (s.ctrl m) (tally s m)

omit [DecidableEq G] in
theorem Inv.conserved (hinv : Inv s) : Conserved s := by
  intro m kind
  have h := hinv m
  rw [consistent_iff] at h
  simp only [tally] at h
  cases kind <;> simp only [owners] <;> omega

omit [DecidableEq G] in
theorem inv_start : Inv (start : State M G) := by
  intro m
  have hnone : ∀ kind, owning (start : State M G) m kind = 0 := by
    intro kind
    refine (total_eq_zero_iff _ _).mpr fun _ => ?_
    have hnot : decide (Ownership.none = ownership kind) = false :=
      decide_eq_false (ownership_ne_none kind).symm
    exact congrArg Bool.toNat hnot
  rw [consistent_iff]
  simp only [tally, hnone]
  simp [start]

omit [DecidableEq G] in
/-- Nothing of the mutexes has changed. -/
theorem Inv.of_eq (hinv : Inv s) (hctrl : t.ctrl = s.ctrl) (htally : ∀ m, tally t m = tally s m) :
    Inv t := by
  intro m
  rw [hctrl, htally]
  exact hinv m

omit [DecidableEq G] in
/-- One mutex was called, and the guards have what it left them. -/
theorem Inv.of_perform (hinv : Inv s) {m : M} {op : Op} {c' : control_word_t}
    (hperform : perform (s.ctrl m) op how = some (c', result))
    (hctrl : t.ctrl = Function.update s.ctrl m c')
    (hothers : ∀ m', m' ≠ m → tally t m' = tally s m')
    (hm : ∃ n : Tally, tally s m = n.with_owner op.requires ∧
      tally t m = n.with_owner (left op result)) : Inv t := by
  intro m'
  by_cases hmm : m' = m
  · obtain ⟨n, hn, hleft⟩ := hm
    rw [hmm, hctrl, Function.update_self, hleft]
    have h := hinv m
    rw [hn] at h
    exact perform_spec h hperform
  · rw [hctrl, Function.update_of_ne hmm, hothers m' hmm]
    exact hinv m'

omit [DecidableEq G] [Fintype G] in
theorem mutex_call_eq_some {m : M} {op : Op}
    (hcall : s.mutex_call m op how = some (t, result)) :
    ∃ c', perform (s.ctrl m) op how = some (c', result) ∧
      t = { s with ctrl := Function.update s.ctrl m c' } := by
  obtain ⟨⟨c', result'⟩, hperform, heq⟩ := Option.map_eq_some_iff.mp hcall
  cases heq
  exact ⟨c', hperform, rfl⟩

/-- Locking with a guard that holds nothing. -/
theorem Inv.lock_with (hinv : Inv s) {g : G} (hfree : ∀ m, holding (s.guards g) m = .none) {m : M}
    {locking : Locking} {report : Report M}
    (hlock : s.lock_with g kind m locking how = some (t, report)) : Inv t := by
  obtain ⟨⟨s', result⟩, hcall, heq⟩ := Option.map_eq_some_iff.mp hlock
  obtain ⟨c', hperform, rfl⟩ := mutex_call_eq_some hcall
  obtain ⟨n, hn⟩ := exists_tally_set s g m
  have hn' : tally s m = n.with_owner (locking.op kind).requires := by
    have hempty : tally (s.set g none) m = tally s m := tally_set_eq (hfree m).symm
    rw [locking.op_requires, ← hempty]
    exact hn none
  cases result with
  | acquired =>
    cases heq
    refine hinv.of_perform hperform rfl ?_ ⟨n, hn', ?_⟩
    · intro m' hne
      refine tally_set_eq ?_
      rw [holding_locked, if_neg hne]
      exact (hfree m').symm
    · rw [left, if_pos rfl, locking.op_grants]
      refine (hn _).trans ?_
      rw [holding_locked, if_pos rfl]
  | failed =>
    cases heq
    have hsame : ∀ m', tally (s.set g (some ⟨kind, some m, false⟩)) m' = tally s m' := by
      intro m'
      refine tally_set_eq ?_
      rw [holding_unlocked, hfree m']
    exact hinv.of_perform hperform rfl (fun m' _ => hsame m') ⟨n, hn', (hsame m).trans hn'⟩
  | thrown =>
    cases heq
    exact hinv.of_perform hperform rfl (fun _ _ => rfl) ⟨n, hn', hn'⟩

/-- A guard that is locked holds its mutex. -/
theorem holding_of_owns {u : Guard M} {m : M} (hlocked : u.m_locked = true)
    (hmutex : u.mp_mutex = some m) (m' : M) :
    holding (some u) m' = if m' = m then ownership u.kind else .none := by
  obtain ⟨kind, mp_mutex, m_locked⟩ := u
  cases hlocked
  cases hmutex
  exact holding_locked kind m m'

/-- Unlocking gives up what the guard holds. -/
theorem Inv.unlock (hinv : Inv s) {g : G} {report : Report M}
    (hunlock : s.unlock g = some (t, report)) : Inv t := by
  unfold State.unlock at hunlock
  split at hunlock
  · cases hunlock
  · rename_i u hu
    split at hunlock
    · rename_i m hlocked hmutex
      obtain ⟨⟨s', result⟩, hcall, heq⟩ := Option.map_eq_some_iff.mp hunlock
      cases heq
      obtain ⟨c', hperform, rfl⟩ := mutex_call_eq_some hcall
      obtain ⟨c₁, hacquired⟩ := perform_unlock (s.ctrl m) u.kind .woken
      rw [hperform] at hacquired
      cases hacquired
      obtain ⟨n, hn, hset⟩ := tally_set s g (some { u with m_locked := false }) m
      refine hinv.of_perform hperform rfl ?_ ⟨n, ?_, ?_⟩
      · intro m' hne
        refine tally_set_eq ?_
        rw [holding_unlocked]
        refine Eq.symm ((congrArg (holding · m') hu).trans ?_)
        rw [holding_of_owns hlocked hmutex, if_neg hne]
      · rw [hn, hu, holding_of_owns hlocked hmutex, if_pos rfl, unlock_op_requires]
      · rw [left, if_pos rfl, unlock_op_grants]
        refine hset.trans ?_
        rw [holding_unlocked]
    · cases hunlock
      exact hinv

end Tallies

end interprocess.lock_guards
