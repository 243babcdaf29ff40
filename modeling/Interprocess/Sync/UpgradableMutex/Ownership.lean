import Interprocess.Base.Count
import Interprocess.Base.Transition
import Interprocess.Sync.UpgradableMutex.ControlWord

open Count Transition

namespace interprocess.interprocess_upgradable_mutex

/-- A thread between calls owns what its last call left it; a waiting one owns
    nothing and remembers what it had when its call began. -/
structure Thread.WellFormed (th : Thread) : Prop where
  waiting : th.place ≠ .idle → th.owned = .none
  locking : ∀ kind timed, th.place = .first_gate kind timed → th.before = .none
  claiming : ∀ rollback timed, th.place = .second_gate rollback timed →
    th.before = rollback.restores
  unchanged : th.place = .idle → th.result = some .failed ∨ th.result = some .thrown →
    th.owned = th.before

theorem Thread.WellFormed.advance_done {th : Thread} {owned : Ownership} {result : Result}
    (hkept : result ≠ .acquired → owned = th.before) :
    (th.advance (.done owned result)).WellFormed := by
  refine ⟨fun hplace => absurd rfl hplace, ?_, ?_, ?_⟩
  · intro _ _ hplace
    cases hplace
  · intro _ _ hplace
    cases hplace
  · intro _ hresult
    apply hkept
    rintro rfl
    rcases hresult with hresult | hresult <;> cases hresult

theorem Thread.WellFormed.advance_first_gate {th : Thread} (kind : Kind) (timed : Bool)
    (hbefore : th.before = .none) : (th.advance (.wait (.first_gate kind timed))).WellFormed := by
  refine ⟨fun _ => rfl, fun _ _ _ => hbefore, ?_, ?_⟩
  · intro _ _ hplace
    cases hplace
  · intro hplace
    cases hplace

theorem Thread.WellFormed.pass_second_gate {th : Thread} (c : control_word_t) {rollback : Rollback}
    (timed : Bool) (hbefore : th.before = rollback.restores) :
    (th.advance (pass_second_gate c rollback timed).2).WellFormed := by
  unfold interprocess_upgradable_mutex.pass_second_gate
  split_ifs
  · refine ⟨fun _ => rfl, ?_, ?_, ?_⟩
    · intro _ _ hplace
      cases hplace
    · intro _ _ hplace
      cases hplace
      exact hbefore
    · intro hplace
      cases hplace
  · exact advance_done fun hresult => absurd rfl hresult

theorem Thread.WellFormed.pass_first_gate {th : Thread} (c : control_word_t) (kind : Kind)
    (timed : Bool) (hbefore : th.before = .none) :
    (th.advance (pass_first_gate c timed kind).2).WellFormed := by
  cases kind with
  | exclusive => exact Thread.WellFormed.pass_second_gate _ timed hbefore
  | upgradable => exact advance_done fun hresult => absurd rfl hresult
  | sharable => exact advance_done fun hresult => absurd rfl hresult

theorem Thread.WellFormed.lock_kind {th : Thread} (c : control_word_t) (kind : Kind) (timed : Bool)
    (hbefore : th.before = .none) : (th.advance (lock_kind c kind timed).2).WellFormed := by
  unfold interprocess_upgradable_mutex.lock_kind
  split_ifs
  · exact advance_first_gate kind timed hbefore
  · exact Thread.WellFormed.pass_first_gate c kind timed hbefore

theorem Thread.WellFormed.try_kind {th : Thread} (c : control_word_t) (kind : Kind)
    (hbefore : th.before = .none) : (th.advance (try_kind c kind).2).WellFormed := by
  unfold interprocess_upgradable_mutex.try_kind
  split_ifs
  · exact advance_done fun _ => hbefore.symm
  · exact Thread.WellFormed.pass_first_gate c kind false hbefore

/-- A failed first section leaves its caller the ownership it had. -/
theorem Thread.WellFormed.enter {th : Thread} (c : control_word_t) {op : Op}
    (hbefore : th.before = op.requires) : (th.advance (op.enter c).2).WellFormed := by
  cases op with
  | lock => exact Thread.WellFormed.lock_kind c .exclusive false hbefore
  | timed_lock => exact Thread.WellFormed.lock_kind c .exclusive true hbefore
  | lock_upgradable => exact Thread.WellFormed.lock_kind c .upgradable false hbefore
  | timed_lock_upgradable => exact Thread.WellFormed.lock_kind c .upgradable true hbefore
  | try_lock_upgradable => exact Thread.WellFormed.try_kind c .upgradable hbefore
  | lock_sharable => exact Thread.WellFormed.lock_kind c .sharable false hbefore
  | timed_lock_sharable => exact Thread.WellFormed.lock_kind c .sharable true hbefore
  | try_lock_sharable => exact Thread.WellFormed.try_kind c .sharable hbefore
  | unlock_upgradable_and_lock => exact Thread.WellFormed.pass_second_gate _ false hbefore
  | timed_unlock_upgradable_and_lock => exact Thread.WellFormed.pass_second_gate _ true hbefore
  | try_lock =>
    simp only [Op.enter, try_lock]
    split_ifs
    · exact advance_done fun _ => hbefore.symm
    · exact advance_done fun hresult => absurd rfl hresult
  | try_unlock_upgradable_and_lock =>
    simp only [Op.enter, try_unlock_upgradable_and_lock]
    split_ifs
    · exact advance_done fun _ => hbefore.symm
    · exact advance_done fun hresult => absurd rfl hresult
  | try_unlock_sharable_and_lock =>
    simp only [Op.enter, try_unlock_sharable_and_lock]
    split_ifs
    · exact advance_done fun _ => hbefore.symm
    · exact advance_done fun hresult => absurd rfl hresult
  | try_unlock_sharable_and_lock_upgradable =>
    simp only [Op.enter, try_unlock_sharable_and_lock_upgradable]
    split_ifs
    · exact advance_done fun _ => hbefore.symm
    · exact advance_done fun hresult => absurd rfl hresult
  | unlock | unlock_upgradable | unlock_sharable | unlock_and_lock_upgradable
  | unlock_and_lock_sharable | unlock_upgradable_and_lock_sharable =>
    exact advance_done fun hresult => absurd rfl hresult

theorem Thread.WellFormed.after_first_gate {th : Thread} (c : control_word_t) (kind : Kind)
    (timed : Bool) (how : WaitEnd) (hbefore : th.before = .none) :
    (th.advance (after_first_gate c kind timed how).2).WellFormed := by
  cases how with
  | woken => exact Thread.WellFormed.lock_kind c kind timed hbefore
  | timed_out =>
    simp only [interprocess_upgradable_mutex.after_first_gate]
    split_ifs
    · exact advance_done fun _ => hbefore.symm
    · exact Thread.WellFormed.pass_first_gate c kind timed hbefore
  | thrown => exact advance_done fun _ => hbefore.symm

theorem Thread.WellFormed.after_second_gate {th : Thread} (c : control_word_t) {rollback : Rollback}
    (timed : Bool) (how : WaitEnd) (hbefore : th.before = rollback.restores) :
    (th.advance (after_second_gate c rollback timed how).2).WellFormed := by
  cases how with
  | woken => exact Thread.WellFormed.pass_second_gate c timed hbefore
  | timed_out =>
    simp only [interprocess_upgradable_mutex.after_second_gate]
    split_ifs
    · exact advance_done fun _ => hbefore.symm
    · exact advance_done fun hresult => absurd rfl hresult
  | thrown => exact advance_done fun _ => hbefore.symm

section Runs

variable {τ : Type} [Fintype τ]

/-- The tally of all threads. -/
def tally (threads : τ → Thread) : Tally where
  exclusive := count (Thread.owns .exclusive) threads
  upgradable := count (Thread.owns .upgradable) threads
  sharable := count (Thread.owns .sharable) threads
  lockers := count (Thread.claims .exclusive_rollback) threads
  promoters := count (Thread.claims .upgradable_to_exclusive_rollback) threads

theorem exists_tally_update [DecidableEq τ] (threads : τ → Thread) (t : τ) :
    ∃ n : Tally, tally threads = n.add (threads t) ∧
      ∀ th, tally (Function.update threads t th) = n.add th := by
  obtain ⟨exclusive, hexclusive⟩ := exists_total_update (fun th => (Thread.owns .exclusive th).toNat) threads t
  obtain ⟨upgradable, hupgradable⟩ := exists_total_update (fun th => (Thread.owns .upgradable th).toNat) threads t
  obtain ⟨sharable, hsharable⟩ := exists_total_update (fun th => (Thread.owns .sharable th).toNat) threads t
  obtain ⟨lockers, hlockers⟩ :=
    exists_total_update (fun th => (Thread.claims .exclusive_rollback th).toNat) threads t
  obtain ⟨promoters, hpromoters⟩ :=
    exists_total_update (fun th => (Thread.claims .upgradable_to_exclusive_rollback th).toNat) threads t
  have hupdate : ∀ th, tally (Function.update threads t th) =
      Tally.add ⟨exclusive, upgradable, sharable, lockers, promoters⟩ th := by
    intro th
    simp only [tally, count, Tally.add, hexclusive, hupgradable, hsharable, hlockers, hpromoters]
  refine ⟨_, ?_, hupdate⟩
  have hsame := hupdate (threads t)
  rwa [Function.update_eq_self] at hsame

structure Inv (s : State τ) : Prop where
  consistent : Consistent s.m_ctrl (tally s.threads)
  well_formed : ∀ t, (s.threads t).WellFormed

variable [DecidableEq τ]

/-- A section keeps the invariant when it keeps the control word consistent for
    the other threads and its own thread well formed. -/
theorem Inv.advance {s : State τ} (hinv : Inv s) {t : τ} {c : control_word_t} {th : Thread}
    (hconsistent : ∀ n : Tally, Consistent s.m_ctrl (n.add (s.threads t)) → Consistent c (n.add th))
    (hformed : th.WellFormed) : Inv { m_ctrl := c, threads := Function.update s.threads t th } := by
  obtain ⟨n, htally, hupdate⟩ := exists_tally_update s.threads t
  refine ⟨?_, ?_⟩
  · change Consistent c (tally (Function.update s.threads t th))
    rw [hupdate th]
    apply hconsistent
    rw [← htally]
    exact hinv.consistent
  · intro u
    change (Function.update s.threads t th u).WellFormed
    by_cases hu : u = t
    · rw [hu, Function.update_self]
      exact hformed
    · rw [Function.update_of_ne hu]
      exact hinv.well_formed u

theorem Tally.add_at_first_gate {n : Tally} {th : Thread} {kind : Kind} {timed : Bool}
    (hplace : th.place = .first_gate kind timed) (howned : th.owned = .none) : n.add th = n := by
  simp [Tally.add, Thread.owns, Thread.claims, hplace, howned]

theorem Tally.add_at_second_gate {n : Tally} {th : Thread} {rollback : Rollback} {timed : Bool}
    (hplace : th.place = .second_gate rollback timed) (howned : th.owned = .none) :
    n.add th = n.with_claimant rollback := by
  cases rollback <;> simp [Tally.add, Thread.owns, Thread.claims, hplace, howned, Tally.with_claimant]

theorem Inv.step {s s' : State τ} (hinv : Inv s) {a : Label τ} (hstep : step s a = some s') :
    Inv s' := by
  cases a with
  | call t op mutex_locked =>
    simp only [interprocess_upgradable_mutex.step] at hstep
    split_ifs at hstep with hcall hlocked
    · cases hstep
      refine hinv.advance ?_ (Thread.WellFormed.enter s.m_ctrl hcall.2)
      intro n hbefore
      rw [n.add_idle hcall.1, hcall.2] at hbefore
      exact hbefore.enter _
    · cases hstep
      refine hinv.advance ?_ (Thread.WellFormed.advance_done fun _ => rfl)
      intro n hbefore
      rw [n.add_idle hcall.1] at hbefore
      rw [n.add_done]
      exact hbefore
  | wait_end t how =>
    simp only [interprocess_upgradable_mutex.step] at hstep
    have hformed := hinv.well_formed t
    cases hplace : (s.threads t).place with
    | idle => simp [hplace] at hstep
    | first_gate kind timed =>
      simp only [hplace] at hstep
      split_ifs at hstep
      cases hstep
      have hnone : (s.threads t).owned = .none := hformed.waiting (by simp [hplace])
      have hbegan := hformed.locking kind timed hplace
      refine hinv.advance ?_ (Thread.WellFormed.after_first_gate _ kind timed how hbegan)
      intro n hbefore
      rw [Tally.add_at_first_gate hplace hnone] at hbefore
      exact hbefore.after_first_gate _ kind timed how
    | second_gate rollback timed =>
      simp only [hplace] at hstep
      split_ifs at hstep
      cases hstep
      have hnone : (s.threads t).owned = .none := hformed.waiting (by simp [hplace])
      have hbegan := hformed.claiming rollback timed hplace
      refine hinv.advance ?_ (Thread.WellFormed.after_second_gate _ timed how hbegan)
      intro n hbefore
      rw [Tally.add_at_second_gate hplace hnone] at hbefore
      exact hbefore.after_second_gate _ timed how

omit [DecidableEq τ] in
theorem start_inv : Inv (start : State τ) := by
  have hnobody : ∀ P : Thread → Bool, P Thread.outside = false →
      count P (fun _ : τ => Thread.outside) = 0 := by
    intro P hP
    simp [count, total_eq_zero_iff, hP]
  refine ⟨?_, ?_⟩
  · have htally : tally (start : State τ).threads = ⟨0, 0, 0, 0, 0⟩ := by
      simp only [tally, start]
      rw [hnobody (Thread.owns .exclusive) rfl, hnobody (Thread.owns .upgradable) rfl,
        hnobody (Thread.owns .sharable) rfl, hnobody (Thread.claims .exclusive_rollback) rfl,
        hnobody (Thread.claims .upgradable_to_exclusive_rollback) rfl]
    rw [htally]
    exact ⟨rfl, Nat.zero_le _, rfl, rfl, fun _ => rfl, fun _ => rfl⟩
  · intro t
    refine ⟨fun _ => rfl, ?_, ?_, ?_⟩
    · intro _ _ hplace
      cases hplace
    · intro _ _ hplace
      cases hplace
    · intro _ hresult
      rcases hresult with hresult | hresult <;> cases hresult

/-- In every state of every interleaving the owners exclude each other as they
    must, the control word describes them, and a call that failed or threw left
    its caller the ownership it had. -/
theorem ownership_safety (s : State τ) (hreach : Reachable step start s) :
    (∀ t u, (s.threads t).owned = .exclusive → u ≠ t → (s.threads u).owned = .none) ∧
      (∀ t u, (s.threads t).owned = .upgradable → (s.threads u).owned = .upgradable → t = u) ∧
      s.m_ctrl.num_upr_shar = count (Thread.owns .sharable) s.threads +
        count (Thread.owns .upgradable) s.threads ∧
      s.m_ctrl.num_upr_shar ≤ max_readers ∧
      s.m_ctrl.exclusive_in.toNat = count (Thread.owns .exclusive) s.threads +
        (count (Thread.claims .exclusive_rollback) s.threads +
          count (Thread.claims .upgradable_to_exclusive_rollback) s.threads) ∧
      s.m_ctrl.upgradable_in.toNat = count (Thread.owns .upgradable) s.threads ∧
      (∀ t, (s.threads t).place = .idle →
        (s.threads t).result = some .failed ∨ (s.threads t).result = some .thrown →
        (s.threads t).owned = (s.threads t).before) := by
  have hinv : Inv s := hreach.invariant start_inv fun _ _ _ hbefore _ hstep => hbefore.step hstep
  obtain ⟨hreaders, hbounded, hexclusive, hupgradable, halone, hclaimed⟩ := hinv.consistent
  simp only [tally] at hreaders hbounded hexclusive hupgradable halone
  have hex := Bool.toNat_le s.m_ctrl.exclusive_in
  have hup := Bool.toNat_le s.m_ctrl.upgradable_in
  refine ⟨?_, ?_, hreaders, by omega, by omega, hupgradable, fun t => (hinv.well_formed t).unchanged⟩
  · intro t u ht hne
    have htowns : Thread.owns .exclusive (s.threads t) = true := decide_eq_true ht
    have hpos := (count_pos_iff (Thread.owns .exclusive) s.threads).mpr ⟨t, htowns⟩
    have hnone := halone hpos
    cases hu : (s.threads u).owned with
    | none => rfl
    | exclusive =>
      have hle : count (Thread.owns .exclusive) s.threads ≤ 1 := by omega
      exact absurd (eq_of_count_le_one hle (decide_eq_true hu) htowns) hne
    | upgradable =>
      have := (count_pos_iff (Thread.owns .upgradable) s.threads).mpr ⟨u, decide_eq_true hu⟩
      omega
    | sharable =>
      have := (count_pos_iff (Thread.owns .sharable) s.threads).mpr ⟨u, decide_eq_true hu⟩
      omega
  · intro t u ht hu
    have hle : count (Thread.owns .upgradable) s.threads ≤ 1 := by omega
    exact eq_of_count_le_one hle (decide_eq_true ht) (decide_eq_true hu)

/-- A timed promotion that gives up while a reader remains. -/
theorem ownership_safety_of_timed_out_promotion :
    ∃ s : State (Fin 2), Reachable step start s ∧ (s.threads 0).result = some .failed ∧
      (s.threads 0).before = .upgradable ∧ (s.threads 0).owned = (s.threads 0).before := by
  obtain ⟨s, hreach, hs⟩ := exists_reachable_of_replay step start
    [.call (0 : Fin 2) .lock_upgradable true, .call 1 .lock_sharable true,
      .call 0 .timed_unlock_upgradable_and_lock true, .wait_end 0 .timed_out]
    (fun s => (s.threads 0).place = .idle ∧ (s.threads 0).result = some .failed ∧
      (s.threads 0).before = .upgradable) (by decide)
  obtain ⟨hidle, hresult, hbefore⟩ := of_decide_eq_true hs
  exact ⟨s, hreach, hresult, hbefore,
    (ownership_safety s hreach).2.2.2.2.2.2 0 hidle (Or.inl hresult)⟩

end Runs

end interprocess.interprocess_upgradable_mutex
