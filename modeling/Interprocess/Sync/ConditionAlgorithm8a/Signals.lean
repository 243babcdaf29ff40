import Interprocess.Base.Count
import Interprocess.Base.Transition
import Interprocess.Sync.ConditionAlgorithm8a.Balance

open Count Transition

namespace interprocess.ipcdetail.condition_algorithm_8a

section Serving

variable {I : IntegerType} {card : Nat} {d : ConditionMembers} {n : Tally} {broadcast : Bool}

end Serving

section Runs

variable {τ : Type} [Fintype τ]

def tally (pc : τ → Pc) : Tally where
  mutex := total (fun p => p.tally.mutex) pc
  gate := total (fun p => p.tally.gate) pc
  waiting := total (fun p => p.tally.waiting) pc
  permitted := total (fun p => p.tally.permitted) pc
  expired := total (fun p => p.tally.expired) pc
  closers := total (fun p => p.tally.closers) pc
  adjusters := total (fun p => p.tally.adjusters) pc
  stale := total (fun p => p.tally.stale) pc
  finals := total (fun p => p.tally.finals) pc
  pending := total (fun p => p.tally.pending) pc
  drains := total (fun p => p.tally.drains) pc

/-- What one thread can add. -/
theorem tally_sane_of_one (p : Pc) :
    p.tally.closers + p.tally.adjusters + p.tally.stale ≤ p.tally.mutex ∧
      p.tally.finals ≤ p.tally.gate ∧ (p.tally.finals = 0 → p.tally.drains = 0) ∧
      p.tally.waiting + p.tally.permitted + p.tally.expired ≤ 1 := by
  cases p with
  | awake bTimedOut => cases bTimedOut <;> decide
  | unblocking bTimedOut => cases bTimedOut <;> decide
  | unlocking nsignals_was_left nwaiters_was_gone bTimedOut =>
    simp only [Pc.tally]
    split_ifs <;> simp [Tally.none]
  | issued nsignals_to_issue => cases nsignals_to_issue <;> simp [Pc.tally, Tally.none]
  | _ => simp [Pc.tally, Tally.none]

theorem tally_sane (pc : τ → Pc) : (tally pc).Sane (Fintype.card τ) where
  mutex := by
    simp only [tally]
    rw [← total_add, ← total_add]
    exact total_le_total (fun p => (tally_sane_of_one p).1) pc
  gate := total_le_total (fun p => (tally_sane_of_one p).2.1) pc
  drains := by
    simp only [tally, total_eq_zero_iff]
    intro hfinals t
    exact (tally_sane_of_one (pc t)).2.2.1 (hfinals t)
  waiters := by
    simp only [Tally.waiters, tally]
    rw [← total_add, ← total_add, ← total_one pc]
    exact total_le_total (fun p => (tally_sane_of_one p).2.2.2) pc

/-- The condition on each step: a time-out is not counted while some waiters have
    been given permits and others have not. -/
def KeepsBalance {τ : Type} (s : State τ) : Label τ → Prop
  | .next t => (s.pc t).KeepsBalance s.data
  | _ => True

instance {τ : Type} (s : State τ) (a : Label τ) : Decidable (KeepsBalance s a) :=
  match a with
  | .next t => inferInstanceAs (Decidable (s.pc t = .unblocking true →
      s.data.nwaiters_to_unblock = 0 ∨ s.data.nwaiters_blocked = 0))
  | .wait _ _ | .signal _ _ | .time_out _ => inferInstanceAs (Decidable True)

structure Inv (I : IntegerType) (s : State τ) : Prop where
  balanced : Balanced I (Fintype.card τ) s.data (tally s.pc)
  sensible : ∀ t, (s.pc t).Sensible

variable {I : IntegerType} [DecidableEq τ]

/-- The threads other than one have a tally to which that one adds. -/
theorem exists_tally_update (pc : τ → Pc) (t : τ) :
    ∃ n : Tally, n.Sane (Fintype.card τ) ∧ tally pc = n.add (pc t) ∧
      ∀ p, tally (Function.update pc t p) = n.add p := by
  obtain ⟨mutex, hmutex⟩ := exists_total_update (fun p : Pc => p.tally.mutex) pc t
  obtain ⟨gate, hgate⟩ := exists_total_update (fun p : Pc => p.tally.gate) pc t
  obtain ⟨waiting, hwaiting⟩ := exists_total_update (fun p : Pc => p.tally.waiting) pc t
  obtain ⟨permitted, hpermitted⟩ := exists_total_update (fun p : Pc => p.tally.permitted) pc t
  obtain ⟨expired, hexpired⟩ := exists_total_update (fun p : Pc => p.tally.expired) pc t
  obtain ⟨closers, hclosers⟩ := exists_total_update (fun p : Pc => p.tally.closers) pc t
  obtain ⟨adjusters, hadjusters⟩ := exists_total_update (fun p : Pc => p.tally.adjusters) pc t
  obtain ⟨stale, hstale⟩ := exists_total_update (fun p : Pc => p.tally.stale) pc t
  obtain ⟨finals, hfinals⟩ := exists_total_update (fun p : Pc => p.tally.finals) pc t
  obtain ⟨pending, hpending⟩ := exists_total_update (fun p : Pc => p.tally.pending) pc t
  obtain ⟨drains, hdrains⟩ := exists_total_update (fun p : Pc => p.tally.drains) pc t
  have hupdate : ∀ p, tally (Function.update pc t p) = Tally.add ⟨mutex, gate, waiting, permitted,
      expired, closers, adjusters, stale, finals, pending, drains⟩ p := by
    intro p
    simp only [tally, hmutex, hgate, hwaiting, hpermitted, hexpired, hclosers, hadjusters, hstale,
      hfinals, hpending, hdrains]
    rfl
  refine ⟨_, ?_, ?_, hupdate⟩
  · have hidle := tally_sane (Function.update pc t (.idle none))
    rwa [hupdate] at hidle
  · have hsame := hupdate (pc t)
    rwa [Function.update_eq_self] at hsame

/-- A thread moves on and leaves the balance as it was. -/
theorem Inv.advance {s : State τ} (hinv : Inv I s) {t : τ} {d : ConditionMembers} {p : Pc}
    (hkeeps : ∀ n : Tally, n.Sane (Fintype.card τ) →
      Balanced I (Fintype.card τ) s.data (n.add (s.pc t)) → Balanced I (Fintype.card τ) d (n.add p))
    (hsensible : p.Sensible) : Inv I { data := d, pc := Function.update s.pc t p } := by
  obtain ⟨n, hn, htally, hupdate⟩ := exists_tally_update s.pc t
  refine ⟨?_, ?_⟩
  · have hbefore := hinv.balanced
    rw [htally] at hbefore
    simp only [hupdate]
    exact hkeeps n hn hbefore
  · intro u
    by_cases hu : u = t
    · simp only [hu, Function.update_self]
      exact hsensible
    · simp only [Function.update_of_ne hu]
      exact hinv.sensible u

theorem Inv.step {s s' : State τ} (hinv : Inv I s) {a : Label τ} (hkept : KeepsBalance s a)
    (hstep : step I s a = some s') : Inv I s' := by
  cases a with
  | wait t timed =>
    simp only [condition_algorithm_8a.step] at hstep
    split at hstep
    · rename_i result hpc
      cases hstep
      refine hinv.advance ?_ trivial
      intro n _ hbefore
      rw [hpc] at hbefore
      exact hbefore
    · cases hstep
  | signal t broadcast =>
    simp only [condition_algorithm_8a.step] at hstep
    split at hstep
    · rename_i result hpc
      cases hstep
      refine hinv.advance ?_ trivial
      intro n _ hbefore
      rw [hpc] at hbefore
      exact hbefore
    · cases hstep
  | next t =>
    simp only [condition_algorithm_8a.step, Option.map_eq_some_iff] at hstep
    obtain ⟨⟨d, p⟩, hoperate, hs'⟩ := hstep
    subst hs'
    obtain ⟨n, hn, htally, -⟩ := exists_tally_update s.pc t
    have hbefore := hinv.balanced
    rw [htally] at hbefore
    refine hinv.advance ?_ (hbefore.operate hn (hinv.sensible t) hkept hoperate).2
    intro n hn hbefore
    exact (hbefore.operate hn (hinv.sensible t) hkept hoperate).1
  | time_out t =>
    simp only [condition_algorithm_8a.step] at hstep
    split at hstep
    · rename_i hpc
      cases hstep
      refine hinv.advance ?_ trivial
      intro n _ hbefore
      rw [hpc] at hbefore
      exact hbefore.wake.2
    · cases hstep

omit [DecidableEq τ] in
theorem start_inv : Inv I (start : State τ) := by
  have hnone : ∀ weight : Pc → Nat, weight (.idle none) = 0 →
      total weight (fun _ : τ => Pc.idle none) = 0 := by
    intro weight hidle
    exact (total_eq_zero_iff _ _).mpr fun _ => hidle
  have htally : tally (start : State τ).pc = Tally.none := by
    simp only [tally, start, Tally.none, Tally.mk.injEq]
    and_intros <;> exact hnone _ rfl
  have hlimit := I.half_pos
  refine ⟨⟨?_, Int.le_refl 0, Int.le_refl 0, Or.inl ?_⟩, fun _ => trivial⟩
  · rw [htally]
    rfl
  · rw [htally]
    exact ⟨rfl, rfl, rfl, fun _ => rfl, by simp [Tally.none], by simp [Tally.none], by simp [Tally.none],
      Int.le_of_lt hlimit, fun _ => hlimit⟩

/-- Sleeping in the block queue. -/
def Pc.sleeps : Pc → Bool
  | .queued _ => true
  | _ => false

def Pc.outside : Pc → Bool
  | .idle _ => true
  | _ => false

/-- No thread is in the algorithm but those that sleep in the block queue. -/
def Quiescent {τ : Type} (s : State τ) : Prop :=
  ∀ t, (s.pc t).outside = true ∨ (s.pc t).sleeps = true

instance (s : State τ) : Decidable (Quiescent s) :=
  inferInstanceAs (Decidable (∀ t, (s.pc t).outside = true ∨ (s.pc t).sleeps = true))

omit [DecidableEq τ] in
/-- The tally when only sleepers are in the algorithm. -/
theorem Quiescent.tally {s : State τ} (hquiet : Quiescent s) :
    (tally s.pc).gate = 0 ∧ (tally s.pc).stale = 0 ∧ (tally s.pc).waiters = count Pc.sleeps s.pc := by
  have hweight : ∀ t, (s.pc t).tally.gate = 0 ∧ (s.pc t).tally.stale = 0 ∧ (s.pc t).tally.permitted = 0 ∧
      (s.pc t).tally.expired = 0 ∧ (s.pc t).tally.waiting = (s.pc t).sleeps.toNat := by
    intro t
    have hrests := hquiet t
    cases hpc : s.pc t with
    | idle _ | queued _ => exact ⟨rfl, rfl, rfl, rfl, rfl⟩
    | _ =>
      rw [hpc] at hrests
      rcases hrests with hrests | hrests <;> cases hrests
  refine ⟨(total_eq_zero_iff _ _).mpr fun t => (hweight t).1,
    (total_eq_zero_iff _ _).mpr fun t => (hweight t).2.1, ?_⟩
  have hpermitted : (condition_algorithm_8a.tally s.pc).permitted = 0 :=
    (total_eq_zero_iff _ _).mpr fun t => (hweight t).2.2.1
  have hexpired : (condition_algorithm_8a.tally s.pc).expired = 0 :=
    (total_eq_zero_iff _ _).mpr fun t => (hweight t).2.2.2.1
  have hwaiting : (condition_algorithm_8a.tally s.pc).waiting = count Pc.sleeps s.pc :=
    Finset.sum_congr rfl fun t _ => (hweight t).2.2.2.2
  simp only [Tally.waiters, hpermitted, hexpired, hwaiting, Nat.add_zero]

end Runs

end interprocess.ipcdetail.condition_algorithm_8a
