import Interprocess.Sync.SpinCondition.Invariant

open Count

namespace interprocess.ipcdetail.spin_condition

variable {τ : Type} [Fintype τ]

/-- The registered threads, which `m_num_waiters` has to count in 32 bits. -/
def num_registered (s : State τ) : Nat :=
  count (fun th => th.pc.registered) s.threads

/-- The condition on each step: a thread registers only when `m_num_waiters` can
    count it. -/
def RoomForWaiter (s : State τ) : Label τ → Prop
  | .next t => ∀ timed, s.pc t = .registering timed → num_registered s + 1 < 2 ^ 32
  | _ => True

instance (s : State τ) (a : Label τ) : Decidable (RoomForWaiter s a) :=
  match a with
  | .next t =>
    inferInstanceAs (Decidable (∀ timed, s.pc t = .registering timed → num_registered s + 1 < 2 ^ 32))
  | .wait _ _ | .notify_one _ | .notify_all _ | .expire _ => inferInstanceAs (Decidable True)

variable [DecidableEq τ]

/-- A thread without a part in the tenure moves on. -/
theorem Inv.move {s : State τ} (hinv : Inv s) {t : τ} {th : Thread} (ht : (s.pc t).Neutral)
    (hp : th.pc.Neutral) (hregistered : th.pc.registered = (s.pc t).registered)
    (hformed : th.WellFormed) : Inv { s with threads := Function.update s.threads t th } :=
  hinv.advance rfl (by rw [hregistered]) hinv.bounded hformed (hinv.situation.move ht hp hregistered)

/-- A thread locks the free mutex. -/
theorem Inv.acquire {s : State τ} (hinv : Inv s) {t : τ} {p : Pc} {reason : Reason τ}
    (hfree : s.m_enter_mut = false) (hholds : p.holds = true) (hlast : p ≠ .last_notified)
    (hregistered : p.registered = (s.pc t).registered)
    (hformed : Thread.WellFormed { s.threads t with pc := p })
    (hheld : Tenure.HeldBy (fun u => (s.pc u).registered) t
      { reason := reason, registered := {u | (s.pc u).registered = true}, released := [],
        unlocked_by := [] } p) :
    Inv ((s.lock_enter_mut reason).goto t p) := by
  have hsituation := hinv.situation
  rw [hfree] at hsituation
  exact hinv.advance rfl (by rw [hregistered]; rfl) hinv.bounded hformed
    (hsituation.acquire hholds hlast hregistered hheld)

/-- A thread goes on to its next operation after it touched shared data. -/
theorem Inv.advance_goto {s s' : State τ} (hinv : Inv s) {t : τ} {p : Pc}
    (hthreads : s'.threads = s.threads)
    (hwaiters : s'.m_num_waiters + (s.pc t).registered.toNat = s.m_num_waiters + p.registered.toNat)
    (hbounded : s'.m_num_waiters < 2 ^ 32) (hformed : Thread.WellFormed { s.threads t with pc := p })
    (hsituation : Situation s'.m_enter_mut s'.m_command (Function.update s.pc t p) s'.tenures) :
    Inv (s'.goto t p) := by
  have hgoto : (s'.goto t p).threads = Function.update s.threads t { s.threads t with pc := p } := by
    simp only [State.goto, hthreads]
  exact hinv.advance hgoto hwaiters hbounded hformed hsituation

theorem Inv.registering {s : State τ} (hinv : Inv s) {t : τ} {timed : Bool}
    (ht : s.pc t = .registering timed) (hroom : num_registered s + 1 < 2 ^ 32) :
    Inv ({ s with m_num_waiters := atomic_inc32 s.m_num_waiters }.goto t (.unlocking_mut timed)) := by
  have hinc : atomic_inc32 s.m_num_waiters = s.m_num_waiters + 1 := by
    rw [num_registered, ← hinv.waiters] at hroom
    exact if_neg (by omega)
  have hholds : (s.pc t).holds = true := by
    rw [ht]
    rfl
  have hcommand := (hinv.situation.of_holds hholds).2.1
  rw [ht] at hcommand
  have htaken := hinv.formed t
  simp only [State.pc] at ht
  simp only [Thread.WellFormed, ht] at htaken
  refine hinv.advance rfl ?_ ?_ htaken ?_
  · simp only [State.goto, State.pc, ht, hinc]
    rfl
  · rw [num_registered, ← hinv.waiters] at hroom
    simp only [State.goto, hinc]
    exact hroom
  · refine hinv.situation.hold_quietly hholds rfl hcommand ?_
    intro n hheld
    simp only [State.pc, ht] at hheld
    exact hheld

/-- The thread that holds the mutex goes on without touching anything shared. -/
theorem Inv.hold {s : State τ} (hinv : Inv s) {t : τ} {p : Pc} (ht : (s.pc t).holds = true)
    (hp : p.holds = true) (hfirst : s.pc t ≠ .last_notified) (hlast : p ≠ .last_notified)
    (hregistered : p.registered = (s.pc t).registered)
    (hformed : Thread.WellFormed { s.threads t with pc := p })
    (hheld : ∀ n : Tenure τ, n.HeldBy (fun u => (s.pc u).registered) t (s.pc t) →
      n.HeldBy (fun u => (s.pc u).registered) t p) : Inv (s.goto t p) := by
  have hcommand := (hinv.situation.of_holds ht).2.1
  rw [if_neg hfirst] at hcommand
  refine hinv.advance rfl (by rw [hregistered]; rfl) hinv.bounded hformed ?_
  refine hinv.situation.hold_quietly ht hp ?_ ?_
  · rw [if_neg hlast]
    exact hcommand
  · rw [registered_update hregistered]
    exact hheld

/-- The thread that holds the mutex unlocks it. -/
theorem Inv.unlock {s : State τ} (hinv : Inv s) {t : τ} {th : Thread} (ht : (s.pc t).holds = true)
    (hlast : s.pc t ≠ .last_notified) (hp : th.pc.Neutral)
    (hregistered : th.pc.registered = (s.pc t).registered) (hformed : th.WellFormed)
    (hready : ∀ n : Tenure τ, n.HeldBy (fun u => (s.pc u).registered) t (s.pc t) → n.Ready t) :
    Inv { s.unlock_enter_mut t with threads := Function.update s.threads t th } :=
  hinv.advance rfl (by rw [hregistered]; rfl) hinv.bounded hformed
    (hinv.situation.unlock ht hlast hp hready)

omit [DecidableEq τ] in
/-- A waiter that leaves is not counted any more. -/
theorem Inv.dec {s : State τ} (hinv : Inv s) (s' : State τ) {t : τ} {p : Pc}
    (ht : (s.pc t).registered = true) (hp : p.registered = false)
    (hdec : s'.m_num_waiters = atomic_dec32 s.m_num_waiters) :
    s'.m_num_waiters + (s.pc t).registered.toNat = s.m_num_waiters + p.registered.toNat ∧
      s'.m_num_waiters < 2 ^ 32 := by
  have hpos := hinv.waiters_pos ht
  have hbounded := hinv.bounded
  rw [hdec, atomic_dec32_of_pos hpos, ht, hp, Bool.toNat_true, Bool.toNat_false]
  omega

theorem Inv.notified_one {s : State τ} (hinv : Inv s) {t : τ} (ht : s.pc t = .notified_one) :
    Inv ((s.leave t).goto t (.unlocking false)) := by
  have hholds : (s.pc t).holds = true := by
    rw [ht]
    rfl
  have hcommand := (hinv.situation.of_holds hholds).2.1
  rw [ht] at hcommand
  obtain ⟨hwaiters, hbounded⟩ := hinv.dec (s.leave t) (t := t) (p := .unlocking false)
    (by rw [ht]; rfl) rfl rfl
  have htaken := hinv.formed t
  have hpc : (s.threads t).pc = .notified_one := ht
  simp only [Thread.WellFormed, hpc] at htaken
  refine hinv.advance_goto rfl hwaiters hbounded htaken ?_
  refine hinv.situation.hold hholds rfl hcommand ?_
  intro n hheld
  rw [ht] at hheld
  obtain ⟨⟨by_, hfresh⟩, hmem⟩ := hheld
  exact ⟨⟨by_, .NOTIFY_ONE, hfresh.reason⟩, hfresh.release_one hmem⟩

theorem Inv.notified_all {s : State τ} (hinv : Inv s) {t : τ} (ht : s.pc t = .notified_all) :
    (s.m_num_waiters = 1 → Inv ((s.leave t).goto t .last_notified)) ∧
      (s.m_num_waiters ≠ 1 → Inv ((s.leave t).goto t (.relocking false))) := by
  have hregistered : (s.pc t).registered = true := by
    rw [ht]
    rfl
  have htaken := hinv.formed t
  have hpc : (s.threads t).pc = .notified_all := ht
  simp only [Thread.WellFormed, hpc] at htaken
  refine ⟨?_, ?_⟩
  · intro hone
    obtain ⟨hwaiters, hbounded⟩ := hinv.dec (s.leave t) (p := .last_notified) hregistered rfl rfl
    refine hinv.advance_goto rfl hwaiters hbounded htaken ?_
    refine hinv.situation.leave_last ht ?_
    intro u hu
    have hcount := hinv.waiters
    exact eq_of_count_le_one (P := fun th : Thread => th.pc.registered) (by omega) hu hregistered
  · intro hmore
    obtain ⟨hwaiters, hbounded⟩ := hinv.dec (s.leave t) (p := .relocking false) hregistered rfl rfl
    refine hinv.advance_goto rfl hwaiters hbounded htaken ?_
    refine hinv.situation.leave_all ht rfl rfl ?_
    by_contra hnone
    have hcount := count_update (fun th : Thread => th.pc.registered) s.threads t
      { pc := .idle, taken := 0, result := none }
    have hzero : count (fun th : Thread => th.pc.registered)
        (Function.update s.threads t { pc := .idle, taken := 0, result := none }) = 0 := by
      by_contra hpos
      obtain ⟨u, hu⟩ := (count_pos_iff _ _).mp (Nat.pos_of_ne_zero hpos)
      by_cases hut : u = t
      · rw [hut, Function.update_self] at hu
        cases hu
      · rw [Function.update_of_ne hut] at hu
        exact hnone ⟨u, hut, hu⟩
    rw [hzero, ← hinv.waiters] at hcount
    simp only [hpc, Pc.registered, Bool.toNat_true, Bool.toNat_false] at hcount
    exact hmore hcount.symm

theorem Inv.last_notified {s : State τ} (hinv : Inv s) {t : τ} (ht : s.pc t = .last_notified) :
    Inv ({ s with m_command := atomic_cas32 s.m_command .SLEEP .NOTIFY_ALL }.goto t (.unlocking false)) := by
  have hholds : (s.pc t).holds = true := by
    rw [ht]
    rfl
  have hcommand := (hinv.situation.of_holds hholds).2.1
  rw [ht, if_pos rfl] at hcommand
  have htaken := hinv.formed t
  have hpc : (s.threads t).pc = .last_notified := ht
  simp only [Thread.WellFormed, hpc] at htaken
  refine hinv.advance rfl (by rw [ht]; rfl) hinv.bounded htaken ?_
  refine hinv.situation.hold_quietly hholds rfl ?_ ?_
  · rw [hcommand]
    rfl
  · intro n hheld
    rw [ht] at hheld
    obtain ⟨⟨by_, hreason⟩, hopen, hready, -⟩ := hheld
    exact ⟨⟨by_, .NOTIFY_ALL, hreason⟩, hopen, hready⟩

theorem Inv.timed_out {s : State τ} (hinv : Inv s) {t : τ} (ht : s.pc t = .timed_out) :
    Inv ({ s with m_num_waiters := atomic_dec32 s.m_num_waiters }.goto t (.unlocking true)) := by
  have hholds : (s.pc t).holds = true := by
    rw [ht]
    rfl
  have hcommand := (hinv.situation.of_holds hholds).2.1
  rw [ht] at hcommand
  obtain ⟨hwaiters, hbounded⟩ := hinv.dec
    { s with m_num_waiters := atomic_dec32 s.m_num_waiters } (t := t) (p := .unlocking true)
    (by rw [ht]; rfl) rfl rfl
  have htaken := hinv.formed t
  have hpc : (s.threads t).pc = .timed_out := ht
  simp only [Thread.WellFormed, hpc] at htaken
  refine hinv.advance_goto rfl hwaiters hbounded htaken ?_
  refine hinv.situation.hold_quietly hholds rfl hcommand ?_
  intro n hheld
  rw [ht] at hheld
  exact hheld

/-- A waiter looks at the command. -/
theorem Inv.checking {s : State τ} (hinv : Inv s) {t : τ} {timed : Bool} (ht : s.pc t = .checking timed) :
    (s.m_command = .SLEEP → Inv (s.goto t (.sleeping timed))) ∧
      (s.m_command = .NOTIFY_ONE → Inv ({ s with m_command := .SLEEP }.take t .notified_one)) ∧
      (s.m_command = .NOTIFY_ALL → Inv (s.take t .notified_all)) := by
  have hregistered : (s.pc t).registered = true := by
    rw [ht]
    rfl
  have htaken := hinv.formed t
  have hpc : (s.threads t).pc = .checking timed := ht
  simp only [Thread.WellFormed, hpc] at htaken
  have htaken' : (s.threads t).taken + 1 = 1 := by rw [htaken]
  have hsituation := hinv.situation
  refine ⟨?_, ?_, ?_⟩
  · intro _
    refine hinv.move ?_ ⟨rfl, by simp⟩ (by rw [ht]; rfl) htaken
    rw [ht]
    exact ⟨rfl, by simp⟩
  · intro hcommand
    rw [hcommand] at hsituation
    exact hinv.advance rfl (by rw [ht]; rfl) hinv.bounded htaken' (hsituation.take_one hregistered)
  · intro hcommand
    rw [hcommand] at hsituation
    refine hinv.advance rfl (by rw [ht]; rfl) hinv.bounded htaken' ?_
    have htake := hsituation.take_all hregistered
    rw [← hcommand] at htake
    exact htake

/-- A waiter that does not hold the mutex has no part in the tenure until it
    takes a notification. -/
theorem Inv.move_to {s : State τ} (hinv : Inv s) {t : τ} {th : Thread} {p : Pc} (ht : s.pc t = p)
    (hfrom : p.Neutral) (hto : th.pc.Neutral) (hregistered : th.pc.registered = p.registered)
    (hformed : th.WellFormed) : Inv { s with threads := Function.update s.threads t th } := by
  rw [← ht] at hfrom hregistered
  exact hinv.move hfrom hto hregistered hformed

/-- The notifier reads the number of waiters. -/
theorem Inv.notifying {s : State τ} (hinv : Inv s) {t : τ} {command : Command}
    (ht : s.pc t = .notifying command) :
    (s.m_num_waiters = 0 → Inv (s.goto t .no_waiters)) ∧
      (s.m_num_waiters ≠ 0 → Inv (s.goto t (.posting command))) := by
  have hformed := hinv.formed t
  have hpc : (s.threads t).pc = .notifying command := ht
  simp only [Thread.WellFormed, hpc] at hformed
  have hholds : (s.pc t).holds = true := by
    rw [ht]
    rfl
  refine ⟨?_, ?_⟩
  · intro hnobody
    refine hinv.hold hholds rfl (by simp [ht]) (by simp) (by rw [ht]; rfl) trivial ?_
    intro n hheld
    rw [ht] at hheld
    obtain ⟨hfresh, hsplit⟩ := hheld
    refine ⟨⟨command, hfresh⟩, Finset.eq_empty_of_forall_notMem ?_⟩
    intro u hu
    have hpos := hinv.waiters_pos ((hsplit u).mp hu)
    omega
  · intro hsome
    refine hinv.hold hholds rfl (by simp [ht]) (by simp) (by rw [ht]; rfl) hformed ?_
    intro n hheld
    rw [ht] at hheld
    obtain ⟨hfresh, hsplit⟩ := hheld
    refine ⟨hfresh, hsplit, ?_⟩
    rw [hinv.waiters] at hsome
    exact (count_pos_iff (fun th : Thread => th.pc.registered) s.threads).mp (Nat.pos_of_ne_zero hsome)

/-- The notifier posts its command at the first attempt. -/
theorem Inv.posting {s : State τ} (hinv : Inv s) {t : τ} {command : Command}
    (ht : s.pc t = .posting command) :
    s.m_command = .SLEEP ∧ Inv ({ s with m_command := command }.return_ t none) := by
  have hformed := hinv.formed t
  have hpc : (s.threads t).pc = .posting command := ht
  simp only [Thread.WellFormed, hpc] at hformed
  have hcommand := (hinv.situation.of_holds (t := t) (by rw [ht]; rfl)).2.1
  rw [ht, if_neg (by simp)] at hcommand
  refine ⟨hcommand, ?_⟩
  refine hinv.advance (t := t) rfl (by rw [ht]; rfl) hinv.bounded ?_ (hinv.situation.post ht hformed)
  intro result hresult
  cases hresult

/-- The next operation of any thread. -/
theorem Inv.next {s s' : State τ} (hinv : Inv s) {t : τ}
    (hroom : ∀ timed, s.pc t = .registering timed → num_registered s + 1 < 2 ^ 32)
    (hstep : next s t = some s') : Inv s' := by
  have hformed := hinv.formed t
  unfold spin_condition.next at hstep
  cases hpc : s.pc t with
  | idle => simp [hpc] at hstep
  | enter timed =>
    simp only [hpc] at hstep
    simp only [State.pc] at hpc
    simp only [Thread.WellFormed, hpc] at hformed
    split_ifs at hstep with hlocked
    cases hstep
    exact hinv.acquire (by simpa using hlocked) rfl (by simp) (by simp only [State.pc, hpc]; rfl) hformed
      ⟨rfl, rfl, rfl⟩
  | registering timed =>
    simp only [hpc] at hstep
    cases hstep
    exact hinv.registering hpc (hroom timed hpc)
  | unlocking_mut timed =>
    simp only [hpc] at hstep
    cases hstep
    simp only [State.pc] at hpc
    simp only [Thread.WellFormed, hpc] at hformed
    refine hinv.hold ?_ rfl ?_ (by simp) ?_ hformed ?_
    · simp only [State.pc, hpc]
      rfl
    · simp only [State.pc, hpc, ne_eq, reduceCtorEq, not_false_eq_true]
    · simp only [State.pc, hpc]
      rfl
    · intro n hheld
      simp only [State.pc, hpc] at hheld
      exact hheld
  | unlocking_entry timed =>
    simp only [hpc] at hstep
    cases hstep
    simp only [State.pc] at hpc
    simp only [Thread.WellFormed, hpc] at hformed
    refine hinv.unlock ?_ ?_ ⟨rfl, by simp⟩ ?_ hformed ?_
    · simp only [State.pc, hpc]
      rfl
    · simp only [State.pc, hpc, ne_eq, reduceCtorEq, not_false_eq_true]
    · simp only [State.pc, hpc]
      rfl
    · intro n hheld
      simp only [State.pc, hpc] at hheld
      exact Tenure.Fresh.ready (Or.inl hheld)
  | sleeping timed =>
    simp only [hpc] at hstep
    have hfrom : (Pc.sleeping timed).Neutral := ⟨rfl, by simp⟩
    have hthread : (s.threads t).pc = .sleeping timed := hpc
    simp only [Thread.WellFormed, hthread] at hformed
    split_ifs at hstep
    · cases hstep
      exact hinv.move_to hpc hfrom ⟨rfl, by simp⟩ rfl hformed
    · cases hstep
      exact hinv.move_to hpc hfrom ⟨rfl, by simp⟩ rfl hformed
  | yielding timed =>
    simp only [hpc] at hstep
    have hthread : (s.threads t).pc = .yielding timed := hpc
    simp only [Thread.WellFormed, hthread] at hformed
    cases hstep
    exact hinv.move_to hpc ⟨rfl, by simp⟩ ⟨rfl, by simp⟩ rfl hformed
  | checking timed =>
    simp only [hpc] at hstep
    obtain ⟨hsleep, hone, hall⟩ := hinv.checking hpc
    cases hcommand : s.m_command with
    | SLEEP =>
      simp only [hcommand, atomic_cas32, reduceCtorEq, if_false] at hstep
      cases hstep
      have hgone := hsleep hcommand
      rw [← hcommand]
      exact hgone
    | NOTIFY_ONE =>
      simp only [hcommand, atomic_cas32, if_true] at hstep
      cases hstep
      exact hone hcommand
    | NOTIFY_ALL =>
      simp only [hcommand, atomic_cas32, reduceCtorEq, if_false] at hstep
      cases hstep
      have htaken := hall hcommand
      rw [← hcommand]
      exact htaken
  | notified_one =>
    simp only [hpc] at hstep
    cases hstep
    exact hinv.notified_one hpc
  | notified_all =>
    simp only [hpc] at hstep
    split_ifs at hstep with hone
    · cases hstep
      exact (hinv.notified_all hpc).1 hone
    · cases hstep
      exact (hinv.notified_all hpc).2 hone
  | last_notified =>
    simp only [hpc] at hstep
    cases hstep
    exact hinv.last_notified hpc
  | timed_out =>
    simp only [hpc] at hstep
    cases hstep
    exact hinv.timed_out hpc
  | unlocking timed_out =>
    simp only [hpc] at hstep
    cases hstep
    simp only [State.pc] at hpc
    simp only [Thread.WellFormed, hpc] at hformed
    refine hinv.unlock ?_ ?_ ⟨rfl, by simp⟩ ?_ hformed ?_
    · simp only [State.pc, hpc]
      rfl
    · simp only [State.pc, hpc, ne_eq, reduceCtorEq, not_false_eq_true]
    · simp only [State.pc, hpc]
      rfl
    · intro n hheld
      simp only [State.pc, hpc] at hheld
      cases timed_out with
      | true => exact Tenure.Fresh.ready (Or.inr (Or.inl hheld))
      | false => exact hheld.2.2
  | relocking timed_out =>
    simp only [hpc] at hstep
    have hthread : (s.threads t).pc = .relocking timed_out := hpc
    simp only [Thread.WellFormed, hthread] at hformed
    cases hstep
    refine hinv.move_to hpc ⟨rfl, by simp⟩ ⟨rfl, by simp⟩ rfl ?_
    intro result hresult
    cases hresult
    exact hformed
  | notify command =>
    simp only [hpc] at hstep
    simp only [State.pc] at hpc
    simp only [Thread.WellFormed, hpc] at hformed
    split_ifs at hstep with hlocked
    cases hstep
    refine hinv.acquire (by simpa using hlocked) rfl (by simp) (by simp only [State.pc, hpc]; rfl) hformed
      ⟨⟨rfl, rfl, rfl⟩, ?_⟩
    intro u
    simp
  | notifying command =>
    simp only [hpc] at hstep
    split_ifs at hstep with hnobody
    · cases hstep
      exact (hinv.notifying hpc).1 hnobody
    · cases hstep
      exact (hinv.notifying hpc).2 hnobody
  | no_waiters =>
    simp only [hpc] at hstep
    cases hstep
    refine hinv.unlock ?_ ?_ ⟨rfl, by simp⟩ ?_ ?_ ?_
    · simp only [hpc]
      rfl
    · simp only [hpc, ne_eq, reduceCtorEq, not_false_eq_true]
    · simp only [hpc]
      rfl
    · intro result hresult
      cases hresult
    · intro n hheld
      simp only [hpc] at hheld
      exact Tenure.Fresh.ready (Or.inr (Or.inr hheld))
  | posting command =>
    simp only [hpc] at hstep
    obtain ⟨hsleep, hposted⟩ := hinv.posting hpc
    simp only [hsleep, atomic_cas32, if_true] at hstep
    cases hstep
    exact hposted

theorem Inv.expire {s s' : State τ} (hinv : Inv s) {t : τ} (hstep : expire s t = some s') : Inv s' := by
  have hformed := hinv.formed t
  unfold spin_condition.expire at hstep
  split at hstep
  · rename_i hpc
    have hthread : (s.threads t).pc = .enter true := hpc
    simp only [Thread.WellFormed, hthread] at hformed
    cases hstep
    refine hinv.move_to hpc ⟨rfl, by simp⟩ ⟨rfl, by simp⟩ rfl ?_
    intro result hresult
    cases hresult
    exact hformed
  · rename_i hpc
    have hthread : (s.threads t).pc = .yielding true := hpc
    simp only [Thread.WellFormed, hthread] at hformed
    split_ifs at hstep with hlocked
    · cases hstep
      exact hinv.move_to hpc ⟨rfl, by simp⟩ ⟨rfl, by simp⟩ rfl hformed
    · cases hstep
      exact hinv.acquire (by simpa using hlocked) rfl (by simp) (by rw [hpc]; rfl) hformed ⟨rfl, rfl, rfl⟩
  · cases hstep

theorem Inv.step {s s' : State τ} (hinv : Inv s) {a : Label τ} (hroom : RoomForWaiter s a)
    (hstep : step s a = some s') : Inv s' := by
  have hidle : Pc.idle.Neutral := ⟨rfl, by simp⟩
  cases a with
  | wait t timed =>
    simp only [spin_condition.step] at hstep
    split_ifs at hstep with hpc
    cases hstep
    exact hinv.move_to hpc hidle ⟨rfl, by simp⟩ rfl rfl
  | notify_one t =>
    simp only [spin_condition.step] at hstep
    split_ifs at hstep with hpc
    cases hstep
    exact hinv.move_to hpc hidle ⟨rfl, by simp⟩ rfl (by simp [Thread.WellFormed])
  | notify_all t =>
    simp only [spin_condition.step] at hstep
    split_ifs at hstep with hpc
    cases hstep
    exact hinv.move_to hpc hidle ⟨rfl, by simp⟩ rfl (by simp [Thread.WellFormed])
  | next t => exact hinv.next hroom hstep
  | expire t => exact hinv.expire hstep

omit [DecidableEq τ] in
theorem start_inv : Inv (start : State τ) := by
  refine ⟨?_, Nat.two_pow_pos 32, ?_,
    .free rfl rfl (fun _ => ⟨rfl, by simp [State.pc, start]⟩) (by simp [start])⟩
  · exact ((total_eq_zero_iff _ _).mpr fun _ => rfl).symm
  · intro t result hresult
    cases hresult

end interprocess.ipcdetail.spin_condition
