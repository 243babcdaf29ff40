import Interprocess.Base.Count
import Interprocess.Sync.SpinCondition.Tenures

open Count

namespace interprocess.ipcdetail.spin_condition

/-- How many notifications a thread took at each point of a wait, and which
    commands are notified. -/
def Thread.WellFormed (th : Thread) : Prop :=
  match th.pc with
  | .idle => ∀ result, th.result = some result → th.taken = result.toNat
  | .notified_one | .notified_all | .last_notified => th.taken = 1
  | .unlocking timed_out | .relocking timed_out => th.taken = (!timed_out).toNat
  | .notify command | .notifying command | .posting command => command ≠ .SLEEP
  | .no_waiters => True
  | _ => th.taken = 0

section Situations

variable {τ : Type} [DecidableEq τ] {locked : Bool} {command : Command} {pc : τ → Pc}
  {tenures : List (Tenure τ)} {t : τ} {p : Pc}

/-- The registered threads when a thread moves on without registering or leaving. -/
theorem registered_update (hregistered : p.registered = (pc t).registered) :
    (fun u => (Function.update pc t p u).registered) = fun u => (pc u).registered := by
  funext u
  by_cases hu : u = t
  · rw [hu, Function.update_self, hregistered]
  · rw [Function.update_of_ne hu]

theorem neutral_update (hneutral : ∀ u, (pc u).Neutral) (hp : p.Neutral) :
    ∀ u, (Function.update pc t p u).Neutral := by
  intro u
  by_cases hu : u = t
  · rw [hu, Function.update_self]
    exact hp
  · rw [Function.update_of_ne hu]
    exact hneutral u

theorem neutral_update_others (hneutral : ∀ u, u ≠ t → (pc u).Neutral) :
    ∀ u, u ≠ t → (Function.update pc t p u).Neutral := by
  intro u hu
  rw [Function.update_of_ne hu]
  exact hneutral u hu

/-- A thread that has no part in the tenure moves on. -/
theorem Situation.move (h : Situation locked command pc tenures) (ht : (pc t).Neutral) (hp : p.Neutral)
    (hregistered : p.registered = (pc t).registered) :
    Situation locked command (Function.update pc t p) tenures := by
  cases h with
  | free hlocked hcommand hneutral hclosed =>
    exact .free hlocked hcommand (neutral_update hneutral hp) hclosed
  | held u n past hlocked hcommand hholds hneutral htenures hclosed hheld =>
    have hut : u ≠ t := by
      rintro rfl
      rw [ht.1] at hholds
      cases hholds
    refine .held u n past hlocked ?_ ?_ ?_ htenures hclosed ?_
    · rwa [Function.update_of_ne hut]
    · rwa [Function.update_of_ne hut]
    · intro v hv
      by_cases hvt : v = t
      · rw [hvt, Function.update_self]
        exact hp
      · rw [Function.update_of_ne hvt]
        exact hneutral v hv
    · rwa [registered_update hregistered, Function.update_of_ne hut]
  | one n past hlocked hcommand hneutral htenures hclosed hposted =>
    refine .one n past hlocked hcommand (neutral_update hneutral hp) htenures hclosed ?_
    rwa [registered_update hregistered]
  | all n past hlocked hcommand hnobody htenures hclosed hposted =>
    refine .all n past hlocked hcommand ?_ htenures hclosed ?_
    · intro u
      by_cases hu : u = t
      · rw [hu, Function.update_self]
        exact hp.1
      · rw [Function.update_of_ne hu]
        exact hnobody u
    · rwa [registered_update hregistered]

/-- A thread locks the free mutex. -/
theorem Situation.acquire (h : Situation false command pc tenures) {n : Tenure τ}
    (hholds : p.holds = true) (hlast : p ≠ .last_notified)
    (hregistered : p.registered = (pc t).registered)
    (hheld : n.HeldBy (fun u => (pc u).registered) t p) :
    Situation true command (Function.update pc t p) (n :: tenures) := by
  cases h with
  | held _ _ _ hlocked | one _ _ hlocked | all _ _ hlocked => cases hlocked
  | free _ hcommand hneutral hclosed =>
    refine .held t n tenures rfl ?_ ?_ (neutral_update_others fun u _ => hneutral u) rfl hclosed ?_
    · rw [Function.update_self, if_neg hlast]
      exact hcommand
    · rwa [Function.update_self]
    · rwa [registered_update hregistered, Function.update_self]

/-- The situation of a thread that holds the mutex. -/
theorem Situation.of_holds (h : Situation locked command pc tenures) (hholds : (pc t).holds = true) :
    locked = true ∧ (command = if pc t = .last_notified then .NOTIFY_ALL else .SLEEP) ∧
      (∀ u, u ≠ t → (pc u).Neutral) ∧
      ∃ n past, tenures = n :: past ∧ (∀ m ∈ past, m.Closed) ∧
        n.HeldBy (fun u => (pc u).registered) t (pc t) := by
  cases h with
  | free _ _ hneutral =>
    rw [(hneutral t).1] at hholds
    cases hholds
  | one _ _ _ _ hneutral =>
    rw [(hneutral t).1] at hholds
    cases hholds
  | all _ _ _ _ hnobody =>
    rw [hnobody t] at hholds
    cases hholds
  | held u n past hlocked hcommand hholds' hneutral htenures hclosed hheld =>
    have hut : t = u := by
      by_contra hne
      rw [(hneutral t hne).1] at hholds
      cases hholds
    subst hut
    exact ⟨hlocked, hcommand, hneutral, n, past, htenures, hclosed, hheld⟩

/-- The thread that holds the mutex goes on holding it. -/
theorem Situation.hold (h : Situation locked command pc tenures) (ht : (pc t).holds = true)
    {command' : Command} {f : Tenure τ → Tenure τ} (hp : p.holds = true)
    (hcommand : command' = if p = .last_notified then .NOTIFY_ALL else .SLEEP)
    (hheld : ∀ n : Tenure τ, n.HeldBy (fun u => (pc u).registered) t (pc t) →
      (f n).HeldBy (fun u => (Function.update pc t p u).registered) t p) :
    Situation locked command' (Function.update pc t p) (tenures.modifyHead f) := by
  obtain ⟨hlocked, -, hneutral, n, past, htenures, hclosed, hbefore⟩ := h.of_holds ht
  refine .held t (f n) past hlocked ?_ ?_ (neutral_update_others hneutral) ?_ hclosed ?_
  · rwa [Function.update_self]
  · rwa [Function.update_self]
  · rw [htenures]
    rfl
  · rw [Function.update_self]
    exact hheld n hbefore

/-- The same when nothing is recorded in the tenure. -/
theorem Situation.hold_quietly (h : Situation locked command pc tenures) (ht : (pc t).holds = true)
    {command' : Command} (hp : p.holds = true)
    (hcommand : command' = if p = .last_notified then .NOTIFY_ALL else .SLEEP)
    (hheld : ∀ n : Tenure τ, n.HeldBy (fun u => (pc u).registered) t (pc t) →
      n.HeldBy (fun u => (Function.update pc t p u).registered) t p) :
    Situation locked command' (Function.update pc t p) tenures := by
  have hold := h.hold (f := id) ht hp hcommand hheld
  rwa [List.modifyHead_id] at hold

/-- The thread that holds the mutex unlocks it. -/
theorem Situation.unlock (h : Situation locked command pc tenures) (ht : (pc t).holds = true)
    (hlast : pc t ≠ .last_notified) (hp : p.Neutral)
    (hready : ∀ n : Tenure τ, n.HeldBy (fun u => (pc u).registered) t (pc t) → n.Ready t) :
    Situation false command (Function.update pc t p)
      (tenures.modifyHead fun n => { n with unlocked_by := t :: n.unlocked_by }) := by
  obtain ⟨-, hcommand, hneutral, n, past, htenures, hclosed, hbefore⟩ := h.of_holds ht
  rw [if_neg hlast] at hcommand
  obtain ⟨hlocked, hcloses⟩ := hready n hbefore
  refine .free rfl hcommand ?_ ?_
  · intro u
    by_cases hu : u = t
    · rw [hu, Function.update_self]
      exact hp
    · rw [Function.update_of_ne hu]
      exact hneutral u hu
  · intro m hm
    rw [htenures] at hm
    simp only [List.modifyHead_cons, List.mem_cons, hlocked] at hm
    rcases hm with rfl | hm
    · exact hcloses
    · exact hclosed m hm

/-- The notifier posts its command and leaves the mutex to the waiters. -/
theorem Situation.post (h : Situation locked command pc tenures) {posted : Command}
    (ht : pc t = .posting posted) (hposted : posted ≠ .SLEEP) :
    Situation locked posted (Function.update pc t .idle) tenures := by
  have hholds : (pc t).holds = true := by
    rw [ht]
    rfl
  obtain ⟨hlocked, -, hneutral, n, past, htenures, hclosed, hheld⟩ := h.of_holds hholds
  rw [ht] at hheld
  obtain ⟨hfresh, hsplit, hremaining⟩ := hheld
  have hregistered : (fun u => (Function.update pc t .idle u).registered) = fun u => (pc u).registered :=
    registered_update (by rw [ht]; rfl)
  have hall : ∀ u, (Function.update pc t .idle u).Neutral := by
    intro u
    by_cases hu : u = t
    · rw [hu, Function.update_self]
      exact ⟨rfl, by simp⟩
    · rw [Function.update_of_ne hu]
      exact hneutral u hu
  have hpost : n.Posted (fun u => (pc u).registered) posted := by
    refine ⟨⟨t, hfresh.reason⟩, hfresh.locked, ?_, ?_, ?_, fun _ => hfresh.released, hremaining⟩
    · rw [hfresh.released]
      exact List.nodup_nil
    · intro u
      rw [hsplit u, hfresh.released]
      simp
    · rw [hfresh.released]
      intro u hu
      cases hu
  rw [← hregistered] at hpost
  cases posted with
  | SLEEP => exact absurd rfl hposted
  | NOTIFY_ONE => exact .one n past hlocked rfl hall htenures hclosed hpost
  | NOTIFY_ALL => exact .all n past hlocked rfl (fun u => (hall u).1) htenures hclosed hpost

/-- A registered waiter takes a `NOTIFY_ONE` and the mutex with it. -/
theorem Situation.take_one (h : Situation locked .NOTIFY_ONE pc tenures)
    (ht : (pc t).registered = true) :
    Situation locked .SLEEP (Function.update pc t .notified_one) tenures := by
  cases h with
  | free _ hcommand => cases hcommand
  | held u _ _ _ hcommand =>
    split_ifs at hcommand
  | all _ _ _ hcommand => cases hcommand
  | one n past hlocked _ hneutral htenures hclosed hposted =>
    obtain ⟨by_, hreason⟩ := hposted.reason
    refine .held t n past hlocked ?_ ?_ (neutral_update_others fun u _ => hneutral u) htenures hclosed ?_
    · rw [Function.update_self, if_neg (by simp)]
    · rw [Function.update_self]
      rfl
    · rw [Function.update_self]
      refine ⟨⟨by_, hreason, hposted.one rfl, hposted.locked⟩, ?_⟩
      exact (hposted.split t).mpr (Or.inr ht)

/-- A registered waiter takes a `NOTIFY_ALL`. -/
theorem Situation.take_all (h : Situation locked .NOTIFY_ALL pc tenures)
    (ht : (pc t).registered = true) :
    Situation locked .NOTIFY_ALL (Function.update pc t .notified_all) tenures := by
  have hregistered : (fun u => (Function.update pc t .notified_all u).registered) =
      fun u => (pc u).registered := registered_update ht.symm
  cases h with
  | free _ hcommand => cases hcommand
  | one _ _ _ hcommand => cases hcommand
  | held u _ _ _ hcommand _ _ _ _ hheld =>
    split_ifs at hcommand with hlast
    rw [hlast] at hheld
    exact absurd (hheld.2.2.2 t) (by simp [ht])
  | all n past hlocked _ hnobody htenures hclosed hposted =>
    refine .all n past hlocked rfl ?_ htenures hclosed ?_
    · intro u
      by_cases hu : u = t
      · rw [hu, Function.update_self]
        rfl
      · rw [Function.update_of_ne hu]
        exact hnobody u
    · rwa [hregistered]

/-- A waiter that took a `NOTIFY_ALL` belongs to a posted one. -/
theorem Situation.of_notified_all (h : Situation locked command pc tenures) (ht : pc t = .notified_all) :
    locked = true ∧ command = .NOTIFY_ALL ∧ (∀ u, (pc u).holds = false) ∧
      ∃ n past, tenures = n :: past ∧ (∀ m ∈ past, m.Closed) ∧
        n.Posted (fun u => (pc u).registered) .NOTIFY_ALL := by
  cases h with
  | free _ _ hneutral => exact absurd ht (hneutral t).2
  | one _ _ _ _ hneutral => exact absurd ht (hneutral t).2
  | held u _ _ _ _ hholds hneutral =>
    by_cases hu : t = u
    · rw [← hu, ht] at hholds
      cases hholds
    · exact absurd ht (hneutral t hu).2
  | all n past hlocked hcommand hnobody htenures hclosed hposted =>
    exact ⟨hlocked, hcommand, hnobody, n, past, htenures, hclosed, hposted⟩

/-- A waiter leaves because of a `NOTIFY_ALL` and others are still registered. -/
theorem Situation.leave_all (h : Situation locked command pc tenures) (ht : pc t = .notified_all)
    (hp : p.holds = false) (hleft : p.registered = false)
    (hremaining : ∃ u, u ≠ t ∧ (pc u).registered = true) :
    Situation locked command (Function.update pc t p)
      (tenures.modifyHead fun n => { n with released := t :: n.released }) := by
  obtain ⟨hlocked, hcommand, hnobody, n, past, htenures, hclosed, hposted⟩ := h.of_notified_all ht
  refine .all { n with released := t :: n.released } past hlocked hcommand ?_ ?_ hclosed ?_
  · intro u
    by_cases hu : u = t
    · rw [hu, Function.update_self]
      exact hp
    · rw [Function.update_of_ne hu]
      exact hnobody u
  · rw [htenures]
    rfl
  · refine hposted.release ?_ ?_ ?_ ?_
    · simp only [ht]
      rfl
    · simp only [Function.update_self]
      exact hleft
    · intro u hu
      simp only [Function.update_of_ne hu]
    · obtain ⟨u, hu, hregistered⟩ := hremaining
      refine ⟨u, ?_⟩
      simp only [Function.update_of_ne hu]
      exact hregistered

/-- The last waiter leaves because of a `NOTIFY_ALL` and takes the mutex over. -/
theorem Situation.leave_last (h : Situation locked command pc tenures) (ht : pc t = .notified_all)
    (hlast : ∀ u, (pc u).registered = true → u = t) :
    Situation locked command (Function.update pc t .last_notified)
      (tenures.modifyHead fun n => { n with released := t :: n.released }) := by
  obtain ⟨hlocked, hcommand, hnobody, n, past, htenures, hclosed, hposted⟩ := h.of_notified_all ht
  have hothers : ∀ u, u ≠ t → (pc u).registered = false := by
    intro u hu
    by_contra hregistered
    exact hu (hlast u (by simpa using hregistered))
  refine .held t { n with released := t :: n.released } past hlocked ?_ ?_ ?_ ?_ hclosed ?_
  · rw [Function.update_self, if_pos rfl]
    exact hcommand
  · rw [Function.update_self]
    rfl
  · refine neutral_update_others fun u hu => ⟨hnobody u, ?_⟩
    intro hall
    have hregistered := hothers u hu
    rw [hall] at hregistered
    cases hregistered
  · rw [htenures]
    rfl
  · rw [Function.update_self]
    obtain ⟨hopen, hready⟩ := hposted.release_last (t := t) (by simp only [ht]; rfl) hlast
    refine ⟨hposted.reason, hopen, hready, ?_⟩
    intro u
    by_cases hu : u = t
    · simp only [hu, Function.update_self]
      rfl
    · simp only [Function.update_of_ne hu]
      exact hothers u hu

end Situations

/-- The invariant of every run: `m_num_waiters` counts the registered threads, and
    the mutex, the command and the tenures are in one of the four situations. -/
structure Inv {τ : Type} [Fintype τ] (s : State τ) : Prop where
  waiters : s.m_num_waiters = count (fun th => th.pc.registered) s.threads
  bounded : s.m_num_waiters < 2 ^ 32
  formed : ∀ t, (s.threads t).WellFormed
  situation : Situation s.m_enter_mut s.m_command s.pc s.tenures

section Steps

variable {τ : Type}

theorem pc_update [DecidableEq τ] (threads : τ → Thread) (t : τ) (th : Thread) :
    (fun u => (Function.update threads t th u).pc) =
      Function.update (fun u => (threads u).pc) t th.pc := by
  funext u
  by_cases hu : u = t
  · rw [hu, Function.update_self, Function.update_self]
  · rw [Function.update_of_ne hu, Function.update_of_ne hu]

variable [Fintype τ]

/-- A step of one thread keeps the invariant when it keeps each part of it. -/
theorem Inv.advance [DecidableEq τ] {s s' : State τ} (hinv : Inv s) {t : τ} {th : Thread}
    (hthreads : s'.threads = Function.update s.threads t th)
    (hwaiters : s'.m_num_waiters + (s.pc t).registered.toNat = s.m_num_waiters + th.pc.registered.toNat)
    (hbounded : s'.m_num_waiters < 2 ^ 32) (hformed : th.WellFormed)
    (hsituation : Situation s'.m_enter_mut s'.m_command (Function.update s.pc t th.pc) s'.tenures) :
    Inv s' := by
  refine ⟨?_, hbounded, ?_, ?_⟩
  · have hcount := count_update (fun th : Thread => th.pc.registered) s.threads t th
    have hbefore := hinv.waiters
    rw [hthreads]
    simp only [State.pc] at hwaiters
    omega
  · intro u
    rw [hthreads]
    by_cases hu : u = t
    · rw [hu, Function.update_self]
      exact hformed
    · rw [Function.update_of_ne hu]
      exact hinv.formed u
  · have hpc : s'.pc = Function.update s.pc t th.pc := by
      have hupdate := pc_update s.threads t th
      rw [← hthreads] at hupdate
      exact hupdate
    rw [hpc]
    exact hsituation

/-- A registered thread is counted. -/
theorem Inv.waiters_pos {s : State τ} (hinv : Inv s) {t : τ} (ht : (s.pc t).registered = true) :
    0 < s.m_num_waiters := by
  rw [hinv.waiters]
  exact (count_pos_iff _ _).mpr ⟨t, ht⟩

theorem atomic_dec32_of_pos {mem : Nat} (hpos : 0 < mem) : atomic_dec32 mem = mem - 1 :=
  if_neg (Nat.ne_of_gt hpos)

end Steps

end interprocess.ipcdetail.spin_condition
