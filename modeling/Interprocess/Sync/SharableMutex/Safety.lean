import Interprocess.Base.Count
import Interprocess.Base.Transition
import Interprocess.Sync.SharableMutex.Sections

open Count Transition Monitor

namespace interprocess.interprocess_sharable_mutex

def Thread.owns (ownership : Ownership) (th : Thread) : Bool :=
  th.owned = ownership

def Thread.claims (th : Thread) : Bool :=
  th.place.claims

/-- What is kept about a thread: it owns nothing and began with nothing while it
    waits, and a call that failed gave back what its caller had. -/
structure Thread.WellFormed (th : Thread) : Prop where
  waiting : th.place ≠ .idle → th.owned = .none ∧ th.before = .none
  unchanged : th.result = some .failed ∨ th.result = some .thrown → th.owned = th.before

theorem advance_owned (th : Thread) (outcome : Outcome) : (th.advance outcome).owned = outcome.owned := by
  cases outcome <;> rfl

theorem advance_place (th : Thread) (outcome : Outcome) : (th.advance outcome).place = outcome.place := by
  cases outcome <;> rfl

theorem advance_before (th : Thread) (outcome : Outcome) : (th.advance outcome).before = th.before := by
  cases outcome <;> rfl

theorem advance_result (th : Thread) (outcome : Outcome) :
    (th.advance outcome).result = outcome.result := by
  cases outcome <;> rfl

section Runs

variable {τ : Type} [Fintype τ]

def tally (threads : τ → Thread) : Tally where
  exclusive := count (Thread.owns .exclusive) threads
  sharable := count (Thread.owns .sharable) threads
  claimants := count Thread.claims threads

/-- The threads other than one have a tally to which that one adds. -/
theorem exists_tally_update [DecidableEq τ] (threads : τ → Thread) (t : τ) :
    ∃ n : Tally, tally threads = n.add (threads t).owned (threads t).place ∧
      ∀ th, tally (Function.update threads t th) = n.add th.owned th.place := by
  obtain ⟨exclusive, hexclusive⟩ :=
    exists_total_update (fun th => (Thread.owns .exclusive th).toNat) threads t
  obtain ⟨sharable, hsharable⟩ :=
    exists_total_update (fun th => (Thread.owns .sharable th).toNat) threads t
  obtain ⟨claimants, hclaimants⟩ := exists_total_update (fun th => (Thread.claims th).toNat) threads t
  have hupdate : ∀ th, tally (Function.update threads t th) =
      Tally.add ⟨exclusive, sharable, claimants⟩ th.owned th.place := by
    intro th
    simp only [tally, count, hexclusive, hsharable, hclaimants]
    rfl
  refine ⟨_, ?_, hupdate⟩
  have hsame := hupdate (threads t)
  rwa [Function.update_eq_self] at hsame

structure Inv (s : State τ) : Prop where
  consistent : Consistent s.m_ctrl (tally s.threads)
  well_formed : ∀ t, (s.threads t).WellFormed
  blocked : ∀ t, s.phase t = .asleep → (s.place t).blocked s.m_ctrl

/-- Two threads at the second gate are the same. -/
theorem Consistent.claimant_unique {c : control_word_t} {threads : τ → Thread}
    (h : Consistent c (tally threads)) {t u : τ} (ht : (threads t).place.gate = some .m_second_gate)
    (hu : (threads u).place.gate = some .m_second_gate) : t = u := by
  have hclaims : ∀ place : Place, place.gate = some .m_second_gate → place.claims = true := by
    intro place hgate
    cases place with
    | idle | first_gate _ _ => cases hgate
    | second_gate timed => rfl
  have hexclusive := h.exclusive
  have hin := Bool.toNat_le c.exclusive_in
  simp only [tally] at hexclusive
  exact eq_of_count_le_one (P := Thread.claims) (by omega) (hclaims _ ht) (hclaims _ hu)

theorem blocked_first {c : control_word_t} {place : Place} {kind : Kind} {timed : Bool}
    (hplace : place = .first_gate kind timed) (hblocked : place.blocked c) :
    first_gate_closed c kind = true := by
  rw [hplace] at hblocked
  exact hblocked

variable [DecidableEq τ]

/-- A sound section keeps the invariant. -/
theorem Inv.perform {s s' : State τ} (hinv : Inv s) {t : τ} {th : Thread} {woken : Option τ}
    {sec : Section} (hsound : ∀ n : Tally,
      Consistent s.m_ctrl (n.add (s.threads t).owned (s.threads t).place) →
      Sound s.m_ctrl n th.before sec)
    (hbegan : sec.outcome.place ≠ .idle → th.before = .none)
    (hstep : perform s t th woken sec = some s') : Inv s' := by
  obtain ⟨n, htally, hupdate⟩ := exists_tally_update s.threads t
  have hconsistent := hinv.consistent
  rw [htally] at hconsistent
  have hsec := hsound n hconsistent
  simp only [interprocess_sharable_mutex.perform, Option.map_eq_some_iff] at hstep
  obtain ⟨phase, hnotify, hs'⟩ := hstep
  have hnew : Consistent sec.m_ctrl
      (tally (Function.update s.threads t (th.advance sec.outcome))) := by
    rw [hupdate, advance_owned, advance_place]
    exact hsec.consistent
  subst hs'
  refine ⟨hnew, ?_, ?_⟩
  · intro u
    by_cases hu : u = t
    · simp only [hu, Function.update_self]
      refine ⟨?_, ?_⟩
      · rw [advance_place, advance_owned, advance_before]
        intro hwaits
        refine ⟨?_, hbegan hwaits⟩
        cases hout : sec.outcome with
        | done owned result => exact absurd (by rw [hout]; rfl) hwaits
        | wait place => rfl
      · rw [advance_result, advance_owned, advance_before]
        exact hsec.restores
    · simp only [Function.update_of_ne hu]
      exact hinv.well_formed u
  · intro u hasleep
    obtain ⟨hbefore, hall, hone⟩ := asleep_of_notify hnotify hasleep
    simp only [State.place]
    by_cases hu : u = t
    · rw [hu, Function.update_self, advance_place]
      exact hsec.blocked
    · rw [Function.update_of_ne hu] at hbefore
      have hblocked := hinv.blocked u hbefore
      simp only [State.place] at hblocked
      simp only [Function.update_of_ne hu] at hall hone ⊢
      cases hplace : (s.threads u).place with
      | idle => trivial
      | first_gate kind timed =>
        refine hsec.first ?_ kind (blocked_first hplace hblocked)
        intro hnotification
        exact hall _ hnotification (by rw [hplace]; rfl)
      | second_gate timed =>
        rw [hplace] at hblocked
        refine hsec.second ?_ ?_ hblocked
        · intro hnotification
          exact hone _ hnotification (fun v w hv hw => hnew.claimant_unique hv hw) (by rw [hplace]; rfl)
        · have hclaims : 0 < (tally (Function.update s.threads t Thread.outside)).claimants := by
            refine (count_pos_iff _ _).mpr ⟨u, ?_⟩
            rw [Function.update_of_ne hu, Thread.claims, hplace]
            rfl
          rwa [hupdate] at hclaims

theorem Inv.wait_ends {s s' : State τ} (hinv : Inv s) {t : τ} {how : WaitEnd}
    (hstep : wait_ends s t how = some s') : Inv s' := by
  have hwaiting := (hinv.well_formed t).waiting
  unfold interprocess_sharable_mutex.wait_ends at hstep
  cases hplace : s.place t with
  | idle => simp [hplace] at hstep
  | first_gate kind timed =>
    simp only [hplace] at hstep
    simp only [State.place] at hplace
    obtain ⟨hnone, hbegan⟩ := hwaiting (by simp [hplace])
    refine hinv.perform ?_ (fun _ => hbegan) hstep
    intro n hbefore
    rw [hbegan]
    rw [hnone, hplace] at hbefore
    exact .after_first_gate hbefore kind timed how
  | second_gate timed =>
    simp only [hplace] at hstep
    simp only [State.place] at hplace
    obtain ⟨hnone, hbegan⟩ := hwaiting (by simp [hplace])
    refine hinv.perform ?_ (fun _ => hbegan) hstep
    intro n hbefore
    rw [hbegan]
    rw [hnone, hplace] at hbefore
    exact .after_second_gate hbefore how

/-- A waiter that is not asleep any more. -/
theorem Inv.wake {s : State τ} (hinv : Inv s) (t : τ) {phase : Phase} (hphase : phase ≠ .asleep) :
    Inv { s with phase := Function.update s.phase t phase } := by
  refine ⟨hinv.consistent, hinv.well_formed, ?_⟩
  intro u hasleep
  simp only at hasleep
  by_cases hu : u = t
  · rw [hu, Function.update_self] at hasleep
    exact absurd hasleep hphase
  · rw [Function.update_of_ne hu] at hasleep
    exact hinv.blocked u hasleep

/-- Only a call that began with nothing waits. -/
theorem enter_waits {c : control_word_t} {op : Op} (hwaits : (op.enter c).outcome.place ≠ .idle) :
    op.requires = .none := by
  cases op with
  | unlock | unlock_sharable => exact absurd rfl hwaits
  | _ => rfl

theorem Inv.step {s s' : State τ} (hinv : Inv s) {a : Label τ} (hstep : step s a = some s') :
    Inv s' := by
  cases a with
  | call t op mutex_locked woken =>
    simp only [interprocess_sharable_mutex.step] at hstep
    split_ifs at hstep with hcall hlocked
    · refine hinv.perform ?_ ?_ hstep
      · intro n hbefore
        rw [hcall.1, hcall.2] at hbefore
        simp only [hcall.2]
        exact .enter hbefore
      · intro hwaits
        rw [← enter_waits hwaits]
        exact hcall.2
    · refine hinv.perform ?_ (fun hwaits => absurd rfl hwaits) hstep
      intro n hbefore
      rw [hcall.1] at hbefore
      exact .leave hbefore fun _ => rfl
  | spurious_wake t =>
    simp only [interprocess_sharable_mutex.step] at hstep
    split_ifs at hstep
    cases hstep
    exact hinv.wake t (by simp)
  | time_out t =>
    simp only [interprocess_sharable_mutex.step] at hstep
    split_ifs at hstep
    cases hstep
    exact hinv.wake t (by simp)
  | resume t =>
    simp only [interprocess_sharable_mutex.step] at hstep
    cases hphase : s.phase t with
    | asleep => simp [hphase] at hstep
    | notified | awake | expired =>
      simp only [hphase] at hstep
      exact hinv.wait_ends hstep
  | throw t => exact hinv.wait_ends hstep

omit [DecidableEq τ] in
theorem start_inv : Inv (start : State τ) := by
  refine ⟨?_, fun _ => ⟨fun hwaits => absurd rfl hwaits, fun _ => rfl⟩, fun _ _ => trivial⟩
  have hnobody : ∀ P : Thread → Bool, P Thread.outside = false →
      count P (fun _ : τ => Thread.outside) = 0 := by
    intro P hP
    simp [count, total_eq_zero_iff, hP]
  have htally : tally (start : State τ).threads = ⟨0, 0, 0⟩ := by
    simp only [tally, start]
    rw [hnobody (Thread.owns .exclusive) rfl, hnobody (Thread.owns .sharable) rfl,
      hnobody Thread.claims rfl]
  rw [htally]
  exact ⟨rfl, Nat.zero_le _, rfl, fun _ => rfl⟩

/-- In every state of every interleaving an exclusive owner is alone, the control
    word counts the owners and the claimant, a call that failed or threw left its
    caller what it had, and nobody sleeps without a notification at a gate that
    is open. -/
theorem ownership_and_wake_up (s : State τ) (hreach : Reachable step start s) :
    (∀ t u, (s.threads t).owned = .exclusive → u ≠ t → (s.threads u).owned = .none) ∧
      s.m_ctrl.num_shared = count (Thread.owns .sharable) s.threads ∧
      s.m_ctrl.num_shared ≤ max_readers ∧
      s.m_ctrl.exclusive_in.toNat =
        count (Thread.owns .exclusive) s.threads + count Thread.claims s.threads ∧
      (∀ t, (s.threads t).result = some .failed ∨ (s.threads t).result = some .thrown →
        (s.threads t).owned = (s.threads t).before) ∧
      (∀ t kind timed, s.phase t = .asleep → s.place t = .first_gate kind timed →
        first_gate_closed s.m_ctrl kind = true) ∧
      (∀ t timed, s.phase t = .asleep → s.place t = .second_gate timed → s.m_ctrl.num_shared ≠ 0) := by
  have hinv : Inv s := hreach.invariant start_inv fun _ _ _ hbefore _ hstep => hbefore.step hstep
  obtain ⟨hreaders, hbounded, hexclusive, halone⟩ := hinv.consistent
  have hin := Bool.toNat_le s.m_ctrl.exclusive_in
  simp only [tally] at hreaders hexclusive halone
  refine ⟨?_, hreaders, hbounded, hexclusive, fun t => (hinv.well_formed t).unchanged, ?_, ?_⟩
  · intro t u ht hne
    have htowns : Thread.owns .exclusive (s.threads t) = true := decide_eq_true ht
    have hpos := (count_pos_iff (Thread.owns .exclusive) s.threads).mpr ⟨t, htowns⟩
    have hnone := halone hpos
    cases hu : (s.threads u).owned with
    | none => rfl
    | exclusive =>
      have hle : count (Thread.owns .exclusive) s.threads ≤ 1 := by omega
      exact absurd (eq_of_count_le_one hle (decide_eq_true hu) htowns) hne
    | sharable =>
      have := (count_pos_iff (Thread.owns .sharable) s.threads).mpr ⟨u, decide_eq_true hu⟩
      omega
  · intro t kind timed hasleep hplace
    exact blocked_first hplace (hinv.blocked t hasleep)
  · intro t timed hasleep hplace
    have hblocked := hinv.blocked t hasleep
    rw [hplace] at hblocked
    exact hblocked

/-- A timed exclusive claim that gives up while a reader remains wakes the
    sharable request it held up. -/
theorem ownership_and_wake_up_of_timed_out_claim :
    ∃ s : State (Fin 3), Reachable step start s ∧ (s.threads 0).result = some .failed ∧
      (s.threads 0).owned = (s.threads 0).before ∧ s.m_ctrl.num_shared = 1 ∧
      s.phase 2 = .notified := by
  obtain ⟨s, hreach, hs⟩ := exists_reachable_of_replay step start
    [.call (1 : Fin 3) .lock_sharable true none, .call 0 .timed_lock true none,
      .call 2 .lock_sharable true none, .time_out 0, .resume 0]
    (fun s => (s.threads 0).result = some .failed ∧ s.m_ctrl.num_shared = 1 ∧
      s.phase 2 = .notified) (by decide)
  obtain ⟨hresult, hreaders, hnotified⟩ := of_decide_eq_true hs
  exact ⟨s, hreach, hresult, (ownership_and_wake_up s hreach).2.2.2.2.1 0 (Or.inl hresult), hreaders,
    hnotified⟩

end Runs

end interprocess.interprocess_sharable_mutex
