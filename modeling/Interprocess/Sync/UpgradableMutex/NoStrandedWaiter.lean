import Interprocess.Sync.UpgradableMutex.Gates
import Interprocess.Sync.UpgradableMutex.Ownership

open Count Transition

namespace interprocess.interprocess_upgradable_mutex

/-- The condition on which a thread waits. -/
def Place.blocked (c : control_word_t) : Place → Prop
  | .idle => True
  | .first_gate kind _ => first_gate_closed c kind = true
  | .second_gate _ _ => c.num_upr_shar ≠ 0

/-- What a section does to the waiters it does not notify: a closed first gate
    stays closed, and readers remain if a claimant waits for them. -/
structure Keeps (n : Tally) (c c' : control_word_t) (notification : Notification) : Prop where
  first : notification ≠ .first_gate_all → ∀ kind, first_gate_closed c kind = true →
    first_gate_closed c' kind = true
  second : notification ≠ .second_gate_one → 0 < n.lockers + n.promoters → c.num_upr_shar ≠ 0 →
    c'.num_upr_shar ≠ 0

theorem Keeps.refl (n : Tally) (c : control_word_t) (notification : Notification) :
    Keeps n c c notification :=
  ⟨fun _ _ hclosed => hclosed, fun _ _ hreaders => hreaders⟩

/-- A section that leaves the exclusive flag set notifies nobody at the first
    gate. -/
theorem Keeps.of_exclusive {n : Tally} {c c' : control_word_t} {notification : Notification}
    (hexclusive : c'.exclusive_in = true)
    (hsecond : 0 < n.lockers + n.promoters → c.num_upr_shar ≠ 0 → c'.num_upr_shar ≠ 0) :
    Keeps n c c' notification := by
  refine ⟨?_, fun _ => hsecond⟩
  intro _ kind _
  cases kind <;> simp [first_gate_closed, hexclusive]

theorem Keeps.pass_first_gate (n : Tally) {c : control_word_t} {kind : Kind} (timed : Bool)
    (hopen : first_gate_closed c kind ≠ true) : Keeps n c (pass_first_gate c timed kind).1 .none := by
  cases kind with
  | exclusive =>
    simp only [interprocess_upgradable_mutex.pass_first_gate, pass_second_gate]
    split_ifs <;> exact .of_exclusive rfl fun _ hreaders => hreaders
  | upgradable =>
    simp only [first_gate_closed, ne_eq, Bool.or_eq_true, not_or, Bool.not_eq_true,
      beq_iff_eq] at hopen
    refine ⟨?_, ?_⟩
    · intro _ kind hclosed
      cases kind <;> simp [first_gate_closed, hopen] at hclosed
    · intro _ _ _
      simp only [interprocess_upgradable_mutex.pass_first_gate]
      rw [inc_of_ne hopen.2]
      exact Nat.succ_ne_zero _
  | sharable =>
    simp only [first_gate_closed, ne_eq, Bool.or_eq_true, not_or, Bool.not_eq_true,
      beq_iff_eq] at hopen
    refine ⟨?_, ?_⟩
    · intro _ kind hclosed
      cases kind <;> simp [first_gate_closed, hopen, interprocess_upgradable_mutex.pass_first_gate]
        at hclosed ⊢
      · exact hclosed
      · exact Or.inl hclosed
    · intro _ _ _
      simp only [interprocess_upgradable_mutex.pass_first_gate]
      rw [inc_of_ne hopen.2]
      exact Nat.succ_ne_zero _

theorem Keeps.lock_kind (n : Tally) (c : control_word_t) (kind : Kind) (timed : Bool) :
    Keeps n c (lock_kind c kind timed).1 .none := by
  unfold interprocess_upgradable_mutex.lock_kind
  split_ifs with hclosed
  · exact .refl n c _
  · exact .pass_first_gate n timed hclosed

theorem Keeps.try_kind (n : Tally) (c : control_word_t) (kind : Kind) :
    Keeps n c (try_kind c kind).1 .none := by
  unfold interprocess_upgradable_mutex.try_kind
  split_ifs with hclosed
  · exact .refl n c _
  · exact .pass_first_gate n false hclosed

/-- A promotion sets the exclusive flag, and nobody waits at the second gate. -/
theorem Keeps.promote {n : Tally} {c : control_word_t} (h : Consistent c (n.with_owner .upgradable))
    (timed : Bool) : Keeps n c (promote c timed).1 .none := by
  unfold interprocess_upgradable_mutex.promote pass_second_gate
  have hclaimed := h.claimed
  simp only [Tally.with_owner] at hclaimed
  split_ifs <;> exact .of_exclusive rfl fun hclaim _ => absurd (hclaimed hclaim) (Nat.succ_ne_zero _)

/-- An exclusive owner leaves: nobody waits at the second gate. -/
theorem Keeps.release_exclusive {n : Tally} {c : control_word_t}
    (h : Consistent c (n.with_owner .exclusive)) (c' : control_word_t) :
    Keeps n c c' .first_gate_all := by
  refine ⟨fun hnot => absurd rfl hnot, ?_⟩
  intro _ hclaim _
  have hexclusive := h.exclusive
  have hin := Bool.toNat_le c.exclusive_in
  simp only [Tally.with_owner] at hexclusive
  omega

/-- An upgradable owner leaves: nobody waits at the second gate. -/
theorem Keeps.release_upgradable {n : Tally} {c : control_word_t}
    (h : Consistent c (n.with_owner .upgradable)) (c' : control_word_t) :
    Keeps n c c' .first_gate_all := by
  refine ⟨fun hnot => absurd rfl hnot, ?_⟩
  intro _ hclaim _
  have hclaimed := h.claimed hclaim
  simp only [Tally.with_owner] at hclaimed
  omega

theorem Keeps.unlock_sharable {n : Tally} {c : control_word_t}
    (h : Consistent c (n.with_owner .sharable)) :
    Keeps n c (unlock_sharable c).1 (Op.notifies (unlock_sharable c).1 .unlock_sharable) := by
  have hreaders := h.readers_pos (Or.inl rfl)
  have hmax : 1 < max_readers := by decide
  have hleft : (interprocess_upgradable_mutex.unlock_sharable c).1 =
      { c with num_upr_shar := c.num_upr_shar - 1 } := by
    simp only [interprocess_upgradable_mutex.unlock_sharable, dec_of_ne hreaders]
  rw [hleft]
  refine ⟨?_, ?_⟩
  · intro hnot kind hclosed
    simp only [Op.notifies] at hnot
    have hroom : c.num_upr_shar ≠ max_readers := by
      intro hfull
      rw [hfull, if_neg (by omega), if_pos rfl] at hnot
      exact hnot rfl
    cases kind <;> simp [first_gate_closed, hroom] at hclosed ⊢
    · exact hclosed
    · exact Or.inl hclosed
    · exact Or.inl hclosed
  · intro hnot _ _ hzero
    exact hnot (if_pos hzero)

/-- The first section of every operation. -/
theorem Keeps.enter {n : Tally} {c : control_word_t} {op : Op}
    (h : Consistent c (n.with_owner op.requires)) :
    Keeps n c (op.enter c).1 (op.notifies (op.enter c).1) := by
  cases op with
  | lock => exact .lock_kind n c .exclusive false
  | timed_lock => exact .lock_kind n c .exclusive true
  | lock_upgradable => exact .lock_kind n c .upgradable false
  | timed_lock_upgradable => exact .lock_kind n c .upgradable true
  | try_lock_upgradable => exact .try_kind n c .upgradable
  | lock_sharable => exact .lock_kind n c .sharable false
  | timed_lock_sharable => exact .lock_kind n c .sharable true
  | try_lock_sharable => exact .try_kind n c .sharable
  | try_lock =>
    simp only [Op.enter, try_lock]
    split_ifs
    · exact .refl n c _
    · exact .of_exclusive rfl fun _ hreaders => hreaders
  | unlock => exact .release_exclusive h _
  | unlock_and_lock_upgradable => exact .release_exclusive h _
  | unlock_and_lock_sharable => exact .release_exclusive h _
  | unlock_upgradable => exact .release_upgradable h _
  | unlock_upgradable_and_lock_sharable => exact .release_upgradable h _
  | unlock_sharable => exact .unlock_sharable h
  | unlock_upgradable_and_lock => exact .promote h false
  | timed_unlock_upgradable_and_lock => exact .promote h true
  | try_unlock_upgradable_and_lock =>
    have hclaimed := h.claimed
    simp only [Op.requires, Tally.with_owner] at hclaimed
    simp only [Op.enter, try_unlock_upgradable_and_lock]
    split_ifs
    · exact .refl n c _
    · exact .of_exclusive rfl fun hclaim _ => absurd (hclaimed hclaim) (Nat.succ_ne_zero _)
  | try_unlock_sharable_and_lock =>
    have hexclusive := h.exclusive
    simp only [Op.requires, Tally.with_owner] at hexclusive
    simp only [Op.enter, try_unlock_sharable_and_lock]
    split_ifs with hbusy
    · exact .refl n c _
    · simp only [Bool.or_eq_true, not_or, Bool.not_eq_true] at hbusy
      rw [hbusy.1.1, Bool.toNat_false] at hexclusive
      refine .of_exclusive rfl ?_
      intro hclaim
      omega
  | try_unlock_sharable_and_lock_upgradable =>
    simp only [Op.enter, try_unlock_sharable_and_lock_upgradable]
    split_ifs with hbusy
    · exact .refl n c _
    · refine ⟨?_, fun _ _ hreaders => hreaders⟩
      intro _ kind hclosed
      simp only [Bool.or_eq_true, not_or, Bool.not_eq_true] at hbusy
      cases kind <;> simp [first_gate_closed, hbusy] at hclosed ⊢
      exact hclosed

theorem Keeps.after_first_gate (n : Tally) (c : control_word_t) (kind : Kind) (timed : Bool)
    (how : WaitEnd) : Keeps n c (after_first_gate c kind timed how).1 .none := by
  cases how with
  | woken => exact .lock_kind n c kind timed
  | timed_out =>
    simp only [interprocess_upgradable_mutex.after_first_gate]
    split_ifs with hclosed
    · exact .refl n c _
    · exact .pass_first_gate n timed hclosed
  | thrown => exact .refl n c _

theorem blocked_first {c : control_word_t} {place : Place} {kind : Kind} {timed : Bool}
    (hplace : place = .first_gate kind timed) (hblocked : place.blocked c) :
    first_gate_closed c kind = true := by
  rw [hplace] at hblocked
  exact hblocked

theorem blocked_second {c : control_word_t} {place : Place} (hplace : place.at_second_gate = true)
    (hblocked : place.blocked c) : c.num_upr_shar ≠ 0 := by
  cases place with
  | idle | first_gate _ _ => cases hplace
  | second_gate rollback timed => exact hblocked

/-- Where a section leaves its thread. -/
def Outcome.place : Outcome → Place
  | .done _ _ => .idle
  | .wait place => place

theorem advance_place (th : Thread) (outcome : Outcome) : (th.advance outcome).place = outcome.place := by
  cases outcome <;> rfl

theorem blocked_pass_second_gate (c : control_word_t) (rollback : Rollback) (timed : Bool) :
    (pass_second_gate c rollback timed).2.place.blocked (pass_second_gate c rollback timed).1 := by
  unfold pass_second_gate
  split_ifs with hreaders
  · exact hreaders
  · trivial

theorem blocked_pass_first_gate (c : control_word_t) (timed : Bool) (kind : Kind) :
    (pass_first_gate c timed kind).2.place.blocked (pass_first_gate c timed kind).1 := by
  cases kind with
  | exclusive => exact blocked_pass_second_gate _ _ timed
  | upgradable | sharable => trivial

theorem blocked_lock_kind (c : control_word_t) (kind : Kind) (timed : Bool) :
    (lock_kind c kind timed).2.place.blocked (lock_kind c kind timed).1 := by
  unfold lock_kind
  split_ifs with hclosed
  · exact hclosed
  · exact blocked_pass_first_gate c timed kind

theorem blocked_try_kind (c : control_word_t) (kind : Kind) :
    (try_kind c kind).2.place.blocked (try_kind c kind).1 := by
  unfold try_kind
  split_ifs
  · trivial
  · exact blocked_pass_first_gate c false kind

/-- A thread begins to wait only when it has to. -/
theorem blocked_enter (c : control_word_t) (op : Op) : (op.enter c).2.place.blocked (op.enter c).1 := by
  cases op with
  | lock => exact blocked_lock_kind c .exclusive false
  | timed_lock => exact blocked_lock_kind c .exclusive true
  | lock_upgradable => exact blocked_lock_kind c .upgradable false
  | timed_lock_upgradable => exact blocked_lock_kind c .upgradable true
  | try_lock_upgradable => exact blocked_try_kind c .upgradable
  | lock_sharable => exact blocked_lock_kind c .sharable false
  | timed_lock_sharable => exact blocked_lock_kind c .sharable true
  | try_lock_sharable => exact blocked_try_kind c .sharable
  | unlock_upgradable_and_lock => exact blocked_pass_second_gate _ _ false
  | timed_unlock_upgradable_and_lock => exact blocked_pass_second_gate _ _ true
  | try_lock =>
    simp only [Op.enter, try_lock]
    split_ifs <;> trivial
  | try_unlock_upgradable_and_lock =>
    simp only [Op.enter, try_unlock_upgradable_and_lock]
    split_ifs <;> trivial
  | try_unlock_sharable_and_lock =>
    simp only [Op.enter, try_unlock_sharable_and_lock]
    split_ifs <;> trivial
  | try_unlock_sharable_and_lock_upgradable =>
    simp only [Op.enter, try_unlock_sharable_and_lock_upgradable]
    split_ifs <;> trivial
  | unlock | unlock_upgradable | unlock_sharable | unlock_and_lock_upgradable
  | unlock_and_lock_sharable | unlock_upgradable_and_lock_sharable => trivial

theorem blocked_after_first_gate (c : control_word_t) (kind : Kind) (timed : Bool) (how : WaitEnd) :
    (after_first_gate c kind timed how).2.place.blocked (after_first_gate c kind timed how).1 := by
  cases how with
  | woken => exact blocked_lock_kind c kind timed
  | timed_out =>
    simp only [after_first_gate]
    split_ifs
    · trivial
    · exact blocked_pass_first_gate c timed kind
  | thrown => trivial

theorem blocked_after_second_gate (c : control_word_t) (rollback : Rollback) (timed : Bool)
    (how : WaitEnd) :
    (after_second_gate c rollback timed how).2.place.blocked
      (after_second_gate c rollback timed how).1 := by
  cases how with
  | woken => exact blocked_pass_second_gate c rollback timed
  | timed_out =>
    simp only [after_second_gate]
    split_ifs <;> trivial
  | thrown => trivial

/-- The section after a wait at the second gate rolls back or leaves the control
    word alone. -/
theorem after_second_gate_ctrl (c : control_word_t) (rollback : Rollback) (timed : Bool)
    (how : WaitEnd) :
    (after_second_gate c rollback timed how).1 =
      if rolls_back c how then roll_back c rollback else c := by
  cases how with
  | woken =>
    simp only [after_second_gate, pass_second_gate, rolls_back, Bool.false_eq_true, if_false]
    split_ifs <;> rfl
  | timed_out =>
    by_cases hreaders : c.num_upr_shar = 0
    · simp [after_second_gate, rolls_back, hreaders]
    · simp [after_second_gate, rolls_back, hreaders]
  | thrown => rfl

section Runs

variable {τ : Type} [Fintype τ]

/-- A promotion is not rolled back while a sharable request sleeps at the first
    gate that the rollback opens for it. -/
def PromotionKept {τ : Type} (s : GateState τ) (t : τ) : Prop :=
  ∀ timed, s.place t = .second_gate .upgradable_to_exclusive_rollback timed →
    ∀ u timed', s.phase u = .asleep → s.place u = .first_gate .sharable timed' →
      s.base.m_ctrl.num_upr_shar + 1 = max_readers

/-- The condition on each step under which no waiter is stranded. -/
def NobodyHeldUp {τ : Type} (s : GateState τ) : GateLabel τ → Prop
  | .resume t => s.phase t = .expired → s.base.m_ctrl.num_upr_shar ≠ 0 → PromotionKept s t
  | .throw t => PromotionKept s t
  | _ => True

instance [DecidableEq τ] (s : GateState τ) (t : τ) : Decidable (PromotionKept s t) :=
  inferInstanceAs (Decidable (∀ timed, s.place t = .second_gate .upgradable_to_exclusive_rollback timed →
    ∀ u timed', s.phase u = .asleep → s.place u = .first_gate .sharable timed' →
      s.base.m_ctrl.num_upr_shar + 1 = max_readers))

instance [DecidableEq τ] (s : GateState τ) (a : GateLabel τ) : Decidable (NobodyHeldUp s a) :=
  match a with
  | .call _ _ _ _ | .spurious_wake _ | .time_out _ => inferInstanceAs (Decidable True)
  | .resume t => inferInstanceAs (Decidable (s.phase t = .expired →
      s.base.m_ctrl.num_upr_shar ≠ 0 → PromotionKept s t))
  | .throw t => inferInstanceAs (Decidable (PromotionKept s t))

structure GateInv (s : GateState τ) : Prop where
  base : Inv s.base
  blocked : ∀ t, s.phase t = .asleep → (s.place t).blocked s.base.m_ctrl

/-- A thread at the second gate is a claimant. -/
theorem claimants_pos {threads : τ → Thread} {t : τ} (ht : (threads t).place.at_second_gate = true) :
    0 < (tally threads).lockers + (tally threads).promoters := by
  cases hplace : (threads t).place with
  | idle | first_gate _ _ =>
    rw [hplace] at ht
    cases ht
  | second_gate rollback timed =>
    have hclaims : (threads t).claims rollback = true := by
      simp [Thread.claims, hplace]
    have hpos := (count_pos_iff (Thread.claims rollback) threads).mpr ⟨t, hclaims⟩
    cases rollback <;> simp only [tally] <;> omega

/-- There is one claimant at most. -/
theorem Inv.claimant_unique {s : State τ} (hinv : Inv s) {t u : τ}
    (ht : (s.threads t).place.at_second_gate = true) (hu : (s.threads u).place.at_second_gate = true) :
    t = u := by
  have hexclusive := hinv.consistent.exclusive
  have hin := Bool.toNat_le s.m_ctrl.exclusive_in
  simp only [tally] at hexclusive
  obtain ⟨rollback, hrollback⟩ : ∃ rollback, (s.threads t).claims rollback = true := by
    cases hplace : (s.threads t).place with
    | idle | first_gate _ _ =>
      rw [hplace] at ht
      cases ht
    | second_gate rollback timed => exact ⟨rollback, by simp [Thread.claims, hplace]⟩
  obtain ⟨rollback', hrollback'⟩ : ∃ rollback, (s.threads u).claims rollback = true := by
    cases hplace : (s.threads u).place with
    | idle | first_gate _ _ =>
      rw [hplace] at hu
      cases hu
    | second_gate rollback timed => exact ⟨rollback, by simp [Thread.claims, hplace]⟩
  have hpos := (count_pos_iff (Thread.claims rollback) s.threads).mpr ⟨t, hrollback⟩
  have hpos' := (count_pos_iff (Thread.claims rollback') s.threads).mpr ⟨u, hrollback'⟩
  cases rollback <;> cases rollback' <;>
    first
      | exact eq_of_count_le_one (by omega) hrollback hrollback'
      | omega

variable [DecidableEq τ]

/-- The claimants among the other threads. -/
theorem others_claim {threads : τ → Thread} {t u : τ} {n : Tally}
    (hupdate : ∀ th, tally (Function.update threads t th) = n.add th) (hu : u ≠ t)
    (hplace : (threads u).place.at_second_gate = true) : 0 < n.lockers + n.promoters := by
  have hupdated : (Function.update threads t Thread.outside u).place.at_second_gate = true := by
    rw [Function.update_of_ne hu]
    exact hplace
  have hpos := claimants_pos hupdated
  rwa [hupdate] at hpos

/-- A section leaves nobody stranded when it notifies those whose gate it opens. -/
theorem GateInv.after_section {s s' : GateState τ} {t : τ} {woken : Option τ}
    {notification : Notification} {c : control_word_t} {th : Thread}
    (hbase : Inv { m_ctrl := c, threads := Function.update s.base.threads t th })
    (hfirst : notification ≠ .first_gate_all → ∀ u kind timed, u ≠ t → s.phase u = .asleep →
      s.place u = .first_gate kind timed → first_gate_closed c kind = true)
    (hsecond : notification ≠ .second_gate_one → ∀ u, u ≠ t → s.phase u = .asleep →
      (s.place u).at_second_gate = true → c.num_upr_shar ≠ 0)
    (hself : th.place.blocked c)
    (hstep : s.after_section t woken notification
      { m_ctrl := c, threads := Function.update s.base.threads t th } = some s') : GateInv s' := by
  let mid : GateState τ := ⟨{ m_ctrl := c, threads := Function.update s.base.threads t th },
    Function.update s.phase t .asleep⟩
  have hplace : ∀ u, u ≠ t → mid.place u = s.place u := by
    intro u hu
    simp only [mid, GateState.place, Function.update_of_ne hu]
  have hphase : ∀ u, u ≠ t → mid.phase u = s.phase u := fun u hu => Function.update_of_ne hu _ _
  have hat : mid.place t = th.place := by
    simp only [mid, GateState.place, Function.update_self]
  have hblocked : ∀ u, mid.phase u = .asleep →
      (notification = .first_gate_all → (mid.place u).at_first_gate = false) →
      (notification = .second_gate_one → (mid.place u).at_second_gate = false) →
      (mid.place u).blocked c := by
    intro u hasleep hnotfirst hnotsecond
    by_cases hu : u = t
    · rw [hu, hat]
      exact hself
    · rw [hphase u hu] at hasleep
      rw [hplace u hu] at hnotfirst hnotsecond ⊢
      cases hpl : s.place u with
      | idle => trivial
      | first_gate kind timed =>
        refine hfirst ?_ u kind timed hu hasleep hpl
        intro hall
        have hfalse := hnotfirst hall
        rw [hpl] at hfalse
        cases hfalse
      | second_gate rollback timed =>
        refine hsecond ?_ u hu hasleep (by rw [hpl]; rfl)
        intro hone
        have hfalse := hnotsecond hone
        rw [hpl] at hfalse
        cases hfalse
  cases notification with
  | none =>
    cases hstep
    exact ⟨hbase, fun u hasleep => hblocked u hasleep (by simp) (by simp)⟩
  | first_gate_all =>
    cases hstep
    refine ⟨hbase, ?_⟩
    intro u hasleep
    simp only [GateState.notify_all_first] at hasleep
    split_ifs at hasleep with hnotified
    refine hblocked u hasleep (fun _ => ?_) (by simp)
    cases hgate : (mid.place u).at_first_gate with
    | false => rfl
    | true => exact absurd ⟨hasleep, hgate⟩ hnotified
  | second_gate_one =>
    cases woken with
    | none =>
      simp only [GateState.after_section, GateState.notify, GateState.notify_one_second] at hstep
      split_ifs at hstep with hnobody
      cases hstep
      refine ⟨hbase, ?_⟩
      intro u hasleep
      refine hblocked u hasleep (by simp) fun _ => ?_
      have hnot := hnobody u
      simp only [GateState.asleep_second, decide_eq_false_iff_not, not_and, Bool.not_eq_true] at hnot
      exact hnot hasleep
    | some w =>
      simp only [GateState.after_section, GateState.notify, GateState.notify_one_second] at hstep
      split_ifs at hstep with hw
      cases hstep
      refine ⟨hbase, ?_⟩
      intro u hasleep
      have huw : u ≠ w := by
        rintro rfl
        simp only [Function.update_self] at hasleep
        cases hasleep
      simp only [Function.update_of_ne huw] at hasleep
      refine hblocked u hasleep (by simp) fun _ => ?_
      simp only [GateState.asleep_second, decide_eq_true_eq] at hw
      cases hgate : (mid.place u).at_second_gate with
      | false => rfl
      | true => exact absurd (hbase.claimant_unique hgate hw.2) huw

theorem GateInv.call {s s' : GateState τ} (hinv : GateInv s) {t : τ} {op : Op} {mutex_locked : Bool}
    {woken : Option τ} (hstep : gate_step s (.call t op mutex_locked woken) = some s') :
    GateInv s' := by
  unfold gate_step at hstep
  cases hbase : step s.base (.call t op mutex_locked) with
  | none => simp [hbase] at hstep
  | some base =>
    simp only [hbase] at hstep
    have hnew := hinv.base.step hbase
    simp only [step] at hbase
    split_ifs at hbase with hcall hlocked
    · cases hbase
      obtain ⟨n, htally, hupdate⟩ := exists_tally_update s.base.threads t
      have hkeeps : Keeps n s.base.m_ctrl (op.enter s.base.m_ctrl).1
          (op.notifies (op.enter s.base.m_ctrl).1) := by
        apply Keeps.enter
        rw [← hcall.2, ← n.add_idle hcall.1, ← htally]
        exact hinv.base.consistent
      rw [if_pos hlocked] at hstep
      refine GateInv.after_section hnew ?_ ?_ ?_ hstep
      · intro hnot u kind timed _ hasleep hplace
        exact hkeeps.first hnot kind (blocked_first hplace (hinv.blocked u hasleep))
      · intro hnot u hu hasleep hplace
        exact hkeeps.second hnot (others_claim hupdate hu hplace)
          (blocked_second hplace (hinv.blocked u hasleep))
      · rw [advance_place]
        exact blocked_enter s.base.m_ctrl op
    · cases hbase
      rw [if_neg hlocked] at hstep
      refine GateInv.after_section hnew ?_ ?_ trivial hstep
      · intro _ u kind timed _ hasleep hplace
        exact blocked_first hplace (hinv.blocked u hasleep)
      · intro _ u _ hasleep hplace
        exact blocked_second hplace (hinv.blocked u hasleep)

/-- The section after a wait at the first gate. -/
theorem GateInv.first_gate_ends {s s' : GateState τ} (hinv : GateInv s) {t : τ} {kind : Kind}
    {timed : Bool} {how : WaitEnd} (hplace : s.place t = .first_gate kind timed)
    (hstep : wait_ends s t how = some s') : GateInv s' := by
  unfold wait_ends at hstep
  cases hbase : step s.base (.wait_end t how) with
  | none => simp [hbase] at hstep
  | some base =>
    simp only [hbase] at hstep
    have hnew := hinv.base.step hbase
    have hat : (s.base.threads t).place = .first_gate kind timed := hplace
    simp only [step, hat] at hbase
    split_ifs at hbase
    cases hbase
    obtain ⟨n, _, hupdate⟩ := exists_tally_update s.base.threads t
    have hkeeps := Keeps.after_first_gate n s.base.m_ctrl kind timed how
    rw [hplace] at hstep
    refine GateInv.after_section hnew ?_ ?_ ?_ hstep
    · intro _ u kind' timed' _ hasleep hpl
      exact hkeeps.first (by simp) kind' (blocked_first hpl (hinv.blocked u hasleep))
    · intro _ u hu hasleep hpl
      exact hkeeps.second (by simp) (others_claim hupdate hu hpl)
        (blocked_second hpl (hinv.blocked u hasleep))
    · rw [advance_place]
      exact blocked_after_first_gate s.base.m_ctrl kind timed how

/-- The section after a wait at the second gate. -/
theorem GateInv.second_gate_ends {s s' : GateState τ} (hinv : GateInv s) {t : τ} {rollback : Rollback}
    {timed : Bool} {how : WaitEnd} (hplace : s.place t = .second_gate rollback timed)
    (hkept : rolls_back s.base.m_ctrl how = true → PromotionKept s t)
    (hstep : wait_ends s t how = some s') : GateInv s' := by
  unfold wait_ends at hstep
  cases hbase : step s.base (.wait_end t how) with
  | none => simp [hbase] at hstep
  | some base =>
    simp only [hbase] at hstep
    have hnew := hinv.base.step hbase
    have hat : (s.base.threads t).place = .second_gate rollback timed := hplace
    simp only [step, hat] at hbase
    split_ifs at hbase
    cases hbase
    rw [hplace] at hstep
    refine GateInv.after_section hnew ?_ ?_ ?_ hstep
    · intro hnot u kind timed' _ hasleep hpl
      have hclosed := blocked_first hpl (hinv.blocked u hasleep)
      rw [after_second_gate_ctrl]
      split_ifs with hrolls
      · simp only [Place.notifies, if_pos hrolls] at hnot
        cases rollback with
        | exclusive_rollback => exact absurd rfl hnot
        | upgradable_to_exclusive_rollback =>
          cases kind with
          | exclusive => simp [first_gate_closed, roll_back]
          | upgradable => simp [first_gate_closed, roll_back]
          | sharable =>
            have hfull := hkept hrolls timed hplace u timed' hasleep hpl
            have hroom : s.base.m_ctrl.num_upr_shar ≠ max_readers := by omega
            simp only [first_gate_closed, roll_back, inc_of_ne hroom, hfull, beq_self_eq_true,
              Bool.or_true]
      · exact hclosed
    · intro _ u hu _ hpl
      exact absurd (hinv.base.claimant_unique hpl (by rw [hat]; rfl)) hu
    · rw [advance_place]
      exact blocked_after_second_gate s.base.m_ctrl rollback timed how

theorem GateInv.wait_ends {s s' : GateState τ} (hinv : GateInv s) {t : τ} {how : WaitEnd}
    (hkept : rolls_back s.base.m_ctrl how = true → PromotionKept s t)
    (hstep : wait_ends s t how = some s') : GateInv s' := by
  cases hplace : s.place t with
  | idle =>
    have hat : (s.base.threads t).place = .idle := hplace
    simp only [interprocess_upgradable_mutex.wait_ends, step, hat] at hstep
    cases hstep
  | first_gate kind timed => exact hinv.first_gate_ends hplace hstep
  | second_gate rollback timed => exact hinv.second_gate_ends hplace hkept hstep

/-- A waiter that is not asleep any more. -/
theorem GateInv.wake {s : GateState τ} (hinv : GateInv s) (t : τ) {phase : Phase}
    (hphase : phase ≠ .asleep) :
    GateInv { s with phase := Function.update s.phase t phase } := by
  refine ⟨hinv.base, ?_⟩
  intro u hasleep
  simp only at hasleep
  by_cases hu : u = t
  · rw [hu, Function.update_self] at hasleep
    exact absurd hasleep hphase
  · rw [Function.update_of_ne hu] at hasleep
    exact hinv.blocked u hasleep

theorem GateInv.step {s s' : GateState τ} (hinv : GateInv s) {a : GateLabel τ}
    (hallowed : NobodyHeldUp s a) (hstep : gate_step s a = some s') : GateInv s' := by
  cases a with
  | call t op mutex_locked woken => exact hinv.call hstep
  | spurious_wake t =>
    simp only [gate_step] at hstep
    split_ifs at hstep
    cases hstep
    exact hinv.wake t (by simp)
  | time_out t =>
    simp only [gate_step] at hstep
    split_ifs at hstep
    cases hstep
    exact hinv.wake t (by simp)
  | resume t =>
    simp only [gate_step] at hstep
    cases hphase : s.phase t with
    | asleep => simp [hphase] at hstep
    | notified | awake =>
      simp only [hphase] at hstep
      refine hinv.wait_ends ?_ hstep
      intro hrolls
      cases hrolls
    | expired =>
      simp only [hphase] at hstep
      refine hinv.wait_ends ?_ hstep
      intro hrolls
      exact hallowed hphase (of_decide_eq_true hrolls)
  | throw t =>
    simp only [gate_step] at hstep
    exact hinv.wait_ends (fun _ => hallowed) hstep

omit [DecidableEq τ] in
theorem gate_start_inv : GateInv (gate_start : GateState τ) where
  base := start_inv
  blocked := fun _ _ => trivial

/-- In every run in which no promotion is rolled back over a sleeping sharable
    request, no thread sleeps at a gate whose condition does not hold any more. -/
theorem leaves_no_stranded_waiter (s : GateState τ) (hrun : Reaches gate_step NobodyHeldUp gate_start s) :
    (∀ t kind timed, s.phase t = .asleep → s.place t = .first_gate kind timed →
      first_gate_closed s.base.m_ctrl kind = true) ∧
    ∀ t rollback timed, s.phase t = .asleep → s.place t = .second_gate rollback timed →
      s.base.m_ctrl.num_upr_shar ≠ 0 := by
  have hinv : GateInv s := hrun.invariant gate_start_inv fun _ _ _ hbefore hallowed hstep =>
    hbefore.step hallowed hstep
  refine ⟨?_, ?_⟩
  · intro t kind timed hasleep hplace
    exact blocked_first hplace (hinv.blocked t hasleep)
  · intro t rollback timed hasleep hplace
    exact blocked_second (by rw [hplace]; rfl) (hinv.blocked t hasleep)

/-- An exclusive request and a sharable one come while a promotion waits for a reader. The
    sharable one wakes by itself before the promotion is rolled back, and the exclusive one
    sleeps behind the upgradable owner that the rollback restores. -/
theorem leaves_no_stranded_waiter_after_rollback :
    ∃ s : GateState (Fin 4), Reaches gate_step NobodyHeldUp gate_start s ∧
      s.base.m_ctrl.exclusive_in = false ∧ s.base.m_ctrl.num_upr_shar = 2 ∧
      s.phase 2 = .asleep ∧ s.place 2 = .first_gate .exclusive false ∧
      s.phase 3 = .awake ∧ s.place 3 = .first_gate .sharable false ∧
      first_gate_closed s.base.m_ctrl .exclusive = true := by
  obtain ⟨s, hrun, hs⟩ := exists_reaches_of_replay gate_step NobodyHeldUp gate_start
    [.call (0 : Fin 4) .lock_upgradable true none, .call 1 .lock_sharable true none,
      .call 0 .timed_unlock_upgradable_and_lock true none, .call 2 .lock true none,
      .call 3 .lock_sharable true none, .spurious_wake 3, .time_out 0, .resume 0]
    (fun s => s.base.m_ctrl.exclusive_in = false ∧ s.base.m_ctrl.num_upr_shar = 2 ∧
      s.phase 2 = .asleep ∧ s.place 2 = .first_gate .exclusive false ∧
      s.phase 3 = .awake ∧ s.place 3 = .first_gate .sharable false) (by decide)
  obtain ⟨hexclusive, hreaders, hasleep, hplace, hawake, hwakes⟩ := of_decide_eq_true hs
  exact ⟨s, hrun, hexclusive, hreaders, hasleep, hplace, hawake, hwakes,
    (leaves_no_stranded_waiter s hrun).1 2 .exclusive false hasleep hplace⟩

/-- A timed promotion that gives up leaves a sharable request asleep at an open
    gate. -/
theorem timed_out_promotion_strands_a_reader :
    ∃ s : GateState (Fin 3), Reachable gate_step gate_start s ∧ s.phase 2 = .asleep ∧
      s.place 2 = .first_gate .sharable false ∧
      first_gate_closed s.base.m_ctrl .sharable = false := by
  obtain ⟨s, hreach, hs⟩ := exists_reachable_of_replay gate_step gate_start
    [.call (0 : Fin 3) .lock_upgradable true none, .call 1 .lock_sharable true none,
      .call 0 .timed_unlock_upgradable_and_lock true none, .call 2 .lock_sharable true none,
      .time_out 0, .resume 0]
    (fun s => s.phase 2 = .asleep ∧ s.place 2 = .first_gate .sharable false ∧
      first_gate_closed s.base.m_ctrl .sharable = false) (by decide)
  exact ⟨s, hreach, of_decide_eq_true hs⟩

end Runs

end interprocess.interprocess_upgradable_mutex
