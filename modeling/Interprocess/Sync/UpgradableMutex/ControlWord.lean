import Mathlib.Tactic.MkIffOfInductiveProp
import Mathlib.Tactic.SplitIfs
import Mathlib.Data.Bool.Basic
import Interprocess.Sync.UpgradableMutex.Operations

namespace interprocess.interprocess_upgradable_mutex

def Thread.owns (ownership : Ownership) (th : Thread) : Bool :=
  th.owned = ownership

/-- A thread that set the exclusive flag and waits for the readers. -/
def Thread.claims (rollback : Rollback) (th : Thread) : Bool :=
  match th.place with
  | .second_gate rollback' _ => rollback' = rollback
  | _ => false

/-- How many threads own exclusively, upgradably and sharably, and how many
    wait at the second gate with either rollback object. -/
structure Tally where
  exclusive : Nat
  upgradable : Nat
  sharable : Nat
  lockers : Nat
  promoters : Nat

/-- The control word describes the owners and claimants. -/
@[mk_iff]
structure Consistent (c : control_word_t) (n : Tally) : Prop where
  readers : c.num_upr_shar = n.sharable + n.upgradable
  bounded : c.num_upr_shar + n.promoters ≤ max_readers
  exclusive : c.exclusive_in.toNat = n.exclusive + n.lockers + n.promoters
  upgradable : c.upgradable_in.toNat = n.upgradable
  alone : 0 < n.exclusive → c.num_upr_shar = 0
  claimed : 0 < n.lockers + n.promoters → n.upgradable = 0

/-- The tally of the other threads with one thread added. -/
def Tally.add (n : Tally) (th : Thread) : Tally where
  exclusive := n.exclusive + (th.owns .exclusive).toNat
  upgradable := n.upgradable + (th.owns .upgradable).toNat
  sharable := n.sharable + (th.owns .sharable).toNat
  lockers := n.lockers + (th.claims .exclusive_rollback).toNat
  promoters := n.promoters + (th.claims .upgradable_to_exclusive_rollback).toNat

/-- The tally with one owner more. -/
def Tally.with_owner (n : Tally) : Ownership → Tally
  | .none => n
  | .sharable => { n with sharable := n.sharable + 1 }
  | .upgradable => { n with upgradable := n.upgradable + 1 }
  | .exclusive => { n with exclusive := n.exclusive + 1 }

/-- The tally with one claimant more. -/
def Tally.with_claimant (n : Tally) : Rollback → Tally
  | .exclusive_rollback => { n with lockers := n.lockers + 1 }
  | .upgradable_to_exclusive_rollback => { n with promoters := n.promoters + 1 }

theorem Tally.add_idle {th : Thread} (n : Tally) (hidle : th.place = .idle) :
    n.add th = n.with_owner th.owned := by
  cases howned : th.owned <;>
    simp [Tally.add, Thread.owns, Thread.claims, hidle, howned, Tally.with_owner]

theorem Tally.add_done (n : Tally) (th : Thread) (owned : Ownership) (result : Result) :
    n.add (th.advance (.done owned result)) = n.with_owner owned :=
  n.add_idle rfl

theorem Tally.add_second_gate (n : Tally) (th : Thread) (rollback : Rollback) (timed : Bool) :
    n.add (th.advance (.wait (.second_gate rollback timed))) = n.with_claimant rollback := by
  cases rollback <;> rfl

theorem Tally.add_first_gate (n : Tally) (th : Thread) (kind : Kind) (timed : Bool) :
    n.add (th.advance (.wait (.first_gate kind timed))) = n := rfl

/-- Waiting for the readers: the claim is kept, or becomes exclusive ownership
    once they are gone. -/
theorem Consistent.pass_second_gate {c : control_word_t} {n : Tally} {rollback : Rollback}
    (h : Consistent c (n.with_claimant rollback)) (th : Thread) (timed : Bool) :
    Consistent (pass_second_gate c rollback timed).1
      (n.add (th.advance (pass_second_gate c rollback timed).2)) := by
  unfold interprocess_upgradable_mutex.pass_second_gate
  split_ifs with hreaders
  · rw [Tally.add_second_gate]
    exact h
  · rw [Tally.add_done]
    rw [consistent_iff] at h ⊢
    cases rollback <;> simp only [Tally.with_claimant, Tally.with_owner] at h ⊢ <;> omega

/-- Passing an open first gate. -/
theorem Consistent.pass_first_gate {c : control_word_t} {n : Tally} (h : Consistent c n) (th : Thread)
    {kind : Kind} (timed : Bool) (hopen : first_gate_closed c kind ≠ true) :
    Consistent (pass_first_gate c timed kind).1
      (n.add (th.advance (pass_first_gate c timed kind).2)) := by
  rw [consistent_iff] at h
  have hmax := max_readers_pos
  cases kind with
  | exclusive =>
    simp only [first_gate_closed, ne_eq, Bool.or_eq_true, not_or, Bool.not_eq_true] at hopen
    refine Consistent.pass_second_gate ?_ th timed
    rw [consistent_iff]
    simp only [hopen, Tally.with_claimant, Bool.toNat_true, Bool.toNat_false] at h ⊢
    omega
  | upgradable =>
    simp only [first_gate_closed, ne_eq, Bool.or_eq_true, not_or, Bool.not_eq_true,
      beq_iff_eq] at hopen
    simp only [interprocess_upgradable_mutex.pass_first_gate, Tally.add_done]
    rw [inc_of_ne hopen.2, consistent_iff]
    simp only [hopen, Tally.with_owner, Bool.toNat_true, Bool.toNat_false] at h ⊢
    omega
  | sharable =>
    simp only [first_gate_closed, ne_eq, Bool.or_eq_true, not_or, Bool.not_eq_true,
      beq_iff_eq] at hopen
    simp only [interprocess_upgradable_mutex.pass_first_gate, Tally.add_done]
    rw [inc_of_ne hopen.2, consistent_iff]
    simp only [hopen, Tally.with_owner, Bool.toNat_false] at h ⊢
    omega

theorem Consistent.lock_kind {c : control_word_t} {n : Tally} (h : Consistent c n) (th : Thread)
    (kind : Kind) (timed : Bool) :
    Consistent (lock_kind c kind timed).1 (n.add (th.advance (lock_kind c kind timed).2)) := by
  unfold interprocess_upgradable_mutex.lock_kind
  split_ifs with hclosed
  · rw [Tally.add_first_gate]
    exact h
  · exact h.pass_first_gate th timed hclosed

theorem Consistent.try_kind {c : control_word_t} {n : Tally} (h : Consistent c n) (th : Thread)
    (kind : Kind) : Consistent (try_kind c kind).1 (n.add (th.advance (try_kind c kind).2)) := by
  unfold interprocess_upgradable_mutex.try_kind
  split_ifs with hclosed
  · rw [Tally.add_done]
    exact h
  · exact h.pass_first_gate th false hclosed

/-- A sharable or upgradable owner is counted. -/
theorem Consistent.readers_pos {c : control_word_t} {n : Tally} {owned : Ownership}
    (h : Consistent c (n.with_owner owned)) (howned : owned = .sharable ∨ owned = .upgradable) :
    c.num_upr_shar ≠ 0 := by
  have hreaders := h.readers
  rcases howned with rfl | rfl <;> simp only [Tally.with_owner] at hreaders <;> omega

/-- The promotion trades upgradable ownership for a claim. -/
theorem Consistent.promote {c : control_word_t} {n : Tally}
    (h : Consistent c (n.with_owner .upgradable)) (th : Thread) (timed : Bool) :
    Consistent (promote c timed).1 (n.add (th.advance (promote c timed).2)) := by
  refine Consistent.pass_second_gate ?_ th timed
  have hin := Bool.toNat_le c.upgradable_in
  have hreaders := h.readers_pos (Or.inr rfl)
  rw [dec_of_ne hreaders]
  rw [consistent_iff] at h ⊢
  simp only [Tally.with_owner, Tally.with_claimant, Bool.toNat_true, Bool.toNat_false] at h ⊢
  omega

/-- An unreleased rollback object gives back what the claim had taken. -/
theorem Consistent.roll_back {c : control_word_t} {n : Tally} {rollback : Rollback}
    (h : Consistent c (n.with_claimant rollback)) :
    Consistent (roll_back c rollback) (n.with_owner rollback.restores) := by
  have hin := Bool.toNat_le c.exclusive_in
  cases rollback with
  | exclusive_rollback =>
    rw [consistent_iff] at h ⊢
    simp only [interprocess_upgradable_mutex.roll_back, Rollback.restores, Tally.with_owner,
      Tally.with_claimant, Bool.toNat_false] at h ⊢
    omega
  | upgradable_to_exclusive_rollback =>
    have hroom : c.num_upr_shar ≠ max_readers := by
      have hbounded := h.bounded
      simp only [Tally.with_claimant] at hbounded
      omega
    simp only [interprocess_upgradable_mutex.roll_back, Rollback.restores]
    rw [inc_of_ne hroom]
    rw [consistent_iff] at h ⊢
    simp only [Tally.with_owner, Tally.with_claimant, Bool.toNat_true, Bool.toNat_false] at h ⊢
    omega

/-- The releases and demotions of an exclusive owner. -/
theorem Consistent.release_exclusive {c : control_word_t} {n : Tally}
    (h : Consistent c (n.with_owner .exclusive)) :
    Consistent (unlock c).1 n ∧
      Consistent (unlock_and_lock_upgradable c).1 (n.with_owner .upgradable) ∧
      Consistent (unlock_and_lock_sharable c).1 (n.with_owner .sharable) := by
  have hin := Bool.toNat_le c.exclusive_in
  have hmax := max_readers_pos
  simp only [consistent_iff, unlock, unlock_and_lock_upgradable, unlock_and_lock_sharable,
    Tally.with_owner, Bool.toNat_true, Bool.toNat_false] at h ⊢
  omega

/-- The release and demotion of an upgradable owner. -/
theorem Consistent.release_upgradable {c : control_word_t} {n : Tally}
    (h : Consistent c (n.with_owner .upgradable)) :
    Consistent (unlock_upgradable c).1 n ∧
      Consistent (unlock_upgradable_and_lock_sharable c).1 (n.with_owner .sharable) := by
  have hin := Bool.toNat_le c.upgradable_in
  have hreaders := h.readers_pos (Or.inr rfl)
  simp only [unlock_upgradable, unlock_upgradable_and_lock_sharable]
  rw [dec_of_ne hreaders]
  simp only [consistent_iff, Tally.with_owner, Bool.toNat_false] at h ⊢
  omega

theorem Consistent.unlock_sharable {c : control_word_t} {n : Tally}
    (h : Consistent c (n.with_owner .sharable)) : Consistent (unlock_sharable c).1 n := by
  have hreaders := h.readers_pos (Or.inl rfl)
  simp only [interprocess_upgradable_mutex.unlock_sharable]
  rw [dec_of_ne hreaders]
  simp only [consistent_iff, Tally.with_owner] at h ⊢
  omega

theorem Consistent.try_lock {c : control_word_t} {n : Tally} (h : Consistent c n) (th : Thread) :
    Consistent (try_lock c).1 (n.add (th.advance (try_lock c).2)) := by
  have hup := Bool.toNat_le c.upgradable_in
  unfold interprocess_upgradable_mutex.try_lock
  split_ifs with hbusy
  · rw [Tally.add_done]
    exact h
  · simp only [Bool.or_eq_true, bne_iff_ne, ne_eq, not_or, Bool.not_eq_true, not_not] at hbusy
    rw [Tally.add_done]
    rw [consistent_iff] at h ⊢
    obtain ⟨hex, hbusy⟩ := hbusy
    simp only [hex, Tally.with_owner, Bool.toNat_true, Bool.toNat_false] at h ⊢
    omega

theorem Consistent.try_unlock_upgradable_and_lock {c : control_word_t} {n : Tally}
    (h : Consistent c (n.with_owner .upgradable)) (th : Thread) :
    Consistent (try_unlock_upgradable_and_lock c).1
      (n.add (th.advance (try_unlock_upgradable_and_lock c).2)) := by
  unfold interprocess_upgradable_mutex.try_unlock_upgradable_and_lock
  have hup := Bool.toNat_le c.upgradable_in
  split_ifs with hbusy
  · rw [Tally.add_done]
    exact h
  · simp only [bne_iff_ne, ne_eq, not_not] at hbusy
    rw [Tally.add_done, dec_of_ne (h.readers_pos (Or.inr rfl))]
    rw [consistent_iff] at h ⊢
    simp only [Tally.with_owner, Bool.toNat_true, Bool.toNat_false] at h ⊢
    omega

theorem Consistent.try_unlock_sharable_and_lock {c : control_word_t} {n : Tally}
    (h : Consistent c (n.with_owner .sharable)) (th : Thread) :
    Consistent (try_unlock_sharable_and_lock c).1
      (n.add (th.advance (try_unlock_sharable_and_lock c).2)) := by
  unfold interprocess_upgradable_mutex.try_unlock_sharable_and_lock
  split_ifs with hbusy
  · rw [Tally.add_done]
    exact h
  · simp only [Bool.or_eq_true, bne_iff_ne, ne_eq, not_or, Bool.not_eq_true, not_not] at hbusy
    rw [Tally.add_done]
    rw [consistent_iff] at h ⊢
    obtain ⟨⟨hex, hup⟩, hone⟩ := hbusy
    simp only [hex, hup, Tally.with_owner, Bool.toNat_true, Bool.toNat_false, implies_true,
      true_and] at h ⊢
    omega

theorem Consistent.try_unlock_sharable_and_lock_upgradable {c : control_word_t} {n : Tally}
    (h : Consistent c (n.with_owner .sharable)) (th : Thread) :
    Consistent (try_unlock_sharable_and_lock_upgradable c).1
      (n.add (th.advance (try_unlock_sharable_and_lock_upgradable c).2)) := by
  unfold interprocess_upgradable_mutex.try_unlock_sharable_and_lock_upgradable
  split_ifs with hbusy
  · rw [Tally.add_done]
    exact h
  · simp only [Bool.or_eq_true, not_or, Bool.not_eq_true] at hbusy
    rw [Tally.add_done]
    rw [consistent_iff] at h ⊢
    obtain ⟨hex, hup⟩ := hbusy
    simp only [hex, hup, Tally.with_owner, Bool.toNat_true, Bool.toNat_false] at h ⊢
    omega

/-- The first section of every operation keeps the control word consistent when
    the caller has the ownership the operation requires. -/
theorem Consistent.enter {c : control_word_t} {n : Tally} {op : Op}
    (h : Consistent c (n.with_owner op.requires)) (th : Thread) :
    Consistent (op.enter c).1 (n.add (th.advance (op.enter c).2)) := by
  cases op with
  | lock => exact Consistent.lock_kind h th .exclusive false
  | timed_lock => exact Consistent.lock_kind h th .exclusive true
  | try_lock => exact Consistent.try_lock h th
  | lock_upgradable => exact Consistent.lock_kind h th .upgradable false
  | timed_lock_upgradable => exact Consistent.lock_kind h th .upgradable true
  | try_lock_upgradable => exact Consistent.try_kind h th .upgradable
  | lock_sharable => exact Consistent.lock_kind h th .sharable false
  | timed_lock_sharable => exact Consistent.lock_kind h th .sharable true
  | try_lock_sharable => exact Consistent.try_kind h th .sharable
  | unlock_upgradable_and_lock => exact Consistent.promote h th false
  | timed_unlock_upgradable_and_lock => exact Consistent.promote h th true
  | try_unlock_upgradable_and_lock => exact Consistent.try_unlock_upgradable_and_lock h th
  | try_unlock_sharable_and_lock => exact Consistent.try_unlock_sharable_and_lock h th
  | try_unlock_sharable_and_lock_upgradable =>
    exact Consistent.try_unlock_sharable_and_lock_upgradable h th
  | unlock => exact (Consistent.release_exclusive h).1
  | unlock_and_lock_upgradable => exact (Consistent.release_exclusive h).2.1
  | unlock_and_lock_sharable => exact (Consistent.release_exclusive h).2.2
  | unlock_upgradable => exact (Consistent.release_upgradable h).1
  | unlock_upgradable_and_lock_sharable => exact (Consistent.release_upgradable h).2
  | unlock_sharable => exact Consistent.unlock_sharable h

theorem Consistent.after_first_gate {c : control_word_t} {n : Tally} (h : Consistent c n)
    (th : Thread) (kind : Kind) (timed : Bool) (how : WaitEnd) :
    Consistent (after_first_gate c kind timed how).1
      (n.add (th.advance (after_first_gate c kind timed how).2)) := by
  cases how with
  | woken => exact h.lock_kind th kind timed
  | timed_out =>
    simp only [interprocess_upgradable_mutex.after_first_gate]
    split_ifs with hclosed
    · rw [Tally.add_done]
      exact h
    · exact h.pass_first_gate th timed hclosed
  | thrown =>
    simp only [interprocess_upgradable_mutex.after_first_gate, Tally.add_done]
    exact h

theorem Consistent.after_second_gate {c : control_word_t} {n : Tally} {rollback : Rollback}
    (h : Consistent c (n.with_claimant rollback)) (th : Thread) (timed : Bool) (how : WaitEnd) :
    Consistent (after_second_gate c rollback timed how).1
      (n.add (th.advance (after_second_gate c rollback timed how).2)) := by
  cases how with
  | woken => exact h.pass_second_gate th timed
  | timed_out =>
    have hpass := h.pass_second_gate th timed
    simp only [interprocess_upgradable_mutex.pass_second_gate] at hpass
    simp only [interprocess_upgradable_mutex.after_second_gate]
    split_ifs at hpass ⊢ with hreaders
    · rw [Tally.add_done]
      exact h.roll_back
    · exact hpass
  | thrown =>
    simp only [interprocess_upgradable_mutex.after_second_gate, Tally.add_done]
    exact h.roll_back

end interprocess.interprocess_upgradable_mutex
