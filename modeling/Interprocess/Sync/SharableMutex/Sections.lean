import Mathlib.Tactic.MkIffOfInductiveProp
import Mathlib.Tactic.SplitIfs
import Mathlib.Data.Bool.Basic
import Interprocess.Sync.SharableMutex.Operations

open Monitor

namespace interprocess.interprocess_sharable_mutex

def Outcome.owned : Outcome → Ownership
  | .done owned _ => owned
  | .wait _ => .none

def Outcome.place : Outcome → Place
  | .done _ _ => .idle
  | .wait place => place

def Outcome.result : Outcome → Option Result
  | .done _ result => some result
  | .wait _ => none

/-- A thread that set the exclusive flag and waits for the readers. -/
def Place.claims : Place → Bool
  | .second_gate _ => true
  | _ => false

/-- The condition on which a thread waits. -/
def Place.blocked (c : control_word_t) : Place → Prop
  | .idle => True
  | .first_gate kind _ => first_gate_closed c kind = true
  | .second_gate _ => c.num_shared ≠ 0

/-- How many threads own exclusively and sharably, and how many wait at the
    second gate. -/
structure Tally where
  exclusive : Nat
  sharable : Nat
  claimants : Nat

/-- The tally of the other threads with one thread added. -/
def Tally.add (n : Tally) (owned : Ownership) (place : Place) : Tally where
  exclusive := n.exclusive + (decide (owned = .exclusive)).toNat
  sharable := n.sharable + (decide (owned = .sharable)).toNat
  claimants := n.claimants + place.claims.toNat

/-- The control word describes the owners and the claimant. -/
@[mk_iff]
structure Consistent (c : control_word_t) (n : Tally) : Prop where
  readers : c.num_shared = n.sharable
  bounded : c.num_shared ≤ max_readers
  exclusive : c.exclusive_in.toNat = n.exclusive + n.claimants
  alone : 0 < n.exclusive → c.num_shared = 0

/-- What a section of a thread guarantees when the other threads are counted by
    `n` and the call began with `before`: the control word stays consistent, a
    call that fails gives back what its caller had, the thread waits only when
    it has to, and the other waiters that are not notified still have to. -/
structure Sound (c : control_word_t) (n : Tally) (before : Ownership) (sec : Section) : Prop where
  consistent : Consistent sec.m_ctrl (n.add sec.outcome.owned sec.outcome.place)
  restores : sec.outcome.result = some .failed ∨ sec.outcome.result = some .thrown →
    sec.outcome.owned = before
  blocked : sec.outcome.place.blocked sec.m_ctrl
  first : sec.notification ≠ .all .m_first_gate → ∀ kind, first_gate_closed c kind = true →
    first_gate_closed sec.m_ctrl kind = true
  second : sec.notification ≠ .one .m_second_gate → 0 < n.claimants → c.num_shared ≠ 0 →
    sec.m_ctrl.num_shared ≠ 0

section Sections

variable {c : control_word_t} {n : Tally} {before : Ownership}

/-- A call that ends without touching the control word. -/
theorem Sound.leave {owned : Ownership} {result : Result} (h : Consistent c (n.add owned .idle))
    (hrestores : result = .failed ∨ result = .thrown → owned = before) :
    Sound c n before ⟨c, .none, .done owned result⟩ where
  consistent := h
  restores := by
    simpa only [Outcome.result, Outcome.owned, Option.some.injEq] using hrestores
  blocked := trivial
  first := fun _ _ hclosed => hclosed
  second := fun _ _ hreaders => hreaders

/-- Waiting for the readers: the claim is kept, or becomes exclusive ownership
    once they are gone. -/
theorem Sound.pass_second_gate {timed : Bool} (h : Consistent c (n.add .none (.second_gate timed))) :
    Sound c n before (pass_second_gate c timed) := by
  unfold interprocess_sharable_mutex.pass_second_gate
  split_ifs with hreaders
  · refine ⟨h, ?_, hreaders, fun _ _ hclosed => hclosed, fun _ _ hothers => hothers⟩
    rintro (hresult | hresult) <;> cases hresult
  · refine .leave ?_ ?_
    · rw [consistent_iff] at h ⊢
      simp [Tally.add, Place.claims] at h ⊢
      omega
    · rintro (hresult | hresult) <;> cases hresult

/-- Passing an open first gate. -/
theorem Sound.pass_first_gate {kind : Kind} (h : Consistent c (n.add .none .idle)) (timed : Bool)
    (hopen : first_gate_closed c kind ≠ true) : Sound c n before (pass_first_gate c timed kind) := by
  cases kind with
  | exclusive =>
    simp only [first_gate_closed, ne_eq, Bool.not_eq_true] at hopen
    have hclaim : Consistent { c with exclusive_in := true } (n.add .none (.second_gate timed)) := by
      rw [consistent_iff] at h ⊢
      simp [Tally.add, Place.claims, hopen] at h ⊢
      omega
    have hpass : Sound _ n before _ := .pass_second_gate hclaim
    obtain ⟨hconsistent, hrestores, hblocked, hfirst, hsecond⟩ := hpass
    refine ⟨hconsistent, hrestores, hblocked, ?_, hsecond⟩
    intro hnot kind _
    exact hfirst hnot kind (by cases kind <;> rfl)
  | sharable =>
    simp only [first_gate_closed, ne_eq, Bool.or_eq_true, not_or, Bool.not_eq_true,
      beq_iff_eq] at hopen
    simp only [interprocess_sharable_mutex.pass_first_gate, inc_of_ne hopen.2]
    refine ⟨?_, ?_, trivial, ?_, ?_⟩
    · rw [consistent_iff] at h ⊢
      simp [Tally.add, Place.claims, Outcome.owned, Outcome.place, hopen.1] at h ⊢
      omega
    · rintro (hresult | hresult) <;> cases hresult
    · intro _ kind hclosed
      cases kind <;> simp [first_gate_closed, hopen] at hclosed
    · intro _ _ _
      exact Nat.succ_ne_zero _

theorem Sound.lock_kind (h : Consistent c (n.add .none .idle)) (kind : Kind) (timed : Bool) :
    Sound c n before (lock_kind c kind timed) := by
  unfold interprocess_sharable_mutex.lock_kind
  split_ifs with hclosed
  · refine ⟨h, ?_, hclosed, fun _ _ hothers => hothers, fun _ _ hreaders => hreaders⟩
    rintro (hresult | hresult) <;> cases hresult
  · exact .pass_first_gate h timed hclosed

theorem Sound.try_lock (h : Consistent c (n.add .none .idle)) : Sound c n .none (try_lock c) := by
  unfold interprocess_sharable_mutex.try_lock
  split_ifs with hbusy
  · exact .leave h fun _ => rfl
  · simp only [Bool.or_eq_true, bne_iff_ne, ne_eq, not_or, Bool.not_eq_true, not_not] at hbusy
    refine ⟨?_, ?_, trivial, ?_, fun _ _ hreaders => hreaders⟩
    · rw [consistent_iff] at h ⊢
      simp [Tally.add, Place.claims, Outcome.owned, Outcome.place, hbusy] at h ⊢
      omega
    · rintro (hresult | hresult) <;> cases hresult
    · intro _ kind _
      cases kind <;> rfl

theorem Sound.try_lock_sharable (h : Consistent c (n.add .none .idle)) :
    Sound c n .none (try_lock_sharable c) := by
  unfold interprocess_sharable_mutex.try_lock_sharable
  split_ifs with hclosed
  · exact .leave h fun _ => rfl
  · exact .pass_first_gate h false hclosed

/-- Clearing the exclusive flag, in `unlock` or in a rollback: nobody else waits
    at the second gate. -/
theorem Sound.clear_exclusive {owned : Ownership} {place : Place} {result : Result}
    (h : Consistent c (n.add owned place)) (hheld : owned = .exclusive ∨ place.claims = true)
    (hown : owned ≠ .sharable) (hrestores : result = .failed ∨ result = .thrown → before = .none) :
    Sound c n before
      ⟨{ c with exclusive_in := false }, .all .m_first_gate, .done .none result⟩ := by
  have hin := Bool.toNat_le c.exclusive_in
  rw [consistent_iff] at h
  obtain ⟨hreaders, hbounded, hexclusive, halone⟩ := h
  have hone : n.exclusive + n.claimants = 0 ∧ c.num_shared = n.sharable := by
    rcases hheld with rfl | hclaims
    · simp [Tally.add] at hexclusive hreaders
      omega
    · simp [Tally.add, hclaims, hown] at hexclusive hreaders
      omega
  refine ⟨?_, ?_, trivial, fun hnot => absurd rfl hnot, ?_⟩
  · rw [consistent_iff]
    simp [Tally.add, Place.claims, Outcome.owned, Outcome.place]
    omega
  · intro hresult
    simp only [Outcome.result, Option.some.injEq] at hresult
    exact (hrestores hresult).symm
  · intro _ hclaimants _
    omega

theorem Sound.unlock_sharable (h : Consistent c (n.add .sharable .idle)) :
    Sound c n .sharable (unlock_sharable c) := by
  have hmax : 1 < max_readers := by decide
  rw [consistent_iff] at h
  simp [Tally.add, Place.claims] at h
  have hreaders : c.num_shared ≠ 0 := by omega
  simp only [interprocess_sharable_mutex.unlock_sharable, dec_of_ne hreaders]
  refine ⟨?_, ?_, trivial, ?_, ?_⟩
  · rw [consistent_iff]
    simp [Tally.add, Place.claims, Outcome.owned, Outcome.place]
    omega
  · rintro (hresult | hresult) <;> cases hresult
  · intro hnot kind hclosed
    have hroom : c.num_shared ≠ max_readers := by
      intro hfull
      rw [if_neg (by omega), if_pos (by omega)] at hnot
      exact hnot rfl
    cases kind <;> simp [first_gate_closed, hroom] at hclosed ⊢
    · exact hclosed
    · exact Or.inl hclosed
  · intro hnot _ _ hzero
    exact hnot (if_pos hzero)

/-- The first section of every operation. -/
theorem Sound.enter {op : Op} (h : Consistent c (n.add op.requires .idle)) :
    Sound c n op.requires (op.enter c) := by
  cases op with
  | lock => exact .lock_kind h .exclusive false
  | timed_lock => exact .lock_kind h .exclusive true
  | try_lock => exact .try_lock h
  | lock_sharable => exact .lock_kind h .sharable false
  | timed_lock_sharable => exact .lock_kind h .sharable true
  | try_lock_sharable => exact .try_lock_sharable h
  | unlock =>
    refine .clear_exclusive h (Or.inl rfl) (by simp [Op.requires]) ?_
    rintro (hresult | hresult) <;> cases hresult
  | unlock_sharable => exact .unlock_sharable h

theorem Sound.after_first_gate (h : Consistent c (n.add .none .idle)) (kind : Kind) (timed : Bool)
    (how : WaitEnd) : Sound c n .none (after_first_gate c kind timed how) := by
  cases how with
  | woken => exact .lock_kind h kind timed
  | timed_out =>
    simp only [interprocess_sharable_mutex.after_first_gate]
    split_ifs with hclosed
    · exact .leave h fun _ => rfl
    · exact .pass_first_gate h timed hclosed
  | thrown => exact .leave h fun _ => rfl

theorem Sound.after_second_gate {timed : Bool} (h : Consistent c (n.add .none (.second_gate timed)))
    (how : WaitEnd) : Sound c n .none (after_second_gate c timed how) := by
  have hrollback : ∀ result, Sound c n .none (exclusive_rollback c result) := fun _ =>
    .clear_exclusive h (Or.inr rfl) (by simp) fun _ => rfl
  cases how with
  | woken => exact .pass_second_gate h
  | timed_out =>
    have hpass : Sound c n .none _ := .pass_second_gate h
    simp only [interprocess_sharable_mutex.pass_second_gate] at hpass
    simp only [interprocess_sharable_mutex.after_second_gate]
    split_ifs at hpass ⊢
    · exact hrollback .failed
    · exact hpass
  | thrown => exact hrollback .thrown

end Sections

end interprocess.interprocess_sharable_mutex
