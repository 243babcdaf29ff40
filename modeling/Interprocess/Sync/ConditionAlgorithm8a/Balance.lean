import Mathlib.Tactic.MkIffOfInductiveProp
import Mathlib.Tactic.SplitIfs
import Mathlib.Data.Bool.Basic
import Interprocess.Sync.ConditionAlgorithm8a.Operations

namespace interprocess.ipcdetail.condition_algorithm_8a

/-- What the threads hold and are owed: the mutex and the token of the gate,
    registered waiters without a permit, with one and past their time point,
    signallers that saw an open gate, waiters that correct the counters before
    and after the subtraction, waiters that open the gate last, permits still to
    be posted and permits still to be drained. -/
structure Tally where
  mutex : Nat
  gate : Nat
  waiting : Nat
  permitted : Nat
  expired : Nat
  closers : Nat
  adjusters : Nat
  stale : Nat
  finals : Nat
  pending : Nat
  drains : Nat

def Tally.none : Tally :=
  ⟨0, 0, 0, 0, 0, 0, 0, 0, 0, 0, 0⟩

/-- What one thread adds. -/
def Pc.tally : Pc → Tally
  | .registering _ => { Tally.none with gate := 1 }
  | .registered _ => { Tally.none with gate := 1, waiting := 1 }
  | .queued _ => { Tally.none with waiting := 1 }
  | .awake false => { Tally.none with permitted := 1 }
  | .awake true => { Tally.none with expired := 1 }
  | .unblocking false => { Tally.none with mutex := 1, permitted := 1 }
  | .unblocking true => { Tally.none with mutex := 1, expired := 1 }
  | .opening _ => { Tally.none with mutex := 1, gate := 1 }
  | .adjusting _ => { Tally.none with mutex := 1, adjusters := 1 }
  | .subtracting _ => { Tally.none with mutex := 1, gate := 1, adjusters := 1 }
  | .reopening _ => { Tally.none with mutex := 1, gate := 1, stale := 1 }
  | .resetting _ => { Tally.none with mutex := 1, stale := 1 }
  | .unlocking nsignals_was_left nwaiters_was_gone _ =>
    if nsignals_was_left = 1 then
      { Tally.none with mutex := 1, gate := 1, finals := 1, drains := nwaiters_was_gone.toNat }
    else { Tally.none with mutex := 1 }
  | .draining nwaiters_was_gone _ =>
    { Tally.none with gate := 1, finals := 1, drains := nwaiters_was_gone.toNat }
  | .deciding _ => { Tally.none with mutex := 1 }
  | .closing _ => { Tally.none with mutex := 1, closers := 1 }
  | .issuing _ => { Tally.none with mutex := 1, gate := 1, closers := 1 }
  | .issued none => { Tally.none with mutex := 1 }
  | .issued (some n) => { Tally.none with mutex := 1, pending := n.toNat }
  | .posting n => { Tally.none with pending := n.toNat }
  | .idle _ | .entering _ | .leaving _ | .signalling _ => Tally.none

/-- The tally of the other threads with one thread added. -/
def Tally.add (n : Tally) (p : Pc) : Tally where
  mutex := n.mutex + p.tally.mutex
  gate := n.gate + p.tally.gate
  waiting := n.waiting + p.tally.waiting
  permitted := n.permitted + p.tally.permitted
  expired := n.expired + p.tally.expired
  closers := n.closers + p.tally.closers
  adjusters := n.adjusters + p.tally.adjusters
  stale := n.stale + p.tally.stale
  finals := n.finals + p.tally.finals
  pending := n.pending + p.tally.pending
  drains := n.drains + p.tally.drains

/-- Registered waiters whose departure is not counted yet. -/
def Tally.waiters (n : Tally) : Nat :=
  n.waiting + n.permitted + n.expired

/-- What holds of the tally of any threads. -/
structure Tally.Sane (card : Nat) (n : Tally) : Prop where
  mutex : n.closers + n.adjusters + n.stale ≤ n.mutex
  gate : n.finals ≤ n.gate
  drains : n.finals = 0 → n.drains = 0
  waiters : n.waiters ≤ card

/-- The counts a thread carries with it are not negative. -/
def Pc.Sensible : Pc → Prop
  | .unlocking _ nwaiters_was_gone _ | .draining nwaiters_was_gone _ => 0 ≤ nwaiters_was_gone
  | .issued (some n) | .posting n => 0 < n
  | _ => True

/-- No signal is under way, or its last waiter is about to open the gate. -/
@[mk_iff]
structure Open (I : IntegerType) (d : ConditionMembers) (n : Tally) : Prop where
  no_signal : d.nwaiters_to_unblock = 0
  token : d.sem_block_lock + n.gate = 1
  permits : d.sem_block_queue + n.pending + n.permitted = n.drains
  balance : n.stale = 0 → d.nwaiters_blocked = n.waiters + d.nwaiters_gone
  adjusted : 0 < n.stale → d.nwaiters_blocked = n.waiters
  closers : 0 < n.closers → d.nwaiters_gone < d.nwaiters_blocked
  finals : 0 < n.finals → d.nwaiters_blocked = 0 ∧ d.nwaiters_gone = 0
  limit : d.nwaiters_gone ≤ I.max / 2
  below : n.adjusters + n.stale = 0 → d.nwaiters_gone < I.max / 2

/-- The gate is closed until every waiter that was given a permit has left. -/
@[mk_iff]
structure Closed (card : Nat) (d : ConditionMembers) (n : Tally) : Prop where
  signals : 0 < d.nwaiters_to_unblock
  token : d.sem_block_lock + n.gate = 0
  quiet : n.closers + n.adjusters + n.stale = 0
  balance : (n.waiters : Int) = d.nwaiters_blocked + d.nwaiters_to_unblock
  gone : d.nwaiters_blocked ≠ 0 → d.nwaiters_gone = 0
  permits : (d.sem_block_queue + n.pending + n.permitted : Int) =
    d.nwaiters_to_unblock + d.nwaiters_gone
  limit : n.waiters + d.nwaiters_gone ≤ card

/-- The counters describe the threads. -/
structure Balanced (I : IntegerType) (card : Nat) (d : ConditionMembers) (n : Tally) : Prop where
  mutex : d.mtx_unblock_lock.toNat = n.mutex
  blocked : 0 ≤ d.nwaiters_blocked
  gone : 0 ≤ d.nwaiters_gone
  gate : Open I d n ∨ Closed card d n

section Operations

variable {I : IntegerType} {card : Nat} {d : ConditionMembers} {n : Tally}

/-- A waiter leaves while no signal is under way: its wait timed out. -/
theorem Balanced.unblock_open {bTimedOut : Bool} (h : Balanced I card d (n.add (.unblocking bTimedOut)))
    (hn : n.Sane card) (hopen : Open I d (n.add (.unblocking bTimedOut))) :
    Balanced I card (unblock I d bTimedOut).1 (n.add (unblock I d bTimedOut).2) ∧
      (unblock I d bTimedOut).2.Sensible := by
  obtain ⟨hmutex, hblocked, hgone, -⟩ := h
  obtain ⟨hsane, hfinals, hdrains, -⟩ := hn
  obtain ⟨B, G, U, Q, L, M⟩ := d
  have hlock := Bool.toNat_le M
  have hU : U = 0 := hopen.no_signal
  subst hU
  rw [open_iff] at hopen
  cases bTimedOut with
  | false =>
    exfalso
    simp only [Tally.add, Pc.tally, Tally.none, Tally.waiters] at hopen hmutex
    omega
  | true =>
    simp only [Tally.add, Pc.tally, Tally.none, Tally.waiters] at hopen hmutex hgone
    simp only [unblock, ne_eq, not_true_eq_false, if_false]
    by_cases hlimit : I.max / 2 = G + 1
    · simp only [hlimit, if_true]
      refine ⟨⟨hmutex, hblocked, Int.le_add_one hgone, Or.inl ?_⟩, trivial⟩
      simp only [open_iff, Tally.add, Pc.tally, Tally.none, Tally.waiters, true_and]
      and_intros <;> omega
    · simp only [hlimit, if_false]
      refine ⟨⟨hmutex, hblocked, Int.le_add_one hgone, Or.inl ?_⟩, Int.le_refl 0⟩
      simp only [open_iff, Tally.add, Pc.tally, Tally.none, Tally.waiters, Int.zero_ne_one, if_false, true_and]
      and_intros <;> omega

/-- A waiter with a permit leaves while a signal is under way. -/
theorem Balanced.unblock_permitted (h : Balanced I card d (n.add (.unblocking false))) (hn : n.Sane card)
    (hclosed : Closed card d (n.add (.unblocking false))) :
    Balanced I card (unblock I d false).1 (n.add (unblock I d false).2) ∧ (unblock I d false).2.Sensible := by
  obtain ⟨hmutex, hblocked, hgone, -⟩ := h
  obtain ⟨hsane, hfinals, hdrains, -⟩ := hn
  obtain ⟨B, G, U, Q, L, M⟩ := d
  have hlock := Bool.toNat_le M
  have hlimit := I.half_pos
  simp only [closed_iff, Tally.add, Pc.tally, Tally.none, Tally.waiters] at hclosed hmutex hgone hblocked
  have hU : U ≠ 0 := by omega
  simp only [unblock, ne_eq, hU, not_false_eq_true, if_true, Bool.false_eq_true, if_false]
  by_cases hlast : U - 1 = 0
  · have hone : U = 1 := by omega
    by_cases hmore : B = 0
    · simp only [hlast, hmore, not_true_eq_false, if_true, if_false]
      refine ⟨⟨?_, Int.le_refl 0, Int.le_refl 0, Or.inl ?_⟩, hgone⟩
      · simpa only [Tally.add, Pc.tally, hone, if_true] using hmutex
      · simp only [open_iff, Tally.add, Pc.tally, Tally.none, Tally.waiters, hone, if_true, true_and,
          implies_true]
        and_intros <;> omega
    · simp only [hlast, hmore, not_false_eq_true, if_true]
      refine ⟨⟨hmutex, hblocked, hgone, Or.inl ?_⟩, trivial⟩
      simp only [open_iff, Tally.add, Pc.tally, Tally.none, Tally.waiters, true_and]
      and_intros <;> omega
  · have hmore : U ≠ 1 := by omega
    simp only [hlast, if_false]
    refine ⟨⟨?_, hblocked, hgone, Or.inr ?_⟩, Int.le_refl 0⟩
    · simpa only [Tally.add, Pc.tally, hmore, if_false] using hmutex
    · simp only [closed_iff, Tally.add, Pc.tally, Tally.none, Tally.waiters, hmore, if_false]
      and_intros <;> omega

/-- A waiter whose wait timed out leaves when all of the others have permits. -/
theorem Balanced.unblock_expired (h : Balanced I card d (n.add (.unblocking true))) (hn : n.Sane card)
    (hclosed : Closed card d (n.add (.unblocking true))) (hkept : d.nwaiters_blocked = 0) :
    Balanced I card (unblock I d true).1 (n.add (unblock I d true).2) ∧ (unblock I d true).2.Sensible := by
  obtain ⟨hmutex, hblocked, hgone, -⟩ := h
  obtain ⟨hsane, hfinals, hdrains, -⟩ := hn
  obtain ⟨B, G, U, Q, L, M⟩ := d
  have hlock := Bool.toNat_le M
  have hlimit := I.half_pos
  have hnone : B = 0 := hkept
  subst hnone
  simp only [closed_iff, Tally.add, Pc.tally, Tally.none, Tally.waiters] at hclosed hmutex hgone
  have hU : U ≠ 0 := by omega
  simp only [unblock, ne_eq, hU, not_false_eq_true, if_true, not_true_eq_false, if_false]
  by_cases hlast : U - 1 = 0
  · have hone : U = 1 := by omega
    simp only [hlast, if_true]
    refine ⟨⟨?_, Int.le_refl 0, Int.le_refl 0, Or.inl ?_⟩, Int.le_add_one hgone⟩
    · simpa only [Tally.add, Pc.tally, hone, if_true] using hmutex
    · simp only [open_iff, Tally.add, Pc.tally, Tally.none, Tally.waiters, hone, if_true, true_and,
          implies_true]
      and_intros <;> omega
  · have hmore : U ≠ 1 := by omega
    simp only [hlast, if_false]
    refine ⟨⟨?_, Int.le_refl 0, Int.le_add_one hgone, Or.inr ?_⟩, Int.le_refl 0⟩
    · simpa only [Tally.add, Pc.tally, hmore, if_false] using hmutex
    · simp only [closed_iff, Tally.add, Pc.tally, Tally.none, Tally.waiters, hmore, if_false]
      and_intros <;> omega

/-- A signal while another one is under way, or none to wake. -/
theorem Balanced.decide_signals {broadcast : Bool} (h : Balanced I card d (n.add (.deciding broadcast)))
    (hn : n.Sane card) :
    Balanced I card (decide_signals d broadcast).1 (n.add (decide_signals d broadcast).2) ∧
      (decide_signals d broadcast).2.Sensible := by
  obtain ⟨hmutex, hblocked, hgone, hgate⟩ := h
  obtain ⟨hsane, hfinals, hdrains, hcard⟩ := hn
  have hlock := Bool.toNat_le d.mtx_unblock_lock
  simp only [Tally.add, Pc.tally, Tally.none, Tally.waiters, open_iff, closed_iff] at hgate hmutex
  unfold condition_algorithm_8a.decide_signals
  split_ifs with hU hnone hall hmore
  · refine ⟨⟨hmutex, hblocked, hgone, Or.inr ?_⟩, trivial⟩
    rw [closed_iff]
    simp only [Tally.add, Pc.tally, Tally.none, Tally.waiters]
    and_intros <;> omega
  · refine ⟨⟨hmutex, Int.le_refl 0, hgone, Or.inr ?_⟩, ?_⟩
    · rw [closed_iff]
      simp only [Tally.add, Pc.tally, Tally.none, Tally.waiters]
      and_intros <;> omega
    · show 0 < d.nwaiters_blocked
      omega
  · refine ⟨⟨hmutex, by show 0 ≤ d.nwaiters_blocked - 1; omega, hgone, Or.inr ?_⟩, Int.one_pos⟩
    rw [closed_iff]
    simp only [Tally.add, Pc.tally, Tally.none, Tally.waiters]
    and_intros <;> omega
  · refine ⟨⟨hmutex, hblocked, hgone, Or.inl ?_⟩, trivial⟩
    rw [open_iff]
    simp only [Tally.add, Pc.tally, Tally.none, Tally.waiters]
    and_intros <;> omega
  · refine ⟨⟨hmutex, hblocked, hgone, Or.inl ?_⟩, trivial⟩
    rw [open_iff]
    simp only [Tally.add, Pc.tally, Tally.none, Tally.waiters]
    and_intros <;> omega

/-- The signal that closes the gate. -/
theorem Balanced.issue_signals {broadcast : Bool} (h : Balanced I card d (n.add (.issuing broadcast)))
    (hn : n.Sane card) :
    Balanced I card (issue_signals d broadcast).1 (n.add (issue_signals d broadcast).2) ∧
      (issue_signals d broadcast).2.Sensible := by
  obtain ⟨hmutex, hblocked, hgone, hgate⟩ := h
  obtain ⟨hsane, hfinals, hdrains, hcard⟩ := hn
  have hlock := Bool.toNat_le d.mtx_unblock_lock
  simp only [Tally.add, Pc.tally, Tally.none, Tally.waiters, open_iff, closed_iff] at hgate hmutex hcard
  have hleft : (if d.nwaiters_gone ≠ 0 then
      { d with nwaiters_blocked := d.nwaiters_blocked - d.nwaiters_gone, nwaiters_gone := 0 } else d) =
      { d with nwaiters_blocked := d.nwaiters_blocked - d.nwaiters_gone, nwaiters_gone := 0 } := by
    split_ifs with hzero
    · rfl
    · simp only [ne_eq, not_not] at hzero
      obtain ⟨B, G, U, Q, L, M⟩ := d
      simp only at hzero
      subst hzero
      simp
  simp only [condition_algorithm_8a.issue_signals, hleft]
  split_ifs with hall
  · refine ⟨⟨hmutex, Int.le_refl 0, Int.le_refl 0, Or.inr ?_⟩, ?_⟩
    · rw [closed_iff]
      simp only [Tally.add, Pc.tally, Tally.none, Tally.waiters]
      and_intros <;> omega
    · show 0 < d.nwaiters_blocked - d.nwaiters_gone
      omega
  · refine ⟨⟨hmutex, ?_, Int.le_refl 0, Or.inr ?_⟩, Int.one_pos⟩
    · show 0 ≤ d.nwaiters_blocked - d.nwaiters_gone - 1
      omega
    · rw [closed_iff]
      simp only [Tally.add, Pc.tally, Tally.none, Tally.waiters, implies_true, true_and]
      and_intros <;> omega

/-- The condition on a time-out: it is not counted while some waiters have been
    given permits and others have not. -/
def Pc.KeepsBalance (d : ConditionMembers) (p : Pc) : Prop :=
  p = .unblocking true → d.nwaiters_to_unblock = 0 ∨ d.nwaiters_blocked = 0

/-- The section of a waiter under the mutex. -/
theorem Balanced.unblock {bTimedOut : Bool} (h : Balanced I card d (n.add (.unblocking bTimedOut)))
    (hn : n.Sane card) (hkept : (Pc.unblocking bTimedOut).KeepsBalance d) :
    Balanced I card (unblock I d bTimedOut).1 (n.add (unblock I d bTimedOut).2) ∧
      (unblock I d bTimedOut).2.Sensible := by
  rcases h.gate with hopen | hclosed
  · exact h.unblock_open hn hopen
  · cases bTimedOut with
    | false => exact h.unblock_permitted hn hclosed
    | true =>
      refine h.unblock_expired hn hclosed ((hkept rfl).resolve_left ?_)
      have := hclosed.signals
      omega

/-- Operations on the token of the gate. -/
theorem Balanced.move_token {p p' : Pc} {L : Nat} (h : Balanced I card d (n.add p))
    (htoken : L + p'.tally.gate = d.sem_block_lock + p.tally.gate)
    (hsame : ∀ g, { p'.tally with gate := g } = { p.tally with gate := g }) :
    Balanced I card { d with sem_block_lock := L } (n.add p') := by
  have hrest := hsame 0
  simp only [Tally.mk.injEq] at hrest
  obtain ⟨h1, -, h3, h4, h5, h6, h7, h8, h9, h10, h11⟩ := hrest
  obtain ⟨hmutex, hblocked, hgone, hgate⟩ := h
  simp only [Tally.add, Tally.waiters, open_iff, closed_iff] at hgate hmutex
  refine ⟨?_, hblocked, hgone, ?_⟩
  · simp only [Tally.add, h1]
    exact hmutex
  · simp only [Tally.add, Tally.waiters, open_iff, closed_iff, h3, h4, h5, h6, h7, h8, h9, h10, h11]
    rcases hgate with hopen | hclosed
    · refine Or.inl ⟨hopen.1, ?_, hopen.2.2⟩
      omega
    · refine Or.inr ⟨hclosed.1, ?_, hclosed.2.2⟩
      omega

/-- Operations on the mutex. -/
theorem Balanced.move_mutex {p p' : Pc} {M : Bool} (h : Balanced I card d (n.add p))
    (hlock : M.toNat + p.tally.mutex = d.mtx_unblock_lock.toNat + p'.tally.mutex)
    (hsame : ∀ m, { p'.tally with mutex := m } = { p.tally with mutex := m }) :
    Balanced I card { d with mtx_unblock_lock := M } (n.add p') := by
  have hrest := hsame 0
  simp only [Tally.mk.injEq] at hrest
  obtain ⟨-, h2, h3, h4, h5, h6, h7, h8, h9, h10, h11⟩ := hrest
  obtain ⟨hmutex, hblocked, hgone, hgate⟩ := h
  simp only [Tally.add, Tally.waiters, open_iff, closed_iff] at hgate hmutex
  refine ⟨?_, hblocked, hgone, ?_⟩
  · simp only [Tally.add]
    omega
  · simp only [Tally.add, Tally.waiters, open_iff, closed_iff, h2, h3, h4, h5, h6, h7, h8, h9, h10, h11]
    exact hgate

/-- A waiter registers with the token of the gate. -/
theorem Balanced.register {timed : Bool} (h : Balanced I card d (n.add (.registering timed)))
    (hn : n.Sane card) :
    Balanced I card { d with nwaiters_blocked := d.nwaiters_blocked + 1 } (n.add (.registered timed)) := by
  obtain ⟨hmutex, hblocked, hgone, hgate⟩ := h
  have hfinals := hn.gate
  simp only [Tally.add, Pc.tally, Tally.none, Tally.waiters, open_iff, closed_iff] at hgate hmutex
  refine ⟨hmutex, Int.le_add_one hblocked, hgone, Or.inl ?_⟩
  simp only [Tally.add, Pc.tally, Tally.none, Tally.waiters, open_iff]
  and_intros <;> omega

/-- A waiter takes a permit, or its wait times out. -/
theorem Balanced.wake {timed : Bool} (h : Balanced I card d (n.add (.queued timed))) :
    (d.sem_block_queue ≠ 0 →
      Balanced I card { d with sem_block_queue := d.sem_block_queue - 1 } (n.add (.awake false))) ∧
      Balanced I card d (n.add (.awake true)) := by
  obtain ⟨hmutex, hblocked, hgone, hgate⟩ := h
  simp only [Tally.add, Pc.tally, Tally.none, Tally.waiters, open_iff, closed_iff] at hgate hmutex
  refine ⟨?_, hmutex, hblocked, hgone, ?_⟩
  · intro hpermit
    refine ⟨hmutex, hblocked, hgone, ?_⟩
    simp only [Tally.add, Pc.tally, Tally.none, Tally.waiters, open_iff, closed_iff]
    rcases hgate with hopen | hclosed
    · left
      and_intros <;> omega
    · right
      and_intros <;> omega
  · simp only [Tally.add, Pc.tally, Tally.none, Tally.waiters, open_iff, closed_iff]
    rcases hgate with hopen | hclosed
    · left
      and_intros <;> omega
    · right
      and_intros <;> omega

/-- The correction of the counters when `nwaiters_gone` becomes large. -/
theorem Balanced.adjust {bTimedOut : Bool} (hn : n.Sane card) :
    (Balanced I card d (n.add (.subtracting bTimedOut)) →
      Balanced I card { d with nwaiters_blocked := d.nwaiters_blocked - d.nwaiters_gone }
        (n.add (.reopening bTimedOut))) ∧
      (Balanced I card d (n.add (.resetting bTimedOut)) →
        Balanced I card { d with nwaiters_gone := 0 } (n.add (.unlocking 0 0 bTimedOut))) := by
  have hlock := Bool.toNat_le d.mtx_unblock_lock
  have hlimit := I.half_pos
  obtain ⟨hsane, hfinals, hdrains, -⟩ := hn
  refine ⟨?_, ?_⟩
  · rintro ⟨hmutex, hblocked, hgone, hgate⟩
    simp only [Tally.add, Pc.tally, Tally.none, Tally.waiters, open_iff, closed_iff] at hgate hmutex
    refine ⟨hmutex, ?_, hgone, Or.inl ?_⟩
    · show 0 ≤ d.nwaiters_blocked - d.nwaiters_gone
      omega
    · simp only [Tally.add, Pc.tally, Tally.none, Tally.waiters, open_iff]
      and_intros <;> omega
  · rintro ⟨hmutex, hblocked, hgone, hgate⟩
    simp only [Tally.add, Pc.tally, Tally.none, Tally.waiters, open_iff, closed_iff] at hgate hmutex
    refine ⟨hmutex, hblocked, Int.le_refl 0, Or.inl ?_⟩
    simp only [Tally.add, Pc.tally, Tally.none, Tally.waiters, open_iff, Int.zero_ne_one, if_false,
      and_true]
    and_intros <;> omega

/-- The last waiter takes a permit nobody needs any more. -/
theorem Balanced.drain {bTimedOut : Bool} {nwaiters_was_gone : Int}
    (h : Balanced I card d (n.add (.draining nwaiters_was_gone bTimedOut)))
    (hleft : 0 ≤ nwaiters_was_gone) (hmore : nwaiters_was_gone ≠ 0) (hpermit : d.sem_block_queue ≠ 0) :
    Balanced I card { d with sem_block_queue := d.sem_block_queue - 1 }
      (n.add (.draining (nwaiters_was_gone - 1) bTimedOut)) := by
  obtain ⟨hmutex, hblocked, hgone, hgate⟩ := h
  simp only [Tally.add, Pc.tally, Tally.none, Tally.waiters, open_iff, closed_iff] at hgate hmutex
  refine ⟨hmutex, hblocked, hgone, Or.inl ?_⟩
  simp only [Tally.add, Pc.tally, Tally.none, Tally.waiters, open_iff]
  and_intros <;> omega

/-- The last waiter opens the gate. -/
theorem Balanced.open_gate {bTimedOut : Bool} (h : Balanced I card d (n.add (.draining 0 bTimedOut))) :
    Balanced I card { d with sem_block_lock := d.sem_block_lock + 1 } (n.add (.leaving bTimedOut)) := by
  obtain ⟨hmutex, hblocked, hgone, hgate⟩ := h
  simp only [Tally.add, Pc.tally, Tally.none, Tally.waiters, open_iff, closed_iff, Int.toNat_zero]
    at hgate hmutex
  refine ⟨hmutex, hblocked, hgone, Or.inl ?_⟩
  simp only [Tally.add, Pc.tally, Tally.none, Tally.waiters, open_iff]
  and_intros <;> omega

/-- A signaller posts the permits it has issued. -/
theorem Balanced.post {nsignals_to_issue : Int} {result : Option Bool}
    (h : Balanced I card d (n.add (.posting nsignals_to_issue))) :
    Balanced I card { d with sem_block_queue := d.sem_block_queue + nsignals_to_issue.toNat }
      (n.add (.idle result)) := by
  obtain ⟨hmutex, hblocked, hgone, hgate⟩ := h
  simp only [Tally.add, Pc.tally, Tally.none, Tally.waiters, open_iff, closed_iff] at hgate hmutex
  refine ⟨hmutex, hblocked, hgone, ?_⟩
  simp only [Tally.add, Pc.tally, Tally.none, Tally.waiters, open_iff, closed_iff]
  rcases hgate with hopen | hclosed
  · left
    and_intros <;> omega
  · right
    and_intros <;> omega

/-- Every operation of every thread keeps the balance. -/
theorem Balanced.operate {p p' : Pc} {d' : ConditionMembers} (h : Balanced I card d (n.add p))
    (hn : n.Sane card) (hp : p.Sensible) (hkept : p.KeepsBalance d)
    (hstep : operate I d p = some (d', p')) : Balanced I card d' (n.add p') ∧ p'.Sensible := by
  have hlock := h.mutex
  have hle := Bool.toNat_le d.mtx_unblock_lock
  cases p with
  | idle _ => cases hstep
  | entering timed =>
    simp only [condition_algorithm_8a.operate] at hstep
    split_ifs at hstep with hfree
    cases hstep
    exact ⟨h.move_token (by simp only [Pc.tally, Tally.none]; omega) fun _ => rfl, trivial⟩
  | registering timed =>
    cases hstep
    exact ⟨h.register hn, trivial⟩
  | registered timed =>
    cases hstep
    exact ⟨h.move_token rfl fun _ => rfl, trivial⟩
  | queued timed =>
    simp only [condition_algorithm_8a.operate] at hstep
    split_ifs at hstep with hnone
    cases hstep
    exact ⟨h.wake.1 hnone, trivial⟩
  | awake bTimedOut =>
    simp only [condition_algorithm_8a.operate] at hstep
    split_ifs at hstep with hfree
    cases hstep
    simp only [Bool.not_eq_true] at hfree
    refine ⟨h.move_mutex ?_ ?_, trivial⟩
    · cases bTimedOut <;> simp [Pc.tally, Tally.none, hfree]
    · cases bTimedOut <;> exact fun _ => rfl
  | unblocking bTimedOut =>
    obtain ⟨rfl, rfl⟩ := Prod.ext_iff.mp (Option.some.inj hstep)
    exact h.unblock hn hkept
  | opening bTimedOut =>
    cases hstep
    exact ⟨h.move_token rfl fun _ => rfl, Int.le_refl 0⟩
  | adjusting bTimedOut =>
    simp only [condition_algorithm_8a.operate] at hstep
    split_ifs at hstep with hfree
    cases hstep
    exact ⟨h.move_token (by simp only [Pc.tally, Tally.none]; omega) fun _ => rfl, trivial⟩
  | subtracting bTimedOut =>
    cases hstep
    exact ⟨(Balanced.adjust hn).1 h, trivial⟩
  | reopening bTimedOut =>
    cases hstep
    exact ⟨h.move_token rfl fun _ => rfl, trivial⟩
  | resetting bTimedOut =>
    cases hstep
    exact ⟨(Balanced.adjust hn).2 h, Int.le_refl 0⟩
  | unlocking nsignals_was_left nwaiters_was_gone bTimedOut =>
    by_cases hlast : nsignals_was_left = 1
    · simp only [condition_algorithm_8a.operate, hlast, if_true] at hstep
      cases hstep
      simp only [Tally.add, Pc.tally, hlast, if_true] at hlock
      refine ⟨h.move_mutex ?_ ?_, hp⟩
      · simp only [Pc.tally, hlast, if_true, Tally.none, Bool.toNat_false]
        omega
      · simp only [Pc.tally, hlast, if_true, implies_true]
    · simp only [condition_algorithm_8a.operate, hlast, if_false] at hstep
      cases hstep
      simp only [Tally.add, Pc.tally, hlast, if_false] at hlock
      refine ⟨h.move_mutex ?_ ?_, trivial⟩
      · simp only [Pc.tally, hlast, if_false, Tally.none, Bool.toNat_false]
        omega
      · simp only [Pc.tally, hlast, if_false, Tally.none, implies_true]
  | draining nwaiters_was_gone bTimedOut =>
    simp only [condition_algorithm_8a.operate] at hstep
    split_ifs at hstep with hnone hempty
    · cases hstep
      rw [hnone] at h
      exact ⟨h.open_gate, trivial⟩
    · cases hstep
      refine ⟨h.drain hp hnone hempty, ?_⟩
      have hleft : 0 ≤ nwaiters_was_gone := hp
      show 0 ≤ nwaiters_was_gone - 1
      omega
  | leaving bTimedOut =>
    cases hstep
    exact ⟨h, trivial⟩
  | signalling broadcast =>
    simp only [condition_algorithm_8a.operate] at hstep
    split_ifs at hstep with hfree
    cases hstep
    simp only [Bool.not_eq_true] at hfree
    refine ⟨h.move_mutex ?_ fun _ => rfl, trivial⟩
    simp [Pc.tally, Tally.none, hfree]
  | deciding broadcast =>
    obtain ⟨rfl, rfl⟩ := Prod.ext_iff.mp (Option.some.inj hstep)
    exact h.decide_signals hn
  | closing broadcast =>
    simp only [condition_algorithm_8a.operate] at hstep
    split_ifs at hstep with hfree
    cases hstep
    exact ⟨h.move_token (by simp only [Pc.tally, Tally.none]; omega) fun _ => rfl, trivial⟩
  | issuing broadcast =>
    obtain ⟨rfl, rfl⟩ := Prod.ext_iff.mp (Option.some.inj hstep)
    exact h.issue_signals hn
  | issued nsignals_to_issue =>
    cases nsignals_to_issue with
    | none =>
      cases hstep
      simp only [Tally.add, Pc.tally] at hlock
      refine ⟨h.move_mutex ?_ fun _ => rfl, trivial⟩
      simp only [Pc.tally, Tally.none, Bool.toNat_false]
      omega
    | some nsignals =>
      cases hstep
      simp only [Tally.add, Pc.tally] at hlock
      refine ⟨h.move_mutex ?_ fun _ => rfl, hp⟩
      simp only [Pc.tally, Tally.none, Bool.toNat_false]
      omega
  | posting nsignals_to_issue =>
    cases hstep
    exact ⟨h.post, trivial⟩

end Operations

end interprocess.ipcdetail.condition_algorithm_8a
