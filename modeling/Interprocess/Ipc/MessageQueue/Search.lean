import Interprocess.Ipc.MessageQueue.Insert

open Circular

namespace interprocess.ipcdetail

/-- The search stops at the first position that does not precede the value, or
    at the end of the range. -/
theorem std_lower_bound_spec (precedes : Nat → Bool) (b n : Nat) :
    ∃ m ≤ n, std_lower_bound precedes b n = b + m ∧ (∀ i < m, precedes (b + i) = true) ∧
      (m < n → precedes (b + m) = false) := by
  induction n generalizing b with
  | zero => exact ⟨0, by omega, rfl, by omega, by omega⟩
  | succ n ih =>
    cases hb : precedes b with
    | false =>
      refine ⟨0, by omega, ?_, by omega, fun _ => hb⟩
      simp [std_lower_bound, hb]
    | true =>
      obtain ⟨m, hm, heq, hbefore, hstop⟩ := ih (b + 1)
      refine ⟨m + 1, by omega, ?_, ?_, ?_⟩
      · simp only [std_lower_bound, hb, if_true, heq]
        omega
      · intro i hi
        cases i with
        | zero => simpa using hb
        | succ i =>
          have := hbefore i (by omega)
          rwa [Nat.add_assoc, Nat.add_comm 1] at this
      · intro hlt
        have := hstop (by omega)
        rwa [Nat.add_assoc, Nat.add_comm 1] at this

namespace mq_hdr_t

/-- The priority of the `i`-th message of the window. -/
def entryPriority (h : mq_hdr_t) (i : Nat) : Nat :=
  (h.slots (h.entry i)).priority

theorem precedes_pos (h : mq_hdr_t) (priority i : Nat) :
    h.precedes priority (pos h.m_max_num_msg h.m_cur_first_msg i) = true ↔
      h.entryPriority i < priority := by
  simp [precedes, entryPriority, entry]

/-- The search in a possibly wrapped window finds the first message that does
    not precede the searched priority. -/
theorem lower_bound_spec {h : mq_hdr_t} (priority : Nat)
    (hfirst : h.m_cur_first_msg < h.m_max_num_msg) (hroom : h.m_cur_num_msg < h.m_max_num_msg) :
    ∃ k ≤ h.m_cur_num_msg, h.lower_bound priority = pos h.m_max_num_msg h.m_cur_first_msg k ∧
      (∀ i < k, h.entryPriority i < priority) ∧
      (k < h.m_cur_num_msg → priority ≤ h.entryPriority k) := by
  have hend := end_pos_eq hfirst
  have hinside : ∀ {i : Nat}, h.m_cur_first_msg + i < h.m_max_num_msg →
      (h.precedes priority (h.m_cur_first_msg + i) = true ↔ h.entryPriority i < priority) := by
    intro i hi
    rw [← precedes_pos, pos, if_pos hi]
  by_cases hwrap : h.m_cur_first_msg + h.m_cur_num_msg < h.m_max_num_msg
  · rw [pos, if_pos hwrap] at hend
    have hnot : ¬ h.end_pos < h.m_cur_first_msg := by omega
    obtain ⟨m, hm, heq, hbefore, hstop⟩ :=
      std_lower_bound_spec (h.precedes priority) h.m_cur_first_msg (h.end_pos - h.m_cur_first_msg)
    refine ⟨m, by omega, ?_, ?_, ?_⟩
    · simp only [lower_bound, hnot, if_false, heq]
      exact (if_pos (by omega)).symm
    · exact fun i hi => (hinside (by omega)).mp (hbefore i hi)
    · intro hlt
      have hfalse := hstop (by omega)
      by_contra hnle
      rw [(hinside (by omega)).mpr (by omega)] at hfalse
      cases hfalse
  · rw [pos, if_neg hwrap] at hend
    have hlt : h.end_pos < h.m_cur_first_msg := by omega
    have hsecond : ∀ {i : Nat}, i < h.end_pos → (h.precedes priority i = true ↔
        h.entryPriority (h.m_max_num_msg - h.m_cur_first_msg + i) < priority) := by
      intro i hi
      rw [← precedes_pos, pos, if_neg (by omega)]
      have : h.m_cur_first_msg + (h.m_max_num_msg - h.m_cur_first_msg + i) - h.m_max_num_msg = i := by
        omega
      rw [this]
    obtain ⟨m, hm, heq, hbefore, hstop⟩ := std_lower_bound_spec (h.precedes priority)
      h.m_cur_first_msg (h.m_max_num_msg - h.m_cur_first_msg)
    by_cases hfull : h.m_max_num_msg = h.m_cur_first_msg + m
    · obtain ⟨m', hm', heq', hbefore', hstop'⟩ :=
        std_lower_bound_spec (h.precedes priority) 0 h.end_pos
      refine ⟨m + m', by omega, ?_, ?_, ?_⟩
      · simp only [lower_bound, hlt, if_true, heq, hfull.symm, heq']
        rw [pos, if_neg (by omega)]
        omega
      · intro i hi
        by_cases him : i < m
        · exact (hinside (by omega)).mp (hbefore i him)
        · have h1 := hbefore' (i - m) (by omega)
          rw [Nat.zero_add, hsecond (by omega)] at h1
          have h2 : h.m_max_num_msg - h.m_cur_first_msg + (i - m) = i := by omega
          rwa [h2] at h1
      · intro hlt'
        have hfalse := hstop' (by omega)
        rw [Nat.zero_add] at hfalse
        by_contra hnle
        have h2 : h.m_max_num_msg - h.m_cur_first_msg + m' = m + m' := by omega
        rw [(hsecond (by omega)).mpr (by rw [h2]; omega)] at hfalse
        cases hfalse
    · refine ⟨m, by omega, ?_, ?_, ?_⟩
      · simp only [lower_bound, hlt, if_true, heq, if_neg hfull]
        exact (if_pos (by omega)).symm
      · exact fun i hi => (hinside (by omega)).mp (hbefore i hi)
      · intro _
        have hfalse := hstop (by omega)
        by_contra hnle
        rw [(hinside (by omega)).mpr (by omega)] at hfalse
        cases hfalse

theorem bottom_msg_eq {h : mq_hdr_t} (hfirst : h.m_cur_first_msg < h.m_max_num_msg) :
    h.bottom_msg = h.entry 0 :=
  congrArg h.mp_index (if_pos hfirst).symm

theorem top_msg_eq {h : mq_hdr_t} (hfirst : h.m_cur_first_msg < h.m_max_num_msg)
    (hsome : 0 < h.m_cur_num_msg) (hnum : h.m_cur_num_msg ≤ h.m_max_num_msg) :
    h.top_msg = h.entry (h.m_cur_num_msg - 1) := by
  simp only [top_msg, entry, end_pos_eq hfirst]
  congr 1
  unfold pos
  split_ifs <;> omega

/-- The circular index holds distinct slots, and its window is ordered by priority. -/
structure Indexed (h : mq_hdr_t) : Prop where
  first_lt : h.m_cur_first_msg < h.m_max_num_msg
  num_le : h.m_cur_num_msg ≤ h.m_max_num_msg
  entry_lt : ∀ i < h.m_max_num_msg, h.entry i < h.m_max_num_msg
  entry_inj : ∀ i < h.m_max_num_msg, ∀ j < h.m_max_num_msg, h.entry i = h.entry j → i = j
  ordered : ∀ i j, i < j → j < h.m_cur_num_msg → h.entryPriority i ≤ h.entryPriority j

/-- The free message goes behind the messages of lower priority and before all
    others, so it will be received after the earlier ones of its priority. -/
theorem Indexed.queue_free_msg {h : mq_hdr_t} (hindexed : h.Indexed) (priority : Nat)
    (hroom : h.m_cur_num_msg < h.m_max_num_msg) :
    ∃ k ≤ h.m_cur_num_msg, (∀ i < k, h.entryPriority i < priority) ∧
      (∀ i, k ≤ i → i < h.m_cur_num_msg → priority ≤ h.entryPriority i) ∧
      Inserted h k (h.queue_free_msg priority) := by
  have hfirst := hindexed.first_lt
  by_cases hbottom : h.m_cur_num_msg ≠ 0 ∧ priority > (h.slots h.bottom_msg).priority
  · have hsome : 0 < h.m_cur_num_msg := by omega
    by_cases htop : priority > (h.slots h.top_msg).priority
    · refine ⟨h.m_cur_num_msg, le_refl _, ?_, by omega, ?_⟩
      · intro i hi
        rw [top_msg_eq hfirst hsome hroom.le] at htop
        by_cases hlast : i = h.m_cur_num_msg - 1
        · rw [hlast]
          exact htop
        · have := hindexed.ordered i (h.m_cur_num_msg - 1) (by omega) (by omega)
          exact lt_of_le_of_lt this htop
      · simp only [mq_hdr_t.queue_free_msg, if_pos hbottom, if_pos htop]
        exact insert_at_end hfirst hroom hsome
    · obtain ⟨k, hk, heq, hbefore, hstop⟩ := lower_bound_spec priority hfirst hroom
      refine ⟨k, hk, hbefore, ?_, ?_⟩
      · intro i hki hi
        have hk' := hstop (by omega)
        by_cases hik : k = i
        · rw [← hik]
          exact hk'
        · exact hk'.trans (hindexed.ordered k i (by omega) hi)
      · simp only [mq_hdr_t.queue_free_msg, if_pos hbottom, if_neg htop, heq]
        exact insert_at_spec hfirst hroom hk
  · refine ⟨0, by omega, by omega, ?_, ?_⟩
    · intro i _ hi
      have hle : priority ≤ h.entryPriority 0 := by
        rw [bottom_msg_eq hfirst] at hbottom
        simp only [entryPriority]
        omega
      by_cases hzero : i = 0
      · rw [hzero]
        exact hle
      · exact hle.trans (hindexed.ordered 0 i (by omega) hi)
    · simp only [mq_hdr_t.queue_free_msg, if_neg hbottom]
      exact insert_at_first hfirst hroom

end mq_hdr_t

end interprocess.ipcdetail
