import Mathlib.Data.List.Nodup
import Mathlib.Data.List.Perm.Subperm
import Interprocess.Ipc.MessageQueue.Search

open Circular

namespace interprocess.ipcdetail.mq_hdr_t

/-- The messages of the window, lowest priority first. -/
def inserted (h : mq_hdr_t) : List msg_hdr_t :=
  (List.range h.m_cur_num_msg).map fun i => h.slots (h.entry i)

/-- The caller of an insertion fills the slot it got. -/
def store (r : mq_hdr_t × Nat) (msg : msg_hdr_t) : mq_hdr_t :=
  { r.1 with slots := Function.update r.1.slots r.2 msg }

/-- The top message is freed, after its slot was cleaned or left as it is. -/
def release (h : mq_hdr_t) (msg : msg_hdr_t) : mq_hdr_t :=
  { h with slots := Function.update h.slots h.top_msg msg }.free_top_msg

variable {h : mq_hdr_t} {k : Nat} {r : mq_hdr_t × Nat}

theorem length_inserted (h : mq_hdr_t) : h.inserted.length = h.m_cur_num_msg := by
  simp [inserted]

theorem getElem_inserted {i : Nat} (hi : i < h.inserted.length) :
    h.inserted[i] = h.slots (h.entry i) := by
  simp [inserted]

/-- The caller writes one slot, and the slot is none of those the window held. -/
theorem Inserted.store_slots (hins : Inserted h k r) (hindexed : h.Indexed)
    (hroom : h.m_cur_num_msg < h.m_max_num_msg) (hk : k ≤ h.m_cur_num_msg) (msg : msg_hdr_t) :
    (store r msg).slots (r.1.entry k) = msg ∧
      ∀ j < h.m_max_num_msg, j ≠ k →
        (store r msg).slots ((store r msg).entry j) = h.slots (r.1.entry j) := by
  have hentry : (store r msg).entry = r.1.entry := rfl
  have hslots : (store r msg).slots = Function.update h.slots (r.1.entry k) msg := by
    simp only [store, hins.slots, hins.slot]
  refine ⟨?_, ?_⟩
  · rw [hslots, Function.update_self]
  · intro j hj hjk
    rw [hslots, hentry, Function.update_of_ne]
    obtain ⟨draw, hdraw, hlt, hinj, _⟩ := hins.draws
    rw [hdraw j hj, hdraw k (by omega)]
    intro heq
    exact hjk (hinj j hj k (by omega)
      (hindexed.entry_inj _ (hlt j hj) _ (hlt k (by omega)) heq))

/-- The entries of the window after an insertion at `k`. -/
theorem Inserted.store_entry (hins : Inserted h k r) (hindexed : h.Indexed)
    (hroom : h.m_cur_num_msg < h.m_max_num_msg) (hk : k ≤ h.m_cur_num_msg) (msg : msg_hdr_t)
    {j : Nat} (hj : j ≤ h.m_cur_num_msg) :
    (store r msg).slots ((store r msg).entry j) =
      if j < k then h.slots (h.entry j) else if j = k then msg else h.slots (h.entry (j - 1)) := by
  obtain ⟨hnew, hold⟩ := hins.store_slots hindexed hroom hk msg
  obtain ⟨draw, hdraw, _, _, hbefore, _, hafter⟩ := hins.draws
  by_cases hjk : j = k
  · rw [if_neg (by omega), if_pos hjk, hjk]
    exact hnew
  · rw [hold j (by omega) hjk, hdraw j (by omega)]
    by_cases hlt : j < k
    · rw [if_pos hlt, hbefore j hlt]
    · rw [if_neg hlt, if_neg hjk, hafter j (by omega) hj]

/-- The new message stands at position `k` of the window, whichever slot it got. -/
theorem Inserted.inserted_store (hins : Inserted h k r) (hindexed : h.Indexed)
    (hroom : h.m_cur_num_msg < h.m_max_num_msg) (hk : k ≤ h.m_cur_num_msg) (msg : msg_hdr_t) :
    (store r msg).inserted = h.inserted.take k ++ msg :: h.inserted.drop k := by
  have hnum : (store r msg).m_cur_num_msg = h.m_cur_num_msg + 1 := hins.num
  have hlen := length_inserted h
  apply List.ext_getElem
  · simp [length_inserted, hnum]
    omega
  · intro j hj _
    rw [length_inserted, hnum] at hj
    rw [getElem_inserted, hins.store_entry hindexed hroom hk msg (by omega)]
    by_cases hlt : j < k
    · rw [if_pos hlt, List.getElem_append_left (by simp; omega), List.getElem_take,
        getElem_inserted]
    · rw [if_neg hlt, List.getElem_append_right (by simp; omega)]
      have htake : (h.inserted.take k).length = k := by simp; omega
      by_cases hjk : j = k
      · simp [hjk, htake]
      · rw [if_neg hjk]
        have hpred : j - (h.inserted.take k).length = (j - k - 1) + 1 := by omega
        simp only [hpred, List.getElem_cons_succ, List.getElem_drop, getElem_inserted]
        congr 2
        omega

/-- Entries behind the window are drawn from behind the window. -/
theorem Inserted.free (hins : Inserted h k r) {i : Nat} (hi : h.m_cur_num_msg < i)
    (hmax : i < h.m_max_num_msg) :
    ∃ d, h.m_cur_num_msg ≤ d ∧ d < h.m_max_num_msg ∧ r.1.entry i = h.entry d := by
  obtain ⟨draw, hdraw, hlt, hinj, hbefore, _, hafter⟩ := hins.draws
  refine ⟨draw i, ?_, hlt i hmax, hdraw i hmax⟩
  by_contra hless
  have hd : draw i < h.m_cur_num_msg := by omega
  by_cases hdk : draw i < k
  · have := hinj i hmax (draw i) (by omega) (hbefore _ hdk).symm
    omega
  · have := hinj i hmax (draw i + 1) (by omega) (hafter (draw i + 1) (by omega) (by omega)).symm
    omega

/-- An insertion between lower and higher priorities keeps the index intact. -/
theorem Inserted.indexed_store (hins : Inserted h k r) (hindexed : h.Indexed) {msg : msg_hdr_t}
    (hroom : h.m_cur_num_msg < h.m_max_num_msg) (hk : k ≤ h.m_cur_num_msg)
    (hlow : ∀ i < k, h.entryPriority i ≤ msg.priority)
    (hhigh : ∀ i, k ≤ i → i < h.m_cur_num_msg → msg.priority ≤ h.entryPriority i) :
    (store r msg).Indexed := by
  have hmax : (store r msg).m_max_num_msg = h.m_max_num_msg := hins.max_num
  have hnum : (store r msg).m_cur_num_msg = h.m_cur_num_msg + 1 := hins.num
  have hentry : (store r msg).entry = r.1.entry := rfl
  obtain ⟨draw, hdraw, hlt, hinj, _⟩ := hins.draws
  refine ⟨?_, ?_, ?_, ?_, ?_⟩
  · rw [hmax]
    exact hins.first
  · omega
  · intro i hi
    rw [hmax] at hi ⊢
    rw [hentry, hdraw i hi]
    exact hindexed.entry_lt _ (hlt i hi)
  · intro i hi j hj heq
    rw [hmax] at hi hj
    rw [hentry, hdraw i hi, hdraw j hj] at heq
    exact hinj i hi j hj (hindexed.entry_inj _ (hlt i hi) _ (hlt j hj) heq)
  · intro i j hij hj
    rw [hnum] at hj
    have hpriority : ∀ x ≤ h.m_cur_num_msg, (store r msg).entryPriority x =
        if x < k then h.entryPriority x else if x = k then msg.priority
        else h.entryPriority (x - 1) := by
      intro x hx
      rw [entryPriority, hins.store_entry hindexed hroom hk msg hx]
      split_ifs <;> rfl
    rw [hpriority i (by omega), hpriority j (by omega)]
    by_cases hik : i < k
    · rw [if_pos hik]
      by_cases hjk : j < k
      · rw [if_pos hjk]
        exact hindexed.ordered i j hij (by omega)
      · rw [if_neg hjk]
        have := hlow i hik
        split_ifs
        · exact this
        · exact this.trans (hhigh (j - 1) (by omega) (by omega))
    · have hjk : ¬ j < k := by omega
      have hjne : j ≠ k := by omega
      rw [if_neg hik, if_neg hjk, if_neg hjne]
      by_cases hik' : i = k
      · rw [if_pos hik']
        exact hhigh (j - 1) (by omega) (by omega)
      · rw [if_neg hik']
        exact hindexed.ordered (i - 1) (j - 1) (by omega) (by omega)

/-- Freeing the top message writes no other slot of the index. -/
theorem Indexed.release_slots (hindexed : h.Indexed) (hsome : 0 < h.m_cur_num_msg)
    (msg : msg_hdr_t) {i : Nat} (hi : i < h.m_max_num_msg) (hne : i ≠ h.m_cur_num_msg - 1) :
    (h.release msg).slots (h.entry i) = h.slots (h.entry i) := by
  have hnum := hindexed.num_le
  have hslots : (h.release msg).slots = Function.update h.slots (h.entry (h.m_cur_num_msg - 1)) msg := by
    rw [← top_msg_eq hindexed.first_lt hsome hnum]
    rfl
  rw [hslots, Function.update_of_ne]
  exact fun heq => hne (hindexed.entry_inj i hi _ (by omega) heq)

theorem Indexed.release (hindexed : h.Indexed) (hsome : 0 < h.m_cur_num_msg) (msg : msg_hdr_t) :
    (h.release msg).Indexed := by
  have hnum := hindexed.num_le
  have hfreed : (h.release msg).m_cur_num_msg = h.m_cur_num_msg - 1 := rfl
  have hmax : (h.release msg).m_max_num_msg = h.m_max_num_msg := rfl
  have hentry : (h.release msg).entry = h.entry := rfl
  refine ⟨hindexed.first_lt, by omega, hindexed.entry_lt, hindexed.entry_inj, ?_⟩
  intro i j hij hj
  rw [hfreed] at hj
  rw [entryPriority, entryPriority, hentry, hindexed.release_slots hsome msg (by omega) (by omega),
    hindexed.release_slots hsome msg (by omega) (by omega)]
  exact hindexed.ordered i j hij (by omega)

theorem Indexed.inserted_release (hindexed : h.Indexed) (hsome : 0 < h.m_cur_num_msg)
    (msg : msg_hdr_t) : h.inserted = (h.release msg).inserted ++ [h.slots h.top_msg] := by
  have hnum := hindexed.num_le
  have hfreed : (h.release msg).m_cur_num_msg = h.m_cur_num_msg - 1 := rfl
  have hentry : (h.release msg).entry = h.entry := rfl
  have hlen := length_inserted h
  have hlen' := length_inserted (h.release msg)
  apply List.ext_getElem
  · simp only [List.length_append, List.length_singleton]
    omega
  · intro i hi _
    rw [getElem_inserted]
    by_cases hlast : i < (h.release msg).inserted.length
    · rw [List.getElem_append_left hlast, getElem_inserted, hentry,
        hindexed.release_slots hsome msg (by omega) (by omega)]
    · rw [List.getElem_append_right (by omega)]
      have hi' : i = h.m_cur_num_msg - 1 := by omega
      simp [top_msg_eq hindexed.first_lt hsome hnum, hi']

theorem construct_indexed {max_num_msg : Nat} (max_msg_size : Nat) (hmax : 0 < max_num_msg)
    (memory : Nat → msg_hdr_t) : (construct max_num_msg max_msg_size memory).Indexed := by
  have hentry : ∀ i < max_num_msg, (construct max_num_msg max_msg_size memory).entry i = i := by
    intro i hi
    simp [construct, entry, pos, hi]
  refine ⟨hmax, Nat.zero_le _, ?_, ?_, ?_⟩
  · intro i hi
    rw [hentry i hi]
    exact hi
  · intro i hi j hj heq
    rwa [hentry i hi, hentry j hj] at heq
  · intro i j _ hj
    exact absurd hj (Nat.not_lt_zero _)

/-- The pointers of the index are the slots in some order. -/
theorem Indexed.perm (hindexed : h.Indexed) :
    ((List.range h.m_max_num_msg).map h.mp_index).Perm (List.range h.m_max_num_msg) := by
  have hlt : ∀ p < h.m_max_num_msg, h.mp_index p < h.m_max_num_msg := by
    intro p hp
    obtain ⟨i, hi, rfl⟩ := exists_pos hindexed.first_lt hp
    exact hindexed.entry_lt i hi
  have hinj : ∀ p < h.m_max_num_msg, ∀ q < h.m_max_num_msg, h.mp_index p = h.mp_index q → p = q := by
    intro p hp q hq heq
    obtain ⟨i, hi, rfl⟩ := exists_pos hindexed.first_lt hp
    obtain ⟨j, hj, rfl⟩ := exists_pos hindexed.first_lt hq
    rw [hindexed.entry_inj i hi j hj heq]
  have hnodup : ((List.range h.m_max_num_msg).map h.mp_index).Nodup := by
    refine List.Nodup.map_on ?_ List.nodup_range
    intro p hp q hq heq
    exact hinj p (List.mem_range.mp hp) q (List.mem_range.mp hq) heq
  have hsubset : (List.range h.m_max_num_msg).map h.mp_index ⊆ List.range h.m_max_num_msg := by
    intro slot hslot
    obtain ⟨p, hp, rfl⟩ := List.mem_map.mp hslot
    exact List.mem_range.mpr (hlt p (List.mem_range.mp hp))
  exact (List.subperm_of_subset hnodup hsubset).perm_of_length_le (by simp)

theorem Indexed.sorted (hindexed : h.Indexed) :
    h.inserted.Pairwise fun a b => a.priority ≤ b.priority := by
  rw [List.pairwise_iff_getElem]
  intro i j hi hj hij
  rw [getElem_inserted, getElem_inserted]
  exact hindexed.ordered i j hij (length_inserted h ▸ hj)

/-- The assertions of `lower_bound`, checked when the search goes on in the second
    part of a wrapped window. -/
def lower_bound_asserts (h : mq_hdr_t) (priority : Nat) : Bool :=
  let begin_ := h.m_cur_first_msg
  let end_ := h.end_pos
  if end_ < begin_ then
    let idx_end := h.m_max_num_msg
    let ret := std_lower_bound (h.precedes priority) begin_ (idx_end - begin_)
    if idx_end = ret then
      let ret := std_lower_bound (h.precedes priority) 0 end_
      ret ≠ end_ ∧ ret ≠ begin_
    else true
  else true

/-- The assertions that inserting a message of some priority checks. -/
def queue_free_msg_asserts (h : mq_hdr_t) (priority : Nat) : Bool :=
  if h.m_cur_num_msg ≠ 0 ∧ priority > (h.slots h.bottom_msg).priority then
    if priority > (h.slots h.top_msg).priority then true else h.lower_bound_asserts priority
  else true

/-- The search stops before the end, for the top message does not precede the value. -/
theorem Indexed.lower_bound_ne_end (hindexed : h.Indexed) {priority : Nat}
    (hroom : h.m_cur_num_msg < h.m_max_num_msg) (hsome : 0 < h.m_cur_num_msg)
    (htop : priority ≤ (h.slots h.top_msg).priority) : h.lower_bound priority ≠ h.end_pos := by
  have hfirst := hindexed.first_lt
  obtain ⟨k, hk, heq, hbefore, _⟩ := lower_bound_spec priority hfirst hroom
  rw [top_msg_eq hfirst hsome hroom.le] at htop
  have hinside : k < h.m_cur_num_msg := by
    by_contra hlast
    have hlow := hbefore (h.m_cur_num_msg - 1) (by omega)
    unfold entryPriority at hlow
    omega
  rw [heq, end_pos_eq hfirst]
  intro hpos
  have := pos_inj (by omega) hroom hpos
  omega

theorem Indexed.queue_free_msg_asserts (hindexed : h.Indexed) (priority : Nat)
    (hroom : h.m_cur_num_msg < h.m_max_num_msg) : h.queue_free_msg_asserts priority = true := by
  unfold mq_hdr_t.queue_free_msg_asserts
  split_ifs with hbottom htop
  · rfl
  · have hne := hindexed.lower_bound_ne_end hroom (by omega) (Nat.not_lt.mp htop)
    unfold lower_bound at hne
    unfold lower_bound_asserts
    simp only at hne ⊢
    split_ifs with hwrap hfull
    · rw [if_pos hwrap, if_pos hfull] at hne
      obtain ⟨m, hm, hret, _⟩ := std_lower_bound_spec (h.precedes priority) 0 h.end_pos
      refine decide_eq_true ⟨hne, ?_⟩
      rw [hret]
      omega
    · rfl
    · rfl
  · rfl

/-- Both variants of the middle insertion give the same sequence of messages. -/
theorem Indexed.moving_front_eq_back (hindexed : h.Indexed)
    (hroom : h.m_cur_num_msg < h.m_max_num_msg) (hk : 0 < k) (hkn : k < h.m_cur_num_msg)
    (msg : msg_hdr_t) :
    (store (h.insert_moving_front (pos h.m_max_num_msg h.m_cur_first_msg k)) msg).inserted =
      (store (h.insert_moving_back (pos h.m_max_num_msg h.m_cur_first_msg k)) msg).inserted := by
  have hfront := insert_moving_front_spec hindexed.first_lt hroom hk hkn
  have hback := insert_moving_back_spec hindexed.first_lt hroom hkn
  rw [hfront.inserted_store hindexed hroom hkn.le, hback.inserted_store hindexed hroom hkn.le]

/-- A call on the header, with what the caller writes into the slot. -/
inductive Call where
  | queue_free_msg (msg : msg_hdr_t)
  | free_top_msg (msg : msg_hdr_t)

/-- One call, if it is within capacity. -/
def call (h : mq_hdr_t) : Call → Option mq_hdr_t
  | .queue_free_msg msg =>
    if h.is_full then none else some (store (h.queue_free_msg msg.priority) msg)
  | .free_top_msg msg => if h.is_empty then none else some (h.release msg)

def call_all (h : mq_hdr_t) : List Call → Option mq_hdr_t
  | [] => some h
  | c :: calls => (h.call c).bind fun next => next.call_all calls

theorem Indexed.call {next : mq_hdr_t} (hindexed : h.Indexed) {c : Call}
    (hcall : h.call c = some next) : next.Indexed ∧ next.m_max_num_msg = h.m_max_num_msg := by
  have hnum := hindexed.num_le
  cases c with
  | queue_free_msg msg =>
    simp only [mq_hdr_t.call, is_full, beq_iff_eq] at hcall
    split_ifs at hcall with hfull
    cases hcall
    obtain ⟨k, hk, hlow, hhigh, hins⟩ := hindexed.queue_free_msg msg.priority (by omega)
    exact ⟨hins.indexed_store hindexed (by omega) hk (fun i hi => (hlow i hi).le) hhigh,
      hins.max_num⟩
  | free_top_msg msg =>
    simp only [mq_hdr_t.call, is_empty, beq_iff_eq] at hcall
    split_ifs at hcall with hempty
    cases hcall
    exact ⟨hindexed.release (by omega) msg, rfl⟩

theorem Indexed.call_all {last : mq_hdr_t} (hindexed : h.Indexed) {calls : List Call}
    (hcalls : h.call_all calls = some last) :
    last.Indexed ∧ last.m_max_num_msg = h.m_max_num_msg := by
  induction calls generalizing h with
  | nil =>
    cases hcalls
    exact ⟨hindexed, rfl⟩
  | cons c calls ih =>
    obtain ⟨next, hnext, hrest⟩ := Option.bind_eq_some_iff.mp hcalls
    obtain ⟨hkept, hmax⟩ := hindexed.call hnext
    obtain ⟨hlast, hmax'⟩ := ih hkept hrest
    exact ⟨hlast, hmax'.trans hmax⟩

/-- After any calls within capacity the index is a permutation of the slots, its
    window is sorted by priority, the next insertion violates no assertion, and its
    two variants for the middle of the window would give the same messages. -/
theorem circular_index_intact {max_num_msg : Nat} (max_msg_size : Nat) (hmax : 0 < max_num_msg)
    (memory : Nat → msg_hdr_t) {calls : List Call} {last : mq_hdr_t}
    (hcalls : (construct max_num_msg max_msg_size memory).call_all calls = some last) :
    ((List.range max_num_msg).map last.mp_index).Perm (List.range max_num_msg) ∧
      (last.inserted.Pairwise fun a b => a.priority ≤ b.priority) ∧
      (last.is_full = false → ∀ priority, last.queue_free_msg_asserts priority = true) ∧
      (last.is_full = false → ∀ k, 0 < k → k < last.m_cur_num_msg → ∀ msg,
        (store (last.insert_moving_front (pos max_num_msg last.m_cur_first_msg k)) msg).inserted =
          (store (last.insert_moving_back (pos max_num_msg last.m_cur_first_msg k)) msg).inserted) := by
  obtain ⟨hindexed, hlast⟩ := (construct_indexed max_msg_size hmax memory).call_all hcalls
  have hkept : last.m_max_num_msg = max_num_msg := hlast
  have hroom : last.is_full = false → last.m_cur_num_msg < last.m_max_num_msg := by
    intro hfull
    have hnum := hindexed.num_le
    have hne : last.m_cur_num_msg ≠ last.m_max_num_msg := by simpa [is_full] using hfull
    omega
  rw [← hkept]
  exact ⟨hindexed.perm, hindexed.sorted,
    fun hfull priority => hindexed.queue_free_msg_asserts priority (hroom hfull),
    fun hfull k hk hkn msg => hindexed.moving_front_eq_back (hroom hfull) hk hkn msg⟩

/-- Three messages in a queue of four, the last of them inserted in the middle. -/
theorem circular_index_intact_three :
    ∃ last, (construct 4 0 fun _ => ⟨0, 0, fun _ => 0⟩).call_all
        [.queue_free_msg ⟨0, 7, fun _ => 0⟩, .queue_free_msg ⟨0, 3, fun _ => 0⟩,
          .queue_free_msg ⟨0, 5, fun _ => 0⟩] = some last ∧
      ((List.range 4).map last.mp_index).Perm (List.range 4) := by
  have hcalls : (construct 4 0 fun _ => ⟨0, 0, fun _ => 0⟩).call_all
      [.queue_free_msg ⟨0, 7, fun _ => 0⟩, .queue_free_msg ⟨0, 3, fun _ => 0⟩,
        .queue_free_msg ⟨0, 5, fun _ => 0⟩] = some _ := rfl
  exact ⟨_, hcalls, (circular_index_intact 0 (by decide) _ hcalls).1⟩

end interprocess.ipcdetail.mq_hdr_t
