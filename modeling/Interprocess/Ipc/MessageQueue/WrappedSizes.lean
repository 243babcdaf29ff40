import Interprocess.Ipc.MessageQueue.MappedRefinement

open interprocess.ipcdetail interprocess.ipcdetail.mq_hdr_t
open interprocess.message_queue.memory_layout

namespace interprocess.message_queue.mapped

section Pointers

variable {r_max_msg_size msg_hdr : Nat}

theorem slot_pointer_succ (r_max_msg_size msg_hdr i : Nat) :
    slot_pointer r_max_msg_size ((msg_hdr + r_max_msg_size) % 2 ^ 64) i =
      slot_pointer r_max_msg_size msg_hdr (i + 1) := by
  induction i with
  | zero => rfl
  | succ i ih =>
    rw [slot_pointer, ih]
    rfl

/-- The index points to the slots of the layout. -/
theorem slot_pointers_eq_map (r_max_msg_size msg_hdr n : Nat) :
    slot_pointers r_max_msg_size msg_hdr n =
      (List.range n).map (slot_pointer r_max_msg_size msg_hdr) := by
  induction n generalizing msg_hdr with
  | zero => rfl
  | succ n ih =>
    rw [slot_pointers, ih, List.range_succ_eq_map, List.map_cons, List.map_map]
    refine congrArg (msg_hdr :: ·) (List.map_congr_left fun i _ => ?_)
    exact slot_pointer_succ _ _ i

theorem slot_pointer_eq (hfirst : msg_hdr < 2 ^ 64) (i : Nat) :
    slot_pointer r_max_msg_size msg_hdr i = (msg_hdr + i * r_max_msg_size) % 2 ^ 64 := by
  induction i with
  | zero => rw [slot_pointer, Nat.zero_mul, Nat.add_zero, Nat.mod_eq_of_lt hfirst]
  | succ i ih => rw [slot_pointer, ih, Nat.mod_add_mod, Nat.succ_mul, Nat.add_assoc]

end Pointers

section Sizes

variable {abi : QueueAbi} {region size max_num_msg max_msg_size : Nat}

/-- The layout is that of the header, of the index and of the slots it points to. -/
theorem ranges_eq (abi : QueueAbi) (region max_msg_size max_num_msg : Nat) :
    (initialize_memory abi.toAbi region max_msg_size max_num_msg).ranges abi.toAbi max_msg_size
        max_num_msg =
      header_range abi region :: index_range abi region max_num_msg ::
        (List.range max_num_msg).map fun i =>
          ⟨slot_pointer (r_max_msg_size abi.toAbi max_msg_size) (first_msg_hdr abi region max_num_msg) i,
            abi.sizeof_msg_hdr_t + max_msg_size⟩ := by
  simp only [Placement.ranges, initialize_memory, slot_pointers_eq_map, List.map_map]
  rfl

/-- A well placed queue is created, and its slots can be used. -/
theorem placed_of_well_placed
    (hplaced : WellPlaced abi.toAbi region size max_msg_size max_num_msg
      (initialize_memory abi.toAbi region max_msg_size max_num_msg)) :
    ∃ q, create abi region size max_num_msg max_msg_size = some q ∧
      Placed abi region size max_num_msg max_msg_size q.mp_index := by
  have hinside := hplaced.inside
  have hapart := hplaced.apart
  rw [ranges_eq] at hinside hapart
  obtain ⟨hheader, hrest⟩ := List.pairwise_cons.mp hapart
  obtain ⟨hindex, hslots⟩ := List.pairwise_cons.mp hrest
  have hmapped : (index_range abi region max_num_msg).Inside region (region + size) :=
    hinside _ (List.mem_cons_of_mem _ List.mem_cons_self)
  have hslots_inside := List.forall_mem_map.mp fun a ha =>
    hinside a (List.mem_cons_of_mem _ (List.mem_cons_of_mem _ ha))
  have hslots_header := List.forall_mem_map.mp fun a ha => hheader a (List.mem_cons_of_mem _ ha)
  have hslots_index := List.forall_mem_map.mp hindex
  refine ⟨_, if_pos hmapped, fun s hs => ?_, ?_⟩
  · have hmem := List.mem_range.mpr hs
    exact ⟨hslots_inside s hmem, hslots_header s hmem, hslots_index s hmem⟩
  · have hordered := List.pairwise_iff_getElem.mp (List.pairwise_map.mp hslots)
    simp only [List.length_range, List.getElem_range] at hordered
    intro s hs t ht hne
    rcases Nat.lt_or_gt_of_ne hne with hlt | hgt
    · exact hordered s t hs ht hlt
    · exact (hordered t s ht hs hgt).symm

end Sizes

section Filling

variable {abi : QueueAbi} {region size : Nat} {q q' : MappedQueue}

/-- A message of priority 0 is inserted at the front. -/
theorem queue_free_msg_zero (h : mq_hdr_t) :
    h.queue_free_msg 0 =
      ({ h with
          m_cur_first_msg :=
            (if h.m_cur_first_msg ≠ 0 then h.m_cur_first_msg else h.m_max_num_msg) - 1
          m_cur_num_msg := h.m_cur_num_msg + 1 },
        h.mp_index ((if h.m_cur_first_msg ≠ 0 then h.m_cur_first_msg else h.m_max_num_msg) - 1)) := by
  unfold queue_free_msg
  rw [if_neg (by omega)]
  exact if_pos rfl

/-- The position that a message of priority 0 gets. -/
def MappedQueue.front (q : MappedQueue) : Nat :=
  (if q.m_cur_first_msg ≠ 0 then q.m_cur_first_msg else q.m_max_num_msg) - 1

def MappedQueue.push_front (q : MappedQueue) (memory : Memory) : MappedQueue :=
  { q with m_cur_first_msg := q.front, m_cur_num_msg := q.m_cur_num_msg + 1, memory := memory }

theorem insert_msg_zero (abi : QueueAbi) (region size : Nat) (q : MappedQueue)
    (buffer : List UInt8) :
    insert_msg abi region size q buffer 0 =
      if Usable abi region size q.m_max_num_msg (q.mp_index q.front) buffer.length then
        some (q.push_front (write_msg abi q.memory (q.mp_index q.front) buffer 0))
      else none := by
  unfold insert_msg
  rw [queue_free_msg_zero]
  rfl

/-- Sending a message of priority 0 is defined only if the slot before the front can be
    used. -/
theorem step_send_zero {buffer : List UInt8} {output : Output}
    (hfits : buffer.length ≤ q.m_max_msg_size) (hroom : q.m_cur_num_msg ≠ q.m_max_num_msg)
    (hstep : step abi region size q (.send buffer 0) = some (q', output)) :
    Usable abi region size q.m_max_num_msg (q.mp_index q.front) buffer.length ∧
      ∃ memory, q' = q.push_front memory := by
  have hfull : (q.header abi).is_full = false := by
    rw [is_full, beq_eq_false_iff_ne]
    exact hroom
  simp only [step, do_send, if_neg (Nat.not_lt.mpr hfits), hfull, Bool.false_eq_true, if_false,
    insert_msg_zero] at hstep
  split_ifs at hstep with husable
  · cases hstep
    exact ⟨husable, _, rfl⟩
  · cases hstep

/-- Filling the queue with the longest messages uses all slots in full, the last one
    first. -/
theorem usable_of_sends {k : Nat} (hroom : q.m_cur_num_msg + k = q.m_max_num_msg)
    (hfirst : q.m_cur_first_msg = k ∨ q.m_cur_first_msg = 0 ∧ k = q.m_max_num_msg)
    (hrun : (run abi region size q
      (List.replicate k (.send (List.replicate q.m_max_msg_size 0) 0))).isSome = true) :
    ∀ i < k, Usable abi region size q.m_max_num_msg (q.mp_index i) q.m_max_msg_size := by
  induction k generalizing q with
  | zero =>
    intro i hi
    cases hi
  | succ k ih =>
    have hfront : q.front = k := by
      unfold MappedQueue.front
      split_ifs <;> omega
    obtain ⟨last, hlast⟩ := Option.isSome_iff_exists.mp hrun
    rw [List.replicate_succ, run] at hlast
    obtain ⟨⟨next, output⟩, hnext, hrest⟩ := Option.bind_eq_some_iff.mp hlast
    have hlength : (List.replicate q.m_max_msg_size (0 : UInt8)).length = q.m_max_msg_size :=
      List.length_replicate
    obtain ⟨husable, memory, rfl⟩ := step_send_zero hlength.le (by omega) hnext
    rw [hfront, hlength] at husable
    obtain ⟨rest, hrest, -⟩ := Option.map_eq_some_iff.mp hrest
    have hothers := ih (show q.m_cur_num_msg + 1 + k = q.m_max_num_msg by omega)
      (Or.inl hfront) (Option.isSome_iff_exists.mpr ⟨rest, hrest⟩)
    intro i hi
    rcases Nat.lt_succ_iff_lt_or_eq.mp hi with hlt | rfl
    · exact hothers i hlt
    · exact husable

end Filling

section Wrapping

variable {abi : QueueAbi} {region size max_num_msg max_msg_size : Nat}

/-- Behind an aligned address there is room for the rounded size as well. -/
theorem add_least_multiple_le {L a n w : Nat} (hL : 0 < L) (ha : L ∣ a) (hw : L ∣ w)
    (hle : a + n ≤ w) : a + least_multiple L n ≤ w := by
  have hleast := (isLeast_least_multiple (n := n) hL).2
    (show w - a ∈ MultiplesFrom L n from ⟨Nat.dvd_sub hw ha, by omega⟩)
  omega

/-- Slots that can all be used in full follow each other without a wrap: the first slot
    behind the end of the address space would be at the null pointer. -/
theorem usable_slots_follow {stride slot : Nat} (hregion : 0 < region)
    (hend : region + size ≤ 2 ^ 64) (hslot : abi.alignof_msg_hdr_t ∣ slot) (hlt : slot < 2 ^ 64)
    (hstride : stride = least_multiple abi.alignof_msg_hdr_t max_msg_size + abi.sizeof_msg_hdr_t)
    {n : Nat} (husable : ∀ i < n,
      Usable abi region size max_num_msg (slot_pointer stride slot i) max_msg_size) :
    slot + n * stride ≤ 2 ^ 64 := by
  have hpos := abi.msg_hdr_align_pos
  have hdvd : abi.alignof_msg_hdr_t ∣ stride :=
    hstride ▸ Nat.dvd_add (Nat.dvd_mul_left _ _) abi.msg_hdr_dvd
  induction n with
  | zero => omega
  | succ n ih =>
    have hbefore := ih fun i hi => husable i (by omega)
    obtain ⟨hlo, hhi⟩ := (husable n (Nat.lt_succ_self n)).1
    dsimp only at hlo hhi
    have hslots : slot_pointer stride slot n = slot + n * stride := by
      rw [slot_pointer_eq hlt] at hlo ⊢
      rcases Nat.eq_or_lt_of_le hbefore with hwraps | hless
      · rw [hwraps, Nat.mod_self] at hlo
        omega
      · exact Nat.mod_eq_of_lt hless
    rw [hslots] at hhi
    have hround := add_least_multiple_le (n := max_msg_size) hpos
      (Nat.dvd_add (Nat.dvd_add hslot (hdvd.trans (Nat.dvd_mul_left stride n))) abi.msg_hdr_dvd)
      abi.msg_hdr_dvd_word (by omega)
    rw [Nat.succ_mul]
    omega

/-- If the header and the index are mapped and every slot can be used in full, the size
    did not wrap. -/
theorem unreduced_size_lt_of_usable (hmax : 0 < max_num_msg) (hmsg : max_msg_size < 2 ^ 64)
    (haligned : abi.RequiredAlignment ∣ region) (hregion : 0 < region)
    (hend : region + size ≤ 2 ^ 64)
    (hindex : (index_range abi region max_num_msg).Inside region (region + size))
    (husable : ∀ i < max_num_msg, Usable abi region size max_num_msg
      (slot_pointer (r_max_msg_size abi.toAbi max_msg_size) (first_msg_hdr abi region max_num_msg) i)
      max_msg_size) :
    unreduced_size abi.toAbi max_msg_size max_num_msg < 2 ^ 64 := by
  have hpos := abi.msg_hdr_align_pos
  have hsizepos := abi.msg_hdr_pos
  have hheader : abi.alignof_msg_hdr_t ∣
      region + ManagedOpenOrCreateUserOffset abi.toAbi + abi.sizeof_mq_hdr_t :=
    abi.size_member.trans (Nat.dvd_add
      (abi.required.trans (Nat.dvd_add haligned (offset_dvd abi.toAbi))) abi.mq_hdr_dvd)
  have hindex' := hindex.2
  unfold index_range at hindex'
  rw [r_hdr_size_eq] at hindex'
  dsimp only at hindex'
  obtain ⟨I, hI⟩ : ∃ I, I = least_multiple abi.alignof_msg_hdr_t
      (max_num_msg * abi.sizeof_msg_hdr_ptr_t) := ⟨_, rfl⟩
  have hIfits := add_least_multiple_le hpos hheader abi.msg_hdr_dvd_word (hindex'.trans hend)
  rw [← hI] at hIfits
  obtain ⟨hfirst, hfirstroom⟩ := (husable 0 hmax).1
  dsimp only [slot_pointer] at hfirst hfirstroom
  have hfirst_eq : first_msg_hdr abi region max_num_msg =
      region + ManagedOpenOrCreateUserOffset abi.toAbi + abi.sizeof_mq_hdr_t + I := by
    have hless : I < 2 ^ 64 := by omega
    unfold first_msg_hdr at hfirst ⊢
    rw [r_hdr_size_eq, r_index_size_eq, ← hI, Nat.mod_eq_of_lt hless] at hfirst ⊢
    rcases Nat.eq_or_lt_of_le hIfits with hwraps | hless
    · rw [hwraps, Nat.mod_self] at hfirst
      omega
    · exact Nat.mod_eq_of_lt hless
  rw [hfirst_eq] at husable hfirstroom
  have hdvd : abi.alignof_msg_hdr_t ∣
      region + ManagedOpenOrCreateUserOffset abi.toAbi + abi.sizeof_mq_hdr_t + I :=
    Nat.dvd_add hheader (hI ▸ Nat.dvd_mul_left _ _)
  have hstride := add_least_multiple_le (n := max_msg_size) hpos
    (Nat.dvd_add hdvd abi.msg_hdr_dvd) abi.msg_hdr_dvd_word (by omega)
  have hless : least_multiple abi.alignof_msg_hdr_t max_msg_size + abi.sizeof_msg_hdr_t < 2 ^ 64 := by
    omega
  rw [r_max_msg_size_eq abi.toAbi hmsg, Nat.mod_eq_of_lt hless] at husable
  have hfollow := usable_slots_follow hregion hend hdvd (by omega) rfl husable
  rw [unreduced_size, r_hdr_size_eq, ← hI]
  omega

/-- In a region of the requested size a message queue is a stable priority queue if and
    only if that size did not wrap. -/
theorem refines_priority_queue_iff_not_wrapped (hmax : 0 < max_num_msg)
    (hmsg : max_msg_size < 2 ^ 64) (hsize : size = get_mem_size abi.toAbi max_msg_size max_num_msg)
    (haligned : abi.RequiredAlignment ∣ region) (hregion : 0 < region)
    (hend : region + size ≤ 2 ^ 64) :
    RefinesPriorityQueue abi region size max_num_msg max_msg_size ↔
      unreduced_size abi.toAbi max_msg_size max_num_msg < 2 ^ 64 := by
  constructor
  · rintro ⟨q, hcreate, hruns⟩
    unfold create at hcreate
    split_ifs at hcreate with hindex
    cases hcreate
    refine unreduced_size_lt_of_usable hmax hmsg haligned hregion hend hindex ?_
    obtain ⟨last, hrun, -⟩ := hruns
      (List.replicate max_num_msg (.send (List.replicate max_msg_size 0) 0))
      fun op hop => by
        rw [List.eq_of_mem_replicate hop]
        exact Nat.two_pow_pos 32
    exact usable_of_sends (Nat.zero_add _) (Or.inr ⟨rfl, rfl⟩)
      (Option.isSome_iff_exists.mpr ⟨_, hrun⟩)
  · intro hfits
    rw [get_mem_size_eq abi.toAbi hmsg, Nat.mod_eq_of_lt hfits] at hsize
    rw [hsize] at hend ⊢
    obtain ⟨q, hcreate, hplaced⟩ := placed_of_well_placed (well_placed haligned hmsg hfits hend)
    exact refines_of_placed hmax hmsg hcreate hplaced

/-- A queue of relative pointers on 64 bits, with a mutex and conditions that spin. -/
def spin_queue_abi : QueueAbi where
  toAbi := spin_abi
  msg_hdr_members := by decide

/-- The top of three messages in a queue of three, with a tie. -/
theorem refines_priority_queue_tie :
    ∃ q last, create spin_queue_abi 4096 200 3 4 = some q ∧
      run spin_queue_abi 4096 200 q [.send [1] 5, .send [2] 7, .send [3] 5, .receive 4, .receive 4] =
        some (last, [.sent true, .sent true, .sent true, .received (some ⟨7, [2]⟩),
          .received (some ⟨5, [1]⟩)]) := by
  have hrefines : RefinesPriorityQueue spin_queue_abi 4096 200 3 4 :=
    (refines_priority_queue_iff_not_wrapped (by decide) (by decide) (by decide) (by decide)
      (by decide) (by decide)).mpr (by decide)
  obtain ⟨q, hcreate, hruns⟩ := hrefines
  obtain ⟨last, hrun, -⟩ := hruns
    [.send [1] 5, .send [2] 7, .send [3] 5, .receive 4, .receive 4]
    (by simp [Op.Typed])
  exact ⟨q, last, hcreate, hrun⟩

/-- With 2 ^ 30 + 1 messages of 2 ^ 34 - 16 bytes the checks pass and the last slot lies
    where the first one is: the second message overwrites the first one. -/
theorem wrapped_queue_loses_a_message :
    size_checks spin_abi (get_mem_size spin_abi (2 ^ 34 - 16) (2 ^ 30 + 1))
        (get_min_size spin_abi (2 ^ 34 - 16) (2 ^ 30 + 1)) = true ∧
      ¬ RefinesPriorityQueue spin_queue_abi 4096 (get_mem_size spin_abi (2 ^ 34 - 16) (2 ^ 30 + 1))
        (2 ^ 30 + 1) (2 ^ 34 - 16) := by
  refine ⟨by decide, ?_⟩
  rintro ⟨q, hcreate, hruns⟩
  obtain ⟨last, hrun, -⟩ := hruns
    [.send [1] 0, .send [2] 1, .receive (2 ^ 34), .receive (2 ^ 34)] (by simp [Op.Typed])
  unfold create at hcreate
  split_ifs at hcreate
  cases hcreate
  rw [show slot_pointer (r_max_msg_size spin_queue_abi.toAbi (2 ^ 34 - 16))
      (first_msg_hdr spin_queue_abi 4096 (2 ^ 30 + 1)) = fun i => (8589938800 + i * 2 ^ 34) % 2 ^ 64 from
    funext fun i => slot_pointer_eq (by decide) i] at hrun
  have hout := congrArg (Option.map Prod.snd) hrun
  dsimp only [Option.map_some] at hout
  revert hout
  decide +kernel

end Wrapping

end interprocess.message_queue.mapped
