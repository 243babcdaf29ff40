import Interprocess.Ipc.MessageQueue.Mapped

open Circular
open interprocess.ipcdetail interprocess.ipcdetail.mq_hdr_t
open interprocess.message_queue.memory_layout

namespace interprocess.ipcdetail

theorem std_copy_map {α β : Type} (f : α → β) (a : Nat → α) (b e d : Nat) :
    std_copy (fun i => f (a i)) b e d = fun i => f (std_copy a b e d i) := by
  funext i
  exact (apply_ite f _ _ _).symm

theorem std_copy_backward_map {α β : Type} (f : α → β) (a : Nat → α) (b e dend : Nat) :
    std_copy_backward (fun i => f (a i)) b e dend = fun i => f (std_copy_backward a b e dend i) := by
  funext i
  exact (apply_ite f _ _ _).symm

theorem update_map {α β : Type} (f : α → β) (a : Nat → α) (i : Nat) (x : α) :
    Function.update (fun j => f (a j)) i (f x) = fun j => f (Function.update a i x j) :=
  (Function.comp_update f a i x).symm

theorem ite_map {α β : Type} (f : α → β) (c : Prop) [Decidable c] (a b : Nat → α) :
    (if c then fun i => f (a i) else fun i => f (b i)) = fun i => f ((if c then a else b) i) := by
  split_ifs <;> rfl

/-- A search looks at the positions of its range only. -/
theorem std_lower_bound_congr {precedes precedes' : Nat → Bool} {b n : Nat}
    (hsame : ∀ i, b ≤ i → i < b + n → precedes i = precedes' i) :
    std_lower_bound precedes b n = std_lower_bound precedes' b n := by
  induction n generalizing b with
  | zero => rfl
  | succ n ih =>
    rw [std_lower_bound, std_lower_bound, hsame b (Nat.le_refl b) (by omega),
      ih fun i hlo hhi => hsame i (by omega) (by omega)]

namespace mq_hdr_t

/-- The same header with other names for the slots. -/
def relabel (h : mq_hdr_t) (f : Nat → Nat) (slots : Nat → msg_hdr_t) : mq_hdr_t :=
  { h with mp_index := fun i => f (h.mp_index i), slots := slots }

variable {h : mq_hdr_t} {f : Nat → Nat} {slots : Nat → msg_hdr_t}

@[simp] theorem relabel_m_max_num_msg : (h.relabel f slots).m_max_num_msg = h.m_max_num_msg := rfl

@[simp] theorem relabel_m_cur_num_msg : (h.relabel f slots).m_cur_num_msg = h.m_cur_num_msg := rfl

@[simp] theorem relabel_m_cur_first_msg :
    (h.relabel f slots).m_cur_first_msg = h.m_cur_first_msg := rfl

@[simp] theorem relabel_mp_index (i : Nat) : (h.relabel f slots).mp_index i = f (h.mp_index i) := rfl

@[simp] theorem relabel_end_pos : (h.relabel f slots).end_pos = h.end_pos := rfl

/-- The index is rearranged in the same way, whatever it holds. -/
theorem insert_at_relabel (h : mq_hdr_t) (f : Nat → Nat) (slots : Nat → msg_hdr_t) (whr : Nat) :
    (h.relabel f slots).insert_at whr =
      ((h.insert_at whr).1.relabel f slots, f (h.insert_at whr).2) := by
  have hfront : ∀ p, (h.relabel f slots).insert_moving_front p =
      ((h.insert_moving_front p).1.relabel f slots, f (h.insert_moving_front p).2) := by
    intro p
    simp only [insert_moving_front, relabel, std_copy_map, update_map, ite_map]
    rfl
  have hback : ∀ p, (h.relabel f slots).insert_moving_back p =
      ((h.insert_moving_back p).1.relabel f slots, f (h.insert_moving_back p).2) := by
    intro p
    simp only [insert_moving_back, relabel_end_pos]
    simp only [relabel, std_copy_backward_map, update_map, ite_map]
    rfl
  simp only [insert_at, hfront, hback, relabel_end_pos, relabel_m_max_num_msg,
    relabel_m_cur_num_msg, relabel_m_cur_first_msg, relabel_mp_index]
  by_cases hbegin : whr = h.m_cur_first_msg
  · simp only [if_pos hbegin]
    rfl
  by_cases hlast : whr = h.end_pos
  · simp only [if_neg hbegin, if_pos hlast]
    rfl
  simp only [if_neg hbegin, if_neg hlast]
  by_cases hhalf : (if whr ≥ h.m_cur_first_msg then whr - h.m_cur_first_msg
      else whr + (h.m_max_num_msg - h.m_cur_first_msg)) < h.m_cur_num_msg / 2
  · simp only [if_pos hhalf]
    exact if_pos hhalf
  · simp only [if_neg hhalf]
    exact if_neg hhalf

theorem end_pos_lt (hfirst : h.m_cur_first_msg < h.m_max_num_msg)
    (hroom : h.m_cur_num_msg < h.m_max_num_msg) : h.end_pos < h.m_max_num_msg := by
  rw [end_pos_eq hfirst]
  exact pos_lt hfirst hroom

/-- Where a message is inserted depends on the priorities behind the index alone. -/
theorem queue_free_msg_relabel (hfirst : h.m_cur_first_msg < h.m_max_num_msg)
    (hroom : h.m_cur_num_msg < h.m_max_num_msg)
    (hsame : ∀ i < h.m_max_num_msg,
      (slots (f (h.mp_index i))).priority = (h.slots (h.mp_index i)).priority) (priority : Nat) :
    (h.relabel f slots).queue_free_msg priority =
      ((h.queue_free_msg priority).1.relabel f slots, f (h.queue_free_msg priority).2) := by
  have hend := end_pos_lt hfirst hroom
  have hbottom : (slots (h.relabel f slots).bottom_msg).priority = (h.slots h.bottom_msg).priority :=
    hsame _ hfirst
  have htop : (slots (h.relabel f slots).top_msg).priority = (h.slots h.top_msg).priority := by
    refine hsame _ ?_
    change (if h.end_pos ≠ 0 then h.end_pos - 1 else h.m_max_num_msg - 1) < h.m_max_num_msg
    split_ifs <;> omega
  have hprecedes : ∀ i < h.m_max_num_msg,
      (h.relabel f slots).precedes priority i = h.precedes priority i := by
    intro i hi
    have hi := hsame i hi
    unfold precedes relabel
    rw [hi]
  have hsearch : ∀ b n, b + n ≤ h.m_max_num_msg →
      std_lower_bound ((h.relabel f slots).precedes priority) b n =
        std_lower_bound (h.precedes priority) b n := fun b n hn =>
    std_lower_bound_congr fun i _ hi => hprecedes i (by omega)
  have hlower : (h.relabel f slots).lower_bound priority = h.lower_bound priority := by
    change (if h.end_pos < h.m_cur_first_msg then
      if h.m_max_num_msg = std_lower_bound ((h.relabel f slots).precedes priority) h.m_cur_first_msg
          (h.m_max_num_msg - h.m_cur_first_msg) then
        std_lower_bound ((h.relabel f slots).precedes priority) 0 h.end_pos
      else std_lower_bound ((h.relabel f slots).precedes priority) h.m_cur_first_msg
        (h.m_max_num_msg - h.m_cur_first_msg)
      else std_lower_bound ((h.relabel f slots).precedes priority) h.m_cur_first_msg
        (h.end_pos - h.m_cur_first_msg)) = _
    rw [hsearch _ _ (by omega), hsearch _ _ (by omega), hsearch _ _ (by omega)]
    rfl
  unfold queue_free_msg
  rw [insert_at_relabel, show (h.relabel f slots).slots = slots from rfl, hbottom, htop, hlower]
  rfl

end mq_hdr_t

end interprocess.ipcdetail

namespace interprocess.message_queue.mapped

section Slots

variable {abi : QueueAbi} {memory memory' : Memory} {slot : Nat}

theorem decode_eq_iff {m m' : msg_hdr_t} :
    decode m = decode m' ↔ m.priority = m'.priority ∧ read_data m = read_data m' :=
  Message.mk.injEq _ _ _ _ ▸ Iff.rfl

theorem length_read_data (m : msg_hdr_t) : (read_data m).length = m.len := by
  rw [read_data, List.length_map, List.length_range]

/-- A message is its header and as many bytes as that says. -/
theorem decode_congr
    (hsame : memory.SameOn memory' slot
      (slot + abi.sizeof_msg_hdr_t + (msg_hdr_at abi memory slot).len)) :
    decode (msg_hdr_at abi memory slot) = decode (msg_hdr_at abi memory' slot) := by
  have hmembers := abi.msg_hdr_members
  have hlen : memory.load slot 8 = memory'.load slot 8 :=
    Memory.load_congr (hsame.mono (Nat.le_refl _) (by omega))
  have hpriority : memory.load (slot + 8) 4 = memory'.load (slot + 8) 4 :=
    Memory.load_congr (hsame.mono (by omega) (by omega))
  refine decode_eq_iff.mpr ⟨hpriority, ?_⟩
  unfold read_data
  rw [show (msg_hdr_at abi memory' slot).len = (msg_hdr_at abi memory slot).len from hlen.symm]
  refine List.map_congr_left fun i hi => ?_
  rw [List.mem_range] at hi
  exact hsame _ (by omega) (by omega)

theorem write_msg_sameOn {lo hi : Nat} {buffer : List UInt8} (priority : Nat)
    (hapart : hi ≤ slot ∨ slot + abi.sizeof_msg_hdr_t + buffer.length ≤ lo) :
    (write_msg abi memory slot buffer priority).SameOn memory lo hi := by
  have hmembers := abi.msg_hdr_members
  exact (Memory.copy_sameOn _ (by omega)).trans
    ((Memory.store_sameOn _ _ (by omega)).trans (Memory.store_sameOn _ _ (by omega)))

theorem clean_msg_sameOn {lo hi : Nat} (hapart : hi ≤ slot ∨ slot + 12 ≤ lo) :
    (clean_msg memory slot).SameOn memory lo hi :=
  (Memory.store_sameOn _ _ (by omega)).trans (Memory.store_sameOn _ _ (by omega))

/-- A receiver finds what a sender wrote. -/
theorem decode_write_msg {buffer : List UInt8} {priority : Nat} (hlength : buffer.length < 2 ^ 64)
    (hpriority : priority < 2 ^ 32) :
    decode (msg_hdr_at abi (write_msg abi memory slot buffer priority) slot) =
      { priority, bytes := buffer } := by
  have hmembers := abi.msg_hdr_members
  have hlen : (msg_hdr_at abi (write_msg abi memory slot buffer priority) slot).len =
      buffer.length := by
    change Memory.load _ slot 8 = _
    rw [write_msg, Memory.load_congr (Memory.copy_sameOn _ (by omega)), Memory.load_store]
    exact Nat.mod_eq_of_lt hlength
  have hprio : (msg_hdr_at abi (write_msg abi memory slot buffer priority) slot).priority =
      priority := by
    change Memory.load _ (slot + 8) 4 = _
    rw [write_msg, Memory.load_congr (Memory.copy_sameOn _ (by omega)),
      Memory.load_store_of_disjoint _ _ (by omega), Memory.load_store]
    exact Nat.mod_eq_of_lt hpriority
  rw [decode, hprio, read_data, hlen]
  refine congrArg (Message.mk priority) (List.ext_getElem (by rw [List.length_map, List.length_range]) fun i hi hi' => ?_)
  rw [List.getElem_map, List.getElem_range]
  exact Memory.copy_inside _ _ hi'

theorem decode_clean_msg :
    decode (msg_hdr_at abi (clean_msg memory slot) slot) = { priority := 0, bytes := [] } := by
  have hlen : (msg_hdr_at abi (clean_msg memory slot) slot).len = 0 := by
    change Memory.load _ slot 8 = _
    rw [clean_msg, Memory.load_store_of_disjoint _ _ (by omega), Memory.load_store, Nat.zero_mod]
  have hprio : (msg_hdr_at abi (clean_msg memory slot) slot).priority = 0 := by
    change Memory.load _ (slot + 8) 4 = _
    rw [clean_msg, Memory.load_store, Nat.zero_mod]
  rw [decode, hprio, read_data, hlen]
  rfl

end Slots

/-- The slots of a queue lie at the addresses `f`: each can be used in full, and they do
    not overlap. -/
structure Placed (abi : QueueAbi) (region size max_num_msg max_msg_size : Nat) (f : Nat → Nat) :
    Prop where
  usable : ∀ s < max_num_msg, Usable abi region size max_num_msg (f s) max_msg_size
  apart : ∀ s < max_num_msg, ∀ t < max_num_msg, s ≠ t →
    Range.Apart ⟨f s, abi.sizeof_msg_hdr_t + max_msg_size⟩ ⟨f t, abi.sizeof_msg_hdr_t + max_msg_size⟩

/-- A mapped queue represents one whose slots have memories of their own: its index holds
    the addresses of the same slots, and it has the same messages in them. -/
structure Represents (abi : QueueAbi) (f : Nat → Nat) (q : MappedQueue) (h : mq_hdr_t) : Prop where
  header : q.header abi = h.relabel f (msg_hdr_at abi q.memory)
  stored : ∀ s < h.m_max_num_msg, decode (msg_hdr_at abi q.memory (f s)) = decode (h.slots s)
  bounded : ∀ s < h.m_max_num_msg, (h.slots s).len ≤ h.m_max_msg_size

section Simulation

variable {abi : QueueAbi} {region size : Nat} {f : Nat → Nat} {q : MappedQueue} {h : mq_hdr_t}

theorem Usable.mono {max_num_msg slot bytes bytes' : Nat}
    (husable : Usable abi region size max_num_msg slot bytes') (hle : bytes ≤ bytes') :
    Usable abi region size max_num_msg slot bytes := by
  obtain ⟨⟨hlo, hhi⟩, hheader, hindex⟩ := husable
  dsimp only at hlo hhi
  refine ⟨⟨hlo, ?_⟩, hheader.imp id ?_, hindex.imp id ?_⟩ <;> dsimp only <;> omega

/-- Storing into one slot leaves the messages of the others. -/
theorem Represents.store (hrep : Represents abi f q h)
    (hplaced : Placed abi region size h.m_max_num_msg h.m_max_msg_size f) (next : mq_hdr_t)
    (hmax : next.m_max_num_msg = h.m_max_num_msg) (hsize : next.m_max_msg_size = h.m_max_msg_size)
    {memory : Memory} {s : Nat} (bytes : Nat) (msg : msg_hdr_t) (hs : s < h.m_max_num_msg)
    (hslots : next.slots = Function.update h.slots s msg)
    (hmsg : decode (msg_hdr_at abi memory (f s)) = decode msg) (hlen : msg.len ≤ h.m_max_msg_size)
    (hbytes : bytes ≤ abi.sizeof_msg_hdr_t + h.m_max_msg_size)
    (hsame : ∀ lo hi, hi ≤ f s ∨ f s + bytes ≤ lo → memory.SameOn q.memory lo hi) :
    Represents abi f (.with_header (next.relabel f (msg_hdr_at abi q.memory)) memory) next := by
  refine ⟨rfl, ?_, ?_⟩
  · intro t ht
    rw [hmax] at ht
    change decode (msg_hdr_at abi memory (f t)) = _
    by_cases hts : t = s
    · rw [hts, hmsg, hslots, Function.update_self]
    · have hstored := hrep.stored t ht
      have hlength := hrep.bounded t ht
      have hlen' : (msg_hdr_at abi q.memory (f t)).len = (h.slots t).len := by
        have hread := (decode_eq_iff.mp hstored).2
        rw [← length_read_data, hread, length_read_data]
      have hapart := hplaced.apart t ht s hs hts
      unfold Range.Apart at hapart
      dsimp only at hapart
      rw [hslots, Function.update_of_ne hts, ← hstored]
      refine (decode_congr ?_).symm
      rw [hlen']
      exact (hsame _ _ (by omega)).symm
  · intro t ht
    rw [hmax] at ht
    rw [hsize, hslots]
    by_cases hts : t = s
    · rw [hts, Function.update_self]
      exact hlen
    · rw [Function.update_of_ne hts]
      exact hrep.bounded t ht

/-- The fields of the header are those of the represented queue. -/
theorem Represents.fields (hrep : Represents abi f q h) :
    q.m_max_num_msg = h.m_max_num_msg ∧ q.m_max_msg_size = h.m_max_msg_size ∧
      q.m_cur_num_msg = h.m_cur_num_msg :=
  ⟨congrArg mq_hdr_t.m_max_num_msg hrep.header, congrArg mq_hdr_t.m_max_msg_size hrep.header,
    congrArg mq_hdr_t.m_cur_num_msg hrep.header⟩

/-- The slots behind the index are those of the queue. -/
theorem index_lt (hindexed : h.Indexed) {i : Nat} (hi : i < h.m_max_num_msg) :
    h.mp_index i < h.m_max_num_msg := by
  obtain ⟨j, hj, rfl⟩ := exists_pos hindexed.first_lt hi
  exact hindexed.entry_lt j hj

/-- A sender inserts where the represented queue does. -/
theorem Represents.insert_msg (hrep : Represents abi f q h) (hvalid : Valid h)
    (hplaced : Placed abi region size h.m_max_num_msg h.m_max_msg_size f)
    (hsize : h.m_max_msg_size < 2 ^ 64) (hroom : h.m_cur_num_msg < h.m_max_num_msg)
    {buffer : List UInt8} {priority : Nat} (hfits : buffer.length ≤ h.m_max_msg_size)
    (htyped : priority < 2 ^ 32) :
    ∃ q', mapped.insert_msg abi region size q buffer priority = some q' ∧
      Represents abi f q' (message_queue.insert_msg h buffer priority) := by
  have hindexed := hvalid.indexed
  have hsame : ∀ i < h.m_max_num_msg, (msg_hdr_at abi q.memory (f (h.mp_index i))).priority =
      (h.slots (h.mp_index i)).priority := fun i hi =>
    (decode_eq_iff.mp (hrep.stored _ (index_lt hindexed hi))).1
  obtain ⟨k, hk, -, -, hins⟩ := hindexed.queue_free_msg priority hroom
  have hslot : (h.queue_free_msg priority).2 < h.m_max_num_msg := by
    obtain ⟨draw, hdraw, hlt, -⟩ := hins.draws
    rw [hins.slot, hdraw k (by omega)]
    exact hindexed.entry_lt _ (hlt k (by omega))
  have hplace := queue_free_msg_relabel hindexed.first_lt hroom hsame priority
  have husable := (hplaced.usable _ hslot).mono hfits
  have hnext : mapped.insert_msg abi region size q buffer priority =
      some (.with_header ((h.queue_free_msg priority).1.relabel f (msg_hdr_at abi q.memory))
        (write_msg abi q.memory (f (h.queue_free_msg priority).2) buffer priority)) := by
    unfold mapped.insert_msg
    rw [hrep.header, hplace, hrep.fields.1]
    exact if_pos husable
  refine ⟨_, hnext, hrep.store hplaced (message_queue.insert_msg h buffer priority)
    hins.max_num hins.max_size (abi.sizeof_msg_hdr_t + buffer.length) (written h buffer priority)
    hslot ?_ ?_ hfits (by omega) ?_⟩
  · rw [insert_msg_eq, mq_hdr_t.store, hins.slots]
  · rw [decode_write_msg (by omega) htyped, written, decode, read_data_memcpy]
  · intro lo hi hapart
    exact write_msg_sameOn _ (by omega)

/-- A receiver removes the message that the represented queue gives. -/
theorem Represents.remove_msg (hrep : Represents abi f q h) (hvalid : Valid h)
    (hplaced : Placed abi region size h.m_max_num_msg h.m_max_msg_size f)
    (hsome : 0 < h.m_cur_num_msg) :
    ∃ q', mapped.remove_msg abi region size q = some ((message_queue.remove_msg h).1, q') ∧
      Represents abi f q' (message_queue.remove_msg h).2 := by
  have hindexed := hvalid.indexed
  have htop : h.top_msg < h.m_max_num_msg := by
    rw [top_msg_eq hindexed.first_lt hsome hindexed.num_le]
    exact hindexed.entry_lt _ (by have := hindexed.num_le; omega)
  have htop' : (q.header abi).top_msg = f h.top_msg := by
    rw [hrep.header]
    rfl
  have hstored := hrep.stored _ htop
  obtain ⟨hpriority, hread⟩ := decode_eq_iff.mp hstored
  have hlen : (msg_hdr_at abi q.memory (f h.top_msg)).len = (h.slots h.top_msg).len := by
    rw [← length_read_data, hread, length_read_data]
  have hbounded := hrep.bounded _ htop
  have hdata : read_data { msg_hdr_at abi (clean_msg q.memory (f h.top_msg)) (f h.top_msg) with
      len := (msg_hdr_at abi q.memory (f h.top_msg)).len } = read_data (h.slots h.top_msg) := by
    have hmembers := abi.msg_hdr_members
    rw [← hread]
    refine List.map_congr_left fun i _ => ?_
    exact clean_msg_sameOn (Or.inr (Nat.le_refl _)) _ (by omega) (Nat.lt_succ_self _)
  have husable := (hplaced.usable _ htop).mono (hlen.trans_le hbounded)
  have hnext : mapped.remove_msg abi region size q = some ((message_queue.remove_msg h).1,
      .with_header ((message_queue.remove_msg h).2.relabel f (msg_hdr_at abi q.memory))
        (clean_msg q.memory (f h.top_msg))) := by
    unfold mapped.remove_msg
    rw [htop', hrep.fields.1]
    refine (if_pos husable).trans ?_
    rw [hdata, hpriority, hrep.header]
    rfl
  refine ⟨_, hnext, hrep.store hplaced (message_queue.remove_msg h).2 rfl rfl 12
    { h.slots h.top_msg with len := 0, priority := 0 } htop rfl ?_ (Nat.zero_le _) ?_ ?_⟩
  · rw [decode_clean_msg]
    rfl
  · have hmembers := abi.msg_hdr_members
    omega
  · intro lo hi hapart
    exact clean_msg_sameOn hapart

/-- A call reports what it reports on the represented queue. -/
theorem Represents.step (hrep : Represents abi f q h) (hvalid : Valid h)
    (hplaced : Placed abi region size h.m_max_num_msg h.m_max_msg_size f)
    (hsize : h.m_max_msg_size < 2 ^ 64) {op : Op} (htyped : op.Typed) :
    ∃ q', mapped.step abi region size q op = some (q', (message_queue.step h op).2) ∧
      Represents abi f q' (message_queue.step h op).1 := by
  have hnum := hvalid.indexed.num_le
  obtain ⟨hmax, hmaxsize, hcur⟩ := hrep.fields
  cases op with
  | send buffer priority =>
    simp only [mapped.step, mapped.do_send, message_queue.step, message_queue.do_send, hmaxsize]
    by_cases hlong : buffer.length > h.m_max_msg_size
    · simp only [if_pos hlong]
      exact ⟨q, rfl, hrep⟩
    · simp only [if_neg hlong]
      have hfull : (q.header abi).is_full = h.is_full := by
        rw [hrep.header]
        rfl
      rw [hfull]
      cases hroom : h.is_full with
      | true => exact ⟨q, rfl, hrep⟩
      | false =>
        have hne : h.m_cur_num_msg ≠ h.m_max_num_msg := by simpa [is_full] using hroom
        obtain ⟨q', hnext, hrep'⟩ := hrep.insert_msg hvalid hplaced hsize (by omega)
          (Nat.not_lt.mp hlong) htyped
        rw [hnext]
        exact ⟨q', rfl, hrep'⟩
  | receive buffer_size =>
    simp only [mapped.step, mapped.do_receive, message_queue.step, message_queue.do_receive, hmaxsize]
    by_cases hshort : buffer_size < h.m_max_msg_size
    · simp only [if_pos hshort]
      exact ⟨q, rfl, hrep⟩
    · simp only [if_neg hshort]
      have hempty : (q.header abi).is_empty = h.is_empty := by
        rw [hrep.header]
        rfl
      rw [hempty]
      cases hsome : h.is_empty with
      | true => exact ⟨q, rfl, hrep⟩
      | false =>
        have hne : h.m_cur_num_msg ≠ 0 := by simpa [is_empty] using hsome
        obtain ⟨q', hnext, hrep'⟩ := hrep.remove_msg hvalid hplaced (by omega)
        rw [hnext]
        exact ⟨q', rfl, hrep'⟩

/-- The abstract queue has the messages that a receiver would find. -/
theorem Represents.window_eq (hrep : Represents abi f q h) (hvalid : Valid h) :
    window (q.header abi) = window h := by
  have hnum := hvalid.indexed.num_le
  rw [hrep.header]
  refine List.map_congr_left fun i hi => ?_
  have hi' : i < h.m_max_num_msg := by
    have := List.mem_range.mp hi
    rw [relabel_m_cur_num_msg] at this
    omega
  exact hrep.stored _ (hvalid.indexed.entry_lt i hi')

theorem spec_step_bounds (sp : spec.PriorityQueue) (op : Op) :
    (spec.step sp op).1.capacity = sp.capacity ∧ (spec.step sp op).1.max_size = sp.max_size := by
  cases op with
  | send buffer priority =>
    simp only [spec.step]
    split_ifs <;> exact ⟨rfl, rfl⟩
  | receive buffer_size =>
    simp only [spec.step]
    split_ifs
    · exact ⟨rfl, rfl⟩
    · split <;> exact ⟨rfl, rfl⟩

/-- A sequence of calls reports what the abstract queue reports. -/
theorem Represents.run {sp : spec.PriorityQueue} (hrep : Represents abi f q h) (href : Refines h sp)
    (hplaced : Placed abi region size sp.capacity sp.max_size f) (hsize : sp.max_size < 2 ^ 64)
    {ops : List Op} (htyped : ∀ op ∈ ops, op.Typed) :
    ∃ last h', mapped.run abi region size q ops = some (last, (spec.run sp ops).2) ∧
      Represents abi f last h' ∧ Refines h' (spec.run sp ops).1 := by
  induction ops generalizing q h sp with
  | nil => exact ⟨q, h, rfl, hrep, href⟩
  | cons op ops ih =>
    obtain ⟨hcapacity, hmax⟩ := spec_step_bounds sp op
    have hplaced' := hplaced
    rw [href.capacity, href.max_size] at hplaced'
    obtain ⟨q', hnext, hrep'⟩ := hrep.step href.valid hplaced' (href.max_size ▸ hsize)
      (htyped op List.mem_cons_self)
    obtain ⟨hout, href'⟩ := href.step op
    rw [← hcapacity, ← hmax] at hplaced
    obtain ⟨last, h', hlast, hreplast, hreflast⟩ := ih hrep' href' hplaced (hmax ▸ hsize)
      fun op' hop => htyped op' (List.mem_cons_of_mem _ hop)
    refine ⟨last, h', ?_, hreplast, hreflast⟩
    rw [mapped.run, hnext, Option.bind_some, hlast, hout]
    rfl

/-- A new queue whose slots are placed well is a priority queue from then on. -/
theorem refines_of_placed {max_num_msg max_msg_size : Nat} (hmax : 0 < max_num_msg)
    (hsize : max_msg_size < 2 ^ 64) (hcreate : create abi region size max_num_msg max_msg_size = some q)
    (hplaced : Placed abi region size max_num_msg max_msg_size q.mp_index) :
    RefinesPriorityQueue abi region size max_num_msg max_msg_size := by
  refine ⟨q, hcreate, fun ops htyped => ?_⟩
  have hrep : Represents abi q.mp_index q (message_queue.create max_num_msg max_msg_size) := by
    unfold mapped.create at hcreate
    split_ifs at hcreate
    cases hcreate
    refine ⟨rfl, fun s _ => ?_, fun s _ => Nat.zero_le _⟩
    refine decode_eq_iff.mpr ⟨Memory.load_zeros _ _, ?_⟩
    unfold read_data
    rw [show (msg_hdr_at abi Memory.zeros _).len = 0 from Memory.load_zeros _ _]
    rfl
  obtain ⟨last, h', hrun, hlast, href⟩ :=
    hrep.run (create_refines max_msg_size hmax) hplaced hsize htyped
  have hord : Ordered (spec.empty max_num_msg max_msg_size) :=
    ⟨List.Pairwise.nil, fun _ he => absurd he List.not_mem_nil⟩
  refine ⟨last, hrun, hlast.fields.2.2.trans href.length_eq.symm, (hord.run ops).sorted, ?_⟩
  rw [hlast.window_eq href.valid]
  exact href.messages

end Simulation

end interprocess.message_queue.mapped
