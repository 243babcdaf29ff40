import Interprocess.Ipc.MessageQueue.Queue
import Interprocess.Ipc.MessageQueue.Circulation

open Circular
open interprocess.ipcdetail interprocess.ipcdetail.mq_hdr_t

namespace interprocess.message_queue

theorem read_data_memcpy (data : Nat → UInt8) (buffer : List UInt8) (priority : Nat) :
    read_data { len := buffer.length, priority := priority, data := memcpy data buffer } = buffer := by
  apply List.ext_getElem
  · simp [read_data]
  · intro i _ hi
    simp [read_data, memcpy, hi]

/-- The message in a slot as a receiver would see it. -/
def decode (m : msg_hdr_t) : Message :=
  { priority := m.priority, bytes := read_data m }

/-- The inserted messages in index order, lowest priority first. -/
def window (h : mq_hdr_t) : List Message :=
  (List.range h.m_cur_num_msg).map fun i => decode (h.slots (h.entry i))

theorem window_eq (h : mq_hdr_t) : window h = h.inserted.map decode := by
  simp [window, inserted]

theorem length_window (h : mq_hdr_t) : (window h).length = h.m_cur_num_msg := by
  simp [window]

theorem getElem_window {h : mq_hdr_t} {i : Nat} (hi : i < (window h).length) :
    (window h)[i] = decode (h.slots (h.entry i)) := by
  simp [window]

/-- The invariant of the queue: the index is intact, and the free slots were
    cleaned. -/
structure Valid (h : mq_hdr_t) : Prop where
  indexed : h.Indexed
  cleaned : ∀ i, h.m_cur_num_msg ≤ i → i < h.m_max_num_msg →
    (h.slots (h.entry i)).len = 0 ∧ (h.slots (h.entry i)).priority = 0

/-- The message a sender writes into the slot it got. -/
def written (h : mq_hdr_t) (buffer : List UInt8) (priority : Nat) : msg_hdr_t :=
  let r := h.queue_free_msg priority
  { priority := priority, len := buffer.length, data := memcpy (r.1.slots r.2).data buffer }

theorem insert_msg_eq (h : mq_hdr_t) (buffer : List UInt8) (priority : Nat) :
    insert_msg h buffer priority = store (h.queue_free_msg priority) (written h buffer priority) :=
  rfl

theorem window_insert_msg {h : mq_hdr_t} (hindexed : h.Indexed) {buffer : List UInt8}
    {priority k : Nat} (hroom : h.m_cur_num_msg < h.m_max_num_msg) (hk : k ≤ h.m_cur_num_msg)
    (hins : Inserted h k (h.queue_free_msg priority)) :
    window (insert_msg h buffer priority) =
      (window h).take k ++ { priority, bytes := buffer } :: (window h).drop k := by
  have hmsg : decode (written h buffer priority) = { priority, bytes := buffer } := by
    rw [written, decode, read_data_memcpy]
  rw [insert_msg_eq, window_eq, hins.inserted_store hindexed hroom hk, List.map_append,
    List.map_cons, hmsg, List.map_take, List.map_drop, window_eq]

theorem entryPriority_eq (h : mq_hdr_t) (i : Nat) :
    h.entryPriority i = (decode (h.slots (h.entry i))).priority := rfl

/-- Sending keeps the circular index valid. -/
theorem insert_msg_valid {h : mq_hdr_t} (hvalid : Valid h) {buffer : List UInt8} {priority k : Nat}
    (hroom : h.m_cur_num_msg < h.m_max_num_msg) (hk : k ≤ h.m_cur_num_msg)
    (hlow : ∀ i < k, h.entryPriority i < priority)
    (hhigh : ∀ i, k ≤ i → i < h.m_cur_num_msg → priority ≤ h.entryPriority i)
    (hins : Inserted h k (h.queue_free_msg priority)) :
    Valid (insert_msg h buffer priority) := by
  rw [insert_msg_eq]
  refine ⟨hins.indexed_store hvalid.indexed hroom hk (fun i hi => (hlow i hi).le) hhigh, ?_⟩
  intro i hi hiMax
  have hnum : (store (h.queue_free_msg priority) (written h buffer priority)).m_cur_num_msg =
      h.m_cur_num_msg + 1 := hins.num
  have hmax : (store (h.queue_free_msg priority) (written h buffer priority)).m_max_num_msg =
      h.m_max_num_msg := hins.max_num
  rw [hnum] at hi
  rw [hmax] at hiMax
  obtain ⟨d, hdnum, hdmax, hd⟩ := hins.free (by omega) hiMax
  rw [(hins.store_slots hvalid.indexed hroom hk _).2 i hiMax (by omega), hd]
  exact hvalid.cleaned d hdnum hdmax

/-- Receiving takes the last message of the window and cleans its slot. -/
theorem remove_msg_spec {h : mq_hdr_t} (hvalid : Valid h) (hsome : 0 < h.m_cur_num_msg) :
    Valid (remove_msg h).2 ∧ (remove_msg h).2.m_max_num_msg = h.m_max_num_msg ∧
      (remove_msg h).2.m_max_msg_size = h.m_max_msg_size ∧
      window h = window (remove_msg h).2 ++ [(remove_msg h).1] := by
  have hindexed := hvalid.indexed
  have htop := top_msg_eq hindexed.first_lt hsome hindexed.num_le
  have hrecvd : (remove_msg h).1 = decode (h.slots h.top_msg) := rfl
  have hnext : (remove_msg h).2 =
      release h { h.slots h.top_msg with len := 0, priority := 0 } := rfl
  rw [hnext, hrecvd, window_eq, window_eq, hindexed.inserted_release hsome _, List.map_append,
    List.map_singleton]
  refine ⟨⟨hindexed.release hsome _, ?_⟩, rfl, rfl, rfl⟩
  intro i hi hiMax
  change h.m_cur_num_msg - 1 ≤ i at hi
  change i < h.m_max_num_msg at hiMax
  have hentry : (release h { h.slots h.top_msg with len := 0, priority := 0 }).entry = h.entry := rfl
  rw [hentry]
  by_cases hlast : i = h.m_cur_num_msg - 1
  · rw [hlast, ← htop]
    simp [mq_hdr_t.release, free_top_msg]
  · rw [hindexed.release_slots hsome _ hiMax hlast]
    exact hvalid.cleaned i (by omega) hiMax

theorem create_valid {max_num_msg : Nat} (max_msg_size : Nat) (hmax : 0 < max_num_msg) :
    Valid (create max_num_msg max_msg_size) :=
  ⟨construct_indexed max_msg_size hmax _, fun _ _ _ => ⟨rfl, rfl⟩⟩

/-- The circular implementation represents the abstract queue when its window,
    read from the back, holds the abstract entries in order. -/
structure Refines (h : mq_hdr_t) (q : spec.PriorityQueue) : Prop where
  valid : Valid h
  capacity : q.capacity = h.m_max_num_msg
  max_size : q.max_size = h.m_max_msg_size
  messages : q.entries.map spec.Entry.msg = (window h).reverse
  numbered : ∀ e ∈ q.entries, e.seq < q.sent

theorem Refines.length_eq {h : mq_hdr_t} {q : spec.PriorityQueue} (href : Refines h q) :
    q.entries.length = h.m_cur_num_msg := by
  have := congrArg List.length href.messages
  simpa [length_window] using this

/-- An ordered insertion goes to the place that separates the entries it must
    follow from those it must precede. -/
theorem orderedInsert_append {α : Type} (r : α → α → Prop) [DecidableRel r] (a : α) (l₁ l₂ : List α)
    (h₁ : ∀ b ∈ l₁, ¬ r a b) (h₂ : ∀ b ∈ l₂, r a b) :
    (l₁ ++ l₂).orderedInsert r a = l₁ ++ a :: l₂ := by
  induction l₁ with
  | nil =>
    cases l₂ with
    | nil => rfl
    | cons b l₂ => simp [h₂ b]
  | cons b l₁ ih =>
    have hb : ¬ r a b := h₁ b (by simp)
    simp only [List.cons_append, List.orderedInsert, if_neg hb]
    rw [ih fun c hc => h₁ c (by simp [hc])]

theorem Refines.send {h : mq_hdr_t} {q : spec.PriorityQueue} (href : Refines h q)
    (hroom : h.m_cur_num_msg < h.m_max_num_msg) (buffer : List UInt8) (priority : Nat) :
    Refines (insert_msg h buffer priority) (spec.enqueue q { priority, bytes := buffer }) := by
  obtain ⟨k, hk, hlow, hhigh, hins⟩ := href.valid.indexed.queue_free_msg priority hroom
  have hlen := length_window h
  have hqlen := href.length_eq
  have hsplit : q.entries = q.entries.take (h.m_cur_num_msg - k) ++ q.entries.drop (h.m_cur_num_msg - k) :=
    (List.take_append_drop _ _).symm
  have hlate : (q.entries.take (h.m_cur_num_msg - k)).map spec.Entry.msg = ((window h).drop k).reverse := by
    rw [List.map_take, href.messages, List.take_reverse, hlen]
    congr 2
    omega
  have hsoon : (q.entries.drop (h.m_cur_num_msg - k)).map spec.Entry.msg = ((window h).take k).reverse := by
    rw [List.map_drop, href.messages, List.drop_reverse, hlen]
    congr 2
    omega
  have hinsert : (spec.enqueue q { priority, bytes := buffer }).entries =
      q.entries.take (h.m_cur_num_msg - k) ++
        { seq := q.sent, msg := { priority, bytes := buffer } } ::
          q.entries.drop (h.m_cur_num_msg - k) := by
    simp only [spec.enqueue]
    rw [hsplit]
    rw [orderedInsert_append]
    · simp only [List.take_append_drop]
    · intro e he
      have hseq := href.numbered e (List.mem_of_mem_take he)
      have hmem : e.msg ∈ ((window h).drop k).reverse := hlate ▸ List.mem_map_of_mem he
      rw [List.mem_reverse, List.mem_iff_getElem] at hmem
      obtain ⟨i, hi, hget⟩ := hmem
      rw [List.length_drop] at hi
      rw [List.getElem_drop, getElem_window] at hget
      have hprio := hhigh (k + i) (by omega) (by omega)
      rw [entryPriority_eq, hget] at hprio
      simp only [spec.Before]
      omega
    · intro e he
      have hmem : e.msg ∈ ((window h).take k).reverse := hsoon ▸ List.mem_map_of_mem he
      rw [List.mem_reverse, List.mem_iff_getElem] at hmem
      obtain ⟨i, hi, hget⟩ := hmem
      rw [List.length_take] at hi
      rw [List.getElem_take, getElem_window] at hget
      have hprio := hlow i (by omega)
      rw [entryPriority_eq, hget] at hprio
      exact Or.inl hprio
  refine ⟨insert_msg_valid href.valid hroom hk hlow hhigh hins, ?_, ?_, ?_, ?_⟩
  · exact href.capacity.trans hins.max_num.symm
  · exact href.max_size.trans hins.max_size.symm
  · rw [hinsert, window_insert_msg href.valid.indexed hroom hk hins]
    simp [hlate, hsoon]
  · intro e he
    rw [hinsert, List.mem_append, List.mem_cons] at he
    change e.seq < q.sent + 1
    rcases he with he | rfl | he
    · exact Nat.lt_succ_of_lt (href.numbered e (List.mem_of_mem_take he))
    · exact Nat.lt_succ_self _
    · exact Nat.lt_succ_of_lt (href.numbered e (List.mem_of_mem_drop he))

theorem Refines.receive {h : mq_hdr_t} {q : spec.PriorityQueue} (href : Refines h q)
    {e : spec.Entry} {rest : List spec.Entry} (hentries : q.entries = e :: rest) :
    (remove_msg h).1 = e.msg ∧ Refines (remove_msg h).2 { q with entries := rest } := by
  have hlen := href.length_eq
  rw [hentries, List.length_cons] at hlen
  obtain ⟨hvalid, hmax, hsize, hwindow⟩ := remove_msg_spec href.valid (by omega)
  have hmsgs := href.messages
  rw [hentries, hwindow, List.map_cons, List.reverse_append, List.reverse_singleton,
    List.singleton_append] at hmsgs
  obtain ⟨hhead, htail⟩ := List.cons.inj hmsgs
  refine ⟨hhead.symm, hvalid, href.capacity.trans hmax.symm, href.max_size.trans hsize.symm, htail, ?_⟩
  intro e' he'
  exact href.numbered e' (by rw [hentries]; exact List.mem_cons_of_mem _ he')

/-- One call reports the same and keeps the representation. -/
theorem Refines.step {h : mq_hdr_t} {q : spec.PriorityQueue} (href : Refines h q) (op : Op) :
    (step h op).2 = (spec.step q op).2 ∧ Refines (step h op).1 (spec.step q op).1 := by
  have hlen := href.length_eq
  cases op with
  | send buffer priority =>
    simp only [message_queue.step, spec.step, do_send, ← href.max_size, is_full, beq_iff_eq, ← hlen,
      ← href.capacity]
    by_cases hsize : buffer.length > q.max_size
    · simp only [if_pos hsize]
      exact ⟨trivial, href⟩
    · simp only [if_neg hsize]
      by_cases hfull : q.entries.length = q.capacity
      · simp only [if_pos hfull]
        exact ⟨trivial, href⟩
      · simp only [if_neg hfull]
        have hle := href.valid.indexed.num_le
        have hcap := href.capacity
        exact ⟨trivial, href.send (by omega) buffer priority⟩
  | receive buffer_size =>
    simp only [message_queue.step, spec.step, do_receive, ← href.max_size, is_empty, beq_iff_eq]
    by_cases hsize : buffer_size < q.max_size
    · simp only [if_pos hsize]
      exact ⟨trivial, href⟩
    · simp only [if_neg hsize]
      cases hentries : q.entries with
      | nil =>
        rw [hentries, List.length_nil] at hlen
        simp only [if_pos hlen.symm]
        exact ⟨trivial, href⟩
      | cons e rest =>
        rw [hentries, List.length_cons] at hlen
        have hnum : h.m_cur_num_msg ≠ 0 := by omega
        simp only [if_neg hnum]
        obtain ⟨hmsg, hnext⟩ := href.receive hentries
        exact ⟨by rw [hmsg], hnext⟩

theorem create_refines {max_num_msg : Nat} (max_msg_size : Nat) (hmax : 0 < max_num_msg) :
    Refines (create max_num_msg max_msg_size) (spec.empty max_num_msg max_msg_size) :=
  ⟨create_valid max_msg_size hmax, rfl, rfl, rfl, fun _ he => absurd he List.not_mem_nil⟩

/-- Inserting an element comparable with every entry keeps a list ordered. -/
theorem pairwise_orderedInsert {α : Type} {r : α → α → Prop} [DecidableRel r]
    (htrans : ∀ a b c, r a b → r b c → r a c) {a : α} {l : List α} (hl : l.Pairwise r)
    (htotal : ∀ b ∈ l, ¬ r a b → r b a) : (l.orderedInsert r a).Pairwise r := by
  induction l with
  | nil => exact List.pairwise_singleton r a
  | cons b l ih =>
    obtain ⟨hb, htail⟩ := List.pairwise_cons.mp hl
    by_cases hab : r a b
    · rw [List.orderedInsert_cons_of_le r l hab]
      refine List.pairwise_cons.mpr ⟨?_, hl⟩
      intro c hc
      rcases List.mem_cons.mp hc with rfl | hc
      · exact hab
      · exact htrans a b c hab (hb c hc)
    · rw [List.orderedInsert_of_not_le r l hab]
      refine List.pairwise_cons.mpr ⟨?_, ih htail fun c hc => htotal c (List.mem_cons_of_mem b hc)⟩
      intro c hc
      rcases (List.mem_orderedInsert r).mp hc with rfl | hc
      · exact htotal b List.mem_cons_self hab
      · exact hb c hc

/-- The abstract queue stays ordered by decreasing priority and, among equal
    priorities, by order of sending. -/
structure Ordered (q : spec.PriorityQueue) : Prop where
  sorted : q.entries.Pairwise spec.Before
  numbered : ∀ e ∈ q.entries, e.seq < q.sent

theorem Ordered.step {q : spec.PriorityQueue} (hord : Ordered q) (op : Op) :
    Ordered (spec.step q op).1 := by
  cases op with
  | send buffer priority =>
    simp only [spec.step]
    split_ifs
    · exact hord
    · exact hord
    · refine ⟨?_, ?_⟩
      · refine pairwise_orderedInsert ?_ hord.sorted ?_
        · intro a b c hab hbc
          simp only [spec.Before] at *
          omega
        · intro e he hnot
          have hseq := hord.numbered e he
          simp only [spec.Before] at *
          omega
      · intro e he
        change e.seq < q.sent + 1
        rcases (List.mem_orderedInsert spec.Before).mp he with rfl | he
        · exact Nat.lt_succ_self _
        · exact Nat.lt_succ_of_lt (hord.numbered e he)
  | receive buffer_size =>
    simp only [spec.step]
    split_ifs
    · exact hord
    · cases hentries : q.entries with
      | nil => exact hord
      | cons e rest =>
        have hsorted := hord.sorted
        rw [hentries] at hsorted
        refine ⟨hsorted.tail, ?_⟩
        intro e' he'
        exact hord.numbered e' (by rw [hentries]; exact List.mem_cons_of_mem e he')

theorem Ordered.run {q : spec.PriorityQueue} (hord : Ordered q) (ops : List Op) :
    Ordered (spec.run q ops).1 := by
  induction ops generalizing q with
  | nil => exact hord
  | cons op ops ih => exact ih (hord.step op)

end interprocess.message_queue
