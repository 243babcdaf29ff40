import Mathlib.Logic.Function.Basic
import Mathlib.Data.List.Range

namespace interprocess.ipcdetail

/-- `std::copy(&a[b], &a[e], &a[d])`, with `d ≤ b`. -/
def std_copy {α : Type} (a : Nat → α) (b e d : Nat) : Nat → α :=
  fun i => if d ≤ i ∧ i < d + (e - b) then a (b + (i - d)) else a i

/-- `std::copy_backward(&a[b], &a[e], &a[dend])`, with `e ≤ dend`. -/
def std_copy_backward {α : Type} (a : Nat → α) (b e dend : Nat) : Nat → α :=
  fun i => if dend - (e - b) ≤ i ∧ i < dend then a (e - (dend - i)) else a i

/-- `std::lower_bound` on `[b, b + n)`: the first position whose element does not
    precede the searched value. -/
def std_lower_bound (precedes : Nat → Bool) : (b n : Nat) → Nat
  | b, 0 => b
  | b, n + 1 => if precedes b then std_lower_bound precedes (b + 1) n else b

/-- A preallocated message: its header and its buffer. -/
structure msg_hdr_t where
  len : Nat
  priority : Nat
  data : Nat → UInt8

/-- The queue header together with the index of slot pointers and the slots it
    points to. A slot pointer is what names the slot, its number or its address. -/
structure mq_hdr_t where
  m_max_num_msg : Nat
  m_max_msg_size : Nat
  m_cur_num_msg : Nat
  m_cur_first_msg : Nat
  mp_index : Nat → Nat
  slots : Nat → msg_hdr_t

namespace mq_hdr_t

/-- The constructor on the given slots: `initialize_memory` lets the i-th index entry
    point to the i-th slot. Where that is in memory is `memory_layout.initialize_memory`. -/
def construct (max_num_msg max_msg_size : Nat) (memory : Nat → msg_hdr_t) : mq_hdr_t where
  m_max_num_msg := max_num_msg
  m_max_msg_size := max_msg_size
  m_cur_num_msg := 0
  m_cur_first_msg := 0
  mp_index := id
  slots := memory

def is_full (h : mq_hdr_t) : Bool :=
  h.m_cur_num_msg == h.m_max_num_msg

def is_empty (h : mq_hdr_t) : Bool :=
  h.m_cur_num_msg == 0

def free_top_msg (h : mq_hdr_t) : mq_hdr_t :=
  { h with m_cur_num_msg := h.m_cur_num_msg - 1 }

def end_pos (h : mq_hdr_t) : Nat :=
  let space_until_bufend := h.m_max_num_msg - h.m_cur_first_msg
  if space_until_bufend > h.m_cur_num_msg then h.m_cur_first_msg + h.m_cur_num_msg
  else h.m_cur_num_msg - space_until_bufend

/-- The slot of the inserted message with top priority. -/
def top_msg (h : mq_hdr_t) : Nat :=
  let pos := h.end_pos
  h.mp_index (if pos ≠ 0 then pos - 1 else h.m_max_num_msg - 1)

/-- The slot of the inserted message with bottom priority. -/
def bottom_msg (h : mq_hdr_t) : Nat :=
  h.mp_index h.m_cur_first_msg

/-- `priority_functor` applied to the message at an index position and the
    dummy header of the searched priority. -/
def precedes (h : mq_hdr_t) (priority pos : Nat) : Bool :=
  (h.slots (h.mp_index pos)).priority < priority

def lower_bound (h : mq_hdr_t) (priority : Nat) : Nat :=
  let begin_ := h.m_cur_first_msg
  let end_ := h.end_pos
  if end_ < begin_ then
    let idx_end := h.m_max_num_msg
    let ret := std_lower_bound (h.precedes priority) begin_ (idx_end - begin_)
    if idx_end = ret then std_lower_bound (h.precedes priority) 0 end_ else ret
  else std_lower_bound (h.precedes priority) begin_ (end_ - begin_)

/-- The middle insertion that shifts the messages before `pos` one position to
    the front. -/
def insert_moving_front (h : mq_hdr_t) (pos : Nat) : mq_hdr_t × Nat :=
  let whr := if pos = 0 then h.m_max_num_msg - 1 else pos - 1
  let pos := if pos = 0 then h.m_max_num_msg else pos
  let unique_segment := h.m_cur_first_msg ≠ 0 ∧ h.m_cur_first_msg ≤ pos
  let first_segment_beg := if unique_segment then h.m_cur_first_msg else 1
  let first_segment_end := pos
  let second_segment_beg :=
    if unique_segment ∨ h.m_cur_first_msg = 0 then h.m_max_num_msg else h.m_cur_first_msg
  let second_segment_end := h.m_max_num_msg
  let backup := h.mp_index ((if unique_segment then first_segment_beg else second_segment_beg) - 1)
  let index :=
    if unique_segment then h.mp_index
    else
      let index := std_copy h.mp_index second_segment_beg second_segment_end (second_segment_beg - 1)
      Function.update index (h.m_max_num_msg - 1) (index 0)
  let index := std_copy index first_segment_beg first_segment_end (first_segment_beg - 1)
  let index := Function.update index whr backup
  ({ h with
      mp_index := index
      m_cur_first_msg := (if h.m_cur_first_msg ≠ 0 then h.m_cur_first_msg else h.m_max_num_msg) - 1
      m_cur_num_msg := h.m_cur_num_msg + 1 }, index whr)

/-- The middle insertion that shifts the messages from `pos` on one position to
    the back. -/
def insert_moving_back (h : mq_hdr_t) (pos : Nat) : mq_hdr_t × Nat :=
  let pos_end := h.end_pos
  let unique_segment := pos < pos_end
  let first_segment_beg := pos
  let first_segment_end := if unique_segment then pos_end else h.m_max_num_msg - 1
  let second_segment_beg := 0
  let second_segment_end := if unique_segment then 0 else pos_end
  let backup := h.mp_index h.end_pos
  let index :=
    if unique_segment then h.mp_index
    else
      let index := std_copy_backward h.mp_index second_segment_beg second_segment_end
        (second_segment_end + 1)
      Function.update index 0 (index (h.m_max_num_msg - 1))
  let index := std_copy_backward index first_segment_beg first_segment_end (first_segment_end + 1)
  let index := Function.update index pos backup
  ({ h with mp_index := index, m_cur_num_msg := h.m_cur_num_msg + 1 }, index pos)

/-- Makes room at an index position and returns the slot of the inserted
    message. -/
def insert_at (h : mq_hdr_t) (whr : Nat) : mq_hdr_t × Nat :=
  let it_inserted_ptr_end := h.end_pos
  let it_inserted_ptr_beg := h.m_cur_first_msg
  if whr = it_inserted_ptr_beg then
    let first := (if h.m_cur_first_msg ≠ 0 then h.m_cur_first_msg else h.m_max_num_msg) - 1
    ({ h with m_cur_first_msg := first, m_cur_num_msg := h.m_cur_num_msg + 1 }, h.mp_index first)
  else if whr = it_inserted_ptr_end then
    ({ h with m_cur_num_msg := h.m_cur_num_msg + 1 }, h.mp_index it_inserted_ptr_end)
  else
    let pos := whr
    let circ_pos :=
      if pos ≥ h.m_cur_first_msg then pos - h.m_cur_first_msg
      else pos + (h.m_max_num_msg - h.m_cur_first_msg)
    if circ_pos < h.m_cur_num_msg / 2 then h.insert_moving_front pos else h.insert_moving_back pos

/-- Inserts the first free message in the priority queue and returns its slot. -/
def queue_free_msg (h : mq_hdr_t) (priority : Nat) : mq_hdr_t × Nat :=
  let it :=
    if h.m_cur_num_msg ≠ 0 ∧ priority > (h.slots h.bottom_msg).priority then
      if priority > (h.slots h.top_msg).priority then h.end_pos else h.lower_bound priority
    else h.m_cur_first_msg
  h.insert_at it

end mq_hdr_t

end interprocess.ipcdetail
