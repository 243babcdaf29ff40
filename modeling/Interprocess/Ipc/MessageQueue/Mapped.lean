import Interprocess.Base.Memory
import Interprocess.Ipc.MessageQueue.MemoryLayout
import Interprocess.Ipc.MessageQueue.Refinement

open interprocess.ipcdetail
open interprocess.message_queue.memory_layout

namespace interprocess.message_queue

/-- A priority is an `unsigned int`. -/
def Op.Typed : Op → Prop
  | .send _ priority => priority < 2 ^ 32
  | .receive _ => True

namespace mapped

/-- The members of a message header come first in it: the length in the first word,
    and the priority behind it. -/
structure QueueAbi extends Abi where
  msg_hdr_members : 12 ≤ sizeof_msg_hdr_t

/-- A queue in mapped memory. The header and the index are objects of their own; a slot
    is the bytes of the region at its address. -/
structure MappedQueue where
  m_max_num_msg : Nat
  m_max_msg_size : Nat
  m_cur_num_msg : Nat
  m_cur_first_msg : Nat
  mp_index : Nat → Nat
  memory : Memory

section Model

variable (abi : QueueAbi)

/-- The message at an address. -/
def msg_hdr_at (memory : Memory) (slot : Nat) : msg_hdr_t where
  len := memory.load slot 8
  priority := memory.load (slot + 8) 4
  data := fun i => memory (slot + abi.sizeof_msg_hdr_t + i)

/-- The header as its functions see it: they read the messages that the index points to. -/
def MappedQueue.header (q : MappedQueue) : mq_hdr_t where
  m_max_num_msg := q.m_max_num_msg
  m_max_msg_size := q.m_max_msg_size
  m_cur_num_msg := q.m_cur_num_msg
  m_cur_first_msg := q.m_cur_first_msg
  mp_index := q.mp_index
  slots := msg_hdr_at abi q.memory

/-- The queue after a function of the header, with the given bytes. -/
def MappedQueue.with_header (h : mq_hdr_t) (memory : Memory) : MappedQueue where
  m_max_num_msg := h.m_max_num_msg
  m_max_msg_size := h.m_max_msg_size
  m_cur_num_msg := h.m_cur_num_msg
  m_cur_first_msg := h.m_cur_first_msg
  mp_index := h.mp_index
  memory := memory

/-- The loop of `initialize_memory`: where the i-th slot is. -/
def slot_pointer (r_max_msg_size msg_hdr : Nat) : Nat → Nat
  | 0 => msg_hdr
  | i + 1 => (slot_pointer r_max_msg_size msg_hdr i + r_max_msg_size) % 2 ^ 64

variable (region size : Nat)

def header_range : Range :=
  ⟨region + ManagedOpenOrCreateUserOffset abi.toAbi, abi.sizeof_mq_hdr_t⟩

def index_range (max_num_msg : Nat) : Range :=
  ⟨region + ManagedOpenOrCreateUserOffset abi.toAbi + r_hdr_size abi.toAbi,
    max_num_msg * abi.sizeof_msg_hdr_ptr_t⟩

def first_msg_hdr (max_num_msg : Nat) : Nat :=
  (region + ManagedOpenOrCreateUserOffset abi.toAbi + r_hdr_size abi.toAbi +
    r_index_size abi.toAbi max_num_msg) % 2 ^ 64

/-- A message header and so many bytes behind it can be used: they are mapped, and belong
    to neither the queue header nor the index. Any other access is undefined. -/
def Usable (max_num_msg slot bytes : Nat) : Prop :=
  Range.Inside region (region + size) ⟨slot, abi.sizeof_msg_hdr_t + bytes⟩ ∧
    (header_range abi region).Apart ⟨slot, abi.sizeof_msg_hdr_t + bytes⟩ ∧
    (index_range abi region max_num_msg).Apart ⟨slot, abi.sizeof_msg_hdr_t + bytes⟩

instance (max_num_msg slot bytes : Nat) : Decidable (Usable abi region size max_num_msg slot bytes) :=
  instDecidableAnd

/-- The constructor on zero-filled memory, if the header and the index are mapped. -/
def create (max_num_msg max_msg_size : Nat) : Option MappedQueue :=
  if (index_range abi region max_num_msg).Inside region (region + size) then
    some
      { m_max_num_msg := max_num_msg
        m_max_msg_size := max_msg_size
        m_cur_num_msg := 0
        m_cur_first_msg := 0
        mp_index := slot_pointer (r_max_msg_size abi.toAbi max_msg_size)
          (first_msg_hdr abi region max_num_msg)
        memory := Memory.zeros }
  else none

/-- A sender writes the message header and its buffer behind it. -/
def write_msg (memory : Memory) (slot : Nat) (buffer : List UInt8) (priority : Nat) : Memory :=
  ((memory.store (slot + 8) 4 priority).store slot 8 buffer.length).copy
    (slot + abi.sizeof_msg_hdr_t) buffer

/-- The insertion of `do_send` once the queue is not full. -/
def insert_msg (q : MappedQueue) (buffer : List UInt8) (priority : Nat) : Option MappedQueue :=
  let r := (q.header abi).queue_free_msg priority
  if Usable abi region size q.m_max_num_msg r.2 buffer.length then
    some (.with_header r.1 (write_msg abi q.memory r.2 buffer priority))
  else none

/-- `do_send` on a queue it does not have to wait for. -/
def do_send (q : MappedQueue) (buffer : List UInt8) (priority : Nat) :
    Option (Except error_code_t (Bool × MappedQueue)) :=
  if buffer.length > q.m_max_msg_size then some (.error .size_error)
  else if (q.header abi).is_full then some (.ok (false, q))
  else (insert_msg abi region size q buffer priority).map fun q => .ok (true, q)

/-- A receiver cleans the message header before it copies the data. -/
def clean_msg (memory : Memory) (slot : Nat) : Memory :=
  (memory.store slot 8 0).store (slot + 8) 4 0

/-- The removal of `do_receive` once the queue is not empty. -/
def remove_msg (q : MappedQueue) : Option (Message × MappedQueue) :=
  let top := (q.header abi).top_msg
  let recvd_size := (msg_hdr_at abi q.memory top).len
  let priority := (msg_hdr_at abi q.memory top).priority
  let memory := clean_msg q.memory top
  if Usable abi region size q.m_max_num_msg top recvd_size then
    some ({ priority, bytes := read_data { msg_hdr_at abi memory top with len := recvd_size } },
      .with_header (q.header abi).free_top_msg memory)
  else none

/-- `do_receive` on a queue it does not have to wait for. -/
def do_receive (q : MappedQueue) (buffer_size : Nat) :
    Option (Except error_code_t (Option Message × MappedQueue)) :=
  if buffer_size < q.m_max_msg_size then some (.error .size_error)
  else if (q.header abi).is_empty then some (.ok (none, q))
  else (remove_msg abi region size q).map fun r => .ok (some r.1, r.2)

/-- One call. A call with an undefined access has no result. -/
def step (q : MappedQueue) : Op → Option (MappedQueue × Output)
  | .send buffer priority =>
    (do_send abi region size q buffer priority).map fun
      | .error code => (q, .error code)
      | .ok (done, q) => (q, .sent done)
  | .receive buffer_size =>
    (do_receive abi region size q buffer_size).map fun
      | .error code => (q, .error code)
      | .ok (msg, q) => (q, .received msg)

def run (q : MappedQueue) : List Op → Option (MappedQueue × List Output)
  | [] => some (q, [])
  | op :: ops =>
    (step abi region size q op).bind fun r =>
      (run r.1 ops).map fun rest => (rest.1, r.2 :: rest.2)

def get_num_msg (q : MappedQueue) : Nat :=
  q.m_cur_num_msg

/-- Every sequence of calls on a new queue is defined, reports what a bounded stable
    priority queue reports, and leaves as many messages, those of the abstract queue in
    its order. -/
def RefinesPriorityQueue (max_num_msg max_msg_size : Nat) : Prop :=
  ∃ q, create abi region size max_num_msg max_msg_size = some q ∧
    ∀ ops : List Op, (∀ op ∈ ops, op.Typed) →
      let abstract := spec.run (spec.empty max_num_msg max_msg_size) ops
      ∃ last, run abi region size q ops = some (last, abstract.2) ∧
        get_num_msg last = abstract.1.entries.length ∧
        abstract.1.entries.Pairwise spec.Before ∧
        abstract.1.entries.map spec.Entry.msg = (window (last.header abi)).reverse

end Model

end mapped

end interprocess.message_queue
