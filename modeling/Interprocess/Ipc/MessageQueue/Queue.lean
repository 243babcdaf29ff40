import Mathlib.Data.List.Sort
import Interprocess.Ipc.MessageQueue.Insert

open interprocess.ipcdetail

namespace interprocess.message_queue

/-- The error codes `do_send` and `do_receive` throw. -/
inductive error_code_t where
  | size_error
  deriving DecidableEq, Repr

/-- A message as the user sees it. -/
structure Message where
  priority : Nat
  bytes : List UInt8
  deriving DecidableEq

/-- `std::memcpy(data, buffer, buffer_size)` into a slot. -/
def memcpy (data : Nat → UInt8) (buffer : List UInt8) : Nat → UInt8 :=
  fun i => buffer.getD i (data i)

/-- The bytes a receiver copies out of a slot. -/
def read_data (m : msg_hdr_t) : List UInt8 :=
  (List.range m.len).map m.data

/-- The insertion of `do_send` once the queue is not full. -/
def insert_msg (h : mq_hdr_t) (buffer : List UInt8) (priority : Nat) : mq_hdr_t :=
  let r := h.queue_free_msg priority
  let free_msg_hdr := r.1.slots r.2
  { r.1 with
    slots := Function.update r.1.slots r.2
      { priority := priority, len := buffer.length, data := memcpy free_msg_hdr.data buffer } }

/-- `do_send` on a queue it does not have to wait for; `false` is the full queue
    of the non-blocking variant. -/
def do_send (h : mq_hdr_t) (buffer : List UInt8) (priority : Nat) :
    Except error_code_t (Bool × mq_hdr_t) :=
  if buffer.length > h.m_max_msg_size then .error .size_error
  else if h.is_full then .ok (false, h)
  else .ok (true, insert_msg h buffer priority)

/-- The removal of `do_receive` once the queue is not empty. -/
def remove_msg (h : mq_hdr_t) : Message × mq_hdr_t :=
  let top := h.top_msg
  let top_msg := h.slots top
  let recvd : Message := { priority := top_msg.priority, bytes := read_data top_msg }
  (recvd, { h with
    slots := Function.update h.slots top { top_msg with len := 0, priority := 0 } }.free_top_msg)

/-- `do_receive` on a queue it does not have to wait for; no message is the
    empty queue of the non-blocking variant. -/
def do_receive (h : mq_hdr_t) (buffer_size : Nat) :
    Except error_code_t (Option Message × mq_hdr_t) :=
  if buffer_size < h.m_max_msg_size then .error .size_error
  else if h.is_empty then .ok (none, h)
  else .ok (some (remove_msg h).1, (remove_msg h).2)

inductive Op where
  | send (buffer : List UInt8) (priority : Nat)
  | receive (buffer_size : Nat)

/-- What a call reports: an exception, whether a message was sent, or the
    message received. -/
inductive Output where
  | error (code : error_code_t)
  | sent (done : Bool)
  | received (msg : Option Message)
  deriving DecidableEq

def step (h : mq_hdr_t) : Op → mq_hdr_t × Output
  | .send buffer priority =>
    match do_send h buffer priority with
    | .error code => (h, .error code)
    | .ok (done, h) => (h, .sent done)
  | .receive buffer_size =>
    match do_receive h buffer_size with
    | .error code => (h, .error code)
    | .ok (msg, h) => (h, .received msg)

/-- The queue just constructed, with zero-filled slots that have memories of their own. -/
def create (max_num_msg max_msg_size : Nat) : mq_hdr_t :=
  mq_hdr_t.construct max_num_msg max_msg_size fun _ => { len := 0, priority := 0, data := fun _ => 0 }

end interprocess.message_queue

namespace interprocess.message_queue.spec

/-- A queued message with the number of the send that queued it. -/
structure Entry where
  seq : Nat
  msg : Message

/-- The order in which queued messages are received: higher priority first,
    earlier sends first among equal priorities. -/
def Before (a b : Entry) : Prop :=
  b.msg.priority < a.msg.priority ∨ (b.msg.priority = a.msg.priority ∧ a.seq < b.seq)

instance : DecidableRel Before := fun _ _ => instDecidableOr

/-- A bounded stable priority queue. -/
structure PriorityQueue where
  capacity : Nat
  max_size : Nat
  sent : Nat
  entries : List Entry

def empty (capacity max_size : Nat) : PriorityQueue where
  capacity := capacity
  max_size := max_size
  sent := 0
  entries := []

def enqueue (q : PriorityQueue) (msg : Message) : PriorityQueue :=
  { q with sent := q.sent + 1, entries := q.entries.orderedInsert Before { seq := q.sent, msg } }

def step (q : PriorityQueue) : Op → PriorityQueue × Output
  | .send buffer priority =>
    if buffer.length > q.max_size then (q, .error .size_error)
    else if q.entries.length = q.capacity then (q, .sent false)
    else (enqueue q { priority, bytes := buffer }, .sent true)
  | .receive buffer_size =>
    if buffer_size < q.max_size then (q, .error .size_error)
    else
      match q.entries with
      | [] => (q, .received none)
      | e :: rest => ({ q with entries := rest }, .received (some e.msg))

def run (q : PriorityQueue) : List Op → PriorityQueue × List Output
  | [] => (q, [])
  | op :: ops =>
    let (q, output) := step q op
    let (q, outputs) := run q ops
    (q, output :: outputs)

end interprocess.message_queue.spec
