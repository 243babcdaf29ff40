import Interprocess.Base.Count
import Interprocess.Base.Transition
import Interprocess.Ipc.MessageQueue.Queue

open Count
open interprocess.ipcdetail

namespace interprocess.message_queue.waiters

inductive mqblock_types where
  | blocking
  | timed
  | non_blocking
  deriving DecidableEq

/-- The two conditions of the queue: receivers wait for messages on
    `m_cond_recv`, senders wait for free slots on `m_cond_send`. -/
inductive Side where
  | receiver
  | sender
  deriving DecidableEq

def Side.other : Side → Side
  | .receiver => .sender
  | .sender => .receiver

/-- A call with its arguments. -/
inductive Request where
  | send (buffer : List UInt8) (priority : Nat)
  | receive (buffer_size : Nat)

def Request.side : Request → Side
  | .send _ _ => .sender
  | .receive _ => .receiver

/-- Where a waiter stands between entering the wait and getting the mutex
    back: not notified, woken by a notification, woken without one, or past its
    time point. -/
inductive Phase where
  | asleep
  | notified
  | awake
  | expired
  deriving DecidableEq

/-- Where a thread stands: outside the queue, registered in a waiting loop, or
    past its critical section with a `notify_one` still to be issued. -/
inductive Place where
  | outside
  | waiting (request : Request) (timed : Bool) (phase : Phase)
  | notifying (side : Side)

/-- The shared header with its blocked counters, and where every thread stands. -/
structure State (τ : Type) where
  hdr : mq_hdr_t
  m_blocked_senders : Nat
  m_blocked_receivers : Nat
  place : τ → Place

namespace State

variable {τ : Type}

def blocked (s : State τ) : Side → Nat
  | .receiver => s.m_blocked_receivers
  | .sender => s.m_blocked_senders

def set_blocked (s : State τ) (side : Side) (n : Nat) : State τ :=
  match side with
  | .receiver => { s with m_blocked_receivers := n }
  | .sender => { s with m_blocked_senders := n }

/-- The condition a call waits on: `is_empty` for a receiver, `is_full` for a
    sender. -/
def must_wait (s : State τ) : Side → Bool
  | .receiver => s.hdr.is_empty
  | .sender => s.hdr.is_full

/-- The work of the critical section once the call need not wait. -/
def transfer (hdr : mq_hdr_t) : Request → mq_hdr_t
  | .send buffer priority => insert_msg hdr buffer priority
  | .receive _ => (remove_msg hdr).2

/-- Where the critical section leaves its thread: whether the other side has to
    be notified is read from its blocked counter. -/
def section_exit (s : State τ) (request : Request) : Place :=
  if 0 ≠ s.blocked request.side.other then .notifying request.side.other else .outside

def proceed [DecidableEq τ] (s : State τ) (t : τ) (request : Request) : State τ :=
  { s with
    hdr := transfer s.hdr request
    place := Function.update s.place t (s.section_exit request) }

end State

/-- The size checks made before the mutex is locked. -/
def size_error {τ : Type} (s : State τ) : Request → Bool
  | .send buffer _ => buffer.length > s.hdr.m_max_msg_size
  | .receive buffer_size => buffer_size < s.hdr.m_max_msg_size

/-- The steps of the threads and of the condition variables. -/
inductive Label (τ : Type) where
  | call (t : τ) (request : Request) (block : mqblock_types)
  | spurious_wake (t : τ)
  | time_out (t : τ)
  | resume (t : τ)
  | notify_one (t : τ) (woken : Option τ)

def asleepOn (side : Side) : Place → Bool
  | .waiting request _ .asleep => request.side = side
  | _ => false

/-- One step. A call, and a return from a condition wait, run their section
    under the mutex up to the next wait or the unlock. -/
def step {τ : Type} [Fintype τ] [DecidableEq τ] (s : State τ) : Label τ → Option (State τ)
  | .call t request block =>
    match s.place t with
    | .outside =>
      if size_error s request then some s
      else if s.must_wait request.side then
        match block with
        | .non_blocking => some s
        | .blocking | .timed =>
          some { s.set_blocked request.side (s.blocked request.side + 1) with
            place := Function.update s.place t (.waiting request (block = .timed) .asleep) }
      else some (s.proceed t request)
    | _ => none
  | .spurious_wake t =>
    match s.place t with
    | .waiting request timed .asleep =>
      some { s with place := Function.update s.place t (.waiting request timed .awake) }
    | _ => none
  | .time_out t =>
    match s.place t with
    | .waiting request true _ =>
      some { s with place := Function.update s.place t (.waiting request true .expired) }
    | _ => none
  | .resume t =>
    match s.place t with
    | .waiting _ _ .asleep => none
    | .waiting request timed phase =>
      if s.must_wait request.side then
        if phase = .expired then
          some { s.set_blocked request.side (s.blocked request.side - 1) with
            place := Function.update s.place t .outside }
        else some { s with place := Function.update s.place t (.waiting request timed .asleep) }
      else some ((s.set_blocked request.side (s.blocked request.side - 1)).proceed t request)
    | _ => none
  | .notify_one t woken =>
    match s.place t with
    | .notifying side =>
      match woken with
      | some w =>
        match s.place w with
        | .waiting request timed .asleep =>
          if request.side = side then
            some { s with
              place := Function.update
                (Function.update s.place w (.waiting request timed .notified)) t .outside }
          else none
        | _ => none
      | none =>
        if ∀ w, asleepOn side (s.place w) = false then
          some { s with place := Function.update s.place t .outside }
        else none
    | _ => none

/-- A new queue with every thread outside of it. -/
def start {τ : Type} (max_num_msg max_msg_size : Nat) : State τ where
  hdr := create max_num_msg max_msg_size
  m_blocked_senders := 0
  m_blocked_receivers := 0
  place := fun _ => .outside

end interprocess.message_queue.waiters
