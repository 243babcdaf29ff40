import Interprocess.Base.Monitor
import Mathlib.Algebra.Group.Nat.Defs

open Monitor

namespace interprocess.interprocess_sharable_mutex

/-- The packed control word. `num_shared` is a bit-field of 31 bits, and
    `max_readers` is its largest value. -/
structure control_word_t where
  exclusive_in : Bool
  num_shared : Nat
  deriving DecidableEq

def max_readers : Nat :=
  2 ^ 31 - 1

/-- `++num_shared` on the bit-field. -/
def inc (num_shared : Nat) : Nat :=
  if num_shared = max_readers then 0 else num_shared + 1

/-- `--num_shared` on the bit-field. -/
def dec (num_shared : Nat) : Nat :=
  if num_shared = 0 then max_readers else num_shared - 1

theorem inc_of_ne {num_shared : Nat} (h : num_shared ≠ max_readers) : inc num_shared = num_shared + 1 :=
  if_neg h

theorem dec_of_ne {num_shared : Nat} (h : num_shared ≠ 0) : dec num_shared = num_shared - 1 :=
  if_neg h

inductive Ownership where
  | none
  | sharable
  | exclusive
  deriving DecidableEq

/-- The kinds of locking that block at the first gate. -/
inductive Kind where
  | exclusive
  | sharable
  deriving DecidableEq

/-- The two condition variables. -/
inductive Gate where
  | m_first_gate
  | m_second_gate
  deriving DecidableEq

/-- Where a thread stands: between calls, or in a condition wait of a call. A
    thread at the second gate has an `exclusive_rollback` on its stack. -/
inductive Place where
  | idle
  | first_gate (kind : Kind) (timed : Bool)
  | second_gate (timed : Bool)
  deriving DecidableEq

def Place.gate : Place → Option Gate
  | .idle => none
  | .first_gate _ _ => some .m_first_gate
  | .second_gate _ => some .m_second_gate

def Place.timed : Place → Bool
  | .first_gate _ timed | .second_gate timed => timed
  | .idle => false

/-- How a call ended. -/
inductive Result where
  | acquired
  | failed
  | thrown
  deriving DecidableEq

/-- Where a section under the internal mutex leaves its thread: the call ended,
    or it waits at a gate. -/
inductive Outcome where
  | done (owned : Ownership) (result : Result)
  | wait (place : Place)

/-- What a section under the internal mutex does: the control word it leaves, the
    condition variable it notifies and where its thread stands after it. -/
structure Section where
  m_ctrl : control_word_t
  notification : Notification Gate
  outcome : Outcome

/-- The conditions under which the two kinds block at the first gate. -/
def first_gate_closed (c : control_word_t) : Kind → Bool
  | .exclusive => c.exclusive_in
  | .sharable => c.exclusive_in || c.num_shared == max_readers

/-- The wait until all readers are gone. -/
def pass_second_gate (c : control_word_t) (timed : Bool) : Section :=
  if c.num_shared ≠ 0 then ⟨c, .none, .wait (.second_gate timed)⟩
  else ⟨c, .none, .done .exclusive .acquired⟩

/-- What follows the first gate. -/
def pass_first_gate (c : control_word_t) (timed : Bool) : Kind → Section
  | .exclusive => pass_second_gate { c with exclusive_in := true } timed
  | .sharable => ⟨{ c with num_shared := inc c.num_shared }, .none, .done .sharable .acquired⟩

/-- `lock`, `lock_sharable` and their timed variants once the internal mutex is
    locked. -/
def lock_kind (c : control_word_t) (kind : Kind) (timed : Bool) : Section :=
  if first_gate_closed c kind then ⟨c, .none, .wait (.first_gate kind timed)⟩
  else pass_first_gate c timed kind

def lock (c : control_word_t) : Section :=
  lock_kind c .exclusive false

def timed_lock (c : control_word_t) : Section :=
  lock_kind c .exclusive true

def try_lock (c : control_word_t) : Section :=
  if c.exclusive_in || c.num_shared != 0 then ⟨c, .none, .done .none .failed⟩
  else ⟨{ c with exclusive_in := true }, .none, .done .exclusive .acquired⟩

def unlock (c : control_word_t) : Section :=
  ⟨{ c with exclusive_in := false }, .all .m_first_gate, .done .none .acquired⟩

def lock_sharable (c : control_word_t) : Section :=
  lock_kind c .sharable false

def timed_lock_sharable (c : control_word_t) : Section :=
  lock_kind c .sharable true

def try_lock_sharable (c : control_word_t) : Section :=
  if first_gate_closed c .sharable then ⟨c, .none, .done .none .failed⟩
  else ⟨{ c with num_shared := inc c.num_shared }, .none, .done .sharable .acquired⟩

def unlock_sharable (c : control_word_t) : Section :=
  let num_shared := dec c.num_shared
  ⟨{ c with num_shared := num_shared },
    if num_shared = 0 then .one .m_second_gate
    else if num_shared = max_readers - 1 then .all .m_first_gate
    else .none,
    .done .none .acquired⟩

/-- How a condition wait ends, with the internal mutex locked again. -/
inductive WaitEnd where
  | woken
  | timed_out
  | thrown
  deriving DecidableEq

/-- The section after a wait at the first gate. -/
def after_first_gate (c : control_word_t) (kind : Kind) (timed : Bool) : WaitEnd → Section
  | .woken => lock_kind c kind timed
  | .timed_out =>
    if first_gate_closed c kind then ⟨c, .none, .done .none .failed⟩
    else pass_first_gate c timed kind
  | .thrown => ⟨c, .none, .done .none .thrown⟩

/-- The destructor of an `exclusive_rollback` that was not released. -/
def exclusive_rollback (c : control_word_t) (result : Result) : Section :=
  ⟨{ c with exclusive_in := false }, .all .m_first_gate, .done .none result⟩

/-- The section after a wait at the second gate. -/
def after_second_gate (c : control_word_t) (timed : Bool) : WaitEnd → Section
  | .woken => pass_second_gate c timed
  | .timed_out =>
    if c.num_shared ≠ 0 then exclusive_rollback c .failed
    else ⟨c, .none, .done .exclusive .acquired⟩
  | .thrown => exclusive_rollback c .thrown

inductive Op where
  | lock
  | try_lock
  | timed_lock
  | unlock
  | lock_sharable
  | try_lock_sharable
  | timed_lock_sharable
  | unlock_sharable
  deriving DecidableEq

namespace Op

/-- The ownership an operation requires of its caller. -/
def requires : Op → Ownership
  | .unlock => .exclusive
  | .unlock_sharable => .sharable
  | _ => .none

/-- What a call reports when it does not get the internal mutex: the try and
    timed variants return `false`, the others throw. -/
def entry_failure : Op → Result
  | .try_lock | .timed_lock | .try_lock_sharable | .timed_lock_sharable => .failed
  | .lock | .unlock | .lock_sharable | .unlock_sharable => .thrown

/-- The first section of a call under the internal mutex. -/
def enter (c : control_word_t) : Op → Section
  | .lock => interprocess_sharable_mutex.lock c
  | .try_lock => interprocess_sharable_mutex.try_lock c
  | .timed_lock => interprocess_sharable_mutex.timed_lock c
  | .unlock => interprocess_sharable_mutex.unlock c
  | .lock_sharable => interprocess_sharable_mutex.lock_sharable c
  | .try_lock_sharable => interprocess_sharable_mutex.try_lock_sharable c
  | .timed_lock_sharable => interprocess_sharable_mutex.timed_lock_sharable c
  | .unlock_sharable => interprocess_sharable_mutex.unlock_sharable c

end Op

/-- A thread: what it owns, where it stands, what it owned when its last call
    began and how that call ended. -/
structure Thread where
  owned : Ownership
  place : Place
  before : Ownership
  result : Option Result
  deriving DecidableEq

/-- A thread that has not called anything yet. -/
def Thread.outside : Thread where
  owned := .none
  place := .idle
  before := .none
  result := none

/-- The thread after a section. A thread that waits at a gate owns nothing. -/
def Thread.advance (th : Thread) : Outcome → Thread
  | .done owned result => { th with owned := owned, place := .idle, result := some result }
  | .wait place => { th with owned := .none, place := place, result := none }

/-- The mutex and its threads, with the phase of every thread that waits. -/
structure State (τ : Type) where
  m_ctrl : control_word_t
  threads : τ → Thread
  phase : τ → Phase

namespace State

variable {τ : Type}

def place (s : State τ) (t : τ) : Place :=
  (s.threads t).place

end State

/-- The steps of the threads and of the condition variables. A `notify_one` of
    the step wakes `woken`, and a wait throws in `throw`. -/
inductive Label (τ : Type) where
  | call (t : τ) (op : Op) (mutex_locked : Bool) (woken : Option τ)
  | spurious_wake (t : τ)
  | time_out (t : τ)
  | resume (t : τ)
  | throw (t : τ)

section Steps

variable {τ : Type} [DecidableEq τ] [Fintype τ]

/-- A section of a thread and its notification. A thread that begins to wait is
    asleep. -/
def perform (s : State τ) (t : τ) (th : Thread) (woken : Option τ) (sec : Section) :
    Option (State τ) :=
  let threads := Function.update s.threads t (th.advance sec.outcome)
  let phase := Function.update s.phase t .asleep
  (notify (fun u => (threads u).place.gate) phase woken sec.notification).map fun phase =>
    { m_ctrl := sec.m_ctrl, threads := threads, phase := phase }

/-- The section after a condition wait that ended in one of the three ways. -/
def wait_ends (s : State τ) (t : τ) (how : WaitEnd) : Option (State τ) :=
  match s.place t with
  | .idle => none
  | .first_gate kind timed =>
    perform s t (s.threads t) none (after_first_gate s.m_ctrl kind timed how)
  | .second_gate timed => perform s t (s.threads t) none (after_second_gate s.m_ctrl timed how)

/-- One step: the first section of a call whose caller has the ownership it
    requires, the section after a condition wait, or a waiter that wakes without
    a notification or reaches its time point. -/
def step (s : State τ) : Label τ → Option (State τ)
  | .call t op mutex_locked woken =>
    let th := s.threads t
    if th.place = .idle ∧ th.owned = op.requires then
      perform s t { th with before := th.owned } woken
        (if mutex_locked then op.enter s.m_ctrl
          else ⟨s.m_ctrl, .none, .done th.owned op.entry_failure⟩)
    else none
  | .spurious_wake t =>
    if s.place t ≠ .idle ∧ s.phase t = .asleep then
      some { s with phase := Function.update s.phase t .awake }
    else none
  | .time_out t =>
    if (s.place t).timed then some { s with phase := Function.update s.phase t .expired } else none
  | .resume t =>
    match s.phase t with
    | .asleep => none
    | .notified | .awake => wait_ends s t .woken
    | .expired => wait_ends s t .timed_out
  | .throw t => wait_ends s t .thrown

/-- A new mutex that nobody owns. -/
def start : State τ where
  m_ctrl := { exclusive_in := false, num_shared := 0 }
  threads := fun _ => Thread.outside
  phase := fun _ => .asleep

end Steps

end interprocess.interprocess_sharable_mutex
