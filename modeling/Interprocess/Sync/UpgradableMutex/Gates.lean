import Mathlib.Data.Fintype.Basic
import Interprocess.Sync.UpgradableMutex.Operations

namespace interprocess.interprocess_upgradable_mutex

/-- Which waiters a section notifies: all at the first gate, or one at the
    second. -/
inductive Notification where
  | none
  | first_gate_all
  | second_gate_one
  deriving DecidableEq

/-- The notification at the end of the first section of a call, with the control
    word it leaves. -/
def Op.notifies (c : control_word_t) : Op → Notification
  | .unlock | .unlock_upgradable => .first_gate_all
  | .unlock_sharable =>
    if c.num_upr_shar = 0 then .second_gate_one
    else if c.num_upr_shar = max_readers - 1 then .first_gate_all
    else .none
  | .unlock_and_lock_upgradable | .unlock_and_lock_sharable => .first_gate_all
  | .unlock_upgradable_and_lock_sharable => .first_gate_all
  | _ => .none

/-- The notification a rollback object issues. -/
def Rollback.notifies : Rollback → Notification
  | .exclusive_rollback => .first_gate_all
  | .upgradable_to_exclusive_rollback => .none

/-- Whether the section after a wait at the second gate destroys a rollback object
    that was not released. -/
def rolls_back (c : control_word_t) : WaitEnd → Bool
  | .woken => false
  | .timed_out => c.num_upr_shar ≠ 0
  | .thrown => true

/-- The notification in the section after a wait, with the control word it finds. -/
def Place.notifies (c : control_word_t) (how : WaitEnd) : Place → Notification
  | .second_gate rollback _ => if rolls_back c how then rollback.notifies else .none
  | _ => .none

/-- Where a waiter stands between entering the wait and getting the mutex back:
    not notified, woken by a notification, woken without one, or past its time
    point. -/
inductive Phase where
  | asleep
  | notified
  | awake
  | expired
  deriving DecidableEq

def Place.at_first_gate : Place → Bool
  | .first_gate _ _ => true
  | _ => false

def Place.at_second_gate : Place → Bool
  | .second_gate _ _ => true
  | _ => false

def Place.timed : Place → Bool
  | .first_gate _ timed | .second_gate _ timed => timed
  | .idle => false

/-- The mutex and its threads, with the phase of every thread that waits. -/
structure GateState (τ : Type) where
  base : State τ
  phase : τ → Phase

namespace GateState

variable {τ : Type}

def place (s : GateState τ) (t : τ) : Place :=
  (s.base.threads t).place

/-- Asleep at the second gate without a notification. -/
def asleep_second (s : GateState τ) (t : τ) : Bool :=
  s.phase t = .asleep ∧ (s.place t).at_second_gate

def notify_all_first (s : GateState τ) : GateState τ :=
  { s with
    phase := fun t => if s.phase t = .asleep ∧ (s.place t).at_first_gate then .notified else s.phase t }

variable [DecidableEq τ]

/-- A `notify_one` at the second gate wakes a sleeper there when there is one. -/
def notify_one_second [Fintype τ] (s : GateState τ) : Option τ → Option (GateState τ)
  | some w =>
    if s.asleep_second w then some { s with phase := Function.update s.phase w .notified } else none
  | none => if ∀ w, s.asleep_second w = false then some s else none

def notify [Fintype τ] (s : GateState τ) (woken : Option τ) : Notification → Option (GateState τ)
  | .none => some s
  | .first_gate_all => some s.notify_all_first
  | .second_gate_one => s.notify_one_second woken

/-- A section of a thread that leaves the mutex in `base`, and issues a
    notification. A thread that begins to wait is asleep. -/
def after_section [Fintype τ] (s : GateState τ) (t : τ) (woken : Option τ) (notification : Notification)
    (base : State τ) : Option (GateState τ) :=
  notify { base := base, phase := Function.update s.phase t .asleep } woken notification

end GateState

/-- The steps of the threads and of the condition variables. A wait throws in
    `throw`. -/
inductive GateLabel (τ : Type) where
  | call (t : τ) (op : Op) (mutex_locked : Bool) (woken : Option τ)
  | spurious_wake (t : τ)
  | time_out (t : τ)
  | resume (t : τ)
  | throw (t : τ)

section Steps

variable {τ : Type} [DecidableEq τ] [Fintype τ]

/-- The section after a wait that ended in one of the three ways. -/
def wait_ends (s : GateState τ) (t : τ) (how : WaitEnd) : Option (GateState τ) :=
  match step s.base (.wait_end t how) with
  | none => none
  | some base => s.after_section t none ((s.place t).notifies s.base.m_ctrl how) base

/-- One step: a section under the internal mutex with its notification, or a
    waiter that wakes without one or reaches its time point. -/
def gate_step (s : GateState τ) : GateLabel τ → Option (GateState τ)
  | .call t op mutex_locked woken =>
    match step s.base (.call t op mutex_locked) with
    | none => none
    | some base =>
      s.after_section t woken (if mutex_locked then op.notifies base.m_ctrl else .none) base
  | .spurious_wake t =>
    if s.place t ≠ .idle ∧ s.phase t = .asleep then
      some { s with phase := Function.update s.phase t .awake }
    else none
  | .time_out t =>
    if (s.place t).timed then some { s with phase := Function.update s.phase t .expired } else none
  | .resume t =>
    match s.phase t with
    | .asleep => none
    | .notified | .awake => wait_ends s t .woken
    | .expired => wait_ends s t .timed_out
  | .throw t => wait_ends s t .thrown

def gate_start : GateState τ where
  base := start
  phase := fun _ => .asleep

end Steps

end interprocess.interprocess_upgradable_mutex
