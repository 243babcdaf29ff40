import Mathlib.Algebra.Group.Nat.Defs
import Mathlib.Data.Fintype.Basic
import Mathlib.Logic.Function.Basic

namespace interprocess.ipcdetail.spin_condition

/-- The values of `m_command`. -/
inductive Command where
  | SLEEP
  | NOTIFY_ONE
  | NOTIFY_ALL
  deriving DecidableEq

/-- The value `atomic_cas32` leaves in memory. It returns the old one. -/
def atomic_cas32 (mem with_ cmp : Command) : Command :=
  if mem = cmp then with_ else mem

/-- The value `atomic_inc32` leaves in a word of 32 bits. -/
def atomic_inc32 (mem : Nat) : Nat :=
  if mem = 2 ^ 32 - 1 then 0 else mem + 1

/-- The value `atomic_dec32` leaves in a word of 32 bits. -/
def atomic_dec32 (mem : Nat) : Nat :=
  if mem = 0 then 2 ^ 32 - 1 else mem - 1

/-- The operation a thread performs next in `do_timed_wait_impl` or `notify`:
    `enter` to `relocking` belong to a wait, the others to a notification. -/
inductive Pc where
  | idle
  | enter (timed : Bool)
  | registering (timed : Bool)
  | unlocking_mut (timed : Bool)
  | unlocking_entry (timed : Bool)
  | sleeping (timed : Bool)
  | yielding (timed : Bool)
  | checking (timed : Bool)
  | notified_one
  | notified_all
  | last_notified
  | timed_out
  | unlocking (timed_out : Bool)
  | relocking (timed_out : Bool)
  | notify (command : Command)
  | notifying (command : Command)
  | no_waiters
  | posting (command : Command)
  deriving DecidableEq

/-- Between the increment and the decrement of `m_num_waiters`. -/
def Pc.registered : Pc → Bool
  | .unlocking_mut _ | .unlocking_entry _ | .sleeping _ | .yielding _ | .checking _ => true
  | .notified_one | .notified_all | .timed_out => true
  | _ => false

/-- A thread, the notifications it took in its last wait and what that wait
    returned. -/
structure Thread where
  pc : Pc
  taken : Nat
  result : Option Bool
  deriving DecidableEq

/-- Why `m_enter_mut` was locked. -/
inductive Reason (τ : Type) where
  | registration (t : τ)
  | time_out (t : τ)
  | notification (t : τ) (command : Command)
  deriving DecidableEq

/-- What happened from one locking of `m_enter_mut` on: who was registered at
    that moment, who left because of a notification and who unlocked it, the
    latest first. -/
structure Tenure (τ : Type) where
  reason : Reason τ
  registered : Finset τ
  released : List τ
  unlocked_by : List τ
  deriving DecidableEq

/-- The condition variable and its threads, with a record of the tenures of
    `m_enter_mut`, the latest first. -/
structure State (τ : Type) where
  m_enter_mut : Bool
  m_command : Command
  m_num_waiters : Nat
  threads : τ → Thread
  tenures : List (Tenure τ)

inductive Label (τ : Type) where
  | wait (t : τ) (timed : Bool)
  | notify_one (t : τ)
  | notify_all (t : τ)
  | next (t : τ)
  | expire (t : τ)

section Steps

variable {τ : Type} [DecidableEq τ]

namespace State

def pc (s : State τ) (t : τ) : Pc :=
  (s.threads t).pc

/-- A thread goes on to its next operation. -/
def goto (s : State τ) (t : τ) (pc : Pc) : State τ :=
  { s with threads := Function.update s.threads t { s.threads t with pc := pc } }

/-- A thread takes a notification. -/
def take (s : State τ) (t : τ) (pc : Pc) : State τ :=
  { s with
    threads := Function.update s.threads t { s.threads t with pc := pc, taken := (s.threads t).taken + 1 } }

/-- A call returns. -/
def return_ (s : State τ) (t : τ) (result : Option Bool) : State τ :=
  { s with threads := Function.update s.threads t { s.threads t with pc := .idle, result := result } }

/-- A call begins. -/
def call (s : State τ) (t : τ) (pc : Pc) : State τ :=
  { s with threads := Function.update s.threads t { pc := pc, taken := 0, result := none } }

/-- `m_enter_mut` is locked, and a tenure begins. -/
def lock_enter_mut [Fintype τ] (s : State τ) (reason : Reason τ) : State τ :=
  { s with
    m_enter_mut := true
    tenures := { reason := reason, registered := {u | (s.pc u).registered = true}, released := [],
                 unlocked_by := [] } :: s.tenures }

/-- `m_enter_mut` is unlocked. -/
def unlock_enter_mut (s : State τ) (t : τ) : State τ :=
  { s with
    m_enter_mut := false
    tenures := s.tenures.modifyHead fun n => { n with unlocked_by := t :: n.unlocked_by } }

/-- A waiter leaves because of the notification under way. -/
def leave (s : State τ) (t : τ) : State τ :=
  { s with
    m_num_waiters := atomic_dec32 s.m_num_waiters
    tenures := s.tenures.modifyHead fun n => { n with released := t :: n.released } }

end State

variable [Fintype τ]

/-- The next operation of a thread. The locking of `m_enter_mut` waits until it
    is free. -/
def next (s : State τ) (t : τ) : Option (State τ) :=
  match s.pc t with
  | .idle => none
  | .enter timed =>
    if s.m_enter_mut then none
    else some ((s.lock_enter_mut (.registration t)).goto t (.registering timed))
  | .registering timed =>
    some ({ s with m_num_waiters := atomic_inc32 s.m_num_waiters }.goto t (.unlocking_mut timed))
  | .unlocking_mut timed => some (s.goto t (.unlocking_entry timed))
  | .unlocking_entry timed => some ((s.unlock_enter_mut t).goto t (.sleeping timed))
  | .sleeping timed =>
    if s.m_command = .SLEEP then some (s.goto t (.yielding timed)) else some (s.goto t (.checking timed))
  | .yielding timed => some (s.goto t (.sleeping timed))
  | .checking timed =>
    let s' := { s with m_command := atomic_cas32 s.m_command .SLEEP .NOTIFY_ONE }
    match s.m_command with
    | .SLEEP => some (s'.goto t (.sleeping timed))
    | .NOTIFY_ONE => some (s'.take t .notified_one)
    | .NOTIFY_ALL => some (s'.take t .notified_all)
  | .notified_one => some ((s.leave t).goto t (.unlocking false))
  | .notified_all =>
    if s.m_num_waiters = 1 then some ((s.leave t).goto t .last_notified)
    else some ((s.leave t).goto t (.relocking false))
  | .last_notified =>
    some ({ s with m_command := atomic_cas32 s.m_command .SLEEP .NOTIFY_ALL }.goto t (.unlocking false))
  | .timed_out =>
    some ({ s with m_num_waiters := atomic_dec32 s.m_num_waiters }.goto t (.unlocking true))
  | .unlocking timed_out => some ((s.unlock_enter_mut t).goto t (.relocking timed_out))
  | .relocking timed_out => some (s.return_ t (some !timed_out))
  | .notify command =>
    if s.m_enter_mut then none
    else some ((s.lock_enter_mut (.notification t command)).goto t (.notifying command))
  | .notifying command =>
    if s.m_num_waiters = 0 then some (s.goto t .no_waiters) else some (s.goto t (.posting command))
  | .no_waiters => some ((s.unlock_enter_mut t).return_ t none)
  | .posting command =>
    let s' := { s with m_command := atomic_cas32 s.m_command command .SLEEP }
    if s.m_command = .SLEEP then some (s'.return_ t none) else some (s'.goto t (.posting command))

/-- The time point of a timed wait is past: the wait for `m_enter_mut` gives up,
    and a sleeping waiter tries to lock it. -/
def expire (s : State τ) (t : τ) : Option (State τ) :=
  match s.pc t with
  | .enter true => some (s.return_ t (some false))
  | .yielding true =>
    if s.m_enter_mut then some (s.goto t (.sleeping true))
    else some ((s.lock_enter_mut (.time_out t)).goto t .timed_out)
  | _ => none

/-- One step of a thread: it calls a function, performs its next operation, or
    finds its time point past. -/
def step (s : State τ) : Label τ → Option (State τ)
  | .wait t timed => if s.pc t = .idle then some (s.call t (.enter timed)) else none
  | .notify_one t => if s.pc t = .idle then some (s.call t (.notify .NOTIFY_ONE)) else none
  | .notify_all t => if s.pc t = .idle then some (s.call t (.notify .NOTIFY_ALL)) else none
  | .next t => next s t
  | .expire t => expire s t

/-- A new condition variable that no thread uses. -/
def start : State τ where
  m_enter_mut := false
  m_command := .SLEEP
  m_num_waiters := 0
  threads := fun _ => { pc := .idle, taken := 0, result := none }
  tenures := []

end Steps

end interprocess.ipcdetail.spin_condition
