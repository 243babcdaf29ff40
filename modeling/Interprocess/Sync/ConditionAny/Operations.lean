import Mathlib.Data.Fintype.Basic
import Mathlib.Logic.Function.Basic

namespace interprocess.ipcdetail.condition_any_algorithm

/-- A `scoped_lock`: whether it refers to a mutex, and whether it has locked it. -/
structure scoped_lock where
  mp_mutex : Bool
  m_locked : Bool
  deriving DecidableEq

namespace scoped_lock

/-- A `scoped_lock` whose constructor has locked the mutex. -/
def constructed : scoped_lock :=
  ⟨true, true⟩

def default_constructed : scoped_lock :=
  ⟨false, false⟩

/-- What the destructor looks at before it unlocks. -/
def owns (l : scoped_lock) : Bool :=
  l.m_locked && l.mp_mutex

end scoped_lock

/-- How a call ends. -/
inductive Outcome where
  | returned (result : Bool)
  | thrown
  deriving DecidableEq

/-- What a call of `wait` or `timed_wait` does next. Between `enqueued` and `destructing` it is
    in `get_condvar().wait`. -/
inductive Place where
  | constructing_internal_lock
  | constructing_external_unlock
  | swapping
  | calling_condvar
  | enqueued
  | awakened (outcome : Outcome)
  | destructing (outcome : Outcome)
  deriving DecidableEq

/-- A call of `wait` or `timed_wait`, with the guards that are constructed. -/
structure Wait (L : Type) where
  lock : L
  timed : Bool
  internal_lock : Option scoped_lock
  external_unlock : Option scoped_lock
  internal_unlock : Option scoped_lock
  place : Place

/-- What a call of `signal` does next. -/
inductive SignalPlace where
  | constructing_internal_lock
  | notifying
  | destructing (outcome : Outcome)
  deriving DecidableEq

/-- A call of `signal`. `released` records who had released an external lock in which of
    their waits when the call started. -/
structure Signal (τ : Type) where
  broadcast : Bool
  internal_lock : Option scoped_lock
  place : SignalPlace
  released : τ → Option Nat

/-- What a thread does: nothing with the condition variable, acquiring an external lock of its
    own accord, or a call. -/
inductive Call (τ L : Type) where
  | outside
  | locking (lock : L)
  | waiting (wait : Wait L)
  | signalling (signal : Signal τ)

/-- `internal` is the thread that has locked the internal mutex, `waits` counts the calls of
    `wait` and `timed_wait` of a thread. -/
structure State (τ L : Type) where
  internal : Option τ
  holds : L → τ → Bool
  calls : τ → Call τ L
  waits : τ → Nat

/-- No calls yet. -/
def start {τ L : Type} : State τ L where
  internal := none
  holds := fun _ _ => false
  calls := fun _ => .outside
  waits := fun _ => 0

variable {τ L : Type}

/-- The external lock is released by the guard that inverts it. -/
def Wait.released (wait : Wait L) : Bool :=
  wait.external_unlock.any scoped_lock.owns

/-- The wait of a thread in which it has released its external lock. -/
def State.released_wait (s : State τ L) (t : τ) : Option Nat :=
  match s.calls t with
  | .waiting wait => if wait.released then some (s.waits t) else none
  | _ => none

/-- Enqueued in the inner condition variable. -/
def Call.enqueued : Call τ L → Bool
  | .waiting wait => wait.place = .enqueued
  | _ => false

/-- An enqueued waiter that is awakened. -/
def Call.awaken (outcome : Outcome) : Call τ L → Call τ L
  | .waiting wait =>
    if wait.place = .enqueued then .waiting { wait with place := .awakened outcome }
    else .waiting wait
  | call => call

/-- The operations of threads. `next` is the next operation of the call that a thread is in,
    where a `notify_one` awakens `woken`, and `throw` is its throwing instead. `wake` is
    a spurious wake-up, a time-out or an exception of the inner condition variable. -/
inductive Label (τ L : Type) where
  | lock (t : τ) (lock : L)
  | unlock (t : τ) (lock : L)
  | wait (t : τ) (lock : L) (timed : Bool)
  | signal (t : τ) (broadcast : Bool)
  | next (t : τ) (woken : Option τ)
  | throw (t : τ)
  | wake (t : τ) (outcome : Outcome)

section Steps

variable [DecidableEq τ] [DecidableEq L]

namespace State

/-- A thread goes on with its call. -/
def continue_ (s : State τ L) (t : τ) (call : Call τ L) : State τ L :=
  { s with calls := Function.update s.calls t call }

def lock_internal (s : State τ L) (t : τ) : State τ L :=
  { s with internal := some t }

def unlock_internal (s : State τ L) : State τ L :=
  { s with internal := none }

def lock_external (s : State τ L) (t : τ) (lock : L) : State τ L :=
  { s with holds := Function.update s.holds lock (Function.update (s.holds lock) t true) }

def unlock_external (s : State τ L) (t : τ) (lock : L) : State τ L :=
  { s with holds := Function.update s.holds lock (Function.update (s.holds lock) t false) }

/-- The next destructor of a call, the guard constructed last first, or the end of the call.
    To destruct `external_unlock` is to lock the external lock, when it is granted. -/
def destruct (grants : (L → τ → Bool) → L → τ → Bool) (s : State τ L) (t : τ) (wait : Wait L) :
    Option (State τ L) :=
  match wait.internal_unlock, wait.external_unlock, wait.internal_lock with
  | some guard, _, _ =>
    some ((if guard.owns then s.unlock_internal else s).continue_ t
      (.waiting { wait with internal_unlock := none }))
  | none, some guard, _ =>
    if guard.owns then
      if grants s.holds wait.lock t then
        some ((s.lock_external t wait.lock).continue_ t
          (.waiting { wait with external_unlock := none }))
      else none
    else some (s.continue_ t (.waiting { wait with external_unlock := none }))
  | none, none, some guard =>
    some ((if guard.owns then s.unlock_internal else s).continue_ t
      (.waiting { wait with internal_lock := none }))
  | none, none, none => some (s.continue_ t .outside)

/-- The next operation of a `wait` or `timed_wait`. -/
def next_of_wait (grants : (L → τ → Bool) → L → τ → Bool) (s : State τ L) (t : τ)
    (wait : Wait L) : Option (State τ L) :=
  match wait.place with
  | .constructing_internal_lock =>
    if s.internal = none then
      some ((s.lock_internal t).continue_ t (.waiting { wait with
        internal_lock := some .constructed
        place := .constructing_external_unlock }))
    else none
  | .constructing_external_unlock =>
    some ((s.unlock_external t wait.lock).continue_ t (.waiting { wait with
      external_unlock := some .constructed
      place := .swapping }))
  | .swapping =>
    some (s.continue_ t (.waiting { wait with
      internal_lock := some .default_constructed
      internal_unlock := wait.internal_lock
      place := .calling_condvar }))
  | .calling_condvar =>
    if wait.internal_unlock.any scoped_lock.owns then
      some (s.unlock_internal.continue_ t (.waiting { wait with place := .enqueued }))
    else some (s.continue_ t (.waiting { wait with place := .destructing .thrown }))
  | .enqueued => none
  | .awakened outcome =>
    if s.internal = none then
      some ((s.lock_internal t).continue_ t (.waiting { wait with place := .destructing outcome }))
    else none
  | .destructing _ => s.destruct grants t wait

/-- `notify_all`, or a `notify_one` that awakens a waiter, if there is one. -/
def notify [Fintype τ] (s : State τ L) (broadcast : Bool) (woken : Option τ) :
    Option (State τ L) :=
  if broadcast then some { s with calls := fun u => (s.calls u).awaken (.returned true) }
  else
    match woken with
    | some u =>
      if (s.calls u).enqueued then some (s.continue_ u ((s.calls u).awaken (.returned true)))
      else none
    | none => if ∀ u, (s.calls u).enqueued = false then some s else none

/-- The next operation of a `signal`. -/
def next_of_signal [Fintype τ] (s : State τ L) (t : τ) (signal : Signal τ) (woken : Option τ) :
    Option (State τ L) :=
  match signal.place with
  | .constructing_internal_lock =>
    if s.internal = none then
      some ((s.lock_internal t).continue_ t (.signalling { signal with
        internal_lock := some .constructed
        place := .notifying }))
    else none
  | .notifying =>
    (s.notify signal.broadcast woken).map fun s =>
      s.continue_ t (.signalling { signal with place := .destructing (.returned true) })
  | .destructing _ =>
    match signal.internal_lock with
    | some guard =>
      some ((if guard.owns then s.unlock_internal else s).continue_ t
        (.signalling { signal with internal_lock := none }))
    | none => some (s.continue_ t .outside)

/-- A constructor throws before it locks or unlocks, or the inner condition variable before it
    enqueues. -/
def throw (s : State τ L) (t : τ) : Option (State τ L) :=
  match s.calls t with
  | .waiting wait =>
    match wait.place with
    | .constructing_internal_lock | .constructing_external_unlock | .calling_condvar =>
      some (s.continue_ t (.waiting { wait with place := .destructing .thrown }))
    | _ => none
  | .signalling signal =>
    match signal.place with
    | .constructing_internal_lock =>
      some (s.continue_ t (.signalling { signal with place := .destructing .thrown }))
    | _ => none
  | _ => none

/-- An awakening without a notification. Only a `timed_wait` times out. -/
def wake (s : State τ L) (t : τ) (outcome : Outcome) : Option (State τ L) :=
  match s.calls t with
  | .waiting wait =>
    if wait.place = .enqueued ∧ (outcome = .returned false → wait.timed) then
      some (s.continue_ t (.waiting { wait with place := .awakened outcome }))
    else none
  | _ => none

end State

variable [Fintype τ]

/-- One operation of one thread. `grants` says whether the external locks, held as they are,
    let a thread have one of them. A wait is called with an external lock that the thread holds. -/
def step (grants : (L → τ → Bool) → L → τ → Bool) (s : State τ L) :
    Label τ L → Option (State τ L)
  | .lock t lock =>
    match s.calls t with
    | .outside => if s.holds lock t then none else some (s.continue_ t (.locking lock))
    | _ => none
  | .unlock t lock =>
    match s.calls t with
    | .outside => if s.holds lock t then some (s.unlock_external t lock) else none
    | _ => none
  | .wait t lock timed =>
    match s.calls t with
    | .outside =>
      if s.holds lock t then
        some { s.continue_ t (.waiting ⟨lock, timed, none, none, none, .constructing_internal_lock⟩)
          with waits := Function.update s.waits t (s.waits t + 1) }
      else none
    | _ => none
  | .signal t broadcast =>
    match s.calls t with
    | .outside =>
      some (s.continue_ t
        (.signalling ⟨broadcast, none, .constructing_internal_lock, s.released_wait⟩))
    | _ => none
  | .next t woken =>
    match s.calls t with
    | .outside => none
    | .locking lock =>
      if grants s.holds lock t then some ((s.lock_external t lock).continue_ t .outside) else none
    | .waiting wait => s.next_of_wait grants t wait
    | .signalling signal => s.next_of_signal t signal woken
  | .throw t => s.throw t
  | .wake t outcome => s.wake t outcome

end Steps

/-- A wait of a thread is over, or its call of the inner condition variable is not asleep any
    more. -/
def Awakened (s : State τ L) (t : τ) (number : Nat) : Prop :=
  number < s.waits t ∨ ∀ wait, s.calls t = .waiting wait →
    ∃ outcome, wait.place = .awakened outcome ∨ wait.place = .destructing outcome

/-- The next operation of a thread is to acquire an external lock. -/
def WaitsForExternal (s : State τ L) (t : τ) : Prop :=
  (∃ lock, s.calls t = .locking lock) ∨
    ∃ wait outcome guard, s.calls t = .waiting wait ∧ wait.place = .destructing outcome ∧
      wait.internal_unlock = none ∧ wait.external_unlock = some guard ∧ guard.owns = true

/-- A `signal` finds those who released an external lock before it enqueued or awakened, can
    always notify, and awakens them all if it is to, no thread waits for an external lock with the internal
    mutex, and a call of a wait ends with its external lock and without the internal mutex. -/
structure Sound [DecidableEq τ] [DecidableEq L] [Fintype τ]
    (grants : (L → τ → Bool) → L → τ → Bool) (s : State τ L) : Prop where
  found : ∀ n signal t number, s.calls n = .signalling signal → signal.place = .notifying →
    signal.released t = some number → (s.calls t).enqueued = true ∨ Awakened s t number
  notifies : ∀ n signal, s.calls n = .signalling signal → signal.place = .notifying →
    ∃ woken s', step grants s (.next n woken) = some s'
  notified : ∀ n signal woken s', s.calls n = .signalling signal → signal.place = .notifying →
    signal.broadcast = true → step grants s (.next n woken) = some s' →
    (∀ t wait, s.calls t = .waiting wait → wait.place = .enqueued →
      s'.calls t = .waiting { wait with place := .awakened (.returned true) }) ∧
      ∀ t number, signal.released t = some number → Awakened s' t number
  ordered : ∀ t, WaitsForExternal s t → s.internal ≠ some t
  ended : ∀ t wait a s', s.calls t = .waiting wait → step grants s a = some s' →
    (∀ wait', s'.calls t ≠ .waiting wait') → s'.holds wait.lock t = true ∧ s'.internal ≠ some t

end interprocess.ipcdetail.condition_any_algorithm
