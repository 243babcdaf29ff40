import Interprocess.Base.Transition
import Interprocess.Sync.ConditionAny.Operations

namespace interprocess.ipcdetail.condition_any_algorithm

open Transition scoped_lock

variable {τ L : Type}

/-- The guards `internal_lock`, `external_unlock` and `internal_unlock` of a wait where it is. -/
inductive Guarded :
    Place → Option scoped_lock → Option scoped_lock → Option scoped_lock → Prop where
  | entered : Guarded .constructing_internal_lock none none none
  | locked : Guarded .constructing_external_unlock (some constructed) none none
  | released : Guarded .swapping (some constructed) (some constructed) none
  | swapped : Guarded .calling_condvar (some default_constructed) (some constructed)
      (some constructed)
  | enqueued : Guarded .enqueued (some default_constructed) (some constructed) (some constructed)
  | awakened (outcome : Outcome) : Guarded (.awakened outcome) (some default_constructed)
      (some constructed) (some constructed)
  | ended (outcome : Outcome) : Guarded (.destructing outcome) (some default_constructed)
      (some constructed) (some constructed)
  | unlocked (outcome : Outcome) : Guarded (.destructing outcome) (some default_constructed)
      (some constructed) none
  | relocked (outcome : Outcome) : Guarded (.destructing outcome) (some default_constructed)
      none none
  | thrown (outcome : Outcome) : Guarded (.destructing outcome) (some constructed) none none
  | left (outcome : Outcome) : Guarded (.destructing outcome) none none none

inductive SignalGuarded : SignalPlace → Option scoped_lock → Prop where
  | entered : SignalGuarded .constructing_internal_lock none
  | locked : SignalGuarded .notifying (some constructed)
  | notified (outcome : Outcome) : SignalGuarded (.destructing outcome) (some constructed)
  | left (outcome : Outcome) : SignalGuarded (.destructing outcome) none

/-- The internal mutex is locked for a guard of the wait, except that the inner condition
    variable has unlocked it. -/
def Wait.holds_internal (wait : Wait L) : Bool :=
  match wait.place with
  | .enqueued | .awakened _ => false
  | _ => wait.internal_lock.any owns || wait.internal_unlock.any owns

def Call.holds_internal : Call τ L → Bool
  | .waiting wait => wait.holds_internal
  | .signalling signal => signal.internal_lock.any owns
  | _ => false

/-- A wait that has not released its external lock yet. -/
def Wait.Entering (wait : Wait L) : Prop :=
  wait.place = .constructing_internal_lock ∨ wait.place = .constructing_external_unlock

/-- What a thread that holds some external locks may be in. -/
def Local (held : L → Bool) : Call τ L → Prop
  | .waiting wait =>
    Guarded wait.place wait.internal_lock wait.external_unlock wait.internal_unlock ∧
      held wait.lock = !wait.released
  | .signalling signal => SignalGuarded signal.place signal.internal_lock
  | _ => True

/-- The recorded waits have released their external lock, and do not enter any more. -/
def Recorded (s : State τ L) (released : τ → Option Nat) : Prop :=
  ∀ t number, released t = some number → number ≤ s.waits t ∧
    (number = s.waits t → ∀ wait, s.calls t = .waiting wait → ¬ wait.Entering)

/-- The internal mutex is locked by the thread whose guards say so, and every thread is in a
    call that it may be in. -/
structure Inv (s : State τ L) : Prop where
  internal : ∀ t, (s.calls t).holds_internal = true ↔ s.internal = some t
  calls : ∀ t, Local (s.holds · t) (s.calls t)
  recorded : ∀ t signal, s.calls t = .signalling signal → Recorded s signal.released

theorem inv_start : Inv (start : State τ L) := by
  constructor
  · intro t
    constructor <;> exact nofun
  · intro t
    trivial
  · intro t signal hcall
    cases hcall

/-- How a thread may change the internal mutex: by whom it is locked, and whether the guards of
    the thread say that it has locked it, before and after. -/
inductive Passes (t : τ) : Option τ → Bool → Option τ → Bool → Prop where
  | kept (internal : Option τ) (held : Bool) : Passes t internal held internal held
  | locked : Passes t none false (some t) true
  | unlocked (internal : Option τ) : Passes t internal true none false

section Steps

variable [DecidableEq τ] [DecidableEq L] {s s' : State τ L} {t : τ} {call : Call τ L}
  {grants : (L → τ → Bool) → L → τ → Bool}

/-- What an operation of a thread on its own call does. -/
structure Moves (s s' : State τ L) (t : τ) (call : Call τ L) : Prop where
  calls : s'.calls = Function.update s.calls t call
  waits : s.waits t ≤ s'.waits t ∧ ∀ u, u ≠ t → s'.waits u = s.waits u
  holds : ∀ lock u, u ≠ t → s'.holds lock u = s.holds lock u
  internal : Passes t s.internal (s.calls t).holds_internal s'.internal call.holds_internal
  allowed : Local (s'.holds · t) call
  entering : ∀ wait, call = .waiting wait → wait.Entering → s.waits t < s'.waits t ∨
    ∃ before, s.calls t = .waiting before ∧ before.Entering
  recorded : ∀ signal, call = .signalling signal → Recorded s signal.released

omit [DecidableEq L] in
theorem Recorded.move {released : τ → Option Nat} (hrecorded : Recorded s released)
    (hmoves : Moves s s' t call) : Recorded s' released := by
  intro u number hu
  obtain ⟨hle, hentered⟩ := hrecorded u number hu
  by_cases hut : u = t
  · subst hut
    refine ⟨hle.trans hmoves.waits.1, ?_⟩
    intro heq wait hwait hentering
    rw [hmoves.calls, Function.update_self] at hwait
    rcases hmoves.entering wait hwait hentering with hmore | ⟨before, hbefore, hbefore_entering⟩
    · omega
    · have hwaits := hmoves.waits.1
      exact hentered (by omega) before hbefore hbefore_entering
  · rw [hmoves.waits.2 u hut, hmoves.calls, Function.update_of_ne hut]
    exact ⟨hle, hentered⟩

omit [DecidableEq L] in
theorem Inv.move (hinv : Inv s) (hmoves : Moves s s' t call) : Inv s' := by
  constructor
  · intro u
    have hthread := hinv.internal t
    have hother := hinv.internal u
    have hinternal := hmoves.internal
    rw [hmoves.calls]
    by_cases hut : u = t
    · subst hut
      rw [Function.update_self]
      generalize s.internal = internal, s'.internal = internal', (s.calls u).holds_internal = held,
        call.holds_internal = held' at hinternal hthread
      cases hinternal with
      | kept => exact hthread
      | locked => simp
      | unlocked => simp
    · rw [Function.update_of_ne hut]
      generalize s.internal = internal, s'.internal = internal', (s.calls t).holds_internal = held,
        call.holds_internal = held' at hinternal hthread hother
      cases hinternal with
      | kept => exact hother
      | locked =>
        rw [hother]
        simp [Ne.symm hut]
      | unlocked =>
        rw [hother, hthread.mp rfl]
        simp [Ne.symm hut]
  · intro u
    rw [hmoves.calls]
    by_cases hut : u = t
    · subst hut
      rw [Function.update_self]
      exact hmoves.allowed
    · rw [Function.update_of_ne hut]
      have hholds : (s'.holds · u) = (s.holds · u) := funext fun lock => hmoves.holds lock u hut
      rw [hholds]
      exact hinv.calls u
  · intro u signal hu
    rw [hmoves.calls] at hu
    by_cases hut : u = t
    · subst hut
      rw [Function.update_self] at hu
      exact (hmoves.recorded signal hu).move hmoves
    · rw [Function.update_of_ne hut] at hu
      exact (hinv.recorded u signal hu).move hmoves

end Steps

end interprocess.ipcdetail.condition_any_algorithm
