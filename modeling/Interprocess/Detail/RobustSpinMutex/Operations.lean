import Mathlib.Logic.Function.Basic

namespace interprocess.robust_spin_mutex

/-- The values of the word `state`. -/
inductive RecoveryState where
  | correct_state
  | fixing_state
  | broken_state
  deriving DecidableEq

/-- The calls that attempt to lock. They all repeat `try_lock`, until it
    succeeds, not at all, or until the time point. -/
inductive Call where
  | lock
  | try_lock
  | timed_lock
  deriving DecidableEq

/-- The next access of a process. `mtx` is a `spin_mutex`, whose `take_ownership`
    does nothing, so the write of the fixing state follows the swap. -/
inductive Place (π : Type) where
  | outside
  | read_state (call : Call)
  | lock_own_unique_file (call : Call)
  | mtx_try_lock (call : Call)
  | write_owner
  | read_owner (call : Call)
  | is_owner_dead (call : Call) (old_owner : Option π)
  | cas_owner (call : Call) (old_owner : Option π)
  | write_fixing
  | holding
  | consistent_state (held : Bool)
  | consistent_owner (held : Bool)
  | consistent_write (held : Bool)
  | unlock_state
  | write_broken
  | clear_owner
  | mtx_unlock
  deriving DecidableEq

namespace Place

variable {π : Type}

/-- Where `consistent` returns to. -/
def back (held : Bool) : Place π :=
  if held then .holding else .outside

/-- Between a successful lock and the matching unlock. -/
def inside : Place π → Bool
  | .holding => true
  | .consistent_state held | .consistent_owner held | .consistent_write held => held
  | _ => false

/-- From the acquisition of the inner mutex, or of a dead owner's place, to the
    release of the inner mutex. -/
def acquired : Place π → Bool
  | .write_owner | .write_fixing | .holding => true
  | .consistent_state held | .consistent_owner held | .consistent_write held => held
  | .unlock_state | .write_broken | .clear_owner | .mtx_unlock => true
  | _ => false

/-- The parts of that range in which the id of the process is in `owner`. -/
def recorded : Place π → Bool
  | .write_owner | .mtx_unlock => false
  | place => place.acquired

/-- About to swap its own id for the invalid one. -/
def swaps_invalid : Place π → Bool
  | .cas_owner _ none => true
  | _ => false

end Place

/-- The shared words and the processes. An invalid owner is `none`. What follows
    `place` is history: whether the last call threw, whether a process died
    after it acquired the mutex and nobody has locked it since, and who locked it
    after such a death and has neither repaired nor released it. -/
structure State (π : Type) where
  mtx : Bool
  owner : Option π
  state : RecoveryState
  alive : π → Bool
  place : π → Place π
  threw : π → Bool
  orphaned : Bool
  fixer : Option π

inductive Op where
  | lock (call : Call)
  | unlock
  | consistent
  deriving DecidableEq

/-- A call, the next access of a process, or the death of a process. The choice
    decides whether the lock file could be locked and whether the time point of a
    timed lock is still ahead. -/
inductive Label (π : Type) where
  | call (p : π) (op : Op)
  | access (p : π) (choice : Bool)
  | die (p : π)

section Steps

variable {π : Type} [DecidableEq π]

def State.goto (s : State π) (p : π) (place : Place π) : State π :=
  { s with place := Function.update s.place p place }

/-- The call of a process returns. -/
def State.returns (s : State π) (p : π) (place : Place π) (threw : Bool) : State π :=
  { s with place := Function.update s.place p place, threw := Function.update s.threw p threw }

/-- The attempt of a process to lock succeeds. -/
def State.locks (s : State π) (p : π) : State π :=
  { s.returns p .holding false with
    orphaned := false, fixer := if s.orphaned then some p else s.fixer }

/-- The process does not have to repair any more. -/
def State.released_by (s : State π) (p : π) : Option π :=
  if s.fixer = some p then none else s.fixer

def is_owner_dead (s : State π) : Option π → Bool
  | none => true
  | some own => !s.alive own

/-- An attempt has returned `false`. -/
def State.attempt_failed (s : State π) (p : π) (choice : Bool) : Call → State π
  | .lock => s.goto p (.read_state .lock)
  | .try_lock => s.returns p .outside false
  | .timed_lock => if choice then s.goto p (.read_state .timed_lock) else s.returns p .outside false

/-- The attempt is at its check again, or over. -/
theorem State.attempt_failed_eq (s : State π) (p : π) (choice : Bool) (call : Call) :
    s.attempt_failed p choice call = s.goto p (.read_state call) ∨
      s.attempt_failed p choice call = s.returns p .outside false := by
  cases call with
  | lock => exact Or.inl rfl
  | try_lock => exact Or.inr rfl
  | timed_lock =>
    cases choice with
    | true => exact Or.inl rfl
    | false => exact Or.inr rfl

/-- The next access of a process. -/
def access (s : State π) (p : π) (choice : Bool) : Option (State π) :=
  match s.place p with
  | .outside | .holding => none
  | .read_state call =>
    if s.state = .broken_state then some (s.returns p .outside true)
    else some (s.goto p (.lock_own_unique_file call))
  | .lock_own_unique_file call =>
    if choice then some (s.goto p (.mtx_try_lock call)) else some (s.returns p .outside true)
  | .mtx_try_lock call =>
    if s.mtx then some (s.goto p (.read_owner call))
    else some { s.goto p .write_owner with mtx := true }
  | .write_owner => some { s.locks p with owner := some p }
  | .read_owner call => some (s.goto p (.is_owner_dead call s.owner))
  | .is_owner_dead call old_owner =>
    if is_owner_dead s old_owner then some (s.goto p (.cas_owner call old_owner))
    else some (s.attempt_failed p choice call)
  | .cas_owner call old_owner =>
    if s.owner = old_owner then some { s.goto p .write_fixing with owner := some p }
    else some (s.goto p (.is_owner_dead call s.owner))
  | .write_fixing => some { s.locks p with state := .fixing_state }
  | .consistent_state held =>
    if s.state = .fixing_state then some (s.goto p (.consistent_write held))
    else some (s.goto p (.consistent_owner held))
  | .consistent_owner held =>
    if s.owner = some p then some (s.goto p (.consistent_write held))
    else some (s.returns p (.back held) true)
  | .consistent_write held =>
    some { s.returns p (.back held) false with state := .correct_state, fixer := s.released_by p }
  | .unlock_state =>
    if s.state = .fixing_state then some (s.goto p .write_broken) else some (s.goto p .clear_owner)
  | .write_broken =>
    some { s.goto p .clear_owner with state := .broken_state, fixer := s.released_by p }
  | .clear_owner => some { s.goto p .mtx_unlock with owner := none }
  | .mtx_unlock => some { s.returns p .outside false with mtx := false }

/-- The start of a call. Only a holder unlocks. -/
def begin_call (s : State π) (p : π) : Op → Option (State π)
  | .lock call => if s.place p = .outside then some (s.goto p (.read_state call)) else none
  | .unlock => if s.place p = .holding then some (s.goto p .unlock_state) else none
  | .consistent =>
    if s.place p = .holding then some (s.goto p (.consistent_state true))
    else if s.place p = .outside then some (s.goto p (.consistent_state false))
    else none

def step (s : State π) : Label π → Option (State π)
  | .call p op => if s.alive p then begin_call s p op else none
  | .access p choice => if s.alive p then access s p choice else none
  | .die p =>
    some { s with
      alive := Function.update s.alive p false
      orphaned := s.orphaned || (s.alive p && (s.place p).acquired)
      fixer := s.released_by p }

/-- A new mutex. -/
def start : State π where
  mtx := false
  owner := none
  state := .correct_state
  alive := fun _ => true
  place := fun _ => .outside
  threw := fun _ => false
  orphaned := false
  fixer := none

end Steps

end interprocess.robust_spin_mutex
