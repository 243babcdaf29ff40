import Mathlib.Algebra.Group.Nat.Defs
import Mathlib.Logic.Function.Basic

namespace interprocess.interprocess_upgradable_mutex

/-- The packed control word. `num_upr_shar` is a bit-field of 30 bits, and
    `max_readers` is its largest value. -/
structure control_word_t where
  exclusive_in : Bool
  upgradable_in : Bool
  num_upr_shar : Nat
  deriving DecidableEq

def max_readers : Nat :=
  2 ^ 30 - 1

theorem max_readers_pos : 0 < max_readers := by
  decide

/-- `++num_upr_shar` on the bit-field. -/
def inc (num_upr_shar : Nat) : Nat :=
  if num_upr_shar = max_readers then 0 else num_upr_shar + 1

/-- `--num_upr_shar` on the bit-field. -/
def dec (num_upr_shar : Nat) : Nat :=
  if num_upr_shar = 0 then max_readers else num_upr_shar - 1

theorem inc_of_ne {num_upr_shar : Nat} (h : num_upr_shar ≠ max_readers) :
    inc num_upr_shar = num_upr_shar + 1 :=
  if_neg h

theorem dec_of_ne {num_upr_shar : Nat} (h : num_upr_shar ≠ 0) :
    dec num_upr_shar = num_upr_shar - 1 :=
  if_neg h

inductive Ownership where
  | none
  | sharable
  | upgradable
  | exclusive
  deriving DecidableEq

/-- The kinds of locking that block at the first gate. -/
inductive Kind where
  | exclusive
  | upgradable
  | sharable
  deriving DecidableEq

/-- The rollback object on the stack of a thread waiting at the second gate. -/
inductive Rollback where
  | exclusive_rollback
  | upgradable_to_exclusive_rollback
  deriving DecidableEq

/-- Where a thread stands: between calls, or in a condition wait of a call. -/
inductive Place where
  | idle
  | first_gate (kind : Kind) (timed : Bool)
  | second_gate (rollback : Rollback) (timed : Bool)
  deriving DecidableEq

/-- How a call ended. -/
inductive Result where
  | acquired
  | failed
  | thrown
  deriving DecidableEq

/-- Where a section under the internal mutex leaves its thread: the call ended,
    or it waits at a gate. -/
inductive Outcome where
  | done (owned : Ownership) (result : Result)
  | wait (place : Place)

/-- The conditions under which the three kinds block at the first gate. -/
def first_gate_closed (c : control_word_t) : Kind → Bool
  | .exclusive => c.exclusive_in || c.upgradable_in
  | .upgradable => c.exclusive_in || c.upgradable_in || c.num_upr_shar == max_readers
  | .sharable => c.exclusive_in || c.num_upr_shar == max_readers

/-- The wait until all readers are gone. -/
def pass_second_gate (c : control_word_t) (rollback : Rollback) (timed : Bool) :
    control_word_t × Outcome :=
  if c.num_upr_shar ≠ 0 then (c, .wait (.second_gate rollback timed))
  else (c, .done .exclusive .acquired)

/-- What follows the first gate. -/
def pass_first_gate (c : control_word_t) (timed : Bool) : Kind → control_word_t × Outcome
  | .exclusive => pass_second_gate { c with exclusive_in := true } .exclusive_rollback timed
  | .upgradable => ({ c with upgradable_in := true, num_upr_shar := inc c.num_upr_shar },
    .done .upgradable .acquired)
  | .sharable => ({ c with num_upr_shar := inc c.num_upr_shar }, .done .sharable .acquired)

/-- `lock`, `lock_upgradable`, `lock_sharable` and their timed variants once the
    internal mutex is locked. -/
def lock_kind (c : control_word_t) (kind : Kind) (timed : Bool) : control_word_t × Outcome :=
  if first_gate_closed c kind then (c, .wait (.first_gate kind timed))
  else pass_first_gate c timed kind

/-- `try_lock_upgradable` and `try_lock_sharable` once the internal mutex is
    locked. -/
def try_kind (c : control_word_t) (kind : Kind) : control_word_t × Outcome :=
  if first_gate_closed c kind then (c, .done .none .failed) else pass_first_gate c false kind

def lock (c : control_word_t) : control_word_t × Outcome :=
  lock_kind c .exclusive false

def timed_lock (c : control_word_t) : control_word_t × Outcome :=
  lock_kind c .exclusive true

def try_lock (c : control_word_t) : control_word_t × Outcome :=
  if c.exclusive_in || c.num_upr_shar != 0 then (c, .done .none .failed)
  else ({ c with exclusive_in := true }, .done .exclusive .acquired)

def unlock (c : control_word_t) : control_word_t × Outcome :=
  ({ c with exclusive_in := false }, .done .none .acquired)

def lock_upgradable (c : control_word_t) : control_word_t × Outcome :=
  lock_kind c .upgradable false

def timed_lock_upgradable (c : control_word_t) : control_word_t × Outcome :=
  lock_kind c .upgradable true

def try_lock_upgradable (c : control_word_t) : control_word_t × Outcome :=
  try_kind c .upgradable

def unlock_upgradable (c : control_word_t) : control_word_t × Outcome :=
  ({ c with upgradable_in := false, num_upr_shar := dec c.num_upr_shar }, .done .none .acquired)

def lock_sharable (c : control_word_t) : control_word_t × Outcome :=
  lock_kind c .sharable false

def timed_lock_sharable (c : control_word_t) : control_word_t × Outcome :=
  lock_kind c .sharable true

def try_lock_sharable (c : control_word_t) : control_word_t × Outcome :=
  try_kind c .sharable

def unlock_sharable (c : control_word_t) : control_word_t × Outcome :=
  ({ c with num_upr_shar := dec c.num_upr_shar }, .done .none .acquired)

def unlock_and_lock_upgradable (c : control_word_t) : control_word_t × Outcome :=
  ({ c with exclusive_in := false, upgradable_in := true, num_upr_shar := 1 },
    .done .upgradable .acquired)

def unlock_and_lock_sharable (c : control_word_t) : control_word_t × Outcome :=
  ({ c with exclusive_in := false, num_upr_shar := 1 }, .done .sharable .acquired)

def unlock_upgradable_and_lock_sharable (c : control_word_t) : control_word_t × Outcome :=
  ({ c with upgradable_in := false }, .done .sharable .acquired)

/-- The promotion of an upgradable owner that waits for the readers. -/
def promote (c : control_word_t) (timed : Bool) : control_word_t × Outcome :=
  pass_second_gate
    { c with upgradable_in := false, num_upr_shar := dec c.num_upr_shar, exclusive_in := true }
    .upgradable_to_exclusive_rollback timed

def unlock_upgradable_and_lock (c : control_word_t) : control_word_t × Outcome :=
  promote c false

def timed_unlock_upgradable_and_lock (c : control_word_t) : control_word_t × Outcome :=
  promote c true

def try_unlock_upgradable_and_lock (c : control_word_t) : control_word_t × Outcome :=
  if c.num_upr_shar != 1 then (c, .done .upgradable .failed)
  else
    ({ c with upgradable_in := false, num_upr_shar := dec c.num_upr_shar, exclusive_in := true },
      .done .exclusive .acquired)

def try_unlock_sharable_and_lock (c : control_word_t) : control_word_t × Outcome :=
  if c.exclusive_in || c.upgradable_in || c.num_upr_shar != 1 then (c, .done .sharable .failed)
  else ({ c with exclusive_in := true, num_upr_shar := 0 }, .done .exclusive .acquired)

def try_unlock_sharable_and_lock_upgradable (c : control_word_t) : control_word_t × Outcome :=
  if c.exclusive_in || c.upgradable_in then (c, .done .sharable .failed)
  else ({ c with upgradable_in := true }, .done .upgradable .acquired)

/-- The destructor of a rollback object that was not released. -/
def roll_back (c : control_word_t) : Rollback → control_word_t
  | .exclusive_rollback => { c with exclusive_in := false }
  | .upgradable_to_exclusive_rollback =>
    { c with upgradable_in := true, num_upr_shar := inc c.num_upr_shar, exclusive_in := false }

/-- The ownership a rollback leaves the caller with. -/
def Rollback.restores : Rollback → Ownership
  | .exclusive_rollback => .none
  | .upgradable_to_exclusive_rollback => .upgradable

/-- How a condition wait ends, with the internal mutex locked again. -/
inductive WaitEnd where
  | woken
  | timed_out
  | thrown
  deriving DecidableEq

/-- The section after a wait at the first gate. -/
def after_first_gate (c : control_word_t) (kind : Kind) (timed : Bool) :
    WaitEnd → control_word_t × Outcome
  | .woken => lock_kind c kind timed
  | .timed_out =>
    if first_gate_closed c kind then (c, .done .none .failed) else pass_first_gate c timed kind
  | .thrown => (c, .done .none .thrown)

/-- The section after a wait at the second gate. -/
def after_second_gate (c : control_word_t) (rollback : Rollback) (timed : Bool) :
    WaitEnd → control_word_t × Outcome
  | .woken => pass_second_gate c rollback timed
  | .timed_out =>
    if c.num_upr_shar ≠ 0 then (roll_back c rollback, .done rollback.restores .failed)
    else (c, .done .exclusive .acquired)
  | .thrown => (roll_back c rollback, .done rollback.restores .thrown)

inductive Op where
  | lock
  | try_lock
  | timed_lock
  | unlock
  | lock_upgradable
  | try_lock_upgradable
  | timed_lock_upgradable
  | unlock_upgradable
  | lock_sharable
  | try_lock_sharable
  | timed_lock_sharable
  | unlock_sharable
  | unlock_and_lock_upgradable
  | unlock_and_lock_sharable
  | unlock_upgradable_and_lock_sharable
  | unlock_upgradable_and_lock
  | try_unlock_upgradable_and_lock
  | timed_unlock_upgradable_and_lock
  | try_unlock_sharable_and_lock
  | try_unlock_sharable_and_lock_upgradable
  deriving DecidableEq

namespace Op

/-- The ownership an operation requires of its caller. -/
def requires : Op → Ownership
  | .lock | .try_lock | .timed_lock => .none
  | .lock_upgradable | .try_lock_upgradable | .timed_lock_upgradable => .none
  | .lock_sharable | .try_lock_sharable | .timed_lock_sharable => .none
  | .unlock | .unlock_and_lock_upgradable | .unlock_and_lock_sharable => .exclusive
  | .unlock_upgradable | .unlock_upgradable_and_lock_sharable => .upgradable
  | .unlock_upgradable_and_lock | .try_unlock_upgradable_and_lock => .upgradable
  | .timed_unlock_upgradable_and_lock => .upgradable
  | .unlock_sharable | .try_unlock_sharable_and_lock => .sharable
  | .try_unlock_sharable_and_lock_upgradable => .sharable

/-- What a call reports when it does not get the internal mutex: the try and
    timed variants return `false`, the others throw. -/
def entry_failure : Op → Result
  | .try_lock | .timed_lock | .try_lock_upgradable | .timed_lock_upgradable => .failed
  | .try_lock_sharable | .timed_lock_sharable | .try_unlock_upgradable_and_lock => .failed
  | .timed_unlock_upgradable_and_lock | .try_unlock_sharable_and_lock => .failed
  | .try_unlock_sharable_and_lock_upgradable => .failed
  | _ => .thrown

/-- The first section of a call under the internal mutex. -/
def enter (c : control_word_t) : Op → control_word_t × Outcome
  | .lock => interprocess_upgradable_mutex.lock c
  | .try_lock => interprocess_upgradable_mutex.try_lock c
  | .timed_lock => interprocess_upgradable_mutex.timed_lock c
  | .unlock => interprocess_upgradable_mutex.unlock c
  | .lock_upgradable => interprocess_upgradable_mutex.lock_upgradable c
  | .try_lock_upgradable => interprocess_upgradable_mutex.try_lock_upgradable c
  | .timed_lock_upgradable => interprocess_upgradable_mutex.timed_lock_upgradable c
  | .unlock_upgradable => interprocess_upgradable_mutex.unlock_upgradable c
  | .lock_sharable => interprocess_upgradable_mutex.lock_sharable c
  | .try_lock_sharable => interprocess_upgradable_mutex.try_lock_sharable c
  | .timed_lock_sharable => interprocess_upgradable_mutex.timed_lock_sharable c
  | .unlock_sharable => interprocess_upgradable_mutex.unlock_sharable c
  | .unlock_and_lock_upgradable => interprocess_upgradable_mutex.unlock_and_lock_upgradable c
  | .unlock_and_lock_sharable => interprocess_upgradable_mutex.unlock_and_lock_sharable c
  | .unlock_upgradable_and_lock_sharable =>
    interprocess_upgradable_mutex.unlock_upgradable_and_lock_sharable c
  | .unlock_upgradable_and_lock => interprocess_upgradable_mutex.unlock_upgradable_and_lock c
  | .try_unlock_upgradable_and_lock => interprocess_upgradable_mutex.try_unlock_upgradable_and_lock c
  | .timed_unlock_upgradable_and_lock =>
    interprocess_upgradable_mutex.timed_unlock_upgradable_and_lock c
  | .try_unlock_sharable_and_lock => interprocess_upgradable_mutex.try_unlock_sharable_and_lock c
  | .try_unlock_sharable_and_lock_upgradable =>
    interprocess_upgradable_mutex.try_unlock_sharable_and_lock_upgradable c

end Op

/-- A thread: what it owns, where it stands, what it owned when its last call
    began and how that call ended. -/
structure Thread where
  owned : Ownership
  place : Place
  before : Ownership
  result : Option Result
  deriving DecidableEq

/-- A thread that has not called anything yet. -/
def Thread.outside : Thread where
  owned := .none
  place := .idle
  before := .none
  result := none

/-- The thread after a section. A thread that waits at a gate owns nothing. -/
def Thread.advance (th : Thread) : Outcome → Thread
  | .done owned result => { th with owned := owned, place := .idle, result := some result }
  | .wait place => { th with owned := .none, place := place, result := none }

structure State (τ : Type) where
  m_ctrl : control_word_t
  threads : τ → Thread

inductive Label (τ : Type) where
  | call (t : τ) (op : Op) (mutex_locked : Bool)
  | wait_end (t : τ) (how : WaitEnd)

/-- One step: the first section of a call whose caller has the ownership it
    requires, or the section after a condition wait. Notifications only permit
    wake-ups, and a waiting thread may wake at any time. -/
def step {τ : Type} [DecidableEq τ] (s : State τ) : Label τ → Option (State τ)
  | .call t op mutex_locked =>
    let th := s.threads t
    if th.place = .idle ∧ th.owned = op.requires then
      let begun := { th with before := th.owned }
      if mutex_locked then
        let r := op.enter s.m_ctrl
        some { m_ctrl := r.1, threads := Function.update s.threads t (begun.advance r.2) }
      else
        some { s with
          threads := Function.update s.threads t (begun.advance (.done th.owned op.entry_failure)) }
    else none
  | .wait_end t how =>
    let th := s.threads t
    match th.place with
    | .idle => none
    | .first_gate kind timed =>
      if how = .timed_out ∧ timed = false then none
      else
        let r := after_first_gate s.m_ctrl kind timed how
        some { m_ctrl := r.1, threads := Function.update s.threads t (th.advance r.2) }
    | .second_gate rollback timed =>
      if how = .timed_out ∧ timed = false then none
      else
        let r := after_second_gate s.m_ctrl rollback timed how
        some { m_ctrl := r.1, threads := Function.update s.threads t (th.advance r.2) }

/-- A new mutex that nobody owns. -/
def start {τ : Type} : State τ where
  m_ctrl := { exclusive_in := false, upgradable_in := false, num_upr_shar := 0 }
  threads := fun _ => Thread.outside

end interprocess.interprocess_upgradable_mutex
