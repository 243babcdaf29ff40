import Interprocess.Base.Count
import Interprocess.Sync.UpgradableMutex.Operations

namespace interprocess.lock_guards

open interprocess_upgradable_mutex Count

/-- The ownership of an upgradable mutex that a guard of a kind has. -/
def ownership : Kind → Ownership
  | .exclusive => .exclusive
  | .upgradable => .upgradable
  | .sharable => .sharable

/-- A `scoped_lock`, an `upgradable_lock` or a `sharable_lock`. -/
structure Guard (M : Type) where
  kind : Kind
  mp_mutex : Option M
  m_locked : Bool

namespace Guard

variable {M : Type}

def owns (g : Guard M) : Bool :=
  g.m_locked && g.mp_mutex.isSome

/-- The guard that `release` leaves behind. -/
def release (g : Guard M) : Guard M :=
  { g with mp_mutex := none, m_locked := false }

def default_constructed (kind : Kind) : Guard M :=
  ⟨kind, none, false⟩

end Guard

/-- The functions of a mutex that a guard locks with. -/
inductive Locking where
  | lock
  | try_lock
  | timed_lock

def Locking.op : Locking → Kind → Op
  | .lock, .exclusive => .lock
  | .lock, .upgradable => .lock_upgradable
  | .lock, .sharable => .lock_sharable
  | .try_lock, .exclusive => .try_lock
  | .try_lock, .upgradable => .try_lock_upgradable
  | .try_lock, .sharable => .try_lock_sharable
  | .timed_lock, .exclusive => .timed_lock
  | .timed_lock, .upgradable => .timed_lock_upgradable
  | .timed_lock, .sharable => .timed_lock_sharable

def unlock_op : Kind → Op
  | .exclusive => .unlock
  | .upgradable => .unlock_upgradable
  | .sharable => .unlock_sharable

/-- The constructors that take over the ownership of another kind of guard. -/
inductive Conversion where
  | scoped_of_upgradable
  | upgradable_of_scoped
  | sharable_of_upgradable
  | sharable_of_scoped

namespace Conversion

def source : Conversion → Kind
  | .scoped_of_upgradable | .sharable_of_upgradable => .upgradable
  | .upgradable_of_scoped | .sharable_of_scoped => .exclusive

def target : Conversion → Kind
  | .scoped_of_upgradable => .exclusive
  | .upgradable_of_scoped => .upgradable
  | .sharable_of_upgradable | .sharable_of_scoped => .sharable

def op : Conversion → Op
  | .scoped_of_upgradable => .unlock_upgradable_and_lock
  | .upgradable_of_scoped => .unlock_and_lock_upgradable
  | .sharable_of_upgradable => .unlock_upgradable_and_lock_sharable
  | .sharable_of_scoped => .unlock_and_lock_sharable

end Conversion

/-- The constructors that may fail to take over an ownership. -/
inductive TryConversion where
  | scoped_of_upgradable_try
  | scoped_of_upgradable_timed
  | scoped_of_sharable_try
  | upgradable_of_sharable_try

namespace TryConversion

def source : TryConversion → Kind
  | .scoped_of_upgradable_try | .scoped_of_upgradable_timed => .upgradable
  | .scoped_of_sharable_try | .upgradable_of_sharable_try => .sharable

def target : TryConversion → Kind
  | .upgradable_of_sharable_try => .upgradable
  | _ => .exclusive

def op : TryConversion → Op
  | .scoped_of_upgradable_try => .try_unlock_upgradable_and_lock
  | .scoped_of_upgradable_timed => .timed_unlock_upgradable_and_lock
  | .scoped_of_sharable_try => .try_unlock_sharable_and_lock
  | .upgradable_of_sharable_try => .try_unlock_sharable_and_lock_upgradable

end TryConversion

/-- The end of a call of the mutex that does not wait any more. -/
def ended : control_word_t × Outcome → Option (control_word_t × Result)
  | (c, .done _ result) => some (c, result)
  | (_, .wait _) => none

/-- A call of a mutex that nobody else uses meanwhile. One that waits only ends when
    its time is out or the wait throws. -/
def perform (c : control_word_t) (op : Op) (how : WaitEnd) : Option (control_word_t × Result) :=
  match op.enter c with
  | (c, .done _ result) => some (c, result)
  | (c, .wait (.first_gate kind timed)) =>
    if how = .thrown ∨ how = .timed_out ∧ timed then ended (after_first_gate c kind timed how)
    else none
  | (c, .wait (.second_gate rollback timed)) =>
    if how = .thrown ∨ how = .timed_out ∧ timed then ended (after_second_gate c rollback timed how)
    else none
  | (_, .wait .idle) => none

/-- The mutexes with the guards. `released` counts the ownerships that a guard has
    released and no other guard has accepted yet. -/
structure State (M G : Type) where
  ctrl : M → control_word_t
  guards : G → Option (Guard M)
  released : M → Kind → Nat

/-- What an operation on guards returns or throws. -/
inductive Answer where
  | returned (value : Bool)
  | lock_exception
  | mutex_exception
  deriving DecidableEq

/-- The answer, and the functions of mutexes that were called. -/
structure Report (M : Type) where
  answer : Answer
  calls : List (M × Op)

namespace State

variable {M G : Type} [DecidableEq M] [DecidableEq G]

def set (s : State M G) (g : G) (guard : Option (Guard M)) : State M G :=
  { s with guards := Function.update s.guards g guard }

/-- A function of a mutex is called. -/
def mutex_call (s : State M G) (m : M) (op : Op) (how : WaitEnd) : Option (State M G × Result) :=
  (perform (s.ctrl m) op how).map fun r =>
    ({ s with ctrl := Function.update s.ctrl m r.1 }, r.2)

/-- A guard is left with what its mutex answered, if it did not throw. -/
def lock_with (s : State M G) (g : G) (kind : Kind) (m : M) (locking : Locking) (how : WaitEnd) :
    Option (State M G × Report M) :=
  (s.mutex_call m (locking.op kind) how).map fun (s, result) =>
    match result with
    | .acquired => (s.set g (some ⟨kind, some m, true⟩), ⟨.returned true, [(m, locking.op kind)]⟩)
    | .failed => (s.set g (some ⟨kind, some m, false⟩), ⟨.returned false, [(m, locking.op kind)]⟩)
    | .thrown => (s, ⟨.mutex_exception, [(m, locking.op kind)]⟩)

/-- `lock`, `try_lock` and `timed_lock` of a guard. -/
def lock (s : State M G) (g : G) (locking : Locking) (how : WaitEnd) :
    Option (State M G × Report M) :=
  match s.guards g with
  | none => none
  | some u =>
    match u.m_locked, u.mp_mutex with
    | false, some m => s.lock_with g u.kind m locking how
    | _, _ => some (s, ⟨.lock_exception, []⟩)

def unlock (s : State M G) (g : G) : Option (State M G × Report M) :=
  match s.guards g with
  | none => none
  | some u =>
    match u.m_locked, u.mp_mutex with
    | true, some m =>
      (s.mutex_call m (unlock_op u.kind) .woken).map fun (s, _) =>
        (s.set g (some { u with m_locked := false }), ⟨.returned true, [(m, unlock_op u.kind)]⟩)
    | _, _ => some (s, ⟨.lock_exception, []⟩)

/-- The constructors from another guard of the same kind. -/
def move_construct (s : State M G) (g source : G) : Option (State M G × Report M) :=
  (s.guards source).map fun scop =>
    ((s.set source (some scop.release)).set g (some ⟨scop.kind, scop.mp_mutex, scop.owns⟩),
      ⟨.returned scop.owns, []⟩)

/-- `operator=`, also from the guard itself. -/
def move_assign (s : State M G) (g source : G) : Option (State M G × Report M) :=
  match s.guards g with
  | none => none
  | some this =>
    (if this.owns then s.unlock g else some (s, ⟨.returned true, []⟩)).bind fun (s, report) =>
      (s.guards source).map fun scop =>
        ((s.set source (some scop.release)).set g (some ⟨this.kind, scop.mp_mutex, scop.owns⟩),
          ⟨.returned scop.owns, report.calls⟩)

def convert (s : State M G) (g source : G) (conversion : Conversion) (how : WaitEnd) :
    Option (State M G × Report M) :=
  match s.guards source with
  | none => none
  | some u =>
    match u.m_locked, u.mp_mutex with
    | true, some m =>
      (s.mutex_call m conversion.op how).map fun (s, result) =>
        match result with
        | .thrown => (s, ⟨.mutex_exception, [(m, conversion.op)]⟩)
        | _ =>
          ((s.set source (some u.release)).set g (some ⟨conversion.target, some m, true⟩),
            ⟨.returned true, [(m, conversion.op)]⟩)
    | _, _ =>
      some ((s.set source (some u.release)).set g (some ⟨conversion.target, u.mp_mutex, false⟩),
        ⟨.returned false, []⟩)

/-- The mutex of a source that does not own is released and not taken over. -/
def try_convert (s : State M G) (g source : G) (conversion : TryConversion) (how : WaitEnd) :
    Option (State M G × Report M) :=
  match s.guards source with
  | none => none
  | some u =>
    match u.m_locked, u.mp_mutex with
    | true, some m =>
      (s.mutex_call m conversion.op how).map fun (s, result) =>
        match result with
        | .acquired =>
          ((s.set source (some u.release)).set g (some ⟨conversion.target, some m, true⟩),
            ⟨.returned true, [(m, conversion.op)]⟩)
        | .failed =>
          (s.set g (some (.default_constructed conversion.target)),
            ⟨.returned false, [(m, conversion.op)]⟩)
        | .thrown => (s, ⟨.mutex_exception, [(m, conversion.op)]⟩)
    | _, _ =>
      some ((s.set source (some u.release)).set g
        (some (.default_constructed conversion.target)), ⟨.returned false, []⟩)

def swap (s : State M G) (g other : G) : Option (State M G × Report M) :=
  some ((s.set g (s.guards other)).set other (s.guards g), ⟨.returned true, []⟩)

/-- An ownership that is released waits to be accepted. -/
def release (s : State M G) (g : G) : Option (State M G × Report M) :=
  (s.guards g).map fun u =>
    let s := s.set g (some u.release)
    match u.m_locked, u.mp_mutex with
    | true, some m =>
      ({ s with
          released := Function.update s.released m
            (Function.update (s.released m) u.kind (s.released m u.kind + 1)) },
        ⟨.returned true, []⟩)
    | _, _ => (s, ⟨.returned false, []⟩)

/-- The constructor with `accept_ownership`. -/
def accept (s : State M G) (g : G) (kind : Kind) (m : M) : State M G × Report M :=
  ({ s.set g (some ⟨kind, some m, true⟩) with
      released := Function.update s.released m
        (Function.update (s.released m) kind (s.released m kind - 1)) },
    ⟨.returned true, []⟩)

/-- The destructor. -/
def destroy (s : State M G) (g : G) : Option (State M G × Report M) :=
  match s.guards g with
  | none => none
  | some u =>
    if u.owns then (s.unlock g).map fun (s, report) => (s.set g none, report)
    else some (s.set g none, ⟨.returned true, []⟩)

end State

inductive GuardOp (M G : Type) where
  | construct (g : G) (kind : Kind)
  | construct_lock (g : G) (kind : Kind) (m : M) (locking : Locking) (how : WaitEnd)
  | construct_defer (g : G) (kind : Kind) (m : M)
  | construct_accept (g : G) (kind : Kind) (m : M)
  | move_construct (g source : G)
  | convert (g source : G) (conversion : Conversion) (how : WaitEnd)
  | try_convert (g source : G) (conversion : TryConversion) (how : WaitEnd)
  | move_assign (g source : G)
  | lock (g : G) (locking : Locking) (how : WaitEnd)
  | unlock (g : G)
  | swap (g other : G)
  | release (g : G)
  | destroy (g : G)

variable {M G : Type} [DecidableEq M] [DecidableEq G]

def call (s : State M G) : GuardOp M G → Option (State M G × Report M)
  | .construct g kind => some (s.set g (some (.default_constructed kind)), ⟨.returned true, []⟩)
  | .construct_lock g kind m locking how => s.lock_with g kind m locking how
  | .construct_defer g kind m => some (s.set g (some ⟨kind, some m, false⟩), ⟨.returned true, []⟩)
  | .construct_accept g kind m => some (s.accept g kind m)
  | .move_construct g source => s.move_construct g source
  | .convert g source conversion how => s.convert g source conversion how
  | .try_convert g source conversion how => s.try_convert g source conversion how
  | .move_assign g source => s.move_assign g source
  | .lock g locking how => s.lock g locking how
  | .unlock g => s.unlock g
  | .swap g other => s.swap g other
  | .release g => s.release g
  | .destroy g => s.destroy g

def step (s : State M G) (op : GuardOp M G) : State M G :=
  match call s op with
  | none => s
  | some (t, _) => t

/-- No guard yet, and mutexes that nobody owns. -/
def start : State M G where
  ctrl := fun _ => ⟨false, false, 0⟩
  guards := fun _ => none
  released := fun _ _ => 0

def Exists (s : State M G) (g : G) (kind : Kind) : Prop :=
  ∃ u, s.guards g = some u ∧ u.kind = kind

/-- Objects are constructed where there is none and used where there is one of the kind,
    and only released ownerships are accepted. -/
def Wellformed (s : State M G) : GuardOp M G → Prop
  | .construct g _ => s.guards g = none
  | .construct_lock g _ _ _ _ => s.guards g = none
  | .construct_defer g _ _ => s.guards g = none
  | .construct_accept g kind m => s.guards g = none ∧ 0 < s.released m kind
  | .move_construct g source => s.guards g = none ∧ ∃ kind, Exists s source kind
  | .convert g source conversion _ => s.guards g = none ∧ Exists s source conversion.source
  | .try_convert g source conversion _ => s.guards g = none ∧ Exists s source conversion.source
  | .move_assign g source => ∃ kind, Exists s g kind ∧ Exists s source kind
  | .lock g _ _ => ∃ kind, Exists s g kind
  | .unlock g => ∃ kind, Exists s g kind
  | .swap g other => ∃ kind, Exists s g kind ∧ Exists s other kind
  | .release g => ∃ kind, Exists s g kind
  | .destroy g => ∃ kind, Exists s g kind

/-- The operation is well formed and returns. -/
def Legal (s : State M G) (op : GuardOp M G) : Prop :=
  Wellformed s op ∧ call s op ≠ none

/-- The owners of a kind that a mutex has. -/
def owners (c : control_word_t) : Kind → Nat
  | .exclusive => c.exclusive_in.toNat
  | .upgradable => c.upgradable_in.toNat
  | .sharable => c.num_upr_shar - c.upgradable_in.toNat

/-- What a guard object holds of a mutex. -/
def holding (guard : Option (Guard M)) (m : M) : Ownership :=
  match guard with
  | none => .none
  | some u => if u.owns ∧ u.mp_mutex = some m then ownership u.kind else .none

/-- The guards that own a mutex in a way. -/
def owning [Fintype G] (s : State M G) (m : M) (kind : Kind) : Nat :=
  count (fun guard => decide (holding guard m = ownership kind)) s.guards

/-- Every ownership of a mutex is the one of a guard, or was released. -/
def Conserved [Fintype G] (s : State M G) : Prop :=
  ∀ m kind, owners (s.ctrl m) kind = owning s m kind + s.released m kind

/-- The guard whose ownership an operation uses. -/
def GuardOp.subject : GuardOp M G → G
  | .construct g _ | .construct_lock g _ _ _ _ | .construct_defer g _ _ => g
  | .construct_accept g _ _ => g
  | .move_construct _ source | .convert _ source _ _ | .try_convert _ source _ _ => source
  | .move_assign g _ | .lock g _ _ | .unlock g | .swap g _ | .release g | .destroy g => g

/-- The guards of a transfer: the one that gets the mutex and the one that had it. -/
def GuardOp.transfer : GuardOp M G → Option (G × G)
  | .move_construct g source | .convert g source _ _ | .try_convert g source _ _ => some (g, source)
  | .move_assign g source => some (g, source)
  | _ => none

/-- Ownership is conserved, mutexes are only unlocked for guards that own them and none
    stays owned without a guard, failed promotions change no guard, and a guard that does
    not own hands over its mutex. -/
structure Sound [Fintype G] (s : State M G) (op : GuardOp M G) : Prop where
  conserved : Conserved (step s op)
  called : ∀ t report, call s op = some (t, report) → ∀ m o, (m, o) ∈ report.calls →
    o.requires ≠ .none → holding (s.guards op.subject) m = o.requires
  abandoned : (∀ g, (step s op).guards g = none) → (∀ m kind, (step s op).released m kind = 0) →
    ∀ m kind, owners ((step s op).ctrl m) kind = 0
  failed : ∀ g source conversion how u t report, op = .try_convert g source conversion how →
    s.guards source = some u → u.owns = true → call s op = some (t, report) →
    report.answer ≠ .returned true → t.guards source = some u ∧
      (report.answer = .returned false →
        t.guards g = some (.default_constructed conversion.target))
  moved : ∀ g source u, op.transfer = some (g, source) → s.guards source = some u →
    u.owns = false → (∃ v, (step s op).guards g = some v ∧ v.mp_mutex = u.mp_mutex ∧
      v.owns = false) ∧ (source ≠ g → (step s op).guards source = some u.release)

/-- A promotion that may fail is from a guard that owns, or refers to no mutex. -/
def Meets (s : State M G) : GuardOp M G → Prop
  | .try_convert _ source _ _ => ∀ u, s.guards source = some u → u.owns = false → u.mp_mutex = none
  | _ => True

end interprocess.lock_guards
