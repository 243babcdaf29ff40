import Mathlib.Algebra.Ring.Nat
import Mathlib.Data.Fintype.Basic

namespace interprocess.smart_ptr

/-- The largest value of a `boost::uint32_t`. -/
def uint32_max : Nat :=
  2 ^ 32 - 1

/-- `atomic_inc32`. -/
def atomic_inc32 (n : Nat) : Nat :=
  if n = uint32_max then 0 else n + 1

/-- `atomic_dec32`. -/
def atomic_dec32 (n : Nat) : Nat :=
  if n = 0 then uint32_max else n - 1

/-- What is left to do of an operation, one constructor for each access to the
    control block and each write of the finished value to a smart pointer. -/
inductive Code (ι : Type) where
  | done
  | add_ref_copy (next : Code ι)
  | release (next : Code ι)
  | dispose (next : Code ι)
  | weak_add_ref (next : Code ι)
  | weak_release (next : Code ι)
  | destroy (next : Code ι)
  | expired (yes no : Code ι)
  | add_ref_lock (locked failed : Code ι)
  | atomic_cas32 (tmp : Nat) (locked failed : Code ι)
  | store_shared (i : ι) (m_pi : Bool) (next : Code ι)
  | store_weak (i : ι) (m_pi : Bool) (next : Code ι)
  | store_vacant (i : ι) (next : Code ι)

/-- A place for a smart pointer: raw storage, a `shared_ptr` or `weak_ptr` that
    does or does not refer to the control block, or one that a thread is
    writing. -/
inductive Obj (τ : Type) where
  | vacant
  | shared (m_pi : Bool)
  | weak (m_pi : Bool)
  | busy (t : τ)
  deriving DecidableEq

namespace Obj

def owners {τ : Type} : Obj τ → Nat
  | .shared m_pi => m_pi.toNat
  | _ => 0

def observers {τ : Type} : Obj τ → Nat
  | .weak m_pi => m_pi.toNat
  | _ => 0

section

variable {τ : Type} (m_pi : Bool)

@[simp] theorem owners_vacant : (vacant : Obj τ).owners = 0 := rfl

@[simp] theorem owners_shared : (shared m_pi : Obj τ).owners = m_pi.toNat := rfl

@[simp] theorem owners_weak : (weak m_pi : Obj τ).owners = 0 := rfl

@[simp] theorem observers_vacant : (vacant : Obj τ).observers = 0 := rfl

@[simp] theorem observers_shared : (shared m_pi : Obj τ).observers = 0 := rfl

@[simp] theorem observers_weak : (weak m_pi : Obj τ).observers = m_pi.toNat := rfl

end

end Obj

/-- An operation in progress: the references it holds outside of any smart
    pointer object (temporaries and overwritten values), the object it reads,
    and what is left to do. -/
structure Frame (ι : Type) where
  owners : Nat
  observers : Nat
  src : Option ι
  code : Code ι

/-- A thread between operations. -/
def Frame.idle {ι : Type} : Frame ι where
  owners := 0
  observers := 0
  src := none
  code := .done

/-- One control block, the smart pointer objects, and the operations in progress. -/
structure State (τ ι : Type) where
  created : Bool
  use_count_ : Nat
  weak_count_ : Nat
  disposed : Nat
  destroyed : Nat
  obj : ι → Obj τ
  frame : τ → Frame ι

inductive Op (ι : Type) where
  | default_shared (i : ι)
  | default_weak (i : ι)
  | construct (i : ι)
  | copy_construct (i j : ι)
  | dynamic_cast_failed (i j : ι)
  | alias_construct (i j : ι)
  | move_construct (i j : ι)
  | assign (i j : ι)
  | move_assign (i j : ι)
  | reset (i : ι)
  | reset_alias (i j : ι)
  | swap (i j : ι)
  | from_weak (i j : ι)
  | lock (i j : ι)
  | destroy (i : ι)
  | weak_from_shared (i j : ι)
  | weak_copy (i j : ι)
  | weak_convert (i j : ι)
  | weak_assign_shared (i j : ι)
  | weak_assign (i j : ι)
  | weak_assign_convert (i j : ι)
  | weak_swap (i j : ι)
  | weak_reset (i : ι)
  | weak_destroy (i : ι)

namespace Code

variable {ι : Type}

/-- `if(m_pi != 0) m_pi->add_ref_copy();` -/
def add_ref_copy_if (m_pi : Bool) (next : Code ι) : Code ι :=
  if m_pi then .add_ref_copy next else next

/-- `if(m_pi != 0) m_pi->release();` -/
def release_if (m_pi : Bool) (next : Code ι) : Code ι :=
  if m_pi then .release next else next

/-- `if(m_pi != 0) m_pi->weak_add_ref();` -/
def weak_add_ref_if (m_pi : Bool) (next : Code ι) : Code ι :=
  if m_pi then .weak_add_ref next else next

/-- `if(m_pi != 0) m_pi->weak_release();` -/
def weak_release_if (m_pi : Bool) (next : Code ι) : Code ι :=
  if m_pi then .weak_release next else next

/-- `weak_ptr::lock` on a `weak_ptr` with the given `m_pi`, with what follows for
    an owner and for an empty result. -/
def weak_lock (m_pi : Bool) (owner empty : Code ι) : Code ι :=
  if m_pi then .expired empty (.add_ref_lock owner empty) else empty

/-- `const shared_ptr<T> &ref = r.lock()` in the converting functions of `weak_ptr`: the
    `shared_ptr<Y>` that `lock` returns is copied to `ref` and then destroyed. -/
def weak_lock_converted (m_pi : Bool) (owner empty : Code ι) : Code ι :=
  weak_lock m_pi (.add_ref_copy (.release owner)) empty

@[simp] theorem add_ref_copy_if_true (next : Code ι) : add_ref_copy_if true next = .add_ref_copy next := rfl

@[simp] theorem add_ref_copy_if_false (next : Code ι) : add_ref_copy_if false next = next := rfl

@[simp] theorem release_if_true (next : Code ι) : release_if true next = .release next := rfl

@[simp] theorem release_if_false (next : Code ι) : release_if false next = next := rfl

@[simp] theorem weak_add_ref_if_true (next : Code ι) : weak_add_ref_if true next = .weak_add_ref next := rfl

@[simp] theorem weak_add_ref_if_false (next : Code ι) : weak_add_ref_if false next = next := rfl

@[simp] theorem weak_release_if_true (next : Code ι) : weak_release_if true next = .weak_release next := rfl

@[simp] theorem weak_release_if_false (next : Code ι) : weak_release_if false next = next := rfl

@[simp] theorem weak_lock_true (owner empty : Code ι) :
    weak_lock true owner empty = .expired empty (.add_ref_lock owner empty) := rfl

@[simp] theorem weak_lock_false (owner empty : Code ι) : weak_lock false owner empty = empty := rfl

@[simp] theorem weak_lock_converted_true (owner empty : Code ι) :
    weak_lock_converted true owner empty =
      .expired empty (.add_ref_lock (.add_ref_copy (.release owner)) empty) := rfl

@[simp] theorem weak_lock_converted_false (owner empty : Code ι) :
    weak_lock_converted false owner empty = empty := rfl

end Code

open Code

/-- An operation about to begin: the objects it writes, the one it only reads,
    and its code. -/
structure Plan (ι : Type) where
  dsts : List ι
  src : Option ι
  code : Code ι

namespace Op

variable {τ ι : Type} [DecidableEq ι]

/-- `shared_ptr()` and `weak_ptr()`. -/
def default_plan (obj : ι → Obj τ) (i : ι) (code : Code ι) : Option (Plan ι) :=
  match obj i with
  | .vacant => some ⟨[i], none, code⟩
  | _ => none

/-- `shared_ptr(r)`, its converting and its casting variants: `shared_count`'s
    copy constructors. -/
def copy_construct_plan (obj : ι → Obj τ) (i j : ι) : Option (Plan ι) :=
  match obj i, obj j with
  | .vacant, .shared m_pi =>
    some ⟨[i], some j, add_ref_copy_if m_pi (.store_shared i m_pi .done)⟩
  | _, _ => none

/-- A `dynamic_pointer_cast` whose cast yields null: the copy is assigned an
    empty `shared_count`. -/
def dynamic_cast_failed_plan (obj : ι → Obj τ) (i j : ι) : Option (Plan ι) :=
  match obj i, obj j with
  | .vacant, .shared m_pi =>
    some ⟨[i], some j, add_ref_copy_if m_pi (release_if m_pi (.store_shared i false .done))⟩
  | _, _ => none

/-- `shared_ptr(other, p)`: `shared_count(const shared_count &, const Ptr &)`. -/
def alias_construct_plan (obj : ι → Obj τ) (i j : ι) : Option (Plan ι) :=
  match obj i, obj j with
  | .vacant, .shared m_pi => some ⟨[i], some j, .store_shared i m_pi .done⟩
  | _, _ => none

/-- `shared_ptr(BOOST_RV_REF(shared_ptr) other)`: an empty `shared_ptr` swapped
    with the source. -/
def move_construct_plan (obj : ι → Obj τ) (i j : ι) : Option (Plan ι) :=
  match obj i, obj j with
  | .vacant, .shared m_pi =>
    some ⟨[i, j], none, .store_shared i m_pi (.store_shared j false .done)⟩
  | _, _ => none

/-- `shared_count::operator=`. -/
def assign_plan (obj : ι → Obj τ) (i j : ι) : Option (Plan ι) :=
  match obj i, obj j with
  | .shared m_pi, .shared tmp =>
    some ⟨[i], if i = j then none else some j,
      if tmp ≠ m_pi then add_ref_copy_if tmp (release_if m_pi (.store_shared i tmp .done))
      else .store_shared i m_pi .done⟩
  | _, _ => none

/-- `this_type(other).swap(*this)`, where `other` is an lvalue and is copied. -/
def move_assign_plan (obj : ι → Obj τ) (i j : ι) : Option (Plan ι) :=
  match obj i, obj j with
  | .shared m_pi, .shared tmp =>
    some ⟨[i], if i = j then none else some j,
      add_ref_copy_if tmp (.store_shared i tmp (release_if m_pi .done))⟩
  | _, _ => none

/-- `this_type().swap(*this)`; also `this_type(p, a, d).swap(*this)`, whose new
    owner has a control block of its own. -/
def reset_plan (obj : ι → Obj τ) (i : ι) : Option (Plan ι) :=
  match obj i with
  | .shared m_pi => some ⟨[i], none, .store_shared i false (release_if m_pi .done)⟩
  | _ => none

/-- `this_type(r, p).swap(*this)`. -/
def reset_alias_plan (obj : ι → Obj τ) (i j : ι) : Option (Plan ι) :=
  match obj i, obj j with
  | .shared m_pi, .shared tmp =>
    some ⟨[i], if i = j then none else some j, .store_shared i tmp (release_if m_pi .done)⟩
  | _, _ => none

def swap_plan (obj : ι → Obj τ) (i j : ι) : Option (Plan ι) :=
  match obj i, obj j with
  | .shared a, .shared b =>
    if i = j then some ⟨[i], none, .store_shared i a .done⟩
    else some ⟨[i, j], none, .store_shared i b (.store_shared j a .done)⟩
  | _, _ => none

/-- `shared_ptr(weak_ptr const &)`, which throws `bad_weak_ptr` when it fails. -/
def from_weak_plan (obj : ι → Obj τ) (i j : ι) : Option (Plan ι) :=
  match obj i, obj j with
  | .vacant, .weak m_pi =>
    some ⟨[i], some j,
      if m_pi then .add_ref_lock (.store_shared i true .done) (.store_vacant i .done)
      else .store_vacant i .done⟩
  | _, _ => none

/-- `weak_ptr::lock`. -/
def lock_plan (obj : ι → Obj τ) (i j : ι) : Option (Plan ι) :=
  match obj i, obj j with
  | .vacant, .weak m_pi =>
    some ⟨[i], some j,
      weak_lock m_pi (.store_shared i true .done) (.store_shared i false .done)⟩
  | _, _ => none

/-- `~shared_ptr`. -/
def destroy_plan (obj : ι → Obj τ) (i : ι) : Option (Plan ι) :=
  match obj i with
  | .shared m_pi => some ⟨[i], none, release_if m_pi (.store_vacant i .done)⟩
  | _ => none

/-- `weak_count(shared_count const &)`. -/
def weak_from_shared_plan (obj : ι → Obj τ) (i j : ι) : Option (Plan ι) :=
  match obj i, obj j with
  | .vacant, .shared m_pi =>
    some ⟨[i], some j, weak_add_ref_if m_pi (.store_weak i m_pi .done)⟩
  | _, _ => none

/-- `weak_count(weak_count const &)`. -/
def weak_copy_plan (obj : ι → Obj τ) (i j : ι) : Option (Plan ι) :=
  match obj i, obj j with
  | .vacant, .weak m_pi =>
    some ⟨[i], some j, weak_add_ref_if m_pi (.store_weak i m_pi .done)⟩
  | _, _ => none

/-- The converting constructor of `weak_ptr`, which keeps the object alive
    through a temporary `shared_ptr`. -/
def weak_convert_plan (obj : ι → Obj τ) (i j : ι) : Option (Plan ι) :=
  match obj i, obj j with
  | .vacant, .weak m_pi =>
    some ⟨[i], some j, weak_add_ref_if m_pi
      (weak_lock_converted m_pi (.release (.store_weak i m_pi .done)) (.store_weak i m_pi .done))⟩
  | _, _ => none

/-- `weak_count::operator=` from a `shared_count` or from a `weak_count`. -/
def weak_assign_code (i : ι) (m_pi tmp : Bool) (next : Code ι) : Code ι :=
  weak_add_ref_if tmp (weak_release_if m_pi (.store_weak i tmp next))

def weak_assign_shared_plan (obj : ι → Obj τ) (i j : ι) : Option (Plan ι) :=
  match obj i, obj j with
  | .weak m_pi, .shared tmp => some ⟨[i], some j, weak_assign_code i m_pi tmp .done⟩
  | _, _ => none

def weak_assign_plan (obj : ι → Obj τ) (i j : ι) : Option (Plan ι) :=
  match obj i, obj j with
  | .weak m_pi, .weak tmp =>
    some ⟨[i], if i = j then none else some j, weak_assign_code i m_pi tmp .done⟩
  | _, _ => none

/-- The converting assignment of `weak_ptr`. -/
def weak_assign_convert_plan (obj : ι → Obj τ) (i j : ι) : Option (Plan ι) :=
  match obj i, obj j with
  | .weak m_pi, .weak tmp =>
    some ⟨[i], if i = j then none else some j,
      weak_lock_converted tmp (weak_assign_code i m_pi tmp (.release .done))
        (weak_assign_code i m_pi tmp .done)⟩
  | _, _ => none

/-- `weak_ptr::swap`: `weak_count` has no move operations, so the values are
    exchanged through a copy `tmp(x); x = y; y = tmp; ~tmp`. -/
def weak_swap_plan (obj : ι → Obj τ) (i j : ι) : Option (Plan ι) :=
  match obj i, obj j with
  | .weak a, .weak b =>
    if i = j then
      some ⟨[i], none, weak_add_ref_if a (weak_add_ref_if a (weak_release_if a
        (weak_assign_code i a a (weak_release_if a .done))))⟩
    else
      some ⟨[i, j], none, weak_add_ref_if a
        (weak_assign_code i a b (weak_assign_code j b a (weak_release_if a .done)))⟩
  | _, _ => none

/-- `this_type().swap(*this)`: the empty temporary takes a copy, the object is
    assigned the empty one, and the temporary is destroyed. -/
def weak_reset_plan (obj : ι → Obj τ) (i : ι) : Option (Plan ι) :=
  match obj i with
  | .weak m_pi =>
    some ⟨[i], none, weak_add_ref_if m_pi
      (weak_assign_code i m_pi false (weak_release_if m_pi .done))⟩
  | _ => none

/-- `~weak_ptr`. -/
def weak_destroy_plan (obj : ι → Obj τ) (i : ι) : Option (Plan ι) :=
  match obj i with
  | .weak m_pi => some ⟨[i], none, weak_release_if m_pi (.store_vacant i .done)⟩
  | _ => none

/-- The plan of an operation that works through the control block. -/
def plan (obj : ι → Obj τ) : Op ι → Option (Plan ι)
  | .default_shared i => default_plan obj i (.store_shared i false .done)
  | .default_weak i => default_plan obj i (.store_weak i false .done)
  | .construct _ => none
  | .copy_construct i j => copy_construct_plan obj i j
  | .dynamic_cast_failed i j => dynamic_cast_failed_plan obj i j
  | .alias_construct i j => alias_construct_plan obj i j
  | .move_construct i j => move_construct_plan obj i j
  | .assign i j => assign_plan obj i j
  | .move_assign i j => move_assign_plan obj i j
  | .reset i => reset_plan obj i
  | .reset_alias i j => reset_alias_plan obj i j
  | .swap i j => swap_plan obj i j
  | .from_weak i j => from_weak_plan obj i j
  | .lock i j => lock_plan obj i j
  | .destroy i => destroy_plan obj i
  | .weak_from_shared i j => weak_from_shared_plan obj i j
  | .weak_copy i j => weak_copy_plan obj i j
  | .weak_convert i j => weak_convert_plan obj i j
  | .weak_assign_shared i j => weak_assign_shared_plan obj i j
  | .weak_assign i j => weak_assign_plan obj i j
  | .weak_assign_convert i j => weak_assign_convert_plan obj i j
  | .weak_swap i j => weak_swap_plan obj i j
  | .weak_reset i => weak_reset_plan obj i
  | .weak_destroy i => weak_destroy_plan obj i

end Op

/-- The frame after an access, with what the operation holds now. An operation
    that is done reads nothing any more. -/
def Frame.next {ι : Type} (f : Frame ι) (owners observers : Nat) : Code ι → Frame ι
  | .done => { owners := owners, observers := observers, src := none, code := .done }
  | code => { owners := owners, observers := observers, src := f.src, code := code }

inductive Label (τ ι : Type) where
  | begin (t : τ) (op : Op ι)
  | advance (t : τ)

section Step

variable {τ ι : Type} [DecidableEq τ] [DecidableEq ι]

/-- Objects in hand of a thread. -/
def take (obj : ι → Obj τ) (t : τ) : List ι → ι → Obj τ
  | [] => obj
  | i :: dsts => Function.update (take obj t dsts) i (.busy t)

/-- The next access of a thread's operation. `release` continues with the
    disposal and the release of the owners' weak reference when it was the last. -/
def advance (s : State τ ι) (t : τ) : Option (State τ ι) :=
  let f := s.frame t
  match f.code with
  | .done => none
  | .add_ref_copy next =>
    some { s with
      use_count_ := atomic_inc32 s.use_count_
      frame := Function.update s.frame t (f.next (f.owners + 1) f.observers next) }
  | .release next =>
    some { s with
      use_count_ := atomic_dec32 s.use_count_
      frame := Function.update s.frame t
        (if s.use_count_ = 1 then
          f.next (f.owners - 1) (f.observers + 1) (.dispose (.weak_release next))
        else f.next (f.owners - 1) f.observers next) }
  | .dispose next =>
    some { s with
      disposed := s.disposed + 1
      frame := Function.update s.frame t (f.next f.owners f.observers next) }
  | .weak_add_ref next =>
    some { s with
      weak_count_ := atomic_inc32 s.weak_count_
      frame := Function.update s.frame t (f.next f.owners (f.observers + 1) next) }
  | .weak_release next =>
    some { s with
      weak_count_ := atomic_dec32 s.weak_count_
      frame := Function.update s.frame t
        (if s.weak_count_ = 1 then f.next f.owners (f.observers - 1) (.destroy next)
        else f.next f.owners (f.observers - 1) next) }
  | .destroy next =>
    some { s with
      destroyed := s.destroyed + 1
      frame := Function.update s.frame t (f.next f.owners f.observers next) }
  | .expired yes no =>
    some { s with
      frame := Function.update s.frame t
        (f.next f.owners f.observers (if s.use_count_ = 0 then yes else no)) }
  | .add_ref_lock locked failed =>
    some { s with
      frame := Function.update s.frame t (f.next f.owners f.observers
        (if s.use_count_ = 0 then failed else .atomic_cas32 s.use_count_ locked failed)) }
  | .atomic_cas32 tmp locked failed =>
    if s.use_count_ = tmp then
      some { s with
        use_count_ := atomic_inc32 tmp
        frame := Function.update s.frame t (f.next (f.owners + 1) f.observers locked) }
    else
      some { s with
        frame := Function.update s.frame t
          (f.next f.owners f.observers (.add_ref_lock locked failed)) }
  | .store_shared i m_pi next =>
    some { s with
      obj := Function.update s.obj i (.shared m_pi)
      frame := Function.update s.frame t (f.next (f.owners - m_pi.toNat) f.observers next) }
  | .store_weak i m_pi next =>
    some { s with
      obj := Function.update s.obj i (.weak m_pi)
      frame := Function.update s.frame t (f.next f.owners (f.observers - m_pi.toNat) next) }
  | .store_vacant i next =>
    some { s with
      obj := Function.update s.obj i .vacant
      frame := Function.update s.frame t (f.next f.owners f.observers next) }

/-- One step: a thread between operations begins one on objects that nobody else
    writes, or reads when it writes them, or takes its next access. The owner of
    a new object creates the control block with both counts at one. -/
def step [Fintype τ] (s : State τ ι) : Label τ ι → Option (State τ ι)
  | .advance t => advance s t
  | .begin t (.construct i) =>
    match (s.frame t).code, s.obj i with
    | .done, .vacant =>
      if s.created then none
      else some { s with
        created := true
        use_count_ := 1
        weak_count_ := 1
        obj := Function.update s.obj i (.shared true) }
    | _, _ => none
  | .begin t op =>
    match (s.frame t).code, op.plan s.obj with
    | .done, some plan =>
      if ∀ i ∈ plan.dsts, ∀ u, (s.frame u).src ≠ some i then
        some { s with
          obj := take s.obj t plan.dsts
          frame := Function.update s.frame t
            { owners := (plan.dsts.map fun i => (s.obj i).owners).sum
              observers := (plan.dsts.map fun i => (s.obj i).observers).sum
              src := plan.src
              code := plan.code } }
      else none
    | _, _ => none

/-- No control block, no objects, no operation in progress. -/
def start : State τ ι where
  created := false
  use_count_ := 0
  weak_count_ := 0
  disposed := 0
  destroyed := 0
  obj := fun _ => .vacant
  frame := fun _ => Frame.idle

end Step

end interprocess.smart_ptr
