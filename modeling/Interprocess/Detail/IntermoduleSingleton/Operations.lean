import Mathlib.Data.Finset.Card
import Mathlib.Data.Finset.Insert
import Mathlib.Logic.Function.Basic

namespace interprocess.ipcdetail.intermodule_singleton

/-- The values of `this_module_singleton_initialized` and of
    `this_module_map_initialized`. -/
inductive Word where
  | Uninitialized
  | Initializing
  | Initialized
  | Broken
  | Destroyed
  deriving DecidableEq

/-- An entry of the global map: the object and the number of attached modules. -/
structure ref_count_ptr where
  ptr : Nat
  singleton_ref_count : Nat
  deriving DecidableEq

/-- Where a thread stands: what its next step does. The winner keeps the address
    that `constructor` returned in `tmp`. -/
inductive Place where
  | read_state
  | cas
  | resurrect
  | cas_again
  | wait
  | map_cas
  | map_reset
  | map_make
  | map_retry
  | map_ready
  | construct
  | count_inc (tmp : Nat)
  | barrier (tmp : Nat)
  | assign (tmp : Nat)
  | publish (tmp : Nat)
  | mark_broken
  | returning
  | fini_destroy
  | fini_null
  | fini_mark
  | fini_dec
  | fini_read_count
  | fini_unmap
  | fini_mark_map
  | undefined
  deriving DecidableEq

/-- How the calls made in a step end: they return, the map asks for a new try,
    they throw, or the insertion in the map throws after the object was built. -/
inductive Outcome where
  | returns
  | retry
  | throws
  | insert_throws
  deriving DecidableEq

/-- The singletons of the process. An instance is the static data of
    `intermodule_singleton_impl` in one module; the instances of one type share
    the name under which the global map holds the object. -/
structure Config (ι μ ν : Type) where
  module : ι → μ
  name : ι → ν
  Phoenix : ι → Bool

/-- The static data of instances and modules, the global map, the objects built
    so far with those that live, and the threads. A call that a constructor or a
    destructor makes is a thread of its own. -/
structure State (τ ι μ ν : Type) where
  this_module_singleton_ptr : ι → Option Nat
  this_module_singleton_initialized : ι → Word
  this_module_singleton_count : μ → Nat
  this_module_map_initialized : μ → Word
  map_mem : μ → Bool
  entry : ν → Option ref_count_ptr
  constructed : ν → Nat
  living : ν → Finset Nat
  place : τ → Option (ι × Place)

inductive Label (τ ι : Type) where
  | get (t : τ) (i : ι)
  | atentry_work (t : τ) (i : ι)
  | atexit_work (t : τ) (i : ι)
  | run (t : τ) (outcome : Outcome)

variable {τ ι μ ν : Type} [DecidableEq τ] [DecidableEq ι] [DecidableEq μ] [DecidableEq ν]

namespace State

def goto (s : State τ ι μ ν) (t : τ) (i : ι) (p : Place) : State τ ι μ ν :=
  { s with place := Function.update s.place t (some (i, p)) }

/-- The thread returns or lets an exception out. -/
def leave (s : State τ ι μ ν) (t : τ) : State τ ι μ ν :=
  { s with place := Function.update s.place t none }

def set_state (s : State τ ι μ ν) (i : ι) (w : Word) : State τ ι μ ν :=
  { s with
    this_module_singleton_initialized := Function.update s.this_module_singleton_initialized i w }

def set_ptr (s : State τ ι μ ν) (i : ι) (p : Option Nat) : State τ ι μ ν :=
  { s with this_module_singleton_ptr := Function.update s.this_module_singleton_ptr i p }

def set_count (s : State τ ι μ ν) (m : μ) (k : Nat) : State τ ι μ ν :=
  { s with this_module_singleton_count := Function.update s.this_module_singleton_count m k }

def set_map_state (s : State τ ι μ ν) (m : μ) (w : Word) : State τ ι μ ν :=
  { s with this_module_map_initialized := Function.update s.this_module_map_initialized m w }

def set_map_mem (s : State τ ι μ ν) (m : μ) (b : Bool) : State τ ι μ ν :=
  { s with map_mem := Function.update s.map_mem m b }

def set_entry (s : State τ ι μ ν) (n : ν) (r : Option ref_count_ptr) : State τ ι μ ν :=
  { s with entry := Function.update s.entry n r }

def set_living (s : State τ ι μ ν) (n : ν) (objects : Finset Nat) : State τ ι μ ν :=
  { s with living := Function.update s.living n objects }

def set_constructed (s : State τ ι μ ν) (n : ν) (k : Nat) : State τ ι μ ν :=
  { s with constructed := Function.update s.constructed n k }

end State

/-- An exchange of `initialize_singleton_logic` and the branches on the value it
    found; the last one throws. -/
def after_cas (s : State τ ι μ ν) (t : τ) (i : ι) : State τ ι μ ν :=
  match s.this_module_singleton_initialized i with
  | .Uninitialized => (s.set_state i .Initializing).goto t i .map_cas
  | .Initializing => s.goto t i .wait
  | .Initialized => s.goto t i .returning
  | .Broken | .Destroyed => s.leave t

/-- One round of the waiting loop; every value from `Initialized` on ends it. -/
def wait_step (s : State τ ι μ ν) (t : τ) (i : ι) : State τ ι μ ν :=
  match s.this_module_singleton_initialized i with
  | .Uninitialized | .Initializing => s
  | .Initialized | .Broken | .Destroyed => s.goto t i .returning

/-- The exchange in `initialize_global_map_handle`. -/
def map_cas_step (c : Config ι μ ν) (s : State τ ι μ ν) (t : τ) (i : ι) : State τ ι μ ν :=
  match s.this_module_map_initialized (c.module i) with
  | .Uninitialized => (s.set_map_state (c.module i) .Initializing).goto t i .map_make
  | .Initializing => s
  | .Initialized | .Broken => s.goto t i .construct
  | .Destroyed => s.goto t i .map_reset

/-- The construction of the module's map object and of its lock file. The handler
    of `initialize_global_map_handle` only throws on, to the one that marks the
    singleton. -/
def map_make_step (c : Config ι μ ν) (s : State τ ι μ ν) (t : τ) (i : ι) : Outcome → State τ ι μ ν
  | .returns | .insert_throws => (s.set_map_mem (c.module i) true).goto t i .map_ready
  | .retry => (s.set_map_mem (c.module i) false).goto t i .map_retry
  | .throws => s.goto t i .mark_broken

/-- `singleton_constructor`, which runs `init_atomic_func` under the lock of the
    global map. Without a map object there is no behaviour to speak of. -/
def singleton_constructor (c : Config ι μ ν) (s : State τ ι μ ν) (t : τ) (i : ι) (outcome : Outcome) :
    State τ ι μ ν :=
  if s.map_mem (c.module i) = false then s.goto t i .undefined
  else if outcome = .throws then s.goto t i .mark_broken
  else
    match s.entry (c.name i) with
    | some r =>
      (s.set_entry (c.name i) (some ⟨r.ptr, r.singleton_ref_count + 1⟩)).goto t i (.count_inc r.ptr)
    | none =>
      let p := s.constructed (c.name i)
      -- the handler of `init_atomic_func` deletes the object that it could not insert
      if outcome = .insert_throws then (s.set_constructed (c.name i) (p + 1)).goto t i .mark_broken
      else
        ((s.set_constructed (c.name i) (p + 1)).set_living (c.name i)
          (insert p (s.living (c.name i)))).set_entry (c.name i) (some ⟨p, 1⟩) |>.goto t i (.count_inc p)

/-- `singleton_destructor`, which runs `fini_atomic_func` under the lock of the
    global map. The entry has to be there. -/
def singleton_destructor (c : Config ι μ ν) (s : State τ ι μ ν) (t : τ) (i : ι) : State τ ι μ ν :=
  if s.map_mem (c.module i) = false then s.goto t i .undefined
  else
    match s.entry (c.name i) with
    | none => s.goto t i .undefined
    | some r =>
      if r.singleton_ref_count = 1 then
        (s.set_entry (c.name i) none).set_living (c.name i) ((s.living (c.name i)).erase r.ptr) |>.goto
          t i .fini_null
      else
        (s.set_entry (c.name i) (some ⟨r.ptr, r.singleton_ref_count - 1⟩)).goto t i .fini_null

/-- `atomic_dec32` of the number of singletons and the branch on its result. -/
def fini_dec_step (c : Config ι μ ν) (s : State τ ι μ ν) (t : τ) (i : ι) : State τ ι μ ν :=
  let count := s.this_module_singleton_count (c.module i)
  if count = 1 then (s.set_count (c.module i) (count - 1)).goto t i .fini_read_count
  else (s.set_count (c.module i) (count - 1)).leave t

/-- The next step of a thread at a place. -/
def run_at (c : Config ι μ ν) (s : State τ ι μ ν) (t : τ) (i : ι) (outcome : Outcome) :
    Place → Option (State τ ι μ ν)
  | .read_state =>
    some (if s.this_module_singleton_initialized i = .Initialized then s.goto t i .returning
      else s.goto t i .cas)
  | .cas => some (if s.this_module_singleton_initialized i = .Destroyed ∧ c.Phoenix i then
      s.goto t i .resurrect else after_cas s t i)
  | .resurrect => some ((if s.this_module_singleton_initialized i = .Destroyed then
      s.set_state i .Uninitialized else s).goto t i .cas_again)
  | .cas_again => some (after_cas s t i)
  | .wait => some (wait_step s t i)
  | .map_cas => some (map_cas_step c s t i)
  | .map_reset => some ((if s.this_module_map_initialized (c.module i) = .Destroyed then
      s.set_map_state (c.module i) .Uninitialized else s).goto t i .map_cas)
  | .map_make => some (map_make_step c s t i outcome)
  | .map_retry => some ((s.set_map_state (c.module i) .Destroyed).goto t i .map_cas)
  | .map_ready => some ((s.set_map_state (c.module i) .Initialized).goto t i .construct)
  | .construct => some (singleton_constructor c s t i outcome)
  | .count_inc tmp => some ((s.set_count (c.module i)
      (s.this_module_singleton_count (c.module i) + 1)).goto t i (.barrier tmp))
  | .barrier tmp => some ((s.set_state i .Initializing).goto t i (.assign tmp))
  | .assign tmp => some ((s.set_ptr i (some tmp)).goto t i (.publish tmp))
  | .publish _ => some ((s.set_state i .Initialized).goto t i .returning)
  | .mark_broken => some ((s.set_state i .Broken).leave t)
  | .returning => some (s.leave t)
  | .fini_destroy => some (singleton_destructor c s t i)
  | .fini_null => some ((s.set_ptr i none).goto t i .fini_mark)
  | .fini_mark => some ((s.set_state i .Destroyed).goto t i .fini_dec)
  | .fini_dec => some (fini_dec_step c s t i)
  | .fini_read_count => some (if s.this_module_singleton_count (c.module i) = 0 then
      s.goto t i .fini_unmap else s.leave t)
  | .fini_unmap => some (if s.map_mem (c.module i) = false then s.goto t i .undefined
      else (s.set_map_mem (c.module i) false).goto t i .fini_mark_map)
  | .fini_mark_map => some ((s.set_map_state (c.module i) .Destroyed).leave t)
  | .undefined => none

/-- A thread calls `get`, which looks at the pointer first, starts the entry or
    the exit work of an instance, or takes its next step. -/
def step (c : Config ι μ ν) (s : State τ ι μ ν) : Label τ ι → Option (State τ ι μ ν)
  | .get t i =>
    match s.place t with
    | none =>
      some (if (s.this_module_singleton_ptr i).isSome then s else s.goto t i .read_state)
    | some _ => none
  | .atentry_work t i =>
    match s.place t with
    | none => some (s.goto t i .read_state)
    | some _ => none
  | .atexit_work t i =>
    match s.place t with
    | none =>
      some (if (s.this_module_singleton_ptr i).isSome then s.goto t i .fini_destroy else s)
    | some _ => none
  | .run t outcome =>
    match s.place t with
    | none => none
    | some (i, p) => run_at c s t i outcome p

/-- The zero-initialised static data, before any thread runs. -/
def start : State τ ι μ ν where
  this_module_singleton_ptr := fun _ => none
  this_module_singleton_initialized := fun _ => .Uninitialized
  this_module_singleton_count := fun _ => 0
  this_module_map_initialized := fun _ => .Uninitialized
  map_mem := fun _ => false
  entry := fun _ => none
  constructed := fun _ => 0
  living := fun _ => ∅
  place := fun _ => none

end interprocess.ipcdetail.intermodule_singleton
