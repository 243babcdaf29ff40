import Interprocess.Base.Count
import Interprocess.Detail.IntermoduleSingleton.Operations

open Count

namespace interprocess.ipcdetail.intermodule_singleton

namespace Place

/-- The thread has the instance for itself: it won the exchange, or it called the
    destructor and has not said so yet. -/
def holds : Place → Bool
  | .map_cas | .map_reset | .map_make | .map_retry | .map_ready | .construct => true
  | .count_inc _ | .barrier _ | .assign _ | .publish _ | .mark_broken => true
  | .fini_null | .fini_mark => true
  | _ => false

/-- The winner of the exchange, before it writes the outcome. -/
def initializes : Place → Bool
  | .fini_null | .fini_mark => false
  | p => p.holds

/-- The thread has the map of the module for itself. -/
def holds_map : Place → Bool
  | .map_make | .map_retry | .map_ready | .fini_mark_map => true
  | _ => false

/-- The thread that builds the map of the module. -/
def initializes_map : Place → Bool
  | .map_make | .map_retry | .map_ready => true
  | _ => false

/-- The object that the winner is attached to. -/
def attached : Place → Option Nat
  | .count_inc tmp | .barrier tmp | .assign tmp | .publish tmp => some tmp
  | _ => none

/-- The instance is among the singletons of its module. -/
def counted : Place → Bool
  | .barrier _ | .assign _ | .publish _ | .fini_null | .fini_mark => true
  | _ => false

/-- The thread is past `initialize_global_map_handle` and not counted yet. -/
def passed_map : Place → Bool
  | .construct | .count_inc _ => true
  | _ => false

/-- The thread has nothing for itself. -/
def roams : Place → Bool
  | .read_state | .cas | .resurrect | .cas_again | .wait | .returning => true
  | .fini_destroy | .fini_read_count | .fini_unmap => true
  | _ => false

theorem of_roams {p : Place} (h : p.roams = true) :
    p.holds = false ∧ p.holds_map = false ∧ p ≠ .fini_dec ∧ p ≠ .undefined := by
  cases p <;> first | exact ⟨rfl, rfl, by decide, by decide⟩ | cases h

theorem holds_of_initializes {p : Place} (h : p.initializes = true) : p.holds = true := by
  cases p <;> first | rfl | cases h

end Place

/-- A thread is at one place. -/
theorem of_place {ι : Type} {at_place : Option (ι × Place)} {i : ι} {p : Place} {P : Place → Prop}
    (h : at_place = some (i, p)) (hp : P p) (j : ι) (q : Place) (hq : at_place = some (j, q)) : P q := by
  rw [h] at hq
  cases hq
  exact hp

theorem eq_of_place {ι : Type} {at_place : Option (ι × Place)} {i : ι} {p : Place} (h : at_place = some (i, p))
    (j : ι) (q : Place) (hq : at_place = some (j, q)) : j = i := by
  rw [h] at hq
  cases hq
  rfl

/-- The stages of an instance. A thread that has it for itself is at a place that
    tells the rest. -/
inductive Life (τ : Type) where
  | fresh
  | held (t : τ) (p : Place)
  | ready (object : Nat)
  | dead
  | failed

namespace Life

variable {τ : Type}

def word : Life τ → Word
  | .fresh => .Uninitialized
  | .held _ p => if p.initializes then .Initializing else .Initialized
  | .ready _ => .Initialized
  | .dead => .Destroyed
  | .failed => .Broken

/-- The pointer of the instance. It dangles between the destructor and the
    assignment of the null pointer. -/
def Points : Life τ → Option Nat → Prop
  | .held _ (.publish k), ptr => ptr = some k
  | .held _ .fini_null, _ => True
  | .ready k, ptr => ptr = some k
  | _, ptr => ptr = none

def attached : Life τ → Option Nat
  | .held _ p => p.attached
  | .ready k => some k
  | _ => none

def counted : Life τ → Bool
  | .held _ p => p.counted
  | .ready _ => true
  | _ => false

/-- The instance relies on the map object of its module. -/
def uses_map : Life τ → Bool
  | .held _ p => p.passed_map || p.counted
  | .ready _ => true
  | _ => false

/-- A winner without an object has not set the pointer. -/
theorem points_iff_of_unattached {t : τ} {p : Place} (hp : p.initializes = true) (hnone : p.attached = none)
    (ptr : Option Nat) : (held t p).Points ptr ↔ ptr = none := by
  cases p with
  | publish tmp => cases hnone
  | fini_null => cases hp
  | _ => rfl

theorem eq_fresh {l : Life τ} (h : l.word = .Uninitialized) : l = .fresh := by
  cases l with
  | held t p => simp only [word] at h; split at h <;> cases h
  | _ => first | rfl | cases h

theorem eq_dead {l : Life τ} (h : l.word = .Destroyed) : l = .dead := by
  cases l with
  | held t p => simp only [word] at h; split at h <;> cases h
  | _ => first | rfl | cases h

/-- An initialised instance is ready unless its finaliser is half way. -/
theorem ready_or_closing {l : Life τ} (h : l.word = .Initialized) :
    (∃ k, l = .ready k) ∨ ∃ t p, l = .held t p ∧ p.initializes = false := by
  cases l with
  | held t p =>
    simp only [word] at h
    split_ifs at h with hp
    exact .inr ⟨t, p, rfl, by simpa using hp⟩
  | ready k => exact .inl ⟨k, rfl⟩
  | _ => cases h

end Life

/-- The stages of the map object of a module. -/
inductive MapLife (τ : Type) where
  | absent
  | held (t : τ) (p : Place)
  | up
  | gone

namespace MapLife

variable {τ : Type}

def word : MapLife τ → Word
  | .absent => .Uninitialized
  | .held _ p => if p.initializes_map then .Initializing else .Initialized
  | .up => .Initialized
  | .gone => .Destroyed

/-- What is known about the existence of the map object. -/
def Exists : MapLife τ → Bool → Prop
  | .up, b => b = true
  | .held _ .map_ready, b => b = true
  | .held _ .fini_mark_map, b => b = false
  | _, _ => True

end MapLife

section Structures

variable {τ ι μ ν : Type}

/-- Every instance is in a stage that its word, its pointer and the threads agree
    on. A thread that returns finds the instance ready. -/
structure Instances (place : τ → Option (ι × Place)) (state : ι → Word) (ptr : ι → Option Nat)
    (life : ι → Life τ) : Prop where
  word : ∀ i, state i = (life i).word
  points : ∀ i, (life i).Points (ptr i)
  holder : ∀ t i p, place t = some (i, p) → p.holds = true → life i = .held t p
  held : ∀ i t p, life i = .held t p → place t = some (i, p) ∧ p.holds = true
  returning : ∀ t i, place t = some (i, .returning) → ∃ k, life i = .ready k
  defined : ∀ t i, place t ≠ some (i, .undefined)

/-- The same for the maps of the modules; an instance that relies on the map of
    its module finds it up. -/
structure Maps (c : Config ι μ ν) (place : τ → Option (ι × Place)) (state : μ → Word) (mem : μ → Bool)
    (uses : ι → Bool) (life : μ → MapLife τ) : Prop where
  word : ∀ m, state m = (life m).word
  mem : ∀ m, (life m).Exists (mem m)
  holder : ∀ t i p, place t = some (i, p) → p.holds_map = true → life (c.module i) = .held t p
  held : ∀ m t p, life m = .held t p → p.holds_map = true ∧ ∃ i, c.module i = m ∧ place t = some (i, p)
  uses : ∀ i, uses i = true → life (c.module i) = .up

variable [Fintype ι] [Fintype τ] [DecidableEq μ] [DecidableEq ν]

/-- The global map holds an entry for exactly the names that an instance is
    attached to, with their number, and the object of the entry is the one that
    lives. -/
structure Entries (c : Config ι μ ν) (attached : ι → Option Nat) (entry : ν → Option ref_count_ptr)
    (living : ν → Finset Nat) : Prop where
  object : ∀ i k, attached i = some k → ∃ r, entry (c.name i) = some r ∧ r.ptr = k
  refs : ∀ n, tally (fun i a => (decide (c.name i = n) && a.isSome).toNat) attached =
    (entry n).elim 0 ref_count_ptr.singleton_ref_count
  pos : ∀ n r, entry n = some r → 0 < r.singleton_ref_count
  living : ∀ n, living n = (entry n).elim ∅ fun r => {r.ptr}

/-- A finaliser that has said that the instance is destroyed and has not taken it
    from the number of singletons yet. -/
def leaving (c : Config ι μ ν) (m : μ) : Option (ι × Place) → Bool
  | some (i, .fini_dec) => decide (c.module i = m)
  | _ => false

/-- The number of singletons of a module. -/
def Counts (c : Config ι μ ν) (place : τ → Option (ι × Place)) (counted : ι → Bool) (number : μ → Nat) :
    Prop :=
  ∀ m, number m = tally (fun i b => (decide (c.module i = m) && b).toNat) counted +
    count (leaving c m) place

/-- A reachable state: some stages of the instances and of the maps fit it. -/
structure Inv (c : Config ι μ ν) (s : State τ ι μ ν) (life : ι → Life τ) (map_life : μ → MapLife τ) :
    Prop where
  instances : Instances s.place s.this_module_singleton_initialized s.this_module_singleton_ptr life
  maps : Maps c s.place s.this_module_map_initialized s.map_mem (fun i => (life i).uses_map) map_life
  entries : Entries c (fun i => (life i).attached) s.entry s.living
  counts : Counts c s.place (fun i => (life i).counted) s.this_module_singleton_count

end Structures

end interprocess.ipcdetail.intermodule_singleton
