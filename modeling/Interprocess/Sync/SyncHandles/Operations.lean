import Mathlib.Data.Finset.Card
import Mathlib.Logic.Function.Basic

namespace interprocess.sync_handles

/-- The registry with the handles that are open in the system. Handles are numbers,
    null is 0. `registered` is no part of the program: it records through which
    addresses an id was obtained and not yet destroyed. -/
structure State (Id : Type) where
  umap_ : Id → Option Nat
  map_ : Nat → Option Id
  num_handles_ : Int
  next_handle : Nat
  opened : Finset Nat
  registered : Nat → Option Id

/-- What a call did: whether it threw, whether its assertions held, and the handles it
    closed. -/
structure Report where
  threw : Bool
  asserts : Bool
  closed : List Nat

namespace State

variable {Id : Type} [DecidableEq Id]

def construct : State Id where
  umap_ := fun _ => none
  map_ := fun _ => none
  num_handles_ := 0
  next_handle := 1
  opened := ∅
  registered := fun _ => none

/-- `winapi::close_handle`, which reports whether the handle was open. -/
def close_handle (s : State Id) (hnd : Nat) : State Id × Bool :=
  ({ s with opened := s.opened.erase hnd }, decide (hnd ∈ s.opened))

/-- The system opens a fresh handle. -/
def open_or_create (s : State Id) : State Id × Nat :=
  ({ s with next_handle := s.next_handle + 1, opened := insert s.next_handle s.opened },
    s.next_handle)

/-- The common part of `obtain_mutex` and `obtain_semaphore`. The caller may ask whether
    the handle was created, and opening the system object may throw. -/
def obtain (s : State Id) (id : Id) (mapping_address : Nat) (popen_created throws : Bool) :
    State Id × Report :=
  let s := if s.umap_ id = none then { s with umap_ := Function.update s.umap_ id (some 0) } else s
  if s.umap_ id = some 0 then
    let asserts := decide (s.map_ mapping_address = none)
    let s := { s with map_ := Function.update s.map_ mapping_address (some id) }
    if throws then (s, ⟨true, asserts, []⟩)
    else
      let (s, hnd) := s.open_or_create
      ({ s with
          umap_ := Function.update s.umap_ id (some hnd)
          num_handles_ := s.num_handles_ + 1
          registered := Function.update s.registered mapping_address (some id) },
        ⟨false, asserts, []⟩)
  else
    ({ s with registered := Function.update s.registered mapping_address (some id) },
      ⟨false, !popen_created || decide (s.map_ mapping_address ≠ none), []⟩)

def obtain_mutex (s : State Id) (id : Id) (mapping_address : Nat) (popen_created throws : Bool) :
    State Id × Report :=
  s.obtain id mapping_address popen_created throws

/-- The initial count only goes to the system. -/
def obtain_semaphore (s : State Id) (id : Id) (mapping_address _initial_count : Nat)
    (popen_created throws : Bool) : State Id × Report :=
  s.obtain id mapping_address popen_created throws

def destroy_handle (s : State Id) (id : Id) (mapping_address : Nat) : State Id × Report :=
  let registered := Function.update s.registered mapping_address none
  match s.umap_ id with
  | none => ({ s with registered }, ⟨false, true, []⟩)
  | some hnd =>
    let (s, _) := s.close_handle hnd
    ({ s with
        num_handles_ := s.num_handles_ - 1
        map_ := Function.update s.map_ mapping_address none
        umap_ := Function.update s.umap_ id none
        registered },
      ⟨false, decide (s.map_ mapping_address ≠ none), [hnd]⟩)

/-- One round of the loop over the addresses of a range: an entry of the address map
    closes the handle of its id. The end of `umap_` is read after a failed assertion;
    here the round then does nothing more. -/
def close_registered (s : State Id) (address : Nat) : State Id × Report :=
  match s.map_ address with
  | none => (s, ⟨false, true, []⟩)
  | some ukey =>
    match s.umap_ ukey with
    | none => (s, ⟨false, false, []⟩)
    | some hnd =>
      let s := { s with umap_ := Function.update s.umap_ ukey none }
      let (s, ret) := s.close_handle hnd
      ({ s with num_handles_ := s.num_handles_ - 1 }, ⟨false, ret, [hnd]⟩)

def close_all (s : State Id) : List Nat → State Id × Report
  | [] => (s, ⟨false, true, []⟩)
  | address :: addresses =>
    let first := s.close_registered address
    let rest := first.1.close_all addresses
    (rest.1, ⟨false, first.2.asserts && rest.2.asserts, first.2.closed ++ rest.2.closed⟩)

/-- The entries of a range are removed from the address map. -/
def erase_range (s : State Id) (addr size : Nat) : State Id :=
  { s with
    map_ := fun a => if addr ≤ a ∧ a < addr + size then none else s.map_ a
    registered := fun a => if addr ≤ a ∧ a < addr + size then none else s.registered a }

def destroy_syncs_in_range (s : State Id) (addr size : Nat) : State Id × Report :=
  let closed := s.close_all (List.range' addr size)
  (closed.1.erase_range addr size, closed.2)

end State

inductive Op (Id : Type) where
  | obtain_mutex (id : Id) (mapping_address : Nat) (popen_created throws : Bool)
  | obtain_semaphore (id : Id) (mapping_address initial_count : Nat) (popen_created throws : Bool)
  | destroy_handle (id : Id) (mapping_address : Nat)
  | destroy_syncs_in_range (addr size : Nat)

variable {Id : Type} [DecidableEq Id]

def call (s : State Id) : Op Id → State Id × Report
  | .obtain_mutex id mapping_address popen_created throws =>
    s.obtain_mutex id mapping_address popen_created throws
  | .obtain_semaphore id mapping_address initial_count popen_created throws =>
    s.obtain_semaphore id mapping_address initial_count popen_created throws
  | .destroy_handle id mapping_address => s.destroy_handle id mapping_address
  | .destroy_syncs_in_range addr size => s.destroy_syncs_in_range addr size

def step (s : State Id) (op : Op Id) : State Id :=
  (call s op).1

/-- An address holds one id at a time, and an id is destroyed through an address through
    which it was obtained. -/
def Legal (s : State Id) : Op Id → Prop
  | .obtain_mutex id mapping_address _ _ =>
    s.registered mapping_address = none ∨ s.registered mapping_address = some id
  | .obtain_semaphore id mapping_address _ _ _ =>
    s.registered mapping_address = none ∨ s.registered mapping_address = some id
  | .destroy_handle id mapping_address => s.registered mapping_address = some id
  | .destroy_syncs_in_range _ _ => True

/-- The two maps, the counter and the open handles fit together. -/
structure Consistent (s : State Id) : Prop where
  mapped : ∀ a id, s.registered a = some id → s.map_ a = some id
  open_of_mapped : ∀ a id, s.map_ a = some id → ∃ hnd ∈ s.opened, hnd ≠ 0 ∧ s.umap_ id = some hnd
  owned : ∀ hnd ∈ s.opened, ∃ id, s.umap_ id = some hnd
  exclusive : ∀ id id' hnd, s.umap_ id = some hnd → s.umap_ id' = some hnd → id = id'
  named : ∀ id hnd, s.umap_ id = some hnd → ∃ a, s.map_ a = some id
  count : s.num_handles_ = s.opened.card

/-- A call keeps the registry consistent, closes open handles that are not in use, violates
    no assertion, and leaves everything as it was when it throws. -/
structure Sound (s : State Id) (op : Op Id) : Prop where
  consistent : Consistent (call s op).1
  asserts : (call s op).2.asserts = true
  closed_once : (call s op).2.closed.Nodup ∧ ∀ hnd ∈ (call s op).2.closed, hnd ∈ s.opened
  closed_unused : ∀ id hnd, s.umap_ id = some hnd → hnd ∈ (call s op).2.closed →
    ∀ a, (call s op).1.registered a ≠ some id
  unchanged : (call s op).2.threw = true →
    (call s op).1.umap_ = s.umap_ ∧ (call s op).1.map_ = s.map_ ∧
      (call s op).1.num_handles_ = s.num_handles_

/-- The id is in use through no other address, and opening its system object does not
    throw. -/
def ObtainMeets (s : State Id) (id : Id) (mapping_address : Nat) (throws : Bool) : Prop :=
  (∀ a, s.registered a = some id → a = mapping_address) ∧
    (throws = true → ∃ a, s.registered a = some id)

def Meets (s : State Id) : Op Id → Prop
  | .obtain_mutex id mapping_address _ throws => ObtainMeets s id mapping_address throws
  | .obtain_semaphore id mapping_address _ _ throws => ObtainMeets s id mapping_address throws
  | _ => True

end interprocess.sync_handles
