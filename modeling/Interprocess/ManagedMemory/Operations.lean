import Mathlib.Algebra.Group.Int.Defs
import Mathlib.Algebra.Group.Nat.Defs
import Mathlib.Logic.Function.Basic

namespace interprocess.ipcdetail.basic_managed_memory_impl

/-- What the managed memory asks of its memory algorithm, with the requests that the
    algorithm supports. `none` is a call that does not return; `cut` is the segment
    after its device has lost the bytes from an offset on. -/
structure MemoryAlgorithm where
  Segment : Type
  get_size : Segment → Nat
  grow : Segment → Nat → Option Segment
  shrink_to_fit : Segment → Option Segment
  cut : Segment → Nat → Segment
  /-- The live buffers of the first segment are in the second one, with their bytes. -/
  Intact : Segment → Segment → Prop
  Growable : Segment → Nat → Prop
  Shrinkable : Segment → Prop
  intact_refl : ∀ segment, Intact segment segment
  cut_of_le : ∀ segment n, get_size segment ≤ n → cut segment n = segment
  grow_spec : ∀ segment n, Growable segment n → ∃ segment', grow segment n = some segment' ∧
    get_size segment' = get_size segment + n ∧ Intact segment segment'
  shrink_to_fit_spec : ∀ segment, Shrinkable segment → ∃ segment',
    shrink_to_fit segment = some segment' ∧ get_size segment' ≤ get_size segment ∧
      Intact segment segment'

/-- A file or a shared memory object, and the initialized segment in it, if any. -/
structure Device (A : MemoryAlgorithm) where
  length : Nat
  segment : Option A.Segment

/-- The devices of the system by their names. -/
abbrev Devices (A : MemoryAlgorithm) : Type :=
  String → Option (Device A)

/-- Which steps of a call succeed: opening or creating the device, reading its size,
    setting its size, and mapping the segment. A failed `truncate` may have written a
    part of the new bytes, it leaves some length behind. -/
structure Outcomes where
  device : Bool
  get_size : Bool
  truncate : Option Nat
  open_only : Bool

inductive Result where
  | returned (value : Bool)
  | threw
deriving DecidableEq

variable {A : MemoryAlgorithm} (Offset : Nat)

/-- `offset_t` has 64 bits and a sign. -/
def max_offset : Nat :=
  2 ^ 63

def get_size (segment : A.Segment) : Nat :=
  (A.get_size segment + Offset) % 2 ^ 64

namespace Device

/-- A device with a new length. -/
def resized (d : Device A) (length : Nat) : Device A :=
  ⟨length, d.segment.map fun segment => A.cut segment (length - Offset)⟩

/-- `device_type::truncate`, which does not throw when the second component is `true`. -/
def truncate (d : Device A) (length : Nat) (outcome : Option Nat) : Device A × Bool :=
  if max_offset ≤ length then (d, false)
  else
    match outcome with
    | none => (d.resized Offset length, true)
    | some left =>
      if d.length < left ∧ left ≤ length then (d.resized Offset left, false) else (d, false)

end Device

/-- `device_type f(open_or_create, filename, read_write)`. -/
def open_or_create (s : Devices A) (name : String) : Devices A × Device A :=
  match s name with
  | some d => (s, d)
  | none => (Function.update s name (some ⟨0, none⟩), ⟨0, none⟩)

def grow (s : Devices A) (filename : String) (extra_bytes : Nat) (o : Outcomes) :
    Option (Devices A × Result) :=
  if ¬o.device then some (s, .returned false)
  else
    let (s, f) := open_or_create s filename
    if ¬o.get_size then some (s, .returned false)
    else
      let (f, truncated) := f.truncate Offset ((f.length + extra_bytes) % 2 ^ 64) o.truncate
      let s := Function.update s filename (some f)
      if ¬truncated then some (s, .returned false)
      else
        match f.segment with
        | none => some (s, .returned false)
        | some segment =>
          if ¬o.open_only then some (s, .returned false)
          else
            (A.grow segment extra_bytes).map fun segment =>
              (Function.update s filename (some { f with segment := some segment }),
                .returned true)

/-- The device part of `shrink_to_fit` is outside the `try`. -/
def shrink_device (s : Devices A) (filename : String) (new_size : Nat) (o : Outcomes) :
    Devices A × Result :=
  if ¬o.device then (s, .threw)
  else
    let (s, f) := open_or_create s filename
    let (f, truncated) := f.truncate Offset new_size o.truncate
    (Function.update s filename (some f), if truncated then .returned true else .threw)

def shrink_to_fit (s : Devices A) (filename : String) (o : Outcomes) :
    Option (Devices A × Result) :=
  match s filename with
  | none => some (s, .returned false)
  | some f =>
    match f.segment with
    | none => some (s, .returned false)
    | some segment =>
      if ¬o.open_only then some (s, .returned false)
      else
        (A.shrink_to_fit segment).map fun segment =>
          let s := Function.update s filename (some { f with segment := some segment })
          shrink_device Offset s filename (get_size Offset segment) o

inductive Op where
  | grow (filename : String) (extra_bytes : Nat) (o : Outcomes)
  | shrink_to_fit (filename : String) (o : Outcomes)

def Op.filename : Op → String
  | .grow filename _ _ => filename
  | .shrink_to_fit filename _ => filename

def call (s : Devices A) : Op → Option (Devices A × Result)
  | .grow filename extra_bytes o => grow Offset s filename extra_bytes o
  | .shrink_to_fit filename o => shrink_to_fit Offset s filename o

def step (s : Devices A) (op : Op) : Devices A :=
  match call Offset s op with
  | none => s
  | some (t, _) => t

/-- A device has the size of the segment in it. -/
structure Device.InStep (d : Device A) : Prop where
  length_lt : d.length < max_offset
  size_eq : ∀ segment, d.segment = some segment → d.length = A.get_size segment + Offset

def InStep (s : Devices A) : Prop :=
  ∀ name d, s name = some d → d.InStep Offset

/-- Every segment is there, with its live buffers. -/
def Kept (s t : Devices A) : Prop :=
  ∀ name d segment, s name = some d → d.segment = some segment →
    ∃ d' segment', t name = some d' ∧ d'.segment = some segment' ∧ A.Intact segment segment'

/-- A call returns or throws with all devices in step and all live buffers intact. If it
    returns true the device has the size of its segment, if it returns false it has
    changed nothing. -/
def Sound (s : Devices A) (op : Op) : Prop :=
  ∃ t r, call Offset s op = some (t, r) ∧ InStep Offset t ∧ Kept s t ∧
    (r = .returned true → ∃ d segment, t op.filename = some d ∧ d.segment = some segment ∧
      d.length = get_size Offset segment) ∧
    (r = .returned false → t = s)

/-- The device is not opened; or it exists, and either its size is not changed, or it
    holds a segment that is opened and that the algorithm can grow. -/
def GrowMeets (s : Devices A) (filename : String) (extra_bytes : Nat) (o : Outcomes) : Prop :=
  o.device = false ∨ ∃ f, s filename = some f ∧
    (o.get_size = false ∨ max_offset ≤ (f.length + extra_bytes) % 2 ^ 64 ∨
      (∃ left, o.truncate = some left ∧ (left ≤ f.length ∨ f.length + extra_bytes < left)) ∨
      (extra_bytes = 0 ∧ (f.segment = none ∨ o.open_only = false)) ∨
      (o.truncate = none ∧ f.length + extra_bytes < 2 ^ 64 ∧ o.open_only = true ∧
        ∃ segment, f.segment = some segment ∧ A.Growable segment extra_bytes))

/-- The segment is not opened; or the algorithm can shrink it, and either its device is
    cut or there was nothing to cut. -/
def ShrinkMeets (s : Devices A) (filename : String) (o : Outcomes) : Prop :=
  ∀ f segment, s filename = some f → f.segment = some segment → o.open_only = true →
    A.Shrinkable segment ∧ (o.device = true ∧ o.truncate = none ∨
      ∀ segment', A.shrink_to_fit segment = some segment' →
        A.get_size segment' = A.get_size segment)

def Meets (s : Devices A) : Op → Prop
  | .grow filename extra_bytes o => GrowMeets s filename extra_bytes o
  | .shrink_to_fit filename o => ShrinkMeets s filename o

end interprocess.ipcdetail.basic_managed_memory_impl
