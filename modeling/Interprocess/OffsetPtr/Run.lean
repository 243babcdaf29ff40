import Mathlib.Logic.Function.Basic
import Interprocess.OffsetPtr.Conversions

open interprocess.ipcdetail

namespace interprocess.offset_ptr

variable {w : Nat} {ι : Type} [DecidableEq ι]

/-- The stored offset of every pointer object; object `i` lives at `addr i`. -/
abbrev Offsets (w : Nat) (ι : Type) : Type := ι → BitVec w

def get (addr : ι → BitVec w) (s : Offsets w ι) (i : ι) : BitVec w :=
  offset_ptr_to_raw_pointer (addr i) (s i)

/-- The implicit conversion of a raw pointer between related types: it moves
    non-null pointers by the distance of the subobject and keeps null. -/
def static_cast (shift ptr : BitVec w) : BitVec w :=
  if ptr = 0 then 0 else ptr + shift

/-- `operator=(T *ptr)`; the constructor from a raw pointer computes the same. -/
def assign_raw (addr : ι → BitVec w) (s : Offsets w ι) (this : ι) (ptr : BitVec w) : Offsets w ι :=
  Function.update s this (offset_ptr_to_offset ptr (addr this))

/-- The copy constructor, `operator=(const offset_ptr &)` and the
    address-preserving `assign`: the offset is re-biased without a raw pointer. -/
def copy (addr : ι → BitVec w) (s : Offsets w ι) (this ptr : ι) : Offsets w ι :=
  Function.update s this (offset_ptr_to_offset_from_other (addr this) (addr ptr) (s ptr))

/-- `assign` for related types; only the address-preserving path may re-bias. -/
def assign (addr : ι → BitVec w) (s : Offsets w ι) (this ptr : ι) : Option (BitVec w) → Offsets w ι
  | none => copy addr s this ptr
  | some shift => assign_raw addr s this (static_cast shift (get addr s ptr))

def inc_offset (s : Offsets w ι) (this : ι) (bytes : BitVec w) : Offsets w ι :=
  Function.update s this (s this + bytes)

def dec_offset (s : Offsets w ι) (this : ι) (bytes : BitVec w) : Offsets w ι :=
  Function.update s this (s this - bytes)

/-- The friend `swap`: the raw value of `right` is saved before `right = left`. -/
def swap (addr : ι → BitVec w) (s : Offsets w ι) (left right : ι) : Offsets w ι :=
  let ptr := get addr s right
  let s := copy addr s right left
  assign_raw addr s left ptr

/-- The mutating operations of a program over offset pointers. `size` is
    `sizeof(PointedType)` and `diff` the difference operand, both modulo the
    width of the offset type. The shift of a converting assignment is absent on
    the address-preserving path. -/
inductive Op (w : Nat) (ι : Type) where
  | defaultConstruct (this : ι)
  | assignRaw (this : ι) (ptr : BitVec w)
  | copyConstruct (this ptr : ι)
  | copyAssign (this ptr : ι)
  | convertAssign (this ptr : ι) (shift : Option (BitVec w))
  | swap (left right : ι)
  | addAssign (this : ι) (diff size : BitVec w)
  | subAssign (this : ι) (diff size : BitVec w)
  | preIncrement (this : ι) (size : BitVec w)
  | preDecrement (this : ι) (size : BitVec w)
  | postIncrement (this tmp : ι) (size : BitVec w)
  | postDecrement (this tmp : ι) (size : BitVec w)

def step (addr : ι → BitVec w) (s : Offsets w ι) : Op w ι → Offsets w ι
  | .defaultConstruct this => Function.update s this 1
  | .assignRaw this ptr => assign_raw addr s this ptr
  | .copyConstruct this ptr => copy addr s this ptr
  | .copyAssign this ptr => copy addr s this ptr
  | .convertAssign this ptr shift => assign addr s this ptr shift
  | .swap left right => swap addr s left right
  | .addAssign this diff size => inc_offset s this (diff * size)
  | .subAssign this diff size => dec_offset s this (diff * size)
  | .preIncrement this size => inc_offset s this size
  | .preDecrement this size => dec_offset s this size
  | .postIncrement this tmp size => inc_offset (copy addr s tmp this) this size
  | .postDecrement this tmp size => dec_offset (copy addr s tmp this) this size

/-- The same operation on raw pointer variables. -/
def rawStep (r : ι → BitVec w) : Op w ι → ι → BitVec w
  | .defaultConstruct this => Function.update r this 0
  | .assignRaw this ptr => Function.update r this ptr
  | .copyConstruct this ptr => Function.update r this (r ptr)
  | .copyAssign this ptr => Function.update r this (r ptr)
  | .convertAssign this ptr shift => Function.update r this (static_cast (shift.getD 0) (r ptr))
  | .swap left right => Function.update (Function.update r right (r left)) left (r right)
  | .addAssign this diff size => Function.update r this (r this + diff * size)
  | .subAssign this diff size => Function.update r this (r this - diff * size)
  | .preIncrement this size => Function.update r this (r this + size)
  | .preDecrement this size => Function.update r this (r this - size)
  | .postIncrement this tmp size =>
    Function.update (Function.update r tmp (r this)) this (r this + size)
  | .postDecrement this tmp size =>
    Function.update (Function.update r tmp (r this)) this (r this - size)

/-- The targets a pointer object at `a` can hold: null, and every address but
    the one whose distance is the null sentinel. -/
def Storable (a t : BitVec w) : Prop :=
  t = 0 ∨ t ≠ a + 1

/-- Arithmetic starts from a non-null pointer and ends at a non-null target
    that the object can hold. -/
def ArithmeticLegal (a source target : BitVec w) : Prop :=
  source ≠ 0 ∧ target ≠ 0 ∧ target ≠ a + 1

/-- The use of one operation that the code declares legal, on raw values. A
    postfix operator copies into a temporary object other than its operand. -/
def Legal (addr : ι → BitVec w) (r : ι → BitVec w) : Op w ι → Prop
  | .defaultConstruct _ => True
  | .assignRaw this ptr => Storable (addr this) ptr
  | .copyConstruct this ptr => Storable (addr this) (r ptr)
  | .copyAssign this ptr => Storable (addr this) (r ptr)
  | .convertAssign this ptr shift => Storable (addr this) (static_cast (shift.getD 0) (r ptr))
  | .swap left right => Storable (addr right) (r left) ∧ Storable (addr left) (r right)
  | .addAssign this diff size => ArithmeticLegal (addr this) (r this) (r this + diff * size)
  | .subAssign this diff size => ArithmeticLegal (addr this) (r this) (r this - diff * size)
  | .preIncrement this size => ArithmeticLegal (addr this) (r this) (r this + size)
  | .preDecrement this size => ArithmeticLegal (addr this) (r this) (r this - size)
  | .postIncrement this tmp size =>
    tmp ≠ this ∧ Storable (addr tmp) (r this) ∧ ArithmeticLegal (addr this) (r this) (r this + size)
  | .postDecrement this tmp size =>
    tmp ≠ this ∧ Storable (addr tmp) (r this) ∧ ArithmeticLegal (addr this) (r this) (r this - size)

/-- A run from default-constructed pointers, with the raw run beside it. -/
inductive LegalRun (addr : ι → BitVec w) : List (Op w ι) → Offsets w ι → (ι → BitVec w) → Prop where
  | nil : LegalRun addr [] (fun _ => 1) (fun _ => 0)
  | snoc {ops : List (Op w ι)} {s : Offsets w ι} {r : ι → BitVec w} {op : Op w ι}
      (hrun : LegalRun addr ops s r) (hlegal : Legal addr r op) :
      LegalRun addr (ops ++ [op]) (step addr s op) (rawStep r op)

/-- The representation invariant of one pointer object: it decodes to the raw
    value, and the sentinel stands for null and for nothing else. -/
def Holds (a offset t : BitVec w) : Prop :=
  offset_ptr_to_raw_pointer a offset = t ∧ (offset = 1 ↔ t = 0)

theorem holds_default (a : BitVec w) : Holds a 1 0 := by
  refine ⟨?_, by simp⟩
  rw [offset_ptr_to_raw_pointer_eq]
  simp [offset_ptr_to_raw_pointer_branching]

theorem Holds.eq_add {a offset t : BitVec w} (h : Holds a offset t) (hnull : t ≠ 0) :
    a + offset = t := by
  have hget := h.1
  rw [offset_ptr_to_raw_pointer_eq, offset_ptr_to_raw_pointer_branching,
    if_neg (mt h.2.mp hnull)] at hget
  exact hget

/-- Away from the sentinel the offset is the distance to a non-null target. -/
theorem holds_of_add {a offset t : BitVec w} (hadd : a + offset = t) (hnull : t ≠ 0)
    (hlegal : t ≠ a + 1) : Holds a offset t := by
  have hoffset : offset ≠ 1 := by
    intro hone
    exact hlegal (by rw [← hadd, hone])
  refine ⟨?_, iff_of_false hoffset hnull⟩
  rw [offset_ptr_to_raw_pointer_eq, offset_ptr_to_raw_pointer_branching, if_neg hoffset, hadd]

theorem holds_offset_ptr_to_offset {a t : BitVec w} (hstore : Storable a t) :
    Holds a (offset_ptr_to_offset t a) t := by
  rw [offset_ptr_to_offset_eq, offset_ptr_to_offset_branching]
  by_cases hnull : t = 0
  · rw [if_pos hnull, hnull]
    exact holds_default a
  · rw [if_neg hnull]
    apply holds_of_add _ hnull (hstore.resolve_left hnull)
    rw [BitVec.add_comm, BitVec.sub_add_cancel]

theorem Holds.from_other {a b offset t : BitVec w} (h : Holds b offset t) (hstore : Storable a t) :
    Holds a (offset_ptr_to_offset_from_other a b offset) t := by
  rw [offset_ptr_to_offset_from_other_eq, offset_ptr_to_offset_from_other_branching]
  by_cases hnull : t = 0
  · rw [if_pos (h.2.mpr hnull), hnull]
    exact holds_default a
  · rw [if_neg (mt h.2.mp hnull)]
    apply holds_of_add _ hnull (hstore.resolve_left hnull)
    rw [← h.eq_add hnull, ← BitVec.add_assoc, BitVec.add_comm a, BitVec.sub_add_cancel]

theorem Holds.add {a offset t bytes : BitVec w} (h : Holds a offset t)
    (hlegal : ArithmeticLegal a t (t + bytes)) : Holds a (offset + bytes) (t + bytes) := by
  obtain ⟨hsource, hnull, htarget⟩ := hlegal
  apply holds_of_add _ hnull htarget
  rw [← BitVec.add_assoc, h.eq_add hsource]

theorem Holds.sub {a offset t bytes : BitVec w} (h : Holds a offset t)
    (hlegal : ArithmeticLegal a t (t - bytes)) : Holds a (offset - bytes) (t - bytes) := by
  rw [BitVec.sub_eq_add_neg] at hlegal ⊢
  rw [BitVec.sub_eq_add_neg]
  exact h.add hlegal

theorem static_cast_zero (t : BitVec w) : static_cast 0 t = t := by
  unfold static_cast
  by_cases hnull : t = 0
  · rw [if_pos hnull, hnull]
  · rw [if_neg hnull]
    exact BitVec.add_zero t

/-- All pointer objects hold their raw variables. -/
def Agrees (addr : ι → BitVec w) (s : Offsets w ι) (r : ι → BitVec w) : Prop :=
  ∀ i, Holds (addr i) (s i) (r i)

theorem Agrees.update {addr : ι → BitVec w} {s : Offsets w ι} {r : ι → BitVec w}
    (h : Agrees addr s r) {this : ι} {offset t : BitVec w} (hthis : Holds (addr this) offset t) :
    Agrees addr (Function.update s this offset) (Function.update r this t) := by
  intro i
  by_cases hi : i = this
  · subst hi
    simpa using hthis
  · simpa [hi] using h i

theorem Agrees.copy {addr : ι → BitVec w} {s : Offsets w ι} {r : ι → BitVec w}
    (h : Agrees addr s r) {this ptr : ι} (hstore : Storable (addr this) (r ptr)) :
    Agrees addr (copy addr s this ptr) (Function.update r this (r ptr)) :=
  h.update ((h ptr).from_other hstore)

theorem Agrees.assign {addr : ι → BitVec w} {s : Offsets w ι} {r : ι → BitVec w}
    (h : Agrees addr s r) {this ptr : ι} (shift : Option (BitVec w))
    (hstore : Storable (addr this) (static_cast (shift.getD 0) (r ptr))) :
    Agrees addr (assign addr s this ptr shift)
      (Function.update r this (static_cast (shift.getD 0) (r ptr))) := by
  cases shift with
  | none =>
    simp only [Option.getD_none, static_cast_zero] at hstore ⊢
    exact h.copy hstore
  | some shift =>
    simp only [Option.getD_some] at hstore ⊢
    apply h.update
    have hget : get addr s ptr = r ptr := (h ptr).1
    rw [hget]
    exact holds_offset_ptr_to_offset hstore

theorem Agrees.swap {addr : ι → BitVec w} {s : Offsets w ι} {r : ι → BitVec w}
    (h : Agrees addr s r) {left right : ι} (hright : Storable (addr right) (r left))
    (hleft : Storable (addr left) (r right)) :
    Agrees addr (swap addr s left right)
      (Function.update (Function.update r right (r left)) left (r right)) := by
  apply (h.copy hright).update
  have hget : get addr s right = r right := (h right).1
  rw [hget]
  exact holds_offset_ptr_to_offset hleft

/-- One legal operation keeps every pointer object in step with its raw
    variable, on each of the re-biasing, raw and arithmetic paths. -/
theorem Agrees.step {addr : ι → BitVec w} {s : Offsets w ι} {r : ι → BitVec w}
    (h : Agrees addr s r) {op : Op w ι} (hlegal : Legal addr r op) :
    Agrees addr (step addr s op) (rawStep r op) := by
  cases op with
  | defaultConstruct this => exact h.update (holds_default _)
  | assignRaw this ptr => exact h.update (holds_offset_ptr_to_offset hlegal)
  | copyConstruct this ptr => exact h.copy hlegal
  | copyAssign this ptr => exact h.copy hlegal
  | convertAssign this ptr shift => exact h.assign shift hlegal
  | swap left right => exact h.swap hlegal.1 hlegal.2
  | addAssign this diff size => exact h.update ((h this).add hlegal)
  | subAssign this diff size => exact h.update ((h this).sub hlegal)
  | preIncrement this size => exact h.update ((h this).add hlegal)
  | preDecrement this size => exact h.update ((h this).sub hlegal)
  | postIncrement this tmp size =>
    obtain ⟨hne, hstore, harith⟩ := hlegal
    have hcopy := h.copy hstore
    have hthis := hcopy this
    simp only [Function.update_of_ne hne.symm] at hthis
    exact hcopy.update (hthis.add harith)
  | postDecrement this tmp size =>
    obtain ⟨hne, hstore, harith⟩ := hlegal
    have hcopy := h.copy hstore
    have hthis := hcopy this
    simp only [Function.update_of_ne hne.symm] at hthis
    exact hcopy.update (hthis.sub harith)

theorem LegalRun.agrees {addr : ι → BitVec w} {ops : List (Op w ι)} {s : Offsets w ι}
    {r : ι → BitVec w} (hrun : LegalRun addr ops s r) : Agrees addr s r := by
  induction hrun with
  | nil => exact fun i => holds_default _
  | snoc _ hlegal ih => exact ih.step hlegal

end interprocess.offset_ptr
