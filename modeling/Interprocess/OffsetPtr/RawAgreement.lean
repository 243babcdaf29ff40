import Interprocess.OffsetPtr.Run

open interprocess.ipcdetail

namespace interprocess.offset_ptr

variable {w : Nat} {ι : Type}

/-- The difference of two raw pointers to elements of `size` bytes. -/
def rawDifference (size p q : BitVec w) : BitVec w :=
  (p - q).sdiv size

def operator_sub (addr : ι → BitVec w) (s : Offsets w ι) (size : BitVec w) (pt pt2 : ι) : BitVec w :=
  rawDifference size (get addr s pt) (get addr s pt2)

def operator_eq (addr : ι → BitVec w) (s : Offsets w ι) (pt1 pt2 : ι) : Bool :=
  get addr s pt1 == get addr s pt2

def operator_lt (addr : ι → BitVec w) (s : Offsets w ι) (pt1 pt2 : ι) : Bool :=
  (get addr s pt1).ult (get addr s pt2)

def operator_le (addr : ι → BitVec w) (s : Offsets w ι) (pt1 pt2 : ι) : Bool :=
  (get addr s pt1).ule (get addr s pt2)

/-- The conversion to `bool` inspects the stored offset, not the address. -/
def operator_bool (s : Offsets w ι) (this : ι) : Bool :=
  s this != 1

theorem Agrees.operator_bool_eq {addr : ι → BitVec w} {s : Offsets w ι} {r : ι → BitVec w}
    (h : Agrees addr s r) (i : ι) : operator_bool s i = (r i != 0) := by
  unfold operator_bool
  rw [Bool.eq_iff_iff, bne_iff_ne, bne_iff_ne]
  exact not_congr (h i).2

/-- Moving every pointer object by one displacement moves every target with it
    and keeps null pointers null. -/
theorem Agrees.relocate {addr : ι → BitVec w} {s : Offsets w ι} {r : ι → BitVec w}
    (h : Agrees addr s r) (displacement : BitVec w) (i : ι) :
    get (fun j => addr j + displacement) s i = static_cast displacement (r i) := by
  unfold get static_cast
  rw [offset_ptr_to_raw_pointer_eq, offset_ptr_to_raw_pointer_branching]
  by_cases hnull : r i = 0
  · rw [if_pos ((h i).2.mpr hnull), if_pos hnull]
  · rw [if_neg (mt (h i).2.mp hnull), if_neg hnull, ← (h i).eq_add hnull,
      BitVec.add_assoc, BitVec.add_assoc, BitVec.add_comm displacement]

/-- The branchless conversions equal the branching ones, a stored target reads
    back, and along every legal run each offset pointer is indistinguishable
    from its raw variable, before and after relocation. -/
theorem agrees_with_raw_pointers [DecidableEq ι] (addr : ι → BitVec w) :
    (∀ this_ptr offset : BitVec w, offset_ptr_to_raw_pointer this_ptr offset =
      offset_ptr_to_raw_pointer_branching this_ptr offset) ∧
    (∀ ptr this_ptr : BitVec w, offset_ptr_to_offset ptr this_ptr =
      offset_ptr_to_offset_branching ptr this_ptr) ∧
    (∀ this_ptr other_ptr other_offset : BitVec w,
      offset_ptr_to_offset_from_other this_ptr other_ptr other_offset =
        offset_ptr_to_offset_from_other_branching this_ptr other_ptr other_offset) ∧
    (∀ a t : BitVec w, t = 0 ∨ t ≠ a + 1 →
      offset_ptr_to_raw_pointer a (offset_ptr_to_offset t a) = t) ∧
    ∀ (ops : List (Op w ι)) (s : Offsets w ι) (r : ι → BitVec w), LegalRun addr ops s r →
      (∀ i, get addr s i = r i) ∧
      (∀ size i j, operator_sub addr s size i j = rawDifference size (r i) (r j)) ∧
      (∀ i j, operator_eq addr s i j = (r i == r j)) ∧
      (∀ i j, operator_lt addr s i j = (r i).ult (r j)) ∧
      (∀ i j, operator_le addr s i j = (r i).ule (r j)) ∧
      (∀ i, operator_bool s i = (r i != 0)) ∧
      (∀ displacement i, get (fun j => addr j + displacement) s i =
        static_cast displacement (r i)) := by
  refine ⟨offset_ptr_to_raw_pointer_eq, offset_ptr_to_offset_eq, offset_ptr_to_offset_from_other_eq,
    fun a t hstore => (holds_offset_ptr_to_offset hstore).1, ?_⟩
  intro ops s r hrun
  have hagrees := hrun.agrees
  have hget : ∀ i, get addr s i = r i := fun i => (hagrees i).1
  refine ⟨hget, ?_, ?_, ?_, ?_, hagrees.operator_bool_eq, hagrees.relocate⟩
  · intro size i j
    rw [operator_sub, hget, hget]
  · intro i j
    rw [operator_eq, hget, hget]
  · intro i j
    rw [operator_lt, hget, hget]
  · intro i j
    rw [operator_le, hget, hget]

/-- Where two pointers stand. -/
def two_addresses : Fin 2 → BitVec 64 :=
  fun i => if i = 0 then 1000 else 2000

/-- The second of two pointers is a copy of the first, moved by one element of four
    bytes. -/
theorem agrees_with_raw_pointers_after_increment : ∃ s r,
    LegalRun two_addresses [.assignRaw 0 5000, .copyAssign 1 0, .preIncrement 1 4] s r ∧
      get two_addresses s 1 = 5004 ∧ operator_sub two_addresses s 4 1 0 = 1 ∧
      operator_lt two_addresses s 0 1 = true := by
  have hassign : Legal two_addresses (fun _ => 0) (.assignRaw 0 5000) := by
    unfold Legal Storable
    decide
  have hcopy : Legal two_addresses (rawStep (fun _ => 0) (.assignRaw 0 5000)) (.copyAssign 1 0) := by
    unfold Legal Storable
    decide
  have hmove : Legal two_addresses (rawStep (rawStep (fun _ => 0) (.assignRaw 0 5000))
      (.copyAssign 1 0)) (.preIncrement 1 4) := by
    unfold Legal ArithmeticLegal
    decide
  have hrun : LegalRun two_addresses [.assignRaw 0 5000, .copyAssign 1 0, .preIncrement 1 4] _ _ :=
    ((LegalRun.nil.snoc hassign).snoc hcopy).snoc hmove
  obtain ⟨hget, hsub, -, hlt, -⟩ := (agrees_with_raw_pointers two_addresses).2.2.2.2 _ _ _ hrun
  refine ⟨_, _, hrun, (hget 1).trans ?_, (hsub 4 1 0).trans ?_, (hlt 0 1).trans ?_⟩
  · decide
  · decide
  · decide

end interprocess.offset_ptr
