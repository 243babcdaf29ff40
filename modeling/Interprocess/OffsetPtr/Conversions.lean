import Mathlib.Data.BitVec

namespace interprocess.ipcdetail

variable {w : Nat}

/-- The integer value of a C++ comparison result. -/
def bool_to_offset (b : Bool) : BitVec w :=
  if b then 1 else 0

/-- The branchless conversion: the comparison with the null sentinel becomes an
    all-zero or an all-one mask. -/
def offset_ptr_to_raw_pointer (this_ptr offset : BitVec w) : BitVec w :=
  let mask := bool_to_offset (offset == 1) - 1
  let target_offset := this_ptr + offset
  target_offset &&& mask

/-- The branching version kept beside `offset_ptr_to_raw_pointer`. -/
def offset_ptr_to_raw_pointer_branching (this_ptr offset : BitVec w) : BitVec w :=
  if offset = 1 then 0 else this_ptr + offset

/-- The branchless offset of `ptr` from `this_ptr`. -/
def offset_ptr_to_offset (ptr this_ptr : BitVec w) : BitVec w :=
  let offset := ptr - this_ptr
  let offset := offset - 1
  let mask := bool_to_offset (ptr == 0) - 1
  let offset := offset &&& mask
  offset + 1

/-- The branching version kept beside `offset_ptr_to_offset`. -/
def offset_ptr_to_offset_branching (ptr this_ptr : BitVec w) : BitVec w :=
  if ptr = 0 then 1 else ptr - this_ptr

/-- The branchless re-biasing of an offset relative to `other_ptr` into one
    relative to `this_ptr`. -/
def offset_ptr_to_offset_from_other (this_ptr other_ptr other_offset : BitVec w) : BitVec w :=
  let mask := bool_to_offset (other_offset == 1) - 1
  let offset := other_ptr - this_ptr
  let offset := offset &&& mask
  offset + other_offset

/-- The branching version kept beside `offset_ptr_to_offset_from_other`. -/
def offset_ptr_to_offset_from_other_branching (this_ptr other_ptr other_offset : BitVec w) : BitVec w :=
  if other_offset = 1 then 1 else other_ptr - this_ptr + other_offset

theorem and_mask_of_true (x : BitVec w) : x &&& (bool_to_offset true - 1) = 0 := by
  simp [bool_to_offset]

theorem and_mask_of_false (x : BitVec w) : x &&& (bool_to_offset false - 1) = x := by
  have hones : bool_to_offset false - 1 = BitVec.allOnes w := by
    rw [← BitVec.neg_one_eq_allOnes]
    simp [bool_to_offset]
  rw [hones, BitVec.and_allOnes]

theorem offset_ptr_to_raw_pointer_eq (this_ptr offset : BitVec w) :
    offset_ptr_to_raw_pointer this_ptr offset = offset_ptr_to_raw_pointer_branching this_ptr offset := by
  unfold offset_ptr_to_raw_pointer offset_ptr_to_raw_pointer_branching
  by_cases hnull : offset = 1
  · simp only [hnull, beq_self_eq_true, if_true]
    exact and_mask_of_true _
  · simp only [hnull, beq_eq_false_iff_ne.mpr hnull, if_false]
    exact and_mask_of_false _

theorem offset_ptr_to_offset_eq (ptr this_ptr : BitVec w) :
    offset_ptr_to_offset ptr this_ptr = offset_ptr_to_offset_branching ptr this_ptr := by
  unfold offset_ptr_to_offset offset_ptr_to_offset_branching
  by_cases hnull : ptr = 0
  · simp only [hnull, beq_self_eq_true, if_true, and_mask_of_true]
    exact BitVec.zero_add 1
  · simp only [hnull, beq_eq_false_iff_ne.mpr hnull, if_false, and_mask_of_false]
    exact BitVec.sub_add_cancel _ _

theorem offset_ptr_to_offset_from_other_eq (this_ptr other_ptr other_offset : BitVec w) :
    offset_ptr_to_offset_from_other this_ptr other_ptr other_offset =
      offset_ptr_to_offset_from_other_branching this_ptr other_ptr other_offset := by
  unfold offset_ptr_to_offset_from_other offset_ptr_to_offset_from_other_branching
  by_cases hnull : other_offset = 1
  · simp only [hnull, beq_self_eq_true, if_true, and_mask_of_true]
    exact BitVec.zero_add 1
  · simp only [hnull, beq_eq_false_iff_ne.mpr hnull, if_false, and_mask_of_false]

end interprocess.ipcdetail
