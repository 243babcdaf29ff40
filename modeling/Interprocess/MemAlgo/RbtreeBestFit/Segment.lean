import Interprocess.MemAlgo.RbtreeBestFit.Allocate

namespace interprocess.rbtree_best_fit

open ipcdetail Memory

variable (P : Traits)

def priv_first_block_offset_from_this (this extra_hdr_bytes : Nat) : Nat :=
  size_sub (get_rounded_size (this + P.sizeof_rbtree_best_fit + extra_hdr_bytes) P.Alignment) this

def priv_first_block (h : Heap) : Nat :=
  h.this + priv_first_block_offset_from_this P h.this h.m_extra_hdr_bytes

def priv_end_block (h : Heap) : Nat :=
  let block1_off := priv_first_block_offset_from_this P h.this h.m_extra_hdr_bytes
  h.this + block1_off + ((h.m_size - block1_off) / P.Alignment - P.EndCtrlBlockUnits) * P.Alignment

/-- Makes the first block and the end block, whose fields other than `m_prev_size`
    are not initialised by its creation. -/
def priv_add_segment (h : Heap) (addr segment_size : Nat) : Heap :=
  let mem := new_block_ctrl P h.mem addr
  let mem := set_size mem addr (segment_size / P.Alignment - P.EndCtrlBlockUnits)
  let end_block := addr + m_size mem addr * P.Alignment
  let mem := priv_mark_as_free_block P mem addr
  let distance := (end_block - addr) / P.Alignment % 2 ^ 62
  let mem := set_size mem end_block distance
  let mem := set_prev_size mem addr distance
  let mem := set_allocated mem end_block true
  let mem := set_prev_allocated mem addr true
  Heap.insert P { h with mem } addr

/-- The constructor, on memory that is there already. -/
def construct (this segment_size extra_hdr_bytes : Nat) (mem : Memory) : Heap :=
  let block1_off := priv_first_block_offset_from_this P this extra_hdr_bytes
  priv_add_segment P ⟨this, extra_hdr_bytes, segment_size, 0, [], mem⟩ (this + block1_off)
    (segment_size - block1_off)

def get_free_memory (h : Heap) : Nat :=
  size_sub (size_sub h.m_size h.m_allocated)
    (priv_first_block_offset_from_this P h.this h.m_extra_hdr_bytes)

def all_memory_deallocated (h : Heap) : Prop :=
  let block1_off := priv_first_block_offset_from_this P h.this h.m_extra_hdr_bytes
  h.m_allocated = 0 ∧ ∃ block, h.m_imultiset = [block] ∧
    m_size h.mem block = (h.m_size - block1_off - P.EndCtrlBlockBytes) / P.Alignment

/-- The loop of `zero_free_memory` over the nodes of the tree. -/
def zero_blocks (m : Memory) : List Nat → Memory
  | [] => m
  | ib :: nodes =>
    zero_blocks (m.zero (ib + P.BlockCtrlBytes) (m_size m ib * P.Alignment - P.BlockCtrlBytes)) nodes

def zero_free_memory (h : Heap) : Heap :=
  { h with mem := zero_blocks P h.mem h.m_imultiset }

/-- Where the segment is, which only `grow` and `shrink_to_fit` change. -/
def Heap.segment (h : Heap) : Nat × Nat × Nat :=
  (h.this, h.m_extra_hdr_bytes, h.m_size)

section Same

variable {P} {h : Heap}

@[simp] theorem segment_mk (h : Heap) (m_allocated : Nat) (m_imultiset : List Nat) (mem : Memory) :
    (Heap.mk h.this h.m_extra_hdr_bytes h.m_size m_allocated m_imultiset mem).segment = h.segment :=
  rfl

theorem segment_if {c : Prop} [Decidable c] {h₁ h₂ h : Heap} (hthen : h₁.segment = h.segment)
    (helse : h₂.segment = h.segment) : (if c then h₁ else h₂).segment = h.segment := by
  split <;> assumption

theorem segment_answer_if {α : Type} {c : Prop} [Decidable c] {x y : Heap × α} {h : Heap}
    (hthen : x.1.segment = h.segment) (helse : y.1.segment = h.segment) :
    (if c then x else y).1.segment = h.segment := by
  split <;> assumption

@[simp] theorem segment_insert (x : Nat) : (h.insert P x).segment = h.segment :=
  rfl

@[simp] theorem segment_insert_begin (x : Nat) : (h.insert_begin P x).segment = h.segment :=
  rfl

@[simp] theorem segment_erase (x : Nat) : (h.erase P x).segment = h.segment :=
  rfl

@[simp] theorem segment_take_block (block : Nat) : (take_block P h block).1.segment = h.segment :=
  segment_mk h _ _ _

@[simp] theorem segment_priv_check_and_allocate (nunits block received_size : Nat) :
    (priv_check_and_allocate P h nunits block received_size).1.segment = h.segment := by
  unfold priv_check_and_allocate
  simp only
  split_ifs <;> simp

@[simp] theorem segment_merge (block other node : Nat) :
    (merge P h block other node).segment = h.segment := by
  rw [merge, segment_erase, segment_mk]

@[simp] theorem segment_priv_deallocate (addr : Nat) :
    (priv_deallocate P h addr).segment = h.segment := by
  unfold priv_deallocate
  split
  · rfl
  · rw [segment_insert, segment_mk]
    refine segment_if ?_ ?_
    · rw [segment_merge]
      refine segment_if ?_ (segment_mk h _ _ _)
      rw [segment_merge, segment_mk]
    · refine segment_if ?_ (segment_mk h _ _ _)
      rw [segment_merge, segment_mk]

@[simp] theorem segment_expand_split (block next_block old intended rem : Nat) :
    (expand_split P h block next_block old intended rem).segment = h.segment := by
  unfold expand_split
  rw [segment_mk, segment_insert, segment_mk, segment_erase]

@[simp] theorem segment_expand_merge (block next_block old merged : Nat) :
    (expand_merge P h block next_block old merged).segment = h.segment := by
  unfold expand_merge
  rw [segment_mk, segment_erase]

@[simp] theorem segment_priv_expand (ptr min_size preferred_size : Nat) :
    (priv_expand P h ptr min_size preferred_size).1.segment = h.segment := by
  unfold priv_expand
  simp only
  refine segment_answer_if rfl (segment_answer_if rfl (segment_answer_if rfl ?_))
  exact segment_if (segment_expand_split _ _ _ _ _) (segment_expand_merge _ _ _ _)

@[simp] theorem segment_reposition (block : Nat) : (reposition P h block).segment = h.segment := by
  unfold reposition
  split
  · rfl
  · exact segment_if (by simp) rfl

@[simp] theorem segment_expand_backwards_split (reuse prev_block needs received : Nat) :
    (expand_backwards_split P h reuse prev_block needs received).1.segment = h.segment := by
  unfold expand_backwards_split
  simp only
  rw [segment_mk, segment_reposition, segment_mk]

@[simp] theorem segment_expand_backwards_merge (reuse prev_block received : Nat) :
    (expand_backwards_merge P h reuse prev_block received).1.segment = h.segment := by
  unfold expand_backwards_merge
  simp only
  rw [segment_mk, segment_erase]

@[simp] theorem segment_expand_backwards (fwd : Bool) (s received reuse_ptr sizeof alignof : Nat) :
    (expand_backwards P h fwd s received reuse_ptr sizeof alignof).1.segment = h.segment := by
  have hfwd : (if fwd then (priv_expand P h reuse_ptr received received).1 else h).segment =
      h.segment := segment_if (by simp) rfl
  unfold expand_backwards
  refine segment_answer_if rfl ?_
  simp only
  split
  · rfl
  · refine segment_answer_if ?_ rfl
    refine segment_answer_if ?_ (segment_answer_if ?_ hfwd)
    · rw [segment_expand_backwards_split, hfwd]
    · rw [segment_expand_backwards_merge, hfwd]

@[simp] theorem segment_priv_expand_both_sides (command : allocation_type)
    (min_size preferred_size reuse_ptr : Nat) (only : Bool) (sizeof alignof : Nat) :
    (priv_expand_both_sides P h command min_size preferred_size reuse_ptr only sizeof
      alignof).1.segment = h.segment := by
  have hforward : (if command.expand_fwd then priv_expand P h reuse_ptr min_size preferred_size
      else
        let received := size P h reuse_ptr
        (h, decide (preferred_size ≤ received ∨ min_size ≤ received), received)).1.segment =
      h.segment := segment_answer_if (by simp) rfl
  unfold priv_expand_both_sides
  refine segment_answer_if hforward (segment_answer_if ?_ hforward)
  rw [segment_expand_backwards, hforward]

@[simp] theorem segment_shrink (ptr max_size preferred_size : Nat) :
    (shrink P h ptr max_size preferred_size).1.segment = h.segment := by
  unfold shrink
  refine segment_answer_if rfl (segment_answer_if rfl ?_)
  rw [segment_priv_deallocate, segment_mk]

theorem segment_best_fit {limit_size preferred_size : Nat} {answer : Heap × Nat × Nat}
    (hanswer : best_fit P h limit_size preferred_size = some answer) :
    answer.1.segment = h.segment := by
  unfold best_fit at hanswer
  simp only at hanswer
  split at hanswer
  · rw [← Option.some.inj hanswer]
    exact segment_priv_check_and_allocate _ _ _
  · split at hanswer
    · split_ifs at hanswer
      rw [← Option.some.inj hanswer]
      exact segment_priv_check_and_allocate _ _ _
    · cases hanswer

@[simp] theorem segment_priv_allocate_new (limit_size preferred_size : Nat) :
    (priv_allocate_new P h limit_size preferred_size).1.segment = h.segment := by
  unfold priv_allocate_new
  refine segment_answer_if rfl ?_
  cases hfit : best_fit P h limit_size preferred_size with
  | none => rfl
  | some answer => exact segment_best_fit hfit

@[simp] theorem segment_split_aligned (buffer nbytes : Nat) :
    (split_aligned P h buffer nbytes).segment = h.segment := by
  unfold split_aligned
  refine segment_if ?_ rfl
  rw [segment_priv_deallocate, segment_mk]

@[simp] theorem segment_split_overaligned (buffer nbytes alignment : Nat) :
    (split_overaligned P h buffer nbytes alignment).segment = h.segment := by
  unfold split_overaligned
  simp only
  rw [segment_priv_deallocate, segment_mk]
  refine segment_if ?_ (segment_mk h _ _ _)
  rw [segment_priv_deallocate, segment_mk]

@[simp] theorem segment_priv_allocate_overaligned (nbytes alignment : Nat) :
    (priv_allocate_overaligned P h nbytes alignment).1.segment = h.segment := by
  unfold priv_allocate_overaligned
  refine segment_answer_if (segment_priv_allocate_new _ _) (segment_answer_if ?_ ?_)
  · rw [segment_split_aligned, segment_priv_allocate_new]
  · rw [segment_split_overaligned, segment_priv_allocate_new]

@[simp] theorem segment_allocate_aligned (nbytes alignment : Nat) :
    (allocate_aligned P h nbytes alignment).1.segment = h.segment := by
  unfold allocate_aligned
  refine segment_answer_if rfl (segment_answer_if ?_ ?_)
  · exact segment_priv_allocate_new _ _
  · exact segment_priv_allocate_overaligned _ _

end Same

end interprocess.rbtree_best_fit
