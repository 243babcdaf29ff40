import Interprocess.MemAlgo.RbtreeBestFit.Operations

namespace interprocess.rbtree_best_fit

open ipcdetail Memory

/-- The bytes to grow backwards so that the distance is a multiple of the object
    size and of the alignment, after the least common multiple of the two. -/
def calculate_lcm_and_needs_backwards_lcmed
    (backwards_multiple alignment received_size size_to_achieve : Nat) : Option (Nat × Nat) :=
  let max := Nat.max backwards_multiple alignment
  let min := Nat.min backwards_multiple alignment
  if backwards_multiple &&& size_sub backwards_multiple 1 = 0 then
    if size_to_achieve &&& size_sub backwards_multiple 1 ≠ 0 then none
    else
      let current_forward := get_truncated_size_po2 received_size backwards_multiple
      let needs_backwards := size_sub size_to_achieve current_forward
      some (max, get_rounded_size_po2 needs_backwards max)
  else
    let current_forward := get_truncated_size received_size backwards_multiple
    let needs_backwards := size_sub size_to_achieve current_forward
    if backwards_multiple &&& (alignment - 1) = 0 then some (backwards_multiple, needs_backwards)
    else if backwards_multiple &&& (alignment / 2 - 1) = 0 then
      some (backwards_multiple * 2 % 2 ^ 64,
        if needs_backwards &&& (alignment - 1) ≠ 0 then
          (needs_backwards + backwards_multiple) % 2 ^ 64
        else needs_backwards)
    else if backwards_multiple &&& (alignment / 4 - 1) = 0 then
      let remainder := (needs_backwards &&& (alignment - 1)) >>> (alignment / 8)
      some (backwards_multiple * 4 % 2 ^ 64,
        if remainder ≠ 0 then
          if backwards_multiple &&& alignment / 2 ≠ 0 then
            (needs_backwards + remainder * backwards_multiple) % 2 ^ 64
          else (needs_backwards + size_sub 4 remainder * backwards_multiple) % 2 ^ 64
        else needs_backwards)
    else some (ipcdetail.lcm max min, get_rounded_size needs_backwards (ipcdetail.lcm max min))

/-- The element in front of `x`. -/
def predecessor (x : Nat) : List Nat → Option Nat
  | a :: b :: rest => if b = x then some a else predecessor x (b :: rest)
  | _ => none

section Expand

variable (P : Traits)

/-- A node whose size went down moves when it is smaller than the one before it. -/
def reposition (h : Heap) (block : Nat) : Heap :=
  match predecessor block h.m_imultiset with
  | none => h
  | some before =>
    if m_size h.mem block < m_size h.mem before then (h.erase P block).insert_begin P block else h

/-- The backward expansion that leaves a part of the previous block free. -/
def expand_backwards_split (h : Heap) (reuse prev_block needs_backwards_aligned received : Nat) :
    Heap × Nat × Nat :=
  let new_block := reuse - needs_backwards_aligned
  let mem := set_size h.mem new_block (P.AllocatedCtrlUnits +
    (needs_backwards_aligned + (received - UsableByPreviousChunk)) / P.Alignment)
  let mem := priv_mark_as_allocated_block P mem new_block
  let mem := set_size mem prev_block ((new_block - prev_block) / P.Alignment)
  let mem := priv_mark_as_free_block P mem prev_block
  let h := reposition P { h with mem } prev_block
  ({ h with m_allocated := h.m_allocated + needs_backwards_aligned },
    priv_get_user_buffer P new_block, needs_backwards_aligned + received)

/-- The backward expansion over the whole previous block. -/
def expand_backwards_merge (h : Heap) (reuse prev_block received : Nat) : Heap × Nat × Nat :=
  let h := h.erase P prev_block
  let prev_units := m_size h.mem prev_block
  let mem := set_size h.mem prev_block (prev_units + m_size h.mem reuse)
  let mem := priv_mark_as_allocated_block P mem prev_block
  ({ h with mem, m_allocated := h.m_allocated + prev_units * P.Alignment },
    priv_get_user_buffer P prev_block, received + prev_units * P.Alignment)

/-- The part of `priv_expand_both_sides` that looks at the previous block. -/
def expand_backwards (h : Heap) (expand_fwd : Bool) (size_to_achieve received reuse_ptr : Nat)
    (sizeof_object alignof_object : Nat) : Heap × Nat × Nat :=
  let reuse := priv_get_block P reuse_ptr
  if m_prev_allocated h.mem reuse then (h, 0, received)
  else
    let prev_block := priv_prev_block P h.mem reuse
    match calculate_lcm_and_needs_backwards_lcmed sizeof_object alignof_object received
      size_to_achieve with
    | none => (h, 0, received)
    | some (lcm_size, needs_backwards_aligned) =>
      if needs_backwards_aligned ≤ m_size h.mem prev_block * P.Alignment then
        let h := if expand_fwd then (priv_expand P h reuse_ptr received received).1 else h
        if needs_backwards_aligned / P.Alignment + P.BlockCtrlUnits ≤ m_size h.mem prev_block then
          expand_backwards_split P h reuse prev_block needs_backwards_aligned received
        else if needs_backwards_aligned / P.Alignment ≤ m_size h.mem prev_block ∧
            m_size h.mem prev_block * P.Alignment % lcm_size = 0 then
          expand_backwards_merge P h reuse prev_block received
        else (h, 0, received)
      else (h, 0, received)

/-- Grows a buffer forwards and backwards; null is 0, and the last result is the
    size to report. -/
def priv_expand_both_sides (h : Heap) (command : allocation_type) (min_size preferred_size : Nat)
    (reuse_ptr : Nat) (only_preferred_backwards : Bool) (sizeof_object alignof_object : Nat) :
    Heap × Nat × Nat :=
  let forward := if command.expand_fwd then priv_expand P h reuse_ptr min_size preferred_size
    else
      let received := size P h reuse_ptr
      (h, decide (preferred_size ≤ received ∨ min_size ≤ received), received)
  if forward.2.1 then (forward.1, reuse_ptr, forward.2.2)
  else if command.expand_bwd then
    expand_backwards P forward.1 command.expand_fwd
      (if only_preferred_backwards then preferred_size else min_size) forward.2.2 reuse_ptr
      sizeof_object alignof_object
  else (forward.1, 0, forward.2.2)

/-- The size a shrink would give, if it is possible. -/
def try_shrink (h : Heap) (ptr max_size preferred_size : Nat) : Bool × Nat :=
  let old_block_units := m_size h.mem (priv_get_block P ptr)
  let received := user_bytes P old_block_units
  let max_user_units := floor_units P (size_sub max_size UsableByPreviousChunk)
  let preferred_user_units := ceil_units P (size_sub preferred_size UsableByPreviousChunk)
  let old_user_units := old_block_units - P.AllocatedCtrlUnits
  let shrunk_user_units := max (P.BlockCtrlUnits - P.AllocatedCtrlUnits) preferred_user_units
  if max_user_units < preferred_user_units then (false, received)
  else if old_user_units < preferred_user_units then (false, received)
  else if old_user_units = preferred_user_units then (true, received)
  else if max_user_units < shrunk_user_units then (false, received)
  else if old_user_units - shrunk_user_units < P.BlockCtrlUnits then (false, received)
  else (true, shrunk_user_units * P.Alignment + UsableByPreviousChunk)

/-- Cuts the end of a buffer off and gives it back. -/
def shrink (h : Heap) (ptr max_size preferred_size : Nat) : Heap × Bool × Nat :=
  let block := priv_get_block P ptr
  let old_block_units := m_size h.mem block
  let answer := try_shrink P h ptr max_size preferred_size
  if !answer.1 then (h, false, answer.2)
  else if old_block_units - P.AllocatedCtrlUnits =
      ceil_units P (size_sub preferred_size UsableByPreviousChunk) then (h, true, answer.2)
  else
    let mem := set_size h.mem block
      ((answer.2 - UsableByPreviousChunk) / P.Alignment + P.AllocatedCtrlUnits)
    let new_block := block + m_size mem block * P.Alignment
    let mem := set_size mem new_block (old_block_units - m_size mem block)
    let mem := priv_mark_as_allocated_block P mem block
    let mem := priv_mark_as_allocated_block P mem new_block
    (priv_deallocate P { h with mem } (priv_get_user_buffer P new_block), true, answer.2)

end Expand

end interprocess.rbtree_best_fit
