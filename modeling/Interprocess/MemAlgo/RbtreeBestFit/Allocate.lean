import Interprocess.MemAlgo.RbtreeBestFit.Expand

namespace interprocess.rbtree_best_fit

open ipcdetail Memory

variable (P : Traits)

/-- The best fit for the preferred size, or else the biggest block if it has the
    limit size. -/
def best_fit (h : Heap) (limit_size preferred_size : Nat) : Option (Heap × Nat × Nat) :=
  let preferred_units := priv_get_total_units P preferred_size
  let limit_units := priv_get_total_units P limit_size
  match h.lower_bound preferred_units with
  | some it => some (priv_check_and_allocate P h preferred_units it preferred_size)
  | none =>
    match h.m_imultiset.getLast? with
    | some it =>
      if limit_units ≤ m_size h.mem it then
        some (priv_check_and_allocate P h (m_size h.mem it) it preferred_size)
      else none
    | none => none

/-- `priv_allocate` for `allocate_new` without a buffer to reuse and with the
    alignment of the algorithm: the buffer or 0, and its size. -/
def priv_allocate_new (h : Heap) (limit_size preferred_size : Nat) : Heap × Nat × Nat :=
  if preferred_size < limit_size then (h, 0, 0)
  else
    match best_fit P h limit_size preferred_size with
    | some answer => answer
    | none => (h, 0, preferred_size)

/-- The units to ask for so that an aligned buffer fits with a free block in
    front of it. -/
def overaligned_units (nbytes alignment : Nat) : Nat :=
  let needed_units := user_buffer_ceil_units P nbytes
  needed_units + max needed_units (P.BlockCtrlUnits - P.AllocatedCtrlUnits) + P.BlockCtrlUnits +
    (alignment - P.Alignment) / P.Alignment

/-- The end of a block that is aligned by luck is given back. -/
def split_aligned (h : Heap) (buffer nbytes : Nat) : Heap :=
  let first := priv_get_block P buffer
  let orig_first_units := m_size h.mem first
  let first_min_units := max (user_buffer_ceil_units P nbytes + P.AllocatedCtrlUnits) P.BlockCtrlUnits
  if first_min_units + P.BlockCtrlUnits ≤ orig_first_units then
    let second := first + P.Alignment * first_min_units
    let mem := set_size h.mem first first_min_units
    let mem := priv_mark_as_allocated_block P mem first
    let mem := set_size mem second (orig_first_units - first_min_units)
    let mem := priv_mark_as_allocated_block P mem second
    priv_deallocate P { h with mem } (priv_get_user_buffer P second)
  else h

/-- The first aligned buffer of a block that leaves room for a free block in
    front of it. -/
def aligned_buffer (buffer alignment : Nat) : Nat :=
  (buffer + P.BlockCtrlBytes + alignment - 1) &&& (2 ^ 64 - alignment)

/-- The parts of a block in front of and behind the aligned buffer are given
    back. -/
def split_overaligned (h : Heap) (buffer nbytes alignment : Nat) : Heap :=
  let first := priv_get_block P buffer
  let orig_first_units := m_size h.mem first
  let second := priv_get_block P (aligned_buffer P buffer alignment)
  let final_first_units := (second - first) / P.Alignment % 2 ^ 62
  let orig_second_units := orig_first_units - final_first_units
  let second_min_units := max P.BlockCtrlUnits
    (user_buffer_ceil_units P nbytes + P.AllocatedCtrlUnits)
  let h := if second_min_units + P.BlockCtrlUnits ≤ orig_second_units then
      let third := second + P.Alignment * second_min_units
      let mem := new_block_ctrl P h.mem third
      let mem := set_size mem second second_min_units
      let mem := set_size mem third (orig_second_units - m_size mem second)
      let mem := priv_mark_as_allocated_block P mem second
      let mem := priv_mark_as_allocated_block P mem third
      priv_deallocate P { h with mem } (priv_get_user_buffer P third)
    else
      { h with mem := priv_mark_as_allocated_block P (set_size h.mem second orig_second_units) second }
  let mem := set_size h.mem first final_first_units
  let mem := priv_mark_as_allocated_block P mem first
  priv_deallocate P { h with mem } (priv_get_user_buffer P first)

def priv_allocate_overaligned (h : Heap) (nbytes alignment : Nat) : Heap × Nat :=
  let request := (overaligned_units P nbytes alignment * P.Alignment + UsableByPreviousChunk) % 2 ^ 64
  let answer := priv_allocate_new P h request request
  let buffer := answer.2.1
  if buffer = 0 then (answer.1, 0)
  else if buffer &&& (alignment - 1) = 0 then (split_aligned P answer.1 buffer nbytes, buffer)
  else (split_overaligned P answer.1 buffer nbytes alignment, aligned_buffer P buffer alignment)

def allocate_aligned (h : Heap) (nbytes alignment : Nat) : Heap × Nat :=
  if alignment &&& (alignment - 1) ≠ 0 then (h, 0)
  else if alignment ≤ P.Alignment then
    let answer := priv_allocate_new P h nbytes nbytes
    (answer.1, answer.2.1)
  else priv_allocate_overaligned P h nbytes alignment

/-- What a request changes: the heap, the returned pointer, the reported size and
    the pointer to reuse. -/
structure Answer where
  heap : Heap
  ret : Nat
  received : Nat
  reuse_ptr : Nat

/-- The last attempt of `priv_allocate`, with the minimum size. -/
def expand_minimum (h : Heap) (command : allocation_type) (limit_size preferred_size reuse_ptr : Nat)
    (sizeof_object alignof_object received : Nat) : Answer :=
  if reuse_ptr ≠ 0 ∧ (command.expand_fwd ∨ command.expand_bwd) then
    let answer := priv_expand_both_sides P h command limit_size preferred_size reuse_ptr false
      sizeof_object alignof_object
    ⟨answer.1, answer.2.1, answer.2.2, reuse_ptr⟩
  else ⟨h, 0, received, 0⟩

/-- The attempts of `priv_allocate` after the first expansion. -/
def allocate_or_expand (h : Heap) (command : allocation_type) (limit_size preferred_size : Nat)
    (reuse_ptr sizeof_object alignof_object received : Nat) : Answer :=
  if command.allocate_new then
    if P.Alignment < alignof_object then
      let answer := allocate_aligned P h limit_size alignof_object
      ⟨answer.1, answer.2, received, reuse_ptr⟩
    else
      match best_fit P h limit_size preferred_size with
      | some answer => ⟨answer.1, answer.2.1, answer.2.2, 0⟩
      | none => expand_minimum P h command limit_size preferred_size reuse_ptr sizeof_object
          alignof_object received
  else expand_minimum P h command limit_size preferred_size reuse_ptr sizeof_object alignof_object
    received

def priv_allocate (h : Heap) (command : allocation_type) (limit_size preferred_size reuse_ptr : Nat)
    (sizeof_object alignof_object : Nat) : Answer :=
  let alignof_object := max alignof_object P.Alignment
  if command.shrink_in_place then
    if reuse_ptr = 0 then ⟨h, 0, preferred_size, reuse_ptr⟩
    else
      let answer := shrink P h reuse_ptr limit_size preferred_size
      ⟨answer.1, if answer.2.1 then reuse_ptr else 0, answer.2.2, reuse_ptr⟩
  else if preferred_size < limit_size then ⟨h, 0, 0, 0⟩
  else if reuse_ptr ≠ 0 ∧ (command.expand_fwd ∨ command.expand_bwd) then
    let answer := priv_expand_both_sides P h command limit_size preferred_size reuse_ptr true
      sizeof_object alignof_object
    if answer.2.1 ≠ 0 then ⟨answer.1, answer.2.1, answer.2.2, reuse_ptr⟩
    else allocate_or_expand P answer.1 command limit_size preferred_size reuse_ptr sizeof_object
      alignof_object answer.2.2
  else allocate_or_expand P h command limit_size preferred_size reuse_ptr sizeof_object
    alignof_object preferred_size

/-- `allocation_command`, with counts of objects. -/
def allocation_command (h : Heap) (command : allocation_type) (limit_size preferred_size : Nat)
    (reuse_ptr sizeof_object alignof_object : Nat) : Answer :=
  let max_count := h.m_size / sizeof_object
  if max_count < limit_size ∨ max_count < preferred_size then ⟨h, 0, preferred_size, 0⟩
  else
    let answer := priv_allocate P h command (limit_size * sizeof_object)
      (preferred_size * sizeof_object) reuse_ptr sizeof_object alignof_object
    { answer with received := answer.received / sizeof_object }

def allocate (h : Heap) (nbytes : Nat) : Heap × Nat :=
  let answer := priv_allocate_new P h nbytes nbytes
  (answer.1, answer.2.1)

/-- Gives back every buffer of a chain. -/
def priv_deallocate_many (h : Heap) : List Nat → Heap
  | [] => h
  | ptr :: chain => priv_deallocate_many (priv_deallocate P h ptr) chain

/-- The bytes of an element: `sizeof_element` is 0 when all have the same size. -/
def elem_bytes (sizeof_element elem_size : Nat) : Nat :=
  if sizeof_element = 0 then elem_size else elem_size * sizeof_element % 2 ^ 64

def elem_units (sizeof_element elem_size : Nat) : Nat :=
  max (priv_get_total_units P 8) (priv_get_total_units P (elem_bytes sizeof_element elem_size))

/-- The units of all elements, 0 when they overflow. -/
def sized_request_units (sizeof_element : Nat) : Nat → List Nat → Nat
  | total, [] => total
  | total, elem_size :: rest =>
    if multiplication_overflows elem_size sizeof_element then 0
    else
      let units := elem_units P sizeof_element elem_size
      if sum_overflows total units then 0
      else sized_request_units sizeof_element (total + units) rest

def total_request_units (sizeof_element : Nat) (elem_sizes : List Nat) : Nat :=
  if sizeof_element = 0 then
    match elem_sizes with
    | [] => 0
    | elem_size :: _ => elem_sizes.length * elem_units P 0 elem_size % 2 ^ 64
  else sized_request_units P sizeof_element 0 elem_sizes

/-- The loop of `priv_allocate_many` over one received block. -/
structure Filling where
  heap : Heap
  total_request_units : Nat
  chain : List Nat
  rest : List Nat

/-- The last element of a received block takes what is left, and gives back what
    it does not need. The second result is the end of the used part. -/
def fill_last (h : Heap) (new_block units total_used_units received_units : Nat) : Heap × Nat :=
  let mem := set_size h.mem new_block (received_units - total_used_units)
  let mem := priv_mark_as_allocated_block P mem new_block
  if units + P.BlockCtrlUnits ≤ received_units - total_used_units then
    let shrunk_request := units * P.Alignment - P.AllocatedCtrlBytes + UsableByPreviousChunk
    let answer := shrink P { h with mem } (priv_get_user_buffer P new_block) shrunk_request
      shrunk_request
    (answer.1, units + total_used_units)
  else ({ h with mem }, received_units)

def fill (sizeof_element : Nat) (h : Heap) (block_address total_used_units received_units : Nat)
    (total : Nat) (chain : List Nat) : List Nat → Filling
  | [] => ⟨h, total, chain, []⟩
  | elem_size :: rest =>
    let units := elem_units P sizeof_element elem_size
    if received_units ≤ total_used_units ∨ received_units < total_used_units + units then
      ⟨h, total, chain, elem_size :: rest⟩
    else
      let last := match rest with
        | [] => true
        | next :: _ =>
          decide (received_units < total_used_units + units + elem_units P sizeof_element next)
      let placed := if last then
          fill_last P h block_address units total_used_units received_units
        else
          let mem := set_size h.mem block_address units
          ({ h with mem := priv_mark_as_allocated_block P mem block_address }, received_units)
      let new_units := m_size placed.1.mem block_address
      let chain := chain ++ [priv_get_user_buffer P block_address]
      fill sizeof_element { placed.1 with mem := P.write_links placed.1.mem chain }
        (block_address + new_units * P.Alignment) (total_used_units + new_units) placed.2
        (size_sub total units) chain rest

/-- The rounds of `priv_allocate_many`, at most one for each element. -/
def allocate_rounds (sizeof_element alignment : Nat) : Nat → Filling → Filling
  | 0, f => f
  | fuel + 1, f =>
    match f.rest with
    | [] => f
    | elem_size :: _ =>
      let total_bytes := size_sub (f.total_request_units * P.Alignment % 2 ^ 64)
        (P.AllocatedCtrlBytes - UsableByPreviousChunk)
      let min_units := if sizeof_element = 0 then elem_units P 0 elem_size
        else priv_get_total_units P (elem_bytes sizeof_element elem_size)
      let min_allocation := size_sub (min_units * P.Alignment % 2 ^ 64)
        (P.AllocatedCtrlBytes - UsableByPreviousChunk)
      let answer := priv_allocate P f.heap ⟨true, false, false, false⟩ min_allocation total_bytes 0 1
        alignment
      if answer.ret = 0 then { f with heap := answer.heap }
      else
        let block := priv_get_block P answer.ret
        allocate_rounds sizeof_element alignment fuel
          (fill P sizeof_element answer.heap block 0 (m_size answer.heap.mem block)
            f.total_request_units f.chain f.rest)

/-- `priv_allocate_many`: the heap and the chain. Without an element size all
    elements are like the first. -/
def priv_allocate_many (h : Heap) (elem_sizes : List Nat) (alignment sizeof_element : Nat)
    (chain : List Nat) : Heap × List Nat :=
  let elem_sizes := if sizeof_element = 0 then elem_sizes.map fun _ => elem_sizes.headD 0
    else elem_sizes
  let total := total_request_units P sizeof_element elem_sizes
  if total ≠ 0 ∧ !multiplication_overflows total P.Alignment then
    let f := allocate_rounds P sizeof_element alignment elem_sizes.length ⟨h, total, chain, elem_sizes⟩
    if f.rest ≠ [] then (priv_deallocate_many P f.heap f.chain, []) else (f.heap, f.chain)
  else (h, chain)

/-- `allocate_many` for elements of one size. -/
def allocate_many (h : Heap) (elem_bytes n_elements alignment : Nat) (chain : List Nat) :
    Heap × List Nat :=
  priv_allocate_many P h (List.replicate n_elements elem_bytes) alignment 0 chain

/-- `allocate_many` for elements of different sizes. The alignment and the size of
    an element change places in its call. -/
def allocate_many_sized (h : Heap) (elem_sizes : List Nat) (sizeof_element alignment : Nat)
    (chain : List Nat) : Heap × List Nat :=
  priv_allocate_many P h elem_sizes sizeof_element alignment chain

end interprocess.rbtree_best_fit
