import Interprocess.MemAlgo.SimpleSeqFit.Operations

namespace interprocess.ipcdetail.simple_seq_fit_impl

open Memory

variable (P : Traits)

/-- The biggest free block seen by the loop of `priv_allocate`, with the one in
    front of it. -/
structure Biggest where
  prev_biggest_block : Nat
  biggest_block : Nat
  biggest_size : Nat

def Biggest.update (m : Memory) (prev block : Nat) (biggest : Biggest) : Biggest :=
  if biggest.biggest_size < m_size m block then ⟨prev, block, m_size m block⟩ else biggest

/-- The loop of `priv_allocate` over the free blocks: the buffer and its size, or
    0, and the biggest block. -/
def first_fit (h : Heap) (nunits : Nat) :
    Nat → Nat → Nat → Biggest → Option (Heap × Nat × Nat × Biggest)
  | 0, _, _, _ => none
  | fuel + 1, prev, block, biggest =>
    if block = root P h then some (h, 0, 0, biggest)
    else if block = 0 then none
    else
      let biggest := biggest.update h.mem prev block
      let (h', addr, received) := priv_check_and_allocate P h nunits prev block 0
      if addr ≠ 0 then some (h', addr, received, biggest)
      else first_fit h nunits fuel block (m_next P h.mem block) biggest

/-- The part of `priv_allocate` that takes a free block: the first one with the
    preferred size, or else the biggest one if it has the limit size. -/
def sequential_fit (h : Heap) (limit_size preferred_size : Nat) : Option (Heap × Nat × Nat) := do
  let nunits := get_rounded_size preferred_size P.Alignment / P.Alignment + P.BlockCtrlUnits
  let (h', addr, received, biggest) ← first_fit P h nunits (h.m_size + 1) (root P h)
    (m_next P h.mem (root P h)) ⟨0, 0, 0⟩
  if addr ≠ 0 then return (h', addr, received)
  else if biggest.biggest_block = 0 then return (h, 0, 0)
  else
    let limit_units := get_rounded_size limit_size P.Alignment / P.Alignment + P.BlockCtrlUnits
    let size := m_size h.mem biggest.biggest_block
    if size < limit_units then return (h, 0, 0)
    else
      return priv_check_and_allocate P h size biggest.prev_biggest_block biggest.biggest_block
        (size_sub (size * P.Alignment % 2 ^ 64) P.BlockCtrlUnits)

/-- `priv_allocate` for `allocate_new` without a buffer to reuse and with the
    alignment of the algorithm. -/
def priv_allocate_new (h : Heap) (limit_size preferred_size : Nat) : Option (Heap × Nat × Nat) :=
  if preferred_size < limit_size then some (h, 0, 0)
  else sequential_fit P h limit_size preferred_size

/-- The units to ask for so that an aligned buffer fits with a free block in front
    of it. -/
def overaligned_units (nbytes alignment : Nat) : Nat :=
  let needed_units := user_buffer_ceil_units P nbytes
  needed_units + max needed_units (P.BlockCtrlUnits - P.AllocatedCtrlUnits) + P.BlockCtrlUnits +
    (alignment - P.Alignment) / P.Alignment

/-- The units a buffer of `nbytes` bytes needs at least. -/
def min_units (nbytes : Nat) : Nat :=
  max (user_buffer_ceil_units P nbytes + P.AllocatedCtrlUnits) P.BlockCtrlUnits

/-- The end of a block that is aligned by luck is given back. -/
def split_aligned (h : Heap) (buffer nbytes : Nat) : Option Heap :=
  let first := priv_get_block P buffer
  let orig_first_units := m_size h.mem first
  let first_min_units := min_units P nbytes
  if first_min_units + P.BlockCtrlUnits ≤ orig_first_units then
    priv_deallocate P { h with mem := split_block P h.mem first first_min_units }
      (priv_get_user_buffer P (first + first_min_units * P.Alignment))
  else some h

/-- The first aligned buffer of a block that leaves room for a free block in front
    of it. -/
def aligned_buffer (buffer alignment : Nat) : Nat :=
  get_truncated_size_po2 (buffer + P.BlockCtrlBytes + alignment - 1) alignment

/-- The header of a block that counts as allocated. -/
def write_header (m : Memory) (block units : Nat) : Memory :=
  priv_mark_new_allocated_block P (set_size m block units) block

/-- The headers of the aligned buffer and of the block behind it, at `third`. -/
def third_headers (m : Memory) (second third orig_second_units second_min_units : Nat) : Memory :=
  let m := set_next P m third 0
  let m := set_size m second second_min_units
  let m := set_size m third (orig_second_units - m_size m second)
  let m := priv_mark_new_allocated_block P m second
  priv_mark_new_allocated_block P m third

/-- The part of a block behind the aligned buffer is given back, when it can be a
    block. -/
def split_third (h : Heap) (second orig_second_units nbytes : Nat) : Option Heap :=
  if min_units P nbytes + P.BlockCtrlUnits ≤ orig_second_units then
    let third := second + min_units P nbytes * P.Alignment
    let mem := third_headers P h.mem second third orig_second_units (min_units P nbytes)
    priv_deallocate P { h with mem } (priv_get_user_buffer P third)
  else some { h with mem := write_header P h.mem second orig_second_units }

/-- The parts of a block in front of and behind the aligned buffer are given
    back. -/
def split_overaligned (h : Heap) (buffer nbytes alignment : Nat) : Option Heap := do
  let first := priv_get_block P buffer
  let orig_first_units := m_size h.mem first
  let second := priv_get_block P (aligned_buffer P buffer alignment)
  let final_first_units := (second - first) / P.Alignment
  let h ← split_third P h second (size_sub orig_first_units final_first_units) nbytes
  priv_deallocate P { h with mem := write_header P h.mem first final_first_units }
    (priv_get_user_buffer P first)

def priv_allocate_overaligned (h : Heap) (nbytes alignment : Nat) : Option (Heap × Nat) := do
  let request := overaligned_units P nbytes alignment * P.Alignment % 2 ^ 64
  let (h, buffer, _) ← priv_allocate_new P h request request
  if buffer = 0 then return (h, 0)
  else if buffer &&& (alignment - 1) = 0 then
    let h ← split_aligned P h buffer nbytes
    return (h, buffer)
  else
    let h ← split_overaligned P h buffer nbytes alignment
    return (h, aligned_buffer P buffer alignment)

def allocate_aligned (h : Heap) (nbytes alignment : Nat) : Option (Heap × Nat) :=
  if alignment &&& size_sub alignment 1 ≠ 0 then some (h, 0)
  else if alignment ≤ P.Alignment then do
    let (h, addr, _) ← priv_allocate_new P h nbytes nbytes
    return (h, addr)
  else priv_allocate_overaligned P h nbytes alignment

/-- What a request gives: the heap, the returned pointer, the reported size and the
    pointer to reuse. -/
structure Answer where
  heap : Heap
  ret : Nat
  received : Nat
  reuse_ptr : Nat

/-- The part of `priv_allocate` behind the expansion. -/
def allocate_if_new (h : Heap) (allocate_new : Bool) (limit_size preferred_size reuse_ptr : Nat)
    (alignof_object received : Nat) : Option Answer :=
  if allocate_new then
    if P.Alignment < alignof_object then do
      let (h, ret) ← allocate_aligned P h limit_size alignof_object
      return ⟨h, ret, received, reuse_ptr⟩
    else do
      let (h, ret, received) ← sequential_fit P h limit_size preferred_size
      return ⟨h, ret, received, 0⟩
  else some ⟨h, 0, received, 0⟩

/-- Expansion backwards is not supported. -/
def priv_allocate (h : Heap) (command : allocation_type) (limit_size preferred_size reuse_ptr : Nat)
    (alignof_object : Nat) : Option Answer :=
  if !command.allocate_new && !command.expand_fwd && !command.shrink_in_place &&
      !command.others then
    some ⟨h, 0, preferred_size, 0⟩
  else if command.shrink_in_place then
    if reuse_ptr = 0 then some ⟨h, 0, preferred_size, reuse_ptr⟩
    else do
      let (h, success, received) ← shrink P h reuse_ptr limit_size preferred_size
      return ⟨h, if success then reuse_ptr else 0, received, reuse_ptr⟩
  else if preferred_size < limit_size then some ⟨h, 0, 0, 0⟩
  else if reuse_ptr ≠ 0 ∧ command.expand_fwd then do
    let (h, success, received) ← priv_expand P h reuse_ptr limit_size preferred_size
    if success then return ⟨h, reuse_ptr, received, reuse_ptr⟩
    else
      allocate_if_new P h command.allocate_new limit_size preferred_size reuse_ptr
        (max alignof_object P.Alignment) received
  else allocate_if_new P h command.allocate_new limit_size preferred_size reuse_ptr
    (max alignof_object P.Alignment) 0

/-- `allocation_command`, with counts of objects; `alignof_object` is not used. -/
def allocation_command (h : Heap) (command : allocation_type) (limit_size preferred_size : Nat)
    (reuse_ptr sizeof_object : Nat) : Option Answer :=
  let max_count := h.m_size / sizeof_object
  if max_count < limit_size ∨ max_count < preferred_size then some ⟨h, 0, preferred_size, 0⟩
  else do
    let answer ← priv_allocate P h command (limit_size * sizeof_object)
      (preferred_size * sizeof_object) reuse_ptr P.Alignment
    return { answer with received := answer.received / sizeof_object }

def allocate (h : Heap) (nbytes : Nat) : Option (Heap × Nat) := do
  let (h, addr, _) ← priv_allocate_new P h nbytes nbytes
  return (h, addr)

def deallocate (h : Heap) (addr : Nat) : Option Heap :=
  if addr = 0 then some h else priv_deallocate P h addr

/-- Gives back every buffer of a chain. -/
def deallocate_many (h : Heap) : List Nat → Option Heap
  | [] => some h
  | ptr :: chain => do
    let h ← priv_deallocate P h ptr
    deallocate_many h chain

/-- The bytes of an element: `sizeof_element` is 0 when all have the same size. -/
def elem_bytes (sizeof_element elem_size : Nat) : Nat :=
  if sizeof_element = 0 then elem_size else elem_size * sizeof_element % 2 ^ 64

def elem_units (sizeof_element elem_size : Nat) : Nat :=
  max (priv_get_total_units P 8) (priv_get_total_units P (elem_bytes sizeof_element elem_size))

/-- The units of all elements, 0 when they overflow. -/
def sized_request_units (sizeof_element : Nat) : Nat → List Nat → Nat
  | total, [] => total
  | total, elem_size :: rest =>
    if multiplication_overflows elem_size sizeof_element then 0
    else
      let units := elem_units P sizeof_element elem_size
      if sum_overflows total units then 0
      else sized_request_units sizeof_element (total + units) rest

def total_request_units (sizeof_element : Nat) (elem_sizes : List Nat) : Nat :=
  if sizeof_element = 0 then
    match elem_sizes with
    | [] => 0
    | elem_size :: _ => elem_sizes.length * elem_units P 0 elem_size % 2 ^ 64
  else sized_request_units P sizeof_element 0 elem_sizes

/-- The variables of `priv_allocate_many`: `rest` are the sizes from `low_idx` on. -/
structure Filling where
  heap : Heap
  total_request_units : Nat
  chain : List Nat
  rest : List Nat

/-- The last element of a received block takes what is left, and gives back what
    it does not need. The second result is the end of the used part. -/
def fill_last (h : Heap) (new_block units total_used_units received_units : Nat) :
    Option (Heap × Nat) :=
  let mem := write_header P h.mem new_block (received_units - total_used_units)
  if units + P.BlockCtrlUnits ≤ received_units - total_used_units then do
    let shrunk_request := units * P.Alignment - P.AllocatedCtrlBytes
    let (h, _, _) ← shrink P { h with mem } (priv_get_user_buffer P new_block) shrunk_request
      shrunk_request
    return (h, units + total_used_units)
  else some ({ h with mem }, received_units)

/-- One element of a received block. -/
def fill_one (h : Heap) (new_block units total_used_units received_units : Nat) (last : Bool) :
    Option (Heap × Nat) :=
  if last then fill_last P h new_block units total_used_units received_units
  else some ({ h with mem := write_header P h.mem new_block units }, received_units)

/-- The loop of `priv_allocate_many` over one received block. -/
def fill (sizeof_element : Nat) (h : Heap) (block_address total_used_units received_units : Nat)
    (total : Nat) (chain : List Nat) : List Nat → Option Filling
  | [] => some ⟨h, total, chain, []⟩
  | elem_size :: rest =>
    let units := elem_units P sizeof_element elem_size
    if received_units ≤ total_used_units ∨ received_units < total_used_units + units then
      some ⟨h, total, chain, elem_size :: rest⟩
    else do
      let last := match rest with
        | [] => true
        | next :: _ =>
          decide (received_units < total_used_units + units + elem_units P sizeof_element next)
      let (h, received_units) ← fill_one P h block_address units total_used_units received_units last
      let new_units := m_size h.mem block_address
      let chain := chain ++ [priv_get_user_buffer P block_address]
      fill sizeof_element { h with mem := P.write_links h.mem chain }
        (block_address + new_units * P.Alignment) (total_used_units + new_units) received_units
        (size_sub total units) chain rest

/-- The rounds of `priv_allocate_many`, one block of memory each. -/
def allocate_rounds (sizeof_element alignment : Nat) : Nat → Filling → Option Filling
  | fuel, f =>
    match f.rest with
    | [] => some f
    | elem_size :: _ =>
      match fuel with
      | 0 => none
      | fuel + 1 => do
        let total_bytes := size_sub (f.total_request_units * P.Alignment % 2 ^ 64)
          P.AllocatedCtrlBytes
        let min_units := if sizeof_element = 0 then elem_units P 0 elem_size
          else priv_get_total_units P (elem_bytes sizeof_element elem_size)
        let min_allocation := min_units * P.Alignment - P.AllocatedCtrlBytes
        let answer ← priv_allocate P f.heap ⟨true, false, false, false, false⟩ min_allocation
          total_bytes 0 alignment
        if answer.ret = 0 then return { f with heap := answer.heap }
        else
          let block := priv_get_block P answer.ret
          let f ← fill P sizeof_element answer.heap block 0 (m_size answer.heap.mem block)
            f.total_request_units f.chain f.rest
          allocate_rounds sizeof_element alignment fuel f

/-- `priv_allocate_many`: the heap and the chain. Without an element size all
    elements are like the first. -/
def priv_allocate_many (h : Heap) (elem_sizes : List Nat) (alignment sizeof_element : Nat)
    (chain : List Nat) : Option (Heap × List Nat) :=
  let elem_sizes := if sizeof_element = 0 then elem_sizes.map fun _ => elem_sizes.headD 0
    else elem_sizes
  let total := total_request_units P sizeof_element elem_sizes
  if total ≠ 0 ∧ !multiplication_overflows total P.Alignment then do
    let f ← allocate_rounds P sizeof_element alignment elem_sizes.length
      ⟨h, total, chain, elem_sizes⟩
    if f.rest ≠ [] then
      let h ← deallocate_many P f.heap f.chain
      return (h, [])
    else return (f.heap, f.chain)
  else some (h, chain)

/-- `allocate_many` for elements of one size. -/
def allocate_many (h : Heap) (elem_bytes n_elements alignment : Nat) (chain : List Nat) :
    Option (Heap × List Nat) :=
  priv_allocate_many P h (List.replicate n_elements elem_bytes) alignment 0 chain

/-- `allocate_many` for elements of different sizes. The alignment and the size of
    an element change places in its call. -/
def allocate_many_sized (h : Heap) (elem_sizes : List Nat) (sizeof_element alignment : Nat)
    (chain : List Nat) : Option (Heap × List Nat) :=
  priv_allocate_many P h elem_sizes sizeof_element alignment chain

/-- The loop of `shrink_to_fit`: the last free block and the one in front of it. -/
def find_last (m : Memory) (root : Nat) : Nat → Nat → Nat → Nat → Option (Nat × Nat)
  | 0, _, _, _ => none
  | fuel + 1, prev, last, block =>
    if block ≠ root then
      if block = 0 then none else find_last m root fuel last block (m_next P m block)
    else some (prev, last)

def grow (h : Heap) (extra_size : Nat) : Option Heap :=
  let old_end := priv_block_end_offset P h
  let h := { h with m_size := h.m_size + extra_size }
  if h.m_size - old_end < P.BlockCtrlBytes then some h
  else
    let new_block := h.this + old_end
    let mem := set_next P h.mem new_block 0
    let mem := set_size mem new_block ((h.m_size - old_end) / P.Alignment)
    let allocated := h.m_allocated + m_size mem new_block * P.Alignment
    priv_deallocate P { h with m_allocated := allocated, mem } (priv_get_user_buffer P new_block)

/-- The end of `shrink_to_fit`: the last free block leaves the segment, and the
    temporary block is given back. -/
def cut_last (h : Heap) (prev last unique_block : Nat) : Option Heap :=
  let last_units := m_size h.mem last
  let (h, _, _) := priv_check_and_allocate P h last_units prev last 0
  let h := { h with
    m_size := (h.m_size / P.Alignment - m_size h.mem last) * P.Alignment
    m_allocated := h.m_allocated - m_size h.mem last * P.Alignment }
  if unique_block ≠ 0 then priv_deallocate P h unique_block else some h

def shrink_to_fit (h : Heap) : Option Heap :=
  let block := m_next P h.mem (root P h)
  if block = root P h then some h
  else do
    let (prev, last) ← find_last P h.mem (root P h) (h.m_size + 1) (root P h) (root P h) block
    if last + m_size h.mem last * P.Alignment ≠ h.this + priv_block_end_offset P h then return h
    else if h.m_allocated = 0 then
      let (h, unique_block, _) ← priv_allocate_new P h 0 0
      if unique_block = 0 then return h
      else cut_last P h prev (m_next P h.mem (root P h)) unique_block
    else cut_last P h prev last 0

end interprocess.ipcdetail.simple_seq_fit_impl
