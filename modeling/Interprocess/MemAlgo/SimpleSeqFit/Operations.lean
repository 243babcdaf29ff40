import Interprocess.MemAlgo.SimpleSeqFit.Header

namespace interprocess.ipcdetail.simple_seq_fit_impl

open Memory

/-- The segment at address `this`: the counters of its header and its bytes, in
    which `m_root` stands. -/
structure Heap where
  this : Nat
  m_extra_hdr_bytes : Nat
  m_size : Nat
  m_allocated : Nat
  mem : Memory

/-- An `allocation_type`; `others` stands for the bits that are only seen when the
    command is compared with 0. -/
structure allocation_type where
  allocate_new : Bool
  expand_fwd : Bool
  expand_bwd : Bool
  shrink_in_place : Bool
  others : Bool
  deriving DecidableEq

section Operations

variable (P : Traits)

/-- The address of `m_header.m_root`. -/
def root (h : Heap) : Nat :=
  h.this + P.root_offset

def priv_get_block (ptr : Nat) : Nat :=
  ptr - P.AllocatedCtrlBytes

def priv_get_user_buffer (block : Nat) : Nat :=
  block + P.AllocatedCtrlBytes

def priv_mark_new_allocated_block (m : Memory) (new_block : Nat) : Memory :=
  set_next P m new_block 0

def get_user_bytes (m : Memory) (block : Nat) : Nat :=
  size_sub (simple_seq_fit_impl.m_size m block * P.Alignment % 2 ^ 64) P.BlockCtrlBytes

def size (h : Heap) (ptr : Nat) : Nat :=
  get_user_bytes P h.mem (priv_get_block P ptr)

def ceil_units (size : Nat) : Nat :=
  get_rounded_size size P.Alignment / P.Alignment

def floor_units (size : Nat) : Nat :=
  size / P.Alignment

def user_buffer_ceil_units (size : Nat) : Nat :=
  if size ≤ 0 then 0 else ceil_units P size

def priv_get_total_units (userbytes : Nat) : Nat :=
  let s := get_rounded_size userbytes P.Alignment / P.Alignment
  P.BlockCtrlUnits + if s = 0 then 1 else s

def priv_first_block_offset (this extra_hdr_bytes : Nat) : Nat :=
  let this_disalignment := this - this / P.Alignment * P.Alignment
  get_rounded_size (P.sizeof_simple_seq_fit_impl + extra_hdr_bytes + this_disalignment) P.Alignment -
    this_disalignment

def priv_block_end_offset (h : Heap) : Nat :=
  let this_disalignment := h.this - h.this / P.Alignment * P.Alignment
  get_truncated_size (h.m_size + this_disalignment) P.Alignment - this_disalignment

def get_min_size (extra_hdr_bytes : Nat) : Nat :=
  get_rounded_size P.sizeof_simple_seq_fit_impl P.Alignment +
    get_rounded_size extra_hdr_bytes P.Alignment + P.BlockCtrlBytes

/-- The constructor, on memory that is there already: `m_root.m_size` is not
    written. -/
def construct (this segment_size extra_hdr_bytes : Nat) (mem : Memory) : Heap :=
  let block1 := this + priv_first_block_offset P this extra_hdr_bytes
  let mem := set_next P mem (this + P.root_offset) block1
  let mem := set_size mem block1
    ((segment_size - priv_first_block_offset P this extra_hdr_bytes) / P.Alignment)
  let mem := set_next P mem block1 (this + P.root_offset)
  ⟨this, extra_hdr_bytes, segment_size, 0, mem⟩

/-- Takes `nunits` units from a free block, which is split when it has more than
    `BlockCtrlUnits` units to spare. The results are the buffer, null being 0, and
    `received_size`. -/
def priv_check_and_allocate (h : Heap) (nunits prev block received_size : Nat) : Heap × Nat × Nat :=
  let upper_nunits := nunits + P.BlockCtrlUnits
  let total_size := m_size h.mem block
  if upper_nunits < total_size then
    let new_block := block + P.Alignment * nunits
    let mem := set_size h.mem block nunits
    let mem := set_size mem new_block (total_size - nunits)
    let mem := set_next P mem new_block (m_next P mem block)
    let mem := set_next P mem prev new_block
    let allocated := h.m_allocated + m_size mem block * P.Alignment
    ({ h with m_allocated := allocated, mem := set_next P mem block 0 },
      priv_get_user_buffer P block, get_user_bytes P mem block)
  else if nunits ≤ total_size then
    let mem := set_next P h.mem prev (m_next P h.mem block)
    let allocated := h.m_allocated + m_size mem block * P.Alignment
    ({ h with m_allocated := allocated, mem := set_next P mem block 0 },
      priv_get_user_buffer P block, get_user_bytes P mem block)
  else (h, 0, received_size)

/-- The loop of `priv_deallocate`: the free blocks around a block. A null link
    that is followed ends the run, like a loop that does not end. -/
def find_position (m : Memory) (root block : Nat) : Nat → Nat → Nat → Option (Nat × Nat)
  | 0, _, _ => none
  | fuel + 1, prev, pos =>
    if pos ≠ root ∧ pos < block then
      if pos = 0 then none else find_position m root block fuel pos (m_next P m pos)
    else some (prev, pos)

/-- Combines the block with the upper block, or links it to it. -/
def combine_upper (m : Memory) (block pos : Nat) : Memory :=
  if block + P.Alignment * m_size m block = pos then
    let m := set_size m block (m_size m block + m_size m pos)
    set_next P m block (m_next P m pos)
  else set_next P m block pos

/-- Combines the lower block with the block, or links it to it. -/
def combine_lower (m : Memory) (prev block : Nat) : Memory :=
  if prev + P.Alignment * m_size m prev = block then
    let m := set_size m prev (m_size m prev + m_size m block)
    set_next P m prev (m_next P m block)
  else set_next P m prev block

def priv_deallocate (h : Heap) (addr : Nat) : Option Heap :=
  if addr = 0 then some h
  else do
    let block := priv_get_block P addr
    let allocated := h.m_allocated - P.Alignment * m_size h.mem block
    let (prev, pos) ← find_position P h.mem (root P h) block (h.m_size + 1) (root P h)
      (m_next P h.mem (root P h))
    return { h with
      m_allocated := allocated
      mem := combine_lower P (combine_upper P h.mem block pos) prev block }

def priv_next_block_if_free (h : Heap) (block : Nat) : Option Nat :=
  let next_block := block + m_size h.mem block * P.Alignment
  let distance := (next_block - h.this) / P.Alignment
  if h.m_size / P.Alignment ≤ distance then none
  else if m_next P h.mem next_block = 0 then none
  else some next_block

/-- The loop of `priv_expand`: the free block in front of `next_block`. -/
def find_previous (m : Memory) (next_block : Nat) : Nat → Nat → Option Nat
  | 0, _ => none
  | fuel + 1, prev =>
    if m_next P m prev ≠ next_block then
      if m_next P m prev = 0 then none else find_previous m next_block fuel (m_next P m prev)
    else some prev

/-- The header of the block merged with the free block behind it. -/
def merge_header (m : Memory) (block next_block merged_size : Nat) : Memory :=
  set_size (set_next P m block (m_next P m next_block)) block merged_size

/-- The end of `priv_expand`: the preferred units are taken from the merged block,
    which is in the free list by now. -/
def expand_answer (h : Heap) (prev block merged_size preferred_size : Nat) : Heap × Bool × Nat :=
  let nunits := min (preferred_size + P.BlockCtrlUnits) merged_size
  let answer := priv_check_and_allocate P h nunits prev block
    (size_sub (merged_size * P.Alignment % 2 ^ 64) P.BlockCtrlBytes)
  (answer.1, answer.2.1 ≠ 0, answer.2.2)

/-- The part of `priv_expand` that merges the block with the free block behind
    it. -/
def expand_into (h : Heap) (block next_block merged_size preferred_size : Nat) :
    Option (Heap × Bool × Nat) :=
  let old_block_size := m_size h.mem block
  let mem := merge_header P h.mem block next_block merged_size
  (find_previous P mem next_block (h.m_size + 1) (root P h)).map fun prev =>
    expand_answer P
      { h with
        m_allocated := h.m_allocated - old_block_size * P.Alignment
        mem := set_next P mem prev block }
      prev block merged_size preferred_size

/-- Grows a buffer into the free block behind it. The results are whether it has
    the minimum size and the size to report. -/
def priv_expand (h : Heap) (ptr min_size preferred_size : Nat) : Option (Heap × Bool × Nat) :=
  if min_size < size P h ptr then some (h, true, size P h ptr)
  else
    let block := priv_get_block P ptr
    let old_block_size := m_size h.mem block
    let received := size_sub (old_block_size * P.Alignment % 2 ^ 64) P.BlockCtrlBytes
    let min_size := ceil_units P min_size
    let preferred_size := ceil_units P preferred_size
    if preferred_size < min_size then some (h, false, received)
    else if min_size ≤ old_block_size - P.BlockCtrlUnits then some (h, true, received)
    else
      match priv_next_block_if_free P h block with
      | none => some (h, false, received)
      | some next_block =>
        let merged_size := old_block_size + m_size h.mem next_block
        if merged_size < min_size + P.BlockCtrlUnits then
          some (h, false, size_sub (merged_size * P.Alignment % 2 ^ 64) P.BlockCtrlBytes)
        else expand_into P h block next_block merged_size preferred_size

/-- The size a shrink would give, if it is possible. -/
def try_shrink (h : Heap) (ptr max_size preferred_size : Nat) : Bool × Nat :=
  let old_block_units := m_size h.mem (priv_get_block P ptr)
  let received := (old_block_units - P.AllocatedCtrlUnits) * P.Alignment
  let max_user_units := floor_units P max_size
  let preferred_user_units := ceil_units P preferred_size
  let old_user_units := old_block_units - P.AllocatedCtrlUnits
  let shrunk_user_units := if preferred_user_units ≤ P.BlockCtrlUnits - P.AllocatedCtrlUnits then
      P.BlockCtrlUnits - P.AllocatedCtrlUnits
    else preferred_user_units
  if max_user_units < preferred_user_units then (false, received)
  else if old_user_units < preferred_user_units then (false, received)
  else if old_user_units = preferred_user_units then (true, received)
  else if max_user_units < shrunk_user_units then (false, received)
  else if old_user_units - shrunk_user_units < P.BlockCtrlUnits then (false, received)
  else (true, shrunk_user_units * P.Alignment)

/-- Makes two allocated blocks of the block at `first`, the first of `units`
    units. -/
def split_block (m : Memory) (first units : Nat) : Memory :=
  let old_units := m_size m first
  let second := first + units * P.Alignment
  let m := set_size m first units
  let m := set_size m second (old_units - units)
  let m := priv_mark_new_allocated_block P m first
  priv_mark_new_allocated_block P m second

/-- Cuts the end of a buffer off and gives it back. -/
def shrink (h : Heap) (ptr max_size preferred_size : Nat) : Option (Heap × Bool × Nat) :=
  let block := priv_get_block P ptr
  let old_block_units := m_size h.mem block
  let answer := try_shrink P h ptr max_size preferred_size
  if !answer.1 then some (h, false, answer.2)
  else if old_block_units - P.AllocatedCtrlUnits = ceil_units P preferred_size then
    some (h, true, answer.2)
  else do
    let units := answer.2 / P.Alignment + P.AllocatedCtrlUnits
    let new_block := block + units * P.Alignment
    let h ← priv_deallocate P { h with mem := split_block P h.mem block units }
      (priv_get_user_buffer P new_block)
    return (h, true, answer.2)

end Operations

end interprocess.ipcdetail.simple_seq_fit_impl
