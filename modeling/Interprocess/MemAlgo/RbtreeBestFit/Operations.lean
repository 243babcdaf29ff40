import Interprocess.MemAlgo.RbtreeBestFit.Header
import Mathlib.Data.List.Sort

namespace interprocess.rbtree_best_fit

open ipcdetail Memory

/-- The segment at address `this`: its header and its bytes. The multiset of free
    blocks is the list of its nodes in the order of the tree. -/
structure Heap where
  this : Nat
  m_extra_hdr_bytes : Nat
  m_size : Nat
  m_allocated : Nat
  m_imultiset : List Nat
  mem : Memory

/-- What of an `allocation_type` the algorithm looks at. -/
structure allocation_type where
  allocate_new : Bool
  expand_fwd : Bool
  expand_bwd : Bool
  shrink_in_place : Bool
  deriving DecidableEq

namespace Heap

variable (P : Traits) (h : Heap)

/-- `m_imultiset.insert(block)`, behind the nodes of the same size. -/
def insert (block : Nat) : Heap :=
  let nodes := h.m_imultiset.orderedInsert
    (fun x y => rbtree_best_fit.m_size h.mem x < rbtree_best_fit.m_size h.mem y) block
  { h with m_imultiset := nodes, mem := P.write_hooks h.mem nodes }

/-- `m_imultiset.insert(m_imultiset.begin(), block)`, in front of the nodes of the
    same size. -/
def insert_begin (block : Nat) : Heap :=
  let nodes := h.m_imultiset.orderedInsert
    (fun x y => rbtree_best_fit.m_size h.mem x ≤ rbtree_best_fit.m_size h.mem y) block
  { h with m_imultiset := nodes, mem := P.write_hooks h.mem nodes }

/-- `m_imultiset.erase` of the node of a block. -/
def erase (block : Nat) : Heap :=
  { h with
    m_imultiset := h.m_imultiset.erase block
    mem := P.write_hooks h.mem h.m_imultiset }

def lower_bound (units : Nat) : Option Nat :=
  h.m_imultiset.find? fun block => units ≤ rbtree_best_fit.m_size h.mem block

end Heap

section Operations

variable (P : Traits)

/-- `::new block_ctrl`, which clears the fields and initialises the hook. -/
def new_block_ctrl (m : Memory) (block : Nat) : Memory :=
  P.write_hooks (set_holder m block ⟨0, false, false⟩) [block]

def priv_get_block (ptr : Nat) : Nat :=
  ptr - P.AllocatedCtrlBytes

def priv_get_user_buffer (block : Nat) : Nat :=
  block + P.AllocatedCtrlBytes

def priv_next_block (m : Memory) (block : Nat) : Nat :=
  block + m_size m block * P.Alignment

def priv_prev_block (m : Memory) (block : Nat) : Nat :=
  block - m_prev_size m block * P.Alignment

def priv_mark_as_allocated_block (m : Memory) (block : Nat) : Memory :=
  let m := set_allocated m block true
  set_prev_allocated m (block + m_size m block * P.Alignment) true

def priv_mark_as_free_block (m : Memory) (block : Nat) : Memory :=
  let m := set_allocated m block false
  let next_block := priv_next_block P m block
  let m := set_prev_allocated m next_block false
  set_prev_size m next_block (m_size m block)

/-- The bytes of a user buffer whose block has that many units. -/
def user_bytes (units : Nat) : Nat :=
  (units - P.AllocatedCtrlUnits) * P.Alignment + UsableByPreviousChunk

def size (h : Heap) (ptr : Nat) : Nat :=
  user_bytes P (m_size h.mem (priv_get_block P ptr))

def ceil_units (size : Nat) : Nat :=
  get_rounded_size size P.Alignment / P.Alignment

def floor_units (size : Nat) : Nat :=
  size / P.Alignment

def user_buffer_ceil_units (size : Nat) : Nat :=
  if size ≤ UsableByPreviousChunk then 0 else ceil_units P (size - UsableByPreviousChunk)

def priv_get_total_units (userbytes : Nat) : Nat :=
  let userbytes := max userbytes UsableByPreviousChunk
  let units := get_rounded_size (userbytes - UsableByPreviousChunk) P.Alignment / P.Alignment +
    P.AllocatedCtrlUnits
  max units P.BlockCtrlUnits

/-- The end of `priv_check_and_allocate`: the block is marked, its hook and the
    `m_prev_size` behind it are cleared. The result is the buffer with its size. -/
def take_block (h : Heap) (block : Nat) : Heap × Nat × Nat :=
  let units := m_size h.mem block
  let mem := priv_mark_as_allocated_block P h.mem block
  let mem := mem.zero (block + 16) (P.BlockCtrlBytes - 16)
  let mem := set_prev_size mem (priv_next_block P mem block) 0
  ({ h with m_allocated := h.m_allocated + units * P.Alignment, mem },
    priv_get_user_buffer P block, user_bytes P units)

/-- Takes `nunits` units from a free block, which is split when the rest can be a
    block of its own. Null is 0. -/
def priv_check_and_allocate (h : Heap) (nunits block : Nat) (received_size : Nat) : Heap × Nat × Nat :=
  let upper_nunits := nunits + P.BlockCtrlUnits
  let block_old_size := m_size h.mem block
  if upper_nunits ≤ block_old_size then
    let rem_block := block + P.Alignment * nunits
    let mem := set_size h.mem block nunits
    let mem := new_block_ctrl P mem rem_block
    let mem := set_size mem rem_block (block_old_size - nunits)
    let mem := priv_mark_as_free_block P mem rem_block
    take_block P ((Heap.erase P { h with mem } block).insert P rem_block) block
  else if nunits ≤ block_old_size then take_block P (h.erase P block) block
  else (h, 0, received_size)

/-- The free block at `block` takes in the block at `other`, which starts where it
    ends, and `node` of the two leaves the tree. -/
def merge (h : Heap) (block other node : Nat) : Heap :=
  let mem := set_size h.mem block (m_size h.mem block + m_size h.mem other)
  Heap.erase P { h with mem } node

/-- Gives a block back and merges it with its free neighbours. -/
def priv_deallocate (h : Heap) (addr : Nat) : Heap :=
  if addr = 0 then h
  else
    let block := priv_get_block P addr
    let h := { h with m_allocated := h.m_allocated - P.Alignment * m_size h.mem block }
    let next_block := priv_next_block P h.mem block
    let merge_with_prev := !m_prev_allocated h.mem block
    let merge_with_next := !m_allocated h.mem next_block
    let block_to_insert := if merge_with_prev then priv_prev_block P h.mem block else block
    let h := if merge_with_prev then merge P h block_to_insert block block_to_insert else h
    let h := if merge_with_next then merge P h block_to_insert next_block next_block else h
    Heap.insert P { h with mem := priv_mark_as_free_block P h.mem block_to_insert } block_to_insert

/-- The part of `priv_expand` that splits the block behind the buffer. -/
def expand_split (h : Heap) (block next_block old_block_units intended_units rem_units : Nat) : Heap :=
  let rem_block := block + intended_units * P.Alignment
  let h := h.erase P next_block
  let mem := new_block_ctrl P h.mem rem_block
  let mem := set_size mem rem_block rem_units
  let mem := priv_mark_as_free_block P mem rem_block
  let h := Heap.insert P { h with mem } rem_block
  { h with
    mem := priv_mark_as_allocated_block P (set_size h.mem block intended_units) block
    m_allocated := h.m_allocated + (intended_units - old_block_units) * P.Alignment }

/-- The part of `priv_expand` that takes the whole block behind the buffer. -/
def expand_merge (h : Heap) (block next_block old_block_units merged_units : Nat) : Heap :=
  let h := h.erase P next_block
  { h with
    mem := priv_mark_as_allocated_block P (set_size h.mem block merged_units) block
    m_allocated := h.m_allocated + (merged_units - old_block_units) * P.Alignment }

/-- Grows a buffer into the free block behind it. The results are whether it has
    at least `min_size` bytes now and the size to report. -/
def priv_expand (h : Heap) (ptr min_size preferred_size : Nat) : Heap × Bool × Nat :=
  let block := priv_get_block P ptr
  let old_block_units := m_size h.mem block
  let received := user_bytes P old_block_units
  if preferred_size ≤ received ∨ min_size ≤ received then (h, true, received)
  else
    let min_user_units := ceil_units P (size_sub min_size UsableByPreviousChunk)
    let preferred_user_units := ceil_units P (size_sub preferred_size UsableByPreviousChunk)
    let next_block := priv_next_block P h.mem block
    if m_allocated h.mem next_block then (h, min_size ≤ received, received)
    else
      let merged_units := old_block_units + m_size h.mem next_block
      let merged_user_units := merged_units - P.AllocatedCtrlUnits
      if merged_user_units < min_user_units then
        (h, false, merged_units * P.Alignment - UsableByPreviousChunk)
      else
        let intended_user_units :=
          if merged_user_units < preferred_user_units then merged_user_units
          else preferred_user_units
        let intended_units := P.AllocatedCtrlUnits + intended_user_units
        let h := if P.BlockCtrlUnits ≤ merged_units - intended_units then
            expand_split P h block next_block old_block_units intended_units
              (merged_units - intended_units)
          else expand_merge P h block next_block old_block_units merged_units
        (h, true, user_bytes P (m_size h.mem block))

end Operations

end interprocess.rbtree_best_fit
