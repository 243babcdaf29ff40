import Interprocess.Detail.Utilities
import Mathlib.Order.Interval.Finset.Nat

/-! Regions of files and of POSIX shared memory. XSI regions, which cannot be
    shrunk, are left out. -/

namespace interprocess

namespace mapped_region

/-- The page size and the end of the address space. -/
structure System where
  page_size : Nat
  page_size_pos : 0 < page_size
  task_size : Nat
  task_size_le : task_size ≤ 2 ^ 64

/-- The pages of a region that are mapped, and those that each call of `munmap`
    removed, the last call first. -/
structure Pages where
  mapped : Finset Nat
  unmapped : List (Finset Nat)

/-- The pages that a range of addresses touches. -/
def page_range (S : System) (addr length : Nat) : Finset Nat :=
  Finset.Ico (addr / S.page_size) ((addr + length - 1) / S.page_size + 1)

/-- `munmap` fails on an address inside a page, on an empty range and behind the
    end of the address space. -/
def Pages.munmap (S : System) (pages : Pages) (addr length : Nat) : Pages × Bool :=
  if addr % S.page_size ≠ 0 ∨ length = 0 ∨ S.task_size < addr + length then (pages, false)
  else (⟨pages.mapped \ page_range S addr length, page_range S addr length :: pages.unmapped⟩, true)

end mapped_region

/-- A region with the pages of its process. -/
@[ext] structure mapped_region where
  m_base : Nat
  m_size : Nat
  m_page_offset : Nat
  pages : mapped_region.Pages

namespace mapped_region

open ipcdetail

variable (S : System)

def priv_page_offset_addr_fixup (offset : Nat) : Nat :=
  offset - offset / S.page_size * S.page_size

/-- The constructor, after `mmap` gave the address `base`. -/
def construct (base offset size : Nat) : mapped_region :=
  let page_offset := priv_page_offset_addr_fixup S offset
  ⟨base + page_offset, size, page_offset, ⟨page_range S base (page_offset + size), []⟩⟩

def get_size (r : mapped_region) : Nat :=
  r.m_size

def get_address (r : mapped_region) : Nat :=
  r.m_base

def priv_map_address (r : mapped_region) : Nat :=
  r.m_base - r.m_page_offset

def priv_map_size (r : mapped_region) : Nat :=
  r.m_size + r.m_page_offset

/-- The result of `munmap` is not looked at. -/
def priv_close (r : mapped_region) : mapped_region :=
  if r.m_base ≠ 0 then
    { r with
      m_base := 0
      pages := (r.pages.munmap S (priv_map_address r) (priv_map_size r)).1 }
  else r

/-- The results are the region, whether it can be shrunk, and the range of pages
    to unmap. -/
def priv_shrink_param_check (r : mapped_region) (bytes : Nat) (from_back : Bool) :
    mapped_region × Bool × Nat × Nat :=
  if r.m_base = 0 ∨ r.m_size < bytes then (r, false, 0, 0)
  else if bytes = r.m_size then (priv_close S r, true, 0, 0)
  else if from_back then
    let new_pages := (r.m_size + r.m_page_offset - bytes - 1) / S.page_size + 1
    ({ r with m_size := r.m_size - bytes }, true,
      priv_map_address r + new_pages * S.page_size,
      size_sub (r.m_page_offset + r.m_size) (new_pages * S.page_size))
  else
    let page_offset := r.m_page_offset + bytes
    ({ r with
        m_page_offset := page_offset % S.page_size
        m_size := r.m_size - bytes
        m_base := r.m_base + bytes },
      true, priv_map_address r, page_offset / S.page_size * S.page_size)

def shrink_by (r : mapped_region) (bytes : Nat) (from_back : Bool) : mapped_region × Bool :=
  let (r', possible, shrink_page_start, shrink_page_bytes) :=
    priv_shrink_param_check S r bytes from_back
  if !possible then (r', false)
  else if shrink_page_bytes ≠ 0 then
    let (pages, success) := r'.pages.munmap S shrink_page_start shrink_page_bytes
    ({ r' with pages := pages }, success)
  else (r', true)

/-- The destructor. -/
def destroy (r : mapped_region) : mapped_region :=
  priv_close S r

end mapped_region

end interprocess
