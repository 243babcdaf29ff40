import Interprocess.Base.Memory
import Interprocess.Detail.Utilities

namespace interprocess.rbtree_best_fit

open ipcdetail Memory

/-- The bit-fields in front of a block, after `m_prev_size`. -/
structure SizeHolder where
  m_size : Nat
  m_prev_allocated : Bool
  m_allocated : Bool
  deriving DecidableEq

namespace SizeHolder

def encode (s : SizeHolder) : Nat :=
  s.m_size + 2 ^ 62 * s.m_prev_allocated.toNat + 2 ^ 63 * s.m_allocated.toNat

def decode (word : Nat) : SizeHolder where
  m_size := word % 2 ^ 62
  m_prev_allocated := word / 2 ^ 62 % 2 = 1
  m_allocated := word / 2 ^ 63 % 2 = 1

theorem encode_lt {s : SizeHolder} (hs : s.m_size < 2 ^ 62) : s.encode < 2 ^ 64 := by
  have hprev := Bool.toNat_le s.m_prev_allocated
  have halloc := Bool.toNat_le s.m_allocated
  unfold encode
  omega

theorem decode_encode {s : SizeHolder} (hs : s.m_size < 2 ^ 62) : decode s.encode = s := by
  obtain ⟨size, prev, alloc⟩ := s
  simp only at hs
  unfold decode encode
  simp only [mk.injEq]
  cases prev <;> cases alloc <;>
    simp only [Bool.toNat_true, Bool.toNat_false, decide_eq_true_eq, decide_eq_false_iff_not] <;>
    omega

theorem encode_decode {word : Nat} (hword : word < 2 ^ 64) : (decode word).encode = word := by
  have hbit : ∀ n, (decide (n % 2 = 1)).toNat = n % 2 := by
    intro n
    rcases Nat.mod_two_eq_zero_or_one n with h | h <;> rw [h] <;> rfl
  simp only [encode, decode, hbit]
  omega

end SizeHolder

/-- The instantiation of the algorithm. The tree of free blocks keeps its links in
    the hooks of its nodes, `[n + 16, n + 40)` for the node at `n`, and a chain of
    buffers in the first word of each; which bytes their updates write there is
    left open. -/
structure Traits where
  log2_alignment : Nat
  alignment_ge : 3 ≤ log2_alignment
  alignment_lt : log2_alignment < 64
  sizeof_rbtree_best_fit : Nat
  write_hooks : Memory → List Nat → Memory
  write_hooks_frame : ∀ m nodes b, (∀ n ∈ nodes, b < n + 16 ∨ n + 40 ≤ b) →
    write_hooks m nodes b = m b
  write_links : Memory → List Nat → Memory
  write_links_frame : ∀ m chain b, (∀ p ∈ chain, b < p ∨ p + 8 ≤ b) → write_links m chain b = m b

namespace Traits

variable (P : Traits)

def Alignment : Nat :=
  2 ^ P.log2_alignment

def sizeof_SizeHolder : Nat :=
  16

def sizeof_block_ctrl : Nat :=
  40

def BlockCtrlBytes : Nat :=
  ct_rounded_size sizeof_block_ctrl P.Alignment

def BlockCtrlUnits : Nat :=
  P.BlockCtrlBytes / P.Alignment

def AllocatedCtrlBytes : Nat :=
  ct_rounded_size sizeof_SizeHolder P.Alignment

def AllocatedCtrlUnits : Nat :=
  P.AllocatedCtrlBytes / P.Alignment

def EndCtrlBlockBytes : Nat :=
  ct_rounded_size sizeof_SizeHolder P.Alignment

def EndCtrlBlockUnits : Nat :=
  P.EndCtrlBlockBytes / P.Alignment

theorem Alignment_ge : 8 ≤ P.Alignment := by
  have h := Nat.pow_le_pow_right Nat.two_pos P.alignment_ge
  exact h

theorem Alignment_pos : 0 < P.Alignment :=
  Nat.two_pow_pos _

theorem Alignment_dvd : P.Alignment ∣ 2 ^ 64 :=
  Nat.pow_dvd_pow 2 (Nat.le_of_lt P.alignment_lt)

theorem BlockCtrlUnits_mul : P.BlockCtrlUnits * P.Alignment = P.BlockCtrlBytes :=
  Nat.div_mul_cancel (dvd_ct_rounded_size _ _)

theorem AllocatedCtrlUnits_mul : P.AllocatedCtrlUnits * P.Alignment = P.AllocatedCtrlBytes :=
  Nat.div_mul_cancel (dvd_ct_rounded_size _ _)

theorem EndCtrlBlockUnits_mul : P.EndCtrlBlockUnits * P.Alignment = P.EndCtrlBlockBytes :=
  Nat.div_mul_cancel (dvd_ct_rounded_size _ _)

theorem BlockCtrlBytes_ge : 40 ≤ P.BlockCtrlBytes :=
  le_ct_rounded_size P.Alignment_pos

theorem AllocatedCtrlBytes_ge : 16 ≤ P.AllocatedCtrlBytes :=
  le_ct_rounded_size P.Alignment_pos

theorem EndCtrlBlockBytes_ge : 16 ≤ P.EndCtrlBlockBytes :=
  le_ct_rounded_size P.Alignment_pos

theorem BlockCtrlUnits_pos : 0 < P.BlockCtrlUnits := by
  refine Nat.pos_of_ne_zero fun hzero => ?_
  have hmul := P.BlockCtrlUnits_mul
  have hge := P.BlockCtrlBytes_ge
  rw [hzero, Nat.zero_mul] at hmul
  omega

theorem AllocatedCtrlUnits_pos : 0 < P.AllocatedCtrlUnits := by
  refine Nat.pos_of_ne_zero fun hzero => ?_
  have hmul := P.AllocatedCtrlUnits_mul
  have hge := P.AllocatedCtrlBytes_ge
  rw [hzero, Nat.zero_mul] at hmul
  omega

theorem AllocatedCtrlUnits_le : P.AllocatedCtrlUnits ≤ P.BlockCtrlUnits := by
  refine Nat.div_le_div_right ?_
  exact Nat.mul_le_mul_right _ (Nat.succ_le_succ (Nat.div_le_div_right (by decide)))

/-- A control header fills one unit, or two units of 8 bytes. -/
theorem AllocatedCtrlBytes_le : P.AllocatedCtrlBytes ≤ 16 ∨ P.AllocatedCtrlBytes = P.Alignment := by
  have hA := P.Alignment_pos
  by_cases h : 16 ≤ P.Alignment
  · right
    have hdiv : (sizeof_SizeHolder - 1) / P.Alignment = 0 := Nat.div_eq_of_lt (by
      unfold sizeof_SizeHolder
      omega)
    rw [AllocatedCtrlBytes, ct_rounded_size, hdiv, Nat.zero_add, Nat.one_mul]
  · left
    have hlog : P.log2_alignment = 3 := by
      have hge := P.alignment_ge
      by_contra hne
      have hpow : 2 ^ 4 ≤ P.Alignment := Nat.pow_le_pow_right Nat.two_pos (by omega)
      omega
    unfold AllocatedCtrlBytes Alignment
    rw [hlog]
    decide

end Traits

def UsableByPreviousChunk : Nat :=
  8

/-- The fields of the block at an address. -/
def holder (m : Memory) (block : Nat) : SizeHolder :=
  .decode (m.load (block + 8) 8)

def set_holder (m : Memory) (block : Nat) (s : SizeHolder) : Memory :=
  m.store (block + 8) 8 s.encode

def m_prev_size (m : Memory) (block : Nat) : Nat :=
  m.load block 8

def m_size (m : Memory) (block : Nat) : Nat :=
  (holder m block).m_size

def m_prev_allocated (m : Memory) (block : Nat) : Bool :=
  (holder m block).m_prev_allocated

def m_allocated (m : Memory) (block : Nat) : Bool :=
  (holder m block).m_allocated

def set_prev_size (m : Memory) (block size : Nat) : Memory :=
  m.store block 8 size

/-- An assignment to `m_size`, cut with `size_mask`. -/
def set_size (m : Memory) (block size : Nat) : Memory :=
  set_holder m block { holder m block with m_size := size % 2 ^ 62 }

def set_prev_allocated (m : Memory) (block : Nat) (b : Bool) : Memory :=
  set_holder m block { holder m block with m_prev_allocated := b }

def set_allocated (m : Memory) (block : Nat) (b : Bool) : Memory :=
  set_holder m block { holder m block with m_allocated := b }

theorem holder_size_lt (m : Memory) (block : Nat) : (holder m block).m_size < 2 ^ 62 :=
  Nat.mod_lt _ (Nat.two_pow_pos 62)

theorem holder_congr {m m' : Memory} {block : Nat} (h : SameOn m m' (block + 8) (block + 16)) :
    holder m block = holder m' block := by
  unfold holder
  rw [load_congr h]

theorem prev_size_congr {m m' : Memory} {block : Nat} (h : SameOn m m' block (block + 8)) :
    m_prev_size m block = m_prev_size m' block :=
  load_congr h

theorem holder_set_holder {m : Memory} {block : Nat} {s : SizeHolder} (hs : s.m_size < 2 ^ 62) :
    holder (set_holder m block s) block = s := by
  unfold holder set_holder
  rw [load_store]
  have hlt := SizeHolder.encode_lt hs
  rw [Nat.mod_eq_of_lt (by omega), SizeHolder.decode_encode hs]

theorem set_holder_holder (m : Memory) (block : Nat) : set_holder m block (holder m block) = m := by
  rw [set_holder, holder, SizeHolder.encode_decode (load_lt m (block + 8) 8), store_load]

theorem set_holder_set_holder (m : Memory) (block : Nat) (s t : SizeHolder) :
    set_holder (set_holder m block s) block t = set_holder m block t :=
  store_store m (block + 8) 8 s.encode t.encode

theorem set_size_self {m : Memory} {block size : Nat} (hsize : m_size m block = size) :
    set_size m block size = m := by
  have hlt : size < 2 ^ 62 := hsize ▸ holder_size_lt m block
  subst hsize
  rw [set_size, Nat.mod_eq_of_lt hlt]
  exact set_holder_holder m block

theorem set_allocated_self {m : Memory} {block : Nat} {b : Bool} (hb : m_allocated m block = b) :
    set_allocated m block b = m := by
  subst hb
  exact set_holder_holder m block

theorem set_prev_allocated_self {m : Memory} {block : Nat} {b : Bool}
    (hb : m_prev_allocated m block = b) : set_prev_allocated m block b = m := by
  subst hb
  exact set_holder_holder m block

theorem set_prev_size_self {m : Memory} {block size : Nat} (hsize : m_prev_size m block = size) :
    set_prev_size m block size = m := by
  subst hsize
  exact store_load m block 8

theorem prev_size_set_prev_size {m : Memory} {block size : Nat} (hs : size < 2 ^ 64) :
    m_prev_size (set_prev_size m block size) block = size := by
  unfold m_prev_size set_prev_size
  rw [load_store]
  omega

end interprocess.rbtree_best_fit
