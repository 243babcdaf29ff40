import Interprocess.Base.Memory
import Interprocess.Detail.Utilities

namespace interprocess.ipcdetail.simple_seq_fit_impl

open Memory

/-- The instantiation of the algorithm: the alignment of `max_align_t`, the layout
    of the object and the `VoidPointer`. A pointer is stored in 8 bytes in a way
    that aligned addresses survive; which bytes the links of a chain of buffers
    leave in the first word of each is left open. -/
structure Traits where
  log2_alignment : Nat
  alignment_ge : 3 ≤ log2_alignment
  alignment_lt : log2_alignment < 64
  root_offset : Nat
  root_aligned : 8 ∣ root_offset
  sizeof_simple_seq_fit_impl : Nat
  root_inside : root_offset + 16 ≤ sizeof_simple_seq_fit_impl
  load_ptr : Memory → Nat → Nat
  store_ptr : Memory → Nat → Nat → Memory
  load_store_ptr : ∀ m a p, 8 ∣ a → 8 ∣ p → p < 2 ^ 64 → load_ptr (store_ptr m a p) a = p
  load_ptr_congr : ∀ {m m'} {a}, SameOn m m' a (a + 8) → load_ptr m a = load_ptr m' a
  store_ptr_frame : ∀ {m} {a p b}, b < a ∨ a + 8 ≤ b → store_ptr m a p b = m b
  write_links : Memory → List Nat → Memory
  write_links_frame : ∀ m chain b, (∀ p ∈ chain, b < p ∨ p + 8 ≤ b) → write_links m chain b = m b

namespace Traits

variable (P : Traits)

def Alignment : Nat :=
  2 ^ P.log2_alignment

def sizeof_block_ctrl : Nat :=
  16

def BlockCtrlBytes : Nat :=
  ct_rounded_size sizeof_block_ctrl P.Alignment

def BlockCtrlUnits : Nat :=
  P.BlockCtrlBytes / P.Alignment

def AllocatedCtrlBytes : Nat :=
  P.BlockCtrlBytes

def AllocatedCtrlUnits : Nat :=
  P.BlockCtrlUnits

theorem Alignment_pos : 0 < P.Alignment :=
  Nat.two_pow_pos _

theorem eight_dvd_Alignment : 8 ∣ P.Alignment :=
  Nat.pow_dvd_pow 2 P.alignment_ge

theorem Alignment_dvd : P.Alignment ∣ 2 ^ 64 :=
  Nat.pow_dvd_pow 2 (Nat.le_of_lt P.alignment_lt)

theorem BlockCtrlUnits_mul : P.BlockCtrlUnits * P.Alignment = P.BlockCtrlBytes :=
  Nat.div_mul_cancel (dvd_ct_rounded_size _ _)

theorem BlockCtrlBytes_ge : 16 ≤ P.BlockCtrlBytes :=
  le_ct_rounded_size P.Alignment_pos

theorem BlockCtrlUnits_pos : 0 < P.BlockCtrlUnits := by
  refine Nat.pos_of_ne_zero fun hzero => ?_
  have hmul := P.BlockCtrlUnits_mul
  have hge := P.BlockCtrlBytes_ge
  rw [hzero, Nat.zero_mul] at hmul
  omega

end Traits

/-- The fields of the control block at an address. -/
structure block_ctrl where
  m_next : Nat
  m_size : Nat
  deriving DecidableEq

section Fields

variable (P : Traits)

def m_next (m : Memory) (block : Nat) : Nat :=
  P.load_ptr m block

def m_size (m : Memory) (block : Nat) : Nat :=
  m.load (block + 8) 8

def set_next (m : Memory) (block p : Nat) : Memory :=
  P.store_ptr m block p

def set_size (m : Memory) (block size : Nat) : Memory :=
  m.store (block + 8) 8 size

/-- The control block at an address. -/
def ctrl (m : Memory) (block : Nat) : block_ctrl :=
  ⟨m_next P m block, m_size m block⟩

end Fields

variable {P : Traits} {m m' : Memory}

/-- The memory changed at most in the control blocks at the addresses `ws`. -/
def Touched (m m' : Memory) (ws : List Nat) : Prop :=
  ∀ b, (∀ w ∈ ws, b < w ∨ w + 16 ≤ b) → m' b = m b

theorem touched_set_next {ws : List Nat} {a : Nat} (ha : a ∈ ws) (p : Nat) :
    Touched m (set_next P m a p) ws := by
  intro b hb
  have hout := hb a ha
  exact P.store_ptr_frame (by omega)

theorem touched_set_size {ws : List Nat} {a : Nat} (ha : a ∈ ws) (size : Nat) :
    Touched m (set_size m a size) ws := by
  intro b hb
  have hout := hb a ha
  exact store_outside m size (by omega)

theorem ctrl_congr {a : Nat} (h : SameOn m' m a (a + 16)) : ctrl P m' a = ctrl P m a := by
  unfold ctrl m_next m_size
  rw [P.load_ptr_congr (h.mono (Nat.le_refl a) (by omega)), load_congr (h.mono (by omega) (by omega))]

/-- A control block away from the touched ones is the same. -/
theorem Touched.ctrl_eq {ws : List Nat} {a : Nat} (h : Touched m m' ws)
    (ha : ∀ w ∈ ws, a + 16 ≤ w ∨ w + 16 ≤ a) : ctrl P m' a = ctrl P m a := by
  refine ctrl_congr ?_
  intro b hlo hhi
  refine h b fun w hw => ?_
  have := ha w hw
  omega

theorem m_size_set_next (a p : Nat) : m_size (set_next P m a p) a = m_size m a := by
  refine load_congr ?_
  intro b hlo _
  exact P.store_ptr_frame (Or.inr hlo)

/-- Writing a link. -/
theorem ctrl_set_next {a p : Nat} (ha : 8 ∣ a) (hp : 8 ∣ p) (hlt : p < 2 ^ 64) :
    ctrl P (set_next P m a p) a = { ctrl P m a with m_next := p } := by
  have hnext : m_next P (set_next P m a p) a = p := P.load_store_ptr m a p ha hp hlt
  simp only [ctrl, hnext, m_size_set_next]

theorem m_size_set_size {a size : Nat} (hlt : size < 2 ^ 64) :
    m_size (set_size m a size) a = size := by
  unfold m_size set_size
  rw [load_store]
  exact Nat.mod_eq_of_lt hlt

/-- Writing a size. -/
theorem ctrl_set_size {a size : Nat} (hlt : size < 2 ^ 64) :
    ctrl P (set_size m a size) a = { ctrl P m a with m_size := size } := by
  have hnext : m_next P (set_size m a size) a = m_next P m a :=
    P.load_ptr_congr (store_sameOn m size (Or.inl (Nat.le_refl _)))
  simp only [ctrl, hnext, m_size_set_size hlt]

theorem ctrl_set_next_of_apart {a b p : Nat} (hapart : a + 16 ≤ b ∨ b + 16 ≤ a) :
    ctrl P (set_next P m b p) a = ctrl P m a := by
  refine Touched.ctrl_eq (touched_set_next (List.mem_singleton_self b) p) ?_
  simpa using hapart

theorem ctrl_set_size_of_apart {a b size : Nat} (hapart : a + 16 ≤ b ∨ b + 16 ≤ a) :
    ctrl P (set_size m b size) a = ctrl P m a := by
  refine Touched.ctrl_eq (touched_set_size (List.mem_singleton_self b) size) ?_
  simpa using hapart

end interprocess.ipcdetail.simple_seq_fit_impl
