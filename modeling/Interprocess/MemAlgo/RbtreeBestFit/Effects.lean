import Interprocess.MemAlgo.RbtreeBestFit.Operations
import Mathlib.Data.Set.Insert

namespace interprocess.rbtree_best_fit

open ipcdetail Memory

/-- The control data at an address as one value. -/
structure BlockCtrl where
  m_prev_size : Nat
  m_size : Nat
  m_prev_allocated : Bool
  m_allocated : Bool

def ctrl (m : Memory) (a : Nat) : BlockCtrl where
  m_prev_size := m_prev_size m a
  m_size := m_size m a
  m_prev_allocated := m_prev_allocated m a
  m_allocated := m_allocated m a

theorem ctrl_congr {m m' : Memory} {a : Nat} (h : SameOn m m' a (a + 16)) : ctrl m a = ctrl m' a := by
  have hholder : holder m a = holder m' a := holder_congr (h.mono (by omega) (by omega))
  have hprev : m_prev_size m a = m_prev_size m' a := prev_size_congr (h.mono (by omega) (by omega))
  simp only [ctrl, m_size, m_prev_allocated, m_allocated, hholder, hprev]

/-- Nothing changes outside `[lo, k)` and `[l, hi)` but the hooks of the nodes. -/
def Frame (m m' : Memory) (lo k l hi : Nat) (nodes : List Nat) : Prop :=
  ∀ b, ¬ (lo ≤ b ∧ b < k) → ¬ (l ≤ b ∧ b < hi) → (∀ n ∈ nodes, b < n + 16 ∨ n + 40 ≤ b) → m' b = m b

theorem Frame.trans {m m' m'' : Memory} {lo k l hi : Nat} {nodes : List Nat}
    (h : Frame m m' lo k l hi nodes) (h' : Frame m' m'' lo k l hi nodes) :
    Frame m m'' lo k l hi nodes := by
  intro b hb hb' hnodes
  exact (h' b hb hb' hnodes).trans (h b hb hb' hnodes)

/-- The two ranges lie in one. -/
theorem Frame.widen {m m' : Memory} {lo k l hi lo' hi' : Nat} {nodes : List Nat}
    (h : Frame m m' lo k l hi nodes) (hlo : lo' ≤ lo) (hk : k ≤ hi') (hl : lo' ≤ l) (hhi : hi ≤ hi') :
    Frame m m' lo' lo' lo' hi' nodes := by
  intro b _ hb' hnodes
  exact h b (by omega) (by omega) hnodes

/-- A write to `[x, y)`, which lies in one of the ranges. -/
theorem Frame.of_sameOn {m m' : Memory} {lo k l hi x y : Nat} {nodes : List Nat}
    (hin : (lo ≤ x ∧ y ≤ k) ∨ (l ≤ x ∧ y ≤ hi))
    (hsame : ∀ {lo' hi'}, hi' ≤ x ∨ y ≤ lo' → SameOn m' m lo' hi') :
    Frame m m' lo k l hi nodes := by
  intro b hb hb' _
  by_cases hbx : b < x
  · exact hsame (Or.inl (Nat.le_refl x)) b (Nat.zero_le b) hbx
  · exact hsame (Or.inr (Nat.le_refl y)) b (by omega) (Nat.lt_succ_self b)

/-- Addresses where headers stand: two of them leave room for a block. -/
def Spread (P : Traits) (S : Set Nat) : Prop :=
  ∀ a ∈ S, ∀ b ∈ S, a = b ∨ a + P.BlockCtrlBytes ≤ b ∨ b + P.BlockCtrlBytes ≤ a

/-- The hooks of the nodes do not meet the headers. -/
def Clear (S : Set Nat) (nodes : List Nat) : Prop :=
  ∀ a ∈ S, ∀ n ∈ nodes, a ≤ n ∨ n + 40 ≤ a

/-- The memory after some steps of the code: what the headers at the addresses of
    interest say, and what is left alone. -/
structure Executed (S : Set Nat) (lo k l hi : Nat) (nodes : List Nat) (m m' : Memory)
    (V : Nat → BlockCtrl) : Prop where
  ctrl_eq : ∀ a ∈ S, ctrl m' a = V a
  frame : Frame m m' lo k l hi nodes

variable {P : Traits} {S : Set Nat} {lo k l hi : Nat} {nodes : List Nat} {m m' : Memory}
  {V : Nat → BlockCtrl}

theorem Executed.refl (S : Set Nat) (lo k l hi : Nat) (nodes : List Nat) (m : Memory) :
    Executed S lo k l hi nodes m m (ctrl m) where
  ctrl_eq := fun _ _ => rfl
  frame := fun _ _ _ _ => rfl

theorem Executed.size_eq (h : Executed S lo k l hi nodes m m' V) {a : Nat} (ha : a ∈ S) :
    m_size m' a = (V a).m_size := by
  rw [← h.ctrl_eq a ha]
  rfl

theorem Executed.prev_size_eq (h : Executed S lo k l hi nodes m m' V) {a : Nat} (ha : a ∈ S) :
    m_prev_size m' a = (V a).m_prev_size := by
  rw [← h.ctrl_eq a ha]
  rfl

theorem Executed.prev_allocated_eq (h : Executed S lo k l hi nodes m m' V) {a : Nat} (ha : a ∈ S) :
    m_prev_allocated m' a = (V a).m_prev_allocated := by
  rw [← h.ctrl_eq a ha]
  rfl

theorem Executed.allocated_eq (h : Executed S lo k l hi nodes m m' V) {a : Nat} (ha : a ∈ S) :
    m_allocated m' a = (V a).m_allocated := by
  rw [← h.ctrl_eq a ha]
  rfl

/-- The same headers may be described in another way. -/
theorem Executed.congr (h : Executed S lo k l hi nodes m m' V) {V' : Nat → BlockCtrl}
    (hV : ∀ a ∈ S, V a = V' a) : Executed S lo k l hi nodes m m' V' where
  ctrl_eq := fun a ha => (h.ctrl_eq a ha).trans (hV a ha)
  frame := h.frame

theorem set_holder_sameOn (m : Memory) {a lo hi : Nat} (s : SizeHolder)
    (h : hi ≤ a + 8 ∨ a + 16 ≤ lo) : SameOn (set_holder m a s) m lo hi :=
  store_sameOn m _ (by omega)

theorem Executed.set_holder (h : Executed S lo k l hi nodes m m' V) (hS : Spread P S) {x : Nat}
    (hx : x ∈ S) (hin : (lo ≤ x + 8 ∧ x + 16 ≤ k) ∨ (l ≤ x + 8 ∧ x + 16 ≤ hi)) {s : SizeHolder}
    (hs : s.m_size < 2 ^ 62) :
    Executed S lo k l hi nodes m (set_holder m' x s) (Function.update V x
      ⟨(V x).m_prev_size, s.m_size, s.m_prev_allocated, s.m_allocated⟩) := by
  refine ⟨?_, ?_⟩
  · intro a ha
    by_cases hax : a = x
    · subst hax
      rw [Function.update_self, ← h.ctrl_eq a ha]
      have hprev : m_prev_size (rbtree_best_fit.set_holder m' a s) a = m_prev_size m' a :=
        prev_size_congr (set_holder_sameOn m' s (by omega))
      simp only [ctrl, m_size, m_prev_allocated, m_allocated, holder_set_holder hs, hprev]
    · rw [Function.update_of_ne hax, ← h.ctrl_eq a ha]
      have hge := P.BlockCtrlBytes_ge
      have hapart := hS a ha x hx
      exact ctrl_congr (set_holder_sameOn m' s (by omega))
  · refine h.frame.trans (Frame.of_sameOn hin ?_)
    intro lo' hi' hout
    exact set_holder_sameOn m' s hout

theorem Executed.set_size (h : Executed S lo k l hi nodes m m' V) (hS : Spread P S) {x s : Nat}
    (hx : x ∈ S) (hin : (lo ≤ x + 8 ∧ x + 16 ≤ k) ∨ (l ≤ x + 8 ∧ x + 16 ≤ hi)) (hsize : s < 2 ^ 62) :
    Executed S lo k l hi nodes m (set_size m' x s)
      (Function.update V x { V x with m_size := s }) := by
  have hstep := h.set_holder hS hx hin (s := { holder m' x with m_size := s % 2 ^ 62 })
    (Nat.mod_lt _ (Nat.two_pow_pos 62))
  have hx' := h.ctrl_eq x hx
  simp only [Nat.mod_eq_of_lt hsize] at hstep
  rw [rbtree_best_fit.set_size, Nat.mod_eq_of_lt hsize]
  refine hstep.congr ?_
  intro a _
  rw [← hx']
  rfl

theorem Executed.set_allocated (h : Executed S lo k l hi nodes m m' V) (hS : Spread P S) {x : Nat}
    (hx : x ∈ S) (hin : (lo ≤ x + 8 ∧ x + 16 ≤ k) ∨ (l ≤ x + 8 ∧ x + 16 ≤ hi)) (b : Bool) :
    Executed S lo k l hi nodes m (set_allocated m' x b)
      (Function.update V x { V x with m_allocated := b }) := by
  have hstep := h.set_holder hS hx hin (s := { holder m' x with m_allocated := b })
    (holder_size_lt m' x)
  refine hstep.congr ?_
  intro a _
  rw [← h.ctrl_eq x hx]
  rfl

theorem Executed.set_prev_allocated (h : Executed S lo k l hi nodes m m' V) (hS : Spread P S) {x : Nat}
    (hx : x ∈ S) (hin : (lo ≤ x + 8 ∧ x + 16 ≤ k) ∨ (l ≤ x + 8 ∧ x + 16 ≤ hi)) (b : Bool) :
    Executed S lo k l hi nodes m (set_prev_allocated m' x b)
      (Function.update V x { V x with m_prev_allocated := b }) := by
  have hstep := h.set_holder hS hx hin (s := { holder m' x with m_prev_allocated := b })
    (holder_size_lt m' x)
  refine hstep.congr ?_
  intro a _
  rw [← h.ctrl_eq x hx]
  rfl

theorem Executed.set_prev_size (h : Executed S lo k l hi nodes m m' V) (hS : Spread P S) {x size : Nat}
    (hx : x ∈ S) (hin : (lo ≤ x ∧ x + 8 ≤ k) ∨ (l ≤ x ∧ x + 8 ≤ hi)) (hsize : size < 2 ^ 64) :
    Executed S lo k l hi nodes m (set_prev_size m' x size)
      (Function.update V x { V x with m_prev_size := size }) := by
  have hsame : ∀ {lo' hi'}, hi' ≤ x ∨ x + 8 ≤ lo' →
      SameOn (rbtree_best_fit.set_prev_size m' x size) m' lo' hi' := by
    intro lo' hi' h'
    exact store_sameOn m' size h'
  refine ⟨?_, ?_⟩
  · intro a ha
    by_cases hax : a = x
    · subst hax
      rw [Function.update_self, ← h.ctrl_eq a ha]
      have hholder : holder (rbtree_best_fit.set_prev_size m' a size) a = holder m' a :=
        holder_congr (hsame (by omega))
      simp only [ctrl, m_size, m_prev_allocated, m_allocated, hholder, prev_size_set_prev_size hsize]
    · rw [Function.update_of_ne hax, ← h.ctrl_eq a ha]
      have hge := P.BlockCtrlBytes_ge
      have hapart := hS a ha x hx
      exact ctrl_congr (hsame (by omega))
  · exact h.frame.trans (Frame.of_sameOn hin hsame)

/-- An update of the tree, of which only nodes in the range are not named. -/
theorem Executed.write_hooks (h : Executed S lo k l hi nodes m m' V) {written : List Nat}
    (hclear : Clear S written)
    (hwritten : ∀ n ∈ written, n ∈ nodes ∨ (lo ≤ n + 16 ∧ n + 40 ≤ k) ∨ (l ≤ n + 16 ∧ n + 40 ≤ hi)) :
    Executed S lo k l hi nodes m (P.write_hooks m' written) V := by
  refine ⟨?_, ?_⟩
  · intro a ha
    rw [← h.ctrl_eq a ha]
    refine ctrl_congr ?_
    intro b hlo hhi
    refine P.write_hooks_frame m' written b ?_
    intro n hn
    have := hclear a ha n hn
    omega
  · refine h.frame.trans ?_
    intro b hb hb' hnodes
    refine P.write_hooks_frame m' written b ?_
    intro n hn
    cases hwritten n hn with
    | inl hin => exact hnodes n hin
    | inr hin => omega

theorem Executed.zero (h : Executed S lo k l hi nodes m m' V) {x n : Nat}
    (hclear : ∀ a ∈ S, a + 16 ≤ x ∨ x + n ≤ a)
    (hin : (lo ≤ x ∧ x + n ≤ k) ∨ (l ≤ x ∧ x + n ≤ hi)) :
    Executed S lo k l hi nodes m (m'.zero x n) V := by
  refine ⟨?_, ?_⟩
  · intro a ha
    rw [← h.ctrl_eq a ha]
    have := hclear a ha
    exact ctrl_congr (zero_sameOn m' (by omega))
  · refine h.frame.trans (Frame.of_sameOn hin ?_)
    intro lo' hi' hout
    exact zero_sameOn m' hout

theorem Executed.new_block_ctrl (h : Executed S lo k l hi nodes m m' V) (hS : Spread P S) {x : Nat}
    (hx : x ∈ S) (hin : (lo ≤ x + 8 ∧ x + 40 ≤ k) ∨ (l ≤ x + 8 ∧ x + 40 ≤ hi)) :
    Executed S lo k l hi nodes m (new_block_ctrl P m' x)
      (Function.update V x ⟨(V x).m_prev_size, 0, false, false⟩) := by
  have hge := P.BlockCtrlBytes_ge
  refine (h.set_holder hS hx (by omega) (by decide)).write_hooks ?_ ?_
  · intro a ha n hn
    cases List.mem_singleton.mp hn
    have := hS a ha x hx
    omega
  · intro n hn
    cases List.mem_singleton.mp hn
    omega

/-- The control data after a block was marked as allocated. -/
def marked_allocated (V : Nat → BlockCtrl) (x next : Nat) : Nat → BlockCtrl :=
  let V := Function.update V x { V x with m_allocated := true }
  Function.update V next { V next with m_prev_allocated := true }

/-- The control data after a block was marked as free. -/
def marked_free (V : Nat → BlockCtrl) (x next : Nat) : Nat → BlockCtrl :=
  let V := Function.update V x { V x with m_allocated := false }
  let V := Function.update V next { V next with m_prev_allocated := false }
  Function.update V next { V next with m_prev_size := (V x).m_size }

section Marked

variable {x next a : Nat}

theorem marked_free_self (V : Nat → BlockCtrl) (hne : x ≠ next) :
    marked_free V x next x = { V x with m_allocated := false } := by
  simp [marked_free, hne]

theorem marked_free_next (V : Nat → BlockCtrl) (hne : x ≠ next) :
    marked_free V x next next =
      { V next with m_prev_size := (V x).m_size, m_prev_allocated := false } := by
  simp [marked_free, hne, hne.symm]

end Marked

theorem Executed.mark_allocated (h : Executed S lo k l hi nodes m m' V) (hS : Spread P S) {x next : Nat}
    (hx : x ∈ S) (hnext : next ∈ S) (hat : x + (V x).m_size * P.Alignment = next)
    (hin : (lo ≤ x + 8 ∧ x + 16 ≤ k) ∨ (l ≤ x + 8 ∧ x + 16 ≤ hi))
    (hinnext : (lo ≤ next + 8 ∧ next + 16 ≤ k) ∨ (l ≤ next + 8 ∧ next + 16 ≤ hi)) :
    Executed S lo k l hi nodes m (priv_mark_as_allocated_block P m' x) (marked_allocated V x next) := by
  have hfirst := h.set_allocated hS hx hin true
  have hsize : m_size (rbtree_best_fit.set_allocated m' x true) x = (V x).m_size := by
    rw [hfirst.size_eq hx, Function.update_self]
  unfold priv_mark_as_allocated_block
  simp only [hsize, hat]
  exact hfirst.set_prev_allocated hS hnext hinnext true

theorem Executed.mark_free (h : Executed S lo k l hi nodes m m' V) (hS : Spread P S) {x next : Nat}
    (hx : x ∈ S) (hnext : next ∈ S) (hat : x + (V x).m_size * P.Alignment = next)
    (hin : (lo ≤ x + 8 ∧ x + 16 ≤ k) ∨ (l ≤ x + 8 ∧ x + 16 ≤ hi))
    (hinnext : (lo ≤ next ∧ next + 16 ≤ k) ∨ (l ≤ next ∧ next + 16 ≤ hi)) :
    Executed S lo k l hi nodes m (priv_mark_as_free_block P m' x) (marked_free V x next) := by
  have hfirst := h.set_allocated hS hx hin false
  have hsize : m_size (rbtree_best_fit.set_allocated m' x false) x = (V x).m_size := by
    rw [hfirst.size_eq hx, Function.update_self]
  have hsecond := hfirst.set_prev_allocated hS hnext (by omega) false
  have hsize' := hsecond.size_eq hx
  have hlt : m_size (rbtree_best_fit.set_prev_allocated
      (rbtree_best_fit.set_allocated m' x false) next false) x < 2 ^ 64 := by
    have := holder_size_lt (rbtree_best_fit.set_prev_allocated
      (rbtree_best_fit.set_allocated m' x false) next false) x
    unfold m_size
    omega
  have hthird := hsecond.set_prev_size hS hnext (by omega) hlt
  unfold priv_mark_as_free_block priv_next_block
  simp only [hsize, hat]
  refine hthird.congr ?_
  intro a _
  rw [hsize']
  rfl

/-- A memory whose bytes in `[w, w + n)` are those of another one. -/
def overlay (w n : Nat) (c m : Memory) : Memory := fun b =>
  if w ≤ b ∧ b < w + n then c b else m b

theorem overlay_outside {w n b : Nat} (c m : Memory) (hb : b < w ∨ w + n ≤ b) :
    overlay w n c m b = m b :=
  if_neg (by omega)

theorem overlay_inside {w n b : Nat} (c m : Memory) (hlo : w ≤ b) (hhi : b < w + n) :
    overlay w n c m b = c b :=
  if_pos ⟨hlo, hhi⟩

theorem overlay_empty (w : Nat) (c m : Memory) : overlay w 0 c m = m := by
  funext b
  exact overlay_outside c m (by omega)

theorem overlay_sameOn {w n lo hi : Nat} (c m : Memory) (h : hi ≤ w ∨ w + n ≤ lo) :
    SameOn (overlay w n c m) m lo hi := by
  intro b hlo hhi
  exact overlay_outside c m (by omega)

/-- Headers outside an overlay are those of the memory under it. -/
theorem Executed.overlay (h : Executed S lo k l hi nodes m m' V) {w n : Nat} (c : Memory)
    (hS : ∀ a ∈ S, a + 16 ≤ w ∨ w + n ≤ a) :
    Executed S lo k l hi nodes (overlay w n c m) (overlay w n c m') V where
  ctrl_eq := fun a ha => (ctrl_congr (overlay_sameOn c m' (hS a ha))).trans (h.ctrl_eq a ha)
  frame := by
    intro b hb hb' hnodes
    by_cases hin : w ≤ b ∧ b < w + n
    · rw [overlay_inside c m hin.1 hin.2, overlay_inside c m' hin.1 hin.2]
    · rw [overlay_outside c m (by omega), overlay_outside c m' (by omega)]
      exact h.frame b hb hb' hnodes

end interprocess.rbtree_best_fit
