import Interprocess.MemAlgo.RbtreeBestFit.Editing
import Interprocess.MemAlgo.RbtreeBestFit.Units

namespace interprocess.rbtree_best_fit

open ipcdetail Memory Tiling

variable {P : Traits} {S : Set Nat} {lo k l hi : Nat} {nodes : List Nat} {m : Memory}
  {V : Nat → BlockCtrl} {h : Heap}

/-- A merge that may not be needed. -/
theorem Editing.merge_if (hE : Editing S lo k l hi nodes m h V) (hS : Spread P S) {block other : Nat}
    (c : Bool) (node : Nat) (hblock : block ∈ S) (hother : other ∈ S)
    (hin : (lo ≤ block + 8 ∧ block + 16 ≤ k) ∨ (l ≤ block + 8 ∧ block + 16 ≤ hi))
    (hsize : (V block).m_size + (if c then (V other).m_size else 0) < 2 ^ 62) :
    Editing S lo k l hi nodes m (if c then rbtree_best_fit.merge P h block other node else h)
      (Function.update V block
        { V block with m_size := (V block).m_size + if c then (V other).m_size else 0 }) := by
  cases c with
  | true => exact hE.merge hS node hblock hother hin hsize
  | false =>
    simp only [Bool.false_eq_true, if_false, Nat.add_zero, Function.update_eq_self]
    exact hE

/-- A deallocation with the header data of the block, of its free neighbours and
    of the block behind them: what is done before the merged block is inserted. -/
theorem Editing.priv_deallocate (hE : Editing S lo k l hi nodes m h V) (hS : Spread P S)
    {b t x e : Nat} {c d : Bool} (hb : b ∈ S) (ht : t ∈ S)
    (hnext : x ∈ S) (he : e ∈ S) (hne : t ≠ x) (hat : b + (V b).m_size * P.Alignment = x)
    (hprev : (V b).m_prev_allocated = !c)
    (htarget : t = if c then b - (V b).m_prev_size * P.Alignment else b)
    (hfree : (V x).m_allocated = !d)
    {w : Nat}
    (htotal : (V t).m_size + (if c then (V b).m_size else 0) +
      (if d then (V x).m_size else 0) = w)
    (hend : t + w * P.Alignment = e) (hlt : w < 2 ^ 62) (hin : l ≤ t + 8)
    (hle : t + 8 ≤ e) (hhi : e + 16 ≤ hi) :
    ∃ h', rbtree_best_fit.priv_deallocate P h (priv_get_user_buffer P b) = h'.insert P t ∧
      Editing S lo k l hi nodes m h'
        (marked_free (Function.update V t { V t with m_size := w }) t e) ∧
      h'.m_imultiset =
        (if d then
          (if c then h.m_imultiset.erase t else h.m_imultiset).erase x
        else if c then h.m_imultiset.erase t else h.m_imultiset) ∧
      h'.m_allocated = h.m_allocated - P.Alignment * (V b).m_size := by
  have hX := hE.executed
  have hE₁ : Editing S lo k l hi nodes m
      { h with m_allocated := h.m_allocated - P.Alignment * (V b).m_size } V := hE.update rfl hX
  have hE₂ := hE₁.merge_if hS c t ht hb (by omega) (by omega)
  have hE₃ := hE₂.merge_if hS d x ht hnext (by omega) (by
    rw [Function.update_self, Function.update_of_ne hne.symm]
    simp only
    omega)
  rw [Function.update_self, Function.update_of_ne hne.symm, Function.update_idem] at hE₃
  simp only [htotal] at hE₃
  have hmark := hE₃.executed.mark_free hS ht he (by rw [Function.update_self]; exact hend) (by omega)
    (by omega)
  refine ⟨_, ?_, hE₃.with_mem hmark, ?_, ?_⟩
  · unfold rbtree_best_fit.priv_deallocate
    rw [if_neg (priv_get_user_buffer_ne_zero b), priv_get_block_user_buffer]
    have hnextblock : priv_next_block P h.mem b = x := by
      unfold priv_next_block
      rw [hX.size_eq hb, hat]
    have hto : (if c = true then priv_prev_block P h.mem b else b) = t := by
      unfold priv_prev_block
      rw [htarget, hX.prev_size_eq hb]
    simp only [hX.size_eq hb, hnextblock, hX.prev_allocated_eq hb, hX.allocated_eq hnext, hprev, hfree,
      Bool.not_not, hto]
  · cases c <;> cases d <;> rfl
  · cases c <;> cases d <;> rfl

section Coalescing

variable {first : Nat} {L R : List Block}

/-- A free block that may be missing. -/
def free_if (c : Bool) (u : Nat) : List Block :=
  if c then [⟨u, false⟩] else []

@[simp] theorem free_if_true (u : Nat) : free_if true u = [⟨u, false⟩] :=
  rfl

@[simp] theorem free_if_false (u : Nat) : free_if false u = [] :=
  rfl

/-- A block in use with its free neighbours. -/
def surrounded (c d : Bool) (p u n : Nat) : List Block :=
  free_if c p ++ ⟨u, true⟩ :: free_if d n

theorem units_surrounded (c d : Bool) (p u n : Nat) :
    units (surrounded c d p u n) = (if c then p else 0) + (u + if d then n else 0) := by
  cases c <;> cases d <;> simp [surrounded]

/-- What the headers say around a block in use whose free neighbours are known. -/
structure Surroundings (V : Nat → BlockCtrl) (c d : Bool) (p u n t b next e : Nat) (l r : Block) :
    Prop where
  block_size : (V b).m_size = u
  prev_allocated : (V b).m_prev_allocated = !c
  prev_size : c = true → (V b).m_prev_size = p
  target_size : (V t).m_size = if c then p else u
  target_prev : (V t).m_prev_allocated = l.used
  target_prev_size : l.used = false → (V t).m_prev_size = l.units
  next_allocated : (V next).m_allocated = !d
  next_size : d = true → (V next).m_size = n
  end_size : (V e).m_size = r.units
  end_allocated : (V e).m_allocated = r.used

theorem surroundings_of_linked {V : Nat → BlockCtrl} {c d : Bool} {p u n t b next e : Nat}
    {l r : Block} (h : Linked P.Alignment (HeaderAt V) t l (surrounded c d p u n ++ [r]))
    (hb : b = t + (if c then p else 0) * P.Alignment) (hnext : next = b + u * P.Alignment)
    (he : e = next + (if d then n else 0) * P.Alignment) (hl : c = false → l.used = true)
    (hr : d = false → r.used = true) : Surroundings V c d p u n t b next e l r := by
  subst hb hnext he
  cases c <;> cases d
  · obtain ⟨h₁, h₂, -⟩ := h
    simp only [Bool.false_eq_true, if_false, Nat.zero_mul, Nat.add_zero] at h₂ ⊢
    exact ⟨h₁.size, h₁.prev_allocated.trans (hl rfl), (by nofun), h₁.size, h₁.prev_allocated,
      h₁.prev_size, h₂.allocated.trans (hr rfl), (by nofun), h₂.size, h₂.allocated⟩
  · obtain ⟨h₁, h₂, h₃, -⟩ := h
    simp only [Bool.false_eq_true, if_false, if_true, Nat.zero_mul, Nat.add_zero] at h₂ h₃ ⊢
    exact ⟨h₁.size, h₁.prev_allocated.trans (hl rfl), (by nofun), h₁.size, h₁.prev_allocated,
      h₁.prev_size, h₂.allocated, fun _ => h₂.size, h₃.size, h₃.allocated⟩
  · obtain ⟨h₀, h₁, h₂, -⟩ := h
    simp only [Bool.false_eq_true, if_false, if_true, Nat.zero_mul, Nat.add_zero] at h₁ h₂ ⊢
    exact ⟨h₁.size, h₁.prev_allocated, fun _ => h₁.prev_size rfl, h₀.size, h₀.prev_allocated,
      h₀.prev_size, h₂.allocated.trans (hr rfl), (by nofun), h₂.size, h₂.allocated⟩
  · obtain ⟨h₀, h₁, h₂, h₃, -⟩ := h
    exact ⟨h₁.size, h₁.prev_allocated, fun _ => h₁.prev_size rfl, h₀.size, h₀.prev_allocated,
      h₀.prev_size, h₂.allocated, fun _ => h₂.size, h₃.size, h₃.allocated⟩

/-- The nodes of the tree without the free neighbours. -/
theorem perm_erase_surrounded {nodes l₁ l₂ : List Nat} {c d : Bool} {p u n a : Nat}
    (h : nodes.Perm (l₁ ++ (frees P.Alignment a (surrounded c d p u n) ++ l₂))) :
    (if d then
      (if c then nodes.erase a else nodes).erase
        (a + (if c then p else 0) * P.Alignment + u * P.Alignment)
    else if c then nodes.erase a else nodes).Perm (l₁ ++ l₂) := by
  cases c <;> cases d <;>
    simp only [surrounded, free_if_true, free_if_false, List.nil_append, List.cons_append,
      frees_cons_used, frees_cons_free, frees_nil, Bool.false_eq_true, if_false, if_true,
      Nat.zero_mul, Nat.add_zero] at h ⊢
  · exact h
  · exact perm_erase_middle h
  · exact perm_erase_middle h
  · exact perm_erase_middle (perm_erase_middle h)

/-- Where the headers around a block in use stand. -/
def addresses (t b next e : Nat) : Set Nat :=
  {t, b, next, e}

theorem spread_addresses {t b next e : Nat} (hb : b = t ∨ t + P.BlockCtrlBytes ≤ b)
    (hnext : b + P.BlockCtrlBytes ≤ next) (he : e = next ∨ next + P.BlockCtrlBytes ≤ e) :
    Spread P (addresses t b next e) := by
  rintro x (rfl | rfl | rfl | rfl) y (rfl | rfl | rfl | rfl) <;> omega

/-- The headers after the deallocation. -/
theorem headers_deallocated {V : Nat → BlockCtrl} {c d : Bool} {p u n t b next e total : Nat}
    {l r : Block} (hV : Surroundings V c d p u n t b next e l r) (hne : t ≠ e)
    (he : e = t + total * P.Alignment) :
    Linked P.Alignment (HeaderAt (marked_free (Function.update V t { V t with m_size := total }) t e))
      t l ([⟨total, false⟩] ++ [r]) := by
  subst he
  refine ⟨?_, ?_, trivial⟩
  · refine ⟨?_, ?_, ?_, ?_⟩ <;> rw [marked_free_self _ hne, Function.update_self]
    · exact hV.target_prev
    · exact hV.target_prev_size
  · refine ⟨?_, ?_, ?_, ?_⟩ <;>
      rw [marked_free_next _ hne, Function.update_self, Function.update_of_ne hne.symm]
    · exact hV.end_size
    · exact hV.end_allocated
    · exact fun _ => rfl

/-- Where a block in use with its free neighbours lies. -/
structure Around (P : Traits) (first : Nat) (L : List Block) (c d : Bool) (p u n t b next e : Nat) :
    Prop where
  target : t = stop P.Alignment first L
  block : b = t + (if c then p else 0) * P.Alignment
  next_block : next = b + u * P.Alignment
  end_block : e = next + (if d then n else 0) * P.Alignment
  total : t + units (surrounded c d p u n) * P.Alignment = e
  stop_eq : stop P.Alignment first (L ++ surrounded c d p u n) = e
  before : (c = false ∧ b = t) ∨ (c = true ∧ t + P.BlockCtrlBytes ≤ b)
  here : b + P.BlockCtrlBytes ≤ next
  behind : (d = false ∧ e = next) ∨ (d = true ∧ next + P.BlockCtrlBytes ≤ e)

theorem exists_around (first : Nat) (L : List Block) {c d : Bool} {p u n : Nat}
    (hsizes : ∀ b ∈ surrounded c d p u n, P.BlockCtrlUnits ≤ b.units) :
    ∃ t b next e, Around P first L c d p u n t b next e := by
  have hcp : c = true → P.BlockCtrlBytes ≤ p * P.Alignment := by
    rintro rfl
    exact bytes_ge (b := ⟨p, false⟩) (hsizes _ (by simp [surrounded]))
  have hu : P.BlockCtrlBytes ≤ u * P.Alignment :=
    bytes_ge (b := ⟨u, true⟩) (hsizes _ (by simp [surrounded]))
  have hdn : d = true → P.BlockCtrlBytes ≤ n * P.Alignment := by
    rintro rfl
    exact bytes_ge (b := ⟨n, false⟩) (hsizes _ (by simp [surrounded]))
  obtain ⟨t, ht⟩ : ∃ t, t = stop P.Alignment first L := ⟨_, rfl⟩
  obtain ⟨b, hb⟩ : ∃ b, b = t + (if c then p else 0) * P.Alignment := ⟨_, rfl⟩
  obtain ⟨next, hnext⟩ : ∃ next, next = b + u * P.Alignment := ⟨_, rfl⟩
  obtain ⟨e, he⟩ : ∃ e, e = next + (if d then n else 0) * P.Alignment := ⟨_, rfl⟩
  have htotal : t + units (surrounded c d p u n) * P.Alignment = e := by
    rw [units_surrounded, Nat.add_mul, Nat.add_mul, he, hnext, hb, Nat.add_assoc, Nat.add_assoc]
  refine ⟨t, b, next, e, ht, hb, hnext, he, htotal, ?_, ?_, by omega, ?_⟩
  · rw [stop_append, ← ht, stop, htotal]
  · cases c with
    | false => exact Or.inl ⟨rfl, by rw [hb]; simp⟩
    | true =>
      refine Or.inr ⟨rfl, ?_⟩
      rw [hb, if_pos rfl]
      exact Nat.add_le_add_left (hcp rfl) t
  · cases d with
    | false => exact Or.inl ⟨rfl, by rw [he]; simp⟩
    | true =>
      refine Or.inr ⟨rfl, ?_⟩
      rw [he, if_pos rfl]
      exact Nat.add_le_add_left (hdn rfl) next

section Placed

variable {c d : Bool} {p u n t b next e : Nat} (haround : Around P first L c d p u n t b next e)

include haround

theorem Around.spread : Spread P (addresses t b next e) := by
  have hbefore := haround.before
  have hbehind := haround.behind
  exact spread_addresses (by omega) haround.here (by omega)

theorem Around.bounds {x : Nat} (hx : x ∈ addresses t b next e) : t ≤ x ∧ x ≤ e := by
  have hbefore := haround.before
  have hhere := haround.here
  have hbehind := haround.behind
  rcases hx with rfl | rfl | rfl | rfl <;> omega

theorem Around.frees_eq {x : Nat} (hx : x ∈ frees P.Alignment t (surrounded c d p u n)) :
    (c = true ∧ x = t) ∨ (d = true ∧ x = next) := by
  rw [haround.next_block, haround.block]
  revert hx
  cases c <;> cases d <;> simp [surrounded]

/-- A deallocation starts, in a memory with the same tree. -/
theorem Around.editing (h' : Heap) (hrep : Rep P h first (L ++ surrounded c d p u n ++ R))
    (htree : h'.m_imultiset = h.m_imultiset) :
    Editing (addresses t b next e) (t + 8) (t + 8) (t + 8) (e + 16)
      (outside P first L (surrounded c d p u n) R) h'.mem h' (ctrl h'.mem) := by
  have hge := P.BlockCtrlBytes_ge
  have hbefore := haround.before
  have hhere := haround.here
  have hbehind := haround.behind
  have hediting := hrep.editing_of_tree (S := addresses t b next e) (k := t + 8) (l := t + 8) htree
  rw [haround.stop_eq, ← haround.target] at hediting
  refine hediting (fun x hx => haround.bounds hx) ?_ ?_
  · rintro x (rfl | rfl | rfl | rfl) y hy <;>
      rcases haround.frees_eq hy with ⟨_, rfl⟩ | ⟨_, rfl⟩ <;> omega
  · intro y hy
    rcases haround.frees_eq hy with ⟨_, rfl⟩ | ⟨_, rfl⟩ <;> omega

/-- What the headers say in the memory of the code, which differs from that of the
    heap in front of the blocks only. -/
theorem Around.surroundings (h' : Heap) {r : Block} {R' : List Block}
    (hrep : Rep P h first (L ++ surrounded c d p u n ++ R))
    (hR : R ++ [⟨units (L ++ surrounded c d p u n ++ R), true⟩] = r :: R')
    (hsame : SameOn h'.mem h.mem t (e + 16)) (hl : c = false → (last front L).used = true)
    (hr : d = false → r.used = true) :
    Surroundings (ctrl h'.mem) c d p u n t b next e (last front L) r := by
  have hctrl : ∀ x ∈ addresses t b next e, ctrl h'.mem x = ctrl h.mem x := by
    intro x hx
    have hbounds := haround.bounds hx
    exact ctrl_congr (hsame.mono (by omega) (by omega))
  have hheaders := hrep.headers_here hR
  rw [← haround.target] at hheaders
  have hV := surroundings_of_linked hheaders haround.block haround.next_block haround.end_block hl hr
  have ht := hctrl t (by simp [addresses])
  have hb := hctrl b (by simp [addresses])
  have hnext := hctrl next (by simp [addresses])
  have he := hctrl e (by simp [addresses])
  exact ⟨by rw [hb, hV.block_size], by rw [hb, hV.prev_allocated], by rw [hb]; exact hV.prev_size,
    by rw [ht, hV.target_size], by rw [ht, hV.target_prev], by rw [ht]; exact hV.target_prev_size,
    by rw [hnext, hV.next_allocated], by rw [hnext]; exact hV.next_size, by rw [he, hV.end_size],
    by rw [he, hV.end_allocated]⟩

end Placed

/-- A deallocation merges the block with its free neighbours. It may start while the
    bytes of some blocks in front of it are not yet what they will be. -/
theorem Rep.deallocate_exchange_overlay {c d : Bool} {p u n w l : Nat} {m : Memory}
    (hrep : Rep P { h with mem := overlay w l m h.mem } first (L ++ surrounded c d p u n ++ R))
    (hl : c = false → (last front L).used = true) (hr : d = false → ∀ r ∈ R.head?, r.used = true)
    (hw : w + l ≤ stop P.Alignment first L)
    (hnodes : ∀ x ∈ h.m_imultiset, x + 40 ≤ w ∨ w + l ≤ x) :
    SameOn (priv_deallocate P h (priv_get_user_buffer P
        (stop P.Alignment first L + (if c then p else 0) * P.Alignment))).mem h.mem w (w + l) ∧
    Exchange P { h with mem := overlay w l m h.mem }
      { priv_deallocate P h (priv_get_user_buffer P
          (stop P.Alignment first L + (if c then p else 0) * P.Alignment)) with
        mem := overlay w l m (priv_deallocate P h (priv_get_user_buffer P
          (stop P.Alignment first L + (if c then p else 0) * P.Alignment))).mem }
      first L (surrounded c d p u n) [⟨units (surrounded c d p u n), false⟩] R := by
  obtain ⟨r, R', hR⟩ := exists_next R ⟨units (L ++ surrounded c d p u n ++ R), true⟩
  have hrused : d = false → r.used = true := by
    intro hd
    cases R with
    | nil =>
      cases hR
      rfl
    | cons c R =>
      cases hR
      exact hr hd r rfl
  have hsizes : ∀ b ∈ surrounded c d p u n, P.BlockCtrlUnits ≤ b.units := by
    intro b hb
    exact hrep.sizes b (by simp [hb])
  obtain ⟨t, b, next, e, haround⟩ := exists_around first L hsizes
  have hge := P.BlockCtrlBytes_ge
  have hbefore := haround.before
  have hhere := haround.here
  have hbehind := haround.behind
  rw [← haround.target] at hw
  have hS := haround.spread
  have hV := haround.surroundings h hrep hR (overlay_sameOn m h.mem (Or.inr hw)).symm hl
    hrused
  have hlt : units (surrounded c d p u n) < 2 ^ 62 := by
    have hunits := hrep.units_lt
    simp only [units_append] at hunits
    omega
  obtain ⟨h', hanswer, hE, htree, halloc⟩ := (haround.editing h hrep rfl).priv_deallocate hS
    (b := b) (t := t) (x := next) (e := e) (c := c) (d := d)
    (by simp [addresses]) (by simp [addresses]) (by simp [addresses]) (by simp [addresses]) (by omega)
    (by rw [hV.block_size, haround.next_block]) hV.prev_allocated (by
      cases c with
      | false => rw [haround.block]; simp
      | true => rw [hV.prev_size rfl, haround.block]; simp) hV.next_allocated
    (w := units (surrounded c d p u n)) (by
      rw [hV.target_size, hV.block_size, units_surrounded]
      cases c <;> cases d <;> simp [Nat.add_assoc]
      all_goals exact hV.next_size rfl) haround.total hlt (Nat.le_refl _) (by omega) (Nat.le_refl _)
  have hrest : h'.m_imultiset.Perm (outside P first L (surrounded c d p u n) R) := by
    have hperm := hrep.nodes_perm
    rw [← haround.target] at hperm
    rw [htree, haround.next_block, haround.block]
    exact perm_erase_surrounded hperm
  have hfinal := hE.insert (P := P) (x := t) (by omega) (by
    rintro x (rfl | rfl | rfl | rfl) <;> omega)
  have hfar : ∀ a ∈ addresses t b next e, a + 16 ≤ w ∨ w + l ≤ a := by
    intro a ha
    have hbounds := haround.bounds ha
    omega
  have hEo := hE.overlay m hfar
  have hfinalo := hfinal.overlay m hfar
  rw [← haround.target, ← haround.block, hanswer]
  obtain ⟨ht, hstop⟩ := And.intro haround.target haround.stop_eq
  subst ht
  rw [← hstop] at hEo hfinalo hV
  have hsublist : h'.m_imultiset.Sublist h.m_imultiset := by
    rw [htree]
    cases c <;> cases d <;> simp only [Bool.false_eq_true, if_false, if_true]
    · exact List.Sublist.refl _
    · exact List.erase_sublist
    · exact List.erase_sublist
    · exact List.erase_sublist.trans List.erase_sublist
  constructor
  · intro x hlo hhi
    refine hfinal.executed.frame x (by omega) (by omega) fun y hy => ?_
    have hfar' := hnodes y (hsublist.mem (hrest.mem_iff.mpr hy))
    omega
  refine hfinalo.exchange ?_ ?_ hR ?_ ?_ ?_ ?_ ?_ ?_ ?_ ?_ ?_
  · omega
  · exact Nat.le_refl _
  · simp
  · intro x hx
    cases List.mem_singleton.mp hx
    have huin := hsizes ⟨u, true⟩ (by simp [surrounded])
    rw [units_surrounded]
    change P.BlockCtrlUnits ≤ u at huin
    change P.BlockCtrlUnits ≤ _ + (u + _)
    omega
  · refine ⟨Or.inl ?_, trivial⟩
    cases c with
    | false => exact hl rfl
    | true => exact hrep.separated_here.1.resolve_right (by nofun)
  · intro x hx
    refine Or.inr ?_
    cases d with
    | false => exact hr rfl x hx
    | true =>
      refine (hrep.separated_behind x hx).resolve_left ?_
      simp [surrounded]
  · exact headers_deallocated hV (by omega) (hstop.trans haround.total.symm)
  · intro x y hx
    simp only [List.cons_append, List.nil_append, placed, List.mem_cons, List.not_mem_nil,
      Prod.mk.injEq, or_false, haround.total] at hx
    rw [hstop]
    rcases hx with ⟨rfl, _⟩ | ⟨rfl, _⟩ <;> simp [addresses]
  · refine (List.perm_orderedInsert _ _ _).trans ?_
    exact (hrest.cons _).trans List.perm_middle.symm
  · have hsize : ∀ (m' : Memory) x, x + 16 ≤ w ∨ w + l ≤ x →
        m_size (overlay w l m m') x = m_size m' x := by
      intro m' x hx
      exact congrArg SizeHolder.m_size (holder_congr (overlay_sameOn m m' (by omega)))
    have hinsert : (h'.insert P (stop P.Alignment first L)).m_imultiset =
        h'.m_imultiset.orderedInsert (fun x y => m_size (overlay w l m h'.mem) x <
          m_size (overlay w l m h'.mem) y) (stop P.Alignment first L) := by
      refine orderedInsert_congr fun x hx => ?_
      have hfar' := hnodes x (hsublist.mem hx)
      rw [hsize _ x (by omega), hsize _ _ (Or.inr hw)]
    have hend : (ctrl h.mem (stop P.Alignment first (L ++ surrounded c d p u n))).m_size =
        m_size (overlay w l m h.mem) (stop P.Alignment first (L ++ surrounded c d p u n)) :=
      (hsize _ _ (by omega)).symm
    rw [hinsert]
    refine hrep.sorted_insert hsublist (fun x hx => hrest.mem_iff.mp hx) hEo.executed.frame
      hfinalo.executed.frame ?_ ?_ ?_
    · rw [hEo.executed.size_eq (by simp [addresses]), marked_free_next _ (by omega),
        Function.update_of_ne (by omega)]
      exact hend
    · rw [hfinalo.executed.size_eq (by simp [addresses]), marked_free_next _ (by omega),
        Function.update_of_ne (by omega)]
      exact hend
    · rw [hfinalo.executed.size_eq (by simp [addresses]), hEo.executed.size_eq (by simp [addresses])]
  · have hallocated := hrep.allocated
    simp only [usedUnits_append] at hallocated
    have hused : usedUnits (surrounded c d p u n) = u := by
      cases c <;> cases d <;> simp [surrounded, usedUnits_cons]
    change h'.m_allocated + _ = _
    rw [halloc, hV.block_size, hused, usedUnits_cons, usedUnits_nil]
    simp only [hused, Nat.add_mul] at hallocated
    have hcomm := Nat.mul_comm P.Alignment u
    simp only [Bool.false_eq_true, if_false, Nat.add_zero, Nat.zero_mul]
    omega

/-- A deallocation merges the block with its free neighbours. -/
theorem Rep.deallocate_exchange {c d : Bool} {p u n : Nat}
    (hrep : Rep P h first (L ++ surrounded c d p u n ++ R))
    (hl : c = false → (last front L).used = true) (hr : d = false → ∀ r ∈ R.head?, r.used = true) :
    Exchange P h (priv_deallocate P h (priv_get_user_buffer P
        (stop P.Alignment first L + (if c then p else 0) * P.Alignment)))
      first L (surrounded c d p u n) [⟨units (surrounded c d p u n), false⟩] R := by
  have hempty : ∀ g : Heap, { g with mem := overlay 0 0 h.mem g.mem } = g := by
    intro g
    rw [overlay_empty]
  have hrep' : Rep P { h with mem := overlay 0 0 h.mem h.mem } first
      (L ++ surrounded c d p u n ++ R) := by
    rw [hempty]
    exact hrep
  have hexchange := (hrep'.deallocate_exchange_overlay hl hr (Nat.zero_le _)
    fun x _ => Or.inr (Nat.zero_le x)).2
  rwa [hempty, hempty] at hexchange

end Coalescing

end interprocess.rbtree_best_fit
