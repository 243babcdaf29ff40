import Interprocess.MemAlgo.RbtreeBestFit.Nodes

namespace interprocess.rbtree_best_fit

open ipcdetail Memory Tiling

/-- A heap in the middle of an operation that started with the memory `m`: its
    control data, and a tree whose hooks do not meet the control data. -/
structure Editing (S : Set Nat) (lo k l hi : Nat) (nodes : List Nat) (m : Memory) (h : Heap)
    (V : Nat → BlockCtrl) : Prop where
  executed : Executed S lo k l hi nodes m h.mem V
  hooks : ∀ n ∈ h.m_imultiset,
    n ∈ nodes ∨ (lo ≤ n + 16 ∧ n + 40 ≤ k) ∨ (l ≤ n + 16 ∧ n + 40 ≤ hi)
  clear : Clear S h.m_imultiset

variable {P : Traits} {S : Set Nat} {lo k l hi : Nat} {nodes : List Nat} {m : Memory}
  {V : Nat → BlockCtrl} {h : Heap}

/-- A step that leaves the tree alone. -/
theorem Editing.update (hE : Editing S lo k l hi nodes m h V) {h' : Heap} {V' : Nat → BlockCtrl}
    (htree : h'.m_imultiset = h.m_imultiset) (hX : Executed S lo k l hi nodes m h'.mem V') :
    Editing S lo k l hi nodes m h' V' where
  executed := hX
  hooks := by
    rw [htree]
    exact hE.hooks
  clear := by
    rw [htree]
    exact hE.clear

theorem Editing.with_mem (hE : Editing S lo k l hi nodes m h V) {m' : Memory} {V' : Nat → BlockCtrl}
    (hX : Executed S lo k l hi nodes m m' V') :
    Editing S lo k l hi nodes m { h with mem := m' } V' :=
  hE.update rfl hX

theorem Editing.with_allocated (hE : Editing S lo k l hi nodes m h V) {m' : Memory}
    {V' : Nat → BlockCtrl} (n : Nat) (hX : Executed S lo k l hi nodes m m' V') :
    Editing S lo k l hi nodes m { h with m_allocated := n, mem := m' } V' :=
  hE.update rfl hX

theorem Editing.erase (hE : Editing S lo k l hi nodes m h V) (x : Nat) :
    Editing S lo k l hi nodes m (h.erase P x) V where
  executed := hE.executed.write_hooks hE.clear hE.hooks
  hooks := fun n hn => hE.hooks n (List.mem_of_mem_erase hn)
  clear := fun a ha n hn => hE.clear a ha n (List.mem_of_mem_erase hn)

/-- A tree with one more node. -/
theorem Editing.link (hE : Editing S lo k l hi nodes m h V) {h' : Heap} {x : Nat}
    (htree : ∀ n ∈ h'.m_imultiset, n = x ∨ n ∈ h.m_imultiset)
    (hmem : h'.mem = P.write_hooks h.mem h'.m_imultiset)
    (hin : (lo ≤ x + 16 ∧ x + 40 ≤ k) ∨ (l ≤ x + 16 ∧ x + 40 ≤ hi))
    (hclear : ∀ a ∈ S, a ≤ x ∨ x + 40 ≤ a) : Editing S lo k l hi nodes m h' V := by
  have hhooks : ∀ n ∈ h'.m_imultiset,
      n ∈ nodes ∨ (lo ≤ n + 16 ∧ n + 40 ≤ k) ∨ (l ≤ n + 16 ∧ n + 40 ≤ hi) := by
    intro n hn
    rcases htree n hn with rfl | hn
    · exact Or.inr hin
    · exact hE.hooks n hn
  have hclear' : Clear S h'.m_imultiset := by
    intro a ha n hn
    rcases htree n hn with rfl | hn
    · exact hclear a ha
    · exact hE.clear a ha n hn
  refine ⟨?_, hhooks, hclear'⟩
  rw [hmem]
  exact hE.executed.write_hooks hclear' hhooks

theorem Editing.insert (hE : Editing S lo k l hi nodes m h V) {x : Nat}
    (hin : (lo ≤ x + 16 ∧ x + 40 ≤ k) ∨ (l ≤ x + 16 ∧ x + 40 ≤ hi))
    (hclear : ∀ a ∈ S, a ≤ x ∨ x + 40 ≤ a) : Editing S lo k l hi nodes m (h.insert P x) V :=
  hE.link (fun _ hn => (List.mem_orderedInsert _).mp hn) rfl hin hclear

theorem Editing.insert_begin (hE : Editing S lo k l hi nodes m h V) {x : Nat}
    (hin : (lo ≤ x + 16 ∧ x + 40 ≤ k) ∨ (l ≤ x + 16 ∧ x + 40 ≤ hi))
    (hclear : ∀ a ∈ S, a ≤ x ∨ x + 40 ≤ a) : Editing S lo k l hi nodes m (h.insert_begin P x) V :=
  hE.link (fun _ hn => (List.mem_orderedInsert _).mp hn) rfl hin hclear

/-- The control data at one more address. -/
theorem Editing.watch (hE : Editing S lo k l hi nodes m h V) {x : Nat}
    (hclear : ∀ n ∈ h.m_imultiset, x ≤ n ∨ n + 40 ≤ x) :
    Editing (Insert.insert x S) lo k l hi nodes m h (Function.update V x (ctrl h.mem x)) := by
  refine ⟨⟨?_, hE.executed.frame⟩, hE.hooks, ?_⟩
  · rintro a (rfl | ha)
    · rw [Function.update_self]
    · by_cases hax : a = x
      · rw [hax, Function.update_self]
      · rw [Function.update_of_ne hax, hE.executed.ctrl_eq a ha]
  · rintro a (rfl | ha) n hn
    · exact hclear n hn
    · exact hE.clear a ha n hn

/-- The free block at `block` takes in the one at `other`. -/
theorem Editing.merge (hE : Editing S lo k l hi nodes m h V) (hS : Spread P S) {block other : Nat}
    (node : Nat) (hblock : block ∈ S) (hother : other ∈ S)
    (hin : (lo ≤ block + 8 ∧ block + 16 ≤ k) ∨ (l ≤ block + 8 ∧ block + 16 ≤ hi))
    (hsize : (V block).m_size + (V other).m_size < 2 ^ 62) :
    Editing S lo k l hi nodes m (merge P h block other node)
      (Function.update V block
        { V block with m_size := (V block).m_size + (V other).m_size }) := by
  have hX := hE.executed.set_size hS hblock hin hsize
  have hsum : m_size h.mem block + m_size h.mem other = (V block).m_size + (V other).m_size := by
    rw [hE.executed.size_eq hblock, hE.executed.size_eq hother]
  unfold rbtree_best_fit.merge
  simp only [hsum]
  refine Editing.erase ?_ node
  exact hE.update rfl hX

theorem Editing.overlay (hE : Editing S lo k l hi nodes m h V) {w n : Nat} (c : Memory)
    (hS : ∀ a ∈ S, a + 16 ≤ w ∨ w + n ≤ a) :
    Editing S lo k l hi nodes (overlay w n c m) { h with mem := overlay w n c h.mem } V where
  executed := hE.executed.overlay c hS
  hooks := hE.hooks
  clear := hE.clear

section Start

variable {first : Nat} {L G G' R : List Block}

/-- An operation starts on the blocks `G`, in any memory. -/
theorem Rep.editing_of_tree (hrep : Rep P h first (L ++ G ++ R)) {h' : Heap}
    (htree : h'.m_imultiset = h.m_imultiset) {S : Set Nat} {k l : Nat}
    (hS : ∀ a ∈ S, stop P.Alignment first L ≤ a ∧ a ≤ stop P.Alignment first (L ++ G))
    (hclear : ∀ a ∈ S, ∀ n ∈ frees P.Alignment (stop P.Alignment first L) G, a ≤ n ∨ n + 40 ≤ a)
    (hl : ∀ n ∈ frees P.Alignment (stop P.Alignment first L) G, l ≤ n + 16) :
    Editing S (stop P.Alignment first L + 8) k l (stop P.Alignment first (L ++ G) + 16)
      (outside P first L G R) h'.mem h' (ctrl h'.mem) := by
  have hge := P.BlockCtrlBytes_ge
  have hmem : ∀ n ∈ h.m_imultiset, n ∈ outside P first L G R ∨
      n ∈ frees P.Alignment (stop P.Alignment first L) G := by
    intro n hn
    have hn' := hrep.nodes_perm.mem_iff.mp hn
    simp only [List.mem_append] at hn'
    rw [outside, List.mem_append]
    rcases hn' with hn' | hn' | hn'
    · exact Or.inl (Or.inl hn')
    · exact Or.inr hn'
    · exact Or.inl (Or.inr hn')
  rw [← htree] at hmem
  refine ⟨Executed.refl S _ _ _ _ _ _, ?_, ?_⟩
  · intro n hn
    rcases hmem n hn with hn | hn
    · exact Or.inl hn
    · refine Or.inr (Or.inr ⟨hl n hn, ?_⟩)
      obtain ⟨u, hu⟩ := (mem_frees _).mp hn
      have hbound : n + u * P.Alignment ≤ _ := (mem_placed_bounds _ hu).2
      have hbytes : P.BlockCtrlBytes ≤ u * P.Alignment :=
        bytes_ge (b := ⟨u, false⟩) (hrep.sizes _ (by
          have := mem_of_mem_placed _ hu
          simp [this]))
      rw [← stop_append] at hbound
      omega
  · intro a ha n hn
    rcases hmem n hn with hn | hn
    · exact hrep.clear_outside (hS a ha).1 (hS a ha).2 hn
    · exact hclear a ha n hn

theorem Rep.editing (hrep : Rep P h first (L ++ G ++ R)) {S : Set Nat} {k l : Nat}
    (hS : ∀ a ∈ S, stop P.Alignment first L ≤ a ∧ a ≤ stop P.Alignment first (L ++ G))
    (hclear : ∀ a ∈ S, ∀ n ∈ frees P.Alignment (stop P.Alignment first L) G, a ≤ n ∨ n + 40 ≤ a)
    (hl : ∀ n ∈ frees P.Alignment (stop P.Alignment first L) G, l ≤ n + 16) :
    Editing S (stop P.Alignment first L + 8) k l (stop P.Alignment first (L ++ G) + 16)
      (outside P first L G R) h.mem h (ctrl h.mem) :=
  hrep.editing_of_tree rfl hS hclear hl

/-- The block in front of the exchanged ones is separated from them. -/
theorem Rep.separated_here (hrep : Rep P h first (L ++ G ++ R)) :
    Linked P.Alignment Separated (stop P.Alignment first L) (last front L) G := by
  have hsep := hrep.separated
  rw [linked_append, linked_append] at hsep
  exact hsep.1.2

theorem Rep.separated_behind (hrep : Rep P h first (L ++ G ++ R)) :
    ∀ r ∈ R.head?, (last front (L ++ G)).used = true ∨ r.used = true := by
  intro r hr
  have hsep := hrep.separated
  rw [linked_append] at hsep
  cases R with
  | nil => cases hr
  | cons c R =>
    cases hr
    exact hsep.2.1

/-- Blocks on both sides of a free block are in use. -/
theorem Rep.last_used {u : Nat} (hrep : Rep P h first (L ++ [⟨u, false⟩] ++ R)) :
    (last front L).used = true :=
  hrep.separated_here.1.resolve_right (by nofun)

theorem Rep.head_used {u : Nat} (hrep : Rep P h first (L ++ [⟨u, false⟩] ++ R)) :
    ∀ r ∈ R.head?, r.used = true := by
  intro r hr
  refine (hrep.separated_behind r hr).resolve_left ?_
  rw [last_append, last_cons, last_nil]
  nofun

/-- An operation ends with the blocks `G'`. -/
theorem Editing.exchange {h' : Heap} {S : Set Nat} {k l : Nat} {V : Nat → BlockCtrl} {r : Block}
    {R' : List Block}
    (hE : Editing S (stop P.Alignment first L + 8) k l (stop P.Alignment first (L ++ G) + 16)
      (outside P first L G R) h.mem h' V)
    (hk : k ≤ stop P.Alignment first (L ++ G) + 16) (hl : stop P.Alignment first L + 8 ≤ l)
    (hR : R ++ [⟨units (L ++ G ++ R), true⟩] = r :: R') (hunits : units G' = units G)
    (hsizes : ∀ b ∈ G', P.BlockCtrlUnits ≤ b.units)
    (hsep : Linked P.Alignment Separated (stop P.Alignment first L) (last front L) G')
    (hbehind : ∀ r ∈ R.head?, (last front (L ++ G')).used = true ∨ r.used = true)
    (hheaders : Linked P.Alignment (HeaderAt V) (stop P.Alignment first L) (last front L) (G' ++ [r]))
    (hmem : ∀ x b, (x, b) ∈ placed P.Alignment (stop P.Alignment first L) (G' ++ [r]) → x ∈ S)
    (hnodes : h'.m_imultiset.Perm (frees P.Alignment first L ++
      (frees P.Alignment (stop P.Alignment first L) G' ++
        frees P.Alignment (stop P.Alignment first (L ++ G)) R)))
    (hsorted : h'.m_imultiset.Pairwise fun x y => m_size h'.mem x ≤ m_size h'.mem y)
    (halloc : h'.m_allocated + usedUnits G * P.Alignment =
      h.m_allocated + usedUnits G' * P.Alignment) : Exchange P h h' first L G G' R where
  units_eq := hunits
  sizes := hsizes
  separated := hsep
  separated_tail := hbehind
  headers := by
    intro r' R'' hR'
    rw [hR] at hR'
    cases hR'
    refine hheaders.imp ?_
    intro x q b hx hheader
    have hctrl := hE.executed.ctrl_eq x (hmem x b hx)
    exact ⟨by rw [hctrl, hheader.size], by rw [hctrl, hheader.prev_allocated],
      by rw [hctrl, hheader.allocated], by rw [hctrl]; exact hheader.prev_size⟩
  frame := hE.executed.frame.widen (Nat.le_refl _) hk hl (Nat.le_refl _)
  nodes := hnodes
  sorted := hsorted
  allocated := halloc

end Start

end interprocess.rbtree_best_fit
