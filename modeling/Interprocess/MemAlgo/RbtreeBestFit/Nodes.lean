import Interprocess.MemAlgo.RbtreeBestFit.Layout

namespace interprocess.rbtree_best_fit

open ipcdetail Memory Tiling

/-- An ordered insertion keeps the order of the keys, in front of or behind the
    equal ones. -/
theorem pairwise_le_orderedInsert {f : Nat → Nat} {r : Nat → Nat → Prop} [DecidableRel r] {a : Nat}
    {l : List Nat} (hr : ∀ b, r a b → f a ≤ f b) (hnr : ∀ b, ¬ r a b → f b ≤ f a)
    (hl : l.Pairwise fun x y => f x ≤ f y) :
    (l.orderedInsert r a).Pairwise fun x y => f x ≤ f y := by
  induction l with
  | nil => exact List.pairwise_singleton _ a
  | cons b l ih =>
    obtain ⟨hb, htail⟩ := List.pairwise_cons.mp hl
    by_cases hab : r a b
    · rw [List.orderedInsert_cons_of_le r l hab]
      refine List.pairwise_cons.mpr ⟨?_, hl⟩
      intro c hc
      rcases List.mem_cons.mp hc with rfl | hc
      · exact hr c hab
      · exact Nat.le_trans (hr b hab) (hb c hc)
    · rw [List.orderedInsert_of_not_le r l hab]
      refine List.pairwise_cons.mpr ⟨?_, ih htail⟩
      intro c hc
      rcases (List.mem_orderedInsert r).mp hc with rfl | hc
      · exact hnr b hab
      · exact hb c hc

theorem orderedInsert_congr {r r' : Nat → Nat → Prop} [DecidableRel r] [DecidableRel r'] {a : Nat}
    {l : List Nat} (hr : ∀ b ∈ l, r a b ↔ r' a b) : l.orderedInsert r a = l.orderedInsert r' a := by
  induction l with
  | nil => rfl
  | cons b l ih =>
    rw [List.orderedInsert_cons, List.orderedInsert_cons,
      ih fun c hc => hr c (List.mem_cons_of_mem b hc)]
    exact if_congr (hr b List.mem_cons_self) rfl rfl

theorem pairwise_le_congr {f g : Nat → Nat} {l : List Nat} (hl : l.Pairwise fun x y => f x ≤ f y)
    (hfg : ∀ x ∈ l, g x = f x) : l.Pairwise fun x y => g x ≤ g y := by
  refine hl.imp_of_mem ?_
  intro x y hx hy hxy
  rw [hfg x hx, hfg y hy]
  exact hxy

theorem perm_erase_middle {nodes l₁ l₂ : List Nat} {x : Nat} (h : nodes.Perm (l₁ ++ x :: l₂)) :
    (nodes.erase x).Perm (l₁ ++ l₂) := by
  have hcons := (h.trans List.perm_middle).erase x
  rwa [List.erase_cons_head] at hcons

variable {P : Traits} {h : Heap} {first : Nat} {L G R : List Block}

/-- The free blocks outside the exchanged ones. -/
def outside (P : Traits) (first : Nat) (L G R : List Block) : List Nat :=
  frees P.Alignment first L ++ frees P.Alignment (stop P.Alignment first (L ++ G)) R

theorem mem_outside {n : Nat} (hn : n ∈ outside P first L G R) :
    ∃ u, (n, (⟨u, false⟩ : Block)) ∈ placed P.Alignment first (L ++ G ++ R) ∧
      (n + u * P.Alignment ≤ stop P.Alignment first L ∨ stop P.Alignment first (L ++ G) ≤ n) := by
  rw [outside, List.mem_append, mem_frees, mem_frees] at hn
  simp only [placed_append, List.mem_append]
  rcases hn with ⟨u, hu⟩ | ⟨u, hu⟩
  · exact ⟨u, Or.inl (Or.inl hu), Or.inl (mem_placed_bounds _ hu).2⟩
  · exact ⟨u, Or.inr hu, Or.inr (mem_placed_bounds _ hu).1⟩

/-- The hooks of the other free blocks do not meet headers among the exchanged
    blocks. -/
theorem Rep.clear_outside (hrep : Rep P h first (L ++ G ++ R)) {x n : Nat}
    (hlo : stop P.Alignment first L ≤ x) (hhi : x ≤ stop P.Alignment first (L ++ G))
    (hn : n ∈ outside P first L G R) : x ≤ n ∨ n + 40 ≤ x := by
  obtain ⟨u, hu, hbound⟩ := mem_outside hn
  have hge := P.BlockCtrlBytes_ge
  have hbytes : P.BlockCtrlBytes ≤ u * P.Alignment :=
    bytes_ge (b := ⟨u, false⟩) (hrep.sizes _ (mem_of_mem_placed _ hu))
  omega

/-- The other free blocks keep their size, when the one next to the exchanged
    blocks does. -/
theorem Rep.size_outside (hrep : Rep P h first (L ++ G ++ R)) {m : Memory}
    (hframe : Frame h.mem m (stop P.Alignment first L + 8) (stop P.Alignment first L + 8)
      (stop P.Alignment first L + 8) (stop P.Alignment first (L ++ G) + 16) (outside P first L G R))
    (hnext : m_size m (stop P.Alignment first (L ++ G)) =
      m_size h.mem (stop P.Alignment first (L ++ G))) {n : Nat} (hn : n ∈ outside P first L G R) :
    m_size m n = m_size h.mem n := by
  by_cases heq : n = stop P.Alignment first (L ++ G)
  · rw [heq]
    exact hnext
  obtain ⟨u, hu, hbound⟩ := mem_outside hn
  have hge := P.BlockCtrlBytes_ge
  have hbytes : P.BlockCtrlBytes ≤ u * P.Alignment :=
    bytes_ge (b := ⟨u, false⟩) (hrep.sizes _ (mem_of_mem_placed _ hu))
  have hfar : n + 16 ≤ stop P.Alignment first L + 8 ∨ stop P.Alignment first (L ++ G) + 16 ≤ n := by
    rcases hbound with hbefore | hafter
    · exact Or.inl (by omega)
    · refine Or.inr ?_
      have hin : n ∈ frees P.Alignment (stop P.Alignment first (L ++ G)) R := by
        rw [outside, List.mem_append] at hn
        refine hn.resolve_left ?_
        intro hL
        obtain ⟨v, hv⟩ := (mem_frees _).mp hL
        have hvb : n + v * P.Alignment ≤ stop P.Alignment first L := (mem_placed_bounds _ hv).2
        have hvbytes : P.BlockCtrlBytes ≤ v * P.Alignment :=
          bytes_ge (b := ⟨v, false⟩) (hrep.sizes _ (by
            have := mem_of_mem_placed _ hv
            simp [this]))
        have hle : stop P.Alignment first L ≤ stop P.Alignment first (L ++ G) := by
          rw [stop_append]
          exact le_stop _ _ _
        omega
      cases R with
      | nil => cases hin
      | cons r R =>
        obtain ⟨v, hv⟩ := (mem_frees _).mp hin
        rcases List.mem_cons.mp hv with heqv | hrest
        · cases heqv
          exact absurd rfl heq
        · have hrb := (mem_placed_bounds _ hrest).1
          have hrbytes := bytes_ge (hrep.sizes r (by simp))
          omega
  have hsame : SameOn m h.mem (n + 8) (n + 16) := by
    intro y hlo hhi
    refine hframe y (by omega) (by omega) ?_
    intro k hk
    obtain ⟨v, hv, _⟩ := mem_outside hk
    have := clear_of_placed (hrep.sizes _ (mem_of_mem_placed _ hv)) hu hv
    omega
  unfold m_size
  rw [holder_congr hsame]

/-- The nodes of the tree are the free blocks among the exchanged ones and the
    others. -/
theorem Rep.nodes_perm (hrep : Rep P h first (L ++ G ++ R)) :
    h.m_imultiset.Perm (frees P.Alignment first L ++
      (frees P.Alignment (stop P.Alignment first L) G ++
        frees P.Alignment (stop P.Alignment first (L ++ G)) R)) := by
  have hperm := hrep.nodes
  rwa [frees_append, frees_append, List.append_assoc] at hperm

/-- The headers of the exchanged blocks and of the next one. -/
theorem Rep.headers_here (hrep : Rep P h first (L ++ G ++ R)) {r : Block} {R' : List Block}
    (hR : R ++ [⟨units (L ++ G ++ R), true⟩] = r :: R') :
    Linked P.Alignment (HeaderAt (ctrl h.mem)) (stop P.Alignment first L) (last front L) (G ++ [r]) := by
  have hheaders := hrep.headers
  have hall : L ++ G ++ R ++ [⟨units (L ++ G ++ R), true⟩] = L ++ ((G ++ [r]) ++ R') := by
    rw [List.append_assoc, List.append_assoc, hR, List.append_assoc]
    rfl
  rw [hall, linked_append, linked_append] at hheaders
  exact hheaders.2.1

/-- The header of a block. -/
theorem Rep.header_at {b : Block} (hrep : Rep P h first (L ++ b :: R)) :
    HeaderAt (ctrl h.mem) (stop P.Alignment first L) (last front L) b := by
  have hheaders := hrep.headers
  rw [List.append_assoc, linked_append, List.cons_append, linked_cons] at hheaders
  exact hheaders.2.1

theorem Rep.units_here {u : Nat} {used : Bool} (hrep : Rep P h first (L ++ [⟨u, used⟩] ++ R)) :
    m_size h.mem (stop P.Alignment first L) = u := by
  rw [List.append_assoc] at hrep
  exact hrep.header_at.size

/-- The header of the end block. -/
theorem Rep.header_end {blocks : List Block} (hrep : Rep P h first blocks) :
    HeaderAt (ctrl h.mem) (stop P.Alignment first blocks) (last front blocks)
      ⟨units blocks, true⟩ := by
  have hheaders := hrep.headers
  rw [linked_append, linked_cons] at hheaders
  exact hheaders.2.1

/-- The block behind a block is free, or it is in use or the end. -/
theorem Rep.next_allocated {b : Block} (hrep : Rep P h first (L ++ b :: R)) :
    m_allocated h.mem (stop P.Alignment first L + b.units * P.Alignment) =
      ((R.head?.map Block.used).getD true) := by
  have hstop : stop P.Alignment first (L ++ [b]) =
      stop P.Alignment first L + b.units * P.Alignment := by
    rw [stop_append, stop_cons, stop_nil]
  rw [List.append_cons] at hrep
  cases R with
  | nil =>
    rw [List.append_nil] at hrep
    rw [← hstop]
    exact hrep.header_end.allocated
  | cons r R =>
    rw [← hstop]
    exact hrep.header_at.allocated

theorem Rep.units_lt_of_mem (hrep : Rep P h first (L ++ G ++ R)) : units G < 2 ^ 62 := by
  have hunits := hrep.units_lt
  simp only [units_append] at hunits
  omega

theorem exists_next (R : List Block) (e : Block) : ∃ r R', R ++ [e] = r :: R' := by
  cases R with
  | nil => exact ⟨e, [], rfl⟩
  | cons r R => exact ⟨r, R ++ [e], rfl⟩

/-- The tree stays ordered when the free blocks among the exchanged ones give way
    to the block `x`, inserted by the sizes of a memory on the way. -/
theorem Rep.sorted_insert (hrep : Rep P h first (L ++ G ++ R)) {rest : List Nat} {x : Nat}
    {m m' : Memory} (hrest : rest.Sublist h.m_imultiset) (hout : ∀ n ∈ rest, n ∈ outside P first L G R)
    (hframe : Frame h.mem m (stop P.Alignment first L + 8) (stop P.Alignment first L + 8)
      (stop P.Alignment first L + 8) (stop P.Alignment first (L ++ G) + 16) (outside P first L G R))
    (hframe' : Frame h.mem m' (stop P.Alignment first L + 8) (stop P.Alignment first L + 8)
      (stop P.Alignment first L + 8) (stop P.Alignment first (L ++ G) + 16) (outside P first L G R))
    (hnext : m_size m (stop P.Alignment first (L ++ G)) =
      m_size h.mem (stop P.Alignment first (L ++ G)))
    (hnext' : m_size m' (stop P.Alignment first (L ++ G)) =
      m_size h.mem (stop P.Alignment first (L ++ G)))
    (hx : m_size m' x = m_size m x) :
    (rest.orderedInsert (fun a b => m_size m a < m_size m b) x).Pairwise
      fun a b => m_size m' a ≤ m_size m' b := by
  have hsizes : ∀ n ∈ rest, m_size m n = m_size h.mem n := fun n hn =>
    hrep.size_outside hframe hnext (hout n hn)
  have hsizes' : ∀ n ∈ rest, m_size m' n = m_size h.mem n := fun n hn =>
    hrep.size_outside hframe' hnext' (hout n hn)
  have hinserted := pairwise_le_orderedInsert (f := m_size m)
    (r := fun a b => m_size m a < m_size m b) (a := x) (fun _ => Nat.le_of_lt)
    (fun _ => Nat.le_of_not_lt) (pairwise_le_congr (hrep.sorted.sublist hrest) hsizes)
  refine pairwise_le_congr hinserted ?_
  intro n hn
  rcases (List.mem_orderedInsert _).mp hn with rfl | hn
  · exact hx
  · rw [hsizes n hn, hsizes' n hn]

/-- The tree stays ordered when the free blocks among the exchanged ones leave it. -/
theorem Rep.sorted_rest (hrep : Rep P h first (L ++ G ++ R)) {rest : List Nat} {m' : Memory}
    (hrest : rest.Sublist h.m_imultiset) (hout : ∀ n ∈ rest, n ∈ outside P first L G R)
    (hframe' : Frame h.mem m' (stop P.Alignment first L + 8) (stop P.Alignment first L + 8)
      (stop P.Alignment first L + 8) (stop P.Alignment first (L ++ G) + 16) (outside P first L G R))
    (hnext' : m_size m' (stop P.Alignment first (L ++ G)) =
      m_size h.mem (stop P.Alignment first (L ++ G))) :
    rest.Pairwise fun a b => m_size m' a ≤ m_size m' b :=
  pairwise_le_congr (hrep.sorted.sublist hrest)
    fun n hn => hrep.size_outside hframe' hnext' (hout n hn)

end interprocess.rbtree_best_fit
