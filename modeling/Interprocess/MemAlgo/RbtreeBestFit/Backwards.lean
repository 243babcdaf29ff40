import Interprocess.MemAlgo.RbtreeBestFit.Expanding

namespace interprocess.rbtree_best_fit

open ipcdetail Memory Tiling

section Reposition

variable {f g : Nat → Nat} {x : Nat}

theorem predecessor_eq_none {a : Nat} {l : List Nat} (hx : x ∉ l) : predecessor x (a :: l) = none := by
  induction l generalizing a with
  | nil => rfl
  | cons b l ih =>
    rw [predecessor, if_neg fun hbx : b = x => hx (hbx ▸ List.mem_cons_self)]
    exact ih fun hmem => hx (List.mem_cons_of_mem b hmem)

theorem predecessor_middle {l₁ l₂ : List Nat} (h₁ : x ∉ l₁) (h₂ : x ∉ l₂) :
    predecessor x (l₁ ++ x :: l₂) = l₁.getLast? := by
  induction l₁ with
  | nil => exact predecessor_eq_none h₂
  | cons a l₁ ih =>
    have htail : x ∉ l₁ := fun hmem => h₁ (List.mem_cons_of_mem a hmem)
    cases l₁ with
    | nil => exact if_pos rfl
    | cons b l₁ =>
      rw [List.cons_append, List.cons_append, predecessor,
        if_neg fun hbx : b = x => htail (hbx ▸ List.mem_cons_self),
        List.getLast?_cons_cons]
      exact ih htail

theorem mem_of_predecessor {a : Nat} {l : List Nat} (hnodup : l.Nodup) (hx : x ∈ l)
    (ha : predecessor x l = some a) : a ∈ l ∧ a ≠ x := by
  obtain ⟨l₁, l₂, rfl⟩ := List.append_of_mem hx
  obtain ⟨_, hnodup₂, hdisjoint⟩ := List.nodup_append.mp hnodup
  have h₁ : x ∉ l₁ := fun hmem => hdisjoint x hmem x List.mem_cons_self rfl
  rw [predecessor_middle h₁ (List.nodup_cons.mp hnodup₂).1] at ha
  have hmem := List.mem_of_getLast? ha
  exact ⟨List.mem_append_left _ hmem, fun hax => h₁ (hax ▸ hmem)⟩

/-- A list stays sorted when one key goes down, but not below the one before it. -/
theorem pairwise_le_lowered {l : List Nat} (hl : l.Pairwise fun y z => f y ≤ f z) (hnodup : l.Nodup)
    (hx : x ∈ l) (hsame : ∀ y ∈ l, y ≠ x → g y = f y) (hle : g x ≤ f x)
    (hbefore : ∀ y ∈ predecessor x l, f y ≤ g x) : l.Pairwise fun y z => g y ≤ g z := by
  obtain ⟨l₁, l₂, rfl⟩ := List.append_of_mem hx
  obtain ⟨hnodup₁, hnodup₂, hdisjoint⟩ := List.nodup_append.mp hnodup
  have h₁ : x ∉ l₁ := fun hmem => hdisjoint x hmem x List.mem_cons_self rfl
  have h₂ : x ∉ l₂ := (List.nodup_cons.mp hnodup₂).1
  have hsame₁ : ∀ y ∈ l₁, g y = f y := fun y hy =>
    hsame y (List.mem_append_left _ hy) fun hyx => h₁ (hyx ▸ hy)
  have hsame₂ : ∀ y ∈ l₂, g y = f y := fun y hy =>
    hsame y (List.mem_append_right _ (List.mem_cons_of_mem x hy)) fun hyx => h₂ (hyx ▸ hy)
  rw [predecessor_middle h₁ h₂] at hbefore
  obtain ⟨hl₁, hl₂, hcross⟩ := List.pairwise_append.mp hl
  obtain ⟨hxl₂, hl₂⟩ := List.pairwise_cons.mp hl₂
  have hlast : ∀ y ∈ l₁, f y ≤ g x := by
    intro y hy
    rcases List.eq_nil_or_concat' l₁ with rfl | ⟨l₀, b, rfl⟩
    · cases hy
    · have hb : f b ≤ g x := hbefore b (by simp)
      rcases List.mem_append.mp hy with hy | hy
      · exact Nat.le_trans ((List.pairwise_append.mp hl₁).2.2 y hy b (by simp)) hb
      · cases List.mem_singleton.mp hy
        exact hb
  refine List.pairwise_append.mpr ⟨pairwise_le_congr hl₁ hsame₁,
    List.pairwise_cons.mpr ⟨?_, pairwise_le_congr hl₂ hsame₂⟩, ?_⟩
  · intro y hy
    rw [hsame₂ y hy]
    exact Nat.le_trans hle (hxl₂ y hy)
  · intro y hy z hz
    rw [hsame₁ y hy]
    rcases List.mem_cons.mp hz with rfl | hz
    · exact hlast y hy
    · rw [hsame₂ z hz]
      exact hcross y hy z (List.mem_cons_of_mem x hz)

end Reposition

variable {P : Traits} {h : Heap} {first p u k : Nat} {L R : List Block}

theorem Rep.nodes_nodup {blocks : List Block} (hrep : Rep P h first blocks) : h.m_imultiset.Nodup := by
  refine (hrep.nodes.nodup_iff).mpr ((frees_sorted _ P.Alignment_pos ?_).imp Nat.ne_of_lt)
  intro b hb
  exact Nat.lt_of_lt_of_le P.BlockCtrlUnits_pos (hrep.sizes b hb)

theorem Rep.mem_nodes_iff (hrep : Rep P h first (L ++ [⟨p, false⟩, ⟨u, true⟩] ++ R)) {n : Nat} :
    n ∈ h.m_imultiset ↔
      n = stop P.Alignment first L ∨ n ∈ outside P first L [⟨p, false⟩, ⟨u, true⟩] R := by
  rw [hrep.nodes_perm.mem_iff, outside]
  simp only [frees_cons_free, frees_cons_used, frees_nil, List.mem_append, List.mem_cons,
    List.not_mem_nil, or_false]
  exact or_left_comm

/-- A free block that got smaller finds its place in the tree. -/
theorem Rep.reposition (hrep : Rep P h first (L ++ [⟨p, false⟩, ⟨u, true⟩] ++ R)) {m : Memory}
    {t x e : Nat} {T X E : BlockCtrl} (ht : t = stop P.Alignment first L)
    (he : e = stop P.Alignment first (L ++ [⟨p, false⟩, ⟨u, true⟩])) (htx : t + P.BlockCtrlBytes ≤ x)
    (hxe : x + P.BlockCtrlBytes ≤ e)
    (hE : Editing (three t x e) (t + 8) (t + 8) (t + 8) (e + 16)
      (outside P first L [⟨p, false⟩, ⟨u, true⟩] R) h.mem { h with mem := m } (tri t x e T X E))
    (hT : T.m_size ≤ p) (hend : E.m_size = m_size h.mem e) :
    Editing (three t x e) (t + 8) (t + 8) (t + 8) (e + 16)
      (outside P first L [⟨p, false⟩, ⟨u, true⟩] R) h.mem
      (reposition P { h with mem := m } t) (tri t x e T X E) ∧
    (reposition P { h with mem := m } t).m_imultiset.Perm h.m_imultiset ∧
    ((reposition P { h with mem := m } t).m_imultiset.Pairwise fun y z =>
      m_size (reposition P { h with mem := m } t).mem y ≤
        m_size (reposition P { h with mem := m } t).mem z) ∧
    (reposition P { h with mem := m } t).m_allocated = h.m_allocated := by
  have hge := P.BlockCtrlBytes_ge
  have ht' : t ∈ h.m_imultiset := hrep.mem_nodes_iff.mpr (Or.inl ht)
  have htsize : m_size h.mem t = p := by
    rw [ht]
    rw [List.append_assoc] at hrep
    exact hrep.header_at.size
  have hsame : ∀ {m' : Memory}, Executed (three t x e) (t + 8) (t + 8) (t + 8)
      (e + 16) (outside P first L [⟨p, false⟩, ⟨u, true⟩] R) h.mem m' (tri t x e T X E) →
      ∀ y ∈ h.m_imultiset, y ≠ t → m_size m' y = m_size h.mem y := by
    intro m' hX y hy hne
    have hout := (hrep.mem_nodes_iff.mp hy).resolve_left (ht ▸ hne)
    subst ht he
    refine hrep.size_outside hX.frame ?_ hout
    rw [hX.size_eq mem_three_right, tri_right (by omega) (by omega), hend]
  have hsize : ∀ {m' : Memory}, Executed (three t x e) (t + 8) (t + 8) (t + 8) (e + 16)
      (outside P first L [⟨p, false⟩, ⟨u, true⟩] R) h.mem m' (tri t x e T X E) →
      m_size m' t = T.m_size := by
    intro m' hX
    rw [hX.size_eq mem_three_left, tri_left]
  have hkept : (∀ y ∈ predecessor t h.m_imultiset, m_size h.mem y ≤ T.m_size) →
      h.m_imultiset.Pairwise fun y z => m_size m y ≤ m_size m z := by
    intro hbefore
    refine pairwise_le_lowered hrep.sorted hrep.nodes_nodup ht' (hsame hE.executed) ?_ ?_
    · rw [hsize hE.executed, htsize]
      exact hT
    · rw [hsize hE.executed]
      exact hbefore
  unfold rbtree_best_fit.reposition
  cases hpredecessor : predecessor t h.m_imultiset with
  | none => exact ⟨hE, List.Perm.refl _, hkept (by simp [hpredecessor]), rfl⟩
  | some before =>
    have hmem := mem_of_predecessor hrep.nodes_nodup ht' hpredecessor
    simp only
    split_ifs with hlt
    · have hE' := (hE.erase (P := P) t).insert_begin (P := P) (x := t) (by omega) (by
        rintro y (rfl | rfl | rfl) <;> omega)
      refine ⟨hE', ?_, ?_, rfl⟩
      · refine (List.perm_orderedInsert _ _ _).trans ?_
        exact (List.perm_cons_erase ht').symm
      · have hrest : (h.m_imultiset.erase t).Pairwise fun y z =>
            m_size (Heap.erase P { h with mem := m } t).mem y ≤
              m_size (Heap.erase P { h with mem := m } t).mem z := by
          refine pairwise_le_congr (hrep.sorted.sublist List.erase_sublist) fun y hy => ?_
          obtain ⟨hne, hy'⟩ := hrep.nodes_nodup.mem_erase_iff.mp hy
          exact hsame (hE.erase (P := P) t).executed y hy' hne
        have hinserted := pairwise_le_orderedInsert
          (r := fun y z => m_size (Heap.erase P { h with mem := m } t).mem y ≤
            m_size (Heap.erase P { h with mem := m } t).mem z) (a := t)
          (fun _ hle => hle) (fun _ hle => Nat.le_of_not_le hle) hrest
        refine pairwise_le_congr hinserted fun y hy => ?_
        rcases (List.mem_orderedInsert _).mp hy with rfl | hy
        · rw [hsize hE'.executed, hsize (hE.erase (P := P) y).executed]
        · obtain ⟨hne, hy'⟩ := hrep.nodes_nodup.mem_erase_iff.mp hy
          rw [hsame (hE.erase (P := P) t).executed y hy' hne]
          exact hsame hE'.executed y hy' hne
    · refine ⟨hE, List.Perm.refl _, hkept ?_, rfl⟩
      intro y hy
      rw [hpredecessor] at hy
      cases hy
      rw [hsize hE.executed, hsame hE.executed before hmem.1 hmem.2] at hlt
      omega

/-- The units of a buffer that got longer by `k` units. -/
theorem backwards_units (hu : P.BlockCtrlUnits ≤ u) :
    P.AllocatedCtrlUnits +
      (k * P.Alignment + (user_bytes P u - UsableByPreviousChunk)) / P.Alignment = u + k := by
  have hctrl := P.AllocatedCtrlUnits_le
  rw [user_bytes, Nat.add_sub_cancel, ← Nat.add_mul, Nat.mul_div_cancel _ P.Alignment_pos]
  omega

/-- A backward expansion that leaves a part of the previous block free. -/
theorem Rep.expand_backwards_split_exchange
    (hrep : Rep P h first (L ++ [⟨p, false⟩, ⟨u, true⟩] ++ R)) (hk : k + P.BlockCtrlUnits ≤ p) :
    (expand_backwards_split P h (stop P.Alignment first L + p * P.Alignment)
        (stop P.Alignment first L) (k * P.Alignment) (user_bytes P u)).2 =
      (priv_get_user_buffer P (stop P.Alignment first L + (p - k) * P.Alignment),
        k * P.Alignment + user_bytes P u) ∧
    Exchange P h (expand_backwards_split P h (stop P.Alignment first L + p * P.Alignment)
        (stop P.Alignment first L) (k * P.Alignment) (user_bytes P u)).1
      first L [⟨p, false⟩, ⟨u, true⟩] [⟨p - k, false⟩, ⟨u + k, true⟩] R := by
  obtain ⟨r, R', hR⟩ := exists_next R ⟨units (L ++ [⟨p, false⟩, ⟨u, true⟩] ++ R), true⟩
  obtain ⟨hhead, hmid, hbehind, -⟩ := hrep.headers_here hR
  have hge := P.BlockCtrlBytes_ge
  have hpos := P.Alignment_pos
  have hu : P.BlockCtrlUnits ≤ u := hrep.sizes ⟨u, true⟩ (by simp)
  have hubytes : P.BlockCtrlBytes ≤ (u + k) * P.Alignment :=
    bytes_ge (b := ⟨u + k, true⟩) (Nat.le_trans hu (Nat.le_add_right _ _))
  have hrest : P.BlockCtrlUnits ≤ p - k := by omega
  have hrbytes : P.BlockCtrlBytes ≤ (p - k) * P.Alignment := bytes_ge (b := ⟨p - k, false⟩) hrest
  have hlt : p + u < 2 ^ 62 := hrep.units_lt_of_mem (G := [⟨p, false⟩, ⟨u, true⟩])
  have hpk : (p - k) * P.Alignment + k * P.Alignment = p * P.Alignment := by
    rw [← Nat.add_mul, Nat.sub_add_cancel (by omega)]
  have hunits := backwards_units (P := P) (u := u) (k := k) hu
  obtain ⟨t, ht⟩ : ∃ t, t = stop P.Alignment first L := ⟨_, rfl⟩
  obtain ⟨x, hx⟩ : ∃ x, x = t + (p - k) * P.Alignment := ⟨_, rfl⟩
  obtain ⟨e, he⟩ : ∃ e, e = x + (u + k) * P.Alignment := ⟨_, rfl⟩
  have hte : t + p * P.Alignment + u * P.Alignment = e := by
    rw [he, hx, Nat.add_mul]
    omega
  have hstop : e = stop P.Alignment first (L ++ [⟨p, false⟩, ⟨u, true⟩]) := by
    rw [stop_append, ← ht, stop_cons, stop_cons, stop_nil, ← hte]
  change HeaderAt _ (_ + p * P.Alignment + u * P.Alignment) _ _ at hbehind
  rw [← ht] at hhead hbehind
  rw [hte] at hbehind
  rw [← ht, ← hx]
  have htx : t ≠ x := by omega
  have hxe : x ≠ e := by omega
  have hte' : t ≠ e := by omega
  have hS : Spread P (three t x e) := spread_three (by omega) (by omega)
  have hstart := hrep.editing_three (k := t + 8) (l := t + 8) ht hstop (x := x) (by omega) (by omega)
    (by
      intro y hy
      cases List.mem_singleton.mp hy
      omega) (by
      intro y hy
      cases List.mem_singleton.mp hy
      omega)
  have hX₁ := hstart.executed.set_size hS mem_three_mid (s := u + k) (by omega) (by omega)
  simp only [tri_mid htx, update_tri_mid htx] at hX₁
  have hX₂ := hX₁.mark_allocated hS mem_three_mid mem_three_right (by rw [tri_mid htx, he]) (by omega)
    (by omega)
  rw [marked_allocated_tri_mid htx hte' hxe] at hX₂
  have hX₃ := hX₂.set_size hS mem_three_left (s := p - k) (by omega) (by omega)
  simp only [tri_left, update_tri_left] at hX₃
  have hX₄ := hX₃.mark_free hS mem_three_left mem_three_mid (by rw [tri_left, hx]) (by omega)
    (by omega)
  rw [marked_free_tri_left htx] at hX₄
  obtain ⟨hE, hperm, hsorted, halloc⟩ := hrep.reposition ht hstop (by omega) (by omega)
    (hstart.with_mem hX₄) (Nat.sub_le p k) rfl
  have hxdef : t + p * P.Alignment - k * P.Alignment = x := by omega
  have hdiv : (x - t) / P.Alignment = p - k := by
    rw [hx, Nat.add_sub_cancel_left, Nat.mul_div_cancel _ hpos]
  unfold expand_backwards_split
  simp only [hxdef, hdiv, hunits, true_and]
  refine (hE.with_allocated _ hE.executed).exchange_two ht hx he (by simp; omega) (by omega)
    (Nat.le_refl _) hR hrest (by omega) ?_ (Or.inr rfl) (fun r hr => Or.inl rfl) ?_ ?_ ?_ ?_ ?_ ?_
  · exact Or.inl (hrep.separated_here.1.resolve_right (by nofun))
  · exact ⟨rfl, hhead.prev_allocated, rfl, hhead.prev_size⟩
  · exact ⟨rfl, rfl, rfl, fun _ => rfl⟩
  · exact ⟨hbehind.size, rfl, hbehind.allocated, by nofun⟩
  · have hnodes := hrep.nodes_perm
    rw [← hstop, ← ht] at hnodes
    exact hperm.trans hnodes
  · exact hsorted
  · have husedk : (u + k) * P.Alignment = u * P.Alignment + k * P.Alignment := Nat.add_mul _ _ _
    simp only [usedUnits_cons, usedUnits_nil, Bool.false_eq_true, if_false, if_true, Nat.add_zero,
      Nat.zero_add]
    omega

/-- The tree without the free block in front of a buffer. -/
theorem Rep.erase_prev_perm (hrep : Rep P h first (L ++ [⟨p, false⟩, ⟨u, true⟩] ++ R)) :
    (h.m_imultiset.erase (stop P.Alignment first L)).Perm
      (outside P first L [⟨p, false⟩, ⟨u, true⟩] R) :=
  perm_erase_middle hrep.nodes_perm

/-- A backward expansion over the whole previous block. -/
theorem Rep.expand_backwards_merge_exchange
    (hrep : Rep P h first (L ++ [⟨p, false⟩, ⟨u, true⟩] ++ R)) (received : Nat) :
    (expand_backwards_merge P h (stop P.Alignment first L + p * P.Alignment)
        (stop P.Alignment first L) received).2 =
      (priv_get_user_buffer P (stop P.Alignment first L), received + p * P.Alignment) ∧
    Exchange P h (expand_backwards_merge P h (stop P.Alignment first L + p * P.Alignment)
        (stop P.Alignment first L) received).1
      first L [⟨p, false⟩, ⟨u, true⟩] [⟨p + u, true⟩] R := by
  obtain ⟨r, R', hR⟩ := exists_next R ⟨units (L ++ [⟨p, false⟩, ⟨u, true⟩] ++ R), true⟩
  obtain ⟨hhead, hmid, hbehind, -⟩ := hrep.headers_here hR
  have hge := P.BlockCtrlBytes_ge
  have hubytes : P.BlockCtrlBytes ≤ u * P.Alignment :=
    bytes_ge (b := ⟨u, true⟩) (hrep.sizes ⟨u, true⟩ (by simp))
  have hp : P.BlockCtrlUnits ≤ p := hrep.sizes ⟨p, false⟩ (by simp)
  have hpbytes : P.BlockCtrlBytes ≤ p * P.Alignment := bytes_ge (b := ⟨p, false⟩) hp
  have hlt : p + u < 2 ^ 62 := hrep.units_lt_of_mem (G := [⟨p, false⟩, ⟨u, true⟩])
  obtain ⟨t, ht⟩ : ∃ t, t = stop P.Alignment first L := ⟨_, rfl⟩
  obtain ⟨b, hb⟩ : ∃ b, b = t + p * P.Alignment := ⟨_, rfl⟩
  obtain ⟨e, he⟩ : ∃ e, e = t + (p + u) * P.Alignment := ⟨_, rfl⟩
  have hbe : b + u * P.Alignment = e := by
    rw [he, hb, Nat.add_mul, Nat.add_assoc]
  have hstop : e = stop P.Alignment first (L ++ [⟨p, false⟩, ⟨u, true⟩]) := by
    rw [stop_append, ← ht, stop_cons, stop_cons, stop_nil, ← hb, hbe]
  have hperm := hrep.erase_prev_perm
  change HeaderAt _ (_ + p * P.Alignment) _ _ at hmid
  change HeaderAt _ (_ + p * P.Alignment + u * P.Alignment) _ _ at hbehind
  rw [← ht] at hhead hbehind hperm
  rw [← ht, ← hb] at hmid
  rw [← hb, hbe] at hbehind
  rw [← ht, ← hb]
  have htb : t ≠ b := by omega
  have hte : t ≠ e := by omega
  have hS : Spread P (two t e) := spread_two (by omega)
  have hnode : ∀ y ∈ frees P.Alignment t [⟨p, false⟩, ⟨u, true⟩], y = t := by
    intro y hy
    exact List.mem_singleton.mp hy
  have hbsize : m_size (h.erase P t).mem b = u := by
    have hread := (hrep.editing_three (k := t + 8) (l := t + 8) ht hstop (x := b) (by omega)
      (by omega) (by
        intro y hy
        rw [hnode y hy]
        omega) (by
        intro y hy
        rw [hnode y hy]
        omega)).erase (P := P) t
    rw [hread.executed.size_eq mem_three_mid, tri_mid htb]
    exact hmid.size
  have hE₁ := (hrep.editing_two (k := t + 8) (l := t + 8) ht hstop (by omega) (by
    intro y hy
    rw [hnode y hy]
    omega)).erase (P := P) t
  have htsize : m_size (h.erase P t).mem t = p := by
    rw [hE₁.executed.size_eq mem_two_left, duo_left]
    exact hhead.size
  have hX₂ := hE₁.executed.set_size hS mem_two_left (s := p + u) (by omega) hlt
  simp only [duo_left, update_duo_left] at hX₂
  have hX₃ := hX₂.mark_allocated hS mem_two_left mem_two_right (by rw [duo_left, he]) (by omega)
    (by omega)
  rw [marked_allocated_duo hte] at hX₃
  unfold expand_backwards_merge
  simp only [hbsize, htsize, true_and]
  refine (hE₁.with_allocated _ hX₃).exchange_one ht he (by simp) (by omega) (Nat.le_refl _) hR
    (by omega) (Or.inr rfl) (fun r hr => Or.inl rfl) ?_ ?_ ?_ ?_ ?_
  · exact ⟨rfl, hhead.prev_allocated, rfl, hhead.prev_size⟩
  · exact ⟨hbehind.size, rfl, hbehind.allocated, by nofun⟩
  · rw [frees_cons_used, frees_nil, hstop]
    exact hperm
  · subst ht hstop
    refine hrep.sorted_rest List.erase_sublist (fun y hy => hperm.mem_iff.mp hy) hX₃.frame ?_
    rw [hX₃.size_eq mem_two_right, duo_right hte]
    rfl
  · have hadd : (p + u) * P.Alignment = p * P.Alignment + u * P.Alignment := Nat.add_mul _ _ _
    simp only [usedUnits_cons, usedUnits_nil, Bool.false_eq_true, if_false, if_true, Nat.add_zero,
      Nat.zero_add]
    change h.m_allocated + _ + _ = _
    omega

end interprocess.rbtree_best_fit
