import Interprocess.MemAlgo.RbtreeBestFit.Neighbours

namespace interprocess.rbtree_best_fit

open ipcdetail Memory Tiling

variable {P : Traits} {h : Heap} {first : Nat} {L G R : List Block}

/-- The end of an allocation, once the block has its size. -/
theorem take_block_spec {S : Set Nat} {lo k l hi : Nat} {nodes : List Nat} {m : Memory}
    {V : Nat → BlockCtrl} {b next : Nat} (hS : Spread P S) (hX : Executed S lo k l hi nodes m h.mem V)
    (hb : b ∈ S) (hnext : next ∈ S) (hat : b + (V b).m_size * P.Alignment = next) (hne : b ≠ next)
    (hin : l ≤ b + 8) (hhi : next + 16 ≤ hi) :
    ∃ m', take_block P h b = ({ h with
        m_allocated := h.m_allocated + (V b).m_size * P.Alignment, mem := m' },
        priv_get_user_buffer P b, user_bytes P (V b).m_size) ∧
      Executed S lo k l hi nodes m m' (Function.update (marked_allocated V b next) next
        { marked_allocated V b next next with m_prev_size := 0 }) := by
  have hge := P.BlockCtrlBytes_ge
  have hspread := hS b hb next hnext
  have hfar : b + P.BlockCtrlBytes ≤ next := by omega
  have hmark := hX.mark_allocated hS hb hnext hat (by omega) (by omega)
  have hzero := hmark.zero (x := b + 16) (n := P.BlockCtrlBytes - 16) (by
    intro a ha
    have := hS a ha b hb
    omega) (by omega)
  have hsize : m_size ((priv_mark_as_allocated_block P h.mem b).zero (b + 16)
      (P.BlockCtrlBytes - 16)) b = (V b).m_size := by
    rw [hzero.size_eq hb]
    simp [marked_allocated, Function.update_of_ne hne]
  have hprev := hzero.set_prev_size hS hnext (by omega) (Nat.two_pow_pos 64)
  refine ⟨_, ?_, hprev⟩
  unfold take_block priv_next_block
  simp only [hsize, hat, hX.size_eq hb]

/-- The tree without a free block. -/
theorem Rep.erase_perm {u : Nat} (hrep : Rep P h first (L ++ [⟨u, false⟩] ++ R)) :
    (h.m_imultiset.erase (stop P.Alignment first L)).Perm (outside P first L [⟨u, false⟩] R) :=
  perm_erase_middle hrep.nodes_perm

/-- A free block that is split. -/
theorem Rep.split_exchange {u n : Nat} (hrep : Rep P h first (L ++ [⟨u, false⟩] ++ R))
    (hn : P.BlockCtrlUnits ≤ n) (hsplit : n + P.BlockCtrlUnits ≤ u) (received : Nat) :
    (priv_check_and_allocate P h n (stop P.Alignment first L) received).2 =
        (priv_get_user_buffer P (stop P.Alignment first L), user_bytes P n) ∧
      Exchange P h (priv_check_and_allocate P h n (stop P.Alignment first L) received).1 first L
        [⟨u, false⟩] [⟨n, true⟩, ⟨u - n, false⟩] R := by
  obtain ⟨r, R', hR⟩ := exists_next R ⟨units (L ++ [⟨u, false⟩] ++ R), true⟩
  obtain ⟨hhead, hbehind, -⟩ := hrep.headers_here hR
  have hge := P.BlockCtrlBytes_ge
  have hnbytes : P.BlockCtrlBytes ≤ n * P.Alignment := bytes_ge (b := ⟨n, true⟩) hn
  have hrest : P.BlockCtrlUnits ≤ u - n := by omega
  have hrbytes : P.BlockCtrlBytes ≤ (u - n) * P.Alignment := bytes_ge (b := ⟨u - n, true⟩) hrest
  have hlt : u < 2 ^ 62 := hrep.units_lt_of_mem
  obtain ⟨a, ha⟩ : ∃ a, a = stop P.Alignment first L := ⟨_, rfl⟩
  obtain ⟨x, hx⟩ : ∃ x, x = a + n * P.Alignment := ⟨_, rfl⟩
  obtain ⟨e, he⟩ : ∃ e, e = x + (u - n) * P.Alignment := ⟨_, rfl⟩
  have hau : a + u * P.Alignment = e := by
    rw [he, hx, Nat.add_assoc, ← Nat.add_mul, Nat.add_sub_cancel' (by omega)]
  have hstop : e = stop P.Alignment first (L ++ [⟨u, false⟩]) := by
    rw [stop_append, ← ha, stop_cons, stop_nil, hau]
  have hax : a ≠ x := by omega
  have hae : a ≠ e := by omega
  have hxe : x ≠ e := by omega
  have hS : Spread P (three a x e) := spread_three (by omega) (by omega)
  change HeaderAt _ (_ + u * P.Alignment) _ _ at hbehind
  rw [← ha] at hhead hbehind
  rw [hau] at hbehind
  have hsize : m_size h.mem a = u := hhead.size
  have hstart := hrep.editing_three (k := a + 8) (l := a + 8) ha hstop (x := x) (by omega) (by omega)
    (by
      intro y hy
      cases List.mem_singleton.mp hy
      omega) (by
      intro y hy
      cases List.mem_singleton.mp hy
      omega)
  have hX₁ := hstart.executed.set_size hS mem_three_left (s := n) (by omega) (by omega)
  simp only [tri_left, update_tri_left] at hX₁
  have hX₂ := hX₁.new_block_ctrl hS mem_three_mid (by omega)
  simp only [tri_mid hax, update_tri_mid hax] at hX₂
  have hX₃ := hX₂.set_size hS mem_three_mid (s := u - n) (by omega) (by omega)
  simp only [tri_mid hax, update_tri_mid hax] at hX₃
  have hX₄ := hX₃.mark_free hS mem_three_mid mem_three_right (by rw [tri_mid hax, he]) (by omega)
    (by omega)
  rw [marked_free_tri_mid hax hae hxe] at hX₄
  obtain ⟨m₄, hm₄⟩ : ∃ m₄, m₄ = priv_mark_as_free_block P
    (set_size (new_block_ctrl P (set_size h.mem a n) x) x (u - n)) x := ⟨_, rfl⟩
  rw [← hm₄] at hX₄
  have hE₅ := (hstart.with_mem hX₄).erase (P := P) a
  have hE₆ := hE₅.insert (P := P) (x := x) (by omega) (by
    rintro y (rfl | rfl | rfl) <;> omega)
  obtain ⟨m', hanswer, hX₇⟩ := take_block_spec hS hE₆.executed mem_three_left mem_three_mid (by
    rw [tri_left, hx]) (by omega) (by omega) (by omega)
  rw [marked_allocated_tri_left hax, tri_mid hax, update_tri_mid hax] at hX₇
  have hdef : priv_check_and_allocate P h n a received = take_block P
      ((Heap.erase P { h with mem := m₄ } a).insert P x) a := by
    unfold priv_check_and_allocate
    simp only [hsize, if_pos hsplit, Nat.mul_comm P.Alignment n, ← hx, hm₄]
  have hperm := hrep.erase_perm
  rw [← ha] at hperm ⊢
  rw [hdef, hanswer]
  refine ⟨by rw [tri_left], ?_⟩
  refine (hE₆.with_allocated _ hX₇).exchange_two ha hx he (by simp; omega) (by omega) (Nat.le_refl _) hR hn
    hrest (Or.inr rfl) (Or.inl rfl) (fun r hr => Or.inr (hrep.head_used r hr)) ?_ ?_ ?_ ?_ ?_ ?_
  · exact ⟨rfl, hhead.prev_allocated, rfl, hhead.prev_size⟩
  · exact ⟨rfl, rfl, rfl, by nofun⟩
  · exact ⟨hbehind.size, rfl, hbehind.allocated, fun _ => rfl⟩
  · rw [frees_cons_used, frees_cons_free, frees_nil, ← hx]
    rw [outside, ← hstop] at hperm
    refine (List.perm_orderedInsert _ _ _).trans ?_
    exact (hperm.cons _).trans List.perm_middle.symm
  · apply hrep.sorted_between ha hstop List.erase_sublist hperm hE₅.executed.frame hX₇.frame (by omega)
      (Nat.le_refl _)
    · rw [hE₅.executed.size_eq mem_three_right, tri_right hae hxe]
      rfl
    · rw [hX₇.size_eq mem_three_right, tri_right hae hxe]
      rfl
    · rw [hX₇.size_eq mem_three_mid, hE₅.executed.size_eq mem_three_mid, tri_mid hax, tri_mid hax]
  · simp only [tri_left, usedUnits_cons, usedUnits_nil, Bool.false_eq_true, if_false, if_true,
      Nat.zero_mul, Nat.add_zero]
    rfl

/-- A free block that is taken whole. -/
theorem Rep.whole_exchange {u n : Nat} (hrep : Rep P h first (L ++ [⟨u, false⟩] ++ R)) (hn : n ≤ u)
    (hwhole : u < n + P.BlockCtrlUnits) (received : Nat) :
    (priv_check_and_allocate P h n (stop P.Alignment first L) received).2 =
        (priv_get_user_buffer P (stop P.Alignment first L), user_bytes P u) ∧
      Exchange P h (priv_check_and_allocate P h n (stop P.Alignment first L) received).1 first L
        [⟨u, false⟩] [⟨u, true⟩] R := by
  obtain ⟨r, R', hR⟩ := exists_next R ⟨units (L ++ [⟨u, false⟩] ++ R), true⟩
  obtain ⟨hhead, hbehind, -⟩ := hrep.headers_here hR
  have hu : P.BlockCtrlUnits ≤ u := hrep.sizes ⟨u, false⟩ (by simp)
  have hge := P.BlockCtrlBytes_ge
  have hbytes : P.BlockCtrlBytes ≤ u * P.Alignment := bytes_ge (b := ⟨u, true⟩) hu
  obtain ⟨a, ha⟩ : ∃ a, a = stop P.Alignment first L := ⟨_, rfl⟩
  obtain ⟨e, he⟩ : ∃ e, e = a + u * P.Alignment := ⟨_, rfl⟩
  have hstop : e = stop P.Alignment first (L ++ [⟨u, false⟩]) := by
    rw [stop_append, ← ha, stop_cons, stop_nil, he]
  have hae : a ≠ e := by omega
  have hS : Spread P (two a e) := spread_two (by omega)
  change HeaderAt _ (_ + u * P.Alignment) _ _ at hbehind
  rw [← ha] at hhead hbehind
  rw [← he] at hbehind
  have hsize : m_size h.mem a = u := hhead.size
  have hstart := hrep.editing_two (k := a + 8) (l := a + 8) ha hstop (by omega) (by
    intro y hy
    cases List.mem_singleton.mp hy
    omega)
  have hE₁ := hstart.erase (P := P) a
  obtain ⟨m', hanswer, hX₂⟩ := take_block_spec hS hE₁.executed mem_two_left mem_two_right (by
    rw [duo_left, he]
    exact congrArg (a + · * P.Alignment) hsize) hae (by omega) (by omega)
  rw [marked_allocated_duo hae, duo_right hae, update_duo_right hae] at hX₂
  have hdef : priv_check_and_allocate P h n a received = take_block P (h.erase P a) a := by
    unfold priv_check_and_allocate
    simp only [hsize, if_neg (Nat.not_le_of_lt hwhole), if_pos hn]
  have hperm := hrep.erase_perm
  rw [← ha] at hperm ⊢
  rw [hdef, hanswer, duo_left]
  refine ⟨congrArg (fun v => (priv_get_user_buffer P a, user_bytes P v)) hsize, ?_⟩
  refine (hE₁.with_allocated _ hX₂).exchange_one ha he (by simp) (by omega) (Nat.le_refl _) hR hu
    (Or.inr rfl) (fun r hr => Or.inl rfl) ?_ ?_ ?_ ?_ ?_
  · exact ⟨hsize, hhead.prev_allocated, rfl, hhead.prev_size⟩
  · exact ⟨hbehind.size, rfl, hbehind.allocated, by nofun⟩
  · rw [frees_cons_used, frees_nil, hstop]
    exact hperm
  · subst ha hstop
    refine hrep.sorted_rest List.erase_sublist (fun y hy => hperm.mem_iff.mp hy) hX₂.frame ?_
    rw [hX₂.size_eq mem_two_right, duo_right hae]
    rfl
  · change h.m_allocated + m_size h.mem a * P.Alignment + _ = _
    rw [hsize, usedUnits_cons, usedUnits_cons, usedUnits_nil]
    simp

end interprocess.rbtree_best_fit
