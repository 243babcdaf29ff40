import Interprocess.MemAlgo.RbtreeBestFit.CheckAndAllocate
import Interprocess.MemAlgo.RbtreeBestFit.Expand
import Interprocess.MemAlgo.RbtreeBestFit.Units

namespace interprocess.rbtree_best_fit

open ipcdetail Memory Tiling

variable {P : Traits} {h : Heap} {first u v w : Nat} {L R : List Block}

/-- The tree without the free block behind a buffer. -/
theorem Rep.erase_next_perm (hrep : Rep P h first (L ++ [⟨u, true⟩, ⟨v, false⟩] ++ R)) :
    (h.m_imultiset.erase (stop P.Alignment first L + u * P.Alignment)).Perm
      (outside P first L [⟨u, true⟩, ⟨v, false⟩] R) :=
  perm_erase_middle hrep.nodes_perm

theorem Rep.next_used (hrep : Rep P h first (L ++ [⟨u, true⟩, ⟨v, false⟩] ++ R)) :
    ∀ r ∈ R.head?, r.used = true := by
  intro r hr
  refine (hrep.separated_behind r hr).resolve_left ?_
  rw [last_append, last_cons, last_cons, last_nil]
  nofun

/-- A forward expansion that leaves a part of the next block free. What was in the
    buffer stays there. -/
theorem Rep.expand_split_exchange (hrep : Rep P h first (L ++ [⟨u, true⟩, ⟨v, false⟩] ++ R))
    (hw : u < w) (hsplit : w + P.BlockCtrlUnits ≤ u + v) :
    Exchange P h (expand_split P h (stop P.Alignment first L)
        (stop P.Alignment first L + u * P.Alignment) u w (u + v - w))
      first L [⟨u, true⟩, ⟨v, false⟩] [⟨w, true⟩, ⟨u + v - w, false⟩] R ∧
    m_size (expand_split P h (stop P.Alignment first L)
      (stop P.Alignment first L + u * P.Alignment) u w (u + v - w)).mem (stop P.Alignment first L) = w ∧
    Frame h.mem (expand_split P h (stop P.Alignment first L)
        (stop P.Alignment first L + u * P.Alignment) u w (u + v - w)).mem
      (stop P.Alignment first L + 8) (stop P.Alignment first L + 16)
      (stop P.Alignment first L + u * P.Alignment + 8)
      (stop P.Alignment first (L ++ [⟨u, true⟩, ⟨v, false⟩]) + 16)
      (outside P first L [⟨u, true⟩, ⟨v, false⟩] R) := by
  obtain ⟨r, R', hR⟩ := exists_next R ⟨units (L ++ [⟨u, true⟩, ⟨v, false⟩] ++ R), true⟩
  obtain ⟨hhead, hnext, hbehind, -⟩ := hrep.headers_here hR
  have hge := P.BlockCtrlBytes_ge
  have hu : P.BlockCtrlUnits ≤ u := hrep.sizes ⟨u, true⟩ (by simp)
  have hubytes : P.BlockCtrlBytes ≤ u * P.Alignment := bytes_ge (b := ⟨u, true⟩) hu
  have hvbytes : P.BlockCtrlBytes ≤ v * P.Alignment :=
    bytes_ge (b := ⟨v, false⟩) (hrep.sizes ⟨v, false⟩ (by simp))
  have hrest : P.BlockCtrlUnits ≤ u + v - w := by omega
  have hrbytes : P.BlockCtrlBytes ≤ (u + v - w) * P.Alignment :=
    bytes_ge (b := ⟨u + v - w, false⟩) hrest
  have hwbytes : u * P.Alignment + P.Alignment ≤ w * P.Alignment := by
    rw [← Nat.succ_mul]
    exact Nat.mul_le_mul_right _ hw
  have hA := P.Alignment_ge
  have hlt : u + v < 2 ^ 62 := hrep.units_lt_of_mem (G := [⟨u, true⟩, ⟨v, false⟩])
  obtain ⟨a, ha⟩ : ∃ a, a = stop P.Alignment first L := ⟨_, rfl⟩
  obtain ⟨next, hn⟩ : ∃ next, next = a + u * P.Alignment := ⟨_, rfl⟩
  obtain ⟨x, hx⟩ : ∃ x, x = a + w * P.Alignment := ⟨_, rfl⟩
  obtain ⟨e, he⟩ : ∃ e, e = x + (u + v - w) * P.Alignment := ⟨_, rfl⟩
  have hne : next + v * P.Alignment = e := by
    rw [he, hx, hn, Nat.add_assoc, Nat.add_assoc, ← Nat.add_mul, ← Nat.add_mul,
      Nat.add_sub_cancel' (by omega)]
  have hstop : e = stop P.Alignment first (L ++ [⟨u, true⟩, ⟨v, false⟩]) := by
    rw [stop_append, ← ha, stop_cons, stop_cons, stop_nil, ← hn, ← hne]
  have hperm := hrep.erase_next_perm
  change HeaderAt _ (_ + u * P.Alignment + v * P.Alignment) _ _ at hbehind
  rw [← ha] at hhead hbehind
  rw [← ha, ← hn] at hperm
  rw [← hn, hne] at hbehind
  rw [← ha, ← hn, ← hstop]
  have hax : a ≠ x := by omega
  have hae : a ≠ e := by omega
  have hxe : x ≠ e := by omega
  have hS : Spread P (three a x e) := spread_three (by omega) (by omega)
  have hstart := hrep.editing_two (k := a + 16) (l := next + 8) ha hstop (by omega) (by
    intro y hy
    rw [frees_cons_used, frees_cons_free, frees_nil, ← hn] at hy
    cases List.mem_singleton.mp hy
    omega)
  have hE₁ := hstart.erase (P := P) next
  have hE₂ := hE₁.watch_mid hax hae hxe (by
    intro y hy
    have hy' := hperm.mem_iff.mp hy
    subst ha hstop
    exact hrep.clear_outside (by omega) (by omega) hy')
  have hX₃ := hE₂.executed.new_block_ctrl hS mem_three_mid (by omega)
  simp only [tri_mid hax, update_tri_mid hax] at hX₃
  have hX₄ := hX₃.set_size hS mem_three_mid (s := u + v - w) (by omega) (by omega)
  simp only [tri_mid hax, update_tri_mid hax] at hX₄
  have hX₅ := hX₄.mark_free hS mem_three_mid mem_three_right (by rw [tri_mid hax, he]) (by omega)
    (by omega)
  rw [marked_free_tri_mid hax hae hxe] at hX₅
  obtain ⟨m₅, hm₅⟩ : ∃ m₅, m₅ = priv_mark_as_free_block P
    (set_size (new_block_ctrl P (h.erase P next).mem x) x (u + v - w)) x := ⟨_, rfl⟩
  rw [← hm₅] at hX₅
  have hE₆ := (hE₂.with_mem hX₅).insert (P := P) (x := x) (by omega) (by
    rintro y (rfl | rfl | rfl) <;> omega)
  have hX₇ := hE₆.executed.set_size hS mem_three_left (s := w) (by omega) (by omega)
  simp only [tri_left, update_tri_left] at hX₇
  have hX₈ := hX₇.mark_allocated hS mem_three_left mem_three_mid (by rw [tri_left, hx]) (by omega)
    (by omega)
  rw [marked_allocated_tri_left hax] at hX₈
  have hdef : expand_split P h a next u w (u + v - w) =
      { Heap.insert P { h.erase P next with mem := m₅ } x with
        m_allocated := h.m_allocated + (w - u) * P.Alignment
        mem := priv_mark_as_allocated_block P (set_size
          (Heap.insert P { h.erase P next with mem := m₅ } x).mem a w) a } := by
    unfold expand_split
    simp only [← hx, hm₅]
    rfl
  rw [hdef]
  refine ⟨?_, ?_, hX₈.frame⟩
  · refine (hE₆.with_allocated _ hX₈).exchange_two ha hx he (by simp; omega) (by omega) (by omega) hR
      (by omega) hrest (Or.inr rfl) (Or.inl rfl) (fun r hr => Or.inr (hrep.next_used r hr)) ?_ ?_ ?_
      ?_ ?_ ?_
    · exact ⟨rfl, hhead.prev_allocated, rfl, hhead.prev_size⟩
    · exact ⟨rfl, rfl, rfl, by nofun⟩
    · exact ⟨hbehind.size, rfl, hbehind.allocated, fun _ => rfl⟩
    · rw [frees_cons_used, frees_cons_free, frees_nil, ← hx]
      rw [outside, ← hstop] at hperm
      refine (List.perm_orderedInsert _ _ _).trans ?_
      exact (hperm.cons _).trans List.perm_middle.symm
    · apply hrep.sorted_between ha hstop List.erase_sublist hperm hX₅.frame hX₈.frame (by omega)
        (by omega)
      · rw [hX₅.size_eq mem_three_right, tri_right hae hxe]
        rfl
      · rw [hX₈.size_eq mem_three_right, tri_right hae hxe]
        rfl
      · rw [hX₈.size_eq mem_three_mid, hX₅.size_eq mem_three_mid, tri_mid hax, tri_mid hax]
    · have hadd : (w - u) * P.Alignment + u * P.Alignment = w * P.Alignment := by
        rw [← Nat.add_mul, Nat.sub_add_cancel (by omega)]
      simp only [usedUnits_cons, usedUnits_nil, Bool.false_eq_true, if_false, if_true, Nat.add_zero]
      omega
  · rw [hX₈.size_eq mem_three_left, tri_left]

/-- A forward expansion over the whole next block. -/
theorem Rep.expand_merge_exchange (hrep : Rep P h first (L ++ [⟨u, true⟩, ⟨v, false⟩] ++ R)) :
    Exchange P h (expand_merge P h (stop P.Alignment first L)
        (stop P.Alignment first L + u * P.Alignment) u (u + v))
      first L [⟨u, true⟩, ⟨v, false⟩] [⟨u + v, true⟩] R ∧
    m_size (expand_merge P h (stop P.Alignment first L)
      (stop P.Alignment first L + u * P.Alignment) u (u + v)).mem (stop P.Alignment first L) = u + v ∧
    Frame h.mem (expand_merge P h (stop P.Alignment first L)
        (stop P.Alignment first L + u * P.Alignment) u (u + v)).mem
      (stop P.Alignment first L + 8) (stop P.Alignment first L + 16)
      (stop P.Alignment first L + u * P.Alignment + 8)
      (stop P.Alignment first (L ++ [⟨u, true⟩, ⟨v, false⟩]) + 16)
      (outside P first L [⟨u, true⟩, ⟨v, false⟩] R) := by
  obtain ⟨r, R', hR⟩ := exists_next R ⟨units (L ++ [⟨u, true⟩, ⟨v, false⟩] ++ R), true⟩
  obtain ⟨hhead, hnext, hbehind, -⟩ := hrep.headers_here hR
  have hge := P.BlockCtrlBytes_ge
  have hu : P.BlockCtrlUnits ≤ u := hrep.sizes ⟨u, true⟩ (by simp)
  have hubytes : P.BlockCtrlBytes ≤ u * P.Alignment := bytes_ge (b := ⟨u, true⟩) hu
  have hvbytes : P.BlockCtrlBytes ≤ v * P.Alignment :=
    bytes_ge (b := ⟨v, false⟩) (hrep.sizes ⟨v, false⟩ (by simp))
  have hlt : u + v < 2 ^ 62 := hrep.units_lt_of_mem (G := [⟨u, true⟩, ⟨v, false⟩])
  obtain ⟨a, ha⟩ : ∃ a, a = stop P.Alignment first L := ⟨_, rfl⟩
  obtain ⟨next, hn⟩ : ∃ next, next = a + u * P.Alignment := ⟨_, rfl⟩
  obtain ⟨e, he⟩ : ∃ e, e = a + (u + v) * P.Alignment := ⟨_, rfl⟩
  have hne : next + v * P.Alignment = e := by
    rw [he, hn, Nat.add_mul, Nat.add_assoc]
  have hstop : e = stop P.Alignment first (L ++ [⟨u, true⟩, ⟨v, false⟩]) := by
    rw [stop_append, ← ha, stop_cons, stop_cons, stop_nil, ← hn, ← hne]
  have hperm := hrep.erase_next_perm
  change HeaderAt _ (_ + u * P.Alignment + v * P.Alignment) _ _ at hbehind
  rw [← ha] at hhead hbehind
  rw [← ha, ← hn] at hperm
  rw [← hn, hne] at hbehind
  rw [← ha, ← hn, ← hstop]
  have hae : a ≠ e := by omega
  have hS : Spread P (two a e) := spread_two (by omega)
  have hstart := hrep.editing_two (k := a + 16) (l := next + 8) ha hstop (by omega) (by
    intro y hy
    rw [frees_cons_used, frees_cons_free, frees_nil, ← hn] at hy
    cases List.mem_singleton.mp hy
    omega)
  have hE₁ := hstart.erase (P := P) next
  have hX₂ := hE₁.executed.set_size hS mem_two_left (s := u + v) (by omega) hlt
  simp only [duo_left, update_duo_left] at hX₂
  have hX₃ := hX₂.mark_allocated hS mem_two_left mem_two_right (by rw [duo_left, he]) (by omega)
    (by omega)
  rw [marked_allocated_duo hae] at hX₃
  refine ⟨?_, ?_, hX₃.frame⟩
  · refine (hE₁.with_allocated _ hX₃).exchange_one ha he (by simp) (by omega) (by omega) hR
      (by omega) (Or.inr rfl) (fun r hr => Or.inl rfl) ?_ ?_ ?_ ?_ ?_
    · exact ⟨rfl, hhead.prev_allocated, rfl, hhead.prev_size⟩
    · exact ⟨hbehind.size, rfl, hbehind.allocated, by nofun⟩
    · rw [frees_cons_used, frees_nil, hstop]
      exact hperm
    · subst ha hstop
      refine hrep.sorted_rest List.erase_sublist (fun y hy => hperm.mem_iff.mp hy)
        (hX₃.frame.widen (Nat.le_refl _) (by omega) (by omega) (Nat.le_refl _)) ?_
      rw [hX₃.size_eq mem_two_right, duo_right hae]
      rfl
    · have hadd : (u + v - u) * P.Alignment + u * P.Alignment = (u + v) * P.Alignment := by
        rw [← Nat.add_mul, Nat.sub_add_cancel (by omega)]
      simp only [usedUnits_cons, usedUnits_nil, Bool.false_eq_true, if_false, if_true, Nat.add_zero]
      change h.m_allocated + (u + v - u) * P.Alignment + _ = _
      omega
  · change m_size (priv_mark_as_allocated_block P (set_size (h.erase P next).mem a (u + v)) a) a = _
    rw [hX₃.size_eq mem_two_left, duo_left]

/-- What a buffer of a block can hold. -/
theorem Rep.size_eq (hrep : Rep P h first (L ++ ⟨u, true⟩ :: R)) :
    size P h (priv_get_user_buffer P (stop P.Alignment first L)) = user_bytes P u := by
  rw [size, priv_get_block_user_buffer]
  exact congrArg (user_bytes P) hrep.header_at.size

/-- What the blocks could hold does not wrap when it is rounded. -/
theorem Rep.fits {blocks : List Block} (hrep : Rep P h first blocks) (hu : P.AllocatedCtrlUnits ≤ u)
    (hle : u ≤ units blocks) : Fits P (user_bytes P u) := by
  have hstop := hrep.stop_le
  have hmul : u * P.Alignment ≤ units blocks * P.Alignment := Nat.mul_le_mul_right _ hle
  have hbytes := user_bytes_add hu
  have hctrl := P.AllocatedCtrlBytes_ge
  have hunit : P.Alignment ≤ P.AllocatedCtrlBytes := by
    rw [← P.AllocatedCtrlUnits_mul]
    exact Nat.le_mul_of_pos_left _ P.AllocatedCtrlUnits_pos
  unfold stop at hstop
  unfold UsableByPreviousChunk at hbytes
  unfold Fits UsableByPreviousChunk
  omega

/-- A buffer that is big enough is left alone. -/
theorem Rep.priv_expand_enough (hrep : Rep P h first (L ++ ⟨u, true⟩ :: R)) {min_size preferred_size : Nat}
    (henough : preferred_size ≤ user_bytes P u ∨ min_size ≤ user_bytes P u) :
    priv_expand P h (priv_get_user_buffer P (stop P.Alignment first L)) min_size preferred_size =
      (h, true, user_bytes P u) := by
  have hsize : m_size h.mem (stop P.Alignment first L) = u := hrep.header_at.size
  unfold priv_expand
  simp only [priv_get_block_user_buffer, hsize]
  rw [if_pos henough]

/-- A buffer in front of a block in use stays. -/
theorem Rep.priv_expand_blocked (hrep : Rep P h first (L ++ ⟨u, true⟩ :: R)) {min_size preferred_size : Nat}
    (hmin : user_bytes P u < min_size) (hpreferred : user_bytes P u < preferred_size)
    (hnext : ∀ r ∈ R.head?, r.used = true) :
    priv_expand P h (priv_get_user_buffer P (stop P.Alignment first L)) min_size preferred_size =
      (h, false, user_bytes P u) := by
  have hsize : m_size h.mem (stop P.Alignment first L) = u := hrep.header_at.size
  have hallocated : m_allocated h.mem (priv_next_block P h.mem (stop P.Alignment first L)) = true := by
    rw [priv_next_block, hsize, hrep.next_allocated]
    cases R with
    | nil => rfl
    | cons r R => exact hnext r rfl
  unfold priv_expand
  simp only [priv_get_block_user_buffer, hsize]
  rw [if_neg (by omega), hallocated, if_pos rfl, decide_eq_false (by omega)]

/-- The blocks after a forward expansion to `w` units. -/
def grown (u v w : Nat) : List Block :=
  ⟨w, true⟩ :: if w = u + v then [] else [⟨u + v - w, false⟩]

/-- The units that an expansion into `v` free units gives. -/
def expanded_units (P : Traits) (u v preferred_size : Nat) : Nat :=
  let intended := P.AllocatedCtrlUnits +
    min (u + v - P.AllocatedCtrlUnits) (ceil_units P (preferred_size - UsableByPreviousChunk))
  if intended + P.BlockCtrlUnits ≤ u + v then intended else u + v

/-- A free block that is too small is left alone, and its size is reported. -/
theorem Rep.priv_expand_short (hrep : Rep P h first (L ++ ⟨u, true⟩ :: ⟨v, false⟩ :: R))
    {min_size preferred_size : Nat} (hmin : user_bytes P (u + v) < min_size) (hpreferred : min_size ≤ preferred_size)
    (hfits : Fits P min_size) :
    priv_expand P h (priv_get_user_buffer P (stop P.Alignment first L)) min_size preferred_size =
      (h, false, (u + v) * P.Alignment - UsableByPreviousChunk) := by
  have hsize : m_size h.mem (stop P.Alignment first L) = u := hrep.header_at.size
  have hmono := user_bytes_mono (P := P) (Nat.le_add_right u v)
  have hge := user_bytes_ge (P := P) u
  have hA := P.Alignment_ge
  have hallocated : m_allocated h.mem (stop P.Alignment first L + u * P.Alignment) = false :=
    hrep.next_allocated
  rw [List.append_cons] at hrep
  have hnext : m_size h.mem (stop P.Alignment first L + u * P.Alignment) = v := by
    have hheader := hrep.header_at.size
    rwa [stop_append, stop_cons, stop_nil] at hheader
  have hshort : u + v - P.AllocatedCtrlUnits <
      ceil_units P (size_sub min_size UsableByPreviousChunk) := by
    rw [size_sub_of_le (by omega) hfits.1]
    refine Nat.lt_of_not_le fun hle => ?_
    rw [user_units_le_iff hfits (by omega)] at hle
    omega
  unfold priv_expand priv_next_block
  simp only [priv_get_block_user_buffer, hsize]
  rw [if_neg (by omega), hallocated, hnext, if_neg (by nofun), if_pos hshort]

theorem expanded_units_gt {preferred_size : Nat} (hu : P.BlockCtrlUnits ≤ u) (hv : 0 < v)
    (hpreferred : user_bytes P u < preferred_size) (hfits : Fits P preferred_size) :
    u < expanded_units P u v preferred_size := by
  have hctrl := P.AllocatedCtrlUnits_le
  have hge := user_bytes_ge (P := P) u
  have hunits : u - P.AllocatedCtrlUnits < ceil_units P (preferred_size - UsableByPreviousChunk) := by
    refine Nat.lt_of_not_le fun hle => ?_
    rw [user_units_le_iff hfits (by omega)] at hle
    omega
  unfold expanded_units
  simp only
  split_ifs <;> omega

theorem expanded_units_le (P : Traits) (u v preferred_size : Nat) :
    expanded_units P u v preferred_size ≤ u + v := by
  unfold expanded_units
  simp only
  split_ifs <;> omega

/-- The expanded buffer holds the preferred size, or else all there is. -/
theorem le_expanded_units {preferred_size : Nat} (hfits : Fits P preferred_size)
    (hge : UsableByPreviousChunk ≤ preferred_size) (hu : P.BlockCtrlUnits ≤ u) :
    min preferred_size (user_bytes P (u + v)) ≤ user_bytes P (expanded_units P u v preferred_size) := by
  have hctrl := P.AllocatedCtrlUnits_le
  have hall := user_units_le_iff (u := P.AllocatedCtrlUnits +
    ceil_units P (preferred_size - UsableByPreviousChunk)) hfits hge
  rw [Nat.add_sub_cancel_left] at hall
  have hpreferred := hall.mp (Nat.le_refl _)
  unfold expanded_units
  simp only
  rcases Nat.le_total (u + v - P.AllocatedCtrlUnits)
    (ceil_units P (preferred_size - UsableByPreviousChunk)) with hle | hle
  · rw [Nat.min_eq_left hle, Nat.add_sub_cancel' (by omega), ite_self]
    exact Nat.min_le_right _ _
  · rw [Nat.min_eq_right hle]
    split
    · exact Nat.le_trans (Nat.min_le_left _ _) hpreferred
    · exact Nat.min_le_right _ _

/-- An expansion into the free block behind the buffer. -/
theorem Rep.priv_expand_grows (hrep : Rep P h first (L ++ [⟨u, true⟩, ⟨v, false⟩] ++ R))
    {min_size preferred_size : Nat} (hmin : user_bytes P u < min_size) (hroom : min_size ≤ user_bytes P (u + v))
    (hpreferred : min_size ≤ preferred_size) (hfits : Fits P preferred_size) :
    ∃ h', priv_expand P h (priv_get_user_buffer P (stop P.Alignment first L)) min_size preferred_size =
        (h', true, user_bytes P (expanded_units P u v preferred_size)) ∧
      Exchange P h h' first L [⟨u, true⟩, ⟨v, false⟩] (grown u v (expanded_units P u v preferred_size)) R ∧
      Frame h.mem h'.mem (stop P.Alignment first L + 8) (stop P.Alignment first L + 16)
        (stop P.Alignment first L + u * P.Alignment + 8)
        (stop P.Alignment first (L ++ [⟨u, true⟩, ⟨v, false⟩]) + 16)
        (outside P first L [⟨u, true⟩, ⟨v, false⟩] R) := by
  have hctrl := P.AllocatedCtrlUnits_le
  have hge := user_bytes_ge (P := P) u
  have hu : P.BlockCtrlUnits ≤ u := hrep.sizes ⟨u, true⟩ (by simp)
  have hv : P.BlockCtrlUnits ≤ v := hrep.sizes ⟨v, false⟩ (by simp)
  have hpos := P.BlockCtrlUnits_pos
  have hgt := expanded_units_gt (v := v) hu (by omega) (by omega) hfits
  obtain ⟨r, R', hR⟩ := exists_next R ⟨units (L ++ [⟨u, true⟩, ⟨v, false⟩] ++ R), true⟩
  obtain ⟨hhead, hnext, -⟩ := hrep.headers_here hR
  have hsize : m_size h.mem (stop P.Alignment first L) = u := hhead.size
  have hallocated : m_allocated h.mem (stop P.Alignment first L + u * P.Alignment) = false :=
    hnext.allocated
  have hnextsize : m_size h.mem (stop P.Alignment first L + u * P.Alignment) = v := hnext.size
  have henough : ¬ (u + v - P.AllocatedCtrlUnits <
      ceil_units P (size_sub min_size UsableByPreviousChunk)) := by
    rw [size_sub_of_le (by omega) (hfits.mono hpreferred).1, Nat.not_lt,
      user_units_le_iff (hfits.mono hpreferred) (by omega)]
    exact hroom
  have hintended : (if u + v - P.AllocatedCtrlUnits <
        ceil_units P (size_sub preferred_size UsableByPreviousChunk) then u + v - P.AllocatedCtrlUnits
      else ceil_units P (size_sub preferred_size UsableByPreviousChunk)) =
      min (u + v - P.AllocatedCtrlUnits)
        (ceil_units P (preferred_size - UsableByPreviousChunk)) := by
    rw [size_sub_of_le (by omega) hfits.1]
    split_ifs <;> omega
  unfold priv_expand priv_next_block
  simp only [priv_get_block_user_buffer, hsize]
  rw [if_neg (by omega), hallocated, hnextsize, if_neg (by nofun), if_neg henough, hintended]
  obtain ⟨w, hw⟩ : ∃ w, w = P.AllocatedCtrlUnits + min (u + v - P.AllocatedCtrlUnits)
      (ceil_units P (preferred_size - UsableByPreviousChunk)) := ⟨_, rfl⟩
  have hle : w ≤ u + v := by omega
  unfold expanded_units at hgt ⊢
  simp only [← hw] at hgt ⊢
  by_cases hsplit : w + P.BlockCtrlUnits ≤ u + v
  · obtain ⟨hexchange, hunits, hframe⟩ := hrep.expand_split_exchange (by rwa [if_pos hsplit] at hgt) hsplit
    rw [if_pos hsplit, if_pos (by omega), hunits, grown, if_neg (by omega)]
    exact ⟨_, rfl, hexchange, hframe⟩
  · obtain ⟨hexchange, hunits, hframe⟩ := hrep.expand_merge_exchange
    rw [if_neg hsplit, if_neg (by omega), hunits, grown, if_pos rfl]
    exact ⟨_, rfl, hexchange, hframe⟩

end interprocess.rbtree_best_fit
