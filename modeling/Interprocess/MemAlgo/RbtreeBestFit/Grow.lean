import Interprocess.MemAlgo.RbtreeBestFit.Commands

namespace interprocess.rbtree_best_fit

open ipcdetail Memory Tiling

section Resize

variable (P : Traits)

/-- The headers of the new end block, of the first block and of the block that the
    old end block becomes. -/
def grow_headers (m : Memory) (first_block old_end_block new_end_block : Nat) : Memory :=
  let m := set_allocated m new_end_block true
  let m := set_size m new_end_block ((new_end_block - first_block) / P.Alignment)
  let m := set_prev_size m first_block (m_size m new_end_block)
  let m := set_prev_allocated m first_block true
  let m := set_size m old_end_block ((new_end_block - old_end_block) / P.Alignment)
  priv_mark_as_allocated_block P m old_end_block

/-- Grows the segment. The old end block becomes a block that is given back. -/
def grow (h : Heap) (extra_size : Nat) : Heap :=
  let first_block := priv_first_block P h
  let old_end_block := priv_end_block P h
  let old_border_offset := old_end_block - h.this + P.EndCtrlBlockBytes
  let h := { h with m_size := (h.m_size + extra_size) % 2 ^ 64 }
  if size_sub h.m_size old_border_offset < P.BlockCtrlBytes then h
  else
    let align_offset := size_sub h.m_size old_border_offset / P.Alignment
    let new_end_block := old_end_block + align_offset * P.Alignment
    let mem := grow_headers P h.mem first_block old_end_block new_end_block
    let m_allocated := h.m_allocated + m_size mem old_end_block * P.Alignment
    priv_deallocate P { h with mem, m_allocated } (priv_get_user_buffer P old_end_block)

end Resize

variable {P : Traits} {h : Heap} {first n e e' : Nat} {blocks : List Block}

/-- A block that is not the first one lies behind it. -/
theorem Rep.placed_behind_first {x : Nat} {b : Block} (hrep : Rep P h first blocks)
    (hx : (x, b) ∈ placed P.Alignment first blocks) : x = first ∨ first + P.BlockCtrlBytes ≤ x := by
  cases blocks with
  | nil => cases hx
  | cons c rest =>
    rcases List.mem_cons.mp hx with heq | hx
    · exact Or.inl (congrArg Prod.fst heq)
    · have hle := (mem_placed_bounds _ hx).1
      have hbytes := bytes_ge (hrep.sizes c List.mem_cons_self)
      exact Or.inr (by omega)

theorem Rep.units_ge (hrep : Rep P h first blocks) (hpos : 0 < units blocks) :
    P.BlockCtrlUnits ≤ units blocks := by
  cases blocks with
  | nil => cases hpos
  | cons b rest => exact Nat.le_trans (hrep.sizes b List.mem_cons_self) (Nat.le_add_right _ _)

/-- The headers of blocks when only the end of the segment and the distance that the
    first block stores have changed. -/
theorem headers_of_first {m m' : Memory} (hsizes : ∀ b ∈ blocks, P.BlockCtrlUnits ≤ b.units)
    (hheaders : Linked P.Alignment (HeaderAt (ctrl m)) first front blocks)
    (hsize : (ctrl m' first).m_size = (ctrl m first).m_size)
    (hallocated : (ctrl m' first).m_allocated = (ctrl m first).m_allocated)
    (hprev : (ctrl m' first).m_prev_allocated = true)
    (hsame : ∀ x b, (x, b) ∈ placed P.Alignment first blocks → first + P.BlockCtrlBytes ≤ x →
      ctrl m' x = ctrl m x) : Linked P.Alignment (HeaderAt (ctrl m')) first front blocks := by
  cases blocks with
  | nil => trivial
  | cons b rest =>
    obtain ⟨hhere, hrest⟩ := hheaders
    refine ⟨⟨hsize.trans hhere.size, hprev, hallocated.trans hhere.allocated, nofun⟩, hrest.imp ?_⟩
    intro x q c hx hheader
    have hb := bytes_ge (hsizes b List.mem_cons_self)
    have hle := (mem_placed_bounds _ hx).1
    have hctrl := hsame x c (List.mem_cons_of_mem _ hx) (by omega)
    exact ⟨by rw [hctrl, hheader.size], by rw [hctrl, hheader.prev_allocated],
      by rw [hctrl, hheader.allocated], by rw [hctrl]; exact hheader.prev_size⟩

section GrowHeaders

variable (he : e = stop P.Alignment first blocks) (he' : e' = e + n * P.Alignment)
  (hpos : P.BlockCtrlUnits ≤ units blocks) (hn : P.BlockCtrlUnits ≤ n)
  (hlt : units blocks + n < 2 ^ 62)

include he he' hpos hn hlt

theorem grow_headers_executed (m : Memory) :
    Executed (three first e e') first (first + 16) (e + 8) (e' + 16) [] m
      (grow_headers P m first e e') (tri first e e'
        { ctrl m first with m_prev_size := units blocks + n, m_prev_allocated := true }
        { ctrl m e with m_size := n, m_allocated := true }
        ⟨m_prev_size m e', units blocks + n, true, true⟩) := by
  have hge := P.BlockCtrlBytes_ge
  have hbytes : P.BlockCtrlBytes ≤ units blocks * P.Alignment := bytes_ge (b := ⟨_, true⟩) hpos
  have hnbytes : P.BlockCtrlBytes ≤ n * P.Alignment := bytes_ge (b := ⟨n, true⟩) hn
  change e = first + units blocks * P.Alignment at he
  have hae : first ≠ e := by omega
  have hae' : first ≠ e' := by omega
  have hee' : e ≠ e' := by omega
  have hS : Spread P (three first e e') := spread_three (by omega) (by omega)
  have hdistance : (e' - first) / P.Alignment = units blocks + n := by
    rw [he', he, Nat.add_assoc, Nat.add_sub_cancel_left, ← Nat.add_mul,
      Nat.mul_div_cancel _ P.Alignment_pos]
  have hnew : (e' - e) / P.Alignment = n := by
    rw [he', Nat.add_sub_cancel_left, Nat.mul_div_cancel _ P.Alignment_pos]
  have hX := (((Executed.refl (three first e e') first (first + 16) (e + 8) (e' + 16) [] m).congr
    fun y hy => tri_of_mem hy).set_allocated hS mem_three_right (by omega) true).set_size hS
      mem_three_right (by omega) hlt
  simp only [tri_right hae' hee', update_tri_right hae' hee'] at hX
  have hsize := hX.size_eq mem_three_right
  rw [tri_right hae' hee'] at hsize
  have hY := ((hX.set_prev_size hS mem_three_left (by omega) (Nat.lt_trans hlt (by decide))
    ).set_prev_allocated hS mem_three_left (by omega) true).set_size hS mem_three_mid (by omega)
      (show n < 2 ^ 62 by omega)
  simp only [tri_left, update_tri_left, tri_mid hae, update_tri_mid hae] at hY
  have hZ := hY.mark_allocated hS mem_three_mid mem_three_right (by rw [tri_mid hae]; exact he'.symm)
    (by omega) (by omega)
  rw [marked_allocated_tri_mid hae hae' hee'] at hZ
  unfold grow_headers
  simp only [hdistance, hnew, hsize]
  exact hZ

/-- The old end block is a block in use once the headers are written. -/
theorem Rep.grow_headers (hrep : Rep P h first blocks) (hstop : e' ≤ 2 ^ 64) (size : Nat) :
    Rep P { h with
      m_size := size
      m_allocated := h.m_allocated + n * P.Alignment
      mem := rbtree_best_fit.grow_headers P h.mem first e e' } first (blocks ++ [⟨n, true⟩]) := by
  have hX := grow_headers_executed he he' hpos hn hlt h.mem
  generalize rbtree_best_fit.grow_headers P h.mem first e e' = m at *
  have hge := P.BlockCtrlBytes_ge
  have hbytes : P.BlockCtrlBytes ≤ units blocks * P.Alignment := bytes_ge (b := ⟨_, true⟩) hpos
  have hnbytes : P.BlockCtrlBytes ≤ n * P.Alignment := bytes_ge (b := ⟨n, true⟩) hn
  have hfirst := hX.ctrl_eq first mem_three_left
  have hmid := hX.ctrl_eq e mem_three_mid
  have hend := hX.ctrl_eq e' mem_three_right
  have heq : e = first + units blocks * P.Alignment := he
  rw [tri_left] at hfirst
  rw [tri_mid (by omega)] at hmid
  rw [tri_right (by omega) (by omega)] at hend
  have hunits : units (blocks ++ [⟨n, true⟩]) = units blocks + n := by simp [units_append]
  have hinside : ∀ x b, (x, b) ∈ placed P.Alignment first blocks → x + 40 ≤ e := by
    intro x b hx
    have hb := bytes_ge (hrep.sizes b (mem_of_mem_placed _ hx))
    have hbound := (mem_placed_bounds _ hx).2
    omega
  have hsame : ∀ x, x + 16 ≤ e → first + 16 ≤ x → SameOn m h.mem x (x + 16) := by
    intro x hhi hlo y hylo hyhi
    exact hX.frame y (by omega) (by omega) fun n hn => nomatch hn
  have hendold := hrep.header_end
  rw [← he] at hendold
  refine ⟨?_, ?_, ?_, ?_, ?_, ?_, ?_, ?_, hrep.aligned, ?_⟩
  · have hheaders := hrep.headers
    rw [hunits, List.append_assoc, linked_append, ← he]
    refine ⟨?_, ⟨?_, ?_, ?_, ?_⟩, ⟨?_, ?_, ?_, nofun⟩, trivial⟩
    · rw [linked_append] at hheaders
      refine headers_of_first hrep.sizes hheaders.1 (by rw [hfirst]) (by rw [hfirst]) (by rw [hfirst])
        fun x b hx hlo => ?_
      have hx' := hinside x b hx
      exact ctrl_congr (hsame x (by omega) (by omega))
    · rw [hmid]
    · rw [hmid]
      exact hendold.prev_allocated
    · rw [hmid]
    · rw [hmid]
      exact hendold.prev_size
    · change (ctrl m (e + n * P.Alignment)).m_size = _
      rw [← he', hend]
    · change (ctrl m (e + n * P.Alignment)).m_prev_allocated = _
      rw [← he', hend]
    · change (ctrl m (e + n * P.Alignment)).m_allocated = _
      rw [← he', hend]
  · rw [hunits]
    exact congrArg BlockCtrl.m_prev_size hfirst
  · intro b hb
    rcases List.mem_append.mp hb with hb | hb
    · exact hrep.sizes b hb
    · obtain rfl := List.mem_singleton.mp hb
      exact hn
  · rw [linked_append]
    exact ⟨hrep.separated, Or.inr rfl, trivial⟩
  · rw [frees_append]
    have hnil : frees P.Alignment (stop P.Alignment first blocks) [⟨n, true⟩] = [] := rfl
    rw [hnil, List.append_nil]
    exact hrep.nodes
  · refine pairwise_le_congr hrep.sorted ?_
    intro x hx
    obtain ⟨u, hu⟩ := (mem_frees _).mp (hrep.nodes.subset hx)
    have hx' := hinside x _ hu
    rcases hrep.placed_behind_first hu with hxfirst | hbehind
    · rw [hxfirst]
      exact congrArg BlockCtrl.m_size hfirst
    · change (ctrl m x).m_size = (ctrl h.mem x).m_size
      rw [ctrl_congr (hsame x (by omega) (by omega))]
  · rw [usedUnits_append, usedUnits_cons, usedUnits_nil, Nat.add_zero, if_pos rfl, Nat.add_mul,
      ← hrep.allocated]
  · rw [hunits]
    exact hlt
  · rw [stop_append, ← he, stop_cons, stop_nil, ← he']
    exact hstop

theorem grow_headers_kept (h : Heap) {b u : Nat}
    (hlive : LiveAt P first blocks b u) :
    SameOn (rbtree_best_fit.grow_headers P h.mem first e e') h.mem (b + P.AllocatedCtrlBytes)
      (b + u * P.Alignment + UsableByPreviousChunk) := by
  have hX := grow_headers_executed he he' hpos hn hlt h.mem
  have hctrl := P.AllocatedCtrlBytes_ge
  obtain ⟨hlo, hhi⟩ := mem_placed_bounds _ hlive
  change b + u * P.Alignment ≤ _ at hhi
  rw [← he] at hhi
  intro y hylo hyhi
  unfold UsableByPreviousChunk at hyhi
  exact hX.frame y (by omega) (by omega) fun n hn => nomatch hn

end GrowHeaders

/-- The bytes behind the end block that a growth leaves to the segment. -/
def grow_left (P : Traits) (h : Heap) (extra_size : Nat) : Nat :=
  h.this + (h.m_size + extra_size) - (priv_end_block P h + P.EndCtrlBlockBytes)

/-- The end block by its computation from the new size lies whole units of what is
    left behind the old one. -/
theorem Enclosed.end_block_of_size (henclosed : Enclosed P h first blocks)
    (extra_size m_allocated : Nat) (m_imultiset : List Nat) (mem : Memory) :
    priv_end_block P ⟨h.this, h.m_extra_hdr_bytes, h.m_size + extra_size, m_allocated, m_imultiset,
      mem⟩ = stop P.Alignment first blocks + grow_left P h extra_size / P.Alignment * P.Alignment := by
  have hend := henclosed.end_le
  have hfirst := henclosed.first_eq
  have hstop : stop P.Alignment first blocks = first + units blocks * P.Alignment := rfl
  have hbytes := P.EndCtrlBlockUnits_mul
  unfold grow_left
  rw [← henclosed.stop_eq]
  unfold priv_end_block
  unfold priv_first_block at hfirst
  simp only
  have htotal : h.m_size + extra_size - priv_first_block_offset_from_this P h.this h.m_extra_hdr_bytes =
      (units blocks + P.EndCtrlBlockUnits) * P.Alignment +
        (h.this + (h.m_size + extra_size) -
          (stop P.Alignment first blocks + P.EndCtrlBlockBytes)) := by
    rw [Nat.add_mul, hbytes]
    omega
  rw [htotal, Nat.add_comm ((units blocks + P.EndCtrlBlockUnits) * P.Alignment),
    Nat.add_mul_div_right _ _ P.Alignment_pos, hstop, hfirst, Nat.add_assoc _ (_ * _) (_ * _),
    ← Nat.add_mul]
  generalize (_ - _ : Nat) / P.Alignment = left_units
  congr 2
  omega

section Grow

variable {extra_size : Nat} (henclosed : Enclosed P h first blocks)
  (hlt : h.this + (h.m_size + extra_size) ≤ 2 ^ 64)

include henclosed hlt

theorem grow_left_eq :
    size_sub ((h.m_size + extra_size) % 2 ^ 64) (priv_end_block P h - h.this + P.EndCtrlBlockBytes) =
      grow_left P h extra_size := by
  have hend := henclosed.end_le
  have hlow := henclosed.header_le
  have hle := le_stop P.Alignment first blocks
  have hpos := henclosed.this_pos
  rw [henclosed.stop_eq] at hend hle
  unfold grow_left
  rw [Nat.mod_eq_of_lt (by omega), size_sub_of_le (by omega) (by omega)]
  omega

/-- A growth that leaves less than a block only counts the bytes. -/
theorem grow_short (hleft : grow_left P h extra_size < P.BlockCtrlBytes) :
    grow P h extra_size = { h with m_size := h.m_size + extra_size } := by
  have hpos := henclosed.this_pos
  have heq := grow_left_eq henclosed hlt
  rw [Nat.mod_eq_of_lt (by omega)] at heq
  unfold grow
  simp only [Nat.mod_eq_of_lt (show h.m_size + extra_size < 2 ^ 64 by omega), heq, if_pos hleft]

theorem Enclosed.of_size {h' : Heap} {blocks' : List Block} (hthis : h'.this = h.this)
    (hextra : h'.m_extra_hdr_bytes = h.m_extra_hdr_bytes) (hsize : h'.m_size = h.m_size + extra_size)
    (hunits : units blocks' = units blocks + grow_left P h extra_size / P.Alignment) :
    Enclosed P h' first blocks' := by
  have hend := henclosed.end_block_of_size extra_size h'.m_allocated h'.m_imultiset h'.mem
  rw [← hthis, ← hextra, ← hsize] at hend
  have hstop : stop P.Alignment first blocks' =
      stop P.Alignment first blocks + grow_left P h extra_size / P.Alignment * P.Alignment := by
    rw [stop, stop, hunits, Nat.add_mul, Nat.add_assoc]
  have hmul := Nat.div_mul_le_self (grow_left P h extra_size) P.Alignment
  have hle := henclosed.end_le
  refine ⟨?_, hstop.trans hend.symm, ?_, ?_, ?_, ?_, ?_⟩
  · rw [henclosed.first_eq, priv_first_block, priv_first_block, hthis, hextra]
  · rw [hthis, hextra]
    exact henclosed.header_le
  · rw [hstop, hthis, hsize]
    unfold grow_left at hmul ⊢
    rw [← henclosed.stop_eq] at hmul ⊢
    omega
  · rw [hthis, hsize]
    exact hlt
  · rw [hthis]
    exact henclosed.this_pos
  · rw [hunits]
    exact Nat.lt_of_lt_of_le henclosed.units_pos (Nat.le_add_right _ _)

/-- The new block of a growth is given back. -/
theorem Rep.grow_block (hrep : Rep P h first blocks)
    (hleft : P.BlockCtrlBytes ≤ grow_left P h extra_size) :
    ∃ blocks', Outcome P h (grow P h extra_size) first blocks blocks' [] [] ∧
      (grow P h extra_size).m_size = h.m_size + extra_size := by
  have heq := grow_left_eq henclosed hlt
  have hpos := henclosed.this_pos
  have hmod : (h.m_size + extra_size) % 2 ^ 64 = h.m_size + extra_size := Nat.mod_eq_of_lt (by omega)
  rw [hmod] at heq
  have hfirst := henclosed.first_eq
  have hend := henclosed.stop_eq
  obtain ⟨n, hn⟩ : ∃ n, n = grow_left P h extra_size / P.Alignment := ⟨_, rfl⟩
  have hblock : P.BlockCtrlUnits ≤ n := by
    rw [hn, Nat.le_div_iff_mul_le P.Alignment_pos, P.BlockCtrlUnits_mul]
    exact hleft
  obtain ⟨e, he⟩ : ∃ e, e = stop P.Alignment first blocks := ⟨_, rfl⟩
  obtain ⟨e', he'⟩ : ∃ e', e' = e + n * P.Alignment := ⟨_, rfl⟩
  have hunits := hrep.units_ge henclosed.units_pos
  have hstop : e' ≤ 2 ^ 64 := by
    have hmul := Nat.div_mul_le_self (grow_left P h extra_size) P.Alignment
    have hle := henclosed.end_le
    rw [← hn] at hmul
    unfold grow_left at hmul
    rw [← hend] at hmul
    omega
  have hlt62 : units blocks + n < 2 ^ 62 := by
    have height := Nat.mul_le_mul_left (units blocks + n) P.Alignment_ge
    rw [Nat.add_mul (units blocks) n P.Alignment] at height
    change e = first + units blocks * P.Alignment at he
    omega
  have hsize := (grow_headers_executed he he' hunits hblock hlt62 h.mem).size_eq mem_three_mid
  have hrep' := hrep.grow_headers he he' hunits hblock hlt62 hstop (h.m_size + extra_size)
  have hkept := fun b u => grow_headers_kept he he' hunits hblock hlt62 h (b := b) (u := u)
  have hne : first ≠ e := by
    have hbytes : P.BlockCtrlBytes ≤ units blocks * P.Alignment := bytes_ge (b := ⟨_, true⟩) hunits
    have hge := P.BlockCtrlBytes_ge
    change e = first + units blocks * P.Alignment at he
    omega
  rw [tri_mid hne] at hsize
  change m_size _ e = n at hsize
  rw [← hend, ← he] at heq
  have hgrow : grow P h extra_size = priv_deallocate P { h with
      m_size := h.m_size + extra_size
      m_allocated := h.m_allocated + n * P.Alignment
      mem := rbtree_best_fit.grow_headers P h.mem first e e' } (priv_get_user_buffer P e) := by
    unfold grow
    simp only [hmod, ← hfirst, ← hend, ← he, heq, if_neg (Nat.not_lt_of_le hleft), ← hn, ← he', hsize]
  have hlive : LiveAt P first (blocks ++ [⟨n, true⟩]) e n := by
    rw [he]
    exact mem_placed_mid _ _ _ blocks []
  obtain ⟨blocks', hop⟩ := hrep'.deallocate_operation hlive
  have henclosed' : Enclosed P { h with
      m_size := h.m_size + extra_size
      m_allocated := h.m_allocated + n * P.Alignment
      mem := rbtree_best_fit.grow_headers P h.mem first e e' } first (blocks ++ [⟨n, true⟩]) :=
    Enclosed.of_size henclosed hlt rfl rfl rfl (by simp [units_append, hn])
  have hout := hop.outcome henclosed'
  rw [hgrow]
  refine ⟨blocks', ⟨hout.rep, hout.enclosed, ?_, ?_⟩, ?_⟩
  · have hused := hout.used
    rw [usedBlocks_append, usedBlocks_cons_used, usedBlocks_nil, ← he] at hused
    exact (hused.trans (List.perm_append_singleton _ _)).cons_inv
  · intro b u hb _
    have hb' : LiveAt P first (blocks ++ [⟨n, true⟩]) b u := by
      unfold LiveAt
      rw [placed_append]
      exact List.mem_append_left _ hb
    refine (hout.kept b u hb' ?_).trans (hkept b u hb)
    intro hmem
    have hbound := (mem_placed_bounds _ hb).2
    have hb_bytes : P.BlockCtrlBytes ≤ u * P.Alignment :=
      bytes_ge (b := ⟨u, true⟩) (hrep.sizes _ (mem_of_mem_placed _ hb))
    have hge := P.BlockCtrlBytes_ge
    have heq := congrArg Prod.fst (List.mem_singleton.mp hmem)
    change b = e at heq
    change b + u * P.Alignment ≤ stop P.Alignment first blocks at hbound
    omega
  · exact hop.m_size_eq

/-- What is left behind the end block is less than a unit or enough for a block. -/
def GrowFits (P : Traits) (h : Heap) (extra_size : Nat) : Prop :=
  grow_left P h extra_size < P.Alignment ∨ P.BlockCtrlBytes ≤ grow_left P h extra_size

/-- `grow` adds memory behind the end of the segment. -/
theorem Rep.grow_outcome (hrep : Rep P h first blocks) (hfits : GrowFits P h extra_size) :
    ∃ blocks', Outcome P h (grow P h extra_size) first blocks blocks' [] [] ∧
      (grow P h extra_size).m_size = h.m_size + extra_size := by
  rcases hfits with hless | hblock
  · have hunit : P.Alignment ≤ P.BlockCtrlBytes := by
      rw [← P.BlockCtrlUnits_mul]
      exact Nat.le_mul_of_pos_left _ P.BlockCtrlUnits_pos
    rw [grow_short henclosed hlt (Nat.lt_of_lt_of_le hless hunit)]
    refine ⟨blocks, ⟨?_, ?_, List.Perm.refl _, fun _ _ _ _ _ _ _ => rfl⟩, rfl⟩
    · exact ⟨hrep.headers, hrep.first_prev_size, hrep.sizes, hrep.separated, hrep.nodes, hrep.sorted,
        hrep.allocated, hrep.units_lt, hrep.aligned, hrep.stop_le⟩
    · refine Enclosed.of_size henclosed hlt rfl rfl rfl ?_
      rw [Nat.div_eq_of_lt hless, Nat.add_zero]
  · exact hrep.grow_block henclosed hlt hblock

/-- The segment is well formed after `grow` just when what is left fits. -/
theorem Rep.grow_iff (hrep : Rep P h first blocks) :
    (∃ blocks', Rep P (grow P h extra_size) first blocks' ∧
      Enclosed P (grow P h extra_size) first blocks') ↔ GrowFits P h extra_size := by
  constructor
  · rintro ⟨blocks', hrep', henclosed'⟩
    by_contra hfits
    obtain ⟨hunit, hless⟩ := not_or.mp hfits
    rw [grow_short henclosed hlt (Nat.lt_of_not_le hless)] at hrep' henclosed'
    -- the first block still counts the units up to the old end block
    have hunits : units blocks' = units blocks := hrep'.first_prev_size.symm.trans hrep.first_prev_size
    have hstop := henclosed'.stop_eq
    rw [henclosed.end_block_of_size, stop, stop, hunits] at hstop
    have hone : 1 ≤ grow_left P h extra_size / P.Alignment :=
      (Nat.le_div_iff_mul_le P.Alignment_pos).mpr (by omega)
    have := Nat.mul_le_mul_right P.Alignment hone
    have := P.Alignment_pos
    omega
  · intro hfits
    obtain ⟨blocks', hout, _⟩ := hrep.grow_outcome henclosed hlt hfits
    exact ⟨blocks', hout.rep, hout.enclosed⟩

end Grow

end interprocess.rbtree_best_fit
