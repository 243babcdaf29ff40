import Interprocess.MemAlgo.RbtreeBestFit.Neighbours
import Interprocess.MemAlgo.RbtreeBestFit.Segment

namespace interprocess.rbtree_best_fit

open ipcdetail Memory Tiling

variable {P : Traits} {h : Heap} {a u : Nat}

section AddSegment

variable {segment_size : Nat} (hu : segment_size / P.Alignment - P.EndCtrlBlockUnits = u)
  (hlt : u < 2 ^ 62) (hmin : P.BlockCtrlUnits ≤ u)

include hu hlt hmin

/-- The headers of a new segment, whose free block is the only node. -/
theorem add_segment_executed (hmultiset : h.m_imultiset = []) :
    ∃ m, priv_add_segment P h a segment_size = { h with m_imultiset := [a], mem := m } ∧
      Executed (two a (a + u * P.Alignment)) a a a (a + u * P.Alignment + 16) [] h.mem m
        (duo a (a + u * P.Alignment) ⟨u, u, true, false⟩ ⟨u, u, false, true⟩) := by
  have hbytes := bytes_ge (P := P) (b := ⟨u, false⟩) hmin
  have hge := P.BlockCtrlBytes_ge
  change P.BlockCtrlBytes ≤ u * P.Alignment at hbytes
  obtain ⟨e, he⟩ : ∃ e, e = a + u * P.Alignment := ⟨_, rfl⟩
  have hae : a ≠ e := by omega
  have hS : Spread P (two a e) := spread_two (by omega)
  have ha : a ∈ two a e := Or.inl rfl
  have hein : e ∈ two a e := Or.inr rfl
  have hX := (((Executed.refl (two a e) a a a (e + 16) [] h.mem).congr fun y hy =>
    duo_of_mem hy).new_block_ctrl hS ha (by omega)).set_size hS ha (by omega) hlt
  rw [update_duo_left, update_duo_left, duo_left] at hX
  have hsize := hX.size_eq ha
  rw [duo_left] at hsize
  have hdistance : (e - a) / P.Alignment % 2 ^ 62 = u := by
    rw [he, Nat.add_sub_cancel_left, Nat.mul_div_cancel _ P.Alignment_pos, Nat.mod_eq_of_lt hlt]
  have hmarked := hX.mark_free hS ha hein (by rw [duo_left]; exact he.symm) (by omega) (by omega)
  rw [marked_free_duo hae] at hmarked
  have hclear : Clear (two a e) [a] := by
    rintro x (rfl | rfl) n hn <;> cases List.mem_singleton.mp hn
    · exact Or.inl (Nat.le_refl _)
    · exact Or.inr (by omega)
  have hdone := ((((hmarked.set_size hS hein (by omega) hlt).set_prev_size hS ha (by omega)
    (Nat.lt_trans hlt (by decide))).set_allocated hS hein (by omega) true).set_prev_allocated hS ha
      (by omega) true).write_hooks (P := P) hclear (by
        intro n hn
        cases List.mem_singleton.mp hn
        omega)
  simp only [duo_left, duo_right hae, update_duo_left, update_duo_right hae] at hdone
  rw [← he]
  refine ⟨_, ?_, hdone⟩
  simp only [priv_add_segment, hu, hsize, ← he, hdistance, Heap.insert, hmultiset]
  rfl

/-- A new segment has one free block in front of the end block. -/
theorem add_segment_rep (hmultiset : h.m_imultiset = []) (hallocated : h.m_allocated = 0)
    (haligned : P.Alignment ∣ a) (hstop : a + u * P.Alignment ≤ 2 ^ 64) :
    Rep P (priv_add_segment P h a segment_size) a [⟨u, false⟩] := by
  have hbytes := bytes_ge (P := P) (b := ⟨u, false⟩) hmin
  have hge := P.BlockCtrlBytes_ge
  change P.BlockCtrlBytes ≤ u * P.Alignment at hbytes
  have hne : a ≠ a + u * P.Alignment := by omega
  have hunits : units [⟨u, false⟩] = u := by simp
  obtain ⟨m, hanswer, hX⟩ := add_segment_executed (h := h) (a := a) hu hlt hmin hmultiset
  have hfirst := hX.ctrl_eq a (Or.inl rfl)
  have hend := hX.ctrl_eq _ (Or.inr rfl)
  rw [duo_left] at hfirst
  rw [duo_right hne] at hend
  rw [hanswer]
  refine ⟨⟨⟨?_, ?_, ?_, nofun⟩, ⟨?_, ?_, ?_, fun _ => ?_⟩, trivial⟩, ?_, ?_, ⟨Or.inl rfl, trivial⟩,
    List.Perm.refl _, List.pairwise_singleton _ a, ?_, ?_, haligned, ?_⟩
  · rw [hfirst]
  · rw [hfirst]
    rfl
  · rw [hfirst]
  · rw [hend, hunits]
  · rw [hend]
  · rw [hend]
  · rw [hend]
  · rw [hunits]
    exact congrArg BlockCtrl.m_prev_size hfirst
  · intro b hb
    cases List.mem_singleton.mp hb
    exact hmin
  · rw [usedUnits_cons, usedUnits_nil, Nat.add_zero]
    exact hallocated.trans (Nat.zero_mul _).symm
  · rw [hunits]
    exact hlt
  · rw [stop, hunits]
    exact hstop

end AddSegment

/-- The blocks lie between the header of the segment and its end. -/
structure Enclosed (P : Traits) (h : Heap) (first : Nat) (blocks : List Block) : Prop where
  first_eq : first = priv_first_block P h
  stop_eq : stop P.Alignment first blocks = priv_end_block P h
  header_le : h.this + P.sizeof_rbtree_best_fit + h.m_extra_hdr_bytes ≤ first
  end_le : stop P.Alignment first blocks + P.EndCtrlBlockBytes ≤ h.this + h.m_size
  segment_le : h.this + h.m_size ≤ 2 ^ 64
  this_pos : 0 < h.this
  units_pos : 0 < units blocks

theorem Enclosed.congr {h' : Heap} {first : Nat} {blocks blocks' : List Block}
    (henclosed : Enclosed P h first blocks) (hsegment : h'.segment = h.segment)
    (hunits : units blocks' = units blocks) : Enclosed P h' first blocks' := by
  obtain ⟨hthis, hrest⟩ := Prod.mk.inj hsegment
  obtain ⟨hextra, hsize⟩ := Prod.mk.inj hrest
  have hstop : stop P.Alignment first blocks' = stop P.Alignment first blocks := by
    rw [stop, stop, hunits]
  obtain ⟨hfirst, hend, hheader, hle, hsegment, hthis_pos, hpos⟩ := henclosed
  refine ⟨?_, ?_, ?_, ?_, ?_, hthis ▸ hthis_pos, hunits ▸ hpos⟩
  · rw [priv_first_block, hthis, hextra]
    exact hfirst
  · rw [hstop, priv_end_block, hthis, hextra, hsize]
    exact hend
  · rw [hthis, hextra]
    exact hheader
  · rw [hstop, hthis, hsize]
    exact hle
  · rw [hthis, hsize]
    exact hsegment

theorem Enclosed.stop_lt {first : Nat} {blocks : List Block} (henclosed : Enclosed P h first blocks) :
    stop P.Alignment first blocks + 16 ≤ 2 ^ 64 := by
  have hge := P.EndCtrlBlockBytes_ge
  have hend := henclosed.end_le
  have hsegment := henclosed.segment_le
  omega

/-- A segment that the constructor accepts: behind the header there is room for a
    block and for the end block. -/
structure Constructible (P : Traits) (this segment_size extra_hdr_bytes : Nat) : Prop where
  this_pos : 0 < this
  segment_le : this + segment_size ≤ 2 ^ 64
  header_le : P.sizeof_rbtree_best_fit + extra_hdr_bytes + P.BlockCtrlBytes + P.EndCtrlBlockBytes ≤
    segment_size
  room : priv_first_block_offset_from_this P this extra_hdr_bytes + P.BlockCtrlBytes +
    P.EndCtrlBlockBytes ≤ segment_size

section Construct

variable {this segment_size extra_hdr_bytes : Nat}
  (haccepted : Constructible P this segment_size extra_hdr_bytes)

include haccepted

theorem Constructible.first_block :
    P.Alignment ∣ this + priv_first_block_offset_from_this P this extra_hdr_bytes ∧
      this + P.sizeof_rbtree_best_fit + extra_hdr_bytes ≤
        this + priv_first_block_offset_from_this P this extra_hdr_bytes := by
  obtain ⟨hpos, hsegment, hheader, _⟩ := haccepted
  have hctrl : P.Alignment ≤ P.BlockCtrlBytes := by
    rw [← P.BlockCtrlUnits_mul]
    exact Nat.le_mul_of_pos_left _ P.BlockCtrlUnits_pos
  have hend := P.EndCtrlBlockBytes_ge
  obtain ⟨hlow, hhigh⟩ := get_rounded_size_bounds (this + P.sizeof_rbtree_best_fit + extra_hdr_bytes)
    P.Alignment_pos (by omega) (by omega)
  have hdvd : P.Alignment ∣
      get_rounded_size (this + P.sizeof_rbtree_best_fit + extra_hdr_bytes) P.Alignment :=
    (Nat.dvd_mod_iff P.Alignment_dvd).mpr (Nat.dvd_mul_left _ _)
  rw [priv_first_block_offset_from_this, size_sub_of_le (by omega) (by omega), Nat.add_sub_cancel' (by omega)]
  exact ⟨hdvd, hlow⟩

/-- The constructor gives a heap with one free block. -/
theorem construct_rep (mem : Memory) :
    ∃ u, Rep P (construct P this segment_size extra_hdr_bytes mem)
        (this + priv_first_block_offset_from_this P this extra_hdr_bytes) [⟨u, false⟩] ∧
      Enclosed P (construct P this segment_size extra_hdr_bytes mem)
        (this + priv_first_block_offset_from_this P this extra_hdr_bytes) [⟨u, false⟩] := by
  obtain ⟨hdvd, hlow⟩ := haccepted.first_block
  obtain ⟨hthis_pos, hsegment, _, hroom⟩ := haccepted
  generalize hoff : priv_first_block_offset_from_this P this extra_hdr_bytes = off at *
  have hmul := Nat.div_mul_le_self (segment_size - off) P.Alignment
  have hA := P.Alignment_ge
  have hunits : P.BlockCtrlUnits + P.EndCtrlBlockUnits ≤ (segment_size - off) / P.Alignment := by
    rw [Nat.le_div_iff_mul_le P.Alignment_pos, Nat.add_mul, P.BlockCtrlUnits_mul,
      P.EndCtrlBlockUnits_mul]
    omega
  obtain ⟨u, hu⟩ : ∃ u, (segment_size - off) / P.Alignment - P.EndCtrlBlockUnits = u := ⟨_, rfl⟩
  have htotal : u * P.Alignment + P.EndCtrlBlockBytes ≤ segment_size - off := by
    rw [← P.EndCtrlBlockUnits_mul, ← Nat.add_mul, ← hu, Nat.sub_add_cancel (by omega)]
    exact hmul
  have height : u * 8 ≤ u * P.Alignment := Nat.mul_le_mul_left u hA
  have hrep := add_segment_rep (h := ⟨this, extra_hdr_bytes, segment_size, 0, [], mem⟩) hu
    (by omega) (by omega) rfl rfl hdvd (by omega)
  refine ⟨u, ?_, ?_⟩
  · rw [construct, hoff]
    exact hrep
  · rw [construct, hoff]
    have hpos := P.BlockCtrlUnits_pos
    refine ⟨?_, ?_, ?_, ?_, ?_, hthis_pos, by simp only [units_cons, units_nil]; omega⟩
    · simp only [priv_first_block, priv_add_segment, Heap.insert, hoff]
    · simp only [priv_end_block, priv_add_segment, Heap.insert, hoff, hu]
      simp [stop]
    · exact hlow
    · simp only [priv_add_segment, Heap.insert]
      simp only [stop, units_cons, units_nil, Nat.add_zero]
      omega
    · exact hsegment

end Construct

end interprocess.rbtree_best_fit
