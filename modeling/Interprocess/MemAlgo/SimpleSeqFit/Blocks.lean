import Interprocess.MemAlgo.SimpleSeqFit.Layout

namespace interprocess.ipcdetail.simple_seq_fit_impl

open Memory Tiling LinkedList

variable {P : Traits} {root first : Nat} {m m' : Memory} {L G G' R : List Block}
  {stale stale' : List Nat} {u : Nat}

/-- The link in front of the blocks after `L`. -/
theorem Tiles.next_previous (htiles : Tiles P root first m (L ++ R) stale) :
    m_next P m (previous P root first L) = following P root (stop P.Alignment first L) R := by
  have hpath := htiles.path
  rw [frees_append, path_append] at hpath
  exact hpath.1.last_eq

/-- The link of a free block. -/
theorem Tiles.next_free (htiles : Tiles P root first m (L ++ ⟨u, false⟩ :: R) stale) :
    m_next P m (stop P.Alignment first L) =
      following P root (stop P.Alignment first L + u * P.Alignment) R := by
  have hpath := htiles.path
  rw [frees_append, frees_cons_free, path_append] at hpath
  exact (hpath.2 _ _ rfl).next_eq

theorem Tiles.root_lt (htiles : Tiles P root first m L stale) : root < 2 ^ 64 := by
  have hbefore := htiles.root_before
  have hle := htiles.stop_le
  have hstop := le_stop P.Alignment first L
  omega

/-- Addresses of blocks can be stored as pointers. -/
theorem Tiles.placed_pointer {x : Nat} {b : Block} (htiles : Tiles P root first m L stale)
    (hx : (x, b) ∈ placed P.Alignment first L) : 8 ∣ x ∧ x + 16 ≤ 2 ^ 64 := by
  refine ⟨Nat.dvd_trans P.eight_dvd_Alignment (aligned_placed htiles.first_aligned hx), ?_⟩
  have hbound := (mem_placed_bounds _ hx).2
  have hlength := length_ge htiles.sizes hx
  have hle := htiles.stop_le
  omega

theorem Tiles.following_pointer (htiles : Tiles P root first m (L ++ R) stale) :
    8 ∣ following P root (stop P.Alignment first L) R ∧
      following P root (stop P.Alignment first L) R < 2 ^ 64 := by
  rcases following_cases P root (stop P.Alignment first L) R with heq | ⟨v, hv⟩
  · rw [heq]
    exact ⟨htiles.root_aligned, htiles.root_lt⟩
  · have hplaced : (following P root (stop P.Alignment first L) R, (⟨v, false⟩ : Block)) ∈
        placed P.Alignment first (L ++ R) := by
      rw [placed_append]
      exact List.mem_append_right _ hv
    have hpointer := htiles.placed_pointer hplaced
    exact ⟨hpointer.1, by omega⟩

theorem Tiles.previous_pointer (htiles : Tiles P root first m (L ++ R) stale) :
    8 ∣ previous P root first L := by
  rcases previous_cases P root first L with heq | ⟨v, hv⟩
  · rw [heq]
    exact htiles.root_aligned
  · have hplaced : (previous P root first L, (⟨v, false⟩ : Block)) ∈
        placed P.Alignment first (L ++ R) := by
      rw [placed_append]
      exact List.mem_append_left _ hv
    exact (htiles.placed_pointer hplaced).1

/-- The place of a block in the middle. -/
theorem Tiles.mid_pointer {used : Bool} (htiles : Tiles P root first m (L ++ ⟨u, used⟩ :: R) stale) :
    8 ∣ stop P.Alignment first L ∧ stop P.Alignment first L + 16 ≤ 2 ^ 64 ∧
      previous P root first L + 16 ≤ stop P.Alignment first L ∧ 16 ≤ u * P.Alignment ∧
      u < 2 ^ 64 := by
  have hplaced : (stop P.Alignment first L, (⟨u, used⟩ : Block)) ∈
      placed P.Alignment first (L ++ ⟨u, used⟩ :: R) := by
    rw [placed_append]
    exact List.mem_append_right _ List.mem_cons_self
  have hpointer := htiles.placed_pointer hplaced
  have hlength : 16 ≤ u * P.Alignment := length_ge htiles.sizes hplaced
  have hbound : stop P.Alignment first L + u * P.Alignment ≤ _ := (mem_placed_bounds _ hplaced).2
  have hle := htiles.stop_le
  have hunits : u ≤ u * P.Alignment := Nat.le_mul_of_pos_right _ P.Alignment_pos
  have hfirst := htiles.root_before
  have hstop := le_stop P.Alignment first L
  refine ⟨hpointer.1, hpointer.2, ?_, hlength, by omega⟩
  exact previous_le (fun c hc => htiles.sizes c (List.mem_append_left _ hc)) htiles.root_before

theorem stop_concat (a : Nat) (L : List Block) (used : Bool) :
    stop P.Alignment a (L ++ [⟨u, used⟩]) = stop P.Alignment a L + u * P.Alignment := by
  rw [stop_append, stop_cons, stop_nil]

theorem Tiles.mid_stop_lt {used : Bool} (htiles : Tiles P root first m (L ++ ⟨u, used⟩ :: R) stale) :
    stop P.Alignment first L + u * P.Alignment < 2 ^ 64 := by
  have hlt := htiles.stop_lt
  rw [List.append_cons, stop_append, stop_concat] at hlt
  exact Nat.lt_of_le_of_lt (le_stop _ _ _) hlt

/-- The first free block behind a block in the middle. -/
theorem Tiles.after_pointer {used : Bool}
    (htiles : Tiles P root first m (L ++ ⟨u, used⟩ :: R) stale) :
    8 ∣ following P root (stop P.Alignment first L + u * P.Alignment) R ∧
      following P root (stop P.Alignment first L + u * P.Alignment) R < 2 ^ 64 := by
  rw [List.append_cons] at htiles
  rw [← stop_concat first L used]
  exact htiles.following_pointer

/-- The size in the header of a free block. -/
theorem Tiles.mid_free_size (htiles : Tiles P root first m (L ++ ⟨u, false⟩ :: R) stale) :
    m_size m (stop P.Alignment first L) = u := by
  refine htiles.free_size _ u ?_
  rw [placed_append]
  exact List.mem_append_right _ List.mem_cons_self

/-- The header of an allocated block. -/
theorem Tiles.mid_used_ctrl (htiles : Tiles P root first m (L ++ ⟨u, true⟩ :: R) stale)
    (hfresh : stop P.Alignment first L ∉ stale) :
    ctrl P m (stop P.Alignment first L) = ⟨0, u⟩ := by
  refine htiles.used_ctrl _ u ?_ hfresh
  rw [placed_append]
  exact List.mem_append_right _ List.mem_cons_self

/-- Allocated blocks are cut anew, by writes among them. -/
theorem Exchange.of_used (htiles : Tiles P root first m (L ++ G ++ R) stale)
    (hG : frees P.Alignment (stop P.Alignment first L) G = [])
    (hG' : frees P.Alignment (stop P.Alignment first L) G' = []) (hunits : units G' = units G)
    (hsizes : ∀ b ∈ G', P.BlockCtrlUnits ≤ b.units)
    (hctrl : ∀ x v, (x, (⟨v, true⟩ : Block)) ∈ placed P.Alignment (stop P.Alignment first L) G' →
      x ∉ stale' → ctrl P m' x = ⟨0, v⟩)
    (hframe : ∀ b, b < stop P.Alignment first L ∨ stop P.Alignment first (L ++ G) ≤ b → m' b = m b) :
    Exchange P root first m m' L G G' R stale' := by
  refine ⟨hunits, hsizes, ?_, ?_, hctrl, fun b _ hb => hframe b hb⟩
  · rw [hG', path_nil]
    have hprev := previous_le htiles.sizes_left htiles.root_before
    have hsame : m_next P m' (previous P root first L) = m_next P m (previous P root first L) := by
      refine P.load_ptr_congr ?_
      intro b _ hb
      exact hframe b (Or.inl (by omega))
    rw [List.append_assoc] at htiles
    rw [hsame, htiles.next_previous, following, following, frees_append, hG, List.nil_append,
      stop_append]
  · intro x v hx
    have hfree : x ∈ frees P.Alignment (stop P.Alignment first L) G' := (mem_frees _).mpr ⟨v, hx⟩
    rw [hG'] at hfree
    cases hfree

section Take

/-- What `priv_check_and_allocate` writes when it takes the whole block. -/
def take_all (P : Traits) (m : Memory) (prev block : Nat) : Memory :=
  set_next P (set_next P m prev (m_next P m block)) block 0

/-- What `priv_check_and_allocate` writes when it splits the block. -/
def take_part (P : Traits) (m : Memory) (nunits prev block : Nat) : Memory :=
  let new_block := block + P.Alignment * nunits
  let mem := set_size m block nunits
  let mem := set_size mem new_block (m_size m block - nunits)
  let mem := set_next P mem new_block (m_next P mem block)
  let mem := set_next P mem prev new_block
  set_next P mem block 0

theorem Exchange.take_all (htiles : Tiles P root first m (L ++ ⟨u, false⟩ :: R) stale)
    (stale' : List Nat) :
    Exchange P root first m
      (take_all P m (previous P root first L) (stop P.Alignment first L)) L [⟨u, false⟩]
      [⟨u, true⟩] R stale' := by
  obtain ⟨hx, _, hprev, hlength, _⟩ := htiles.mid_pointer
  obtain ⟨hafter, hafter'⟩ := htiles.after_pointer
  refine ⟨rfl, ?_, ?_, ?_, ?_, ?_⟩
  · intro b hb
    rw [List.mem_singleton.mp hb]
    exact htiles.sizes ⟨u, false⟩ (by simp)
  · rw [frees_cons_used, frees_nil, path_nil, stop_concat]
    have hctrl : ctrl P (simple_seq_fit_impl.take_all P m (previous P root first L)
        (stop P.Alignment first L)) (previous P root first L) =
          { ctrl P m (previous P root first L) with
            m_next := following P root (stop P.Alignment first L + u * P.Alignment) R } := by
      refine (ctrl_set_next_of_apart (Or.inl hprev)).trans ?_
      rw [htiles.next_free]
      exact ctrl_set_next htiles.previous_pointer hafter hafter'
    exact congrArg block_ctrl.m_next hctrl
  · intro x v hx
    simp [placed] at hx
  · intro x v hx _
    simp only [placed, List.mem_singleton, Prod.mk.injEq, Block.mk.injEq, and_true] at hx
    obtain ⟨rfl, rfl⟩ := hx
    refine (ctrl_set_next (by assumption) (Nat.dvd_zero 8) (by decide)).trans ?_
    rw [ctrl_set_next_of_apart (Or.inr hprev)]
    simp only [ctrl, htiles.mid_free_size]
  · intro b hout hrange
    rw [stop_concat] at hrange
    refine (P.store_ptr_frame (by omega)).trans ?_
    exact P.store_ptr_frame hout

/-- Both parts of a split block have room for a header. -/
theorem split_bounds {n : Nat} (hn : P.BlockCtrlUnits ≤ n) (hu : n + P.BlockCtrlUnits ≤ u) :
    16 ≤ n * P.Alignment ∧ n * P.Alignment + 16 ≤ u * P.Alignment := by
  have hge := P.BlockCtrlBytes_ge
  have hfirst := bytes_ge hn
  have hboth : (n + P.BlockCtrlUnits) * P.Alignment ≤ u * P.Alignment := Nat.mul_le_mul_right _ hu
  rw [Nat.add_mul, P.BlockCtrlUnits_mul] at hboth
  omega

/-- The headers behind a split, and the link in front of it. -/
theorem take_part_ctrl {n prev x : Nat} (hprev : 8 ∣ prev) (hx : 8 ∣ x) (hbefore : prev + 16 ≤ x)
    (hn : 16 ≤ n * P.Alignment) (hlt : x + n * P.Alignment < 2 ^ 64) (hsize : m_size m x < 2 ^ 64)
    (hnext : 8 ∣ m_next P m x ∧ m_next P m x < 2 ^ 64) :
    ctrl P (take_part P m n prev x) x = ⟨0, n⟩ ∧
      ctrl P (take_part P m n prev x) (x + n * P.Alignment) = ⟨m_next P m x, m_size m x - n⟩ ∧
      ctrl P (take_part P m n prev x) prev =
        { ctrl P m prev with m_next := x + n * P.Alignment } := by
  have hy : 8 ∣ x + n * P.Alignment :=
    (Nat.dvd_add_right hx).mpr (Nat.dvd_trans P.eight_dvd_Alignment (Nat.dvd_mul_left _ _))
  have hxy : x + 16 ≤ x + n * P.Alignment := by omega
  have hnlt : n < 2 ^ 64 := by
    have hle : n ≤ n * P.Alignment := Nat.le_mul_of_pos_right _ P.Alignment_pos
    omega
  simp only [take_part, Nat.mul_comm P.Alignment n]
  generalize x + n * P.Alignment = y at *
  have hmid : m_next P (set_size (set_size m x n) y (m_size m x - n)) x = m_next P m x := by
    have hctrl : ctrl P (set_size (set_size m x n) y (m_size m x - n)) x = ctrl P (set_size m x n) x :=
      ctrl_set_size_of_apart (Or.inl hxy)
    rw [ctrl_set_size hnlt] at hctrl
    exact congrArg block_ctrl.m_next hctrl
  rw [hmid]
  refine ⟨?_, ?_, ?_⟩
  · simp (disch := omega) only [ctrl_set_next, ctrl_set_next_of_apart, ctrl_set_size_of_apart,
      ctrl_set_size]
  · simp (disch := omega) only [ctrl_set_next, ctrl_set_next_of_apart, ctrl_set_size]
  · simp (disch := omega) only [ctrl_set_next, ctrl_set_next_of_apart, ctrl_set_size_of_apart]

/-- Outside the block a split writes only the link in front of it. -/
theorem take_part_frame {n prev x b : Nat} (hn : n * P.Alignment + 16 ≤ u * P.Alignment)
    (hout : b < prev ∨ prev + 8 ≤ b) (hrange : b < x ∨ x + u * P.Alignment ≤ b) :
    take_part P m n prev x b = m b := by
  simp only [take_part, Nat.mul_comm P.Alignment n]
  refine (P.store_ptr_frame (by omega)).trans ?_
  refine (P.store_ptr_frame hout).trans ?_
  refine (P.store_ptr_frame (by omega)).trans ?_
  refine (store_outside _ _ (by omega)).trans ?_
  exact store_outside _ _ (by omega)

theorem Exchange.take_part {n : Nat} (htiles : Tiles P root first m (L ++ ⟨u, false⟩ :: R) stale)
    (hn : P.BlockCtrlUnits ≤ n) (hu : n + P.BlockCtrlUnits ≤ u) (stale' : List Nat) :
    Exchange P root first m
      (take_part P m n (previous P root first L) (stop P.Alignment first L)) L [⟨u, false⟩]
      [⟨n, true⟩, ⟨u - n, false⟩] R stale' := by
  obtain ⟨hx, hxle, hprev, hlength, hlt⟩ := htiles.mid_pointer
  obtain ⟨hfirst, hsecond⟩ := split_bounds hn hu
  have hbound := htiles.mid_stop_lt
  have hsum : n * P.Alignment + (u - n) * P.Alignment = u * P.Alignment := by
    rw [← Nat.add_mul, Nat.add_sub_cancel' (by omega)]
  obtain ⟨hctrl, hctrl', hprevctrl⟩ := take_part_ctrl htiles.previous_pointer hx hprev hfirst
    (by omega) (by rw [htiles.mid_free_size]; exact hlt)
    (by rw [htiles.next_free]; exact htiles.after_pointer)
  rw [htiles.mid_free_size, htiles.next_free] at hctrl'
  refine ⟨?_, ?_, ?_, ?_, ?_, ?_⟩
  · simp only [units_cons, units_nil]
    omega
  · intro b hb
    simp only [List.mem_cons, List.not_mem_nil, or_false] at hb
    rcases hb with rfl | rfl
    · exact hn
    · change P.BlockCtrlUnits ≤ u - n
      omega
  · rw [frees_cons_used, frees_cons_free, frees_nil, path_cons, path_nil, stop_concat]
    exact ⟨congrArg block_ctrl.m_next hprevctrl, congrArg block_ctrl.m_next hctrl'⟩
  · intro x v hx
    simp only [placed, List.mem_cons, Prod.mk.injEq, Block.mk.injEq, List.not_mem_nil, or_false,
      and_true, reduceCtorEq, and_false, false_or] at hx
    obtain ⟨rfl, rfl⟩ := hx
    exact congrArg block_ctrl.m_size hctrl'
  · intro x v hx _
    simp only [placed, List.mem_cons, Prod.mk.injEq, Block.mk.injEq, List.not_mem_nil, or_false,
      and_true, reduceCtorEq, and_false] at hx
    obtain ⟨rfl, rfl⟩ := hx
    exact hctrl
  · intro b hout hrange
    rw [stop_concat] at hrange
    exact take_part_frame hsecond hout hrange

end Take

end interprocess.ipcdetail.simple_seq_fit_impl
