import Interprocess.MemAlgo.SimpleSeqFit.Representation

namespace interprocess.ipcdetail.simple_seq_fit_impl

open Memory Tiling LinkedList

variable {P : Traits} {h : Heap} {blocks L R : List Block} {stale : List Nat} {u n : Nat}

/-- A free block became the allocated block of `w` units between `L` and `R`. -/
structure Taken (P : Traits) (first : Nat) (m m' : Memory) (blocks L : List Block) (w : Nat)
    (R : List Block) : Prop where
  units_eq : units (L ++ ⟨w, true⟩ :: R) = units blocks
  used_units : usedUnits (L ++ ⟨w, true⟩ :: R) = w + usedUnits blocks
  useds_perm : (useds P.Alignment first (L ++ ⟨w, true⟩ :: R)).Perm
    (stop P.Alignment first L :: useds P.Alignment first blocks)
  kept : ∀ y v, (y, (⟨v, true⟩ : Block)) ∈ placed P.Alignment first blocks →
    (y, (⟨v, true⟩ : Block)) ∈ placed P.Alignment first (L ++ ⟨w, true⟩ :: R) ∧
      SameOn m' m y (y + v * P.Alignment)

/-- The free block is exchanged for an allocated one and free blocks `G`. -/
theorem Exchange.taken {root first w : Nat} {m m' : Memory} {G : List Block}
    (htiles : Tiles P root first m (L ++ [⟨u, false⟩] ++ R) stale)
    (hex : Exchange P root first m m' L [⟨u, false⟩] (⟨w, true⟩ :: G) R stale)
    (hG : ∀ a, useds P.Alignment a G = []) (hunits : usedUnits G = 0) :
    Taken P first m m' (L ++ [⟨u, false⟩] ++ R) L w (G ++ R) := by
  have hassoc : L ++ ⟨w, true⟩ :: (G ++ R) = L ++ (⟨w, true⟩ :: G) ++ R := by
    simp
  have hstop : stop P.Alignment first (L ++ ⟨w, true⟩ :: G) =
      stop P.Alignment first (L ++ [⟨u, false⟩]) := by
    simp only [stop, units_append, hex.units_eq]
  refine ⟨?_, ?_, ?_, ?_⟩
  · rw [hassoc]
    simp only [units_append, hex.units_eq]
  · rw [hassoc]
    simp only [usedUnits_append, usedUnits_cons, usedUnits_nil, hunits, ↓reduceIte,
      Bool.false_eq_true]
    omega
  · rw [hassoc, useds_append, useds_append, useds_append, useds_append, hstop, useds_cons_used,
      useds_cons_free, useds_nil, hG, List.append_nil, List.append_assoc]
    exact List.perm_middle
  · intro y v hy
    rw [hassoc]
    refine hex.kept htiles hy ?_
    rw [useds_cons_free, useds_nil]
    exact List.not_mem_nil

theorem priv_check_and_allocate_part (prev block received : Nat)
    (hlt : n + P.BlockCtrlUnits < m_size h.mem block) :
    ∃ received', priv_check_and_allocate P h n prev block received =
      ({ h with
          m_allocated := h.m_allocated +
            m_size (take_part P h.mem n prev block) block * P.Alignment
          mem := take_part P h.mem n prev block },
        priv_get_user_buffer P block, received') := by
  simp only [priv_check_and_allocate, if_pos hlt, take_part, m_size_set_next]
  exact ⟨_, rfl⟩

theorem priv_check_and_allocate_all (prev block received : Nat) (hle : n ≤ m_size h.mem block)
    (hge : m_size h.mem block ≤ n + P.BlockCtrlUnits) :
    ∃ received', priv_check_and_allocate P h n prev block received =
      ({ h with
          m_allocated := h.m_allocated + m_size (take_all P h.mem prev block) block * P.Alignment
          mem := take_all P h.mem prev block },
        priv_get_user_buffer P block, received') := by
  simp only [priv_check_and_allocate, if_neg (Nat.not_lt.mpr hge), if_pos hle, take_all,
    m_size_set_next]
  exact ⟨_, rfl⟩

/-- The heap after an exchange of a free block for an allocated one. -/
theorem Segment.take {w : Nat} {mem : Memory} {G : List Block}
    (hseg : Segment P h (L ++ ⟨u, false⟩ :: R) stale)
    (hex : ∀ stale', Exchange P (root P h) (first_block P h) h.mem mem L [⟨u, false⟩]
      (⟨w, true⟩ :: G) R stale')
    (hG : ∀ a, useds P.Alignment a G = []) (hunits : usedUnits G = 0) :
    Segment P { h with
        m_allocated := h.m_allocated +
          m_size mem (stop P.Alignment (first_block P h) L) * P.Alignment
        mem := mem } (L ++ ⟨w, true⟩ :: (G ++ R)) stale ∧
      Taken P (first_block P h) h.mem mem (L ++ ⟨u, false⟩ :: R) L w (G ++ R) := by
  have hsize : m_size mem (stop P.Alignment (first_block P h) L) = w :=
    congrArg block_ctrl.m_size ((hex []).used_ctrl _ w List.mem_cons_self List.not_mem_nil)
  have htiles := hseg.tiles
  have hcons : L ++ ⟨u, false⟩ :: R = L ++ [⟨u, false⟩] ++ R := by
    simp
  rw [hcons] at htiles
  have htaken := (hex stale).taken htiles hG hunits
  have htiles' := htiles.exchange (hex stale) fun y hy => Or.inl hy
  rw [List.append_assoc, List.cons_append] at htiles'
  rw [← hcons] at htaken
  refine ⟨Segment.of_tiles htiles' ?_ hseg.this_aligned hseg.nonempty ?_, htaken⟩
  · rw [htaken.used_units, Nat.add_mul, hseg.allocated, hsize]
    omega
  · rw [stop, htaken.units_eq]
    exact hseg.stop_eq

/-- `priv_check_and_allocate` takes at least the units it is asked for. -/
theorem priv_check_and_allocate_spec (hseg : Segment P h (L ++ ⟨u, false⟩ :: R) stale)
    (hn : P.BlockCtrlUnits ≤ n) (hu : n ≤ u) (received : Nat) :
    ∃ allocated mem received' w R',
      priv_check_and_allocate P h n (previous P (root P h) (first_block P h) L)
          (stop P.Alignment (first_block P h) L) received =
        ({ h with m_allocated := allocated, mem := mem },
          priv_get_user_buffer P (stop P.Alignment (first_block P h) L), received') ∧
      n ≤ w ∧
      Segment P { h with m_allocated := allocated, mem := mem } (L ++ ⟨w, true⟩ :: R') stale ∧
      Taken P (first_block P h) h.mem mem (L ++ ⟨u, false⟩ :: R) L w R' ∧
      (Coalesced L → Coalesced (⟨u, false⟩ :: R) → Coalesced (L ++ ⟨w, true⟩ :: R')) := by
  have hsize := hseg.tiles.mid_free_size
  by_cases hsplit : n + P.BlockCtrlUnits < u
  · obtain ⟨hseg', htaken⟩ := hseg.take
      (Exchange.take_part hseg.tiles hn (Nat.le_of_lt hsplit)) (fun _ => rfl) rfl
    rw [← hsize] at hsplit
    obtain ⟨received', hanswer⟩ := priv_check_and_allocate_part (P := P)
      (previous P (root P h) (first_block P h) L) _ received hsplit
    exact ⟨_, _, received', n, _, hanswer, Nat.le_refl n, hseg', htaken,
      fun hL hR => coalesced_used hL hR.resize⟩
  · obtain ⟨hseg', htaken⟩ := hseg.take (Exchange.take_all hseg.tiles) (fun _ => rfl) rfl
    have hle : n ≤ m_size h.mem (stop P.Alignment (first_block P h) L) := by
      rw [hsize]
      exact hu
    obtain ⟨received', hanswer⟩ := priv_check_and_allocate_all (P := P)
      (previous P (root P h) (first_block P h) L) _ received hle (by omega)
    exact ⟨_, _, received', u, _, hanswer, hu, hseg', htaken,
      fun hL hR => coalesced_used hL hR.tail⟩

theorem priv_check_and_allocate_fits (prev block received : Nat) (hle : n ≤ m_size h.mem block) :
    ∃ h' received', priv_check_and_allocate P h n prev block received =
      (h', priv_get_user_buffer P block, received') := by
  by_cases hlt : n + P.BlockCtrlUnits < m_size h.mem block
  · obtain ⟨received', hanswer⟩ := priv_check_and_allocate_part prev block received hlt
    exact ⟨_, received', hanswer⟩
  · obtain ⟨received', hanswer⟩ := priv_check_and_allocate_all prev block received hle
      (Nat.not_lt.mp hlt)
    exact ⟨_, received', hanswer⟩

theorem priv_check_and_allocate_none {prev block : Nat} (received : Nat)
    (hlt : m_size h.mem block < n) :
    priv_check_and_allocate P h n prev block received = (h, 0, received) := by
  simp only [priv_check_and_allocate]
  rw [if_neg (by omega), if_neg (by omega)]

section FirstFit

/-- The biggest block, once there is one, is a free block with the one in front of
    it. -/
def Biggest.Valid (P : Traits) (h : Heap) (blocks : List Block) (biggest : Biggest) : Prop :=
  biggest.biggest_block = 0 ∨ ∃ L u R, blocks = L ++ ⟨u, false⟩ :: R ∧
    biggest.prev_biggest_block = previous P (root P h) (first_block P h) L ∧
    biggest.biggest_block = stop P.Alignment (first_block P h) L

theorem Biggest.Valid.update {biggest : Biggest}
    (hvalid : biggest.Valid P h (L ++ ⟨u, false⟩ :: R)) :
    (biggest.update h.mem (previous P (root P h) (first_block P h) L)
      (stop P.Alignment (first_block P h) L)).Valid P h (L ++ ⟨u, false⟩ :: R) := by
  unfold Biggest.update
  split_ifs
  · exact Or.inr ⟨L, u, R, rfl, rfl, rfl⟩
  · exact hvalid

/-- The loop of `priv_allocate` takes a free block with the units, or comes to the
    end with the biggest one. -/
theorem first_fit_spec (hrep : Rep P h blocks stale) {xs ys : List Nat} (biggest : Biggest)
    (fuel : Nat) (hfrees : frees P.Alignment (first_block P h) blocks = xs ++ ys)
    (hvalid : biggest.Valid P h blocks) (hfuel : ys.length < fuel) :
    (∃ biggest', biggest'.Valid P h blocks ∧
      first_fit P h n fuel (xs.getLastD (root P h)) (ys.headD (root P h)) biggest =
        some (h, 0, 0, biggest')) ∨
    ∃ h' received biggest' L u R, blocks = L ++ ⟨u, false⟩ :: R ∧ n ≤ u ∧
      priv_check_and_allocate P h n (previous P (root P h) (first_block P h) L)
          (stop P.Alignment (first_block P h) L) 0 =
        (h', priv_get_user_buffer P (stop P.Alignment (first_block P h) L), received) ∧
      first_fit P h n fuel (xs.getLastD (root P h)) (ys.headD (root P h)) biggest =
        some (h', priv_get_user_buffer P (stop P.Alignment (first_block P h) L), received,
          biggest') := by
  induction ys generalizing xs biggest fuel with
  | nil =>
    left
    cases fuel with
    | zero => cases hfuel
    | succ fuel =>
      refine ⟨biggest, hvalid, ?_⟩
      rw [List.headD_nil, first_fit, if_pos rfl]
  | cons y ys ih =>
    cases fuel with
    | zero => cases hfuel
    | succ fuel =>
      have hy : y ∈ frees P.Alignment (first_block P h) blocks := by
        rw [hfrees]
        exact List.mem_append_right _ List.mem_cons_self
      have hbounds := hrep.tiles.free_bounds hy
      obtain ⟨L, u, R, rfl, hxs, rfl⟩ := exists_of_frees_eq _ hfrees
      have hsize := hrep.tiles.mid_free_size
      have hprev : xs.getLastD (root P h) = previous P (root P h) (first_block P h) L := by
        rw [previous, hxs]
      rw [List.headD_cons, first_fit, if_neg (by omega), if_neg (by omega), hprev]
      by_cases hfits : n ≤ u
      · right
        have hle : n ≤ m_size h.mem (stop P.Alignment (first_block P h) L) := by
          rw [hsize]
          exact hfits
        obtain ⟨h', received, hanswer⟩ := priv_check_and_allocate_fits (P := P)
          (previous P (root P h) (first_block P h) L) _ 0 hle
        refine ⟨h', received, biggest.update h.mem (previous P (root P h) (first_block P h) L)
          (stop P.Alignment (first_block P h) L), L, u, R, rfl, hfits, hanswer, ?_⟩
        simp only [hanswer]
        exact if_pos (user_buffer_ne_zero P _)
      · rw [priv_check_and_allocate_none 0 (by omega)]
        have hrest : frees P.Alignment (first_block P h) (L ++ ⟨u, false⟩ :: R) =
            (xs ++ [stop P.Alignment (first_block P h) L]) ++ ys := by
          rw [hfrees, List.append_cons]
        have hnext : m_next P h.mem (stop P.Alignment (first_block P h) L) =
            ys.headD (root P h) := by
          have hpath := hrep.tiles.path
          rw [hfrees, path_append] at hpath
          exact (hpath.2 _ _ rfl).next_eq
        have hlast : (xs ++ [stop P.Alignment (first_block P h) L]).getLastD (root P h) =
            stop P.Alignment (first_block P h) L := by
          rw [getLastD_append]
          rfl
        have hloop := ih _ _ hrest hvalid.update (Nat.lt_of_succ_lt_succ hfuel)
        rw [hlast, ← hnext] at hloop
        exact hloop

/-- The answer of `sequential_fit` after its loop. -/
theorem sequential_fit_of_found {limit_size preferred_size received addr : Nat} {h' : Heap}
    {biggest : Biggest}
    (hloop : first_fit P h (ceil_units P preferred_size + P.BlockCtrlUnits) (h.m_size + 1) (root P h)
      (m_next P h.mem (root P h)) ⟨0, 0, 0⟩ = some (h', addr, received, biggest))
    (haddr : addr ≠ 0) : sequential_fit P h limit_size preferred_size = some (h', addr, received) := by
  unfold ceil_units at hloop
  simp only [sequential_fit]
  rw [hloop]
  exact if_pos haddr

theorem sequential_fit_of_end (limit_size : Nat) {preferred_size : Nat} {biggest : Biggest}
    (hloop : first_fit P h (ceil_units P preferred_size + P.BlockCtrlUnits) (h.m_size + 1) (root P h)
      (m_next P h.mem (root P h)) ⟨0, 0, 0⟩ = some (h, 0, 0, biggest)) :
    sequential_fit P h limit_size preferred_size = some (h, 0, 0) ∨
      biggest.biggest_block ≠ 0 ∧
      ceil_units P limit_size + P.BlockCtrlUnits ≤ m_size h.mem biggest.biggest_block ∧
      ∃ received, sequential_fit P h limit_size preferred_size =
        some (priv_check_and_allocate P h (m_size h.mem biggest.biggest_block)
          biggest.prev_biggest_block biggest.biggest_block received) := by
  unfold ceil_units at hloop
  simp only [sequential_fit, ceil_units]
  rw [hloop]
  simp only [Option.bind_eq_bind, Option.bind_some, ne_eq, not_true_eq_false, ↓reduceIte]
  split_ifs with hzero hlimit
  · exact Or.inl rfl
  · exact Or.inl rfl
  · exact Or.inr ⟨hzero, Nat.not_lt.mp hlimit, _, rfl⟩

/-- The first block with the preferred units is taken, or the biggest one if it
    has the limit units, or nothing changes. -/
theorem sequential_fit_spec (hrep : Rep P h blocks stale) (limit_size preferred_size : Nat) :
    sequential_fit P h limit_size preferred_size = some (h, 0, 0) ∨
    ∃ allocated mem received L w R,
      sequential_fit P h limit_size preferred_size =
        some ({ h with m_allocated := allocated, mem := mem },
          priv_get_user_buffer P (stop P.Alignment (first_block P h) L), received) ∧
      (ceil_units P preferred_size + P.BlockCtrlUnits ≤ w ∨
        ceil_units P limit_size + P.BlockCtrlUnits ≤ w) ∧
      Rep P { h with m_allocated := allocated, mem := mem } (L ++ ⟨w, true⟩ :: R) stale ∧
      Taken P (first_block P h) h.mem mem blocks L w R := by
  have hfrees : frees P.Alignment (first_block P h) blocks =
      [] ++ frees P.Alignment (first_block P h) blocks := rfl
  have hnext : m_next P h.mem (root P h) =
      (frees P.Alignment (first_block P h) blocks).headD (root P h) := hrep.tiles.path.next_eq
  rcases first_fit_spec (n := ceil_units P preferred_size + P.BlockCtrlUnits) hrep ⟨0, 0, 0⟩
    (h.m_size + 1) hfrees (Or.inl rfl) (Nat.lt_succ_of_le hrep.frees_length_le) with
    ⟨biggest, hvalid, hloop⟩ | ⟨h', received, biggest, L, u, R, rfl, hu, hanswer, hloop⟩
  · rw [← hnext] at hloop
    rcases sequential_fit_of_end limit_size hloop with hnone | ⟨hne, hlimit, received, hfit⟩
    · exact Or.inl hnone
    · right
      rcases hvalid with hzero | ⟨L, u, R, rfl, hprev, hbiggest⟩
      · exact absurd hzero hne
      · rw [hprev, hbiggest, hrep.tiles.mid_free_size] at hfit
        rw [hbiggest, hrep.tiles.mid_free_size] at hlimit
        obtain ⟨allocated, mem, received', w, R', hanswer, hw, hseg, htaken, hcoalesced⟩ :=
          priv_check_and_allocate_spec hrep.toSegment (by omega) (Nat.le_refl u) received
        refine ⟨allocated, mem, received', L, w, R', ?_, Or.inr (Nat.le_trans hlimit hw),
          ⟨hseg, hcoalesced hrep.coalesced.left hrep.coalesced.right⟩, htaken⟩
        rw [hfit, hanswer]
  · rw [← hnext] at hloop
    right
    obtain ⟨allocated, mem, received', w, R', hanswer', hw, hseg, htaken, hcoalesced⟩ :=
      priv_check_and_allocate_spec hrep.toSegment (Nat.le_add_left _ _) hu 0
    rw [hanswer] at hanswer'
    obtain ⟨rfl, hrest⟩ := Prod.mk.inj hanswer'
    exact ⟨allocated, mem, received, L, w, R', sequential_fit_of_found hloop
      (user_buffer_ne_zero P _), Or.inl hw,
      ⟨hseg, hcoalesced hrep.coalesced.left hrep.coalesced.right⟩, htaken⟩

end FirstFit

end interprocess.ipcdetail.simple_seq_fit_impl
