import Interprocess.MemAlgo.SimpleSeqFit.Requests

namespace interprocess.ipcdetail.simple_seq_fit_impl

open Memory Tiling LinkedList

variable {P : Traits} {h : Heap} {blocks L R : List Block} {stale live chain : List Nat}
  {sized : List (Nat × Nat)} {u w x n : Nat} {mem : Memory}

/-- The bytes that are not in a buffer. -/
def OutsideBuffers (P : Traits) (first : Nat) (blocks : List Block) (b : Nat) : Prop :=
  ∀ x v, (x, (⟨v, true⟩ : Block)) ∈ placed P.Alignment first blocks →
    b < priv_get_user_buffer P x ∨ x + v * P.Alignment ≤ b

theorem OutsideBuffers.header {first y b : Nat} {c : Block}
    (hsizes : ∀ b ∈ blocks, P.BlockCtrlUnits ≤ b.units)
    (hy : (y, c) ∈ placed P.Alignment first blocks) (hlo : y ≤ b) (hhi : b < y + 16) :
    OutsideBuffers P first blocks b := by
  intro x v hx
  have hlength := length_ge hsizes hy
  have hge := P.BlockCtrlBytes_ge
  change b < x + P.BlockCtrlBytes ∨ _
  rcases placed_apart _ hy hx with ⟨rfl, _⟩ | hapart | hapart
  · omega
  · omega
  · right
    exact Nat.le_trans hapart hlo

theorem OutsideBuffers.root {root first b : Nat} (hbefore : root + 16 ≤ first)
    (hb : b < root + 16) : OutsideBuffers P first blocks b := by
  intro x v hx
  have hle := (mem_placed_bounds _ hx).1
  left
  change b < x + P.BlockCtrlBytes
  omega

/-- What clients write into their buffers does not touch the headers. -/
theorem Tiles.user_write {root first : Nat} {m : Memory} (htiles : Tiles P root first m blocks stale)
    (hframe : ∀ b, OutsideBuffers P first blocks b → mem b = m b) :
    Tiles P root first mem blocks stale := by
  refine htiles.same_headers ?_ ?_
  · exact fun b _ hhi => hframe b (OutsideBuffers.root htiles.root_before hhi)
  · exact fun y c hy b hlo hhi => hframe b (OutsideBuffers.header htiles.sizes hy hlo hhi)

theorem Owned.user_write (howned : Owned P h blocks stale live sized)
    (hframe : ∀ b, OutsideBuffers P (first_block P h) blocks b → mem b = h.mem b) :
    Owned P { h with mem := mem } blocks stale live sized :=
  ⟨⟨Segment.of_tiles (howned.tiles.user_write hframe) howned.allocated howned.this_aligned howned.nonempty
    howned.stop_eq, howned.coalesced⟩, howned.live_perm, howned.sized_placed⟩

/-- The buffers of the chain have room for a link. -/
def ChainRoom (P : Traits) (sized : List (Nat × Nat)) (chain : List Nat) : Prop :=
  ∀ p ∈ chain, ∃ x v, (x, v) ∈ sized ∧ p = priv_get_user_buffer P x ∧ P.BlockCtrlUnits < v

/-- The links of a chain are written into its buffers. -/
theorem Owned.write_links (howned : Owned P h blocks stale live sized)
    (hroom : ChainRoom P sized chain) :
    Owned P { h with mem := P.write_links h.mem chain } blocks stale live sized := by
  refine howned.user_write fun b hb => P.write_links_frame h.mem chain b ?_
  intro p hp
  obtain ⟨x, v, hx, rfl, hv⟩ := hroom p hp
  have hlength : P.BlockCtrlBytes + 8 ≤ v * P.Alignment := by
    have hmul : (P.BlockCtrlUnits + 1) * P.Alignment ≤ v * P.Alignment :=
      Nat.mul_le_mul_right _ hv
    have height := Nat.le_of_dvd P.Alignment_pos P.eight_dvd_Alignment
    rw [Nat.succ_mul, P.BlockCtrlUnits_mul] at hmul
    omega
  rcases hb x v (howned.sized_placed x v hx) with hlo | hhi
  · exact Or.inl hlo
  · right
    change x + P.BlockCtrlBytes + 8 ≤ b
    omega

section Elements

variable (P) (sizeof_element elem_size : Nat)

theorem priv_get_total_units_eight : priv_get_total_units P 8 = P.BlockCtrlUnits + 1 := by
  have height := Nat.le_of_dvd P.Alignment_pos P.eight_dvd_Alignment
  have hlt : P.Alignment < 2 ^ 64 := Nat.pow_lt_pow_right (by decide) P.alignment_lt
  have hrounded : get_rounded_size 8 P.Alignment = P.Alignment := by
    rw [get_rounded_size, size_sub_of_le (by decide) (by decide), Nat.div_eq_of_lt (by omega),
      Nat.zero_add, Nat.one_mul, Nat.mod_eq_of_lt hlt]
  simp only [priv_get_total_units, hrounded, Nat.div_self P.Alignment_pos]
  rfl

/-- The units of an element are those of its bytes: a link has always room. -/
theorem elem_units_eq : ∃ k, 0 < k ∧ k * P.Alignment < 2 ^ 64 ∧
    elem_units P sizeof_element elem_size = P.BlockCtrlUnits + k ∧
    priv_get_total_units P (elem_bytes sizeof_element elem_size) = P.BlockCtrlUnits + k := by
  have hlt : P.Alignment < 2 ^ 64 := Nat.pow_lt_pow_right (by decide) P.alignment_lt
  simp only [elem_units, priv_get_total_units_eight]
  simp only [priv_get_total_units]
  generalize hs : get_rounded_size (elem_bytes sizeof_element elem_size) P.Alignment / P.Alignment = s
  split_ifs with hzero
  · exact ⟨1, Nat.one_pos, by rwa [Nat.one_mul], Nat.max_self _, rfl⟩
  · refine ⟨s, Nat.pos_of_ne_zero hzero, ?_, Nat.max_eq_right (by omega), rfl⟩
    rw [← hs]
    exact Nat.lt_of_le_of_lt (Nat.div_mul_le_self _ _) (Nat.mod_lt _ (by decide))

end Elements

theorem Owned.perm_live {live' : List Nat} (howned : Owned P h blocks stale live sized)
    (hperm : live'.Perm live) : Owned P h blocks stale live' sized :=
  { howned with live_perm := hperm.trans howned.live_perm }

theorem Owned.weaken (howned : Owned P h blocks [] live sized) (stale : List Nat) :
    Owned P h blocks stale live sized :=
  { howned with tiles := { howned.tiles with
      used_ctrl := fun y v hy _ => howned.tiles.used_ctrl y v hy List.not_mem_nil } }

/-- The header of an element cuts it off the rest of the block, which has no header
    then. -/
theorem Rep.cut_first (hrep : Rep P h (L ++ ⟨u + w, true⟩ :: R) stale)
    (hstale : ∀ y ∈ stale, y = stop P.Alignment (first_block P h) L)
    (hu : P.BlockCtrlUnits ≤ u) (hw : P.BlockCtrlUnits ≤ w) :
    Rep P { h with mem := write_header P h.mem (stop P.Alignment (first_block P h) L) u }
      (L ++ ⟨u, true⟩ :: ⟨w, true⟩ :: R)
      [stop P.Alignment (first_block P h) L + u * P.Alignment] := by
  obtain ⟨hx, _, _, _, hlt⟩ := hrep.tiles.mid_pointer
  obtain ⟨hfirst, hsecond⟩ := split_bounds (u := u + w) hu (by omega)
  have htiles := hrep.tiles
  rw [List.append_cons] at htiles
  have hex : Exchange P (root P h) (first_block P h) h.mem
      (write_header P h.mem (stop P.Alignment (first_block P h) L) u) L [⟨u + w, true⟩]
        [⟨u, true⟩, ⟨w, true⟩] R [stop P.Alignment (first_block P h) L + u * P.Alignment] := by
    refine Exchange.of_used htiles rfl rfl ?_ ?_ ?_ ?_
    · simp only [units_cons, units_nil]
      omega
    · intro b hb
      simp only [List.mem_cons, List.not_mem_nil, or_false] at hb
      rcases hb with rfl | rfl
      · exact hu
      · exact hw
    · intro y v hy hfresh
      simp only [placed, List.mem_cons, Prod.mk.injEq, Block.mk.injEq, List.not_mem_nil, or_false,
        and_true] at hy
      rcases hy with ⟨rfl, rfl⟩ | ⟨rfl, rfl⟩
      · exact write_header_ctrl hx (by omega)
      · exact absurd (List.mem_singleton_self _) hfresh
    · intro b hb
      rw [stop_concat] at hb
      exact write_header_frame (by omega)
  have htiles' := htiles.exchange hex (by
    intro y hy
    right
    rw [stop_concat, hstale y hy]
    omega)
  rw [List.append_assoc, List.cons_append, List.singleton_append] at htiles'
  refine ⟨Segment.of_tiles htiles' ?_ hrep.this_aligned hrep.nonempty ?_, ?_⟩
  · rw [hrep.allocated]
    simp only [usedUnits_append, usedUnits_cons, ↓reduceIte]
    congr 1
    omega
  · rw [← hrep.stop_eq]
    simp only [stop, units_append, units_cons]
    congr 2
    omega
  · have hright := coalesced_used (w := w) List.isChain_nil hrep.coalesced.right.tail
    exact coalesced_used hrep.coalesced.left hright

/-- An element that takes what is left of the block. -/
theorem Owned.refresh (howned : Owned P h (L ++ ⟨w, true⟩ :: R)
      [stop P.Alignment (first_block P h) L] live sized) :
    Owned P { h with mem := write_header P h.mem (stop P.Alignment (first_block P h) L) w }
      (L ++ ⟨w, true⟩ :: R) [] live ((stop P.Alignment (first_block P h) L, w) :: sized) := by
  refine ⟨howned.toRep.refresh fun y hy => List.mem_singleton.mp hy, howned.live_perm, ?_⟩
  intro y v hy
  rcases List.mem_cons.mp hy with heq | hy
  · obtain ⟨rfl, rfl⟩ := Prod.mk.inj heq
    exact mem_placed_mid _ _ _ L R
  · exact howned.sized_placed y v hy

section Element

variable (hsized : ∀ y v, (y, v) ∈ sized → priv_get_user_buffer P y ∈ live)

include hsized

/-- An element in front of others. -/
theorem Owned.cut_first (howned : Owned P h (L ++ ⟨u + w, true⟩ :: R)
      [stop P.Alignment (first_block P h) L]
      (priv_get_user_buffer P (stop P.Alignment (first_block P h) L) :: live) sized)
    (hu : P.BlockCtrlUnits ≤ u) (hw : P.BlockCtrlUnits ≤ w) :
    Owned P { h with mem := write_header P h.mem (stop P.Alignment (first_block P h) L) u }
      (L ++ [⟨u, true⟩] ++ ⟨w, true⟩ :: R)
      [stop P.Alignment (first_block P h) (L ++ [⟨u, true⟩])]
      (priv_get_user_buffer P (stop P.Alignment (first_block P h) (L ++ [⟨u, true⟩])) ::
        priv_get_user_buffer P (stop P.Alignment (first_block P h) L) :: live)
      ((stop P.Alignment (first_block P h) L, u) :: sized) := by
  have hrep := howned.toRep.cut_first (fun y hy => List.mem_singleton.mp hy) hu hw
  have hkept := kept_exchange (b := ⟨u + w, true⟩) (G := [⟨u, true⟩, ⟨w, true⟩]) P.Alignment
    (first_block P h) L R (by simp only [units_cons, units_nil]; omega)
  have hperm := useds_split_perm (P := P) (k := u) (u := u + w) (first_block P h) L R
    (Nat.le_add_right u w)
  rw [Nat.add_sub_cancel_left] at hperm
  rw [stop_concat]
  rw [List.append_cons] at hrep
  refine ⟨hrep, ?_, ?_⟩
  · have hmap := hperm.map (priv_get_user_buffer P)
    rw [List.map_cons] at hmap
    exact (howned.live_perm.cons _).trans hmap.symm
  · intro y v hy
    rcases List.mem_cons.mp hy with heq | hy
    · obtain ⟨rfl, rfl⟩ := Prod.mk.inj heq
      rw [List.append_assoc]
      exact mem_placed_mid _ _ _ L _
    · have hne : y ≠ stop P.Alignment (first_block P h) L := by
        rintro rfl
        exact (List.nodup_cons.mp howned.live_nodup).1 (hsized _ v hy)
      have hplaced := hkept y v (howned.sized_placed y v hy) hne
      rw [List.append_assoc] at hplaced ⊢
      exact hplaced

/-- The last element of a block. -/
theorem fill_last_spec (total_used_units : Nat) {units : Nat} (howned : Owned P h (L ++ ⟨w, true⟩ :: R)
      [stop P.Alignment (first_block P h) L]
      (priv_get_user_buffer P (stop P.Alignment (first_block P h) L) :: live) sized)
    (hunits : P.BlockCtrlUnits ≤ units) (hw : units ≤ w) :
    ∃ allocated mem received_units blocks v,
      fill_last P h (stop P.Alignment (first_block P h) L) units total_used_units
          (total_used_units + w) =
        some ({ h with m_allocated := allocated, mem := mem }, received_units) ∧
      units ≤ v ∧ received_units ≤ total_used_units + v ∧
      Owned P { h with m_allocated := allocated, mem := mem } blocks []
        (priv_get_user_buffer P (stop P.Alignment (first_block P h) L) :: live)
        ((stop P.Alignment (first_block P h) L, v) :: sized) := by
  have hfresh := howned.refresh
  obtain ⟨_, _, _, _, hlt⟩ := howned.tiles.mid_pointer
  have hlength := howned.tiles.mid_stop_lt
  simp only [fill_last, Nat.add_sub_cancel_left]
  generalize write_header P h.mem (stop P.Alignment (first_block P h) L) w = mem₀ at *
  split_ifs with hroom
  · have hceil : ceil_units P (units * P.Alignment - P.AllocatedCtrlBytes) + P.BlockCtrlUnits =
        units := by
      have hbytes : units * P.Alignment - P.AllocatedCtrlBytes =
          (units - P.BlockCtrlUnits) * P.Alignment := by
        rw [Nat.sub_mul, P.BlockCtrlUnits_mul]
        rfl
      have hle : (units - P.BlockCtrlUnits) * P.Alignment ≤ w * P.Alignment :=
        Nat.mul_le_mul_right _ (by omega)
      rw [hbytes, ceil_units_mul (by omega)]
      omega
    rcases shrink_spec hfresh.toRep (fun _ => List.not_mem_nil)
      (units * P.Alignment - P.AllocatedCtrlBytes) (units * P.Alignment - P.AllocatedCtrlBytes) with
      ⟨success, received, hanswer⟩ |
      ⟨allocated, mem, received, blocks, hanswer, hrep, hplaced, hkept, hperm⟩
    · simp only [first_block_update] at hanswer
      rw [hanswer]
      exact ⟨_, _, _, _, w, rfl, hw, by omega, hfresh⟩
    · simp only [first_block_update, hceil] at hanswer hplaced hkept hperm
      rw [hanswer]
      refine ⟨_, _, _, blocks, units, rfl, Nat.le_refl _, by omega, hrep, ?_, ?_⟩
      · exact howned.live_perm.trans (hperm.map _).symm
      · intro y v hy
        rcases List.mem_cons.mp hy with heq | hy
        · obtain ⟨rfl, rfl⟩ := Prod.mk.inj heq
          exact hplaced
        · refine hkept y v (howned.sized_placed y v hy) ?_
          rintro rfl
          exact (List.nodup_cons.mp howned.live_nodup).1 (hsized _ v hy)
  · exact ⟨_, _, _, _, w, rfl, hw, Nat.le_refl _, hfresh⟩

end Element

theorem fill_done {sizeof_element block_address total_used_units received_units total : Nat}
    (hle : received_units ≤ total_used_units) (rest : List Nat) :
    fill P sizeof_element h block_address total_used_units received_units total chain rest =
      some ⟨h, total, chain, rest⟩ := by
  cases rest with
  | nil => rfl
  | cons elem_size rest => simp only [fill, if_pos (Or.inl hle)]

/-- The buffers of blocks with known units. -/
def buffers (P : Traits) (sized : List (Nat × Nat)) : List Nat :=
  sized.map fun p => priv_get_user_buffer P p.1

/-- The blocks `added` were made for the first elements of `rest`, and their buffers
    stand at the end of the chain. -/
structure Filled (P : Traits) (sizeof_element : Nat) (live : List Nat) (sized : List (Nat × Nat))
    (chain rest : List Nat) (added : List (Nat × Nat)) (f : Filling) : Prop where
  elements : ∃ elems, rest = elems ++ f.rest ∧
    List.Forall₂ (fun elem p => elem_units P sizeof_element elem ≤ p.2) elems added
  chain_eq : f.chain = chain ++ buffers P added
  holds : Holds P f.heap (buffers P added ++ live) (added ++ sized)

theorem Holds.congr {live' : List Nat} {sized' : List (Nat × Nat)} (hholds : Holds P h live sized)
    (hlive : live'.Perm live) (hsized : ∀ p ∈ sized', p ∈ sized) : Holds P h live' sized' := by
  obtain ⟨blocks, howned⟩ := hholds
  exact ⟨blocks, howned.toRep, hlive.trans howned.live_perm,
    fun y v hy => howned.sized_placed y v (hsized _ hy)⟩

theorem Filled.refl (sizeof_element : Nat) {f : Filling} (hholds : Holds P f.heap live sized) :
    Filled P sizeof_element live sized f.chain f.rest [] f :=
  ⟨⟨[], rfl, List.Forall₂.nil⟩, (List.append_nil _).symm, hholds⟩

/-- Elements in front of those that were filled. -/
theorem Filled.prepend {sizeof_element : Nat} {elems rest : List Nat}
    {added added' : List (Nat × Nat)} {f : Filling}
    (hunits : List.Forall₂ (fun elem p => elem_units P sizeof_element elem ≤ p.2) elems added)
    (hfilled : Filled P sizeof_element (buffers P added ++ live) (added ++ sized)
      (chain ++ buffers P added) rest added' f) :
    Filled P sizeof_element live sized chain (elems ++ rest) (added ++ added') f := by
  obtain ⟨elems', hrest', hunits'⟩ := hfilled.elements
  have hbuffers : buffers P (added ++ added') = buffers P added ++ buffers P added' :=
    List.map_append
  refine ⟨⟨elems ++ elems', ?_, List.rel_append hunits hunits'⟩, ?_, hfilled.holds.congr ?_ ?_⟩
  · rw [hrest', List.append_assoc]
  · rw [hfilled.chain_eq, hbuffers, List.append_assoc]
  · rw [hbuffers, List.append_assoc]
    exact List.perm_append_comm_assoc _ _ _
  · intro p hp
    simp only [List.mem_append] at hp ⊢
    rcases hp with (hp | hp) | hp
    · exact Or.inr (Or.inl hp)
    · exact Or.inl hp
    · exact Or.inr (Or.inr hp)

theorem sized_live_append (added : List (Nat × Nat))
    (hsized : ∀ y v, (y, v) ∈ sized → priv_get_user_buffer P y ∈ live) :
    ∀ y v, (y, v) ∈ added ++ sized → priv_get_user_buffer P y ∈ buffers P added ++ live := by
  intro y v hy
  rcases List.mem_append.mp hy with hy | hy
  · exact List.mem_append_left _ (List.mem_map.mpr ⟨(y, v), hy, rfl⟩)
  · exact List.mem_append_right _ (hsized y v hy)

theorem room_of_elements {sizeof_element : Nat} {elems : List Nat} {added : List (Nat × Nat)}
    (hunits : List.Forall₂ (fun elem p => elem_units P sizeof_element elem ≤ p.2) elems added) :
    ∀ p ∈ added, P.BlockCtrlUnits < p.2 := by
  induction hunits with
  | nil => exact fun _ hp => nomatch hp
  | @cons elem q _ _ hq _ ih =>
    obtain ⟨k, hk, _, hunits, _⟩ := elem_units_eq P sizeof_element elem
    intro p hp
    rcases List.mem_cons.mp hp with rfl | hp
    · omega
    · exact ih p hp

/-- The new buffers have room for their links. -/
theorem Filled.chain_room {sizeof_element : Nat} {rest : List Nat} {added : List (Nat × Nat)}
    {f : Filling} (hfilled : Filled P sizeof_element live sized chain rest added f)
    (hroom : ChainRoom P sized chain) : ChainRoom P (added ++ sized) f.chain := by
  obtain ⟨elems, _, hunits⟩ := hfilled.elements
  intro p hp
  rw [hfilled.chain_eq] at hp
  rcases List.mem_append.mp hp with hp | hp
  · obtain ⟨x, v, hx, hptr, hv⟩ := hroom p hp
    exact ⟨x, v, List.mem_append_right _ hx, hptr, hv⟩
  · obtain ⟨⟨x, v⟩, hx, rfl⟩ := List.mem_map.mp hp
    exact ⟨x, v, List.mem_append_left _ hx, rfl, room_of_elements hunits (x, v) hx⟩

theorem ChainRoom.concat {v : Nat} (hroom : ChainRoom P sized chain) (hv : P.BlockCtrlUnits < v) :
    ChainRoom P ((x, v) :: sized) (chain ++ [priv_get_user_buffer P x]) := by
  intro p hp
  rcases List.mem_append.mp hp with hp | hp
  · obtain ⟨y, v', hy, hptr, hv'⟩ := hroom p hp
    exact ⟨y, v', List.mem_cons_of_mem _ hy, hptr, hv'⟩
  · exact ⟨x, v, List.mem_cons_self, List.mem_singleton.mp hp, hv⟩

theorem Owned.size_eq {v : Nat} (howned : Owned P h blocks stale live ((x, v) :: sized))
    (hfresh : x ∉ stale) : m_size h.mem x = v :=
  congrArg block_ctrl.m_size
    (howned.tiles.used_ctrl x v (howned.sized_placed x v List.mem_cons_self) hfresh)

section Fill

variable {sizeof_element elem_size : Nat}

/-- Whether an element is the last one for its block. -/
def is_last (P : Traits) (sizeof_element units left : Nat) : List Nat → Bool
  | [] => true
  | next :: _ => decide (left < units + elem_units P sizeof_element next)

theorem fill_cons {h₁ : Heap} {v total_used_units received_units : Nat} (total : Nat) (rest : List Nat)
    (hw : elem_units P sizeof_element elem_size ≤ w) (hunits : 0 < w)
    (hone : fill_one P h x (elem_units P sizeof_element elem_size) total_used_units
      (total_used_units + w)
        (is_last P sizeof_element (elem_units P sizeof_element elem_size) w rest) =
          some (h₁, received_units))
    (hsize : m_size h₁.mem x = v) :
    fill P sizeof_element h x total_used_units (total_used_units + w) total chain
        (elem_size :: rest) =
      fill P sizeof_element
        { h₁ with mem := P.write_links h₁.mem (chain ++ [priv_get_user_buffer P x]) }
        (x + v * P.Alignment) (total_used_units + v) received_units
        (size_sub total (elem_units P sizeof_element elem_size))
        (chain ++ [priv_get_user_buffer P x]) rest := by
  have hfits : ¬(total_used_units + w ≤ total_used_units ∨
      total_used_units + w < total_used_units + elem_units P sizeof_element elem_size) := by
    omega
  rw [fill.eq_def, ← hsize]
  simp only [if_neg hfits]
  cases rest with
  | nil =>
    simp only [is_last] at hone
    simp only [hone, Option.bind_eq_bind, Option.bind_some]
  | cons next rest =>
    have hlast : decide (total_used_units + w < total_used_units +
          elem_units P sizeof_element elem_size + elem_units P sizeof_element next) =
        is_last P sizeof_element (elem_units P sizeof_element elem_size) w (next :: rest) := by
      rw [is_last, decide_eq_decide]
      omega
    simp only [hlast, hone, Option.bind_eq_bind, Option.bind_some]

/-- An element that is the last one for its block. -/
theorem fill_spec_last (total_used_units total : Nat) {rest : List Nat}
    (howned : Owned P h (L ++ ⟨w, true⟩ :: R) [stop P.Alignment (first_block P h) L]
      (priv_get_user_buffer P (stop P.Alignment (first_block P h) L) :: live) sized)
    (hsized : ∀ y v, (y, v) ∈ sized → priv_get_user_buffer P y ∈ live)
    (hroom : ChainRoom P sized chain) (hw : elem_units P sizeof_element elem_size ≤ w)
    (hlast : is_last P sizeof_element (elem_units P sizeof_element elem_size) w rest = true) :
    ∃ f added, fill P sizeof_element h (stop P.Alignment (first_block P h) L) total_used_units
        (total_used_units + w) total chain (elem_size :: rest) = some f ∧
      added ≠ [] ∧ Filled P sizeof_element live sized chain (elem_size :: rest) added f := by
  obtain ⟨k, hk, _, hunits, _⟩ := elem_units_eq P sizeof_element elem_size
  obtain ⟨allocated, mem, received_units, blocks, v, hanswer, hv, hreceived, howned'⟩ :=
    fill_last_spec hsized total_used_units howned (by omega) hw
  have hone : fill_one P h (stop P.Alignment (first_block P h) L)
      (elem_units P sizeof_element elem_size) total_used_units (total_used_units + w)
      (is_last P sizeof_element (elem_units P sizeof_element elem_size) w rest) =
        some ({ h with m_allocated := allocated, mem := mem }, received_units) := by
    rw [hlast]
    exact hanswer
  have hlinks := howned'.write_links (hroom.concat (by omega))
  refine ⟨_, [(stop P.Alignment (first_block P h) L, v)],
    (fill_cons total rest hw (by omega) hone (howned'.size_eq List.not_mem_nil)).trans
      (fill_done hreceived rest), List.cons_ne_nil _ _, ?_⟩
  exact ⟨⟨[elem_size], rfl, List.Forall₂.cons hv List.Forall₂.nil⟩, rfl, blocks, hlinks⟩

/-- The loop over one received block makes a buffer for its first element, and for
    the next ones while they fit. -/
theorem fill_spec (rest : List Nat) (total_used_units total : Nat)
    (howned : Owned P h (L ++ ⟨w, true⟩ :: R) [stop P.Alignment (first_block P h) L]
      (priv_get_user_buffer P (stop P.Alignment (first_block P h) L) :: live) sized)
    (hsized : ∀ y v, (y, v) ∈ sized → priv_get_user_buffer P y ∈ live)
    (hroom : ChainRoom P sized chain) (hw : elem_units P sizeof_element elem_size ≤ w) :
    ∃ f added, fill P sizeof_element h (stop P.Alignment (first_block P h) L) total_used_units
        (total_used_units + w) total chain (elem_size :: rest) = some f ∧
      added ≠ [] ∧ Filled P sizeof_element live sized chain (elem_size :: rest) added f := by
  induction rest generalizing h L w live sized chain elem_size total_used_units total with
  | nil => exact fill_spec_last _ total howned hsized hroom hw rfl
  | cons next rest ih =>
    by_cases hlast : is_last P sizeof_element (elem_units P sizeof_element elem_size) w
        (next :: rest) = true
    · exact fill_spec_last _ total howned hsized hroom hw hlast
    · obtain ⟨k, hk, _, hunits, _⟩ := elem_units_eq P sizeof_element elem_size
      obtain ⟨k', _, _, hunits', _⟩ := elem_units_eq P sizeof_element next
      have hnext : elem_units P sizeof_element elem_size + elem_units P sizeof_element next ≤ w := by
        rw [is_last, decide_eq_true_eq] at hlast
        omega
      obtain ⟨left, rfl⟩ := Nat.exists_eq_add_of_le hw
      have hcut := howned.cut_first hsized (by omega) (by omega)
      generalize hmem : write_header P h.mem (stop P.Alignment (first_block P h) L)
        (elem_units P sizeof_element elem_size) = mem₀ at hcut
      have hone : fill_one P h (stop P.Alignment (first_block P h) L)
          (elem_units P sizeof_element elem_size) total_used_units
          (total_used_units + (elem_units P sizeof_element elem_size + left))
          (is_last P sizeof_element (elem_units P sizeof_element elem_size)
            (elem_units P sizeof_element elem_size + left) (next :: rest)) =
          some ({ h with mem := mem₀ },
            total_used_units + (elem_units P sizeof_element elem_size + left)) := by
        rw [Bool.not_eq_true] at hlast
        rw [hlast, ← hmem]
        rfl
      have hsize := hcut.size_eq (by
        rw [stop_concat, List.mem_singleton]
        have hlength := bytes_ge (P := P) (u := elem_units P sizeof_element elem_size) (by omega)
        have hge := P.BlockCtrlBytes_ge
        omega)
      have hroom' := hroom.concat (x := stop P.Alignment (first_block P h) L)
        (show P.BlockCtrlUnits < elem_units P sizeof_element elem_size by omega)
      have hlinks := hcut.write_links hroom'
      have hsized' : ∀ y v, (y, v) ∈ (stop P.Alignment (first_block P h) L,
          elem_units P sizeof_element elem_size) :: sized → priv_get_user_buffer P y ∈
            priv_get_user_buffer P (stop P.Alignment (first_block P h) L) :: live := by
        intro y v hy
        rcases List.mem_cons.mp hy with heq | hy
        · rw [(Prod.mk.inj heq).1]
          exact List.mem_cons_self
        · exact List.mem_cons_of_mem _ (hsized y v hy)
      obtain ⟨f, added, hanswer, _, hfilled⟩ := ih
        (total_used_units + elem_units P sizeof_element elem_size)
        (size_sub total (elem_units P sizeof_element elem_size)) hlinks hsized' hroom'
        (show elem_units P sizeof_element next ≤ left by omega)
      refine ⟨f, (stop P.Alignment (first_block P h) L, elem_units P sizeof_element elem_size) ::
        added, ?_, List.cons_ne_nil _ _, ?_⟩
      · rw [fill_cons total (next :: rest) hw (by omega) hone hsize, ← Nat.add_assoc]
        simp only [first_block_update, stop_concat] at hanswer
        exact hanswer
      · exact Filled.prepend (List.Forall₂.cons (Nat.le_refl _)
          List.Forall₂.nil) hfilled

end Fill

end interprocess.ipcdetail.simple_seq_fit_impl
