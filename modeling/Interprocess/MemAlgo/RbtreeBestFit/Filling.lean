import Interprocess.MemAlgo.RbtreeBestFit.Commands
import Interprocess.MemAlgo.RbtreeBestFit.UserWrites

namespace interprocess.rbtree_best_fit

open ipcdetail Memory Tiling

variable {P : Traits} {h h' : Heap} {first x u w : Nat} {blocks blocks' L R : List Block}
  {m m' : Memory} {chained added gone : List (Nat × Nat)}

/-- The memory once the header at `x` says that its block has `w` units and is in use. -/
def completed (m : Memory) (x w : Nat) : Memory :=
  set_allocated (set_size m x w) x true

theorem completed_eq (m : Memory) (x w : Nat) :
    completed m x w = set_holder m x ⟨w % 2 ^ 62, m_prev_allocated m x, true⟩ := by
  have hmod := Nat.mod_lt w (Nat.two_pow_pos 62)
  rw [completed, set_allocated, set_size, holder_set_holder hmod, set_holder_set_holder]
  rfl

theorem completed_completed (m : Memory) (x u w : Nat) :
    completed (completed m x w) x u = completed m x u := by
  have hprev : m_prev_allocated (completed m x w) x = m_prev_allocated m x := by
    rw [completed_eq, m_prev_allocated, holder_set_holder (Nat.mod_lt w (Nat.two_pow_pos 62))]
  rw [completed_eq (completed m x w), hprev, completed_eq m x w, set_holder_set_holder,
    ← completed_eq]

theorem completed_self (hsize : m_size m x = w) (hallocated : m_allocated m x = true) :
    completed m x w = m := by
  rw [completed, set_size_self hsize, set_allocated_self hallocated]

/-- It reads its own header only. -/
theorem sameOn_completed {lo hi : Nat} (hsame : SameOn m m' lo hi)
    (hholder : SameOn m m' (x + 8) (x + 16)) :
    SameOn (completed m x w) (completed m' x w) lo hi := by
  rw [completed_eq, completed_eq, m_prev_allocated, m_prev_allocated, holder_congr hholder]
  exact hsame.store _ _ _

/-- A block that is written does not remember its old header. -/
theorem write_block_completed (m : Memory) (x u w : Nat) :
    write_block P (completed m x w) x u = write_block P m x u := by
  have heq := completed_completed m x u w
  unfold completed at heq
  unfold completed write_block priv_mark_as_allocated_block
  rw [heq]

theorem write_block_eq_completed (hw : w < 2 ^ 62)
    (hnext : m_prev_allocated (completed m x w) (x + w * P.Alignment) = true) :
    write_block P m x w = completed m x w := by
  unfold write_block priv_mark_as_allocated_block
  simp only [m_size_write_block hw]
  exact set_prev_allocated_self hnext

theorem m_size_written (hu : u < 2 ^ 62) (hpos : 8 ≤ u * P.Alignment) :
    m_size (write_block P m x u) x = u := by
  unfold write_block priv_mark_as_allocated_block
  simp only [m_size_write_block hu]
  have hsame : SameOn (set_prev_allocated (set_allocated (set_size m x u) x true)
      (x + u * P.Alignment) true) (set_allocated (set_size m x u) x true) (x + 8) (x + 16) :=
    set_holder_sameOn _ _ (by omega)
  rw [m_size, holder_congr hsame]
  exact m_size_write_block hu

/-- The header of an element cuts it off the rest of the block, whose header comes
    with the next one. -/
theorem Rep.cut_first (hrep : Rep P h first (L ++ [⟨u + w, true⟩] ++ R))
    (hu : P.BlockCtrlUnits ≤ u) (hw : P.BlockCtrlUnits ≤ w) (hx : x = stop P.Alignment first L) :
    Exchange P h { h with mem := completed (write_block P h.mem x u) (x + u * P.Alignment) w } first L
      [⟨u + w, true⟩] [⟨u, true⟩, ⟨w, true⟩] R := by
  have hsub : u + w - u = w := Nat.add_sub_cancel_left u w
  obtain ⟨a, y, e, hcut⟩ := exists_cut (u := u + w) first L hu (by omega)
  obtain ⟨hax, hae, hxe⟩ := hcut.ne
  have hlt : u + w < 2 ^ 62 := hrep.units_lt_of_mem (G := [⟨u + w, true⟩])
  have hge := P.BlockCtrlBytes_ge
  have hfirst := hcut.first_bytes
  have hsecond := hcut.second_bytes
  have hy := hcut.mid
  have hS := hcut.spread
  have hX₁ := (hcut.editing hrep).executed.set_size hS mem_three_left (s := u) (by omega) (by omega)
  simp only [tri_left, update_tri_left] at hX₁
  have hX₂ := hX₁.mark_allocated hS mem_three_left mem_three_mid (by rw [tri_left, hy]) (by omega)
    (by omega)
  rw [marked_allocated_tri_left hax] at hX₂
  have hX₃ := hX₂.set_size hS mem_three_mid (s := w) (by omega) (by omega)
  simp only [tri_mid hax, update_tri_mid hax] at hX₃
  have hX₄ := hX₃.set_allocated hS mem_three_mid (by omega) true
  simp only [tri_mid hax, update_tri_mid hax] at hX₄
  have hbehind : m_prev_allocated h.mem e = true := by
    have hrep' := hrep
    rw [List.append_assoc] at hrep'
    rw [hcut.total, hcut.front]
    exact hrep'.header_behind.1
  have hex := hcut.exchange hrep hu (by omega) hX₄ rfl ⟨hsub.symm, rfl, rfl⟩ (by
    unfold ctrl
    rw [hbehind])
  rw [hsub] at hex
  rw [hx, ← hcut.front, ← hy]
  unfold completed write_block
  exact hex

section Pending

variable (hrep : Rep P { h with mem := completed h.mem x (u + w) } first (L ++ [⟨u + w, true⟩] ++ R))
  (hx : x = stop P.Alignment first L)

include hrep hx

theorem Rep.fill_cut (hu : P.BlockCtrlUnits ≤ u) (hw : P.BlockCtrlUnits ≤ w) :
    Operation P { h with mem := completed h.mem x (u + w) }
      { h with mem := completed (write_block P h.mem x u) (x + u * P.Alignment) w } first
      (L ++ [⟨u + w, true⟩] ++ R) (L ++ [⟨u, true⟩, ⟨w, true⟩] ++ R) [(x, u + w)]
      [(x, u), (x + u * P.Alignment, w)] := by
  have hex := hrep.cut_first hu hw hx
  rw [write_block_completed] at hex
  have hop := Operation.of_exchange hrep hex
    ((segment_mk h _ _ _).trans (segment_mk h _ _ _).symm)
  rw [usedBlocks_cons_used, usedBlocks_nil, usedBlocks_cons_used, usedBlocks_cons_used,
    usedBlocks_nil, ← hx] at hop
  exact hop

end Pending

/-- Every buffer has room for a link. -/
theorem Rep.write_links_outside (hrep : Rep P h first blocks)
    (hchained : ∀ p ∈ chained, LiveAt P first blocks p.1 p.2) {m : Memory} {y : Nat}
    (hy : ∀ b u, (b, u) ∈ chained → LiveAt P first blocks b u →
      y < b + P.AllocatedCtrlBytes ∨ b + u * P.Alignment + UsableByPreviousChunk ≤ y) :
    P.write_links m (buffers P chained) y = m y := by
  refine P.write_links_frame m _ y ?_
  intro ptr hptr
  obtain ⟨⟨b, u⟩, hmem, rfl⟩ := List.mem_map.mp hptr
  have hlive := hchained _ hmem
  have hu : P.BlockCtrlUnits ≤ u := hrep.sizes ⟨u, true⟩ (mem_of_mem_placed _ hlive)
  have hbytes : P.AllocatedCtrlUnits * P.Alignment ≤ u * P.Alignment :=
    Nat.mul_le_mul_right _ (Nat.le_trans P.AllocatedCtrlUnits_le hu)
  rw [P.AllocatedCtrlUnits_mul] at hbytes
  rcases hy b u hmem hlive with hlo | hhi
  · exact Or.inl hlo
  · refine Or.inr ?_
    change b + P.AllocatedCtrlBytes + 8 ≤ y
    unfold UsableByPreviousChunk at hhi
    omega

theorem Operation.write_links (hrep : Rep P h first blocks)
    (hchained : ∀ p ∈ chained, LiveAt P first blocks p.1 p.2) :
    Operation P h { h with mem := P.write_links h.mem (buffers P chained) } first blocks blocks chained
      chained :=
  Operation.user_write hrep chained fun _ hy => hrep.write_links_outside hchained hy

/-- The links of a chain while the header at `x` is not written. -/
theorem Operation.write_links_pending (hrep : Rep P { h with mem := completed m x w } first blocks)
    (hlive : LiveAt P first blocks x w)
    (hchained : ∀ p ∈ chained, LiveAt P first blocks p.1 p.2 ∧ p.1 ≠ x) :
    Operation P { h with mem := completed m x w }
      { h with mem := completed (P.write_links m (buffers P chained)) x w } first blocks blocks chained
      chained := by
  refine Operation.user_write hrep chained fun y hy => ?_
  have hout : ∀ z, (∀ b u, (b, u) ∈ chained → LiveAt P first blocks b u →
      z < b + P.AllocatedCtrlBytes ∨ b + u * P.Alignment + UsableByPreviousChunk ≤ z) →
      P.write_links m (buffers P chained) z = m z := fun z hz =>
    hrep.write_links_outside (fun p hp => (hchained p hp).1) hz
  suffices hsame : SameOn (completed (P.write_links m (buffers P chained)) x w) (completed m x w) y
      (y + 1) from hsame y (Nat.le_refl y) (Nat.lt_succ_self y)
  refine sameOn_completed ?_ ?_
  · intro z hlo hhi
    obtain rfl : z = y := by omega
    exact hout z hy
  · intro z hlo hhi
    refine hout z fun b u hmem _ => ?_
    have hctrl := P.AllocatedCtrlBytes_ge
    have hge := P.BlockCtrlBytes_ge
    obtain ⟨hb, hne⟩ := hchained _ hmem
    have hbytes : P.BlockCtrlBytes ≤ w * P.Alignment :=
      bytes_ge (b := ⟨w, true⟩) (hrep.sizes _ (mem_of_mem_placed _ hlive))
    unfold UsableByPreviousChunk
    rcases placed_apart _ hb hlive with ⟨heq, _⟩ | hapart | hapart
    · exact absurd heq hne
    · change b + u * P.Alignment ≤ x at hapart
      exact Or.inr (by omega)
    · change x + w * P.Alignment ≤ b at hapart
      exact Or.inl (by omega)

/-- A block has the units of an element, and does not waste a block. -/
def Suits (P : Traits) (units v : Nat) : Prop :=
  units ≤ v ∧ v < units + P.BlockCtrlUnits

theorem elem_units_ge (P : Traits) (sizeof_element elem_size : Nat) :
    P.BlockCtrlUnits ≤ elem_units P sizeof_element elem_size :=
  Nat.le_trans (priv_get_total_units_ge P _) (Nat.le_max_right _ _)

/-- The request of a block for the units it keeps. -/
theorem shrunk_request_cuts {units : Nat} (hunits : P.BlockCtrlUnits ≤ units)
    (hw : units + P.BlockCtrlUnits ≤ w) (hlt : w * P.Alignment < 2 ^ 64) :
    let request := units * P.Alignment - P.AllocatedCtrlBytes + UsableByPreviousChunk
    CutsOff P w request request ∧ shrunk_units P request = units := by
  have hctrl := P.AllocatedCtrlUnits_le
  have hpos := P.BlockCtrlUnits_pos
  have hge := P.AllocatedCtrlBytes_ge
  have hmul : (units - P.AllocatedCtrlUnits) * P.Alignment =
      units * P.Alignment - P.AllocatedCtrlBytes := by
    rw [Nat.sub_mul, P.AllocatedCtrlUnits_mul]
  have hle : units * P.Alignment ≤ w * P.Alignment := Nat.mul_le_mul_right _ (by omega)
  have hctrlle : P.AllocatedCtrlUnits * P.Alignment ≤ units * P.Alignment :=
    Nat.mul_le_mul_right _ (by omega)
  rw [P.AllocatedCtrlUnits_mul] at hctrlle
  have hsub : size_sub (units * P.Alignment - P.AllocatedCtrlBytes + UsableByPreviousChunk)
      UsableByPreviousChunk = (units - P.AllocatedCtrlUnits) * P.Alignment := by
    rw [hmul, size_sub_of_le (Nat.le_add_left _ _), Nat.add_sub_cancel]
    unfold UsableByPreviousChunk
    omega
  have hceil : preferred_user_units P
      (units * P.Alignment - P.AllocatedCtrlBytes + UsableByPreviousChunk) =
        units - P.AllocatedCtrlUnits := by
    rw [preferred_user_units, hsub, ceil_units,
      get_rounded_size_mul P.Alignment_pos P.Alignment_dvd (by omega),
      Nat.mul_div_cancel _ P.Alignment_pos]
  have hfloor : floor_units P (size_sub
      (units * P.Alignment - P.AllocatedCtrlBytes + UsableByPreviousChunk) UsableByPreviousChunk) =
        units - P.AllocatedCtrlUnits := by
    rw [hsub, floor_units, Nat.mul_div_cancel _ P.Alignment_pos]
  have hshrunk : shrunk_units P
      (units * P.Alignment - P.AllocatedCtrlBytes + UsableByPreviousChunk) = units := by
    rw [shrunk_units, hceil, Nat.max_eq_right (by omega)]
    omega
  refine ⟨?_, hshrunk⟩
  unfold CutsOff
  simp only [hceil, hfloor, hshrunk]
  omega

/-- The header of the last element is complete. -/
theorem Rep.write_block_last (hrep : Rep P { h with mem := completed h.mem x w } first blocks)
    (hlive : LiveAt P first blocks x w) : write_block P h.mem x w = completed h.mem x w := by
  obtain ⟨L, R, rfl, rfl⟩ := exists_of_mem_placed _ hlive
  have hbehind := hrep.header_behind.1
  rw [List.append_cons] at hrep
  have hlt := hrep.units_lt_of_mem
  simp only [units_cons, units_nil, Nat.add_zero] at hlt
  exact write_block_eq_completed hlt hbehind

/-- The last element of a block takes the rest, and gives back what can be a block. -/
theorem Rep.fill_last_spec (hrep : Rep P { h with mem := completed h.mem x w } first blocks)
    (hlt : stop P.Alignment first blocks < 2 ^ 64) (hlive : LiveAt P first blocks x w)
    (total_used_units : Nat) {units : Nat} (hunits : P.BlockCtrlUnits ≤ units) (hw : units ≤ w) :
    ∃ h' received_units blocks' v,
      fill_last P h x units total_used_units (total_used_units + w) = (h', received_units) ∧
      Suits P units v ∧ received_units ≤ total_used_units + v ∧
      Operation P { h with mem := completed h.mem x w } h' first blocks blocks' [(x, w)] [(x, v)] := by
  have hpos := P.BlockCtrlUnits_pos
  have hwritten := hrep.write_block_last hlive
  have hbound : x + w * P.Alignment ≤ stop P.Alignment first blocks := (mem_placed_bounds _ hlive).2
  unfold write_block at hwritten
  unfold fill_last
  simp only [Nat.add_sub_cancel_left, hwritten]
  by_cases hroom : units + P.BlockCtrlUnits ≤ w
  · obtain ⟨hcuts, hshrunk⟩ := shrunk_request_cuts hunits hroom (by omega)
    obtain ⟨h', blocks', hanswer, hop, _⟩ := hrep.shrink_cuts_operation hlive hcuts
    rw [hshrunk] at hop
    rw [if_pos hroom, hanswer]
    exact ⟨h', _, blocks', units, rfl, ⟨Nat.le_refl _, by omega⟩, by omega, hop⟩
  · rw [if_neg hroom]
    exact ⟨_, _, blocks, w, rfl, ⟨hw, by omega⟩, Nat.le_refl _, (Operation.refl hrep).touch x w⟩

theorem Rep.live_size (hrep : Rep P h first blocks) (hlive : LiveAt P first blocks x w) :
    m_size h.mem x = w := by
  obtain ⟨L, R, rfl, rfl⟩ := exists_of_mem_placed _ hlive
  rw [List.append_cons] at hrep
  exact hrep.units_here

/-- The blocks `added` were made for the first elements of `rest`, and their buffers
    stand at the end of the chain. -/
structure Filled (P : Traits) (h : Heap) (first : Nat) (blocks : List Block) (sizeof_element : Nat)
    (gone chained : List (Nat × Nat)) (rest : List Nat) (added : List (Nat × Nat)) (f : Filling) :
    Prop where
  elements : ∃ elems, rest = elems ++ f.rest ∧
    List.Forall₂ (fun elem p => Suits P (elem_units P sizeof_element elem) p.2) elems added
  chain_eq : f.chain = buffers P (chained ++ added)
  operation : ∃ blocks', Operation P h f.heap first blocks blocks' (gone ++ chained) (chained ++ added)

section Fill

variable {sizeof_element elem_size : Nat}

/-- Whether an element is the last one for its block. -/
def is_last (P : Traits) (sizeof_element units left : Nat) : List Nat → Bool
  | [] => true
  | next :: _ => decide (left < units + elem_units P sizeof_element next)

/-- The step of `fill` for an element that fits. -/
theorem fill_cons {v total_used_units received_units : Nat} (total : Nat) (chain rest : List Nat)
    (hw : elem_units P sizeof_element elem_size ≤ w)
    (hone : (if is_last P sizeof_element (elem_units P sizeof_element elem_size) w rest then
        fill_last P h x (elem_units P sizeof_element elem_size) total_used_units (total_used_units + w)
      else ({ h with mem := write_block P h.mem x (elem_units P sizeof_element elem_size) },
        total_used_units + w)) = (h', received_units))
    (hsize : m_size h'.mem x = v) :
    fill P sizeof_element h x total_used_units (total_used_units + w) total chain (elem_size :: rest) =
      fill P sizeof_element
        { h' with mem := P.write_links h'.mem (chain ++ [priv_get_user_buffer P x]) }
        (x + v * P.Alignment) (total_used_units + v) received_units
        (size_sub total (elem_units P sizeof_element elem_size))
        (chain ++ [priv_get_user_buffer P x]) rest := by
  have hunits := elem_units_ge P sizeof_element elem_size
  have hpos := P.BlockCtrlUnits_pos
  have hfits : ¬(total_used_units + w ≤ total_used_units ∨
      total_used_units + w < total_used_units + elem_units P sizeof_element elem_size) := by
    omega
  subst hsize
  rw [fill.eq_def]
  simp only [if_neg hfits]
  cases rest with
  | nil =>
    simp only [is_last, if_true] at hone
    simp only [if_true, hone]
  | cons next rest =>
    have hlast : decide (total_used_units + w < total_used_units +
          elem_units P sizeof_element elem_size + elem_units P sizeof_element next) =
        is_last P sizeof_element (elem_units P sizeof_element elem_size) w (next :: rest) := by
      rw [is_last, decide_eq_decide]
      omega
    unfold write_block at hone
    simp only [hlast, hone]

theorem fill_done {block_address total_used_units received_units total : Nat} {chain : List Nat}
    (hle : received_units ≤ total_used_units) (rest : List Nat) :
    fill P sizeof_element h block_address total_used_units received_units total chain rest =
      ⟨h, total, chain, rest⟩ := by
  cases rest with
  | nil => rfl
  | cons elem_size rest => simp only [fill, if_pos (Or.inl hle)]

theorem buffers_concat (used : List (Nat × Nat)) (x v : Nat) :
    buffers P used ++ [priv_get_user_buffer P x] = buffers P (used ++ [(x, v)]) := by
  rw [buffers_append]
  rfl

/-- The step of `fill` for an element in front of others. -/
theorem fill_cons_cut {total_used_units next : Nat} (total : Nat) (chain rest : List Nat)
    (hu : elem_units P sizeof_element elem_size = u) (hw : u ≤ w) (hlt : u < 2 ^ 62)
    (hlast : ¬ is_last P sizeof_element u w (next :: rest) = true) :
    fill P sizeof_element h x total_used_units (total_used_units + w) total chain
        (elem_size :: next :: rest) =
      fill P sizeof_element
        { h with mem := P.write_links (write_block P h.mem x u) (chain ++ [priv_get_user_buffer P x]) }
        (x + u * P.Alignment) (total_used_units + u) (total_used_units + w) (size_sub total u)
        (chain ++ [priv_get_user_buffer P x]) (next :: rest) := by
  subst hu
  have hbytes : P.BlockCtrlBytes ≤ elem_units P sizeof_element elem_size * P.Alignment :=
    bytes_ge (b := ⟨_, true⟩) (elem_units_ge P sizeof_element elem_size)
  have hge := P.BlockCtrlBytes_ge
  have hsize := m_size_written (P := P) (m := h.mem) (x := x) hlt (by omega)
  generalize hh : ({ h with mem := write_block P h.mem x (elem_units P sizeof_element elem_size) } :
    Heap) = h'
  have hmem : h'.mem = write_block P h.mem x (elem_units P sizeof_element elem_size) := by rw [← hh]
  have hone : (if is_last P sizeof_element (elem_units P sizeof_element elem_size) w (next :: rest) then
        fill_last P h x (elem_units P sizeof_element elem_size) total_used_units (total_used_units + w)
      else ({ h with mem := write_block P h.mem x (elem_units P sizeof_element elem_size) },
        total_used_units + w)) = (h', total_used_units + w) := by
    rw [if_neg hlast, hh]
  rw [← hmem] at hsize ⊢
  rw [fill_cons total chain (next :: rest) hw hone hsize, ← hh]

/-- The chained blocks stay in use when the one behind them is cut. -/
theorem Operation.chained_live (hop : Operation P h h' first blocks blocks' [(x, u)] added)
    (hchained : ∀ p ∈ chained, LiveAt P first blocks p.1 p.2 ∧ p.1 ≠ x) :
    ∀ p ∈ chained, LiveAt P first blocks' p.1 p.2 ∧ p ∉ added := by
  intro p hp
  obtain ⟨hlive, hne⟩ := hchained p hp
  have hgone : (p.1, p.2) ∉ [(x, u)] := fun hmem =>
    hne (congrArg Prod.fst (List.mem_singleton.mp hmem))
  exact ⟨hop.live hlive hgone, hop.not_mem_fresh hlive hgone⟩

/-- An element that is the last one for its block. -/
theorem Rep.fill_spec_last (hrep : Rep P { h with mem := completed h.mem x w } first blocks)
    (hlt : stop P.Alignment first blocks < 2 ^ 64) (hlive : LiveAt P first blocks x w)
    (hchained : ∀ p ∈ chained, LiveAt P first blocks p.1 p.2 ∧ p.1 ≠ x)
    (total_used_units total : Nat) {rest : List Nat}
    (hw : elem_units P sizeof_element elem_size ≤ w)
    (hlast : is_last P sizeof_element (elem_units P sizeof_element elem_size) w rest = true) :
    ∃ added, added ≠ [] ∧ Filled P { h with mem := completed h.mem x w } first blocks sizeof_element
      [(x, w)] chained (elem_size :: rest) added
      (fill P sizeof_element h x total_used_units (total_used_units + w) total (buffers P chained)
        (elem_size :: rest)) := by
  obtain ⟨h', received_units, blocks', v, hanswer, hsuits, hreceived, hop⟩ :=
    hrep.fill_last_spec hlt hlive total_used_units (elem_units_ge P sizeof_element elem_size) hw
  have hlive' := hop.live_resized hlive
  have hone : (if is_last P sizeof_element (elem_units P sizeof_element elem_size) w rest then
        fill_last P h x (elem_units P sizeof_element elem_size) total_used_units (total_used_units + w)
      else ({ h with mem := write_block P h.mem x (elem_units P sizeof_element elem_size) },
        total_used_units + w)) = (h', received_units) := by
    rw [if_pos hlast]
    exact hanswer
  rw [fill_cons total (buffers P chained) rest hw hone (hop.rep.live_size hlive'),
    fill_done hreceived rest, buffers_concat chained x v]
  refine ⟨[(x, v)], List.cons_ne_nil _ _, ⟨[elem_size], rfl, .cons hsuits .nil⟩, rfl, blocks', ?_⟩
  have hall : ∀ p ∈ chained ++ [(x, v)], LiveAt P first blocks' p.1 p.2 := by
    intro p hp
    rcases List.mem_append.mp hp with hp | hp
    · exact (hop.chained_live hchained p hp).1
    · obtain rfl := List.mem_singleton.mp hp
      exact hlive'
  have hlinks := Operation.write_links hop.rep hall
  have htouch := hop.touch_all chained
  rw [← List.append_nil (chained ++ [(x, v)])] at htouch hlinks
  have hboth := htouch.trans_cancel hlinks
  simp only [List.append_nil, List.nil_append] at hboth
  exact hboth.perm List.perm_append_comm (List.Perm.refl _)

/-- An element in front of others: the header of the rest comes with the next one. -/
theorem Rep.fill_cut_linked {u w : Nat}
    (hrep : Rep P { h with mem := completed h.mem x (u + w) } first (L ++ [⟨u + w, true⟩] ++ R))
    (hx : x = stop P.Alignment first L) (hu : P.BlockCtrlUnits ≤ u) (hw : P.BlockCtrlUnits ≤ w)
    (hchained : ∀ p ∈ chained, LiveAt P first (L ++ [⟨u + w, true⟩] ++ R) p.1 p.2 ∧ p.1 ≠ x) :
    Operation P { h with mem := completed h.mem x (u + w) }
        { h with mem := completed (P.write_links (write_block P h.mem x u)
          (buffers P (chained ++ [(x, u)]))) (x + u * P.Alignment) w } first
        (L ++ [⟨u + w, true⟩] ++ R) (L ++ [⟨u, true⟩] ++ [⟨w, true⟩] ++ R)
        (chained ++ [(x, u + w)]) ((x + u * P.Alignment, w) :: (chained ++ [(x, u)])) ∧
      ∀ p ∈ chained ++ [(x, u)], LiveAt P first (L ++ [⟨u, true⟩] ++ [⟨w, true⟩] ++ R) p.1 p.2 ∧
        p.1 ≠ x + u * P.Alignment := by
  have hop := hrep.fill_cut hx hu hw
  have hblocks : L ++ [⟨u, true⟩, ⟨w, true⟩] ++ R = L ++ [⟨u, true⟩] ++ [⟨w, true⟩] ++ R := by simp
  rw [hblocks] at hop
  have hbytes : P.BlockCtrlBytes ≤ u * P.Alignment := bytes_ge (b := ⟨u, true⟩) hu
  have hge := P.BlockCtrlBytes_ge
  have hfirst : LiveAt P first (L ++ [⟨u, true⟩] ++ [⟨w, true⟩] ++ R) x u := by
    rw [hx, List.append_assoc, List.append_assoc]
    exact mem_placed_mid _ _ _ L _
  have hsecond : LiveAt P first (L ++ [⟨u, true⟩] ++ [⟨w, true⟩] ++ R) (x + u * P.Alignment) w := by
    have hplaced := mem_placed_mid P.Alignment first ⟨w, true⟩ (L ++ [⟨u, true⟩]) R
    rw [stop_append, stop_cons, stop_nil, List.append_cons, ← hx] at hplaced
    exact hplaced
  have hlinked : ∀ p ∈ chained ++ [(x, u)],
      LiveAt P first (L ++ [⟨u, true⟩] ++ [⟨w, true⟩] ++ R) p.1 p.2 ∧ p.1 ≠ x + u * P.Alignment := by
    intro p hp
    rcases List.mem_append.mp hp with hp | hp
    · obtain ⟨hlive, hfresh⟩ := hop.chained_live hchained p hp
      refine ⟨hlive, fun heq => hfresh ?_⟩
      have hunits : p.2 = w := hop.rep.live_unique (heq ▸ hlive) hsecond
      rw [show p = (x + u * P.Alignment, w) from Prod.ext heq hunits]
      simp
    · obtain rfl := List.mem_singleton.mp hp
      refine ⟨hfirst, ?_⟩
      change x ≠ x + u * P.Alignment
      omega
  refine ⟨?_, hlinked⟩
  have hlinks := Operation.write_links_pending hop.rep hsecond hlinked
  have htouch := hlinks.touch (x + u * P.Alignment) w
  have hfresh : (chained ++ [(x, u), (x + u * P.Alignment, w)]).Perm
      ((x + u * P.Alignment, w) :: (chained ++ [(x, u)])) := by
    rw [← List.singleton_append, ← List.append_assoc]
    exact List.perm_append_singleton _ _
  have hcut := (hop.touch_all chained).perm (List.Perm.refl _) hfresh
  rw [← List.append_nil ((x + u * P.Alignment, w) :: (chained ++ [(x, u)]))] at hcut htouch
  have hboth := hcut.trans_cancel htouch
  simp only [List.append_nil, List.nil_append] at hboth
  exact hboth

/-- The loop over one received block makes a buffer for its first element, and for
    the next ones while they fit. -/
theorem Rep.fill_spec (rest : List Nat) (total_used_units total : Nat)
    (hrep : Rep P { h with mem := completed h.mem x w } first (L ++ [⟨w, true⟩] ++ R))
    (hlt : stop P.Alignment first (L ++ [⟨w, true⟩] ++ R) < 2 ^ 64) (hx : x = stop P.Alignment first L)
    (hchained : ∀ p ∈ chained, LiveAt P first (L ++ [⟨w, true⟩] ++ R) p.1 p.2 ∧ p.1 ≠ x)
    (hw : elem_units P sizeof_element elem_size ≤ w) :
    ∃ added, added ≠ [] ∧ Filled P { h with mem := completed h.mem x w } first
      (L ++ [⟨w, true⟩] ++ R) sizeof_element [(x, w)] chained (elem_size :: rest) added
      (fill P sizeof_element h x total_used_units (total_used_units + w) total (buffers P chained)
        (elem_size :: rest)) := by
  induction rest generalizing h x L w chained elem_size total_used_units total with
  | nil =>
    refine hrep.fill_spec_last hlt ?_ hchained _ total hw rfl
    rw [hx, List.append_assoc]
    exact mem_placed_mid _ _ _ L R
  | cons next rest ih =>
    by_cases hlast : is_last P sizeof_element (elem_units P sizeof_element elem_size) w
        (next :: rest) = true
    · refine hrep.fill_spec_last hlt ?_ hchained _ total hw hlast
      rw [hx, List.append_assoc]
      exact mem_placed_mid _ _ _ L R
    · have hunits := elem_units_ge P sizeof_element elem_size
      have hunits' := elem_units_ge P sizeof_element next
      have hnext : elem_units P sizeof_element elem_size + elem_units P sizeof_element next ≤ w := by
        rw [is_last, decide_eq_true_eq] at hlast
        omega
      generalize hu : elem_units P sizeof_element elem_size = u at *
      obtain ⟨left, rfl⟩ := Nat.exists_eq_add_of_le hw
      have hlt62 : u + left < 2 ^ 62 := hrep.units_lt_of_mem (G := [⟨u + left, true⟩])
      obtain ⟨hop, hlinked⟩ := hrep.fill_cut_linked hx hunits (by omega) hchained
      have hx' : x + u * P.Alignment = stop P.Alignment first (L ++ [⟨u, true⟩]) := by
        rw [stop_append, stop_cons, stop_nil, ← hx]
      have hlt' : stop P.Alignment first (L ++ [⟨u, true⟩] ++ [⟨left, true⟩] ++ R) < 2 ^ 64 := by
        rwa [stop, hop.units_eq]
      obtain ⟨added, _, hfilled⟩ := ih (total_used_units + u) (size_sub total u)
        (h := { h with
          mem := P.write_links (write_block P h.mem x u) (buffers P (chained ++ [(x, u)])) })
        hop.rep hlt' hx' hlinked (show elem_units P sizeof_element next ≤ left by omega)
      obtain ⟨elems, helems, hsuits⟩ := hfilled.elements
      obtain ⟨blocks', hrest⟩ := hfilled.operation
      rw [fill_cons_cut total (buffers P chained) rest hu hw (by omega) hlast,
        buffers_concat chained x u, ← Nat.add_assoc]
      refine ⟨(x, u) :: added, List.cons_ne_nil _ _, ⟨elem_size :: elems, ?_, ?_⟩, ?_, blocks', ?_⟩
      · rw [List.cons_append, ← helems]
      · refine .cons ⟨Nat.le_of_eq hu, ?_⟩ hsuits
        have hpos := P.BlockCtrlUnits_pos
        change u < _ + _
        omega
      · rw [hfilled.chain_eq, List.append_assoc]
        rfl
      · rw [← List.append_nil ((x + u * P.Alignment, left) :: (chained ++ [(x, u)]))] at hop
        rw [List.singleton_append, ← List.append_nil ((x + u * P.Alignment, left) :: _)] at hrest
        have hboth := hop.trans_cancel hrest
        simp only [List.append_nil, List.nil_append] at hboth
        rw [List.append_assoc chained, List.singleton_append] at hboth
        exact hboth.perm List.perm_append_comm (List.Perm.refl _)

/-- The loop starts with a block whose header is complete. -/
theorem Rep.fill_received (hrep : Rep P h first blocks) (hlt : stop P.Alignment first blocks < 2 ^ 64)
    (hlive : LiveAt P first blocks x w)
    (hchained : ∀ p ∈ chained, LiveAt P first blocks p.1 p.2 ∧ p.1 ≠ x)
    (hw : elem_units P sizeof_element elem_size ≤ w) (total : Nat) (rest : List Nat) :
    ∃ added, added ≠ [] ∧ Filled P h first blocks sizeof_element [(x, w)] chained (elem_size :: rest)
      added (fill P sizeof_element h x 0 w total (buffers P chained) (elem_size :: rest)) := by
  obtain ⟨L, R, rfl, hx⟩ := exists_of_mem_placed _ hlive
  have hallocated : m_allocated h.mem x = true := hx ▸ hrep.header_at.allocated
  have hself := completed_self (hrep.live_size hlive) hallocated
  rw [List.append_cons] at hrep hlt hchained ⊢
  have hpending : Rep P { h with mem := completed h.mem x w } first (L ++ [⟨w, true⟩] ++ R) := by
    rw [hself]
    exact hrep
  have hspec := hpending.fill_spec rest 0 total hlt hx hchained hw
  rw [hself, Nat.zero_add] at hspec
  exact hspec

end Fill

end interprocess.rbtree_best_fit
