import Interprocess.MemAlgo.SimpleSeqFit.ResizingRuns

namespace interprocess.ipcdetail.simple_seq_fit_impl

open Memory Tiling LinkedList Transition

section Operations

variable (P : Traits)

def multiple_of_units (size : Nat) : Nat :=
  get_rounded_size size P.Alignment

def get_free_memory (h : Heap) : Nat :=
  size_sub (size_sub h.m_size h.m_allocated)
    (multiple_of_units P (P.sizeof_simple_seq_fit_impl + h.m_extra_hdr_bytes))

def all_memory_deallocated (h : Heap) : Prop :=
  h.m_allocated = 0 ∧ m_next P h.mem (m_next P h.mem (root P h)) = root P h

/-- The loop of `check_sanity`: the bytes of the free blocks, or that one of them is
    not aligned or has a null link. -/
def sum_free_blocks (h : Heap) : Nat → Nat → Nat → Option (Option Nat)
  | 0, _, _ => none
  | fuel + 1, block, free_memory =>
    if block = root P h then some (some free_memory)
    else if block % P.Alignment ≠ 0 then some none
    else if m_next P h.mem block = 0 then some none
    else
      sum_free_blocks h fuel (m_next P h.mem block)
        ((free_memory + m_size h.mem block * P.Alignment) % 2 ^ 64)

def check_sanity (h : Heap) : Option Bool :=
  match sum_free_blocks P h (h.m_size + 1) (m_next P h.mem (root P h)) 0 with
  | none => none
  | some none => some false
  | some (some free_memory) => some (!(h.m_allocated > h.m_size) && !(free_memory > h.m_size))

/-- The loop of `zero_free_memory`. A null link that is followed ends the run. -/
def zero_blocks (root : Nat) : Nat → Memory → Nat → Option Memory
  | 0, _, _ => none
  | fuel + 1, m, block =>
    let m := m.zero (priv_get_user_buffer P block) (get_user_bytes P m block)
    if m_next P m block = root then some m
    else if m_next P m block = 0 then none
    else zero_blocks root fuel m (m_next P m block)

/-- The loop looks at a block before it looks for the end of the list. -/
def zero_free_memory (h : Heap) : Option Heap :=
  (zero_blocks P (root P h) (h.m_size + 1) h.mem (m_next P h.mem (root P h))).map fun mem =>
    { h with mem }

end Operations

variable {P : Traits} {h : Heap} {blocks : List Block} {live : List Nat}

theorem usedUnits_le (blocks : List Block) : usedUnits blocks ≤ units blocks := by
  induction blocks with
  | nil => exact Nat.le_refl _
  | cons b rest ih =>
    rw [usedUnits_cons, units_cons]
    split_ifs <;> omega

/-- The loop goes through the free blocks. -/
theorem sum_free_blocks_eq {a x fuel free_memory : Nat}
    (hpath : Path (m_next P h.mem) a (frees P.Alignment x blocks) (root P h))
    (hfree : ∀ y u, (y, (⟨u, false⟩ : Block)) ∈ placed P.Alignment x blocks →
      m_size h.mem y = u ∧ y ≠ root P h ∧ P.Alignment ∣ y ∧ m_next P h.mem y ≠ 0)
    (hfuel : (frees P.Alignment x blocks).length < fuel)
    (hlt : free_memory + (units blocks - usedUnits blocks) * P.Alignment < 2 ^ 64) :
    sum_free_blocks P h fuel (m_next P h.mem a) free_memory =
      some (some (free_memory + (units blocks - usedUnits blocks) * P.Alignment)) := by
  induction blocks generalizing a x fuel free_memory with
  | nil =>
    obtain ⟨fuel, rfl⟩ : ∃ k, fuel = k + 1 := ⟨fuel - 1, by omega⟩
    have hend : m_next P h.mem a = root P h := hpath
    rw [hend, sum_free_blocks, if_pos rfl, units_nil, Nat.zero_sub, Nat.zero_mul, Nat.add_zero]
  | cons b rest ih =>
    obtain ⟨u, used⟩ := b
    have hrest : ∀ y v, (y, (⟨v, false⟩ : Block)) ∈ placed P.Alignment (x + u * P.Alignment) rest →
        m_size h.mem y = v ∧ y ≠ root P h ∧ P.Alignment ∣ y ∧ m_next P h.mem y ≠ 0 :=
      fun y v hy => hfree y v (List.mem_cons_of_mem _ hy)
    have hle := usedUnits_le rest
    cases used with
    | true =>
      have hsame : units (⟨u, true⟩ :: rest) - usedUnits (⟨u, true⟩ :: rest) =
          units rest - usedUnits rest := by
        rw [units_cons, usedUnits_cons, if_pos rfl]
        omega
      rw [hsame] at hlt ⊢
      exact ih hpath hrest hfuel hlt
    | false =>
      have hmore : (units (⟨u, false⟩ :: rest) - usedUnits (⟨u, false⟩ :: rest)) * P.Alignment =
          u * P.Alignment + (units rest - usedUnits rest) * P.Alignment := by
        have hsub : u + units rest - (0 + usedUnits rest) = u + (units rest - usedUnits rest) := by
          omega
        rw [← Nat.add_mul, units_cons, usedUnits_cons, if_neg Bool.false_ne_true]
        exact congrArg (· * P.Alignment) hsub
      obtain ⟨fuel, rfl⟩ : ∃ k, fuel = k + 1 := ⟨fuel - 1, by omega⟩
      rw [frees_cons_free] at hpath hfuel
      obtain ⟨hnext, hpath⟩ := hpath
      obtain ⟨hsize, hroot, halign, hlink⟩ := hfree x u List.mem_cons_self
      rw [hmore, ← Nat.add_assoc] at hlt ⊢
      rw [hnext, sum_free_blocks, if_neg hroot, if_neg (not_not.mpr (Nat.mod_eq_zero_of_dvd halign)),
        if_neg hlink, hsize, Nat.mod_eq_of_lt (by omega)]
      exact ih hpath hrest (Nat.lt_of_succ_lt_succ hfuel) hlt

/-- The links of free blocks are not null. -/
theorem Segment.free_link (hseg : Segment P h blocks []) {x : Nat}
    (hx : x ∈ frees P.Alignment (first_block P h) blocks) : m_next P h.mem x ≠ 0 := by
  have hroot := hseg.tiles.root_pos
  obtain ⟨L, R, hsplit⟩ := List.append_of_mem hx
  have hpath := hseg.tiles.path
  rw [hsplit, path_append] at hpath
  have hnext := (hpath.2 x R rfl).next_eq
  rw [hnext]
  cases R with
  | nil => exact Nat.ne_of_gt hroot
  | cons y R =>
    have hy := (hseg.tiles.free_bounds (x := y) (by rw [hsplit]; simp)).1
    exact Nat.ne_of_gt (Nat.lt_of_le_of_lt (Nat.zero_le _) hy)

/-- The units between the first block and the end fit in the segment. -/
theorem Segment.units_mul_le (hseg : Segment P h blocks []) :
    priv_first_block_offset P h.this h.m_extra_hdr_bytes + units blocks * P.Alignment =
      h.m_size / P.Alignment * P.Alignment := by
  have hstop := hseg.stop_eq
  unfold stop first_block at hstop
  omega

theorem Segment.free_bytes_le (hseg : Segment P h blocks []) :
    (units blocks - usedUnits blocks) * P.Alignment ≤ h.m_size ∧ h.m_allocated ≤ h.m_size ∧
      (units blocks - usedUnits blocks) * P.Alignment < 2 ^ 64 := by
  have hunits := hseg.units_mul_le
  have hused := Nat.mul_le_mul_right P.Alignment (usedUnits_le blocks)
  have hdiv := Nat.div_mul_le_self h.m_size P.Alignment
  have hlt := hseg.tiles.stop_lt
  unfold stop at hlt
  rw [hseg.allocated, Nat.sub_mul]
  omega

theorem Segment.sum_free_blocks_eq (hseg : Segment P h blocks []) :
    sum_free_blocks P h (h.m_size + 1) (m_next P h.mem (root P h)) 0 =
      some (some ((units blocks - usedUnits blocks) * P.Alignment)) := by
  have hlt : 0 + (units blocks - usedUnits blocks) * P.Alignment < 2 ^ 64 := by
    rw [Nat.zero_add]
    exact hseg.free_bytes_le.2.2
  have hfree : ∀ y u, (y, (⟨u, false⟩ : Block)) ∈ placed P.Alignment (first_block P h) blocks →
      m_size h.mem y = u ∧ y ≠ root P h ∧ P.Alignment ∣ y ∧ m_next P h.mem y ≠ 0 := by
    intro y u hy
    have hy' : y ∈ frees P.Alignment (first_block P h) blocks := (mem_frees _).mpr ⟨u, hy⟩
    exact ⟨hseg.tiles.free_size y u hy, Nat.ne_of_gt (hseg.tiles.free_bounds hy').1,
      aligned_placed hseg.tiles.first_aligned hy, hseg.free_link hy'⟩
  have hloop := simple_seq_fit_impl.sum_free_blocks_eq hseg.tiles.path hfree
    (Nat.lt_succ_of_le hseg.frees_length_le) hlt
  rwa [Nat.zero_add] at hloop

theorem Segment.check_sanity_true (hseg : Segment P h blocks []) : check_sanity P h = some true := by
  obtain ⟨hfree, hallocated, _⟩ := hseg.free_bytes_le
  unfold check_sanity
  rw [hseg.sum_free_blocks_eq]
  simp only [Nat.not_lt.mpr hallocated, Nat.not_lt.mpr hfree, decide_false, Bool.not_false,
    Bool.and_self]

/-- A multiple below another one is below it by as much. -/
theorem add_le_of_dvd_of_lt {a d n : Nat} (ha : d ∣ a) (hn : d ∣ n) (hlt : a < n) : a + d ≤ n := by
  obtain ⟨q, rfl⟩ := ha
  obtain ⟨r, rfl⟩ := hn
  have hqr : q + 1 ≤ r := Nat.lt_of_mul_lt_mul_left hlt
  exact Nat.mul_le_mul_left d hqr

theorem Segment.m_size_lt (hseg : Segment P h blocks []) : h.m_size < 2 ^ 64 := by
  have hstop := hseg.stop_eq
  have hdvd : P.Alignment ∣ h.this + h.m_size / P.Alignment * P.Alignment :=
    Nat.dvd_add hseg.this_aligned (Nat.dvd_mul_left _ _)
  rw [← hstop] at hdvd
  have hle := add_le_of_dvd_of_lt hdvd P.Alignment_dvd hseg.tiles.stop_lt
  have hdiv := Nat.div_add_mod' h.m_size P.Alignment
  have hmod := Nat.mod_lt h.m_size P.Alignment_pos
  omega

/-- The free memory is that of the free blocks and what is behind the last unit. -/
theorem Segment.get_free_memory_eq (hseg : Segment P h blocks []) :
    get_free_memory P h =
      (units blocks - usedUnits blocks) * P.Alignment + h.m_size % P.Alignment := by
  have hunits := hseg.units_mul_le
  have hused := Nat.mul_le_mul_right P.Alignment (usedUnits_le blocks)
  have hdiv := Nat.div_add_mod' h.m_size P.Alignment
  have hlt := hseg.m_size_lt
  have houter : size_sub h.m_size h.m_allocated = h.m_size - h.m_allocated :=
    size_sub_of_le hseg.free_bytes_le.2.1 hlt
  have hinner : priv_first_block_offset P h.this h.m_extra_hdr_bytes ≤ h.m_size - h.m_allocated := by
    rw [hseg.allocated]
    omega
  rw [get_free_memory, multiple_of_units, houter, ← priv_first_block_offset_eq hseg.this_aligned,
    size_sub_of_le hinner (Nat.lt_of_le_of_lt (Nat.sub_le _ _) hlt), hseg.allocated, Nat.sub_mul]
  omega

/-- Blocks without one in use, of which no two neighbours are free, are at most one. -/
theorem coalesced_unused (hcoalesced : Coalesced blocks) (hunits : usedUnits blocks = 0)
    (hpos : ∀ b ∈ blocks, 0 < b.units) (hne : blocks ≠ []) : ∃ u, blocks = [⟨u, false⟩] := by
  have hunused : ∀ b ∈ blocks, b.used = false := by
    intro b hb
    by_contra hin
    rw [Bool.not_eq_false] at hin
    obtain ⟨L, R, rfl⟩ := List.append_of_mem hb
    rw [usedUnits_append, usedUnits_cons, if_pos hin] at hunits
    have hb' := hpos b hb
    omega
  cases blocks with
  | nil => exact absurd rfl hne
  | cons b rest =>
    obtain ⟨u, used⟩ := b
    have hfree : used = false := hunused _ List.mem_cons_self
    cases rest with
    | nil => exact ⟨u, by rw [hfree]⟩
    | cons c rest =>
      have hpair := (List.isChain_cons_cons.mp hcoalesced).1
      rw [hfree, hunused c (List.mem_cons_of_mem _ List.mem_cons_self)] at hpair
      rcases hpair with hpair | hpair <;> cases hpair

theorem Segment.blocks_ne_nil (hseg : Segment P h blocks []) : blocks ≠ [] := by
  rintro rfl
  have hstop := hseg.stop_eq
  have hnonempty := hseg.nonempty
  rw [stop_nil] at hstop
  omega

/-- `all_memory_deallocated` tells whether no buffer is held. -/
theorem Owned.all_memory_deallocated_iff (howned : Owned P h blocks [] live []) :
    all_memory_deallocated P h ↔ live = [] := by
  have hseg := howned.toSegment
  have hpos := hseg.units_pos
  constructor
  · rintro ⟨hzero, _⟩
    rw [hseg.allocated] at hzero
    have hunits : usedUnits blocks = 0 :=
      (Nat.mul_eq_zero.mp hzero).resolve_right (Nat.ne_of_gt P.Alignment_pos)
    obtain ⟨u, rfl⟩ := coalesced_unused howned.coalesced hunits hpos hseg.blocks_ne_nil
    have hperm := howned.live_perm
    rw [useds_cons_free, useds_nil, List.map_nil] at hperm
    exact hperm.eq_nil
  · rintro rfl
    have huseds : useds P.Alignment (first_block P h) blocks = [] := by
      have hmap := howned.live_perm.symm.eq_nil
      exact List.map_eq_nil_iff.mp hmap
    have hunits := usedUnits_of_useds_nil _ huseds
    refine ⟨by rw [hseg.allocated, hunits, Nat.zero_mul], ?_⟩
    obtain ⟨u, rfl⟩ := coalesced_unused howned.coalesced hunits hpos hseg.blocks_ne_nil
    have hpath := hseg.tiles.path
    rw [frees_cons_free, frees_nil, path_cons, path_nil] at hpath
    rw [hpath.1]
    exact hpath.2

/-- The bytes of the free blocks at some addresses, without their headers. -/
def UserBytes (P : Traits) (first : Nat) (blocks : List Block) (nodes : List Nat) (y : Nat) : Prop :=
  ∃ x ∈ nodes, ∃ u, (x, (⟨u, false⟩ : Block)) ∈ placed P.Alignment first blocks ∧
    x + P.BlockCtrlBytes ≤ y ∧ y < x + u * P.Alignment

section Zero

variable {start first x u : Nat} {m : Memory}

theorem Tiles.get_user_bytes_eq (htiles : Tiles P start first m blocks [])
    (hx : (x, (⟨u, false⟩ : Block)) ∈ placed P.Alignment first blocks) :
    get_user_bytes P m x = u * P.Alignment - P.BlockCtrlBytes := by
  have hbound : x + u * P.Alignment ≤ stop P.Alignment first blocks := (mem_placed_bounds _ hx).2
  have hlt : u * P.Alignment < 2 ^ 64 :=
    Nat.lt_of_le_of_lt (Nat.le_trans (Nat.le_add_left _ _) hbound) htiles.stop_lt
  have hle : P.BlockCtrlBytes ≤ u * P.Alignment :=
    bytes_ge (htiles.sizes _ (mem_of_mem_placed _ hx))
  rw [get_user_bytes, htiles.free_size x u hx, Nat.mod_eq_of_lt hlt, size_sub_of_le hle hlt]

/-- A free block is cleared behind its header. -/
theorem Tiles.zero_block (htiles : Tiles P start first m blocks [])
    (hx : (x, (⟨u, false⟩ : Block)) ∈ placed P.Alignment first blocks) :
    Tiles P start first (m.zero (x + P.BlockCtrlBytes) (u * P.Alignment - P.BlockCtrlBytes)) blocks
      [] := by
  have hge := P.BlockCtrlBytes_ge
  have hbefore := htiles.root_before
  have hfirst := (mem_placed_bounds _ hx).1
  have hle : P.BlockCtrlBytes ≤ u * P.Alignment :=
    bytes_ge (htiles.sizes _ (mem_of_mem_placed _ hx))
  refine htiles.same_headers (zero_sameOn m (Or.inl (by omega))) fun y b hy => zero_sameOn m ?_
  have hlength := length_ge htiles.sizes hy
  rcases placed_apart _ hy hx with ⟨rfl, _⟩ | hbelow | habove
  · omega
  · omega
  · change x + u * P.Alignment ≤ y at habove
    omega

theorem userBytes_cons {z : Nat} {zs : List Nat} {y : Nat} : UserBytes P first blocks (z :: zs) y ↔
    UserBytes P first blocks [z] y ∨ UserBytes P first blocks zs y := by
  simp [UserBytes]

/-- A step of the loop. -/
theorem Tiles.zero_blocks_succ {xs zs : List Nat} {z : Nat} (htiles : Tiles P start first m blocks [])
    (hfrees : frees P.Alignment first blocks = xs ++ z :: zs) (fuel : Nat) :
    ∃ m₁, Tiles P start first m₁ blocks [] ∧ m_next P m₁ z = zs.headD start ∧
      zero_blocks P start (fuel + 1) m z =
        (if m_next P m₁ z = start then some m₁ else if m_next P m₁ z = 0 then none
          else zero_blocks P start fuel m₁ (m_next P m₁ z)) ∧
      ∀ y, (UserBytes P first blocks [z] y → m₁ y = 0) ∧
        (¬ UserBytes P first blocks [z] y → m₁ y = m y) := by
  have hz : z ∈ frees P.Alignment first blocks := by
    rw [hfrees]
    exact List.mem_append_right _ List.mem_cons_self
  obtain ⟨u, hu⟩ := (mem_frees _).mp hz
  have hle : P.BlockCtrlBytes ≤ u * P.Alignment :=
    bytes_ge (htiles.sizes _ (mem_of_mem_placed _ hu))
  have htiles₁ := htiles.zero_block hu
  have hpath := htiles₁.path
  rw [hfrees, path_append] at hpath
  refine ⟨_, htiles₁, (hpath.2 z zs rfl).next_eq, ?_, fun y => ⟨?_, ?_⟩⟩
  · rw [zero_blocks, htiles.get_user_bytes_eq hu]
    rfl
  · rintro ⟨x, hx, v, hv, hlow, hhigh⟩
    rw [List.mem_singleton.mp hx] at hv hlow hhigh
    have huv : u = v := (htiles.free_size z u hu).symm.trans (htiles.free_size z v hv)
    rw [← huv] at hhigh
    exact if_pos (by omega)
  · intro hnot
    refine if_neg fun hin => hnot ⟨z, List.mem_singleton_self z, u, hu, hin.1, ?_⟩
    omega

/-- The loop clears the rest of the free blocks. -/
theorem Tiles.zero_blocks_eq {xs zs : List Nat} {z fuel : Nat} (htiles : Tiles P start first m blocks [])
    (hfrees : frees P.Alignment first blocks = xs ++ z :: zs) (hfuel : zs.length < fuel) :
    ∃ m', zero_blocks P start fuel m z = some m' ∧ Tiles P start first m' blocks [] ∧
      ∀ y, (UserBytes P first blocks (z :: zs) y → m' y = 0) ∧
        (¬ UserBytes P first blocks (z :: zs) y → m' y = m y) := by
  induction zs generalizing xs z m fuel with
  | nil =>
    obtain ⟨fuel, rfl⟩ : ∃ k, fuel = k + 1 := ⟨fuel - 1, by omega⟩
    obtain ⟨m₁, htiles₁, hnext, hloop, hbytes⟩ := htiles.zero_blocks_succ hfrees fuel
    exact ⟨m₁, hloop.trans (if_pos hnext), htiles₁, hbytes⟩
  | cons w zs ih =>
    obtain ⟨fuel, rfl⟩ : ∃ k, fuel = k + 1 := ⟨fuel - 1, by omega⟩
    obtain ⟨m₁, htiles₁, hnext, hloop, hbytes⟩ := htiles.zero_blocks_succ hfrees fuel
    rw [List.append_cons] at hfrees
    obtain ⟨m', hrest, htiles', hall⟩ := ih htiles₁ hfrees (Nat.lt_of_succ_lt_succ hfuel)
    have hw : w ∈ frees P.Alignment first blocks := by
      rw [hfrees]
      exact List.mem_append_right _ List.mem_cons_self
    have hlow := (htiles.free_bounds hw).1
    have hwnext : m_next P m₁ z = w := hnext
    refine ⟨m', ?_, htiles', fun y => ?_⟩
    · rw [hloop, hwnext, if_neg (Nat.ne_of_gt hlow),
        if_neg (Nat.ne_of_gt (Nat.lt_of_le_of_lt (Nat.zero_le _) hlow)), hrest]
    · rw [userBytes_cons]
      obtain ⟨hclear, hkeep⟩ := hall y
      by_cases hin : UserBytes P first blocks (w :: zs) y
      · exact ⟨fun _ => hclear hin, fun hnot => absurd (Or.inr hin) hnot⟩
      · rw [hkeep hin]
        exact ⟨fun hz => (hbytes y).1 (hz.resolve_right hin),
          fun hnot => (hbytes y).2 fun hz => hnot (Or.inl hz)⟩

end Zero

/-- In every state of every run, resizing included, `check_sanity` succeeds,
    `get_free_memory` counts the free blocks and the bytes behind the last unit, and
    `all_memory_deallocated` tells whether no buffer is held. -/
theorem counters_agree_in_every_run {this segment_size extra_hdr_bytes : Nat} {mem : Memory}
    (hmem : Constructible P this segment_size extra_hdr_bytes mem) {s : State}
    (hrun : Reaches (event_step P) (Resizable P)
      ⟨construct P this segment_size extra_hdr_bytes mem, []⟩ s) :
    ∃ blocks, Invariant P s.heap s.live blocks ∧ check_sanity P s.heap = some true ∧
      get_free_memory P s.heap =
        (units blocks - usedUnits blocks) * P.Alignment + s.heap.m_size % P.Alignment ∧
      (all_memory_deallocated P s.heap ↔ s.live = []) := by
  have hholds : Holds P s.heap s.live [] :=
    hrun.invariant (P := fun s => Holds P s.heap s.live []) (construct_holds hmem)
      fun s event t hs hresizable hstep => event_step_holds hs hresizable hstep
  obtain ⟨blocks, howned⟩ := hholds
  exact ⟨blocks, howned.invariant, howned.toSegment.check_sanity_true,
    howned.toSegment.get_free_memory_eq, howned.all_memory_deallocated_iff⟩

/-- A new page with one buffer. -/
theorem counters_agree_on_a_new_page : ∃ s, event_step raw_pointers
    ⟨construct raw_pointers 4096 4096 0 fun _ => 0, []⟩ (.call (.allocate 100)) = some s ∧
      s.live = [4160] ∧ check_sanity raw_pointers s.heap = some true ∧
      ¬ all_memory_deallocated raw_pointers s.heap := by
  obtain ⟨s, hstep, hlive, _⟩ := page_allocates
  have hresizable : Resizable raw_pointers ⟨construct raw_pointers 4096 4096 0 fun _ => 0, []⟩
      (.call (.allocate 100)) := trivial
  obtain ⟨_, _, hsane, _, hall⟩ :=
    counters_agree_in_every_run page_constructible (.tail .refl hresizable hstep)
  refine ⟨s, hstep, hlive, hsane, fun hdeallocated => ?_⟩
  rw [hall.mp hdeallocated] at hlive
  cases hlive

/-- In every state of every run, resizing included, in which a block is free,
    `zero_free_memory` clears the bytes of the free blocks behind their headers and no
    others, and the heap keeps its blocks and its buffers. -/
theorem clears_free_memory_in_every_run {this segment_size extra_hdr_bytes : Nat} {mem : Memory}
    (hmem : Constructible P this segment_size extra_hdr_bytes mem) {s : State}
    (hrun : Reaches (event_step P) (Resizable P)
      ⟨construct P this segment_size extra_hdr_bytes mem, []⟩ s)
    (hfree : m_next P s.heap.mem (root P s.heap) ≠ root P s.heap) :
    ∃ blocks h', Invariant P s.heap s.live blocks ∧ zero_free_memory P s.heap = some h' ∧
      Invariant P h' s.live blocks ∧
      ∀ y, (UserBytes P (first_block P s.heap) blocks
          (frees P.Alignment (first_block P s.heap) blocks) y → h'.mem y = 0) ∧
        (¬ UserBytes P (first_block P s.heap) blocks
          (frees P.Alignment (first_block P s.heap) blocks) y → h'.mem y = s.heap.mem y) := by
  have hholds : Holds P s.heap s.live [] :=
    hrun.invariant (P := fun s => Holds P s.heap s.live []) (construct_holds hmem)
      fun s event t hs hresizable hstep => event_step_holds hs hresizable hstep
  obtain ⟨blocks, howned⟩ := hholds
  have hseg := howned.toSegment
  obtain ⟨z, zs, hfrees⟩ : ∃ z zs, frees P.Alignment (first_block P s.heap) blocks = z :: zs := by
    refine List.exists_cons_of_ne_nil fun hnil => hfree ?_
    have hpath := hseg.tiles.path
    rw [hnil] at hpath
    exact hpath
  have hnext : m_next P s.heap.mem (root P s.heap) = z := by
    have hpath := hseg.tiles.path
    rw [hfrees] at hpath
    exact hpath.1
  have hlength := hseg.frees_length_le
  rw [hfrees, List.length_cons] at hlength
  have hsplit : frees P.Alignment (first_block P s.heap) blocks = [] ++ z :: zs := hfrees
  obtain ⟨m', hloop, htiles', hbytes⟩ := hseg.tiles.zero_blocks_eq hsplit (Nat.lt_succ_of_lt hlength)
  have howned' : Owned P { s.heap with mem := m' } blocks [] s.live [] :=
    { Segment.of_tiles htiles' hseg.allocated hseg.this_aligned hseg.nonempty hseg.stop_eq with
      coalesced := howned.coalesced
      live_perm := howned.live_perm
      sized_placed := fun _ _ hp => absurd hp List.not_mem_nil }
  refine ⟨blocks, _, howned.invariant, ?_, howned'.invariant, ?_⟩
  · rw [zero_free_memory, hnext, hloop]
    rfl
  · rw [hfrees]
    exact hbytes

/-- A page whose memory behind the header is not cleared. -/
def used_page : Memory :=
  fun b => if b < 4144 then 0 else 1

theorem used_page_constructible : Constructible raw_pointers 4096 4096 0 used_page where
  this_pos := by decide
  this_aligned := by decide
  segment_lt := by decide
  header_le := by decide
  min_size_le := by decide
  root_size := by decide

/-- On that page, with a buffer of 100 bytes at 4160, the memory behind the header of the
    free block at 4272 is cleared, and the buffer is not. -/
theorem clears_free_memory_on_a_new_page : ∃ s h', event_step raw_pointers
    ⟨construct raw_pointers 4096 4096 0 used_page, []⟩ (.call (.allocate 100)) = some s ∧
      s.live = [4160] ∧ zero_free_memory raw_pointers s.heap = some h' ∧
      (s.heap.mem 5000 = 1 ∧ h'.mem 5000 = 0) ∧ h'.mem 4200 = 1 := by
  have hanswer : (step raw_pointers ⟨construct raw_pointers 4096 4096 0 used_page, []⟩
      (.allocate 100)).map (fun s => (s.live, [root raw_pointers s.heap,
        m_next raw_pointers s.heap.mem 4096, m_next raw_pointers s.heap.mem 4272,
        m_size s.heap.mem 4272, (s.heap.mem 5000).toNat, (s.heap.mem 4200).toNat])) =
          some ([4160], [4096, 4272, 4096, 245, 1, 1]) := by decide +kernel
  obtain ⟨s, hstep, hs⟩ := Option.map_eq_some_iff.mp hanswer
  simp only [Prod.mk.injEq, List.cons.injEq, and_true] at hs
  obtain ⟨hlive, hroot, hfirst, hlast, hsize, hbyte, hkept⟩ := hs
  rw [← UInt8.toNat_one, UInt8.toNat_inj] at hbyte hkept
  have hresizable : Resizable raw_pointers ⟨construct raw_pointers 4096 4096 0 used_page, []⟩
      (.call (.allocate 100)) := trivial
  have hfree : m_next raw_pointers s.heap.mem (root raw_pointers s.heap) ≠
      root raw_pointers s.heap := by
    rw [hroot, hfirst]
    decide
  obtain ⟨blocks, h', hinv, hzero, _, hbytes⟩ :=
    clears_free_memory_in_every_run used_page_constructible (.tail .refl hresizable hstep) hfree
  have hfrees : frees raw_pointers.Alignment (first_block raw_pointers s.heap) blocks = [4272] := by
    have hpath := hinv.circular
    rw [hroot] at hpath
    cases hnodes : frees raw_pointers.Alignment (first_block raw_pointers s.heap) blocks with
    | nil =>
      rw [hnodes, path_nil, hfirst] at hpath
      cases hpath
    | cons x xs =>
      rw [hnodes, path_cons, hfirst] at hpath
      obtain ⟨rfl, hpath⟩ := hpath
      cases xs with
      | nil => rfl
      | cons y ys =>
        rw [path_cons, hlast] at hpath
        obtain ⟨rfl, _⟩ := hpath
        have hsorted := hinv.sorted
        rw [hnodes, List.pairwise_cons] at hsorted
        exact absurd (hsorted.1 4096 List.mem_cons_self) (by decide)
  obtain ⟨u, hu⟩ : ∃ u, (4272, (⟨u, false⟩ : Block)) ∈
      placed raw_pointers.Alignment (first_block raw_pointers s.heap) blocks := by
    refine (mem_frees _).mp ?_
    rw [hfrees]
    exact List.mem_singleton_self _
  have hunits : 245 = u := hsize.symm.trans (hinv.stored_size _ _ hu)
  refine ⟨s, h', hstep, hlive, hzero, ⟨hbyte, (hbytes 5000).1 ?_⟩, ((hbytes 4200).2 ?_).trans hkept⟩
  · rw [hfrees]
    refine ⟨4272, List.mem_singleton_self _, u, hu, by decide, ?_⟩
    rw [← hunits]
    decide
  · rw [hfrees]
    rintro ⟨x, hx, _, _, hlow, _⟩
    rw [List.mem_singleton.mp hx] at hlow
    exact absurd hlow (by decide)

end interprocess.ipcdetail.simple_seq_fit_impl
