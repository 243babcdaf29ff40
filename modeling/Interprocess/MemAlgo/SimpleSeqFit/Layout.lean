import Interprocess.Base.LinkedList
import Interprocess.Base.Tiling
import Interprocess.MemAlgo.SimpleSeqFit.Allocate

namespace interprocess.ipcdetail.simple_seq_fit_impl

open Memory Tiling LinkedList

/-- The blocks tile the memory from `first` on, and the list through `root` visits
    the free ones in the order of their addresses. The allocated blocks have a null
    link; the headers of those at the addresses `stale` are not written yet. -/
structure Tiles (P : Traits) (root first : Nat) (m : Memory) (blocks : List Block)
    (stale : List Nat) : Prop where
  path : Path (m_next P m) root (frees P.Alignment first blocks) root
  root_size : m_size m root = 0
  free_size : ∀ x u, (x, (⟨u, false⟩ : Block)) ∈ placed P.Alignment first blocks → m_size m x = u
  used_ctrl : ∀ x u, (x, (⟨u, true⟩ : Block)) ∈ placed P.Alignment first blocks → x ∉ stale →
    ctrl P m x = ⟨0, u⟩
  sizes : ∀ b ∈ blocks, P.BlockCtrlUnits ≤ b.units
  root_pos : 0 < root
  root_aligned : 8 ∣ root
  root_before : root + 16 ≤ first
  first_aligned : P.Alignment ∣ first
  stop_lt : stop P.Alignment first blocks < 2 ^ 64

variable {P : Traits} {root first : Nat} {m m' : Memory} {L G G' R blocks : List Block}
  {stale stale' : List Nat}

theorem Tiles.stop_le (htiles : Tiles P root first m blocks stale) :
    stop P.Alignment first blocks ≤ 2 ^ 64 :=
  Nat.le_of_lt htiles.stop_lt

/-- The free block in front of the address where the blocks `L` end. -/
def previous (P : Traits) (root first : Nat) (L : List Block) : Nat :=
  (frees P.Alignment first L).getLastD root

/-- The first free block from `a` on. -/
def following (P : Traits) (root a : Nat) (R : List Block) : Nat :=
  (frees P.Alignment a R).headD root

theorem bytes_ge {u : Nat} (hu : P.BlockCtrlUnits ≤ u) : P.BlockCtrlBytes ≤ u * P.Alignment := by
  rw [← P.BlockCtrlUnits_mul]
  exact Nat.mul_le_mul_right _ hu

/-- The blocks of a layout are at least as long as a header. -/
theorem length_ge {x : Nat} {b : Block} (hsizes : ∀ b ∈ blocks, P.BlockCtrlUnits ≤ b.units)
    (hx : (x, b) ∈ placed P.Alignment first blocks) : 16 ≤ b.units * P.Alignment :=
  Nat.le_trans P.BlockCtrlBytes_ge (bytes_ge (hsizes b (mem_of_mem_placed _ hx)))

theorem aligned_placed {x : Nat} {b : Block} (hfirst : P.Alignment ∣ first)
    (hx : (x, b) ∈ placed P.Alignment first blocks) : P.Alignment ∣ x := by
  obtain ⟨L, R, _, rfl⟩ := exists_of_mem_placed _ hx
  exact (Nat.dvd_add_right hfirst).mpr (Nat.dvd_mul_left _ _)

/-- The link in front of the blocks `G` stands in `m_root` or in a free block of
    `L`. -/
theorem previous_cases (P : Traits) (root first : Nat) (L : List Block) :
    previous P root first L = root ∨
      ∃ u, (previous P root first L, (⟨u, false⟩ : Block)) ∈ placed P.Alignment first L := by
  have hmem := getLastD_mem root (frees P.Alignment first L)
  rcases List.mem_cons.mp hmem with heq | hfree
  · exact Or.inl heq
  · exact Or.inr ((mem_frees _).mp hfree)

theorem following_cases (P : Traits) (root a : Nat) (R : List Block) :
    following P root a R = root ∨
      ∃ u, (following P root a R, (⟨u, false⟩ : Block)) ∈ placed P.Alignment a R := by
  unfold following
  cases hfrees : frees P.Alignment a R with
  | nil => exact Or.inl rfl
  | cons x xs =>
    have hx : x ∈ frees P.Alignment a R := by
      rw [hfrees]
      exact List.mem_cons_self
    exact Or.inr ((mem_frees _).mp hx)

/-- The layout is in the headers only. -/
theorem Tiles.same_headers (htiles : Tiles P root first m blocks stale)
    (hroot : SameOn m' m root (root + 16))
    (hheader : ∀ y b, (y, b) ∈ placed P.Alignment first blocks → SameOn m' m y (y + 16)) :
    Tiles P root first m' blocks stale := by
  refine { htiles with path := ?_, root_size := ?_, free_size := ?_, used_ctrl := ?_ }
  · refine htiles.path.congr fun y hy => P.load_ptr_congr ?_
    rcases List.mem_cons.mp hy with rfl | hfree
    · exact hroot.mono (Nat.le_refl _) (by omega)
    · obtain ⟨v, hv⟩ := (mem_frees _).mp hfree
      exact (hheader y _ hv).mono (Nat.le_refl _) (by omega)
  · exact (load_congr (hroot.mono (by omega) (by omega))).trans htiles.root_size
  · intro y v hy
    refine (load_congr ((hheader y _ hy).mono (by omega) (by omega))).trans ?_
    exact htiles.free_size y v hy
  · intro y v hy hfresh
    rw [ctrl_congr (hheader y _ hy)]
    exact htiles.used_ctrl y v hy hfresh

/-- The blocks `G` between `L` and `R` became the blocks `G'`: only the link in
    front of them and the bytes of `G` are written. -/
structure Exchange (P : Traits) (root first : Nat) (m m' : Memory) (L G G' R : List Block)
    (stale : List Nat) : Prop where
  units_eq : units G' = units G
  sizes : ∀ b ∈ G', P.BlockCtrlUnits ≤ b.units
  path : Path (m_next P m') (previous P root first L)
    (frees P.Alignment (stop P.Alignment first L) G')
    (following P root (stop P.Alignment first (L ++ G)) R)
  free_size : ∀ x u, (x, (⟨u, false⟩ : Block)) ∈
    placed P.Alignment (stop P.Alignment first L) G' → m_size m' x = u
  used_ctrl : ∀ x u, (x, (⟨u, true⟩ : Block)) ∈
    placed P.Alignment (stop P.Alignment first L) G' → x ∉ stale → ctrl P m' x = ⟨0, u⟩
  frame : ∀ b, (b < previous P root first L ∨ previous P root first L + 8 ≤ b) →
    (b < stop P.Alignment first L ∨ stop P.Alignment first (L ++ G) ≤ b) → m' b = m b

section Exchange

/-- The link in front of `G` is before `G`. -/
theorem previous_le (hsizes : ∀ b ∈ L, P.BlockCtrlUnits ≤ b.units) (hbefore : root + 16 ≤ first) :
    previous P root first L + 16 ≤ stop P.Alignment first L := by
  rcases previous_cases P root first L with heq | ⟨u, hu⟩
  · have hle := le_stop P.Alignment first L
    omega
  · have hbound := (mem_placed_bounds _ hu).2
    have hlength := length_ge hsizes hu
    omega

/-- A block of `L` is the one with the link, or away from it. -/
theorem previous_apart {y : Nat} {b : Block} (hsizes : ∀ b ∈ L, P.BlockCtrlUnits ≤ b.units)
    (hbefore : root + 16 ≤ first) (hy : (y, b) ∈ placed P.Alignment first L) :
    (y = previous P root first L ∧ b.used = false) ∨ previous P root first L + 16 ≤ y ∨
      y + 16 ≤ previous P root first L := by
  have hbound := (mem_placed_bounds _ hy).1
  have hlength := length_ge hsizes hy
  rcases previous_cases P root first L with heq | ⟨u, hu⟩
  · right
    left
    omega
  · have hlength' := length_ge hsizes hu
    rcases placed_apart _ hy hu with ⟨heq, hb⟩ | hapart | hapart
    · exact Or.inl ⟨heq, by rw [hb]⟩
    · right
      right
      omega
    · right
      left
      omega

theorem placed_left {y : Nat} {b : Block} (G R : List Block)
    (hy : (y, b) ∈ placed P.Alignment first L) :
    (y, b) ∈ placed P.Alignment first (L ++ G ++ R) := by
  rw [placed_append, placed_append, List.mem_append, List.mem_append]
  exact Or.inl (Or.inl hy)

theorem placed_right {y : Nat} {b : Block}
    (hy : (y, b) ∈ placed P.Alignment (stop P.Alignment first (L ++ G)) R) :
    (y, b) ∈ placed P.Alignment first (L ++ G ++ R) := by
  rw [placed_append, List.mem_append]
  exact Or.inr hy

variable (htiles : Tiles P root first m (L ++ G ++ R) stale)
  (hex : Exchange P root first m m' L G G' R stale')

include htiles

theorem Tiles.sizes_left : ∀ b ∈ L, P.BlockCtrlUnits ≤ b.units := by
  intro b hb
  exact htiles.sizes b (by simp [hb])

theorem Tiles.sizes_right : ∀ b ∈ R, P.BlockCtrlUnits ≤ b.units := by
  intro b hb
  exact htiles.sizes b (by simp [hb])

include hex

/-- The blocks of `L` keep their headers, up to the link in front of `G`. -/
theorem Exchange.left_same {y : Nat} {b : Block} (hy : (y, b) ∈ placed P.Alignment first L)
    (hne : y ≠ previous P root first L) : SameOn m' m y (y + b.units * P.Alignment) := by
  intro z hlo hhi
  have hbound := (mem_placed_bounds _ hy).2
  refine hex.frame z ?_ (by omega)
  rcases previous_apart htiles.sizes_left htiles.root_before hy with ⟨heq, _⟩ | hapart | hapart
  · exact absurd heq hne
  · omega
  · rcases previous_cases P root first L with heq | ⟨u, hu⟩
    · have hle := (mem_placed_bounds _ hy).1
      have hbefore := htiles.root_before
      omega
    · have hlength := length_ge htiles.sizes_left hu
      rcases placed_apart _ hy hu with ⟨heq, _⟩ | hapart' | hapart'
      · exact absurd heq hne
      · omega
      · omega

theorem Exchange.right_same {y : Nat} {b : Block}
    (hy : (y, b) ∈ placed P.Alignment (stop P.Alignment first (L ++ G)) R) :
    SameOn m' m y (y + b.units * P.Alignment) := by
  intro z hlo hhi
  have hbound := (mem_placed_bounds _ hy).1
  have hprev := previous_le htiles.sizes_left htiles.root_before
  have hle := le_stop P.Alignment (stop P.Alignment first L) G
  rw [← stop_append] at hle
  exact hex.frame z (by omega) (by omega)

theorem Exchange.root_size_eq : m_size m' root = m_size m root := by
  refine load_congr ?_
  intro z hlo hhi
  have hbefore := htiles.root_before
  have hle := le_stop P.Alignment first L
  refine hex.frame z ?_ (by omega)
  rcases previous_cases P root first L with heq | ⟨u, hu⟩
  · omega
  · have hbound := (mem_placed_bounds _ hu).1
    omega

theorem Exchange.path_left : Path (m_next P m') root (frees P.Alignment first L)
    ((frees P.Alignment (stop P.Alignment first L) G' ++
      frees P.Alignment (stop P.Alignment first (L ++ G)) R).headD root) := by
  have hpath := htiles.path
  rw [frees_append, frees_append, List.append_assoc, path_append] at hpath
  have hsorted := frees_sorted (A := P.Alignment) (a := first) P.Alignment_pos
    fun b hb => Nat.lt_of_lt_of_le P.BlockCtrlUnits_pos (htiles.sizes_left b hb)
  have hnotmem : root ∉ frees P.Alignment first L := by
    intro hroot
    obtain ⟨u, hu⟩ := (mem_frees _).mp hroot
    have hbound := (mem_placed_bounds _ hu).1
    have hbefore := htiles.root_before
    omega
  refine hpath.1.retarget (List.nodup_cons.mpr ⟨hnotmem, hsorted.imp Nat.ne_of_lt⟩) ?_ ?_
  · have hnext := hex.path.next_eq
    rw [previous] at hnext
    rw [hnext, following]
    cases frees P.Alignment (stop P.Alignment first L) G' with
    | nil => rfl
    | cons x xs => rfl
  · intro y hy hne
    refine P.load_ptr_congr ?_
    rcases List.mem_cons.mp hy with rfl | hfree
    · intro z hlo hhi
      have hbefore := htiles.root_before
      have hle := le_stop P.Alignment first L
      rcases previous_cases P y first L with heq | ⟨u, hu⟩
      · exact absurd heq.symm hne
      · have hbound := (mem_placed_bounds _ hu).1
        exact hex.frame z (by omega) (by omega)
    · obtain ⟨u, hu⟩ := (mem_frees _).mp hfree
      have hlength := length_ge htiles.sizes_left hu
      exact (hex.left_same htiles hu hne).mono (Nat.le_refl y) (by omega)

theorem Exchange.path_right : ∀ y ys,
    frees P.Alignment (stop P.Alignment first (L ++ G)) R = y :: ys →
      Path (m_next P m') y ys root := by
  intro y ys hfrees
  have hpath := htiles.path
  rw [frees_append, path_append] at hpath
  refine (hpath.2 y ys hfrees).congr ?_
  intro z hz
  rw [← hfrees] at hz
  obtain ⟨u, hu⟩ := (mem_frees _).mp hz
  have hlength := length_ge htiles.sizes_right hu
  exact P.load_ptr_congr ((hex.right_same htiles hu).mono (Nat.le_refl z) (by omega))

/-- An exchange keeps the layout. -/
theorem Tiles.exchange (hstale : ∀ y ∈ stale, y ∈ stale' ∨
      stop P.Alignment first L ≤ y ∧ y < stop P.Alignment first (L ++ G)) :
    Tiles P root first m' (L ++ G' ++ R) stale' := by
  have hstop : stop P.Alignment first (L ++ G') = stop P.Alignment first (L ++ G) := by
    simp only [stop, units_append, hex.units_eq]
  have hplaced : ∀ {y b}, (y, b) ∈ placed P.Alignment first (L ++ G' ++ R) →
      (y, b) ∈ placed P.Alignment first L ∨
        (y, b) ∈ placed P.Alignment (stop P.Alignment first L) G' ∨
        (y, b) ∈ placed P.Alignment (stop P.Alignment first (L ++ G)) R := by
    intro y b hy
    rw [placed_append, placed_append, hstop, List.mem_append, List.mem_append, or_assoc] at hy
    exact hy
  refine ⟨?_, ?_, ?_, ?_, ?_, htiles.root_pos, htiles.root_aligned, htiles.root_before,
    htiles.first_aligned, ?_⟩
  · rw [frees_append, frees_append, hstop, List.append_assoc, path_append]
    refine ⟨hex.path_left htiles, ?_⟩
    intro y ys hys
    cases hfrees : frees P.Alignment (stop P.Alignment first L) G' with
    | nil =>
      rw [hfrees, List.nil_append] at hys
      exact hex.path_right htiles y ys hys
    | cons x xs =>
      rw [hfrees, List.cons_append] at hys
      cases hys
      have hpath := hex.path
      rw [hfrees, path_cons] at hpath
      exact path_append.mpr ⟨hpath.2, hex.path_right htiles⟩
  · rw [hex.root_size_eq htiles]
    exact htiles.root_size
  · intro y u hy
    rcases hplaced hy with hL | hG | hR
    · rw [← htiles.free_size y u (placed_left G R hL)]
      have hlength := length_ge htiles.sizes_left hL
      have hbound := mem_placed_bounds _ hL
      refine load_congr ?_
      intro z hlo hhi
      refine hex.frame z ?_ (by omega)
      have hapart := previous_apart htiles.sizes_left htiles.root_before hL
      omega
    · exact hex.free_size y u hG
    · rw [← htiles.free_size y u (placed_right hR)]
      have hlength := length_ge htiles.sizes_right hR
      exact load_congr ((hex.right_same htiles hR).mono (by omega) (by omega))
  · intro y u hy hfresh
    rcases hplaced hy with hL | hG | hR
    · have hlength := length_ge htiles.sizes_left hL
      have hbound := (mem_placed_bounds _ hL).2
      have hne : y ≠ previous P root first L := by
        intro heq
        rcases previous_apart htiles.sizes_left htiles.root_before hL with ⟨_, hused⟩ | hapart
        · cases hused
        · omega
      rw [ctrl_congr ((hex.left_same htiles hL hne).mono (Nat.le_refl y) (by omega))]
      refine htiles.used_ctrl y u (placed_left G R hL) fun hmem => ?_
      rcases hstale y hmem with hstale | hrange
      · exact hfresh hstale
      · omega
    · exact hex.used_ctrl y u hG hfresh
    · have hlength := length_ge htiles.sizes_right hR
      have hbound := (mem_placed_bounds _ hR).1
      rw [ctrl_congr ((hex.right_same htiles hR).mono (Nat.le_refl y) (by omega))]
      refine htiles.used_ctrl y u (placed_right hR) fun hmem => ?_
      rcases hstale y hmem with hstale | hrange
      · exact hfresh hstale
      · omega
  · intro b hb
    rw [List.mem_append, List.mem_append] at hb
    rcases hb with (hL | hG) | hR
    · exact htiles.sizes_left b hL
    · exact hex.sizes b hG
    · exact htiles.sizes_right b hR
  · have hlt := htiles.stop_lt
    rw [stop_append] at hlt ⊢
    rw [hstop]
    exact hlt

/-- An allocated block outside `G` stays where it is, with its bytes. -/
theorem Exchange.kept {y v : Nat}
    (hy : (y, (⟨v, true⟩ : Block)) ∈ placed P.Alignment first (L ++ G ++ R))
    (hother : y ∉ useds P.Alignment (stop P.Alignment first L) G) :
    (y, (⟨v, true⟩ : Block)) ∈ placed P.Alignment first (L ++ G' ++ R) ∧
      SameOn m' m y (y + v * P.Alignment) := by
  have hstop : stop P.Alignment first (L ++ G') = stop P.Alignment first (L ++ G) := by
    simp only [stop, units_append, hex.units_eq]
  rw [placed_append, placed_append, List.mem_append, List.mem_append] at hy
  rcases hy with (hL | hG) | hR
  · refine ⟨placed_left G' R hL, hex.left_same htiles hL ?_⟩
    intro heq
    have hlength : 16 ≤ v * P.Alignment := length_ge htiles.sizes_left hL
    rcases previous_apart htiles.sizes_left htiles.root_before hL with ⟨_, hused⟩ | hapart
    · cases hused
    · omega
  · exact absurd ((mem_useds _).mpr ⟨v, hG⟩) hother
  · refine ⟨?_, hex.right_same htiles hR⟩
    rw [placed_append, List.mem_append, hstop]
    exact Or.inr hR

end Exchange

end interprocess.ipcdetail.simple_seq_fit_impl
