import Interprocess.Base.Tiling
import Interprocess.MemAlgo.RbtreeBestFit.Effects

namespace interprocess.rbtree_best_fit

open ipcdetail Memory Tiling

/-- The header of a block agrees with the block and with the one in front of it. -/
structure HeaderAt (V : Nat → BlockCtrl) (a : Nat) (p b : Block) : Prop where
  size : (V a).m_size = b.units
  prev_allocated : (V a).m_prev_allocated = p.used
  allocated : (V a).m_allocated = b.used
  prev_size : p.used = false → (V a).m_prev_size = p.units

/-- Of two neighbours one is allocated. -/
def Separated (_ : Nat) (p b : Block) : Prop :=
  p.used = true ∨ b.used = true

/-- What stands in front of the first block. -/
def front : Block :=
  ⟨0, true⟩

/-- The heap invariant: the blocks tile the range from the first block to the end
    block, whose header holds the distance between the two. -/
structure Rep (P : Traits) (h : Heap) (first : Nat) (blocks : List Block) : Prop where
  headers : Linked P.Alignment (HeaderAt (ctrl h.mem)) first front (blocks ++ [⟨units blocks, true⟩])
  first_prev_size : m_prev_size h.mem first = units blocks
  sizes : ∀ b ∈ blocks, P.BlockCtrlUnits ≤ b.units
  separated : Linked P.Alignment Separated first front blocks
  nodes : h.m_imultiset.Perm (frees P.Alignment first blocks)
  sorted : h.m_imultiset.Pairwise fun x y => m_size h.mem x ≤ m_size h.mem y
  allocated : h.m_allocated = usedUnits blocks * P.Alignment
  units_lt : units blocks < 2 ^ 62
  aligned : P.Alignment ∣ first
  stop_le : stop P.Alignment first blocks ≤ 2 ^ 64

variable {P : Traits}

theorem bytes_ge {b : Block} (hb : P.BlockCtrlUnits ≤ b.units) :
    P.BlockCtrlBytes ≤ b.units * P.Alignment := by
  rw [← P.BlockCtrlUnits_mul]
  exact Nat.mul_le_mul_right _ hb

/-- Headers and hooks of the blocks of a layout do not meet. -/
theorem clear_of_placed {a x n u : Nat} {b : Block} {L : List Block} (hu : P.BlockCtrlUnits ≤ u)
    (hb : (x, b) ∈ placed P.Alignment a L)
    (hn : (n, (⟨u, false⟩ : Block)) ∈ placed P.Alignment a L) : x ≤ n ∨ n + 40 ≤ x := by
  have hge := P.BlockCtrlBytes_ge
  have hbytes : P.BlockCtrlBytes ≤ u * P.Alignment := bytes_ge (b := ⟨u, false⟩) hu
  rcases placed_apart _ hb hn with ⟨rfl, _⟩ | hapart | hapart
  · exact Or.inl (Nat.le_refl _)
  · exact Or.inl (by omega)
  · refine Or.inr ?_
    change n + u * P.Alignment ≤ x at hapart
    omega

/-- Headers outside the changed range stay. -/
theorem headers_frame {m m' : Memory} {lo hi a : Nat} {nodes : List Nat} {p : Block} {L : List Block}
    (hheaders : Linked P.Alignment (HeaderAt (ctrl m)) a p L) (hframe : Frame m m' lo lo lo hi nodes)
    (hout : ∀ x b, (x, b) ∈ placed P.Alignment a L → x + 16 ≤ lo ∨ hi ≤ x)
    (hclear : ∀ x b, (x, b) ∈ placed P.Alignment a L → ∀ n ∈ nodes, x ≤ n ∨ n + 40 ≤ x) :
    Linked P.Alignment (HeaderAt (ctrl m')) a p L := by
  refine hheaders.imp ?_
  intro x q b hx hheader
  have hsame : SameOn m' m x (x + 16) := by
    intro y hlo hhi
    refine hframe y (by omega) ?_ ?_
    · have := hout x b hx
      omega
    · intro n hn
      have := hclear x b hx n hn
      omega
  have hctrl := ctrl_congr hsame
  exact ⟨by rw [hctrl, hheader.size], by rw [hctrl, hheader.prev_allocated],
    by rw [hctrl, hheader.allocated], by rw [hctrl]; exact hheader.prev_size⟩

theorem separated_tail {a : Nat} {p q : Block} {R : List Block}
    (h : Linked P.Alignment Separated a p R) (hq : ∀ r ∈ R.head?, q.used = true ∨ r.used = true) :
    Linked P.Alignment Separated a q R := by
  cases R with
  | nil => trivial
  | cons r R => exact ⟨hq r rfl, h.2⟩

/-- A live block: an allocated one, with its address and its units. -/
def LiveAt (P : Traits) (first : Nat) (blocks : List Block) (b u : Nat) : Prop :=
  (b, (⟨u, true⟩ : Block)) ∈ placed P.Alignment first blocks

/-- The buffer of a live block is where it was, with the same bytes. -/
def Kept (P : Traits) (h h' : Heap) (first : Nat) (blocks' : List Block) (b u : Nat) : Prop :=
  LiveAt P first blocks' b u ∧
    SameOn h'.mem h.mem (b + P.AllocatedCtrlBytes) (b + u * P.Alignment + UsableByPreviousChunk)

/-- An exchange of the blocks `G` for `G'`, with what the code did to the memory. -/
structure Exchange (P : Traits) (h h' : Heap) (first : Nat) (L G G' R : List Block) : Prop where
  units_eq : units G' = units G
  sizes : ∀ b ∈ G', P.BlockCtrlUnits ≤ b.units
  separated : Linked P.Alignment Separated (stop P.Alignment first L) (last front L) G'
  separated_tail : ∀ r ∈ R.head?, (last front (L ++ G')).used = true ∨ r.used = true
  headers : ∀ r R', R ++ [⟨units (L ++ G ++ R), true⟩] = r :: R' →
    Linked P.Alignment (HeaderAt (ctrl h'.mem)) (stop P.Alignment first L) (last front L) (G' ++ [r])
  frame : Frame h.mem h'.mem (stop P.Alignment first L + 8) (stop P.Alignment first L + 8)
    (stop P.Alignment first L + 8) (stop P.Alignment first (L ++ G) + 16) (frees P.Alignment first L ++ frees P.Alignment (stop P.Alignment first (L ++ G)) R)
  nodes : h'.m_imultiset.Perm (frees P.Alignment first L ++
    (frees P.Alignment (stop P.Alignment first L) G' ++
      frees P.Alignment (stop P.Alignment first (L ++ G)) R))
  sorted : h'.m_imultiset.Pairwise fun x y => m_size h'.mem x ≤ m_size h'.mem y
  allocated : h'.m_allocated + usedUnits G * P.Alignment = h.m_allocated + usedUnits G' * P.Alignment

/-- An exchange keeps the invariant. -/
theorem Rep.exchange {h h' : Heap} {first : Nat} {L G G' R : List Block}
    (hrep : Rep P h first (L ++ G ++ R)) (hex : Exchange P h h' first L G G' R) :
    Rep P h' first (L ++ G' ++ R) := by
  have hbytes := P.BlockCtrlBytes_ge
  have hunits : units (L ++ G' ++ R) = units (L ++ G ++ R) := by
    simp only [units_append, hex.units_eq]
  have hstop : stop P.Alignment first (L ++ G') = stop P.Alignment first (L ++ G) := by
    simp only [stop, units_append, hex.units_eq]
  obtain ⟨r, R', hR⟩ : ∃ r R', R ++ [⟨units (L ++ G ++ R), true⟩] = r :: R' := by
    cases R with
    | nil => exact ⟨_, _, rfl⟩
    | cons r R => exact ⟨_, _, rfl⟩
  have hall : L ++ G ++ R ++ [⟨units (L ++ G ++ R), true⟩] = L ++ (G ++ (r :: R')) := by
    rw [List.append_assoc, List.append_assoc, hR]
  have hheaders := hrep.headers
  rw [hall, linked_append, linked_append, ← stop_append, ← last_append] at hheaders
  obtain ⟨hL, _, hr, hR'⟩ := hheaders
  have hnode : ∀ n ∈ frees P.Alignment first L ++
      frees P.Alignment (stop P.Alignment first (L ++ G)) R,
      ∃ u, P.BlockCtrlUnits ≤ u ∧ (n, (⟨u, false⟩ : Block)) ∈ placed P.Alignment first
        (L ++ G ++ R ++ [⟨units (L ++ G ++ R), true⟩]) := by
    intro n hn
    have hmem : ∃ u, (n, (⟨u, false⟩ : Block)) ∈ placed P.Alignment first (L ++ G ++ R) := by
      rw [List.mem_append, mem_frees, mem_frees] at hn
      simp only [placed_append, List.mem_append]
      rcases hn with ⟨u, hu⟩ | ⟨u, hu⟩
      · exact ⟨u, Or.inl (Or.inl hu)⟩
      · exact ⟨u, Or.inr hu⟩
    obtain ⟨u, hu⟩ := hmem
    refine ⟨u, hrep.sizes _ (mem_of_mem_placed _ hu), ?_⟩
    rw [placed_append]
    exact List.mem_append_left _ hu
  have hclear : ∀ x b, (x, b) ∈ placed P.Alignment first
      (L ++ G ++ R ++ [⟨units (L ++ G ++ R), true⟩]) → ∀ n ∈ frees P.Alignment first L ++
        frees P.Alignment (stop P.Alignment first (L ++ G)) R, x ≤ n ∨ n + 40 ≤ x := by
    intro x b hx n hn
    obtain ⟨u, hu, hplaced⟩ := hnode n hn
    exact clear_of_placed hu hx hplaced
  rw [hall, placed_append, placed_append, ← stop_append] at hclear
  have hrsize : R' = [] ∨ P.BlockCtrlUnits ≤ r.units := by
    cases R with
    | nil =>
      cases hR
      exact Or.inl rfl
    | cons c R =>
      cases hR
      exact Or.inr (hrep.sizes r (by simp))
  refine ⟨?_, ?_, ?_, ?_, ?_, hex.sorted, ?_, ?_, hrep.aligned, ?_⟩
  · have hnew : L ++ G' ++ R ++ [⟨units (L ++ G' ++ R), true⟩] = L ++ ((G' ++ [r]) ++ R') := by
      rw [hunits, List.append_assoc, List.append_assoc, hR, List.append_assoc]
      rfl
    rw [hnew, linked_append, linked_append]
    refine ⟨?_, hex.headers r R' hR, ?_⟩
    · refine headers_frame hL hex.frame ?_ ?_
      · intro x b hx
        have hbound := mem_placed_bounds _ hx
        have hsize := bytes_ge (hrep.sizes b (by
          have := mem_of_mem_placed _ hx
          simp [this]))
        omega
      · intro x b hx
        exact hclear x b (List.mem_append_left _ hx)
    · have hstart : stop P.Alignment (stop P.Alignment first L) (G' ++ [r]) =
          stop P.Alignment first (L ++ G) + r.units * P.Alignment := by
        rw [← stop_append, ← List.append_assoc, stop_append, hstop, stop_cons, stop_nil]
      have hlast : last (last front L) (G' ++ [r]) = r := by simp
      rw [hstart, hlast]
      refine headers_frame hR' hex.frame ?_ ?_
      · intro x b hx
        rcases hrsize with hnil | hsize
        · rw [hnil] at hx
          cases hx
        · have hbound := mem_placed_bounds _ hx
          have hbytes' := bytes_ge hsize
          omega
      · intro x b hx
        exact hclear x b (List.mem_append_right _ (List.mem_append_right _
          (List.mem_cons_of_mem _ hx)))
  · rw [hunits, ← hrep.first_prev_size]
    refine prev_size_congr ?_
    intro b hlo hhi
    have hle := le_stop P.Alignment first L
    refine hex.frame b (by omega) (by omega) ?_
    intro n hn
    obtain ⟨u, _, hplaced⟩ := hnode n hn
    have := (mem_placed_bounds _ hplaced).1
    omega
  · intro b hb
    simp only [List.mem_append] at hb
    rcases hb with (hb | hb) | hb
    · exact hrep.sizes b (by simp [hb])
    · exact hex.sizes b hb
    · exact hrep.sizes b (by simp [hb])
  · have hsep := hrep.separated
    rw [linked_append, linked_append] at hsep
    rw [linked_append, linked_append]
    refine ⟨⟨hsep.1.1, hex.separated⟩, ?_⟩
    rw [hstop]
    exact separated_tail hsep.2 hex.separated_tail
  · rw [frees_append, frees_append, hstop, List.append_assoc]
    exact hex.nodes
  · have halloc := hex.allocated
    rw [hrep.allocated] at halloc
    simp only [usedUnits_append, Nat.add_mul] at halloc ⊢
    omega
  · rw [hunits]
    exact hrep.units_lt
  · have hle := hrep.stop_le
    rw [stop, hunits]
    exact hle

/-- An exchange leaves the buffers of the other live blocks alone. -/
theorem Rep.exchange_kept {h h' : Heap} {first : Nat} {L G G' R : List Block}
    (hrep : Rep P h first (L ++ G ++ R)) (hex : Exchange P h h' first L G G' R) {b u : Nat}
    (hlive : LiveAt P first (L ++ G ++ R) b u)
    (hother : ¬ LiveAt P (stop P.Alignment first L) G b u) :
    Kept P h h' first (L ++ G' ++ R) b u := by
  have hbytes := P.BlockCtrlBytes_ge
  have hctrl := P.AllocatedCtrlBytes_ge
  have hstop : stop P.Alignment first (L ++ G') = stop P.Alignment first (L ++ G) := by
    simp only [stop, units_append, hex.units_eq]
  have hplaced : LiveAt P first L b u ∨ LiveAt P (stop P.Alignment first (L ++ G)) R b u := by
    unfold LiveAt at hlive hother ⊢
    rw [placed_append, placed_append, List.mem_append, List.mem_append] at hlive
    rcases hlive with (hL | hG) | hR
    · exact Or.inl hL
    · exact absurd hG hother
    · exact Or.inr hR
  refine ⟨?_, ?_⟩
  · unfold LiveAt at hplaced ⊢
    rw [placed_append, placed_append, List.mem_append, List.mem_append, hstop]
    rcases hplaced with hL | hR
    · exact Or.inl (Or.inl hL)
    · exact Or.inr hR
  · intro y hlo hhi
    unfold UsableByPreviousChunk at hhi
    refine hex.frame y (by omega) ?_ ?_
    · rcases hplaced with hL | hR
      · have hbound : b + u * P.Alignment ≤ stop P.Alignment first L := (mem_placed_bounds _ hL).2
        omega
      · have hbound : stop P.Alignment first (L ++ G) ≤ b := (mem_placed_bounds _ hR).1
        omega
    · intro n hn
      have hnode : ∃ v, (n, (⟨v, false⟩ : Block)) ∈ placed P.Alignment first (L ++ G ++ R) := by
        rw [List.mem_append, mem_frees, mem_frees] at hn
        simp only [placed_append, List.mem_append]
        rcases hn with ⟨v, hv⟩ | ⟨v, hv⟩
        · exact ⟨v, Or.inl (Or.inl hv)⟩
        · exact ⟨v, Or.inr hv⟩
      obtain ⟨v, hv⟩ := hnode
      have hvbytes : P.BlockCtrlBytes ≤ v * P.Alignment :=
        bytes_ge (b := ⟨v, false⟩) (hrep.sizes _ (mem_of_mem_placed _ hv))
      rcases placed_apart _ hlive hv with ⟨_, hne⟩ | hapart | hapart
      · cases hne
      · change b + u * P.Alignment ≤ n at hapart
        omega
      · change n + v * P.Alignment ≤ b at hapart
        omega

end interprocess.rbtree_best_fit
