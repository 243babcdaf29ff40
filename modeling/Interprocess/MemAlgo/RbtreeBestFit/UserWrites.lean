import Interprocess.MemAlgo.RbtreeBestFit.Commands

namespace interprocess.rbtree_best_fit

open ipcdetail Memory Tiling

variable {P : Traits} {h h' : Heap} {first b u : Nat} {blocks blocks' L R : List Block}
  {gone fresh : List (Nat × Nat)} {m m' : Memory}

/-- The bytes that are not in the buffer of a block in use. -/
def OutsideBuffers (P : Traits) (first : Nat) (blocks : List Block) (y : Nat) : Prop :=
  ∀ b u, LiveAt P first blocks b u →
    y < b + P.AllocatedCtrlBytes ∨ b + u * P.Alignment + UsableByPreviousChunk ≤ y

theorem HeaderAt.user_write {a : Nat} {p q : Block} (hheader : HeaderAt (ctrl m) a p q)
    (hframe : ∀ y, a ≤ y → y < a + 16 → (p.used = true → a + 8 ≤ y) → m' y = m y) :
    HeaderAt (ctrl m') a p q := by
  have hholder : holder m' a = holder m a := holder_congr fun y hlo hhi =>
    hframe y (by omega) (by omega) (fun _ => hlo)
  refine ⟨?_, ?_, ?_, ?_⟩
  · rw [← hheader.size]
    exact congrArg SizeHolder.m_size hholder
  · rw [← hheader.prev_allocated]
    exact congrArg SizeHolder.m_prev_allocated hholder
  · rw [← hheader.allocated]
    exact congrArg SizeHolder.m_allocated hholder
  · intro hfree
    rw [← hheader.prev_size hfree]
    refine prev_size_congr fun y hlo hhi => hframe y hlo (by omega) fun hused => ?_
    rw [hfree] at hused
    cases hused

/-- Writes into buffers leave the headers alone, the one behind a block in use but for
    its `m_prev_size`. -/
theorem headers_user_write {a : Nat} {p e : Block}
    (hheaders : Linked P.Alignment (HeaderAt (ctrl m)) a p (blocks ++ [e]))
    (hsizes : ∀ b ∈ blocks, P.BlockCtrlUnits ≤ b.units)
    (hframe : ∀ y, a ≤ y → (p.used = true → a + 8 ≤ y) → OutsideBuffers P a blocks y →
      m' y = m y) :
    Linked P.Alignment (HeaderAt (ctrl m')) a p (blocks ++ [e]) := by
  have hctrl := P.AllocatedCtrlBytes_ge
  have hout : ∀ y, a ≤ y → y < a + 16 → OutsideBuffers P a blocks y := by
    intro y _ hhi b u hlive
    have hle : a ≤ b := (mem_placed_bounds _ hlive).1
    omega
  have hhere : ∀ y, a ≤ y → y < a + 16 → (p.used = true → a + 8 ≤ y) → m' y = m y :=
    fun y hlo hhi hused => hframe y hlo hused (hout y hlo hhi)
  induction blocks generalizing a p with
  | nil => exact ⟨hheaders.1.user_write hhere, trivial⟩
  | cons b rest ih =>
    have hbytes := bytes_ge (hsizes b List.mem_cons_self)
    have hge := P.BlockCtrlBytes_ge
    have hrest : ∀ y, a + b.units * P.Alignment ≤ y →
        (b.used = true → a + b.units * P.Alignment + 8 ≤ y) →
        OutsideBuffers P (a + b.units * P.Alignment) rest y → m' y = m y := by
      intro y hlo hused hout
      refine hframe y (by omega) (fun _ => by omega) ?_
      intro x v hlive
      rcases List.mem_cons.mp hlive with heq | hlive
      · cases heq
        exact Or.inr (hused rfl)
      · exact hout x v hlive
    have hout' : ∀ y, a + b.units * P.Alignment ≤ y → y < a + b.units * P.Alignment + 16 →
        OutsideBuffers P (a + b.units * P.Alignment) rest y := by
      intro y _ hhi x v hlive
      have hle := (mem_placed_bounds _ hlive).1
      omega
    exact ⟨hheaders.1.user_write hhere,
      ih hheaders.2 (fun c hc => hsizes c (List.mem_cons_of_mem b hc)) hrest hout'
        fun y hlo hhi hused => hrest y hlo hused (hout' y hlo hhi)⟩

/-- The headers lie outside of the buffers. -/
theorem Rep.outside_header {x y : Nat} {c : Block} (hrep : Rep P h first blocks)
    (hx : (x, c) ∈ placed P.Alignment first blocks) (hlo : x + 8 ≤ y) (hhi : y < x + 16) :
    OutsideBuffers P first blocks y := by
  intro b u hlive
  have hctrl := P.AllocatedCtrlBytes_ge
  have hge := P.BlockCtrlBytes_ge
  have hbytes : P.BlockCtrlBytes ≤ c.units * P.Alignment :=
    bytes_ge (hrep.sizes _ (mem_of_mem_placed _ hx))
  have hublock : P.BlockCtrlBytes ≤ u * P.Alignment :=
    bytes_ge (b := ⟨u, true⟩) (hrep.sizes _ (mem_of_mem_placed _ hlive))
  unfold UsableByPreviousChunk
  rcases placed_apart _ hx hlive with ⟨rfl, _⟩ | hapart | hapart
  · exact Or.inl (by omega)
  · exact Or.inl (by omega)
  · change b + u * P.Alignment ≤ x at hapart
    exact Or.inr (by omega)

/-- A client that writes into buffers of blocks in use keeps the invariant. -/
theorem Rep.user_write (hrep : Rep P h first blocks)
    (hframe : ∀ y, OutsideBuffers P first blocks y → m' y = h.mem y) :
    Rep P { h with mem := m' } first blocks := by
  have hctrl := P.AllocatedCtrlBytes_ge
  have hsize : ∀ x c, (x, c) ∈ placed P.Alignment first blocks → m_size m' x = m_size h.mem x :=
    fun x c hx => congrArg SizeHolder.m_size (holder_congr fun y hlo hhi =>
      hframe y (hrep.outside_header hx hlo hhi))
  have hnode : ∀ n ∈ h.m_imultiset, m_size m' n = m_size h.mem n := by
    intro n hn
    obtain ⟨u, hu⟩ := (mem_frees _).mp (hrep.nodes.subset hn)
    exact hsize n _ hu
  refine ⟨?_, ?_, hrep.sizes, hrep.separated, hrep.nodes, ?_, hrep.allocated, hrep.units_lt,
    hrep.aligned, hrep.stop_le⟩
  · exact headers_user_write hrep.headers hrep.sizes fun y _ _ hout => hframe y hout
  · rw [← hrep.first_prev_size]
    refine prev_size_congr fun y _ hhi => hframe y fun b u hlive => Or.inl ?_
    have hle : first ≤ b := (mem_placed_bounds _ hlive).1
    omega
  · refine hrep.sorted.imp_of_mem ?_
    intro x y hx hy hle
    rw [hnode x hx, hnode y hy]
    exact hle

/-- The write is an operation on the blocks whose buffers it may change. -/
theorem Operation.user_write (hrep : Rep P h first blocks) (used : List (Nat × Nat))
    (hframe : ∀ y, (∀ b u, (b, u) ∈ used → LiveAt P first blocks b u →
      y < b + P.AllocatedCtrlBytes ∨ b + u * P.Alignment + UsableByPreviousChunk ≤ y) →
      m' y = h.mem y) :
    Operation P h { h with mem := m' } first blocks blocks used used := by
  refine ⟨hrep.user_write ?_, rfl, rfl, List.Perm.refl _, ?_⟩
  · exact fun y hout => hframe y fun b u _ hlive => hout b u hlive
  · intro b u hlive hnot y hlo hhi
    refine hframe y fun c v hc hclive => ?_
    have hctrl := P.AllocatedCtrlBytes_ge
    have hge := P.BlockCtrlBytes_ge
    have hbytes : P.BlockCtrlBytes ≤ u * P.Alignment :=
      bytes_ge (b := ⟨u, true⟩) (hrep.sizes _ (mem_of_mem_placed _ hlive))
    unfold UsableByPreviousChunk at hhi ⊢
    rcases placed_apart _ hlive hclive with ⟨rfl, hsame⟩ | hapart | hapart
    · obtain rfl : u = v := congrArg Block.units hsame
      exact absurd hc hnot
    · change b + u * P.Alignment ≤ c at hapart
      exact Or.inl (by omega)
    · change c + v * P.Alignment ≤ b at hapart
      exact Or.inr (by omega)

end interprocess.rbtree_best_fit
