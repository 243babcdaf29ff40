import Interprocess.MemAlgo.RbtreeBestFit.Aligning
import Interprocess.MemAlgo.RbtreeBestFit.Attempts
import Interprocess.MemAlgo.RbtreeBestFit.Shrinking

namespace interprocess.rbtree_best_fit

open ipcdetail Memory Tiling

variable {P : Traits} {h h' h'' : Heap} {first b u n k ptr : Nat} {blocks blocks' L R : List Block}
  {answer : Heap × Nat × Nat}

/-- A new buffer, in a block of at least `n` units. -/
def Fresh (P : Traits) (h : Heap) (first : Nat) (blocks : List Block) (n : Nat) (h' : Heap)
    (ptr : Nat) : Prop :=
  ∃ b u blocks', ptr = priv_get_user_buffer P b ∧ n ≤ u ∧
    Operation P h h' first blocks blocks' [] [(b, u)]

/-- The answer to a request: null and the heap as it was, or a new buffer. -/
def Granted (P : Traits) (h : Heap) (first : Nat) (blocks : List Block) (n : Nat) (h' : Heap)
    (ptr : Nat) : Prop :=
  (ptr = 0 ∧ h' = h) ∨ Fresh P h first blocks n h' ptr

theorem Fresh.mono (hfresh : Fresh P h first blocks n h' ptr) (hk : k ≤ n) :
    Fresh P h first blocks k h' ptr := by
  obtain ⟨b, u, blocks', hptr, hn, hop⟩ := hfresh
  exact ⟨b, u, blocks', hptr, Nat.le_trans hk hn, hop⟩

theorem Granted.mono (hgranted : Granted P h first blocks n h' ptr) (hk : k ≤ n) :
    Granted P h first blocks k h' ptr :=
  hgranted.imp_right fun hfresh => hfresh.mono hk

theorem usedBlocks_taken (a n u : Nat) :
    usedBlocks P.Alignment a (taken_blocks P n u) = [(a, taken_units P n u)] := by
  rw [taken_blocks_eq, List.singleton_append, usedBlocks_cons_used, usedBlocks_free_if]

/-- The block that was taken is the new one. -/
theorem Taken.operation (htaken : Taken P h first blocks n L u R answer)
    (hrep : Rep P h first blocks) (hsegment : answer.1.segment = h.segment) :
    Operation P h answer.1 first blocks (L ++ taken_blocks P n u ++ R) []
      [(stop P.Alignment first L, taken_units P n u)] := by
  have hblocks := htaken.blocks_eq
  subst hblocks
  have hop := Operation.of_exchange hrep htaken.exchange hsegment
  rwa [usedBlocks_taken] at hop

theorem le_taken_units (hn : n ≤ u) : n ≤ taken_units P n u := by
  unfold taken_units
  split_ifs
  · exact Nat.le_refl n
  · exact hn

theorem Taken.fresh (htaken : Taken P h first blocks n L u R answer)
    (hrep : Rep P h first blocks) (hsegment : answer.1.segment = h.segment) :
    Fresh P h first blocks n answer.1 answer.2.1 :=
  ⟨_, _, _, congrArg Prod.fst htaken.buffer, le_taken_units htaken.units_le,
    htaken.operation hrep hsegment⟩

/-- A block that is found has the preferred or the limit units. -/
theorem Rep.best_fit_fresh (hrep : Rep P h first blocks) {limit_size preferred_size : Nat}
    (hlimit : n ≤ priv_get_total_units P limit_size)
    (hpreferred : n ≤ priv_get_total_units P preferred_size)
    (hanswer : best_fit P h limit_size preferred_size = some answer) :
    Fresh P h first blocks n answer.1 answer.2.1 := by
  have hsegment := segment_best_fit hanswer
  rcases hrep.best_fit_spec limit_size preferred_size with
    ⟨L, u, R, answer', hfit, _, htaken⟩ | ⟨_, L, u, R, answer', hfit, _, hle, htaken⟩ | ⟨_, hnone⟩
  · cases hanswer.symm.trans hfit
    exact (htaken.fresh hrep hsegment).mono hpreferred
  · cases hanswer.symm.trans hfit
    exact (htaken.fresh hrep hsegment).mono (Nat.le_trans hlimit hle)
  · cases hanswer.symm.trans hnone

theorem Rep.allocate_new_granted (hrep : Rep P h first blocks) (nbytes : Nat) :
    Granted P h first blocks (priv_get_total_units P nbytes)
      (priv_allocate_new P h nbytes nbytes).1 (priv_allocate_new P h nbytes nbytes).2.1 := by
  rcases hrep.allocate_new_spec nbytes with ⟨L, u, R, answer, hanswer, _, htaken⟩ | ⟨_, hnone⟩
  · have hsegment := segment_priv_allocate_new (P := P) (h := h) nbytes nbytes
    rw [hanswer] at hsegment ⊢
    exact Or.inr (htaken.fresh hrep hsegment)
  · rw [hnone]
    exact Or.inl ⟨rfl, rfl⟩

theorem Carved.fresh {m : Nat} (hcarved : Carved P h first blocks m h' ptr)
    (hrep : Rep P h first blocks) (hsegment : h'.segment = h.segment) :
    Fresh P h first blocks m h' ptr := by
  obtain ⟨L, u, R, c, d, f, s, t, rfl, hm, hptr, hexchange⟩ := hcarved
  have hop := Operation.of_exchange hrep hexchange hsegment
  rw [usedBlocks_surrounded] at hop
  exact ⟨_, _, _, hptr, hm, hop⟩

theorem two_pow_of_and_pred {alignment : Nat} (hpos : 0 < alignment) (hlt : alignment < 2 ^ 64)
    (hpow : alignment &&& (alignment - 1) = 0) : ∃ k, k < 64 ∧ alignment = 2 ^ k := by
  obtain ⟨k, rfl⟩ := (Nat.and_sub_one_eq_zero_iff_isPowerOfTwo (by omega)).mp hpow
  exact ⟨k, (Nat.pow_lt_pow_iff_right (by decide)).mp hlt, rfl⟩

/-- The sizes of a request with an alignment do not wrap when they are padded. -/
def AlignedFits (P : Traits) (nbytes alignment : Nat) : Prop :=
  alignment < 2 ^ 64 ∧ (P.Alignment < alignment → RequestFits P nbytes alignment)

theorem Rep.allocate_aligned_granted (hrep : Rep P h first blocks)
    (hlt : stop P.Alignment first blocks < 2 ^ 64) {nbytes alignment : Nat}
    (hfits : AlignedFits P nbytes alignment) :
    Granted P h first blocks (min (priv_get_total_units P nbytes) (min_units P nbytes))
      (allocate_aligned P h nbytes alignment).1 (allocate_aligned P h nbytes alignment).2 := by
  have hsegment := segment_allocate_aligned (P := P) (h := h) nbytes alignment
  unfold allocate_aligned at hsegment ⊢
  split_ifs at hsegment ⊢ with hpow hle
  · exact Or.inl ⟨rfl, rfl⟩
  · exact (hrep.allocate_new_granted nbytes).mono (Nat.min_le_left _ _)
  · have hgt := Nat.lt_of_not_le hle
    obtain ⟨k, hk, rfl⟩ := two_pow_of_and_pred (by omega) hfits.1 (not_not.mp hpow)
    rcases hrep.overaligned_spec hlt hk hgt (hfits.2 hgt) with ⟨_, hcarved⟩ | ⟨_, hnone⟩
    · exact Or.inr ((hcarved.fresh hrep hsegment).mono (Nat.min_le_right _ _))
    · rw [hnone]
      exact Or.inl ⟨rfl, rfl⟩

end interprocess.rbtree_best_fit
