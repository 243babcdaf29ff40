import Interprocess.MemAlgo.RbtreeBestFit.Allocate
import Interprocess.MemAlgo.RbtreeBestFit.CheckAndAllocate
import Interprocess.MemAlgo.RbtreeBestFit.Units

namespace interprocess.rbtree_best_fit

open ipcdetail Memory Tiling

variable {P : Traits} {h : Heap} {first b u n : Nat} {blocks L R : List Block}

/-- A free block, with its address and its units. -/
def FreeAt (P : Traits) (first : Nat) (blocks : List Block) (b u : Nat) : Prop :=
  (b, (⟨u, false⟩ : Block)) ∈ placed P.Alignment first blocks

theorem Rep.mem_tree_iff (hrep : Rep P h first blocks) :
    b ∈ h.m_imultiset ↔ ∃ u, FreeAt P first blocks b u := by
  rw [hrep.nodes.mem_iff]
  exact mem_frees _

theorem Rep.free_size (hrep : Rep P h first blocks) (hfree : FreeAt P first blocks b u) :
    m_size h.mem b = u := by
  obtain ⟨L, R, rfl, rfl⟩ := exists_of_mem_placed _ hfree
  exact hrep.header_at.size

/-- The smallest free block that is big enough. -/
def SmallestAtLeast (P : Traits) (first : Nat) (blocks : List Block) (n b u : Nat) : Prop :=
  FreeAt P first blocks b u ∧ n ≤ u ∧ ∀ c w, FreeAt P first blocks c w → n ≤ w → u ≤ w

/-- A free block of the biggest size. -/
def Largest (P : Traits) (first : Nat) (blocks : List Block) (b u : Nat) : Prop :=
  FreeAt P first blocks b u ∧ ∀ c w, FreeAt P first blocks c w → w ≤ u

theorem Rep.lower_bound_some (hrep : Rep P h first blocks) (hb : h.lower_bound n = some b) :
    ∃ u, SmallestAtLeast P first blocks n b u := by
  obtain ⟨hle, before, behind, hsplit, hbefore⟩ := List.find?_eq_some_iff_append.mp hb
  have hmem : b ∈ h.m_imultiset := List.mem_of_find?_eq_some hb
  obtain ⟨u, hfree⟩ := hrep.mem_tree_iff.mp hmem
  have hsize := hrep.free_size hfree
  rw [decide_eq_true_eq, hsize] at hle
  refine ⟨u, hfree, hle, ?_⟩
  intro c w hc hw
  have hcmem : c ∈ before ++ b :: behind := hsplit ▸ hrep.mem_tree_iff.mpr ⟨w, hc⟩
  have hcsize := hrep.free_size hc
  have hsorted := hrep.sorted
  rw [hsplit] at hsorted
  rcases List.mem_append.mp hcmem with hc' | hc'
  · have hnot := hbefore c hc'
    rw [Bool.not_eq_true', decide_eq_false_iff_not, hcsize] at hnot
    exact absurd hw hnot
  · rcases List.mem_cons.mp hc' with rfl | hc'
    · exact Nat.le_of_eq (hsize.symm.trans hcsize)
    · have hpair := (List.pairwise_cons.mp (List.pairwise_append.mp hsorted).2.1).1 c hc'
      rwa [hsize, hcsize] at hpair

theorem Rep.lower_bound_none (hrep : Rep P h first blocks) (hnone : h.lower_bound n = none) {w c : Nat}
    (hc : FreeAt P first blocks c w) : w < n := by
  have hnot := List.find?_eq_none.mp hnone c (hrep.mem_tree_iff.mpr ⟨w, hc⟩)
  rw [hrep.free_size hc] at hnot
  simpa using hnot

theorem Rep.last_largest (hrep : Rep P h first blocks) (hb : h.m_imultiset.getLast? = some b) :
    ∃ u, Largest P first blocks b u := by
  obtain ⟨before, hsplit⟩ := List.getLast?_eq_some_iff.mp hb
  obtain ⟨u, hfree⟩ := hrep.mem_tree_iff.mp (List.mem_of_getLast? hb)
  refine ⟨u, hfree, ?_⟩
  intro c w hc
  have hcmem : c ∈ before ++ [b] := hsplit ▸ hrep.mem_tree_iff.mpr ⟨w, hc⟩
  have hsorted := hrep.sorted
  rw [hsplit] at hsorted
  rcases List.mem_append.mp hcmem with hc' | hc'
  · have hpair := (List.pairwise_append.mp hsorted).2.2 c hc' b (List.mem_singleton_self b)
    rwa [hrep.free_size hfree, hrep.free_size hc] at hpair
  · cases List.mem_singleton.mp hc'
    exact Nat.le_of_eq ((hrep.free_size hc).symm.trans (hrep.free_size hfree))

/-- The units that an allocation takes from a free block. -/
def taken_units (P : Traits) (n u : Nat) : Nat :=
  if n + P.BlockCtrlUnits ≤ u then n else u

/-- What a free block becomes. -/
def taken_blocks (P : Traits) (n u : Nat) : List Block :=
  if n + P.BlockCtrlUnits ≤ u then [⟨n, true⟩, ⟨u - n, false⟩] else [⟨u, true⟩]

theorem Rep.take_exchange (hrep : Rep P h first (L ++ [⟨u, false⟩] ++ R)) (hn : P.BlockCtrlUnits ≤ n)
    (hle : n ≤ u) (received : Nat) :
    (priv_check_and_allocate P h n (stop P.Alignment first L) received).2 =
        (priv_get_user_buffer P (stop P.Alignment first L), user_bytes P (taken_units P n u)) ∧
      Exchange P h (priv_check_and_allocate P h n (stop P.Alignment first L) received).1 first L
        [⟨u, false⟩] (taken_blocks P n u) R := by
  unfold taken_units taken_blocks
  by_cases hsplit : n + P.BlockCtrlUnits ≤ u
  · rw [if_pos hsplit, if_pos hsplit]
    exact hrep.split_exchange hn hsplit received
  · rw [if_neg hsplit, if_neg hsplit]
    exact hrep.whole_exchange hle (Nat.lt_of_not_le hsplit) received

/-- An allocation of `n` units from the free block behind `L`. -/
structure Taken (P : Traits) (h : Heap) (first : Nat) (blocks : List Block) (n : Nat) (L : List Block)
    (u : Nat) (R : List Block) (answer : Heap × Nat × Nat) : Prop where
  blocks_eq : blocks = L ++ [⟨u, false⟩] ++ R
  min_units : P.BlockCtrlUnits ≤ n
  units_le : n ≤ u
  buffer : answer.2 =
    (priv_get_user_buffer P (stop P.Alignment first L), user_bytes P (taken_units P n u))
  exchange : Exchange P h answer.1 first L [⟨u, false⟩] (taken_blocks P n u) R

theorem Rep.taken (hrep : Rep P h first blocks) (hfree : FreeAt P first blocks b u)
    (hn : P.BlockCtrlUnits ≤ n) (hle : n ≤ u) (received : Nat) :
    ∃ L R, b = stop P.Alignment first L ∧
      Taken P h first blocks n L u R (priv_check_and_allocate P h n b received) := by
  obtain ⟨L, R, rfl, rfl⟩ := exists_of_mem_placed _ hfree
  have hrep' : Rep P h first (L ++ [⟨u, false⟩] ++ R) := by
    rw [List.append_assoc]
    exact hrep
  obtain ⟨hbuffer, hexchange⟩ := hrep'.take_exchange hn hle received
  exact ⟨L, R, rfl, by simp, hn, hle, hbuffer, hexchange⟩

/-- The best fit: the smallest free block with the preferred units if there is one,
    else the biggest one if it has the limit units. -/
theorem Rep.best_fit_spec (hrep : Rep P h first blocks) (limit_size preferred_size : Nat) :
    (∃ L u R answer, best_fit P h limit_size preferred_size = some answer ∧
      SmallestAtLeast P first blocks (priv_get_total_units P preferred_size)
        (stop P.Alignment first L) u ∧
      Taken P h first blocks (priv_get_total_units P preferred_size) L u R answer) ∨
    ((∀ c w, FreeAt P first blocks c w → w < priv_get_total_units P preferred_size) ∧
      ∃ L u R answer, best_fit P h limit_size preferred_size = some answer ∧
        Largest P first blocks (stop P.Alignment first L) u ∧
        priv_get_total_units P limit_size ≤ u ∧ Taken P h first blocks u L u R answer) ∨
    ((∀ c w, FreeAt P first blocks c w →
        w < priv_get_total_units P preferred_size ∧ w < priv_get_total_units P limit_size) ∧
      best_fit P h limit_size preferred_size = none) := by
  unfold best_fit
  simp only
  cases hbound : h.lower_bound (priv_get_total_units P preferred_size) with
  | some b =>
    obtain ⟨u, hsmallest⟩ := hrep.lower_bound_some hbound
    obtain ⟨L, R, rfl, htaken⟩ := hrep.taken hsmallest.1 (priv_get_total_units_ge P _) hsmallest.2.1
      preferred_size
    exact Or.inl ⟨L, u, R, _, rfl, hsmallest, htaken⟩
  | none =>
    have hsmall : ∀ c w, FreeAt P first blocks c w → w < priv_get_total_units P preferred_size :=
      fun c w hc => hrep.lower_bound_none hbound hc
    cases hlast : h.m_imultiset.getLast? with
    | none =>
      refine Or.inr (Or.inr ⟨?_, rfl⟩)
      intro c w hc
      have hmem := hrep.mem_tree_iff.mpr ⟨w, hc⟩
      rw [List.getLast?_eq_none_iff.mp hlast] at hmem
      cases hmem
    | some b =>
      obtain ⟨u, hlargest⟩ := hrep.last_largest hlast
      have hsize := hrep.free_size hlargest.1
      simp only [hsize]
      by_cases hlimit : priv_get_total_units P limit_size ≤ u
      · have hu : P.BlockCtrlUnits ≤ u := Nat.le_trans (priv_get_total_units_ge P _) hlimit
        obtain ⟨L, R, rfl, htaken⟩ := hrep.taken hlargest.1 hu (Nat.le_refl u) preferred_size
        rw [if_pos hlimit]
        exact Or.inr (Or.inl ⟨hsmall, L, u, R, _, rfl, hlargest, hlimit, htaken⟩)
      · rw [if_neg hlimit]
        refine Or.inr (Or.inr ⟨?_, rfl⟩)
        intro c w hc
        have hle := hlargest.2 c w hc
        exact ⟨hsmall c w hc, by omega⟩

/-- A request for a size takes the smallest free block that holds it, and fails when
    there is none. -/
theorem Rep.allocate_new_spec (hrep : Rep P h first blocks) (nbytes : Nat) :
    (∃ L u R answer, priv_allocate_new P h nbytes nbytes = answer ∧
      SmallestAtLeast P first blocks (priv_get_total_units P nbytes) (stop P.Alignment first L) u ∧
      Taken P h first blocks (priv_get_total_units P nbytes) L u R answer) ∨
    ((∀ c w, FreeAt P first blocks c w → w < priv_get_total_units P nbytes) ∧
      priv_allocate_new P h nbytes nbytes = (h, 0, nbytes)) := by
  unfold priv_allocate_new
  rw [if_neg (Nat.lt_irrefl nbytes)]
  rcases hrep.best_fit_spec nbytes nbytes with ⟨L, u, R, answer, hanswer, hsmallest, htaken⟩ |
    ⟨hsmall, L, u, R, answer, hanswer, hlargest, hlimit, htaken⟩ | ⟨hsmall, hanswer⟩
  · exact Or.inl ⟨L, u, R, answer, by rw [hanswer], hsmallest, htaken⟩
  · have hless := hsmall _ u hlargest.1
    omega
  · exact Or.inr ⟨fun c w hc => (hsmall c w hc).1, by rw [hanswer]⟩

end interprocess.rbtree_best_fit
