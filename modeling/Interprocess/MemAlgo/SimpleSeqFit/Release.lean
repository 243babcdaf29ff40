import Interprocess.MemAlgo.SimpleSeqFit.Blocks

namespace interprocess.ipcdetail.simple_seq_fit_impl

open Memory Tiling LinkedList

variable {P : Traits} {root first : Nat} {m m' : Memory} {L Rup R : List Block}
  {stale : List Nat} {u : Nat}

/-- `Rup` is the free block at the start of the blocks behind, if there is one. -/
def UpperBlock (Rup R : List Block) : Prop :=
  (∃ r, Rup = [⟨r, false⟩]) ∨ Rup = [] ∧ ∀ r ∈ R.head?, r.used = true

theorem exists_upperBlock (R : List Block) : ∃ Rup R', R = Rup ++ R' ∧ UpperBlock Rup R' := by
  cases R with
  | nil => exact ⟨[], [], rfl, Or.inr ⟨rfl, by simp⟩⟩
  | cons r R =>
    obtain ⟨r, used⟩ := r
    cases used with
    | false => exact ⟨[⟨r, false⟩], R, rfl, Or.inl ⟨r, rfl⟩⟩
    | true => exact ⟨[], ⟨r, true⟩ :: R, rfl, Or.inr ⟨rfl, by simp⟩⟩

/-- No free block starts at `a` when the first block from there on is in use. -/
theorem following_ne {a : Nat} (hroot : root < a) (hhead : ∀ r ∈ R.head?, r.used = true)
    (hsizes : ∀ b ∈ R, P.BlockCtrlUnits ≤ b.units) : a ≠ following P root a R := by
  rcases following_cases P root a R with heq | ⟨v, hv⟩
  · omega
  · intro heq
    rw [← heq] at hv
    cases R with
    | nil => cases hv
    | cons r R =>
      rcases List.mem_cons.mp hv with hv | hv
      · cases hv
        cases hhead ⟨v, false⟩ rfl
      · have hbound := (mem_placed_bounds _ hv).1
        have hlength := Nat.le_trans P.BlockCtrlBytes_ge
          (bytes_ge (hsizes r List.mem_cons_self))
        omega

/-- The header of a block that took in the free block behind it. -/
theorem combine_upper_ctrl (htiles : Tiles P root first m (L ++ ⟨u, true⟩ :: (Rup ++ R)) stale)
    (hfresh : stop P.Alignment first L ∉ stale) (hupper : UpperBlock Rup R) :
    ctrl P (combine_upper P m (stop P.Alignment first L)
        (following P root (stop P.Alignment first L + u * P.Alignment) (Rup ++ R)))
      (stop P.Alignment first L) =
        ⟨following P root (stop P.Alignment first L + (u + units Rup) * P.Alignment) R,
          u + units Rup⟩ := by
  obtain ⟨hx, hxle, hprev, hlength, hlt⟩ := htiles.mid_pointer
  obtain ⟨hafter, hafter'⟩ := htiles.after_pointer
  have hctrl := htiles.mid_used_ctrl hfresh
  have hsize : m_size m (stop P.Alignment first L) = u := congrArg block_ctrl.m_size hctrl
  have hroot : root < stop P.Alignment first L + u * P.Alignment := by
    have hbefore := htiles.root_before
    have hle := le_stop P.Alignment first L
    omega
  unfold combine_upper
  rw [hsize, Nat.mul_comm P.Alignment u]
  rcases hupper with ⟨r, rfl⟩ | ⟨rfl, hhead⟩
  · have hsplit := htiles
    rw [List.append_cons, List.singleton_append] at hsplit
    have hnext := hsplit.next_free
    have hfree := hsplit.mid_free_size
    obtain ⟨hafter, hafter'⟩ := hsplit.after_pointer
    have hbound := hsplit.mid_stop_lt
    obtain ⟨_, _, _, hlength', _⟩ := hsplit.mid_pointer
    rw [stop_concat] at hnext hfree hafter hafter' hbound
    have hur : u + r < 2 ^ 64 := by
      have hmul : u + r ≤ (u + r) * P.Alignment := Nat.le_mul_of_pos_right _ P.Alignment_pos
      rw [Nat.add_mul] at hmul
      have hbefore := htiles.root_before
      have hle := le_stop P.Alignment first L
      omega
    have hpos : following P root (stop P.Alignment first L + u * P.Alignment) ([⟨r, false⟩] ++ R) =
        stop P.Alignment first L + u * P.Alignment := rfl
    rw [hpos, if_pos rfl, hfree]
    have hmid : m_next P (set_size m (stop P.Alignment first L) (u + r))
        (stop P.Alignment first L + u * P.Alignment) =
          following P root (stop P.Alignment first L + u * P.Alignment + r * P.Alignment) R := by
      rw [← hnext]
      exact congrArg block_ctrl.m_next (ctrl_set_size_of_apart (Or.inr (by omega)))
    simp only [hmid, units_cons, units_nil, Nat.add_zero, Nat.add_mul, ← Nat.add_assoc]
    rw [ctrl_set_next hx hafter hafter', ctrl_set_size hur]
  · rw [List.nil_append] at htiles hafter hafter' ⊢
    have hne := following_ne hroot hhead fun b hb => htiles.sizes b (by simp [hb])
    rw [if_neg hne, ctrl_set_next hx hafter hafter', hctrl, units_nil, Nat.add_zero]

theorem combine_upper_frame {x pos b : Nat} (hb : b < x ∨ x + 16 ≤ b) :
    combine_upper P m x pos b = m b := by
  unfold combine_upper
  split_ifs
  · refine (P.store_ptr_frame (by omega)).trans ?_
    exact store_outside _ _ (by omega)
  · exact P.store_ptr_frame (by omega)

/-- What `priv_deallocate` writes for the block at `x` between its free neighbours. -/
def release (P : Traits) (m : Memory) (x prev pos : Nat) : Memory :=
  combine_lower P (combine_upper P m x pos) prev x

/-- No free block ends at the end of `L` when the last block of `L` is in use. -/
theorem Tiles.previous_stop_ne (htiles : Tiles P root first m (L ++ R) stale)
    (hlast : ∀ l ∈ L.getLast?, l.used = true) :
    previous P root first L + P.Alignment * m_size m (previous P root first L) ≠
      stop P.Alignment first L := by
  have hbefore := htiles.root_before
  rcases previous_cases P root first L with heq | ⟨v, hv⟩
  · have hle := le_stop P.Alignment first L
    rw [heq, htiles.root_size]
    omega
  · have hplaced : (previous P root first L, (⟨v, false⟩ : Block)) ∈
        placed P.Alignment first (L ++ R) := by
      rw [placed_append]
      exact List.mem_append_left _ hv
    rw [htiles.free_size _ v hplaced, Nat.mul_comm]
    rcases List.eq_nil_or_concat L with rfl | ⟨L', l, rfl⟩
    · cases hv
    · have hused : l.used = true := hlast l (by simp)
      rw [List.concat_eq_append] at hv hlast htiles ⊢
      have hlength : 16 ≤ l.units * P.Alignment :=
        Nat.le_trans P.BlockCtrlBytes_ge (bytes_ge (htiles.sizes l (by simp)))
      have hin : (previous P root first (L' ++ [l]), (⟨v, false⟩ : Block)) ∈
          placed P.Alignment first L' := by
        rw [placed_append, List.mem_append] at hv
        rcases hv with hv | hv
        · exact hv
        · simp only [placed, List.mem_singleton, Prod.mk.injEq] at hv
          rw [← hv.2] at hused
          cases hused
      have hbound : previous P root first (L' ++ [l]) + v * P.Alignment ≤ stop P.Alignment first L' :=
        (mem_placed_bounds _ hin).2
      rw [stop_append, stop_cons, stop_nil]
      omega

/-- The block is linked behind the free block in front of it. -/
theorem Exchange.release_apart
    (htiles : Tiles P root first m (L ++ ⟨u, true⟩ :: (Rup ++ R)) stale)
    (hfresh : stop P.Alignment first L ∉ stale) (hupper : UpperBlock Rup R)
    (hlast : ∀ l ∈ L.getLast?, l.used = true) :
    Exchange P root first m
      (release P m (stop P.Alignment first L) (previous P root first L)
        (following P root (stop P.Alignment first L + u * P.Alignment) (Rup ++ R)))
      L (⟨u, true⟩ :: Rup) [⟨u + units Rup, false⟩] R stale := by
  obtain ⟨hx, hxle, hprev, hlength, hlt⟩ := htiles.mid_pointer
  have hctrl := combine_upper_ctrl htiles hfresh hupper
  have hne := htiles.previous_stop_ne hlast
  have hstop : stop P.Alignment first (L ++ ⟨u, true⟩ :: Rup) =
      stop P.Alignment first L + (u + units Rup) * P.Alignment := by
    rw [stop_append, stop, units_cons]
  have hsame : m_size (combine_upper P m (stop P.Alignment first L)
      (following P root (stop P.Alignment first L + u * P.Alignment) (Rup ++ R)))
      (previous P root first L) = m_size m (previous P root first L) := by
    refine load_congr ?_
    intro b _ hb
    exact combine_upper_frame (Or.inl (by omega))
  have hsize : P.BlockCtrlUnits ≤ u + units Rup :=
    Nat.le_trans (htiles.sizes ⟨u, true⟩ (by simp)) (Nat.le_add_right _ _)
  unfold release combine_lower
  rw [hsame, if_neg hne]
  refine ⟨?_, ?_, ?_, ?_, ?_, ?_⟩
  · rw [units_cons, units_cons, units_nil, Nat.add_zero]
  · intro b hb
    rw [List.mem_singleton.mp hb]
    exact hsize
  · rw [frees_cons_free, frees_nil, path_cons, path_nil, hstop]
    refine ⟨congrArg block_ctrl.m_next (ctrl_set_next htiles.previous_pointer hx (by omega)), ?_⟩
    have hblock := (ctrl_set_next_of_apart (p := stop P.Alignment first L) (Or.inr hprev)).trans hctrl
    exact congrArg block_ctrl.m_next hblock
  · intro x v hx
    simp only [placed, List.mem_singleton, Prod.mk.injEq, Block.mk.injEq, and_true] at hx
    obtain ⟨rfl, rfl⟩ := hx
    have hblock := (ctrl_set_next_of_apart (p := stop P.Alignment first L) (Or.inr hprev)).trans hctrl
    exact congrArg block_ctrl.m_size hblock
  · intro x v hx
    simp [placed] at hx
  · intro b hout hrange
    have hle : u * P.Alignment ≤ (u + units Rup) * P.Alignment :=
      Nat.mul_le_mul_right _ (Nat.le_add_right _ _)
    refine (P.store_ptr_frame hout).trans (combine_upper_frame ?_)
    omega

/-- The free block in front takes the block in. -/
theorem Exchange.release_merge {p : Nat}
    (htiles : Tiles P root first m (L ++ ⟨p, false⟩ :: ⟨u, true⟩ :: (Rup ++ R)) stale)
    (hfresh : stop P.Alignment first L + p * P.Alignment ∉ stale) (hupper : UpperBlock Rup R) :
    Exchange P root first m
      (release P m (stop P.Alignment first L + p * P.Alignment) (stop P.Alignment first L)
        (following P root (stop P.Alignment first L + p * P.Alignment + u * P.Alignment) (Rup ++ R)))
      L (⟨p, false⟩ :: ⟨u, true⟩ :: Rup) [⟨p + (u + units Rup), false⟩] R stale := by
  obtain ⟨hprev8, _, hprev, hplength, _⟩ := htiles.mid_pointer
  have hpsize := htiles.mid_free_size
  have hlink := htiles.next_previous
  have hsplit := htiles
  rw [List.append_cons] at hsplit
  rw [← stop_concat (P := P) first L false] at hfresh
  have hctrl := combine_upper_ctrl hsplit hfresh hupper
  obtain ⟨_, _, _, hlength, _⟩ := hsplit.mid_pointer
  rw [stop_concat] at hctrl
  have hall : L ++ ⟨p, false⟩ :: ⟨u, true⟩ :: (Rup ++ R) =
      (L ++ ⟨p, false⟩ :: ⟨u, true⟩ :: Rup) ++ R := by
    simp
  have hstop : stop P.Alignment first (L ++ ⟨p, false⟩ :: ⟨u, true⟩ :: Rup) =
      stop P.Alignment first L + (p + (u + units Rup)) * P.Alignment := by
    rw [stop_append, stop, units_cons, units_cons]
  have hbefore := htiles.root_before
  have hle := htiles.stop_le
  have hstart := le_stop P.Alignment first L
  have hend := le_stop P.Alignment (stop P.Alignment first (L ++ ⟨p, false⟩ :: ⟨u, true⟩ :: Rup)) R
  rw [hall] at htiles hle
  obtain ⟨hafter, hafter'⟩ := htiles.following_pointer
  rw [stop_append, hstop] at hle
  rw [hstop] at hafter hafter' hend
  have hlt : p + (u + units Rup) < 2 ^ 64 := by
    have hmul : p + (u + units Rup) ≤ (p + (u + units Rup)) * P.Alignment :=
      Nat.le_mul_of_pos_right _ P.Alignment_pos
    omega
  have hwide : p * P.Alignment + u * P.Alignment ≤ (p + (u + units Rup)) * P.Alignment := by
    rw [← Nat.add_mul]
    exact Nat.mul_le_mul_right _ (by omega)
  have htarget : stop P.Alignment first L + p * P.Alignment + (u + units Rup) * P.Alignment =
      stop P.Alignment first L + (p + (u + units Rup)) * P.Alignment := by
    rw [Nat.add_mul p, Nat.add_assoc]
  rw [htarget] at hctrl
  have hsame : ctrl P (combine_upper P m (stop P.Alignment first L + p * P.Alignment)
      (following P root (stop P.Alignment first L + p * P.Alignment + u * P.Alignment) (Rup ++ R)))
      (stop P.Alignment first L) = ctrl P m (stop P.Alignment first L) := by
    refine ctrl_congr ?_
    intro b _ hb
    exact combine_upper_frame (Or.inl (by omega))
  have hframe : ∀ b, b < stop P.Alignment first L + p * P.Alignment ∨
      stop P.Alignment first L + p * P.Alignment + 16 ≤ b →
        combine_upper P m (stop P.Alignment first L + p * P.Alignment) (following P root
          (stop P.Alignment first L + p * P.Alignment + u * P.Alignment) (Rup ++ R)) b = m b :=
    fun b hb => combine_upper_frame hb
  unfold release combine_lower
  generalize combine_upper P m (stop P.Alignment first L + p * P.Alignment)
    (following P root (stop P.Alignment first L + p * P.Alignment + u * P.Alignment)
      (Rup ++ R)) = m₁ at *
  have hpsize₁ : m_size m₁ (stop P.Alignment first L) = p :=
    (congrArg block_ctrl.m_size hsame).trans hpsize
  have hsize₁ : m_size m₁ (stop P.Alignment first L + p * P.Alignment) = u + units Rup :=
    congrArg block_ctrl.m_size hctrl
  rw [hpsize₁, Nat.mul_comm P.Alignment p, if_pos rfl, hsize₁]
  have hnext₁ : m_next P (set_size m₁ (stop P.Alignment first L) (p + (u + units Rup)))
      (stop P.Alignment first L + p * P.Alignment) =
        following P root (stop P.Alignment first L + (p + (u + units Rup)) * P.Alignment) R := by
    refine congrArg block_ctrl.m_next (Eq.trans (ctrl_set_size_of_apart (Or.inr ?_)) hctrl)
    omega
  simp only [hnext₁]
  have hresult : ctrl P (set_next P (set_size m₁ (stop P.Alignment first L) (p + (u + units Rup)))
      (stop P.Alignment first L) (following P root
        (stop P.Alignment first L + (p + (u + units Rup)) * P.Alignment) R))
      (stop P.Alignment first L) = ⟨following P root
        (stop P.Alignment first L + (p + (u + units Rup)) * P.Alignment) R,
          p + (u + units Rup)⟩ := by
    rw [ctrl_set_next hprev8 hafter hafter', ctrl_set_size hlt]
  have hout : ∀ b, b < stop P.Alignment first L ∨
      stop P.Alignment first L + (p + (u + units Rup)) * P.Alignment ≤ b →
        set_next P (set_size m₁ (stop P.Alignment first L) (p + (u + units Rup)))
          (stop P.Alignment first L) (following P root
            (stop P.Alignment first L + (p + (u + units Rup)) * P.Alignment) R) b = m b := by
    intro b hb
    refine (P.store_ptr_frame (by omega)).trans ?_
    refine (store_outside _ _ (by omega)).trans ?_
    exact hframe b (by omega)
  refine ⟨?_, ?_, ?_, ?_, ?_, ?_⟩
  · simp only [units_cons, units_nil, Nat.add_zero]
  · intro b hb
    rw [List.mem_singleton.mp hb]
    exact Nat.le_trans (htiles.sizes ⟨p, false⟩ (by simp)) (Nat.le_add_right _ _)
  · rw [frees_cons_free, frees_nil, path_cons, path_nil, hstop]
    refine ⟨?_, congrArg block_ctrl.m_next hresult⟩
    refine Eq.trans (P.load_ptr_congr ?_) hlink
    intro b _ hb
    exact hout b (Or.inl (by omega))
  · intro x v hx
    simp only [placed, List.mem_singleton, Prod.mk.injEq, Block.mk.injEq, and_true] at hx
    obtain ⟨rfl, rfl⟩ := hx
    exact congrArg block_ctrl.m_size hresult
  · intro x v hx
    simp [placed] at hx
  · intro b _ hrange
    rw [hstop] at hrange
    exact hout b hrange

/-- The allocated block at `x` became free memory. -/
structure Released (P : Traits) (first : Nat) (m m' : Memory) (blocks blocks' : List Block)
    (x u : Nat) : Prop where
  units_eq : units blocks' = units blocks
  used_units : usedUnits blocks = u + usedUnits blocks'
  useds_perm : (useds P.Alignment first blocks).Perm (x :: useds P.Alignment first blocks')
  coalesced : Coalesced blocks → Coalesced blocks'
  kept : ∀ y v, (y, (⟨v, true⟩ : Block)) ∈ placed P.Alignment first blocks → y ≠ x →
    (y, (⟨v, true⟩ : Block)) ∈ placed P.Alignment first blocks' ∧
      SameOn m' m y (y + v * P.Alignment)

theorem UpperBlock.head_used (hupper : UpperBlock Rup R) (h : Coalesced (L ++ (Rup ++ R))) :
    ∀ b ∈ R.head?, b.used = true := by
  rcases hupper with ⟨r, rfl⟩ | ⟨rfl, hhead⟩
  · exact h.head_used
  · exact hhead

theorem UpperBlock.useds_eq (hupper : UpperBlock Rup R) (a : Nat) : useds P.Alignment a Rup = [] := by
  rcases hupper with ⟨r, rfl⟩ | ⟨rfl, _⟩ <;> rfl

theorem UpperBlock.usedUnits_eq (hupper : UpperBlock Rup R) : usedUnits Rup = 0 := by
  rcases hupper with ⟨r, rfl⟩ | ⟨rfl, _⟩ <;> rfl

/-- The blocks `G` around the block at `x` became one free block. -/
theorem Exchange.released {G : List Block} {w x : Nat}
    (htiles : Tiles P root first m (L ++ G ++ R) stale)
    (hex : Exchange P root first m m' L G [⟨w, false⟩] R stale)
    (huseds : useds P.Alignment (stop P.Alignment first L) G = [x]) (hunits : usedUnits G = u)
    (hlast : Coalesced (L ++ G ++ R) → ∀ l ∈ L.getLast?, l.used = true)
    (hhead : Coalesced (L ++ G ++ R) → ∀ r ∈ R.head?, r.used = true) :
    Released P first m m' (L ++ G ++ R) (L ++ [⟨w, false⟩] ++ R) x u := by
  have hstop : stop P.Alignment first (L ++ [⟨w, false⟩]) = stop P.Alignment first (L ++ G) := by
    simp only [stop, units_append, hex.units_eq]
  refine ⟨?_, ?_, ?_, ?_, ?_⟩
  · simp only [units_append, hex.units_eq]
  · simp only [usedUnits_append, hunits, usedUnits_cons, usedUnits_nil]
    simp only [Bool.false_eq_true, ↓reduceIte]
    omega
  · rw [useds_append, useds_append, useds_append, useds_append, hstop, huseds, useds_cons_free,
      useds_nil, List.append_nil, List.append_assoc]
    exact List.perm_middle
  · intro hcoalesced
    have hparts := List.isChain_append.mp hcoalesced
    exact coalesced_free (List.isChain_append.mp hparts.1).1 hparts.2.1 (hlast hcoalesced)
      (hhead hcoalesced)
  · intro y v hy hne
    refine hex.kept htiles hy ?_
    rw [huseds, List.mem_singleton]
    exact hne

theorem previous_concat_free (L : List Block) (p : Nat) :
    previous P root first (L ++ [⟨p, false⟩]) = stop P.Alignment first L := by
  rw [previous, frees_append, getLastD_append, frees_cons_free, frees_nil]
  rfl

/-- A block between its free neighbours is given back. -/
theorem Tiles.release (htiles : Tiles P root first m (L ++ ⟨u, true⟩ :: R) stale)
    (hfresh : stop P.Alignment first L ∉ stale) :
    ∃ blocks, Tiles P root first (release P m (stop P.Alignment first L) (previous P root first L)
        (following P root (stop P.Alignment first L + u * P.Alignment) R)) blocks stale ∧
      Released P first m (simple_seq_fit_impl.release P m (stop P.Alignment first L)
        (previous P root first L) (following P root (stop P.Alignment first L + u * P.Alignment) R))
        (L ++ ⟨u, true⟩ :: R) blocks (stop P.Alignment first L) u := by
  obtain ⟨Rup, R, rfl, hupper⟩ := exists_upperBlock R
  by_cases hmerge : ∃ L' p, L = L' ++ [⟨p, false⟩]
  · obtain ⟨L, p, rfl⟩ := hmerge
    have hall : L ++ [⟨p, false⟩] ++ ⟨u, true⟩ :: (Rup ++ R) =
        L ++ ⟨p, false⟩ :: ⟨u, true⟩ :: Rup ++ R := by
      simp
    have hcons : L ++ [⟨p, false⟩] ++ ⟨u, true⟩ :: (Rup ++ R) =
        L ++ ⟨p, false⟩ :: ⟨u, true⟩ :: (Rup ++ R) := by
      simp
    rw [stop_concat] at hfresh
    rw [stop_concat, previous_concat_free, hall]
    have hex := Exchange.release_merge (hcons ▸ htiles) hfresh hupper
    rw [hall] at htiles
    refine ⟨_, htiles.exchange hex fun y hy => Or.inl hy, hex.released htiles ?_ ?_ ?_ ?_⟩
    · rw [useds_cons_free, useds_cons_used, hupper.useds_eq]
    · simp [usedUnits_cons, hupper.usedUnits_eq]
    · intro hcoalesced
      rw [List.append_assoc] at hcoalesced
      exact Coalesced.last_used hcoalesced
    · intro hcoalesced
      refine hupper.head_used (L := L ++ [⟨p, false⟩, ⟨u, true⟩]) ?_
      simpa using hcoalesced
  · have hlast : ∀ l ∈ L.getLast?, l.used = true := by
      intro l hl
      obtain ⟨L', rfl⟩ := List.getLast?_eq_some_iff.mp hl
      obtain ⟨v, used⟩ := l
      cases used with
      | true => rfl
      | false => exact absurd ⟨L', v, rfl⟩ hmerge
    have hall : L ++ ⟨u, true⟩ :: (Rup ++ R) = L ++ ⟨u, true⟩ :: Rup ++ R := by
      simp
    have hex := Exchange.release_apart htiles hfresh hupper hlast
    rw [hall] at htiles ⊢
    refine ⟨_, htiles.exchange hex fun y hy => Or.inl hy, hex.released htiles ?_ ?_ ?_ ?_⟩
    · rw [useds_cons_used, hupper.useds_eq]
    · simp [usedUnits_cons, hupper.usedUnits_eq]
    · exact fun _ => hlast
    · intro hcoalesced
      refine hupper.head_used (L := L ++ [⟨u, true⟩]) ?_
      simpa using hcoalesced

end interprocess.ipcdetail.simple_seq_fit_impl
