import Interprocess.Base.Transition
import Interprocess.MappedRegion.Operations

namespace interprocess.mapped_region

open ipcdetail Transition

variable {S : System}

/-- The pages of the region are those still mapped and those removed, each once. -/
structure Conserved (original : Finset Nat) (pages : Pages) : Prop where
  covers : ∀ p, p ∈ original ↔ p ∈ pages.mapped ∨ ∃ q ∈ pages.unmapped, p ∈ q
  disjoint : pages.unmapped.Pairwise Disjoint
  mapped_disjoint : ∀ q ∈ pages.unmapped, Disjoint pages.mapped q

/-- An open region starts in the page `first`, and the pages from there to its end
    are mapped. -/
structure Open (S : System) (original : Finset Nat) (first : Nat) (r : mapped_region) : Prop where
  base_eq : r.m_base = first * S.page_size + r.m_page_offset
  offset_lt : r.m_page_offset < S.page_size
  first_pos : 0 < first
  size_pos : 0 < r.m_page_offset + r.m_size
  end_le : r.m_base + r.m_size ≤ S.task_size
  mapped_eq : r.pages.mapped =
    Finset.Ico first (first + (r.m_page_offset + r.m_size - 1) / S.page_size + 1)
  conserved : Conserved original r.pages

/-- A region that a full-size cut closed. -/
structure Closed (original : Finset Nat) (r : mapped_region) : Prop where
  base_eq : r.m_base = 0
  mapped_eq : r.pages.mapped = ∅
  conserved : Conserved original r.pages

theorem page_range_mul (S : System) (first : Nat) {length : Nat} (hpos : 0 < length) :
    page_range S (first * S.page_size) length =
      Finset.Ico first (first + (length - 1) / S.page_size + 1) := by
  have hlast : first * S.page_size + length - 1 = length - 1 + first * S.page_size := by omega
  rw [page_range, Nat.mul_div_cancel _ S.page_size_pos, hlast,
    Nat.add_mul_div_right _ _ S.page_size_pos, Nat.add_comm ((length - 1) / S.page_size)]

/-- Pages that are mapped are removed. -/
theorem Conserved.munmap {original : Finset Nat} {pages : Pages}
    (hconserved : Conserved original pages) (first : Nat) {length : Nat} (hpos : 0 < length)
    (hend : first * S.page_size + length ≤ S.task_size)
    (hsub : page_range S (first * S.page_size) length ⊆ pages.mapped) :
    pages.munmap S (first * S.page_size) length =
        (⟨pages.mapped \ page_range S (first * S.page_size) length,
          page_range S (first * S.page_size) length :: pages.unmapped⟩, true) ∧
      Conserved original ⟨pages.mapped \ page_range S (first * S.page_size) length,
        page_range S (first * S.page_size) length :: pages.unmapped⟩ := by
  have haligned : first * S.page_size % S.page_size = 0 := Nat.mul_mod_left _ _
  refine ⟨if_neg (by omega), ?_, ?_, ?_⟩
  · intro p
    rw [hconserved.covers p]
    simp only [Finset.mem_sdiff, List.mem_cons, exists_eq_or_imp]
    constructor
    · rintro (hp | hp)
      · by_cases hrange : p ∈ page_range S (first * S.page_size) length
        · exact Or.inr (Or.inl hrange)
        · exact Or.inl ⟨hp, hrange⟩
      · exact Or.inr (Or.inr hp)
    · rintro (hp | hp | hp)
      · exact Or.inl hp.1
      · exact Or.inl (hsub hp)
      · exact Or.inr hp
  · refine List.pairwise_cons.mpr ⟨?_, hconserved.disjoint⟩
    intro q hq
    exact Finset.disjoint_of_subset_left hsub (hconserved.mapped_disjoint q hq)
  · intro q hq
    rcases List.mem_cons.mp hq with rfl | hq
    · exact Finset.sdiff_disjoint
    · exact Finset.disjoint_of_subset_left Finset.sdiff_subset (hconserved.mapped_disjoint q hq)

/-- The addresses of the region. -/
def view (r : mapped_region) : Set Nat :=
  { a | get_address r ≤ a ∧ a < get_address r + get_size r }

/-- What a call that cuts a part of the region does: the view keeps its other part,
    and the pages given back were mapped and have no byte of it. -/
structure Cut (S : System) (r : mapped_region) (bytes : Nat) (from_back : Bool)
    (r' : mapped_region) : Prop where
  size_eq : get_size r' = get_size r - bytes
  address_eq : get_address r' = if from_back then get_address r else get_address r + bytes
  unmaps : ∃ ranges, r'.pages.unmapped = ranges ++ r.pages.unmapped ∧
    ∀ q ∈ ranges, q ⊆ r.pages.mapped ∧ ∀ a ∈ view r', a / S.page_size ∉ q

/-- A call that asks for no more than the region has succeeds and cuts it. One that
    asks for more fails and changes nothing. -/
def ShrinksBy (S : System) (r : mapped_region) (bytes : Nat) (from_back : Bool) : Prop :=
  if bytes ≤ get_size r then
    (shrink_by S r bytes from_back).2 = true ∧
      Cut S r bytes from_back (shrink_by S r bytes from_back).1
  else shrink_by S r bytes from_back = (r, false)

/-- The region is open and not cut whole, and a cut from the back takes away the
    part of a page at its end. -/
def Cuttable (S : System) (r : mapped_region) (bytes : Nat) (from_back : Bool) : Prop :=
  bytes ≤ get_size r → r.m_base ≠ 0 ∧ bytes ≠ get_size r ∧
    (from_back = true →
      ((r.m_page_offset + get_size r - bytes - 1) / S.page_size + 1) * S.page_size ≤
        r.m_page_offset + get_size r)

section Steps

variable {original : Finset Nat} {first : Nat} {r : mapped_region} {bytes : Nat}

theorem Open.base_pos (hopen : Open S original first r) : r.m_base ≠ 0 := by
  have hfirst := Nat.mul_pos hopen.first_pos S.page_size_pos
  have hbase := hopen.base_eq
  omega

theorem Open.map_address_eq (hopen : Open S original first r) :
    priv_map_address r = first * S.page_size := by
  rw [priv_map_address, hopen.base_eq, Nat.add_sub_cancel]

/-- The first page and the region fit the words of the machine. -/
theorem Open.page_room (hopen : Open S original first r) :
    S.page_size + r.m_page_offset + r.m_size ≤ 2 ^ 64 := by
  have hfirst := Nat.le_mul_of_pos_left S.page_size hopen.first_pos
  have hbase := hopen.base_eq
  have hend := hopen.end_le
  have htask := S.task_size_le
  omega

/-- The last page of a region of `length` bytes. -/
theorem last_page_bounds (S : System) {length : Nat} (hpos : 0 < length) :
    (length - 1) / S.page_size * S.page_size < length ∧
      length ≤ ((length - 1) / S.page_size + 1) * S.page_size := by
  have hbounds := next_multiple_bounds (n := length - 1) S.page_size_pos
  have hle := Nat.div_mul_le_self (length - 1) S.page_size
  omega

/-- Closing removes every page that is left. -/
theorem Open.priv_close_closed (hopen : Open S original first r) :
    Closed original (priv_close S r) := by
  have hrange : page_range S (first * S.page_size) (priv_map_size r) = r.pages.mapped := by
    rw [priv_map_size, Nat.add_comm, page_range_mul S first hopen.size_pos, hopen.mapped_eq]
  have hsize : priv_map_size r = r.m_page_offset + r.m_size := Nat.add_comm _ _
  obtain ⟨hunmap, hconserved⟩ := hopen.conserved.munmap (S := S) first
    (show 0 < priv_map_size r by
      rw [hsize]
      exact hopen.size_pos)
    (by rw [hsize, ← Nat.add_assoc, ← hopen.base_eq]; exact hopen.end_le)
    (by rw [hrange])
  rw [hrange] at hunmap hconserved
  rw [priv_close, if_pos hopen.base_pos, hopen.map_address_eq, hunmap]
  exact ⟨rfl, Finset.sdiff_self _, hconserved⟩

theorem Closed.priv_close_eq (hclosed : Closed original r) : priv_close S r = r :=
  if_neg (fun hbase => hbase hclosed.base_eq)

/-- A closed region and a cut of more than the region has are refused. -/
theorem shrink_by_refused (S : System) {from_back : Bool} (hrefused : r.m_base = 0 ∨ r.m_size < bytes) :
    shrink_by S r bytes from_back = (r, false) := by
  simp only [shrink_by, priv_shrink_param_check, if_pos hrefused, Bool.not_false, if_true]

/-- A cut of the whole region closes it. -/
theorem Open.shrink_by_whole (hopen : Open S original first r) (from_back : Bool) :
    shrink_by S r r.m_size from_back = (priv_close S r, true) := by
  have hgoes : ¬ (r.m_base = 0 ∨ r.m_size < r.m_size) := by simp [hopen.base_pos]
  simp only [shrink_by, priv_shrink_param_check, if_neg hgoes, if_true, Bool.not_true,
    Bool.false_eq_true, if_false, ne_eq, not_true_eq_false]

/-- A region whose last page is kept by a cut from the back stays as it is, but for
    its size. -/
theorem Open.resize (hopen : Open S original first r) {size : Nat}
    (hpos : 0 < r.m_page_offset + size) (hle : size ≤ r.m_size)
    (hlast : (r.m_page_offset + size - 1) / S.page_size =
      (r.m_page_offset + r.m_size - 1) / S.page_size) :
    Open S original first { r with m_size := size } where
  base_eq := hopen.base_eq
  offset_lt := hopen.offset_lt
  first_pos := hopen.first_pos
  size_pos := hpos
  end_le := Nat.le_trans (Nat.add_le_add_left hle _) hopen.end_le
  mapped_eq := by
    show r.pages.mapped = _
    rw [hopen.mapped_eq]
    show _ = Finset.Ico first (first + (r.m_page_offset + size - 1) / S.page_size + 1)
    rw [hlast]
  conserved := hopen.conserved

/-- A cut from the back that keeps a part of the last page asks for a range that
    wraps around, and fails after it changed the size. -/
theorem Open.shrink_by_part (hopen : Open S original first r) (hlt : bytes < r.m_size)
    (hpart : r.m_page_offset + r.m_size <
      ((r.m_page_offset + r.m_size - bytes - 1) / S.page_size + 1) * S.page_size) :
    shrink_by S r bytes true = ({ r with m_size := r.m_size - bytes }, false) ∧
      Open S original first { r with m_size := r.m_size - bytes } := by
  have hroom := hopen.page_room
  have hlower : (r.m_page_offset + r.m_size - bytes - 1) / S.page_size * S.page_size <
      r.m_page_offset + r.m_size - bytes :=
    (last_page_bounds S (by omega)).1
  have hlast : (r.m_page_offset + (r.m_size - bytes) - 1) / S.page_size =
      (r.m_page_offset + r.m_size - 1) / S.page_size := by
    refine (Nat.div_eq_of_lt_le ?_ ?_).symm
    · rw [← Nat.add_sub_assoc (Nat.le_of_lt hlt)]
      omega
    · rw [← Nat.add_sub_assoc (Nat.le_of_lt hlt)]
      omega
  refine ⟨?_, hopen.resize (by omega) (Nat.sub_le _ _) hlast⟩
  have hgoes : ¬ (r.m_base = 0 ∨ r.m_size < bytes) := by
    have hbase := hopen.base_pos
    omega
  rw [Nat.succ_mul] at hpart
  have hpages : (r.m_size + r.m_page_offset - bytes - 1) / S.page_size + 1 =
      (r.m_page_offset + r.m_size - bytes - 1) / S.page_size + 1 := by
    rw [Nat.add_comm r.m_size]
  generalize hnew : (r.m_page_offset + r.m_size - bytes - 1) / S.page_size = last at *
  have hwrap : size_sub (r.m_page_offset + r.m_size) ((last + 1) * S.page_size) =
      2 ^ 64 + (r.m_page_offset + r.m_size) - (last * S.page_size + S.page_size) := by
    rw [Nat.succ_mul, size_sub, Nat.mod_eq_of_lt (by omega)]
    omega
  have hfails : Pages.munmap S r.pages (priv_map_address r + (last + 1) * S.page_size)
      (2 ^ 64 + (r.m_page_offset + r.m_size) - (last * S.page_size + S.page_size)) =
        (r.pages, false) := by
    refine if_pos (Or.inr (Or.inr ?_))
    have htask := S.task_size_le
    have hfirst := Nat.mul_pos hopen.first_pos S.page_size_pos
    rw [hopen.map_address_eq, Nat.succ_mul]
    omega
  have hnonzero : 2 ^ 64 + (r.m_page_offset + r.m_size) - (last * S.page_size + S.page_size) ≠ 0 := by
    omega
  simp only [shrink_by, priv_shrink_param_check, if_neg hgoes, if_neg (Nat.ne_of_lt hlt), if_true,
    hpages, hwrap, Bool.not_true, Bool.false_eq_true, if_false, hfails, if_pos hnonzero]

/-- The pages behind the first `n` are given back. -/
theorem Open.munmap_back (hopen : Open S original first r) {n : Nat}
    (hless : n * S.page_size < r.m_page_offset + r.m_size) :
    ∃ pages, r.pages.munmap S ((first + n) * S.page_size)
        (r.m_page_offset + r.m_size - n * S.page_size) = (pages, true) ∧
      pages.mapped = Finset.Ico first (first + n) ∧
      pages.unmapped = Finset.Ico (first + n)
        (first + (r.m_page_offset + r.m_size - 1) / S.page_size + 1) :: r.pages.unmapped ∧
      Conserved original pages := by
  have hsplit : (r.m_page_offset + r.m_size - 1) / S.page_size =
      (r.m_page_offset + r.m_size - n * S.page_size - 1) / S.page_size + n := by
    rw [← Nat.add_mul_div_right _ _ S.page_size_pos]
    congr 1
    omega
  have hrange : page_range S ((first + n) * S.page_size)
      (r.m_page_offset + r.m_size - n * S.page_size) =
      Finset.Ico (first + n) (first + (r.m_page_offset + r.m_size - 1) / S.page_size + 1) := by
    rw [page_range_mul S _ (by omega), hsplit]
    congr 1
    omega
  obtain ⟨hunmap, hconserved⟩ := hopen.conserved.munmap (S := S) (first + n)
    (Nat.sub_pos_of_lt hless)
    (by
      have hend := hopen.end_le
      have hbase := hopen.base_eq
      rw [Nat.add_mul]
      omega)
    (by
      rw [hrange, hopen.mapped_eq]
      exact Finset.Ico_subset_Ico_left (Nat.le_add_right _ _))
  refine ⟨_, hunmap, ?_, ?_, hconserved⟩
  · show r.pages.mapped \ _ = _
    rw [hrange, hopen.mapped_eq, hsplit]
    generalize (r.m_page_offset + r.m_size - n * S.page_size - 1) / S.page_size = more
    ext p
    simp only [Finset.mem_sdiff, Finset.mem_Ico]
    omega
  · show _ :: _ = _
    rw [hrange]

/-- The first `n` pages are given back. -/
theorem Open.munmap_front (hopen : Open S original first r) {n : Nat} (hpos : 0 < n)
    (hless : n * S.page_size < r.m_page_offset + r.m_size) :
    ∃ pages, r.pages.munmap S (first * S.page_size) (n * S.page_size) = (pages, true) ∧
      pages.mapped = Finset.Ico (first + n)
        (first + (r.m_page_offset + r.m_size - 1) / S.page_size + 1) ∧
      pages.unmapped = Finset.Ico first (first + n) :: r.pages.unmapped ∧
      Conserved original pages := by
  have hbytes := Nat.mul_pos hpos S.page_size_pos
  have hrange : page_range S (first * S.page_size) (n * S.page_size) =
      Finset.Ico first (first + n) := by
    rw [page_range_mul S _ hbytes, Nat.mul_comm n, Nat.mul_sub_div 0 _ _ (by
      rw [Nat.mul_comm]
      exact hbytes), Nat.zero_div]
    congr 1
    omega
  have hlast : n ≤ (r.m_page_offset + r.m_size - 1) / S.page_size :=
    (Nat.le_div_iff_mul_le S.page_size_pos).mpr (by omega)
  obtain ⟨hunmap, hconserved⟩ := hopen.conserved.munmap (S := S) first hbytes
    (by
      have hend := hopen.end_le
      have hbase := hopen.base_eq
      omega)
    (by
      rw [hrange, hopen.mapped_eq]
      exact Finset.Ico_subset_Ico_right (by omega))
  refine ⟨_, hunmap, ?_, ?_, hconserved⟩
  · show r.pages.mapped \ _ = _
    rw [hrange, hopen.mapped_eq]
    ext p
    simp only [Finset.mem_sdiff, Finset.mem_Ico]
    omega
  · show _ :: _ = _
    rw [hrange]

/-- A cut from the back that keeps whole pages gives back the pages behind them. -/
theorem Open.shrink_by_back (hopen : Open S original first r) (hlt : bytes < r.m_size)
    (hwhole : ((r.m_page_offset + r.m_size - bytes - 1) / S.page_size + 1) * S.page_size ≤
      r.m_page_offset + r.m_size) :
    (shrink_by S r bytes true).2 = true ∧ Cut S r bytes true (shrink_by S r bytes true).1 ∧
      Open S original first (shrink_by S r bytes true).1 := by
  have hroom := hopen.page_room
  have hgoes : ¬ (r.m_base = 0 ∨ r.m_size < bytes) := by
    have hbase := hopen.base_pos
    omega
  have hupper := (last_page_bounds S (show 0 < r.m_page_offset + r.m_size - bytes by omega)).2
  have hkept : (r.m_page_offset + (r.m_size - bytes) - 1) / S.page_size + 1 =
      (r.m_page_offset + r.m_size - bytes - 1) / S.page_size + 1 := by
    rw [← Nat.add_sub_assoc (Nat.le_of_lt hlt)]
  have hpages : (r.m_size + r.m_page_offset - bytes - 1) / S.page_size + 1 =
      (r.m_page_offset + r.m_size - bytes - 1) / S.page_size + 1 := by
    rw [Nat.add_comm r.m_size]
  generalize (r.m_page_offset + r.m_size - bytes - 1) / S.page_size + 1 = n at *
  have hsub : size_sub (r.m_page_offset + r.m_size) (n * S.page_size) =
      r.m_page_offset + r.m_size - n * S.page_size :=
    size_sub_of_le hwhole (by
      have hpos := S.page_size_pos
      omega)
  have hstart : priv_map_address r + n * S.page_size = (first + n) * S.page_size := by
    rw [hopen.map_address_eq, Nat.add_mul]
  rcases Nat.eq_or_lt_of_le hwhole with hend | hmore
  · have hnone : size_sub (r.m_page_offset + r.m_size) (n * S.page_size) = 0 := by
      rw [hsub, hend, Nat.sub_self]
    have hresult : shrink_by S r bytes true = ({ r with m_size := r.m_size - bytes }, true) := by
      simp only [shrink_by, priv_shrink_param_check, if_neg hgoes, if_neg (Nat.ne_of_lt hlt),
        if_true, hpages, hnone, Bool.not_true, Bool.false_eq_true, if_false, ne_eq,
        not_true_eq_false]
    rw [hresult]
    refine ⟨rfl, ⟨rfl, rfl, [], rfl, fun q hq => absurd hq List.not_mem_nil⟩, ?_⟩
    refine hopen.resize (by omega) (Nat.sub_le _ _) (Nat.succ_injective ?_)
    rw [Nat.succ_eq_add_one, hkept, Nat.succ_eq_add_one, ← hend, Nat.mul_comm,
      Nat.mul_sub_div 0 _ _ (by
        rw [Nat.mul_comm]
        omega), Nat.zero_div]
    have hpos : 0 < n := Nat.pos_of_mul_pos_right (b := S.page_size) (by omega)
    omega
  · obtain ⟨pages, hunmap, hmapped, hunmapped, hconserved⟩ := hopen.munmap_back hmore
    have hresult : shrink_by S r bytes true =
        ({ r with
            m_size := r.m_size - bytes
            pages := pages }, true) := by
      simp only [shrink_by, priv_shrink_param_check, if_neg hgoes, if_neg (Nat.ne_of_lt hlt),
        if_true, hpages, hsub, Bool.not_true, Bool.false_eq_true, if_false, hstart, hunmap, ne_eq,
        Nat.sub_ne_zero_of_lt hmore, not_false_eq_true]
    rw [hresult]
    refine ⟨rfl, ⟨rfl, rfl, [_], hunmapped, ?_⟩, ?_⟩
    · intro q hq
      rw [List.mem_singleton.mp hq, hopen.mapped_eq]
      refine ⟨Finset.Ico_subset_Ico_left (Nat.le_add_right _ _), fun a ha hmem => ?_⟩
      have hlow := Nat.div_mul_le_self a S.page_size
      have hpage := Nat.mul_le_mul_right S.page_size (Finset.mem_Ico.mp hmem).1
      rw [Nat.add_mul] at hpage
      have hbase := hopen.base_eq
      have ha' : a < r.m_base + (r.m_size - bytes) := ha.2
      omega
    · exact
        { base_eq := hopen.base_eq
          offset_lt := hopen.offset_lt
          first_pos := hopen.first_pos
          size_pos := by
            show 0 < r.m_page_offset + (r.m_size - bytes)
            omega
          end_le := Nat.le_trans (Nat.add_le_add_left (Nat.sub_le _ _) _) hopen.end_le
          mapped_eq := by
            show pages.mapped = Finset.Ico first
              (first + (r.m_page_offset + (r.m_size - bytes) - 1) / S.page_size + 1)
            rw [hmapped, Nat.add_assoc, hkept]
          conserved := hconserved }

/-- A cut from the front gives back the pages before the new base. -/
theorem Open.shrink_by_front (hopen : Open S original first r) (hlt : bytes < r.m_size) :
    (shrink_by S r bytes false).2 = true ∧ Cut S r bytes false (shrink_by S r bytes false).1 ∧
      ∃ first', Open S original first' (shrink_by S r bytes false).1 := by
  have hgoes : ¬ (r.m_base = 0 ∨ r.m_size < bytes) := by
    have hbase := hopen.base_pos
    omega
  have hdiv := Nat.div_add_mod (r.m_page_offset + bytes) S.page_size
  have hmod := Nat.mod_lt (r.m_page_offset + bytes) S.page_size_pos
  rw [Nat.mul_comm] at hdiv
  have hbase := hopen.base_eq
  have hend := hopen.end_le
  by_cases hzero : (r.m_page_offset + bytes) / S.page_size = 0
  · have hsame : (r.m_page_offset + bytes) % S.page_size = r.m_page_offset + bytes :=
      Nat.mod_eq_of_lt ((Nat.div_eq_zero_iff_lt S.page_size_pos).mp hzero)
    have hresult : shrink_by S r bytes false =
        ({ r with
            m_page_offset := r.m_page_offset + bytes
            m_size := r.m_size - bytes
            m_base := r.m_base + bytes }, true) := by
      simp only [shrink_by, priv_shrink_param_check, if_neg hgoes, if_neg (Nat.ne_of_lt hlt),
        Bool.not_true, Bool.false_eq_true, if_false, hzero, hsame, Nat.zero_mul, ne_eq,
        not_true_eq_false]
    rw [hresult]
    refine ⟨rfl, ⟨rfl, rfl, [], rfl, fun q hq => absurd hq List.not_mem_nil⟩, first, ?_⟩
    have hsize : r.m_page_offset + bytes + (r.m_size - bytes) = r.m_page_offset + r.m_size := by
      omega
    exact
      { base_eq := by
          show r.m_base + bytes = first * S.page_size + (r.m_page_offset + bytes)
          omega
        offset_lt := hsame ▸ hmod
        first_pos := hopen.first_pos
        size_pos := by
          show 0 < r.m_page_offset + bytes + (r.m_size - bytes)
          omega
        end_le := by
          show r.m_base + bytes + (r.m_size - bytes) ≤ S.task_size
          omega
        mapped_eq := by
          show r.pages.mapped = Finset.Ico first
            (first + (r.m_page_offset + bytes + (r.m_size - bytes) - 1) / S.page_size + 1)
          rw [hsize, hopen.mapped_eq]
        conserved := hopen.conserved }
  · generalize hn : (r.m_page_offset + bytes) / S.page_size = n at *
    generalize hoffset : (r.m_page_offset + bytes) % S.page_size = offset at *
    have hpos : 0 < n := Nat.pos_of_ne_zero hzero
    obtain ⟨pages, hunmap, hmapped, hunmapped, hconserved⟩ :=
      hopen.munmap_front hpos (n := n) (by omega)
    have hbytes : n * S.page_size ≠ 0 := Nat.mul_ne_zero hzero (Nat.ne_of_gt S.page_size_pos)
    have hresult : shrink_by S r bytes false =
        ({ m_page_offset := offset
           m_size := r.m_size - bytes
           m_base := r.m_base + bytes
           pages := pages }, true) := by
      simp only [shrink_by, priv_shrink_param_check, if_neg hgoes, if_neg (Nat.ne_of_lt hlt),
        Bool.not_true, Bool.false_eq_true, if_false, hn, hoffset, hopen.map_address_eq, hunmap,
        if_pos hbytes]
    have hnew : r.m_base + bytes = (first + n) * S.page_size + offset := by
      rw [Nat.add_mul]
      omega
    have hsize : offset + (r.m_size - bytes) = r.m_page_offset + r.m_size - n * S.page_size := by
      omega
    have hlast : (r.m_page_offset + r.m_size - 1) / S.page_size =
        (r.m_page_offset + r.m_size - n * S.page_size - 1) / S.page_size + n := by
      rw [← Nat.add_mul_div_right _ _ S.page_size_pos]
      congr 1
      omega
    rw [hresult]
    refine ⟨rfl, ⟨rfl, rfl, [_], hunmapped, ?_⟩, first + n, ?_⟩
    · intro q hq
      rw [List.mem_singleton.mp hq, hopen.mapped_eq]
      constructor
      · refine Finset.Ico_subset_Ico_right ?_
        have hle := Nat.le_add_left n
          ((r.m_page_offset + r.m_size - n * S.page_size - 1) / S.page_size)
        rw [hlast]
        exact Nat.le_succ_of_le (Nat.add_le_add_left hle first)
      · intro a ha hmem
        have ha' : r.m_base + bytes ≤ a := ha.1
        refine absurd (Finset.mem_Ico.mp hmem).2 (Nat.not_lt.mpr ?_)
        exact (Nat.le_div_iff_mul_le S.page_size_pos).mpr (by omega)
    · exact
        { base_eq := hnew
          offset_lt := hmod
          first_pos := Nat.add_pos_left hopen.first_pos n
          size_pos := by
            show 0 < offset + (r.m_size - bytes)
            omega
          end_le := by
            show r.m_base + bytes + (r.m_size - bytes) ≤ S.task_size
            omega
          mapped_eq := by
            show pages.mapped = Finset.Ico (first + n)
              (first + n + (offset + (r.m_size - bytes) - 1) / S.page_size + 1)
            rw [hmapped, hlast, hsize, Nat.add_assoc first n, Nat.add_comm n]
          conserved := hconserved }

end Steps

end interprocess.mapped_region
