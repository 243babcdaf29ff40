import Interprocess.MappedRegion.Shrinking

namespace interprocess.mapped_region

open ipcdetail Transition

variable {S : System} {original : Finset Nat} {r : mapped_region}

/-- The arguments of a call of `shrink_by`. -/
structure Call where
  bytes : Nat
  from_back : Bool

def step (S : System) (r : mapped_region) (call : Call) : Option mapped_region :=
  some (shrink_by S r call.bytes call.from_back).1

/-- The region is open or closed, with its pages accounted for. -/
def Consistent (S : System) (original : Finset Nat) (r : mapped_region) : Prop :=
  (∃ first, Open S original first r) ∨ Closed original r

/-- Every call, also one that fails, keeps track of the pages. -/
theorem Consistent.shrink_by (hr : Consistent S original r) (bytes : Nat) (from_back : Bool) :
    Consistent S original (mapped_region.shrink_by S r bytes from_back).1 := by
  by_cases hrefused : r.m_base = 0 ∨ r.m_size < bytes
  · rw [shrink_by_refused S hrefused]
    exact hr
  · have hbase : r.m_base ≠ 0 := fun hzero => hrefused (Or.inl hzero)
    have hle : bytes ≤ r.m_size := Nat.le_of_not_lt fun hlt => hrefused (Or.inr hlt)
    rcases hr with ⟨first, hopen⟩ | hclosed
    · rcases Nat.eq_or_lt_of_le hle with rfl | hlt
      · rw [hopen.shrink_by_whole]
        exact Or.inr hopen.priv_close_closed
      · cases from_back with
        | false => exact Or.inl (hopen.shrink_by_front hlt).2.2
        | true =>
          rcases Nat.lt_or_ge (r.m_page_offset + r.m_size)
            (((r.m_page_offset + r.m_size - bytes - 1) / S.page_size + 1) * S.page_size) with
            hpart | hwhole
          · obtain ⟨hresult, hopen'⟩ := hopen.shrink_by_part hlt hpart
            rw [hresult]
            exact Or.inl ⟨first, hopen'⟩
          · exact Or.inl ⟨first, (hopen.shrink_by_back hlt hwhole).2.2⟩
    · exact absurd hclosed.base_eq hbase

/-- What decides whether a call does what it is asked. -/
theorem Consistent.shrinks_by_iff (hr : Consistent S original r) (bytes : Nat) (from_back : Bool) :
    ShrinksBy S r bytes from_back ↔ Cuttable S r bytes from_back := by
  unfold ShrinksBy Cuttable
  by_cases hle : bytes ≤ get_size r
  · rw [if_pos hle]
    simp only [hle, true_imp_iff]
    rcases hr with ⟨first, hopen⟩ | hclosed
    · rcases Nat.eq_or_lt_of_le hle with rfl | hlt
      · refine ⟨fun ⟨_, hcut⟩ => ?_, fun ⟨_, hne, _⟩ => absurd rfl hne⟩
        have haddress := hcut.address_eq
        have hbase := hopen.base_pos
        rw [show get_size r = r.m_size from rfl, hopen.shrink_by_whole, get_address,
          hopen.priv_close_closed.base_eq] at haddress
        cases from_back <;> simp [get_address] at haddress <;> omega
      · cases from_back with
        | false =>
          obtain ⟨hsuccess, hcut, _⟩ := hopen.shrink_by_front hlt
          exact ⟨fun _ => ⟨hopen.base_pos, Nat.ne_of_lt hlt, fun h => absurd h Bool.false_ne_true⟩,
            fun _ => ⟨hsuccess, hcut⟩⟩
        | true =>
          rcases Nat.lt_or_ge (r.m_page_offset + r.m_size)
            (((r.m_page_offset + r.m_size - bytes - 1) / S.page_size + 1) * S.page_size) with
            hpart | hwhole
          · obtain ⟨hresult, _⟩ := hopen.shrink_by_part hlt hpart
            rw [hresult]
            exact ⟨fun h => absurd h.1 Bool.false_ne_true,
              fun h => absurd (h.2.2 rfl) (Nat.not_le_of_lt hpart)⟩
          · obtain ⟨hsuccess, hcut, _⟩ := hopen.shrink_by_back hlt hwhole
            exact ⟨fun _ => ⟨hopen.base_pos, Nat.ne_of_lt hlt, fun _ => hwhole⟩,
              fun _ => ⟨hsuccess, hcut⟩⟩
    · rw [shrink_by_refused S (Or.inl hclosed.base_eq)]
      exact ⟨fun h => absurd h.1 Bool.false_ne_true, fun h => absurd hclosed.base_eq h.1⟩
  · rw [if_neg hle, shrink_by_refused S (Or.inr (Nat.lt_of_not_le hle))]
    exact ⟨fun _ h => absurd h hle, fun _ => rfl⟩

/-- Destruction removes the pages that are left. -/
theorem Consistent.destroy (hr : Consistent S original r) :
    (mapped_region.destroy S r).pages.unmapped.Pairwise Disjoint ∧
      ∀ p, p ∈ original ↔ ∃ q ∈ (mapped_region.destroy S r).pages.unmapped, p ∈ q := by
  have hclosed : Closed original (mapped_region.destroy S r) := by
    rcases hr with ⟨first, hopen⟩ | hclosed
    · exact hopen.priv_close_closed
    · rw [mapped_region.destroy, hclosed.priv_close_eq]
      exact hclosed
  refine ⟨hclosed.conserved.disjoint, fun p => ?_⟩
  rw [hclosed.conserved.covers p, hclosed.mapped_eq]
  simp only [Finset.notMem_empty, false_or]

/-- The constructor maps the pages of an open region. -/
theorem construct_consistent {base offset size : Nat} (haligned : S.page_size ∣ base)
    (hbase : 0 < base) (hsize : 0 < priv_page_offset_addr_fixup S offset + size)
    (hend : base + priv_page_offset_addr_fixup S offset + size ≤ S.task_size) :
    Consistent S (page_range S base (priv_page_offset_addr_fixup S offset + size))
      (construct S base offset size) := by
  obtain ⟨first, rfl⟩ := haligned
  rw [Nat.mul_comm] at *
  have hlt : priv_page_offset_addr_fixup S offset < S.page_size := by
    have hmod := Nat.mod_lt offset S.page_size_pos
    rw [priv_page_offset_addr_fixup]
    rwa [Nat.mod_eq_sub, Nat.mul_comm] at hmod
  exact Or.inl ⟨first,
    { base_eq := rfl
      offset_lt := hlt
      first_pos := Nat.pos_of_mul_pos_right hbase
      size_pos := hsize
      end_le := hend
      mapped_eq := page_range_mul S first hsize
      conserved := ⟨fun p => by simp [construct], List.Pairwise.nil, fun q hq => absurd hq List.not_mem_nil⟩ }⟩

/-- In every state that calls of `shrink_by` reach from a mapping, a call does what it
    is asked exactly if the region is cuttable, and destruction completes the pages
    given back to the original ones, each given back once. -/
theorem shrink_by_exact {base offset size : Nat} (haligned : S.page_size ∣ base)
    (hbase : 0 < base) (hsize : 0 < priv_page_offset_addr_fixup S offset + size)
    (hend : base + priv_page_offset_addr_fixup S offset + size ≤ S.task_size)
    (hrun : Reachable (step S) (construct S base offset size) r) :
    (∀ bytes from_back, ShrinksBy S r bytes from_back ↔ Cuttable S r bytes from_back) ∧
      (destroy S r).pages.unmapped.Pairwise Disjoint ∧
      ∀ p, p ∈ page_range S base (priv_page_offset_addr_fixup S offset + size) ↔
        ∃ q ∈ (destroy S r).pages.unmapped, p ∈ q := by
  have hr : Consistent S (page_range S base (priv_page_offset_addr_fixup S offset + size)) r :=
    hrun.invariant (construct_consistent haligned hbase hsize hend)
      fun s call t hs _ hstep => by
        rw [← Option.some.inj hstep]
        exact hs.shrink_by call.bytes call.from_back
  exact ⟨hr.shrinks_by_iff, hr.destroy⟩

/-- Pages of 4 KiB and 47 bits of addresses. -/
def x86_64 : System where
  page_size := 4096
  page_size_pos := by decide
  task_size := 2 ^ 47
  task_size_le := by decide

/-- A region of two pages less some bytes, with the front cut off. -/
theorem shrink_by_exact_two_pages :
    let r := (shrink_by x86_64 (construct x86_64 8192 100 8000) 4000 false).1
    (∀ bytes from_back, ShrinksBy x86_64 r bytes from_back ↔ Cuttable x86_64 r bytes from_back) ∧
      (destroy x86_64 r).pages.unmapped.Pairwise Disjoint ∧
      ∀ p, p ∈ page_range x86_64 8192 (priv_page_offset_addr_fixup x86_64 100 + 8000) ↔
        ∃ q ∈ (destroy x86_64 r).pages.unmapped, p ∈ q :=
  shrink_by_exact (by decide) (by decide) (by decide) (by decide)
    (.tail (a := ⟨4000, false⟩) .refl trivial rfl)

/-- 100 bytes of a region of 5000 bytes, less than its last page has, cannot be cut
    from the back. -/
theorem shrink_by_within_last_page :
    ¬ ∀ bytes from_back, ShrinksBy x86_64 (construct x86_64 8192 0 5000) bytes from_back := by
  intro hall
  have hcut := hall 100 true
  rw [ShrinksBy, if_pos (by decide)] at hcut
  exact absurd hcut.1 (by decide)

end interprocess.mapped_region
