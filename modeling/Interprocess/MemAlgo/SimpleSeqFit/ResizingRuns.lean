import Interprocess.MemAlgo.SimpleSeqFit.Runs

namespace interprocess.ipcdetail.simple_seq_fit_impl

open Memory Tiling LinkedList Transition

/-- Calls of clients, and changes of the segment's size. -/
inductive Event where
  | call (call : Call)
  | grow (extra_size : Nat)
  | shrink_to_fit

section Events

variable (P : Traits)

def event_step (s : State) : Event → Option State
  | .call call => step P s call
  | .grow extra_size => (grow P s.heap extra_size).map fun h => ⟨h, s.live⟩
  | .shrink_to_fit => (shrink_to_fit P s.heap).map fun h => ⟨h, s.live⟩

/-- The new memory has no whole unit, or has room for a block. -/
def NoHole (h : Heap) (extra_size : Nat) : Prop :=
  (h.m_size + extra_size) / P.Alignment = h.m_size / P.Alignment ∨
    P.BlockCtrlBytes ≤ h.m_size + extra_size - h.m_size / P.Alignment * P.Alignment

/-- The blocks have room for two of the smallest ones and more. -/
def Splittable (h : Heap) : Prop :=
  first_block P h + (P.BlockCtrlUnits + P.BlockCtrlUnits) * P.Alignment <
    h.this + h.m_size / P.Alignment * P.Alignment

/-- The grown segment is in the address space and has no hole, and an empty heap is
    shrunk only while its block can be split. -/
def Resizable (s : State) : Event → Prop
  | .call call => Permitted P s call
  | .grow extra_size => s.heap.this + s.heap.m_size + extra_size < 2 ^ 64 ∧ NoHole P s.heap extra_size
  | .shrink_to_fit => s.live ≠ [] ∨ Splittable P s.heap

/-- The resized heap is in order, with the same buffers and the same counter. -/
def Preserved (s : State) (h' : Heap) : Prop :=
  (∃ blocks, Invariant P h' s.live blocks) ∧ h'.m_allocated = s.heap.m_allocated ∧
    Intact P s.live s.heap h'

end Events

variable {P : Traits} {h h' : Heap} {blocks blocks' L : List Block} {live : List Nat} {u : Nat}

/-- The buffers of a resized heap. -/
theorem Resized.owned (hresized : Resized P h h' blocks blocks')
    (howned : Owned P h blocks [] live []) (hrep : Rep P h' blocks' []) :
    Owned P h' blocks' [] live [] := by
  refine ⟨hrep, ?_, fun _ _ hp => nomatch hp⟩
  rw [hresized.first_block_eq]
  exact howned.live_perm.trans (hresized.useds_perm.map _).symm

theorem Resized.intact (hresized : Resized P h h' blocks blocks')
    (howned : Owned P h blocks [] live []) (hrep : Rep P h' blocks' []) : Intact P live h h' := by
  intro p hp
  have howned' := hresized.owned howned hrep
  obtain ⟨x, hx, rfl⟩ := List.mem_map.mp (howned.live_perm.mem_iff.mp hp)
  obtain ⟨v, hv⟩ := (mem_useds _).mp hx
  obtain ⟨hplaced, hsame⟩ := hresized.kept x v hv
  rw [← hresized.first_block_eq] at hplaced
  have hend := howned.size_eq_of_placed hv
  have hend' := howned'.size_eq_of_placed hplaced
  refine ⟨by omega, hsame.mono ?_ (Nat.le_of_eq hend)⟩
  exact Nat.le_add_right _ _

theorem Resized.preserved {s : State} (hresized : Resized P s.heap h' blocks blocks')
    (howned : Owned P s.heap blocks [] s.live []) (hrep : Rep P h' blocks' []) :
    Preserved P s h' :=
  ⟨⟨blocks', (hresized.owned howned hrep).invariant⟩, hresized.allocated_eq,
    hresized.intact howned hrep⟩

/-- There are buffers when there are allocated bytes. -/
theorem Owned.live_ne_nil_iff (howned : Owned P h blocks [] live []) :
    live ≠ [] ↔ h.m_allocated ≠ 0 := by
  refine not_congr ⟨?_, ?_⟩
  · rintro rfl
    have hnil := List.map_eq_nil_iff.mp howned.live_perm.nil_eq.symm
    rw [howned.allocated, usedUnits_of_useds_nil _ hnil, Nat.zero_mul]
  · intro hzero
    obtain ⟨u, rfl⟩ := howned.toRep.one_free hzero
    exact howned.live_perm.eq_nil

/-- `grow` without a hole. -/
theorem grow_spec (hrep : Rep P h blocks []) {extra_size : Nat}
    (hlt : h.this + h.m_size + extra_size < 2 ^ 64) (hhole : NoHole P h extra_size) :
    ∃ h' blocks', grow P h extra_size = some h' ∧ h'.m_size = h.m_size + extra_size ∧
      Rep P h' blocks' [] ∧ Resized P h h' blocks blocks' := by
  by_cases hroom : P.BlockCtrlBytes ≤ h.m_size + extra_size - priv_block_end_offset P h
  · exact grow_new hrep hlt hroom
  · obtain ⟨hanswer, hrep'⟩ := grow_rest hrep (Nat.lt_of_not_le hroom)
    rw [priv_block_end_offset_eq hrep.this_aligned] at hroom
    exact ⟨_, blocks, hanswer, rfl, hrep' (hhole.resolve_right hroom), rfl, rfl, rfl,
      List.Perm.refl _, fun y v hy => ⟨hy, fun _ _ _ => rfl⟩⟩

/-- The headers in the memory determine the blocks. -/
theorem tiles_prefix {m : Memory} {a : Nat}
    (hsize : ∀ x b, (x, b) ∈ placed P.Alignment a blocks → m_size m x = b.units)
    (hlink : ∀ x b, (x, b) ∈ placed P.Alignment a blocks → (m_next P m x = 0 ↔ b.used = true))
    (hsize' : ∀ x b, (x, b) ∈ placed P.Alignment a blocks' → m_size m x = b.units)
    (hlink' : ∀ x b, (x, b) ∈ placed P.Alignment a blocks' → (m_next P m x = 0 ↔ b.used = true))
    (hpos : ∀ b ∈ blocks, 0 < b.units)
    (hle : stop P.Alignment a blocks ≤ stop P.Alignment a blocks') :
    ∃ rest, blocks' = blocks ++ rest := by
  induction blocks generalizing a blocks' with
  | nil => exact ⟨blocks', rfl⟩
  | cons b blocks ih =>
    have hb : 0 < b.units * P.Alignment := Nat.mul_pos (hpos b List.mem_cons_self) P.Alignment_pos
    cases blocks' with
    | nil =>
      have hstop := le_stop P.Alignment (a + b.units * P.Alignment) blocks
      rw [stop_nil, stop_cons] at hle
      omega
    | cons b' blocks' =>
      have hunits : b.units = b'.units :=
        (hsize a b List.mem_cons_self).symm.trans (hsize' a b' List.mem_cons_self)
      have hused : b.used = b'.used := by
        have hiff := (hlink a b List.mem_cons_self).symm.trans (hlink' a b' List.mem_cons_self)
        exact Bool.eq_iff_iff.mpr hiff
      obtain ⟨u, used⟩ := b
      obtain ⟨u', used'⟩ := b'
      cases hunits
      cases hused
      rw [stop_cons, stop_cons] at hle
      obtain ⟨rest, rfl⟩ := ih (fun x c hc => hsize x c (List.mem_cons_of_mem _ hc))
        (fun x c hc => hlink x c (List.mem_cons_of_mem _ hc))
        (fun x c hc => hsize' x c (List.mem_cons_of_mem _ hc))
        (fun x c hc => hlink' x c (List.mem_cons_of_mem _ hc))
        (fun c hc => hpos c (List.mem_cons_of_mem _ hc)) hle
      exact ⟨rest, rfl⟩

/-- A hole behind the last block stays out of every tiling. -/
theorem not_invariant_of_hole (howned : Owned P h blocks [] live []) {extra_size : Nat}
    (hhole : ¬NoHole P h extra_size) :
    ¬∃ blocks', Invariant P { h with m_size := h.m_size + extra_size } live blocks' := by
  rintro ⟨blocks', hinvariant⟩
  have hold := howned.invariant
  have htiles := hold.tiles
  have htiles' := hinvariant.tiles
  simp only [first_block_update] at htiles'
  unfold NoHole at hhole
  have hdiv : h.m_size / P.Alignment ≤ (h.m_size + extra_size) / P.Alignment :=
    Nat.div_le_div_right (Nat.le_add_right _ _)
  have hmul : h.m_size / P.Alignment * P.Alignment ≤
      (h.m_size + extra_size) / P.Alignment * P.Alignment := Nat.mul_le_mul_right _ hdiv
  have hle : stop P.Alignment (first_block P h) blocks ≤ stop P.Alignment (first_block P h) blocks' := by
    rw [htiles, htiles']
    omega
  obtain ⟨rest, rfl⟩ := tiles_prefix hold.stored_size hold.null_link hinvariant.stored_size
    hinvariant.null_link howned.units_pos hle
  have hrest : units rest * P.Alignment = (h.m_size + extra_size) / P.Alignment * P.Alignment -
      h.m_size / P.Alignment * P.Alignment := by
    rw [stop_append, htiles, stop] at htiles'
    omega
  cases rest with
  | nil =>
    rw [units_nil, Nat.zero_mul] at hrest
    refine hhole (Or.inl (Nat.eq_of_mul_eq_mul_right P.Alignment_pos ?_))
    omega
  | cons b rest =>
    have hb := bytes_ge (hinvariant.min_units b (by simp))
    have htruncated := Nat.div_mul_le_self (h.m_size + extra_size) P.Alignment
    rw [units_cons, Nat.add_mul] at hrest
    refine hhole (Or.inr ?_)
    omega

/-- What `shrink_to_fit` does with buffers, or with a block that can be split. -/
theorem shrink_to_fit_spec (howned : Owned P h blocks [] live [])
    (hcan : live ≠ [] ∨ Splittable P h) :
    ∃ h' blocks', shrink_to_fit P h = some h' ∧ Rep P h' blocks' [] ∧
      Resized P h h' blocks blocks' ∧ h'.m_size ≤ h.m_size ∧
      (live ≠ [] → ∀ b ∈ blocks'.getLast?, b.used = true) := by
  by_cases hlast : ∀ b ∈ blocks.getLast?, b.used = true
  · exact ⟨h, blocks, shrink_to_fit_used_end howned.toRep hlast, howned.toRep, ⟨rfl, rfl, rfl,
      List.Perm.refl _, fun y v hy => ⟨hy, fun _ _ _ => rfl⟩⟩, Nat.le_refl _, fun _ => hlast⟩
  · obtain ⟨L, u, rfl⟩ : ∃ L u, blocks = L ++ [⟨u, false⟩] := by
      simp only [not_forall, Bool.not_eq_true] at hlast
      obtain ⟨⟨u, used⟩, hmem, hused⟩ := hlast
      obtain ⟨L, hL⟩ := List.getLast?_eq_some_iff.mp hmem
      cases hused
      exact ⟨L, u, hL⟩
    by_cases hallocated : h.m_allocated = 0
    · obtain ⟨v, hone⟩ := howned.toRep.one_free hallocated
      rw [hone] at howned ⊢
      have hnil : live = [] := not_not.mp (mt howned.live_ne_nil_iff.mp (not_not.mpr hallocated))
      have hsplit : P.BlockCtrlUnits + P.BlockCtrlUnits < v := by
        have hroom := hcan.resolve_left (not_not.mpr hnil)
        unfold Splittable at hroom
        have hstop := howned.stop_eq
        rw [stop_cons, stop_nil] at hstop
        change first_block P h + v * P.Alignment = _ at hstop
        refine Nat.lt_of_mul_lt_mul_right (a := P.Alignment) ?_
        omega
      obtain ⟨h', hanswer, hrep, hresized, hle⟩ :=
        shrink_to_fit_smallest howned.toRep hallocated hsplit
      exact ⟨h', _, hanswer, hrep, hresized, hle, fun hne => absurd hnil hne⟩
    · have hL : L ≠ [] := by
        rintro rfl
        have hzero := howned.allocated
        rw [List.nil_append, usedUnits_cons, usedUnits_nil] at hzero
        exact hallocated (hzero.trans (Nat.zero_mul _))
      obtain ⟨h', hanswer, hrep, hresized, hle⟩ := shrink_to_fit_free_end howned.toRep hallocated hL
      exact ⟨h', L, hanswer, hrep, hresized, hle, fun _ => howned.coalesced.last_used⟩

/-- Otherwise it follows a null link. -/
theorem shrink_to_fit_none (howned : Owned P h blocks [] [] []) (hsplit : ¬Splittable P h) :
    shrink_to_fit P h = none := by
  have hallocated : h.m_allocated = 0 := not_not.mp (mt howned.live_ne_nil_iff.mpr (not_not.mpr rfl))
  obtain ⟨u, rfl⟩ := howned.toRep.one_free hallocated
  refine shrink_to_fit_crash howned.toRep hallocated (Nat.not_lt.mp fun hu => hsplit ?_)
  have hstop := howned.stop_eq
  rw [stop_cons, stop_nil] at hstop
  change first_block P h + u * P.Alignment = _ at hstop
  have hlt := Nat.mul_lt_mul_of_pos_right hu P.Alignment_pos
  unfold Splittable
  omega

/-- `shrink_to_fit` is idempotent when there are buffers, and never when there are
    none. -/
theorem shrink_to_fit_idempotent_iff (howned : Owned P h blocks [] live []) :
    (∃ h', shrink_to_fit P h = some h' ∧ shrink_to_fit P h' = some h') ↔ live ≠ [] := by
  constructor
  · rintro ⟨h', hanswer, hagain⟩ rfl
    have hallocated : h.m_allocated = 0 :=
      not_not.mp (mt howned.live_ne_nil_iff.mpr (not_not.mpr rfl))
    obtain ⟨u, rfl⟩ := howned.toRep.one_free hallocated
    by_cases hsplit : P.BlockCtrlUnits + P.BlockCtrlUnits < u
    · obtain ⟨h'', hanswer', hrep, hresized, _⟩ :=
        shrink_to_fit_smallest howned.toRep hallocated hsplit
      rw [hanswer] at hanswer'
      cases hanswer'
      have hcrash := shrink_to_fit_crash hrep (hresized.allocated_eq.trans hallocated)
        (Nat.le_add_right _ _)
      rw [hcrash] at hagain
      cases hagain
    · rw [shrink_to_fit_crash howned.toRep hallocated (Nat.not_lt.mp hsplit)] at hanswer
      cases hanswer
  · intro hlive
    obtain ⟨h', blocks', hanswer, hrep, hresized, _, hlast⟩ :=
      shrink_to_fit_spec howned (Or.inl hlive)
    exact ⟨h', hanswer, shrink_to_fit_used_end hrep (hlast hlive)⟩

/-- A permitted event returns and leaves a heap of the buffers held. -/
theorem event_step_holds {s t : State} (hholds : Holds P s.heap s.live []) {event : Event}
    (hresizable : Resizable P s event) (hstep : event_step P s event = some t) :
    Holds P t.heap t.live [] := by
  cases event with
  | call call =>
    obtain ⟨t', hstep', hholds'⟩ := step_holds hholds hresizable
    rw [event_step, hstep'] at hstep
    rw [← Option.some.inj hstep]
    exact hholds'
  | grow extra_size =>
    obtain ⟨blocks, howned⟩ := hholds
    obtain ⟨h', blocks', hanswer, _, hrep, hresized⟩ :=
      grow_spec howned.toRep hresizable.1 hresizable.2
    rw [event_step, hanswer] at hstep
    rw [← Option.some.inj hstep]
    exact ⟨blocks', hresized.owned howned hrep⟩
  | shrink_to_fit =>
    obtain ⟨blocks, howned⟩ := hholds
    obtain ⟨h', blocks', hanswer, hrep, hresized, _⟩ := shrink_to_fit_spec howned hresizable
    rw [event_step, hanswer] at hstep
    rw [← Option.some.inj hstep]
    exact ⟨blocks', hresized.owned howned hrep⟩

/-- In every state of a run whose events are resizable: `grow` keeps the heap
    exactly when it leaves no hole, `shrink_to_fit` keeps it exactly when there are
    buffers or a block that can be split, and is idempotent exactly when there are
    buffers. -/
theorem resizing_keeps_the_heap {this segment_size extra_hdr_bytes : Nat} {mem : Memory}
    (hmem : Constructible P this segment_size extra_hdr_bytes mem) {s : State}
    (hrun : Reaches (event_step P) (Resizable P)
      ⟨construct P this segment_size extra_hdr_bytes mem, []⟩ s) :
    (∃ blocks, Invariant P s.heap s.live blocks) ∧
      (∀ extra_size, s.heap.this + s.heap.m_size + extra_size < 2 ^ 64 →
        ((∃ h', grow P s.heap extra_size = some h' ∧
            h'.m_size = s.heap.m_size + extra_size ∧ Preserved P s h') ↔
          NoHole P s.heap extra_size)) ∧
      ((∃ h', shrink_to_fit P s.heap = some h' ∧ h'.m_size ≤ s.heap.m_size ∧ Preserved P s h') ↔
        s.live ≠ [] ∨ Splittable P s.heap) ∧
      ((∃ h', shrink_to_fit P s.heap = some h' ∧ shrink_to_fit P h' = some h') ↔ s.live ≠ []) := by
  have hholds : Holds P s.heap s.live [] :=
    hrun.invariant (P := fun s => Holds P s.heap s.live []) (construct_holds hmem)
      fun s event t hs hresizable hstep => event_step_holds hs hresizable hstep
  obtain ⟨blocks, howned⟩ := hholds
  refine ⟨⟨blocks, howned.invariant⟩, ?_, ?_, shrink_to_fit_idempotent_iff howned⟩
  · intro extra_size hlt
    constructor
    · rintro ⟨h', hanswer, _, hpreserved, _⟩
      by_contra hhole
      have hroom : s.heap.m_size + extra_size - priv_block_end_offset P s.heap <
          P.BlockCtrlBytes := by
        rw [priv_block_end_offset_eq howned.this_aligned]
        exact Nat.lt_of_not_le fun hle => hhole (Or.inr hle)
      rw [(grow_rest howned.toRep hroom).1] at hanswer
      rw [← Option.some.inj hanswer] at hpreserved
      exact not_invariant_of_hole howned hhole hpreserved
    · intro hhole
      obtain ⟨h', blocks', hanswer, hsize, hrep, hresized⟩ := grow_spec howned.toRep hlt hhole
      exact ⟨h', hanswer, hsize, hresized.preserved howned hrep⟩
  · constructor
    · rintro ⟨h', hanswer, _⟩
      by_contra hcannot
      rw [not_or, not_not] at hcannot
      rw [hcannot.1] at howned
      rw [shrink_to_fit_none howned hcannot.2] at hanswer
      cases hanswer
    · intro hcan
      obtain ⟨h', blocks', hanswer, hrep, hresized, hle, _⟩ := shrink_to_fit_spec howned hcan
      exact ⟨h', hanswer, hle, hresized.preserved howned hrep⟩

/-- On a new heap on a page a second `shrink_to_fit` follows a null link. -/
theorem shrink_to_fit_twice_on_a_page :
    ¬∃ h', shrink_to_fit raw_pointers (construct raw_pointers 4096 4096 0 fun _ => 0) = some h' ∧
      shrink_to_fit raw_pointers h' = some h' := by
  obtain ⟨blocks, howned⟩ := construct_holds page_constructible
  exact fun hidempotent => (shrink_to_fit_idempotent_iff howned).mp hidempotent rfl

/-- The page with a buffer can be shrunk, also twice, and can grow by another page. -/
theorem resizing_keeps_a_page : ∃ s, event_step raw_pointers
    ⟨construct raw_pointers 4096 4096 0 fun _ => 0, []⟩ (.call (.allocate 100)) = some s ∧
      s.live = [4160] ∧
      (∃ h', shrink_to_fit raw_pointers s.heap = some h' ∧ Preserved raw_pointers s h') ∧
      (∃ h', shrink_to_fit raw_pointers s.heap = some h' ∧
        shrink_to_fit raw_pointers h' = some h') ∧
      ∃ h', grow raw_pointers s.heap 4096 = some h' ∧ h'.m_size = 8192 ∧
        Preserved raw_pointers s h' := by
  obtain ⟨s, hstep, hlive, hthis, hsize⟩ := page_allocates
  have hne : s.live ≠ [] := by
    rw [hlive]
    exact List.cons_ne_nil _ _
  have hresizable : Resizable raw_pointers ⟨construct raw_pointers 4096 4096 0 fun _ => 0, []⟩
      (.call (.allocate 100)) := trivial
  obtain ⟨_, hgrow, hshrink, htwice⟩ :=
    resizing_keeps_the_heap page_constructible (.tail .refl hresizable hstep)
  obtain ⟨h', hanswer, _, hpreserved⟩ := hshrink.mpr (Or.inl hne)
  have hroom : NoHole raw_pointers s.heap 4096 := by
    unfold NoHole
    rw [hsize]
    decide
  obtain ⟨h'', hanswer', hsize', hpreserved'⟩ :=
    (hgrow 4096 (by rw [hthis, hsize]; decide)).mpr hroom
  rw [hsize] at hsize'
  exact ⟨s, hstep, hlive, ⟨h', hanswer, hpreserved⟩, htwice.mpr hne, h'', hanswer', hsize',
    hpreserved'⟩

end interprocess.ipcdetail.simple_seq_fit_impl
