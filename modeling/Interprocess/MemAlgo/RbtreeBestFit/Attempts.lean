import Interprocess.MemAlgo.RbtreeBestFit.BestFit
import Interprocess.MemAlgo.RbtreeBestFit.Ownership

namespace interprocess.rbtree_best_fit

open ipcdetail Memory Tiling

variable {P : Traits} {h h' : Heap} {first p u n : Nat} {c d : Bool} {L R : List Block}

/-- The element in front of one in a sorted list is not greater. -/
theorem predecessor_le {f : Nat → Nat} {x a : Nat} {l : List Nat}
    (hl : l.Pairwise fun y z => f y ≤ f z) (hnodup : l.Nodup) (hx : x ∈ l)
    (ha : predecessor x l = some a) : f a ≤ f x := by
  obtain ⟨l₁, l₂, rfl⟩ := List.append_of_mem hx
  obtain ⟨_, hnodup₂, hdisjoint⟩ := List.nodup_append.mp hnodup
  have h₁ : x ∉ l₁ := fun hmem => hdisjoint x hmem x List.mem_cons_self rfl
  rw [predecessor_middle h₁ (List.nodup_cons.mp hnodup₂).1] at ha
  exact (List.pairwise_append.mp hl).2.2 a (List.mem_of_getLast? ha) x List.mem_cons_self

/-- What the header behind a block says about it. -/
theorem Rep.header_behind {b : Block} (hrep : Rep P h first (L ++ b :: R)) :
    m_prev_allocated h.mem (stop P.Alignment first L + b.units * P.Alignment) = b.used ∧
      (b.used = false →
        m_prev_size h.mem (stop P.Alignment first L + b.units * P.Alignment) = b.units) := by
  obtain ⟨r, R', hR⟩ := exists_next R ⟨units (L ++ b :: R), true⟩
  have hheaders := hrep.headers
  rw [List.append_assoc, linked_append, List.cons_append, linked_cons, hR, linked_cons] at hheaders
  exact ⟨hheaders.2.2.1.prev_allocated, hheaders.2.2.1.prev_size⟩

/-- Headers that are written as they are do not change. -/
theorem mark_as_allocated_self {m : Memory} {x : Nat} (hallocated : m_allocated m x = true)
    (hnext : m_prev_allocated m (x + m_size m x * P.Alignment) = true) :
    priv_mark_as_allocated_block P m x = m := by
  simp only [priv_mark_as_allocated_block, set_allocated_self hallocated]
  exact set_prev_allocated_self hnext

theorem mark_as_free_self {m : Memory} {x : Nat} (hallocated : m_allocated m x = false)
    (hnext : m_prev_allocated m (x + m_size m x * P.Alignment) = false)
    (hsize : m_prev_size m (x + m_size m x * P.Alignment) = m_size m x) :
    priv_mark_as_free_block P m x = m := by
  simp only [priv_mark_as_free_block, priv_next_block, set_allocated_self hallocated,
    set_prev_allocated_self hnext]
  exact set_prev_size_self hsize

/-- A split in front by no distance changes nothing. -/
theorem Rep.expand_backwards_split_zero (hrep : Rep P h first (L ++ [⟨p, false⟩, ⟨u, true⟩] ++ R)) :
    (expand_backwards_split P h (stop P.Alignment first L + p * P.Alignment)
      (stop P.Alignment first L) 0 (user_bytes P u)).1 = h := by
  rw [List.append_assoc] at hrep
  have hctrl := P.AllocatedCtrlUnits_le
  have hu : P.BlockCtrlUnits ≤ u := hrep.sizes ⟨u, true⟩ (by simp)
  have hprev := hrep.header_at (L := L) (b := ⟨p, false⟩) (R := ⟨u, true⟩ :: R)
  have hprevsize : m_size h.mem (stop P.Alignment first L) = p := hprev.size
  have hbehind := hrep.header_behind (L := L) (b := ⟨p, false⟩) (R := ⟨u, true⟩ :: R)
  have hblocks : L ++ [⟨p, false⟩, ⟨u, true⟩] ++ R = L ++ [⟨p, false⟩] ++ ⟨u, true⟩ :: R := by simp
  have hrep' := hrep
  rw [← List.append_assoc, hblocks] at hrep'
  have hhere := hrep'.header_at
  have hnext := hrep'.header_behind
  have hx : stop P.Alignment first (L ++ [⟨p, false⟩]) = stop P.Alignment first L + p * P.Alignment := by
    rw [stop_append, stop_cons, stop_nil]
  rw [hx] at hhere hnext
  have hsize : m_size h.mem (stop P.Alignment first L + p * P.Alignment) = u := hhere.size
  have hunits : P.AllocatedCtrlUnits +
      (0 + (user_bytes P u - UsableByPreviousChunk)) / P.Alignment = u := by
    rw [user_bytes, Nat.add_sub_cancel, Nat.zero_add, Nat.mul_div_cancel _ P.Alignment_pos]
    omega
  have hdistance : (stop P.Alignment first L + p * P.Alignment - stop P.Alignment first L) /
      P.Alignment = p := by
    rw [Nat.add_sub_cancel_left, Nat.mul_div_cancel _ P.Alignment_pos]
  have hmem : stop P.Alignment first L ∈ h.m_imultiset :=
    hrep.mem_tree_iff.mpr ⟨p, mem_placed_mid _ _ _ L _⟩
  have hreposition : rbtree_best_fit.reposition P h (stop P.Alignment first L) = h := by
    unfold rbtree_best_fit.reposition
    cases hpredecessor : predecessor (stop P.Alignment first L) h.m_imultiset with
    | none => rfl
    | some before =>
      have hle := predecessor_le hrep.sorted hrep.nodes_nodup hmem hpredecessor
      exact if_neg (Nat.not_lt.mpr hle)
  have hallocated : priv_mark_as_allocated_block P h.mem
      (stop P.Alignment first L + p * P.Alignment) = h.mem :=
    mark_as_allocated_self hhere.allocated (by
      rw [hsize]
      exact hnext.1)
  have hfree : priv_mark_as_free_block P h.mem (stop P.Alignment first L) = h.mem :=
    mark_as_free_self hprev.allocated (by
      rw [hprevsize]
      exact hbehind.1) (by
      rw [hprevsize]
      exact hbehind.2 rfl)
  simp only [expand_backwards_split, Nat.sub_zero, Nat.add_zero, hunits, set_size_self hsize,
    hallocated, hdistance, set_size_self hprevsize, hfree]
  exact hreposition

/-- What an expansion does to the blocks around a buffer: the buffer stays, with its
    bytes, or another one starts in the free block in front. Null comes with the
    buffer where it was. -/
def Resizes (P : Traits) (h : Heap) (first : Nat) (L : List Block) (c d : Bool) (p u n : Nat)
    (R : List Block) (h' : Heap) (ret : Nat) : Prop :=
  ∃ c' d' p' u' n', Exchange P h h' first L (surrounded c d p u n) (surrounded c' d' p' u' n') R ∧
    ((c' = c ∧ p' = p ∧ u ≤ u' ∧
        SameOn h'.mem h.mem (located_buffer P first L c p)
          (located_buffer P first L c p + user_bytes P u) ∧
        (ret = 0 ∨ ret = located_buffer P first L c p)) ∨
      (ret = located_buffer P first L c' p' ∧
        located_buffer P first L c' p' < located_buffer P first L c p))

/-- A block in front is only split by a distance in units, and not when the size
    behind was reported wrong. -/
def SplitsExactly (P : Traits) (fwd d : Bool) (p : Nat) (distance : Option (Nat × Nat)) : Prop :=
  ∀ lcm_size needs, distance = some (lcm_size, needs) → Splits P p distance →
    P.Alignment ∣ needs ∧ (fwd = true → P.Alignment ≤ 16 ∨ d = false)

section Located

variable (hloc : Located P h first L c d p u n R) {fwd : Bool} {s sizeof_object alignof_object : Nat}

include hloc

/-- The forward part of an expansion that also goes backwards, whatever size was
    reported for it. -/
theorem Located.settle_any (fwd : Bool)
    (hlt : stop P.Alignment first (L ++ surrounded c d p u n ++ R) < 2 ^ 64) :
    ∃ h₁ d₁ u₁ n₁, (if fwd then (priv_expand P h (located_buffer P first L c p)
        (forward_size P fwd d u n) (forward_size P fwd d u n)).1 else h) = h₁ ∧
      Exchange P h h₁ first L (surrounded c d p u n) (surrounded c d₁ p u₁ n₁) R ∧ u ≤ u₁ ∧
      SameOn h₁.mem h.mem (located_buffer P first L c p)
        (located_buffer P first L c p + user_bytes P u) ∧
      ((fwd = true → P.Alignment ≤ 16 ∨ d = false) → u₁ = forward_units fwd d u n) := by
  by_cases hA : fwd = true → P.Alignment ≤ 16 ∨ d = false
  · obtain ⟨h₁, d₁, n₁, hanswer, hexchange, hsame⟩ := hloc.settle_if hA
    exact ⟨h₁, d₁, _, n₁, hanswer, hexchange, Nat.le_add_right _ _, hsame, fun _ => rfl⟩
  · have hfwd : fwd = true := by
      by_contra hfwd
      exact hA fun h => absurd h hfwd
    have hd : d = true := by
      by_contra hd
      exact hA fun _ => Or.inr (Bool.eq_false_of_not_eq_true hd)
    have hlarge : ¬ P.Alignment ≤ 16 := fun h => hA fun _ => Or.inl h
    refine ⟨h, d, u, n, ?_, Exchange.refl hloc.rep, Nat.le_refl u, fun _ _ _ => rfl,
      fun h => absurd h hA⟩
    subst hfwd hd
    have hctrl : P.AllocatedCtrlBytes = P.Alignment := by
      rcases P.AllocatedCtrlBytes_le with hle | heq
      · have hmul := P.AllocatedCtrlUnits_mul
        have hle' := Nat.le_mul_of_pos_left P.Alignment P.AllocatedCtrlUnits_pos
        omega
      · exact heq
    have hu := Nat.le_trans P.AllocatedCtrlUnits_le hloc.min_units
    have hbytes := user_bytes_add (P := P) (u := u + n) (by omega)
    have hle : u + n ≤ units (L ++ surrounded c true p u n ++ R) := by
      simp only [units_append, units_surrounded, if_true]
      omega
    have hmul : (u + n) * P.Alignment ≤ units (L ++ surrounded c true p u n ++ R) * P.Alignment :=
      Nat.mul_le_mul_right _ hle
    have hdvd := P.Alignment_dvd
    unfold stop at hlt
    have hnext : (u + n) * P.Alignment + P.Alignment ≤ 2 ^ 64 := by
      obtain ⟨q, hq⟩ := hdvd
      rw [hq, ← Nat.succ_mul, Nat.mul_comm P.Alignment q]
      refine Nat.mul_le_mul_right _ ?_
      refine Nat.lt_of_mul_lt_mul_right (a := P.Alignment) ?_
      rw [Nat.mul_comm q, ← hq]
      omega
    rw [hctrl] at hbytes
    unfold UsableByPreviousChunk at hbytes
    have hreported : forward_size P true true u n = (u + n) * P.Alignment - 8 := rfl
    have hanswer : priv_expand P h (located_buffer P first L c p) (forward_size P true true u n)
        (forward_size P true true u n) = (h, false, reported_size P true u n) :=
      hloc.expand_fails (by
        simp only [if_true, hreported]
        omega) (Nat.le_refl _) (by
        rw [hreported]
        refine ⟨by omega, ?_⟩
        unfold UsableByPreviousChunk
        omega)
    rw [if_pos rfl, hanswer]

/-- A backward expansion keeps the heap when it only splits exactly. -/
theorem Located.expand_backwards_resizes
    (hlt : stop P.Alignment first (L ++ surrounded c d p u n ++ R) < 2 ^ 64)
    (hexact : c = true → SplitsExactly P fwd d p (calculate_lcm_and_needs_backwards_lcmed sizeof_object
      alignof_object (forward_size P fwd d u n) s)) :
    Resizes P h first L c d p u n R
      (expand_backwards P h fwd s (forward_size P fwd d u n) (located_buffer P first L c p)
        sizeof_object alignof_object).1
      (expand_backwards P h fwd s (forward_size P fwd d u n) (located_buffer P first L c p)
        sizeof_object alignof_object).2.1 := by
  have hctrl := P.AllocatedCtrlUnits_le
  have hstays : Resizes P h first L c d p u n R h 0 :=
    ⟨c, d, p, u, n, Exchange.refl hloc.rep, Or.inl ⟨rfl, rfl, Nat.le_refl u, fun b _ _ => rfl,
      Or.inl rfl⟩⟩
  cases c with
  | false =>
    rw [hloc.blocked_in_front]
    exact hstays
  | true =>
    obtain ⟨h₁, d₁, u₁, n₁, hfwd, hexchange, hle₁, hsame, hunits⟩ := hloc.settle_any fwd hlt
    have hloc₁ := hloc.exchange hexchange
    have hrep₁ : Rep P h₁ first (L ++ [⟨p, false⟩, ⟨u₁, true⟩] ++ (free_if d₁ n₁ ++ R)) := by
      have hrep := hloc₁.rep
      simpa [surrounded] using hrep
    rw [hloc.expand_backwards_eq hfwd hloc₁.prev_size]
    cases hdistance : calculate_lcm_and_needs_backwards_lcmed sizeof_object alignof_object
      (forward_size P fwd d u n) s with
    | none => exact hstays
    | some distance =>
      obtain ⟨lcm_size, needs⟩ := distance
      simp only
      split_ifs with hle hsplit hmerge
      · obtain ⟨⟨k, rfl⟩, hA⟩ := hexact rfl lcm_size needs hdistance (by
          rw [hdistance]
          exact ⟨hle, hsplit⟩)
        rw [Nat.mul_div_cancel_left _ P.Alignment_pos] at hsplit
        obtain ⟨hanswer, hback⟩ := hrep₁.expand_backwards_split_exchange hsplit
        have hsize := forward_size_eq (P := P) (n := n) (Nat.le_trans hctrl hloc.min_units) hA
        rw [Nat.mul_comm P.Alignment k, hsize, ← hunits hA]
        rcases Nat.eq_zero_or_pos k with rfl | hk
        · rw [Nat.sub_zero] at hanswer
          rw [Nat.zero_mul] at hanswer ⊢
          rw [hrep₁.expand_backwards_split_zero, hanswer]
          refine ⟨true, d₁, p, u₁, n₁, hexchange, Or.inl ⟨rfl, rfl, hle₁, hsame, Or.inr ?_⟩⟩
          rw [located_buffer, if_pos rfl]
        · refine ⟨true, d₁, p - k, u₁ + k, n₁, hexchange.trans hloc.rep (hback.widen_right hrep₁),
            Or.inr ⟨?_, ?_⟩⟩
          · rw [hanswer, located_buffer, if_pos rfl]
          · have hlt := Nat.mul_lt_mul_of_pos_right (show p - k < p by omega) P.Alignment_pos
            simp only [located_buffer, if_true, priv_get_user_buffer]
            omega
      · obtain ⟨hanswer, hback⟩ := hrep₁.expand_backwards_merge_exchange (forward_size P fwd d u n)
        have hp : P.BlockCtrlUnits ≤ p := hrep₁.sizes ⟨p, false⟩ (by simp)
        have hpos := Nat.mul_pos (Nat.lt_of_lt_of_le P.BlockCtrlUnits_pos hp) P.Alignment_pos
        refine ⟨false, d₁, 0, p + u₁, n₁, hexchange.trans hloc.rep (hback.widen_right hrep₁),
          Or.inr ⟨?_, ?_⟩⟩
        · rw [hanswer, located_buffer]
          simp
        · simp only [located_buffer, if_true, Bool.false_eq_true, if_false, priv_get_user_buffer]
          omega
      · exact ⟨true, d₁, p, _, n₁, hexchange, Or.inl ⟨rfl, rfl, hle₁, hsame, Or.inl rfl⟩⟩
      · exact hstays

variable {command : allocation_type} {min_size preferred_size : Nat} {only_preferred_backwards : Bool}

/-- An expansion to both sides keeps the heap when it only splits exactly. -/
theorem Located.both_sides_resizes
    (hlt : stop P.Alignment first (L ++ surrounded c d p u n ++ R) < 2 ^ 64)
    (hpreferred : min_size ≤ preferred_size) (hfits : Fits P preferred_size)
    (hexact : c = true → command.expand_bwd = true →
      user_bytes P (forward_units command.expand_fwd d u n) < min_size →
      SplitsExactly P command.expand_fwd d p (calculate_lcm_and_needs_backwards_lcmed sizeof_object
        alignof_object (forward_size P command.expand_fwd d u n)
        (if only_preferred_backwards then preferred_size else min_size))) :
    Resizes P h first L c d p u n R
      (priv_expand_both_sides P h command min_size preferred_size (located_buffer P first L c p)
        only_preferred_backwards sizeof_object alignof_object).1
      (priv_expand_both_sides P h command min_size preferred_size (located_buffer P first L c p)
        only_preferred_backwards sizeof_object alignof_object).2.1 := by
  have hstays : Resizes P h first L c d p u n R h 0 :=
    ⟨c, d, p, u, n, Exchange.refl hloc.rep, Or.inl ⟨rfl, rfl, Nat.le_refl u, fun b _ _ => rfl,
      Or.inl rfl⟩⟩
  by_cases hroom : min_size ≤ user_bytes P (forward_units command.expand_fwd d u n)
  · obtain ⟨h', d', u', n', hanswer, _, hexchange, hle, hsame⟩ :=
      hloc.both_sides_forward hroom hpreferred hfits
    rw [hanswer]
    exact ⟨c, d', p, u', n', hexchange, Or.inl ⟨rfl, rfl, hle, hsame, Or.inr rfl⟩⟩
  · have hshort := Nat.lt_of_not_le hroom
    rw [hloc.both_sides_backward hshort hpreferred (hfits.mono hpreferred)]
    cases hbwd : command.expand_bwd with
    | false =>
      rw [if_neg Bool.false_ne_true]
      exact hstays
    | true =>
      rw [if_pos rfl]
      exact hloc.expand_backwards_resizes hlt fun hc => hexact hc hbwd hshort

end Located

/-- The part of an attempt to expand that looks behind the buffer: whether it was
    enough, and the size it reports. -/
def forward_attempt (P : Traits) (h : Heap) (fwd : Bool) (min_size preferred_size reuse_ptr : Nat) :
    Bool × Nat :=
  if fwd then (priv_expand P h reuse_ptr min_size preferred_size).2
  else (decide (preferred_size ≤ size P h reuse_ptr ∨ min_size ≤ size P h reuse_ptr),
    size P h reuse_ptr)

/-- An attempt to expand a buffer to `s` bytes only splits exactly, if it comes to a
    split in front at all. -/
def ExpandsExactly (P : Traits) (h : Heap) (command : allocation_type)
    (min_size preferred_size reuse_ptr s sizeof_object alignof_object : Nat) : Prop :=
  let reuse := priv_get_block P reuse_ptr
  let forward := forward_attempt P h command.expand_fwd min_size preferred_size reuse_ptr
  command.expand_bwd = true → forward.1 = false → m_prev_allocated h.mem reuse = false →
    SplitsExactly P command.expand_fwd (!m_allocated h.mem (priv_next_block P h.mem reuse))
      (m_size h.mem (priv_prev_block P h.mem reuse))
      (calculate_lcm_and_needs_backwards_lcmed sizeof_object alignof_object forward.2 s)

theorem Located.forward_attempt_fails (hloc : Located P h first L c d p u n R) {fwd : Bool}
    {min_size preferred_size : Nat} (hshort : user_bytes P (forward_units fwd d u n) < min_size)
    (hpreferred : min_size ≤ preferred_size) (hfits : Fits P min_size) :
    forward_attempt P h fwd min_size preferred_size (located_buffer P first L c p) =
      (false, forward_size P fwd d u n) := by
  unfold forward_attempt forward_size
  cases fwd with
  | false =>
    rw [forward_units, Bool.false_and, if_neg Bool.false_ne_true, Nat.add_zero] at hshort
    simp only [Bool.false_eq_true, if_false, hloc.size_eq]
    rw [decide_eq_false (by omega)]
  | true =>
    rw [forward_units, Bool.true_and] at hshort
    simp only [if_true, hloc.expand_fails hshort hpreferred hfits]

theorem Located.splits_exactly (hloc : Located P h first L true d p u n R)
    {command : allocation_type} {min_size preferred_size s sizeof_object alignof_object : Nat}
    (hexact : ExpandsExactly P h command min_size preferred_size (located_buffer P first L true p) s
      sizeof_object alignof_object)
    (hbwd : command.expand_bwd = true)
    (hshort : user_bytes P (forward_units command.expand_fwd d u n) < min_size)
    (hpreferred : min_size ≤ preferred_size) (hfits : Fits P min_size) :
    SplitsExactly P command.expand_fwd d p (calculate_lcm_and_needs_backwards_lcmed sizeof_object
      alignof_object (forward_size P command.expand_fwd d u n) s) := by
  have hrep := hloc.rep_here
  have hheader := hrep.header_at
  have hallocated := hheader.prev_allocated
  have hprev := hheader.prev_size (by simp)
  have hsize : m_size h.mem (stop P.Alignment first (L ++ free_if true p)) = u := hheader.size
  have hbehind := hrep.next_allocated
  have hnext : m_allocated h.mem (stop P.Alignment first (L ++ free_if true p) + u * P.Alignment) =
      !d := by
    refine hbehind.trans ?_
    cases d with
    | true => rfl
    | false =>
      cases R with
      | nil => rfl
      | cons r R => exact hloc.behind_used rfl r rfl
  rw [stop_free_if, if_pos rfl] at hsize hnext hallocated hprev
  rw [free_if_true, last_append, last_cons, last_nil] at hallocated hprev
  change m_prev_allocated h.mem _ = false at hallocated
  change m_prev_size h.mem _ = p at hprev
  have hblock : priv_get_block P (located_buffer P first L true p) =
      stop P.Alignment first L + p * P.Alignment := by
    rw [located_buffer, priv_get_block_user_buffer, if_pos rfl]
  have hresult := hexact hbwd
  rw [hloc.forward_attempt_fails hshort hpreferred hfits] at hresult
  simp only [hblock, priv_next_block, priv_prev_block, hsize, hnext, hprev, Nat.add_sub_cancel,
    hloc.prev_size, Bool.not_not] at hresult
  exact hresult trivial hallocated

/-- What an attempt to expand leaves of the buffer of a block: it is where it was,
    not shorter and with its bytes, or the one that is returned starts in front of
    it. -/
def Attempted (P : Traits) (h : Heap) (first : Nat) (blocks : List Block) (b u : Nat) (h' : Heap)
    (ret : Nat) : Prop :=
  ∃ b' u' blocks', Operation P h h' first blocks blocks' [(b, u)] [(b', u')] ∧
    ((b' = b ∧ u ≤ u' ∧ SameOn h'.mem h.mem (priv_get_user_buffer P b)
        (priv_get_user_buffer P b + user_bytes P u) ∧ (ret = 0 ∨ ret = priv_get_user_buffer P b)) ∨
      (ret = priv_get_user_buffer P b' ∧ b' < b))

theorem usedBlocks_free_if (a : Nat) (c : Bool) (p : Nat) :
    usedBlocks P.Alignment a (free_if c p) = [] := by
  cases c <;> rfl

/-- Between free blocks there is one block in use. -/
theorem usedBlocks_surrounded (a : Nat) (c d : Bool) (p u n : Nat) :
    usedBlocks P.Alignment a (surrounded c d p u n) =
      [(a + (if c then p else 0) * P.Alignment, u)] := by
  rw [surrounded, usedBlocks_append, usedBlocks_free_if, List.nil_append, usedBlocks_cons_used,
    usedBlocks_free_if]
  cases c <;> simp [free_if]

theorem Resizes.attempted {ret : Nat} (hloc : Located P h first L c d p u n R)
    (hresizes : Resizes P h first L c d p u n R h' ret) (hsegment : h'.segment = h.segment) :
    Attempted P h first (L ++ surrounded c d p u n ++ R)
      (stop P.Alignment first L + (if c then p else 0) * P.Alignment) u h' ret := by
  obtain ⟨c', d', p', u', n', hexchange, hcases⟩ := hresizes
  have hop := Operation.of_exchange hloc.rep hexchange hsegment
  rw [usedBlocks_surrounded, usedBlocks_surrounded] at hop
  refine ⟨_, _, _, hop, ?_⟩
  rcases hcases with ⟨rfl, rfl, hle, hsame, hret⟩ | ⟨hret, hlt⟩
  · exact Or.inl ⟨rfl, hle, hsame, hret⟩
  · exact Or.inr ⟨hret, Nat.lt_of_add_lt_add_right hlt⟩

/-- An attempt to expand a buffer in use, when it only splits exactly. -/
theorem Rep.expand_attempted {blocks : List Block} {b : Nat} (hrep : Rep P h first blocks)
    (hlt : stop P.Alignment first blocks < 2 ^ 64) (hlive : LiveAt P first blocks b u)
    {command : allocation_type} {min_size preferred_size sizeof_object alignof_object : Nat}
    {only_preferred_backwards : Bool} (hpreferred : min_size ≤ preferred_size)
    (hfits : Fits P preferred_size)
    (hexact : ExpandsExactly P h command min_size preferred_size (priv_get_user_buffer P b)
      (if only_preferred_backwards then preferred_size else min_size) sizeof_object alignof_object) :
    Attempted P h first blocks b u
      (priv_expand_both_sides P h command min_size preferred_size (priv_get_user_buffer P b)
        only_preferred_backwards sizeof_object alignof_object).1
      (priv_expand_both_sides P h command min_size preferred_size (priv_get_user_buffer P b)
        only_preferred_backwards sizeof_object alignof_object).2.1 := by
  obtain ⟨L, c, d, p, n, R, rfl, hloc, hbuffer⟩ := hrep.exists_located hlive
  have hb := Nat.add_right_cancel hbuffer
  subst hb
  refine Resizes.attempted hloc (hloc.both_sides_resizes hlt hpreferred hfits ?_)
    (segment_priv_expand_both_sides _ _ _ _ _ _ _)
  intro hc hbwd hshort
  subst hc
  exact hloc.splits_exactly hexact hbwd hshort hpreferred (hfits.mono hpreferred)

end interprocess.rbtree_best_fit
