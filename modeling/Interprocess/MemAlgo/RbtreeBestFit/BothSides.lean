import Interprocess.MemAlgo.RbtreeBestFit.Backwards
import Interprocess.MemAlgo.RbtreeBestFit.Exchanges
import Interprocess.MemAlgo.RbtreeBestFit.Expanding
import Interprocess.MemAlgo.RbtreeBestFit.Multiples

namespace interprocess.rbtree_best_fit

open ipcdetail Memory Tiling

variable {P : Traits} {h : Heap} {first p u n : Nat} {c d : Bool} {L R : List Block}

theorem stop_free_if (first : Nat) (L : List Block) (c : Bool) (p : Nat) :
    stop P.Alignment first (L ++ free_if c p) =
      stop P.Alignment first L + (if c then p else 0) * P.Alignment := by
  cases c <;> simp [stop_append]

theorem append_surrounded (L R : List Block) (c d : Bool) (p u n : Nat) :
    L ++ surrounded c d p u n ++ R = L ++ free_if c p ++ ⟨u, true⟩ :: (free_if d n ++ R) := by
  simp [surrounded]

/-- A block in use with what is around it. -/
structure Located (P : Traits) (h : Heap) (first : Nat) (L : List Block) (c d : Bool) (p u n : Nat)
    (R : List Block) : Prop where
  rep : Rep P h first (L ++ surrounded c d p u n ++ R)
  front_used : c = false → (last front L).used = true
  behind_used : d = false → ∀ r ∈ R.head?, r.used = true

/-- The buffer of the block. -/
def located_buffer (P : Traits) (first : Nat) (L : List Block) (c : Bool) (p : Nat) : Nat :=
  priv_get_user_buffer P (stop P.Alignment first L + (if c then p else 0) * P.Alignment)

/-- Every block in use has a place. -/
theorem Rep.exists_located {blocks : List Block} {b : Nat} (hrep : Rep P h first blocks)
    (hlive : LiveAt P first blocks b u) :
    ∃ L c d p n R, blocks = L ++ surrounded c d p u n ++ R ∧ Located P h first L c d p u n R ∧
      priv_get_user_buffer P b = located_buffer P first L c p := by
  obtain ⟨L₀, R₀, rfl, rfl⟩ := exists_of_mem_placed _ hlive
  obtain ⟨L, c, p, hL, hl⟩ : ∃ L c p, L₀ = L ++ free_if c p ∧
      (c = false → (last front L).used = true) := by
    rcases List.eq_nil_or_concat L₀ with rfl | ⟨L, ⟨p, used⟩, rfl⟩
    · exact ⟨[], false, 0, rfl, fun _ => rfl⟩
    · cases used with
      | false => exact ⟨L, true, p, by simp, by nofun⟩
      | true => exact ⟨L.concat ⟨p, true⟩, false, 0, by simp, fun _ => by simp⟩
  obtain ⟨d, n, R, hR, hr⟩ : ∃ d n R, R₀ = free_if d n ++ R ∧
      (d = false → ∀ r ∈ R.head?, r.used = true) := by
    cases R₀ with
    | nil => exact ⟨false, 0, [], rfl, by nofun⟩
    | cons r R =>
      obtain ⟨n, used⟩ := r
      cases used with
      | false => exact ⟨true, n, R, rfl, by nofun⟩
      | true =>
        refine ⟨false, 0, ⟨n, true⟩ :: R, rfl, ?_⟩
        intro _ r hr
        cases hr
        rfl
  subst hL hR
  have hblocks := append_surrounded L R c d p u n
  refine ⟨L, c, d, p, n, R, hblocks.symm, ⟨hblocks ▸ hrep, hl, hr⟩, ?_⟩
  rw [located_buffer, stop_free_if]

/-- What a forward attempt that fails reports. -/
def reported_size (P : Traits) (d : Bool) (u n : Nat) : Nat :=
  if d then (u + n) * P.Alignment - UsableByPreviousChunk else user_bytes P u

/-- A control header has 16 bytes when the alignment is at most that. -/
theorem AllocatedCtrlBytes_eq (hA : P.Alignment ≤ 16) : P.AllocatedCtrlBytes = 16 := by
  have hge := P.AllocatedCtrlBytes_ge
  rcases P.AllocatedCtrlBytes_le with hle | heq <;> omega

theorem reported_size_eq (hu : P.AllocatedCtrlUnits ≤ u) (hA : P.Alignment ≤ 16 ∨ d = false) :
    reported_size P d u n = user_bytes P (u + if d then n else 0) := by
  cases d with
  | false => simp [reported_size]
  | true =>
    have hctrl := AllocatedCtrlBytes_eq (hA.resolve_right (by nofun))
    have hbytes := user_bytes_add (P := P) (u := u + n) (Nat.le_trans hu (Nat.le_add_right u n))
    rw [hctrl] at hbytes
    unfold UsableByPreviousChunk at hbytes
    simp only [reported_size, if_true, UsableByPreviousChunk]
    omega

theorem grown_eq (u v w : Nat) :
    grown u v w = ⟨w, true⟩ :: free_if (decide (w ≠ u + v)) (u + v - w) := by
  unfold grown free_if
  by_cases hall : w = u + v <;> simp [hall]

section Forward

variable (hloc : Located P h first L c d p u n R) {min_size preferred_size : Nat}

include hloc

theorem Located.rep_here : Rep P h first (L ++ free_if c p ++ ⟨u, true⟩ :: (free_if d n ++ R)) :=
  append_surrounded L R c d p u n ▸ hloc.rep

theorem Located.min_units : P.BlockCtrlUnits ≤ u :=
  hloc.rep_here.sizes ⟨u, true⟩ (by simp)

theorem Located.size_eq : size P h (located_buffer P first L c p) = user_bytes P u := by
  rw [located_buffer, ← stop_free_if]
  exact hloc.rep_here.size_eq

theorem Located.front : (last front L).used = true := by
  cases c with
  | false => exact hloc.front_used rfl
  | true =>
    have hseparated := hloc.rep.separated_here
    exact hseparated.1.resolve_right (by nofun)

theorem Located.behind : ∀ r ∈ R.head?, r.used = true := by
  cases d with
  | false => exact hloc.behind_used rfl
  | true =>
    intro r hr
    refine (hloc.rep.separated_behind r hr).resolve_left ?_
    simp [surrounded]

/-- The same place after the blocks there were exchanged. -/
theorem Located.exchange {h' : Heap} {c' d' : Bool} {p' u' n' : Nat}
    (hex : Exchange P h h' first L (surrounded c d p u n) (surrounded c' d' p' u' n') R) :
    Located P h' first L c' d' p' u' n' R :=
  ⟨hloc.rep.exchange hex, fun _ => hloc.front, fun _ => hloc.behind⟩

theorem Located.expand_enough (hmin : min_size ≤ user_bytes P u) :
    priv_expand P h (located_buffer P first L c p) min_size preferred_size =
      (h, true, user_bytes P u) := by
  rw [located_buffer, ← stop_free_if]
  exact hloc.rep_here.priv_expand_enough (Or.inr hmin)

/-- A forward attempt fails when the block and the free block behind it are too small
    together. -/
theorem Located.expand_fails (hmin : user_bytes P (u + if d then n else 0) < min_size)
    (hpreferred : min_size ≤ preferred_size) (hfits : Fits P min_size) :
    priv_expand P h (located_buffer P first L c p) min_size preferred_size =
      (h, false, reported_size P d u n) := by
  have hrep := hloc.rep_here
  rw [located_buffer, ← stop_free_if]
  cases d with
  | false =>
    simp only [Bool.false_eq_true, if_false, Nat.add_zero] at hmin
    exact hrep.priv_expand_blocked hmin (by omega) (hloc.behind_used rfl)
  | true => exact hrep.priv_expand_short hmin hpreferred hfits

/-- A forward attempt that succeeds takes a part of the free block behind, or all of
    it, and keeps the bytes of the buffer. -/
theorem Located.expand_grows (hmin : user_bytes P u < min_size) (hd : d = true)
    (hroom : min_size ≤ user_bytes P (u + n)) (hpreferred : min_size ≤ preferred_size)
    (hfits : Fits P preferred_size) :
    ∃ h' w, priv_expand P h (located_buffer P first L c p) min_size preferred_size =
        (h', true, user_bytes P w) ∧
      w = expanded_units P u n preferred_size ∧
      Exchange P h h' first L (surrounded c d p u n)
        (surrounded c (decide (w ≠ u + n)) p w (u + n - w)) R ∧
      SameOn h'.mem h.mem (located_buffer P first L c p)
        (located_buffer P first L c p + user_bytes P u) := by
  subst hd
  have hrep : Rep P h first (L ++ free_if c p ++ [⟨u, true⟩, ⟨n, false⟩] ++ R) := by
    have hrep := hloc.rep
    simpa [surrounded] using hrep
  obtain ⟨h', hanswer, hexchange, hframe⟩ := hrep.priv_expand_grows hmin hroom hpreferred hfits
  rw [located_buffer, ← stop_free_if]
  refine ⟨h', _, hanswer, rfl, ?_, ?_⟩
  · have hwide := hexchange.widen_left hrep
    rw [grown_eq] at hwide
    exact hwide
  · have hge := P.AllocatedCtrlBytes_ge
    have hbytes := user_bytes_add (P := P) (Nat.le_trans P.AllocatedCtrlUnits_le hloc.min_units)
    intro b hlo hhi
    unfold priv_get_user_buffer at hlo hhi
    unfold UsableByPreviousChunk at hbytes
    refine hframe b (by omega) (by omega) ?_
    intro y hy
    obtain ⟨v, hv, hbound⟩ := mem_outside hy
    have hvbytes : P.BlockCtrlBytes ≤ v * P.Alignment :=
      bytes_ge (b := ⟨v, false⟩) (hrep.sizes _ (mem_of_mem_placed _ hv))
    have hblock := P.BlockCtrlBytes_ge
    rw [stop_append P.Alignment first (L ++ free_if c p)] at hbound
    simp only [stop_cons, stop_nil] at hbound
    omega

end Forward

/-- The whole free block behind is taken, when its size was reported right. -/
theorem Located.settle (hloc : Located P h first L c d p u n R) (hA : P.Alignment ≤ 16 ∨ d = false) :
    ∃ h', priv_expand P h (located_buffer P first L c p) (reported_size P d u n)
          (reported_size P d u n) = (h', true, reported_size P d u n) ∧
      Exchange P h h' first L (surrounded c d p u n)
        (surrounded c false p (u + if d then n else 0) 0) R ∧
      SameOn h'.mem h.mem (located_buffer P first L c p)
        (located_buffer P first L c p + user_bytes P u) := by
  have hu := hloc.min_units
  have hctrl := P.AllocatedCtrlUnits_le
  have hreported := reported_size_eq (n := n) (Nat.le_trans hctrl hu) hA
  cases d with
  | false =>
    rw [hreported]
    exact ⟨h, hloc.expand_enough (Nat.le_refl _), Exchange.refl hloc.rep, fun b _ _ => rfl⟩
  | true =>
    simp only [if_true] at hreported ⊢
    have hn : P.BlockCtrlUnits ≤ n := hloc.rep.sizes ⟨n, false⟩ (by simp [surrounded])
    have hpos := P.BlockCtrlUnits_pos
    have hlarger := user_bytes_lt (P := P) (Nat.le_trans hctrl hu) (show u < u + n by omega)
    have hfits : Fits P (user_bytes P (u + n)) := by
      refine hloc.rep.fits (by omega) ?_
      simp only [units_append, units_surrounded, if_true]
      omega
    rw [hreported]
    obtain ⟨h', w, hanswer, hw, hexchange, hsame⟩ := hloc.expand_grows hlarger rfl (Nat.le_refl _)
      (Nat.le_refl _) hfits
    have hle := le_expanded_units (P := P) (u := u) (v := n) hfits (user_bytes_ge _) hu
    have hwle := expanded_units_le P u n (user_bytes P (u + n))
    have hgt := expanded_units_gt (P := P) (u := u) (v := n) hu (by omega) hlarger hfits
    rw [Nat.min_self, ← hw] at hle
    rw [← hw] at hwle hgt
    have hall : w = u + n := by
      by_contra hne
      have hless := user_bytes_lt (P := P) (u := w) (v := u + n) (by omega) (by omega)
      omega
    subst hall
    refine ⟨h', hanswer, ?_, hsame⟩
    simpa using hexchange

/-- The distance leaves a part of the block in front free. -/
def Splits (P : Traits) (p : Nat) : Option (Nat × Nat) → Prop
  | none => False
  | some (_, needs) => needs ≤ p * P.Alignment ∧ needs / P.Alignment + P.BlockCtrlUnits ≤ p

theorem Located.blocked_in_front (hloc : Located P h first L false d p u n R) {fwd : Bool}
    {s received sizeof_object alignof_object : Nat} :
    expand_backwards P h fwd s received (located_buffer P first L false p) sizeof_object
      alignof_object = (h, 0, received) := by
  have hheader := hloc.rep_here.header_at.prev_allocated
  rw [stop_free_if, free_if_false, List.append_nil, hloc.front_used rfl] at hheader
  change m_prev_allocated h.mem _ = true at hheader
  unfold expand_backwards located_buffer
  simp only [priv_get_block_user_buffer]
  rw [if_pos hheader]

section Backward

variable (hloc : Located P h first L true d p u n R)

include hloc

theorem Located.prev_size : m_size h.mem (stop P.Alignment first L) = p := by
  have hrep := hloc.rep_here
  rw [free_if_true] at hrep
  exact Rep.units_here hrep

variable {fwd : Bool} {s received sizeof_object alignof_object : Nat} {h₁ : Heap}

/-- The free block in front of the buffer is looked at. -/
theorem Located.expand_backwards_eq
    (hfwd : (if fwd then (priv_expand P h (located_buffer P first L true p) received received).1
      else h) = h₁) (hsize : m_size h₁.mem (stop P.Alignment first L) = p) :
    expand_backwards P h fwd s received (located_buffer P first L true p) sizeof_object
        alignof_object =
      match calculate_lcm_and_needs_backwards_lcmed sizeof_object alignof_object received s with
      | none => (h, 0, received)
      | some (lcm_size, needs) =>
        if needs ≤ p * P.Alignment then
          if needs / P.Alignment + P.BlockCtrlUnits ≤ p then
            expand_backwards_split P h₁ (stop P.Alignment first L + p * P.Alignment)
              (stop P.Alignment first L) needs received
          else if needs / P.Alignment ≤ p ∧ p * P.Alignment % lcm_size = 0 then
            expand_backwards_merge P h₁ (stop P.Alignment first L + p * P.Alignment)
              (stop P.Alignment first L) received
          else (h₁, 0, received)
        else (h, 0, received) := by
  have hallocated := hloc.rep_here.header_at.prev_allocated
  have hprev := hloc.rep_here.header_at.prev_size (by simp)
  rw [stop_free_if, free_if_true, last_append, last_cons, last_nil, if_pos rfl] at hallocated hprev
  change m_prev_allocated h.mem _ = false at hallocated
  change m_prev_size h.mem _ = p at hprev
  unfold located_buffer at hfwd ⊢
  rw [if_pos rfl] at hfwd ⊢
  unfold expand_backwards priv_prev_block
  cases hcalc : calculate_lcm_and_needs_backwards_lcmed sizeof_object alignof_object received s with
  | none =>
    simp only [priv_get_block_user_buffer, hallocated, Bool.false_eq_true, if_false]
  | some calculated =>
    obtain ⟨lcm_size, needs⟩ := calculated
    simp only [priv_get_block_user_buffer, hallocated, hprev, Nat.add_sub_cancel, hloc.prev_size,
      hfwd, hsize, Bool.false_eq_true, if_false]

end Backward

/-- The size that is there before anything is taken in front. -/
def forward_size (P : Traits) (fwd d : Bool) (u n : Nat) : Nat :=
  if fwd then reported_size P d u n else user_bytes P u

/-- The units that are there before anything is taken in front. -/
def forward_units (fwd d : Bool) (u n : Nat) : Nat :=
  u + if fwd && d then n else 0

theorem forward_size_eq {fwd : Bool} (hu : P.AllocatedCtrlUnits ≤ u)
    (hA : fwd = true → P.Alignment ≤ 16 ∨ d = false) :
    forward_size P fwd d u n = user_bytes P (forward_units fwd d u n) := by
  cases fwd with
  | false => rfl
  | true =>
    rw [forward_size, if_pos rfl, reported_size_eq hu (hA rfl), forward_units, Bool.true_and]

section BothSides

variable (hloc : Located P h first L c d p u n R) {fwd : Bool} {s sizeof_object alignof_object : Nat}

include hloc

/-- The forward part of an expansion that also goes backwards. -/
theorem Located.settle_if (hA : fwd = true → P.Alignment ≤ 16 ∨ d = false) :
    ∃ h₁ d₁ n₁, (if fwd then (priv_expand P h (located_buffer P first L c p)
        (forward_size P fwd d u n) (forward_size P fwd d u n)).1 else h) = h₁ ∧
      Exchange P h h₁ first L (surrounded c d p u n)
        (surrounded c d₁ p (forward_units fwd d u n) n₁) R ∧
      SameOn h₁.mem h.mem (located_buffer P first L c p)
        (located_buffer P first L c p + user_bytes P u) := by
  cases fwd with
  | false =>
    exact ⟨h, d, n, rfl, Exchange.refl hloc.rep, fun b _ _ => rfl⟩
  | true =>
    obtain ⟨h₁, hanswer, hexchange, hsame⟩ := hloc.settle (hA rfl)
    refine ⟨h₁, false, 0, ?_, hexchange, hsame⟩
    rw [if_pos rfl, forward_size, if_pos rfl, hanswer]

variable {command : allocation_type} {min_size preferred_size : Nat} {only_preferred_backwards : Bool}

/-- There is room without anything in front. -/
theorem Located.both_sides_forward
    (hroom : min_size ≤ user_bytes P (forward_units command.expand_fwd d u n))
    (hpreferred : min_size ≤ preferred_size) (hfits : Fits P preferred_size) :
    ∃ h' d' u' n', priv_expand_both_sides P h command min_size preferred_size
        (located_buffer P first L c p) only_preferred_backwards sizeof_object alignof_object =
          (h', located_buffer P first L c p, user_bytes P u') ∧ min_size ≤ user_bytes P u' ∧
      Exchange P h h' first L (surrounded c d p u n) (surrounded c d' p u' n') R ∧ u ≤ u' ∧
      SameOn h'.mem h.mem (located_buffer P first L c p)
        (located_buffer P first L c p + user_bytes P u) := by
  have hu := hloc.min_units
  unfold priv_expand_both_sides
  by_cases henough : min_size ≤ user_bytes P u
  · refine ⟨h, d, u, n, ?_, henough, Exchange.refl hloc.rep, Nat.le_refl u, fun b _ _ => rfl⟩
    cases hfwd : command.expand_fwd with
    | false => simp [hloc.size_eq, henough]
    | true => simp [hloc.expand_enough henough]
  · cases hfwd : command.expand_fwd with
    | false =>
      rw [hfwd, forward_units, Bool.false_and] at hroom
      exact absurd hroom henough
    | true =>
      cases d with
      | false =>
        rw [hfwd, forward_units, Bool.and_false] at hroom
        exact absurd hroom henough
      | true =>
        rw [hfwd, forward_units, Bool.and_true, if_pos rfl] at hroom
        have hn : P.BlockCtrlUnits ≤ n := hloc.rep.sizes ⟨n, false⟩ (by simp [surrounded])
        have hpos := P.BlockCtrlUnits_pos
        obtain ⟨h', w, hanswer, hw, hexchange, hsame⟩ := hloc.expand_grows (Nat.lt_of_not_le henough)
          rfl hroom hpreferred hfits
        have hgt := expanded_units_gt (P := P) (u := u) (v := n) hu (by omega) (by omega) hfits
        have hge := user_bytes_ge (P := P) u
        have hle := le_expanded_units (P := P) (u := u) (v := n) hfits (by omega) hu
        rw [← hw] at hgt hle
        refine ⟨h', _, w, _, ?_, by omega, hexchange, by omega, hsame⟩
        simp [hanswer]

/-- There is not, and the block in front is looked at. -/
theorem Located.both_sides_backward
    (hshort : user_bytes P (forward_units command.expand_fwd d u n) < min_size)
    (hpreferred : min_size ≤ preferred_size) (hfits : Fits P min_size) :
    priv_expand_both_sides P h command min_size preferred_size (located_buffer P first L c p)
        only_preferred_backwards sizeof_object alignof_object =
      if command.expand_bwd then
        expand_backwards P h command.expand_fwd
          (if only_preferred_backwards then preferred_size else min_size)
          (forward_size P command.expand_fwd d u n) (located_buffer P first L c p) sizeof_object
          alignof_object
      else (h, 0, forward_size P command.expand_fwd d u n) := by
  unfold priv_expand_both_sides
  cases hfwd : command.expand_fwd with
  | false =>
    rw [hfwd, forward_units, Bool.false_and] at hshort
    simp only [Bool.false_eq_true, if_false, Nat.add_zero] at hshort
    have hnot : ¬ (preferred_size ≤ user_bytes P u ∨ min_size ≤ user_bytes P u) := by omega
    simp only [Bool.false_eq_true, if_false, hloc.size_eq, decide_eq_true_eq, if_neg hnot,
      forward_size]
  | true =>
    rw [hfwd, forward_units, Bool.true_and] at hshort
    simp only [if_true, hloc.expand_fails hshort hpreferred hfits, Bool.false_eq_true, if_false,
      forward_size]

end BothSides

end interprocess.rbtree_best_fit
