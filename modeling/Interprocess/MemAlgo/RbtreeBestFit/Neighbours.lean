import Interprocess.MemAlgo.RbtreeBestFit.Editing

namespace interprocess.rbtree_best_fit

open ipcdetail Memory Tiling

/-- Header addresses of two neighbours and of the block behind them. -/
def three (a x e : Nat) : Set Nat :=
  {a, x, e}

/-- Control data at three addresses. -/
def tri (a x e : Nat) (A X E : BlockCtrl) : Nat → BlockCtrl := fun y =>
  if y = a then A else if y = x then X else if y = e then E else ⟨0, 0, false, false⟩

variable {P : Traits} {a x e : Nat} {A X E C : BlockCtrl}

theorem spread_three (hx : a + P.BlockCtrlBytes ≤ x) (he : x + P.BlockCtrlBytes ≤ e) :
    Spread P (three a x e) := by
  rintro y (rfl | rfl | rfl) z (rfl | rfl | rfl) <;> omega

@[simp] theorem mem_three_left : a ∈ three a x e :=
  Or.inl rfl

@[simp] theorem mem_three_mid : x ∈ three a x e :=
  Or.inr (Or.inl rfl)

@[simp] theorem mem_three_right : e ∈ three a x e :=
  Or.inr (Or.inr rfl)

@[simp] theorem tri_left : tri a x e A X E a = A :=
  if_pos rfl

theorem tri_mid (hax : a ≠ x) : tri a x e A X E x = X := by
  simp [tri, hax.symm]

theorem tri_right (hae : a ≠ e) (hxe : x ≠ e) : tri a x e A X E e = E := by
  simp [tri, hae.symm, hxe.symm]

@[simp] theorem update_tri_left : Function.update (tri a x e A X E) a C = tri a x e C X E := by
  funext y
  by_cases hy : y = a
  · subst hy
    rw [Function.update_self, tri_left]
  · rw [Function.update_of_ne hy]
    simp [tri, hy]

theorem update_tri_mid (hax : a ≠ x) :
    Function.update (tri a x e A X E) x C = tri a x e A C E := by
  funext y
  by_cases hy : y = x
  · subst hy
    rw [Function.update_self, tri_mid hax]
  · rw [Function.update_of_ne hy]
    simp [tri, hy]

theorem update_tri_right (hae : a ≠ e) (hxe : x ≠ e) :
    Function.update (tri a x e A X E) e C = tri a x e A X C := by
  funext y
  by_cases hy : y = e
  · subst hy
    rw [Function.update_self, tri_right hae hxe]
  · rw [Function.update_of_ne hy]
    simp [tri, hy]

/-- Any description of three headers is of this form. -/
theorem tri_of_mem {V : Nat → BlockCtrl} {y : Nat} (hy : y ∈ three a x e) :
    V y = tri a x e (V a) (V x) (V e) y := by
  by_cases hya : y = a
  · rw [hya, tri_left]
  by_cases hyx : y = x
  · subst hyx
    rw [tri_mid (Ne.symm hya)]
  · rcases hy with rfl | rfl | rfl
    · exact absurd rfl hya
    · exact absurd rfl hyx
    · rw [tri_right (Ne.symm hya) (Ne.symm hyx)]

theorem marked_allocated_tri_left (hax : a ≠ x) :
    marked_allocated (tri a x e A X E) a x =
      tri a x e { A with m_allocated := true } { X with m_prev_allocated := true } E := by
  simp [marked_allocated, tri_mid hax, update_tri_mid hax]

theorem marked_allocated_tri_mid (hax : a ≠ x) (hae : a ≠ e) (hxe : x ≠ e) :
    marked_allocated (tri a x e A X E) x e =
      tri a x e A { X with m_allocated := true } { E with m_prev_allocated := true } := by
  simp [marked_allocated, tri_mid hax, update_tri_mid hax, tri_right hae hxe,
    update_tri_right hae hxe]

theorem marked_free_tri_left (hax : a ≠ x) :
    marked_free (tri a x e A X E) a x =
      tri a x e { A with m_allocated := false }
        { X with m_prev_allocated := false, m_prev_size := A.m_size } E := by
  simp [marked_free, tri_mid hax, update_tri_mid hax]

theorem marked_free_tri_mid (hax : a ≠ x) (hae : a ≠ e) (hxe : x ≠ e) :
    marked_free (tri a x e A X E) x e =
      tri a x e A { X with m_allocated := false }
        { E with m_prev_allocated := false, m_prev_size := X.m_size } := by
  simp [marked_free, tri_mid hax, update_tri_mid hax, tri_right hae hxe, update_tri_right hae hxe]

/-- Header addresses of a block and of the block behind it. -/
def two (a e : Nat) : Set Nat :=
  {a, e}

/-- Control data at two addresses. -/
def duo (a e : Nat) (A E : BlockCtrl) : Nat → BlockCtrl := fun y =>
  if y = a then A else if y = e then E else ⟨0, 0, false, false⟩

theorem spread_two (he : a + P.BlockCtrlBytes ≤ e) : Spread P (two a e) := by
  rintro y (rfl | rfl) z (rfl | rfl) <;> omega

@[simp] theorem mem_two_left : a ∈ two a e :=
  Or.inl rfl

@[simp] theorem mem_two_right : e ∈ two a e :=
  Or.inr rfl

@[simp] theorem duo_left : duo a e A E a = A :=
  if_pos rfl

theorem duo_right (hae : a ≠ e) : duo a e A E e = E := by
  simp [duo, hae.symm]

@[simp] theorem update_duo_left : Function.update (duo a e A E) a C = duo a e C E := by
  funext y
  by_cases hy : y = a
  · subst hy
    rw [Function.update_self, duo_left]
  · rw [Function.update_of_ne hy]
    simp [duo, hy]

theorem update_duo_right (hae : a ≠ e) : Function.update (duo a e A E) e C = duo a e A C := by
  funext y
  by_cases hy : y = e
  · subst hy
    rw [Function.update_self, duo_right hae]
  · rw [Function.update_of_ne hy]
    simp [duo, hy]

theorem duo_of_mem {V : Nat → BlockCtrl} {y : Nat} (hy : y ∈ two a e) :
    V y = duo a e (V a) (V e) y := by
  by_cases hya : y = a
  · rw [hya, duo_left]
  · rcases hy with rfl | rfl
    · exact absurd rfl hya
    · rw [duo_right (Ne.symm hya)]

theorem marked_allocated_duo (hae : a ≠ e) :
    marked_allocated (duo a e A E) a e =
      duo a e { A with m_allocated := true } { E with m_prev_allocated := true } := by
  simp [marked_allocated, duo_right hae, update_duo_right hae]

theorem marked_free_duo (hae : a ≠ e) :
    marked_free (duo a e A E) a e =
      duo a e { A with m_allocated := false }
        { E with m_prev_allocated := false, m_prev_size := A.m_size } := by
  simp [marked_free, duo_right hae, update_duo_right hae]

section Exchange

variable {h h' : Heap} {first k l v w : Nat} {L G R R' : List Block} {r : Block} {α β : Bool}

/-- An operation starts on blocks that hold the three headers. -/
theorem Rep.editing_three (hrep : Rep P h first (L ++ G ++ R)) (ha : a = stop P.Alignment first L)
    (he : e = stop P.Alignment first (L ++ G)) (hax : a ≤ x) (hxe : x ≤ e)
    (hclear : ∀ n ∈ frees P.Alignment a G, n < e ∧ (x ≤ n ∨ n + 40 ≤ x))
    (hl : ∀ n ∈ frees P.Alignment a G, l ≤ n + 16) :
    Editing (three a x e) (a + 8) k l (e + 16) (outside P first L G R) h.mem h
      (tri a x e (ctrl h.mem a) (ctrl h.mem x) (ctrl h.mem e)) := by
  subst ha he
  have hE := hrep.editing (S := three (stop P.Alignment first L) x (stop P.Alignment first (L ++ G)))
    (k := k) (l := l) (by rintro y (rfl | rfl | rfl) <;> omega) (by
      intro y hy n hn
      obtain ⟨u, hu⟩ := (mem_frees _).mp hn
      have hbound : _ ∧ n + u * P.Alignment ≤ _ := mem_placed_bounds _ hu
      have hbytes : P.BlockCtrlBytes ≤ u * P.Alignment :=
        bytes_ge (b := ⟨u, false⟩) (hrep.sizes _ (by
          have := mem_of_mem_placed _ hu
          simp [this]))
      have hge := P.BlockCtrlBytes_ge
      have hx := hclear n hn
      rw [← stop_append] at hbound
      rcases hy with rfl | rfl | rfl <;> omega) hl
  exact hE.update rfl (hE.executed.congr fun y hy => tri_of_mem hy)

/-- The tree stays ordered when a block is inserted between `a` and `e`. -/
theorem Rep.sorted_between (hrep : Rep P h first (L ++ G ++ R)) (ha : a = stop P.Alignment first L)
    (he : e = stop P.Alignment first (L ++ G)) {rest : List Nat} {m m' : Memory}
    (hsublist : rest.Sublist h.m_imultiset) (hrest : rest.Perm (outside P first L G R))
    (hframe : Frame h.mem m (a + 8) k l (e + 16) (outside P first L G R))
    (hframe' : Frame h.mem m' (a + 8) k l (e + 16) (outside P first L G R)) (hk : k ≤ e + 16)
    (hl : a + 8 ≤ l) (hsize : m_size m e = m_size h.mem e) (hsize' : m_size m' e = m_size h.mem e)
    (hx : m_size m' x = m_size m x) :
    (rest.orderedInsert (fun y z => m_size m y < m_size m z) x).Pairwise
      fun y z => m_size m' y ≤ m_size m' z := by
  subst ha he
  exact hrep.sorted_insert hsublist (fun n hn => hrest.mem_iff.mp hn)
    (hframe.widen (Nat.le_refl _) hk hl (Nat.le_refl _))
    (hframe'.widen (Nat.le_refl _) hk hl (Nat.le_refl _)) hsize hsize' hx

/-- An operation ends with two blocks. -/
theorem Editing.exchange_two
    (hE : Editing (three a x e) (a + 8) k l (e + 16) (outside P first L G R) h.mem h'
      (tri a x e A X E))
    (ha : a = stop P.Alignment first L) (hx : x = a + v * P.Alignment)
    (he : e = x + w * P.Alignment) (hunits : v + w = units G) (hk : k ≤ e + 16) (hl : a + 8 ≤ l)
    (hR : R ++ [⟨units (L ++ G ++ R), true⟩] = r :: R') (hv : P.BlockCtrlUnits ≤ v)
    (hw : P.BlockCtrlUnits ≤ w) (hfront : (last front L).used = true ∨ α = true)
    (hmid : α = true ∨ β = true) (hbehind : ∀ r ∈ R.head?, β = true ∨ r.used = true)
    (hA : HeaderAt (fun _ => A) a (last front L) ⟨v, α⟩) (hX : HeaderAt (fun _ => X) x ⟨v, α⟩ ⟨w, β⟩)
    (hend : HeaderAt (fun _ => E) e ⟨w, β⟩ r)
    (hnodes : h'.m_imultiset.Perm (frees P.Alignment first L ++
      (frees P.Alignment a [⟨v, α⟩, ⟨w, β⟩] ++ frees P.Alignment e R)))
    (hsorted : h'.m_imultiset.Pairwise fun x y => m_size h'.mem x ≤ m_size h'.mem y)
    (halloc : h'.m_allocated + usedUnits G * P.Alignment =
      h.m_allocated + usedUnits [⟨v, α⟩, ⟨w, β⟩] * P.Alignment) :
    Exchange P h h' first L G [⟨v, α⟩, ⟨w, β⟩] R := by
  have hstop : stop P.Alignment first (L ++ G) = e := by
    rw [stop_append, ← ha, stop, ← hunits, Nat.add_mul, he, hx, Nat.add_assoc]
  have hge := P.BlockCtrlBytes_ge
  have hvbytes : P.BlockCtrlBytes ≤ v * P.Alignment := bytes_ge (b := ⟨v, α⟩) hv
  have hwbytes : P.BlockCtrlBytes ≤ w * P.Alignment := bytes_ge (b := ⟨w, β⟩) hw
  have hax : a ≠ x := by omega
  have hae : a ≠ e := by omega
  have hxe : x ≠ e := by omega
  subst ha
  rw [← hstop] at hE hnodes hk
  refine hE.exchange hk hl hR ?_ ?_ ?_ ?_ ?_ ?_ hnodes hsorted halloc
  · simp only [units_cons, units_nil]
    omega
  · intro b hb
    simp only [List.mem_cons, List.not_mem_nil, or_false] at hb
    rcases hb with rfl | rfl
    · exact hv
    · exact hw
  · exact ⟨hfront, hmid, trivial⟩
  · intro r hr
    rw [last_append, last_cons, last_cons, last_nil]
    exact hbehind r hr
  · rw [hstop]
    simp only [List.cons_append, List.nil_append, linked_cons, ← hx, ← he]
    refine ⟨?_, ?_, ?_, trivial⟩
    · refine ⟨?_, ?_, ?_, ?_⟩ <;> rw [tri_left]
      exacts [hA.size, hA.prev_allocated, hA.allocated, hA.prev_size]
    · refine ⟨?_, ?_, ?_, ?_⟩ <;> rw [tri_mid hax]
      exacts [hX.size, hX.prev_allocated, hX.allocated, hX.prev_size]
    · refine ⟨?_, ?_, ?_, ?_⟩ <;> rw [tri_right hae hxe]
      exacts [hend.size, hend.prev_allocated, hend.allocated, hend.prev_size]
  · intro y b hy
    simp only [List.cons_append, List.nil_append, placed, List.mem_cons, List.not_mem_nil, or_false,
      Prod.mk.injEq, ← hx, ← he] at hy
    rw [hstop]
    rcases hy with ⟨rfl, _⟩ | ⟨rfl, _⟩ | ⟨rfl, _⟩ <;> simp

/-- An operation starts on a block and the one behind it. -/
theorem Rep.editing_two (hrep : Rep P h first (L ++ G ++ R)) (ha : a = stop P.Alignment first L)
    (he : e = stop P.Alignment first (L ++ G)) (hae : a ≤ e)
    (hl : ∀ n ∈ frees P.Alignment a G, l ≤ n + 16) :
    Editing (two a e) (a + 8) k l (e + 16) (outside P first L G R) h.mem h
      (duo a e (ctrl h.mem a) (ctrl h.mem e)) := by
  subst ha he
  have hE := hrep.editing (S := two (stop P.Alignment first L) (stop P.Alignment first (L ++ G)))
    (k := k) (l := l) (by rintro y (rfl | rfl) <;> omega) (by
      intro y hy n hn
      obtain ⟨u, hu⟩ := (mem_frees _).mp hn
      have hbound : _ ∧ n + u * P.Alignment ≤ _ := mem_placed_bounds _ hu
      have hbytes : P.BlockCtrlBytes ≤ u * P.Alignment :=
        bytes_ge (b := ⟨u, false⟩) (hrep.sizes _ (by
          have := mem_of_mem_placed _ hu
          simp [this]))
      have hge := P.BlockCtrlBytes_ge
      rw [← stop_append] at hbound
      rcases hy with rfl | rfl <;> omega) hl
  exact hE.update rfl (hE.executed.congr fun y hy => duo_of_mem hy)

/-- The header of a block that is made between the two. -/
theorem Editing.watch_mid {lo hi : Nat} {nodes : List Nat} {m : Memory}
    (hE : Editing (two a e) lo k l hi nodes m h (duo a e A E)) (hax : a ≠ x) (hae : a ≠ e)
    (hxe : x ≠ e) (hclear : ∀ n ∈ h.m_imultiset, x ≤ n ∨ n + 40 ≤ x) :
    Editing (three a x e) lo k l hi nodes m h (tri a x e A (ctrl h.mem x) E) := by
  obtain ⟨hX, hhooks, hclear'⟩ := hE.watch hclear
  refine ⟨⟨?_, hX.frame⟩, hhooks, ?_⟩
  · rintro y (rfl | rfl | rfl)
    · rw [tri_left, hE.executed.ctrl_eq y mem_two_left, duo_left]
    · rw [tri_mid hax]
    · rw [tri_right hae hxe, hE.executed.ctrl_eq y mem_two_right, duo_right hae]
  · rintro y (rfl | rfl | rfl)
    · exact hE.clear y mem_two_left
    · exact hclear
    · exact hE.clear y mem_two_right

/-- An operation ends with one block. -/
theorem Editing.exchange_one
    (hE : Editing (two a e) (a + 8) k l (e + 16) (outside P first L G R) h.mem h' (duo a e A E))
    (ha : a = stop P.Alignment first L) (he : e = a + v * P.Alignment) (hunits : v = units G)
    (hk : k ≤ e + 16) (hl : a + 8 ≤ l) (hR : R ++ [⟨units (L ++ G ++ R), true⟩] = r :: R')
    (hv : P.BlockCtrlUnits ≤ v) (hfront : (last front L).used = true ∨ α = true)
    (hbehind : ∀ r ∈ R.head?, α = true ∨ r.used = true)
    (hA : HeaderAt (fun _ => A) a (last front L) ⟨v, α⟩) (hend : HeaderAt (fun _ => E) e ⟨v, α⟩ r)
    (hnodes : h'.m_imultiset.Perm (frees P.Alignment first L ++
      (frees P.Alignment a [⟨v, α⟩] ++ frees P.Alignment e R)))
    (hsorted : h'.m_imultiset.Pairwise fun x y => m_size h'.mem x ≤ m_size h'.mem y)
    (halloc : h'.m_allocated + usedUnits G * P.Alignment =
      h.m_allocated + usedUnits [⟨v, α⟩] * P.Alignment) :
    Exchange P h h' first L G [⟨v, α⟩] R := by
  have hstop : stop P.Alignment first (L ++ G) = e := by
    rw [stop_append, ← ha, stop, ← hunits, he]
  have hge := P.BlockCtrlBytes_ge
  have hvbytes : P.BlockCtrlBytes ≤ v * P.Alignment := bytes_ge (b := ⟨v, α⟩) hv
  have hae : a ≠ e := by omega
  subst ha
  rw [← hstop] at hE hnodes hk
  refine hE.exchange hk hl hR ?_ ?_ ?_ ?_ ?_ ?_ hnodes hsorted halloc
  · rw [units_cons, units_nil, Nat.add_zero, hunits]
  · intro b hb
    cases List.mem_singleton.mp hb
    exact hv
  · exact ⟨hfront, trivial⟩
  · intro r hr
    rw [last_append, last_cons, last_nil]
    exact hbehind r hr
  · rw [hstop]
    simp only [List.cons_append, List.nil_append, linked_cons, ← he]
    refine ⟨?_, ?_, trivial⟩
    · refine ⟨?_, ?_, ?_, ?_⟩ <;> rw [duo_left]
      exacts [hA.size, hA.prev_allocated, hA.allocated, hA.prev_size]
    · refine ⟨?_, ?_, ?_, ?_⟩ <;> rw [duo_right hae]
      exacts [hend.size, hend.prev_allocated, hend.allocated, hend.prev_size]
  · intro y b hy
    simp only [List.cons_append, List.nil_append, placed, List.mem_cons, List.not_mem_nil, or_false,
      Prod.mk.injEq, ← he] at hy
    rw [hstop]
    rcases hy with ⟨rfl, _⟩ | ⟨rfl, _⟩ <;> simp

end Exchange

end interprocess.rbtree_best_fit
