import Mathlib.Data.List.Chain
import Mathlib.Data.List.Perm.Basic
import Mathlib.Data.List.Nodup
import Mathlib.Tactic.Ring

namespace Tiling

/-- A block of a tiled range, in use or free. -/
structure Block where
  units : Nat
  used : Bool
  deriving DecidableEq

/-- The block in front of the next one: the last of the list, or `p`. -/
def last (p : Block) : List Block → Block
  | [] => p
  | b :: rest => last b rest

@[simp] theorem last_nil (p : Block) : last p [] = p :=
  rfl

@[simp] theorem last_cons (p b : Block) (rest : List Block) : last p (b :: rest) = last b rest :=
  rfl

@[simp] theorem last_append (p : Block) (L R : List Block) : last p (L ++ R) = last (last p L) R := by
  induction L generalizing p with
  | nil => rfl
  | cons b rest ih => exact ih b

/-- The units of the blocks in use. -/
def usedUnits : List Block → Nat
  | [] => 0
  | b :: rest => (if b.used then b.units else 0) + usedUnits rest

@[simp] theorem usedUnits_nil : usedUnits [] = 0 :=
  rfl

theorem usedUnits_cons (b : Block) (rest : List Block) :
    usedUnits (b :: rest) = (if b.used then b.units else 0) + usedUnits rest :=
  rfl

theorem usedUnits_append (L R : List Block) : usedUnits (L ++ R) = usedUnits L + usedUnits R := by
  induction L with
  | nil => rw [List.nil_append, usedUnits_nil, Nat.zero_add]
  | cons b rest ih => rw [List.cons_append, usedUnits_cons, usedUnits_cons, ih, Nat.add_assoc]

/-- The units of all blocks. -/
def units : List Block → Nat
  | [] => 0
  | b :: rest => b.units + units rest

@[simp] theorem units_nil : units [] = 0 :=
  rfl

@[simp] theorem units_cons (b : Block) (rest : List Block) : units (b :: rest) = b.units + units rest :=
  rfl

@[simp] theorem units_append (L R : List Block) : units (L ++ R) = units L + units R := by
  induction L with
  | nil => rw [List.nil_append, units_nil, Nat.zero_add]
  | cons b rest ih => rw [List.cons_append, units_cons, units_cons, ih, Nat.add_assoc]

variable (A : Nat)

/-- Where the blocks end that start at `a`. -/
def stop (a : Nat) (blocks : List Block) : Nat :=
  a + units blocks * A

@[simp] theorem stop_nil (a : Nat) : stop A a [] = a := by
  simp [stop]

@[simp] theorem stop_cons (a : Nat) (b : Block) (rest : List Block) :
    stop A a (b :: rest) = stop A (a + b.units * A) rest := by
  simp only [stop, units_cons]
  ring

theorem stop_append (a : Nat) (L R : List Block) : stop A a (L ++ R) = stop A (stop A a L) R := by
  simp only [stop, units_append]
  ring

theorem le_stop (a : Nat) (blocks : List Block) : a ≤ stop A a blocks :=
  Nat.le_add_right _ _

/-- The blocks with their addresses. -/
def placed : Nat → List Block → List (Nat × Block)
  | _, [] => []
  | a, b :: rest => (a, b) :: placed (a + b.units * A) rest

theorem placed_append (a : Nat) (L R : List Block) :
    placed A a (L ++ R) = placed A a L ++ placed A (stop A a L) R := by
  induction L generalizing a with
  | nil => simp [placed]
  | cons b rest ih => simp only [List.cons_append, placed, ih, stop_cons]

theorem mem_placed_bounds {a x : Nat} {b : Block} {L : List Block} (h : (x, b) ∈ placed A a L) :
    a ≤ x ∧ x + b.units * A ≤ stop A a L := by
  induction L generalizing a with
  | nil => cases h
  | cons c rest ih =>
    rw [stop_cons]
    rcases List.mem_cons.mp h with heq | hrest
    · cases heq
      exact ⟨Nat.le_refl _, le_stop A _ _⟩
    · have := ih hrest
      omega

/-- Two blocks are the same or apart. -/
theorem placed_apart {a x y : Nat} {b c : Block} {L : List Block} (hb : (x, b) ∈ placed A a L)
    (hc : (y, c) ∈ placed A a L) :
    (x = y ∧ b = c) ∨ x + b.units * A ≤ y ∨ y + c.units * A ≤ x := by
  induction L generalizing a with
  | nil => cases hb
  | cons d rest ih =>
    rcases List.mem_cons.mp hb with hb | hb <;> rcases List.mem_cons.mp hc with hc | hc
    · cases hb
      cases hc
      exact Or.inl ⟨rfl, rfl⟩
    · cases hb
      exact Or.inr (Or.inl (mem_placed_bounds A hc).1)
    · cases hc
      exact Or.inr (Or.inr (mem_placed_bounds A hb).1)
    · exact ih hb hc

/-- The list splits at a placed block. -/
theorem exists_of_mem_placed {a x : Nat} {b : Block} {L : List Block} (h : (x, b) ∈ placed A a L) :
    ∃ L₁ L₂, L = L₁ ++ b :: L₂ ∧ x = stop A a L₁ := by
  induction L generalizing a with
  | nil => cases h
  | cons c rest ih =>
    rcases List.mem_cons.mp h with heq | hrest
    · cases heq
      exact ⟨[], rest, rfl, (stop_nil A _).symm⟩
    · obtain ⟨L₁, L₂, hL, hx⟩ := ih hrest
      refine ⟨c :: L₁, L₂, by rw [hL, List.cons_append], ?_⟩
      rw [stop_cons]
      exact hx

theorem mem_of_mem_placed {a x : Nat} {b : Block} {L : List Block} (h : (x, b) ∈ placed A a L) :
    b ∈ L := by
  obtain ⟨L₁, L₂, rfl, _⟩ := exists_of_mem_placed A h
  exact List.mem_append_right _ List.mem_cons_self

theorem mem_placed_mid (a : Nat) (b : Block) (L R : List Block) :
    (stop A a L, b) ∈ placed A a (L ++ b :: R) := by
  rw [placed_append]
  exact List.mem_append_right _ List.mem_cons_self

/-- The addresses of the free blocks. -/
def frees : Nat → List Block → List Nat
  | _, [] => []
  | a, b :: rest => (if b.used then [] else [a]) ++ frees (a + b.units * A) rest

@[simp] theorem frees_nil (a : Nat) : frees A a [] = [] :=
  rfl

@[simp] theorem frees_cons_used (a u : Nat) (rest : List Block) :
    frees A a (⟨u, true⟩ :: rest) = frees A (a + u * A) rest :=
  rfl

@[simp] theorem frees_cons_free (a u : Nat) (rest : List Block) :
    frees A a (⟨u, false⟩ :: rest) = a :: frees A (a + u * A) rest :=
  rfl

theorem frees_append (a : Nat) (L R : List Block) :
    frees A a (L ++ R) = frees A a L ++ frees A (stop A a L) R := by
  induction L generalizing a with
  | nil => simp
  | cons b rest ih => simp only [List.cons_append, frees, ih, stop_cons, List.append_assoc]

theorem mem_frees {a x : Nat} {L : List Block} :
    x ∈ frees A a L ↔ ∃ u, (x, (⟨u, false⟩ : Block)) ∈ placed A a L := by
  induction L generalizing a with
  | nil => simp [placed]
  | cons b rest ih =>
    obtain ⟨u, used⟩ := b
    cases used with
    | true => simp [placed, ih]
    | false =>
      simp only [frees_cons_free, placed, List.mem_cons, ih, Prod.mk.injEq, Block.mk.injEq]
      constructor
      · rintro (rfl | ⟨v, hv⟩)
        · exact ⟨u, Or.inl ⟨rfl, rfl, trivial⟩⟩
        · exact ⟨v, Or.inr hv⟩
      · rintro ⟨v, (⟨rfl, _⟩ | hv)⟩
        · exact Or.inl rfl
        · exact Or.inr ⟨v, hv⟩

/-- The list splits at a free block. -/
theorem exists_of_frees_eq {a y : Nat} {xs ys : List Nat} {L : List Block}
    (h : frees A a L = xs ++ y :: ys) :
    ∃ L₁ u L₂, L = L₁ ++ ⟨u, false⟩ :: L₂ ∧ frees A a L₁ = xs ∧ y = stop A a L₁ := by
  induction L generalizing a xs with
  | nil =>
    rw [frees_nil] at h
    cases xs <;> cases h
  | cons b rest ih =>
    obtain ⟨u, used⟩ := b
    cases used with
    | true =>
      rw [frees_cons_used] at h
      obtain ⟨L₁, v, L₂, rfl, hxs, hy⟩ := ih h
      refine ⟨⟨u, true⟩ :: L₁, v, L₂, rfl, hxs, ?_⟩
      rw [stop_cons]
      exact hy
    | false =>
      rw [frees_cons_free] at h
      cases xs with
      | nil =>
        cases h
        exact ⟨[], u, rest, rfl, rfl, (stop_nil A _).symm⟩
      | cons x xs =>
        obtain ⟨rfl, hrest⟩ := List.cons.inj h
        obtain ⟨L₁, v, L₂, rfl, hxs, hy⟩ := ih hrest
        refine ⟨⟨u, false⟩ :: L₁, v, L₂, rfl, ?_, ?_⟩
        · rw [frees_cons_free, hxs]
        · rw [stop_cons]
          exact hy

/-- The addresses of the blocks in use. -/
def useds : Nat → List Block → List Nat
  | _, [] => []
  | a, b :: rest => (if b.used then [a] else []) ++ useds (a + b.units * A) rest

@[simp] theorem useds_nil (a : Nat) : useds A a [] = [] :=
  rfl

@[simp] theorem useds_cons_used (a u : Nat) (rest : List Block) :
    useds A a (⟨u, true⟩ :: rest) = a :: useds A (a + u * A) rest :=
  rfl

@[simp] theorem useds_cons_free (a u : Nat) (rest : List Block) :
    useds A a (⟨u, false⟩ :: rest) = useds A (a + u * A) rest :=
  rfl

theorem useds_append (a : Nat) (L R : List Block) :
    useds A a (L ++ R) = useds A a L ++ useds A (stop A a L) R := by
  induction L generalizing a with
  | nil => simp
  | cons b rest ih => simp only [List.cons_append, useds, ih, stop_cons, List.append_assoc]

theorem mem_useds {a x : Nat} {L : List Block} :
    x ∈ useds A a L ↔ ∃ u, (x, (⟨u, true⟩ : Block)) ∈ placed A a L := by
  induction L generalizing a with
  | nil => simp [placed]
  | cons b rest ih =>
    obtain ⟨u, used⟩ := b
    cases used with
    | false => simp [placed, ih]
    | true =>
      simp only [useds_cons_used, placed, List.mem_cons, ih, Prod.mk.injEq, Block.mk.injEq]
      constructor
      · rintro (rfl | ⟨v, hv⟩)
        · exact ⟨u, Or.inl ⟨rfl, rfl, trivial⟩⟩
        · exact ⟨v, Or.inr hv⟩
      · rintro ⟨v, (⟨rfl, _⟩ | hv)⟩
        · exact Or.inl rfl
        · exact Or.inr ⟨v, hv⟩

/-- The blocks in use, with their addresses and their units. -/
def usedBlocks : Nat → List Block → List (Nat × Nat)
  | _, [] => []
  | a, b :: rest => (if b.used then [(a, b.units)] else []) ++ usedBlocks (a + b.units * A) rest

@[simp] theorem usedBlocks_nil (a : Nat) : usedBlocks A a [] = [] :=
  rfl

@[simp] theorem usedBlocks_cons_used (a u : Nat) (rest : List Block) :
    usedBlocks A a (⟨u, true⟩ :: rest) = (a, u) :: usedBlocks A (a + u * A) rest :=
  rfl

@[simp] theorem usedBlocks_cons_free (a u : Nat) (rest : List Block) :
    usedBlocks A a (⟨u, false⟩ :: rest) = usedBlocks A (a + u * A) rest :=
  rfl

theorem usedBlocks_append (a : Nat) (L R : List Block) :
    usedBlocks A a (L ++ R) = usedBlocks A a L ++ usedBlocks A (stop A a L) R := by
  induction L generalizing a with
  | nil => simp
  | cons b rest ih => simp only [List.cons_append, usedBlocks, ih, stop_cons, List.append_assoc]

theorem mem_usedBlocks {a x u : Nat} {L : List Block} :
    (x, u) ∈ usedBlocks A a L ↔ (x, (⟨u, true⟩ : Block)) ∈ placed A a L := by
  induction L generalizing a with
  | nil => simp [placed]
  | cons b rest ih =>
    obtain ⟨v, used⟩ := b
    cases used with
    | false => simp [placed, ih]
    | true => simp [placed, ih]

theorem usedBlocks_map_fst (a : Nat) (L : List Block) :
    (usedBlocks A a L).map Prod.fst = useds A a L := by
  induction L generalizing a with
  | nil => rfl
  | cons b rest ih =>
    obtain ⟨v, used⟩ := b
    cases used with
    | false => exact ih _
    | true => exact congrArg (List.cons a) (ih _)

theorem usedUnits_of_useds_nil {a : Nat} {L : List Block} (h : useds A a L = []) :
    usedUnits L = 0 := by
  induction L generalizing a with
  | nil => rfl
  | cons b rest ih =>
    obtain ⟨u, used⟩ := b
    cases used with
    | true => cases h
    | false =>
      rw [usedUnits_cons, ih h]
      rfl

/-- The blocks in use at other addresses than `x` stay where they are. -/
def Kept (a x : Nat) (L L' : List Block) : Prop :=
  ∀ y u, (y, (⟨u, true⟩ : Block)) ∈ placed A a L → y ≠ x → (y, (⟨u, true⟩ : Block)) ∈ placed A a L'

theorem Kept.trans {a x : Nat} {L M N : List Block} (h : Kept A a x L M) (h' : Kept A a x M N) :
    Kept A a x L N :=
  fun y u hy hne => h' y u (h y u hy hne) hne

/-- One block is exchanged for blocks of the same length. -/
theorem kept_exchange {b : Block} {G : List Block} (a : Nat) (L R : List Block)
    (hunits : units G = b.units) : Kept A a (stop A a L) (L ++ b :: R) (L ++ G ++ R) := by
  intro y u hy hne
  have hend : stop A a (L ++ G) = stop A a L + b.units * A := by
    rw [stop_append, stop, hunits]
  rw [placed_append, List.mem_append, hend]
  rw [placed_append, List.mem_append] at hy
  rcases hy with hL | hR
  · left
    rw [placed_append, List.mem_append]
    exact Or.inl hL
  · rcases List.mem_cons.mp hR with hb | hR
    · exact absurd (congrArg Prod.fst hb) hne
    · exact Or.inr hR

/-- No block starts inside another one. -/
theorem placed_ne_inside {a x y k : Nat} {b c : Block} {L : List Block} (hA : 0 < A)
    (hx : (x, b) ∈ placed A a L) (hy : (y, c) ∈ placed A a L) (hc : 0 < c.units) (hne : y ≠ x)
    (hk : k < b.units) : y ≠ x + k * A := by
  have hlt : k * A < b.units * A := Nat.mul_lt_mul_of_pos_right hk hA
  have hpos : 0 < c.units * A := Nat.mul_pos hc hA
  rcases placed_apart A hx hy with ⟨heq, _⟩ | hapart | hapart
  · exact absurd heq.symm hne
  · omega
  · omega

/-- The blocks in the order of their addresses. -/
theorem placed_sorted {a : Nat} {L : List Block} (hA : 0 < A) (hpos : ∀ b ∈ L, 0 < b.units) :
    ((placed A a L).map Prod.fst).Pairwise (· < ·) := by
  induction L generalizing a with
  | nil => exact List.Pairwise.nil
  | cons b rest ih =>
    rw [placed, List.map_cons, List.pairwise_cons]
    refine ⟨?_, ih fun c hc => hpos c (List.mem_cons_of_mem _ hc)⟩
    intro x hx
    obtain ⟨⟨y, c⟩, hy, rfl⟩ := List.mem_map.mp hx
    have hle := (mem_placed_bounds A hy).1
    have hb : 0 < b.units * A := Nat.mul_pos (hpos b List.mem_cons_self) hA
    change a < y
    omega

theorem frees_sublist (a : Nat) (L : List Block) :
    (frees A a L).Sublist ((placed A a L).map Prod.fst) := by
  induction L generalizing a with
  | nil => exact List.Sublist.slnil
  | cons b rest ih =>
    obtain ⟨u, used⟩ := b
    cases used with
    | true => exact (ih _).cons _
    | false => exact (ih _).cons_cons _

theorem useds_sublist (a : Nat) (L : List Block) :
    (useds A a L).Sublist ((placed A a L).map Prod.fst) := by
  induction L generalizing a with
  | nil => exact List.Sublist.slnil
  | cons b rest ih =>
    obtain ⟨u, used⟩ := b
    cases used with
    | true => exact (ih _).cons_cons _
    | false => exact (ih _).cons _

theorem frees_sorted {a : Nat} {L : List Block} (hA : 0 < A) (hpos : ∀ b ∈ L, 0 < b.units) :
    (frees A a L).Pairwise (· < ·) :=
  (placed_sorted A hA hpos).sublist (frees_sublist A a L)

theorem useds_nodup {a : Nat} {L : List Block} (hA : 0 < A) (hpos : ∀ b ∈ L, 0 < b.units) :
    (useds A a L).Nodup :=
  ((placed_sorted A hA hpos).sublist (useds_sublist A a L)).imp Nat.ne_of_lt

theorem length_frees_le (a : Nat) {L : List Block} (hpos : ∀ b ∈ L, 0 < b.units) :
    (frees A a L).length ≤ units L := by
  induction L generalizing a with
  | nil => exact Nat.le_refl 0
  | cons b rest ih =>
    have hrest := ih (a + b.units * A) fun c hc => hpos c (List.mem_cons_of_mem _ hc)
    have hb := hpos b List.mem_cons_self
    rw [frees, List.length_append, units_cons]
    have hone : (if b.used then ([] : List Nat) else [a]).length ≤ 1 := by
      split <;> simp
    omega

/-- Of two neighbours one is in use. -/
def Coalesced (L : List Block) : Prop :=
  L.IsChain fun p b => p.used = true ∨ b.used = true

/-- A free block between blocks in use. -/
theorem coalesced_free {w : Nat} {L R : List Block} (hL : Coalesced L) (hR : Coalesced R)
    (hlast : ∀ l ∈ L.getLast?, l.used = true) (hhead : ∀ r ∈ R.head?, r.used = true) :
    Coalesced (L ++ [⟨w, false⟩] ++ R) := by
  rw [List.append_assoc, Coalesced, List.isChain_append]
  refine ⟨hL, ?_, ?_⟩
  · rw [List.singleton_append, List.isChain_cons]
    exact ⟨fun r hr => Or.inr (hhead r hr), hR⟩
  · intro l hl _ _
    exact Or.inl (hlast l hl)

/-- A block in use between coalesced blocks. -/
theorem coalesced_used {w : Nat} {L R : List Block} (hL : Coalesced L) (hR : Coalesced R) :
    Coalesced (L ++ ⟨w, true⟩ :: R) := by
  rw [Coalesced, List.isChain_append]
  refine ⟨hL, ?_, ?_⟩
  · rw [List.isChain_cons]
    exact ⟨fun _ _ => Or.inl rfl, hR⟩
  · intro _ _ r hr
    cases hr
    exact Or.inr rfl

theorem Coalesced.left {L R : List Block} (h : Coalesced (L ++ R)) : Coalesced L :=
  (List.isChain_append.mp h).1

theorem Coalesced.right {L R : List Block} (h : Coalesced (L ++ R)) : Coalesced R :=
  (List.isChain_append.mp h).2.1

theorem Coalesced.tail {b : Block} {R : List Block} (h : Coalesced (b :: R)) : Coalesced R :=
  (List.isChain_cons.mp h).2

/-- The size of the first block does not matter. -/
theorem Coalesced.resize {u v : Nat} {used : Bool} {R : List Block}
    (h : Coalesced (⟨u, used⟩ :: R)) : Coalesced (⟨v, used⟩ :: R) := by
  rw [Coalesced, List.isChain_cons] at h ⊢
  exact h

section Used

variable {G : List Block} (hG : ∀ b ∈ G, b.used = true)

include hG

theorem frees_of_used (a : Nat) : frees A a G = [] := by
  induction G generalizing a with
  | nil => rfl
  | cons b G ih =>
    rw [frees, hG b List.mem_cons_self, if_pos rfl, List.nil_append]
    exact ih (fun c hc => hG c (List.mem_cons_of_mem b hc)) _

theorem usedUnits_of_used : usedUnits G = units G := by
  induction G with
  | nil => rfl
  | cons b G ih =>
    rw [usedUnits_cons, units_cons, hG b List.mem_cons_self, if_pos rfl,
      ih fun c hc => hG c (List.mem_cons_of_mem b hc)]

theorem Coalesced.used_append {R : List Block} (hR : Coalesced R) : Coalesced (G ++ R) := by
  induction G with
  | nil => exact hR
  | cons b G ih =>
    rw [List.cons_append, Coalesced, List.isChain_cons]
    exact ⟨fun _ _ => Or.inl (hG b List.mem_cons_self),
      ih fun c hc => hG c (List.mem_cons_of_mem b hc)⟩

end Used

/-- Behind a free block stands a block in use. -/
theorem Coalesced.head_used {r : Nat} {L R : List Block} (h : Coalesced (L ++ ⟨r, false⟩ :: R)) :
    ∀ b ∈ R.head?, b.used = true := by
  intro b hb
  have hchain := (List.isChain_append.mp h).2.1
  rw [List.isChain_cons] at hchain
  rcases hchain.1 b hb with hused | hused
  · cases hused
  · exact hused

/-- In front of a free block stands a block in use. -/
theorem Coalesced.last_used {r : Nat} {L R : List Block} (h : Coalesced (L ++ ⟨r, false⟩ :: R)) :
    ∀ b ∈ L.getLast?, b.used = true := by
  intro b hb
  rcases (List.isChain_append.mp h).2.2 b hb ⟨r, false⟩ rfl with hused | hused
  · exact hused
  · cases hused

/-- No free block starts where another one ends. -/
theorem Coalesced.frees_apart {a x y u : Nat} {L : List Block} (h : Coalesced L) (hA : 0 < A)
    (hpos : ∀ b ∈ L, 0 < b.units) (hx : (x, (⟨u, false⟩ : Block)) ∈ placed A a L)
    (hy : y ∈ frees A a L) : x + u * A ≠ y := by
  obtain ⟨L₁, L₂, rfl, rfl⟩ := exists_of_mem_placed A hx
  obtain ⟨v, hv⟩ := (mem_frees A).mp hy
  intro heq
  have hu : 0 < u * A := Nat.mul_pos (hpos ⟨u, false⟩ (by simp)) hA
  rw [placed_append, List.mem_append] at hv
  rcases hv with hv | hv
  · have hle := (mem_placed_bounds A hv).2
    have hpos' : 0 < v * A := Nat.mul_pos (hpos ⟨v, false⟩ (by simp [mem_of_mem_placed A hv])) hA
    change y + v * A ≤ _ at hle
    omega
  · rcases List.mem_cons.mp hv with hv | hv
    · cases hv
      omega
    · cases L₂ with
      | nil => cases hv
      | cons c rest =>
        rcases List.mem_cons.mp hv with hv | hv
        · cases hv
          have hsep := (List.isChain_append.mp h).2.1
          rcases (List.isChain_cons_cons.mp hsep).1 with hsep | hsep <;> cases hsep
        · have hle := (mem_placed_bounds A hv).1
          have hc : 0 < c.units * A := Nat.mul_pos (hpos c (by simp)) hA
          change stop A a L₁ + u * A + c.units * A ≤ y at hle
          omega

/-- A relation between each block, its address and the block in front of it. -/
def Linked (R : Nat → Block → Block → Prop) : Nat → Block → List Block → Prop
  | _, _, [] => True
  | a, p, b :: rest => R a p b ∧ Linked R (a + b.units * A) b rest

variable {A}

@[simp] theorem linked_nil {R : Nat → Block → Block → Prop} (a : Nat) (p : Block) :
    Linked A R a p [] :=
  trivial

@[simp] theorem linked_cons {R : Nat → Block → Block → Prop} {a : Nat} {p b : Block}
    {rest : List Block} :
    Linked A R a p (b :: rest) ↔ R a p b ∧ Linked A R (a + b.units * A) b rest :=
  Iff.rfl

theorem linked_append {R : Nat → Block → Block → Prop} {a : Nat} {p : Block} {L M : List Block} :
    Linked A R a p (L ++ M) ↔ Linked A R a p L ∧ Linked A R (stop A a L) (last p L) M := by
  induction L generalizing a p with
  | nil => simp
  | cons b rest ih => simp only [List.cons_append, linked_cons, ih, and_assoc, stop_cons, last_cons]

theorem Linked.imp {R R' : Nat → Block → Block → Prop} {a : Nat} {p : Block} {L : List Block}
    (h : Linked A R a p L) (himp : ∀ x q b, (x, b) ∈ placed A a L → R x q b → R' x q b) :
    Linked A R' a p L := by
  induction L generalizing a p with
  | nil => trivial
  | cons b rest ih =>
    refine ⟨himp a p b List.mem_cons_self h.1, ih h.2 ?_⟩
    intro x q c hc
    exact himp x q c (List.mem_cons_of_mem _ hc)

end Tiling
