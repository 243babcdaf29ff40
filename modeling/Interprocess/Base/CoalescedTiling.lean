import Interprocess.Base.Tiling

namespace Tiling

variable {A a : Nat} {L L' : List Block}

/-- The blocks in use in the order of their addresses. -/
theorem usedBlocks_sorted (hA : 0 < A) (hpos : ∀ b ∈ L, 0 < b.units) :
    (usedBlocks A a L).Pairwise fun p q => p.1 < q.1 := by
  have hsorted := (placed_sorted A (a := a) hA hpos).sublist (useds_sublist A a L)
  rw [← usedBlocks_map_fst, List.pairwise_map] at hsorted
  exact hsorted

theorem usedBlocks_eq_of_perm (hA : 0 < A) (hpos : ∀ b ∈ L, 0 < b.units)
    (hpos' : ∀ b ∈ L', 0 < b.units) (hperm : (usedBlocks A a L).Perm (usedBlocks A a L')) :
    usedBlocks A a L = usedBlocks A a L' := by
  refine List.Perm.eq_of_pairwise ?_ (usedBlocks_sorted hA hpos) (usedBlocks_sorted hA hpos') hperm
  exact fun p q _ _ hpq hqp => absurd hpq (Nat.lt_asymm hqp)

theorem usedBlocks_bounds {x u : Nat} (hx : (x, u) ∈ usedBlocks A a L) :
    a ≤ x ∧ x + u * A ≤ stop A a L :=
  mem_placed_bounds A ((mem_usedBlocks A).mp hx)

/-- Coalesced blocks behind a free one: none, or one in use first. -/
theorem Coalesced.behind_free {u : Nat} (hcoalesced : Coalesced (⟨u, false⟩ :: L)) :
    L = [] ∨ ∃ v R, L = ⟨v, true⟩ :: R := by
  cases L with
  | nil => exact Or.inl rfl
  | cons b R =>
    obtain ⟨v, used⟩ := b
    have hneighbours := (List.isChain_cons_cons.mp hcoalesced).1
    cases used with
    | true => exact Or.inr ⟨v, R, rfl⟩
    | false => rcases hneighbours with hfree | hfree <;> cases hfree

/-- A free block in front takes all units up to the first block in use. -/
theorem Coalesced.free_units_eq {u v : Nat} (hA : 0 < A) (hunits : u + units L = v + units L')
    (hcoalesced : Coalesced (⟨u, false⟩ :: L)) (hcoalesced' : Coalesced (⟨v, false⟩ :: L'))
    (hused : usedBlocks A (a + u * A) L = usedBlocks A (a + v * A) L') : u = v := by
  rcases hcoalesced.behind_free with rfl | ⟨w, R, rfl⟩
  · rcases hcoalesced'.behind_free with rfl | ⟨w', R', rfl⟩
    · simpa using hunits
    · rw [usedBlocks_nil, usedBlocks_cons_used] at hused
      cases hused
  · rcases hcoalesced'.behind_free with rfl | ⟨w', R', rfl⟩
    · rw [usedBlocks_nil, usedBlocks_cons_used] at hused
      cases hused
    · rw [usedBlocks_cons_used, usedBlocks_cons_used] at hused
      have hhead : a + u * A = a + v * A := congrArg Prod.fst (List.cons.inj hused).1
      exact Nat.eq_of_mul_eq_mul_right hA (Nat.add_left_cancel hhead)

/-- Coalesced blocks are determined by those in use and the units of all. -/
theorem Coalesced.eq_of_usedBlocks (hA : 0 < A) (hcoalesced : Coalesced L)
    (hcoalesced' : Coalesced L') (hpos : ∀ b ∈ L, 0 < b.units) (hpos' : ∀ b ∈ L', 0 < b.units)
    (hunits : units L = units L') (hused : usedBlocks A a L = usedBlocks A a L') : L = L' := by
  induction L generalizing a L' with
  | nil =>
    cases L' with
    | nil => rfl
    | cons c rest' =>
      have hc := hpos' c List.mem_cons_self
      rw [units_nil, units_cons] at hunits
      omega
  | cons b rest ih =>
    obtain ⟨u, used⟩ := b
    have hu : 0 < u := hpos _ List.mem_cons_self
    cases L' with
    | nil =>
      rw [units_nil, units_cons] at hunits
      exact absurd hunits (Nat.ne_of_gt (Nat.add_pos_left hu _))
    | cons c rest' =>
      obtain ⟨v, used'⟩ := c
      have hv : 0 < v := hpos' _ List.mem_cons_self
      have hrest := ih (a := a + u * A) hcoalesced.tail hcoalesced'.tail
        (fun b hb => hpos b (List.mem_cons_of_mem _ hb))
        fun b hb => hpos' b (List.mem_cons_of_mem _ hb)
      rw [units_cons, units_cons] at hunits
      change u + units rest = v + units rest' at hunits
      have hua : 0 < u * A := Nat.mul_pos hu hA
      have hva : 0 < v * A := Nat.mul_pos hv hA
      cases used with
      | true =>
        rw [usedBlocks_cons_used] at hused
        cases used' with
        | true =>
          rw [usedBlocks_cons_used] at hused
          obtain ⟨hhead, htail⟩ := List.cons.inj hused
          obtain rfl : u = v := congrArg Prod.snd hhead
          rw [hrest (by omega) htail]
        | false =>
          have hmem : (a, u) ∈ usedBlocks A (a + v * A) rest' := by
            rw [usedBlocks_cons_free] at hused
            rw [← hused]
            exact List.mem_cons_self
          have hlow := (usedBlocks_bounds hmem).1
          omega
      | false =>
        rw [usedBlocks_cons_free] at hused
        cases used' with
        | true =>
          have hmem : (a, v) ∈ usedBlocks A (a + u * A) rest := by
            rw [usedBlocks_cons_used] at hused
            rw [hused]
            exact List.mem_cons_self
          have hlow := (usedBlocks_bounds hmem).1
          omega
        | false =>
          rw [usedBlocks_cons_free] at hused
          obtain rfl : u = v := hcoalesced.free_units_eq hA hunits hcoalesced' hused
          rw [hrest (by omega) hused]

end Tiling
