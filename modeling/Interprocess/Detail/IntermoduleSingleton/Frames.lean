import Interprocess.Detail.IntermoduleSingleton.Lives

open Count

namespace interprocess.ipcdetail.intermodule_singleton

variable {τ ι μ ν : Type} [DecidableEq τ] [DecidableEq ι]

namespace Instances

variable {place : τ → Option (ι × Place)} {state state' : ι → Word} {ptr ptr' : ι → Option Nat}
  {life : ι → Life τ} {t : τ} {i : ι} {p : Place} {next : Option (ι × Place)} {stage : Life τ}

/-- One thread moves and one instance enters a new stage. The conditions are on
    that thread, on that instance and on the other threads at it. -/
theorem update (h : Instances place state ptr life)
    (hstate : ∀ j, j ≠ i → state' j = state j) (hptr : ∀ j, j ≠ i → ptr' j = ptr j)
    (hword : state' i = stage.word) (hpoints : stage.Points (ptr' i))
    (hplace : ∀ j q, place t = some (j, q) → j = i)
    (hnext : ∀ j q, next = some (j, q) → j = i ∧ (q.holds = true → stage = .held t q) ∧
      (q = .returning → ∃ k, stage = .ready k) ∧ q ≠ .undefined)
    (hstage : ∀ u q, stage = .held u q → u = t ∧ next = some (i, q) ∧ q.holds = true)
    (hothers : ∀ u q, u ≠ t → place u = some (i, q) →
      q.holds = false ∧ (q = .returning → ∃ k, stage = .ready k)) :
    Instances (Function.update place t next) state' ptr' (Function.update life i stage) := by
  constructor
  · intro j
    by_cases hj : j = i
    · rw [hj, Function.update_self, hword]
    · rw [hstate j hj, Function.update_of_ne hj, h.word j]
  · intro j
    by_cases hj : j = i
    · rw [hj, Function.update_self]
      exact hpoints
    · rw [hptr j hj, Function.update_of_ne hj]
      exact h.points j
  · intro u j q hu hq
    by_cases hut : u = t
    · rw [hut, Function.update_self] at hu
      obtain ⟨rfl, hheld, -, -⟩ := hnext j q hu
      rw [Function.update_self, hheld hq, hut]
    · rw [Function.update_of_ne hut] at hu
      by_cases hj : j = i
      · rw [hj] at hu
        rw [(hothers u q hut hu).1] at hq
        cases hq
      · rw [Function.update_of_ne hj]
        exact h.holder u j q hu hq
  · intro j u q hj
    by_cases hji : j = i
    · rw [hji, Function.update_self] at hj
      obtain ⟨rfl, hnext', hq⟩ := hstage u q hj
      rw [Function.update_self, hji]
      exact ⟨hnext', hq⟩
    · rw [Function.update_of_ne hji] at hj
      obtain ⟨hu, hq⟩ := h.held j u q hj
      have hut : u ≠ t := by
        intro hut
        rw [hut] at hu
        exact hji (hplace j q hu)
      rw [Function.update_of_ne hut]
      exact ⟨hu, hq⟩
  · intro u j hu
    by_cases hut : u = t
    · rw [hut, Function.update_self] at hu
      obtain ⟨rfl, -, hready, -⟩ := hnext j _ hu
      rw [Function.update_self]
      exact hready rfl
    · rw [Function.update_of_ne hut] at hu
      by_cases hj : j = i
      · rw [hj] at hu ⊢
        rw [Function.update_self]
        exact (hothers u _ hut hu).2 rfl
      · rw [Function.update_of_ne hj]
        exact h.returning u j hu
  · intro u j hu
    by_cases hut : u = t
    · rw [hut, Function.update_self] at hu
      exact (hnext j _ hu).2.2.2 rfl
    · rw [Function.update_of_ne hut] at hu
      exact h.defined u j hu

omit [DecidableEq τ] [DecidableEq ι] in
/-- While a thread has the instance for itself, the others are elsewhere in it. -/
theorem others_of_held (h : Instances place state ptr life) (hlife : life i = .held t p) (u : τ) (q : Place)
    (hu : u ≠ t) (hplace : place u = some (i, q)) :
    q.holds = false ∧ (q = .returning → ∃ k, stage = .ready k) := by
  constructor
  · by_contra hq
    have hother := h.holder u i q hplace (by simpa using hq)
    rw [hlife] at hother
    cases hother
    exact hu rfl
  · intro hq
    rw [hq] at hplace
    obtain ⟨k, hk⟩ := h.returning u i hplace
    rw [hlife] at hk
    cases hk

/-- The thread that has the instance for itself takes it to a new stage. -/
theorem own (h : Instances place state ptr life) (hplace : place t = some (i, p)) (hp : p.holds = true)
    (hstate : ∀ j, j ≠ i → state' j = state j) (hptr : ∀ j, j ≠ i → ptr' j = ptr j)
    (hword : state' i = stage.word) (hpoints : stage.Points (ptr' i))
    (hnext : ∀ j q, next = some (j, q) → j = i ∧ (q.holds = true → stage = .held t q) ∧
      (q = .returning → ∃ k, stage = .ready k) ∧ q ≠ .undefined)
    (hstage : ∀ u q, stage = .held u q → u = t ∧ next = some (i, q) ∧ q.holds = true) :
    Instances (Function.update place t next) state' ptr' (Function.update life i stage) := by
  refine h.update hstate hptr hword hpoints ?_ hnext hstage
    (h.others_of_held (h.holder t i p hplace hp))
  intro j q hq
  rw [hplace] at hq
  cases hq
  rfl

/-- The thread that has the instance for itself goes on to a place of its own. -/
theorem advance {q : Place} (h : Instances place state ptr life) (hplace : place t = some (i, p))
    (hp : p.holds = true) (hq : q.holds = true) (hstate : ∀ j, j ≠ i → state' j = state j)
    (hptr : ∀ j, j ≠ i → ptr' j = ptr j) (hword : state' i = (Life.held t q).word)
    (hpoints : (Life.held t q).Points (ptr' i)) :
    Instances (Function.update place t (some (i, q))) state' ptr'
      (Function.update life i (.held t q)) := by
  refine h.own hplace hp hstate hptr hword hpoints ?_ ?_
  · intro j q' hq'
    cases hq'
    refine ⟨rfl, fun _ => rfl, ?_, ?_⟩
    · rintro rfl
      cases hq
    · rintro rfl
      cases hq
  · intro u q' hq'
    cases hq'
    exact ⟨rfl, rfl, hq⟩

omit [DecidableEq ι] in
/-- A thread that has no instance for itself moves. -/
theorem roam (h : Instances place state ptr life) (hplace : ∀ j q, place t = some (j, q) → q.holds = false)
    (hnext : ∀ j q, next = some (j, q) → q.holds = false ∧ (q = .returning → ∃ k, life j = .ready k) ∧
      q ≠ .undefined) :
    Instances (Function.update place t next) state ptr life := by
  refine ⟨h.word, h.points, ?_, ?_, ?_, ?_⟩
  · intro u j q hu hq
    by_cases hut : u = t
    · rw [hut, Function.update_self] at hu
      rw [(hnext j q hu).1] at hq
      cases hq
    · rw [Function.update_of_ne hut] at hu
      exact h.holder u j q hu hq
  · intro j u q hj
    obtain ⟨hu, hq⟩ := h.held j u q hj
    have hut : u ≠ t := by
      rintro rfl
      rw [hplace j q hu] at hq
      cases hq
    rw [Function.update_of_ne hut]
    exact ⟨hu, hq⟩
  · intro u j hu
    by_cases hut : u = t
    · rw [hut, Function.update_self] at hu
      exact (hnext j _ hu).2.1 rfl
    · rw [Function.update_of_ne hut] at hu
      exact h.returning u j hu
  · intro u j hu
    by_cases hut : u = t
    · rw [hut, Function.update_self] at hu
      exact (hnext j _ hu).2.2 rfl
    · rw [Function.update_of_ne hut] at hu
      exact h.defined u j hu

end Instances

omit [DecidableEq τ] in
/-- Reading a property off the stages commutes with entering a new stage. -/
theorem read_update {β : Type} (f : Life τ → β) (life : ι → Life τ) (i : ι) (stage : Life τ) :
    (fun j => f (Function.update life i stage j)) = Function.update (fun j => f (life j)) i (f stage) := by
  funext j
  by_cases hj : j = i
  · rw [hj, Function.update_self, Function.update_self]
  · rw [Function.update_of_ne hj, Function.update_of_ne hj]

namespace Maps

variable {c : Config ι μ ν} {place : τ → Option (ι × Place)} {state state' : μ → Word}
  {mem mem' : μ → Bool} {uses uses' : ι → Bool} {life : μ → MapLife τ} {t : τ} {m : μ}
  {next : Option (ι × Place)} {stage : MapLife τ}

omit [DecidableEq ι] in
/-- A thread that has no map for itself moves. -/
theorem roam (h : Maps c place state mem uses life)
    (hplace : ∀ j q, place t = some (j, q) → q.holds_map = false)
    (hnext : ∀ j q, next = some (j, q) → q.holds_map = false)
    (huses : ∀ j, uses' j = true → life (c.module j) = .up) :
    Maps c (Function.update place t next) state mem uses' life := by
  refine ⟨h.word, h.mem, ?_, ?_, huses⟩
  · intro u j q hu hq
    by_cases hut : u = t
    · rw [hut, Function.update_self] at hu
      rw [hnext j q hu] at hq
      cases hq
    · rw [Function.update_of_ne hut] at hu
      exact h.holder u j q hu hq
  · intro m u q hm
    obtain ⟨hq, j, hj, hu⟩ := h.held m u q hm
    have hut : u ≠ t := by
      rintro rfl
      rw [hplace j q hu] at hq
      cases hq
    exact ⟨hq, j, hj, by rw [Function.update_of_ne hut, hu]⟩

omit [DecidableEq ι] in
/-- One thread moves and the map of one module enters a new stage. No other
    thread may have that map for itself. -/
theorem update [DecidableEq μ] (h : Maps c place state mem uses life)
    (hstate : ∀ m', m' ≠ m → state' m' = state m') (hmem : ∀ m', m' ≠ m → mem' m' = mem m')
    (hword : state' m = stage.word) (hexists : stage.Exists (mem' m))
    (hplace : ∀ j q, place t = some (j, q) → c.module j = m)
    (hnext : ∀ j q, next = some (j, q) → c.module j = m ∧ (q.holds_map = true → stage = .held t q))
    (hstage : ∀ u q, stage = .held u q → u = t ∧ q.holds_map = true ∧ ∃ j, c.module j = m ∧ next = some (j, q))
    (hothers : ∀ u q, life m = .held u q → u = t)
    (huses : ∀ j, uses' j = true → (c.module j = m → stage = .up) ∧ (c.module j ≠ m → uses j = true)) :
    Maps c (Function.update place t next) state' mem' uses' (Function.update life m stage) := by
  constructor
  · intro m'
    by_cases hm : m' = m
    · rw [hm, Function.update_self, hword]
    · rw [hstate m' hm, Function.update_of_ne hm, h.word m']
  · intro m'
    by_cases hm : m' = m
    · rw [hm, Function.update_self]
      exact hexists
    · rw [hmem m' hm, Function.update_of_ne hm]
      exact h.mem m'
  · intro u j q hu hq
    by_cases hut : u = t
    · rw [hut, Function.update_self] at hu
      obtain ⟨hj, hheld⟩ := hnext j q hu
      rw [hj, Function.update_self, hheld hq, hut]
    · rw [Function.update_of_ne hut] at hu
      have hheld := h.holder u j q hu hq
      have hj : c.module j ≠ m := by
        intro hj
        rw [hj] at hheld
        exact hut (hothers u q hheld)
      rw [Function.update_of_ne hj, hheld]
  · intro m' u q hm'
    by_cases hm : m' = m
    · rw [hm, Function.update_self] at hm'
      obtain ⟨rfl, hq, j, hj, hnext'⟩ := hstage u q hm'
      exact ⟨hq, j, by rw [hj, hm], by rw [Function.update_self, hnext']⟩
    · rw [Function.update_of_ne hm] at hm'
      obtain ⟨hq, j, hj, hu⟩ := h.held m' u q hm'
      have hut : u ≠ t := by
        intro hut
        rw [hut] at hu
        exact hm (hj.symm.trans (hplace j q hu))
      exact ⟨hq, j, hj, by rw [Function.update_of_ne hut, hu]⟩
  · intro j hj
    by_cases hm : c.module j = m
    · rw [hm, Function.update_self, (huses j hj).1 hm]
    · rw [Function.update_of_ne hm, h.uses j ((huses j hj).2 hm)]

end Maps

namespace Entries

variable [Fintype ι] [DecidableEq ν] {c : Config ι μ ν} {attached : ι → Option Nat}
  {entry : ν → Option ref_count_ptr} {living : ν → Finset Nat} {i : ι}

/-- The number of attached instances with an instance set apart. -/
theorem refs_update (h : Entries c attached entry living) (i : ι) (a : Option Nat) (n : ν) :
    tally (fun i a => (decide (c.name i = n) && a.isSome).toNat) (Function.update attached i a) +
        (decide (c.name i = n) && (attached i).isSome).toNat =
      (entry n).elim 0 ref_count_ptr.singleton_ref_count + (decide (c.name i = n) && a.isSome).toNat := by
  rw [← h.refs n]
  exact tally_update _ attached i a

/-- The first instance attaches to a new object. -/
theorem attach_new (h : Entries c attached entry living) (hi : attached i = none)
    (hentry : entry (c.name i) = none) (k : Nat) :
    Entries c (Function.update attached i (some k)) (Function.update entry (c.name i) (some ⟨k, 1⟩))
      (Function.update living (c.name i) (insert k (living (c.name i)))) := by
  constructor
  · intro j a hj
    by_cases hji : j = i
    · rw [hji, Function.update_self] at hj
      cases hj
      rw [hji, Function.update_self]
      exact ⟨_, rfl, rfl⟩
    · rw [Function.update_of_ne hji] at hj
      obtain ⟨r, hr, hptr⟩ := h.object j a hj
      have hname : c.name j ≠ c.name i := by
        intro hname
        rw [hname, hentry] at hr
        cases hr
      exact ⟨r, by rw [Function.update_of_ne hname, hr], hptr⟩
  · intro n
    have hupdate := h.refs_update i (some k) n
    rw [hi] at hupdate
    by_cases hn : n = c.name i
    · subst hn
      rw [Function.update_self]
      simpa [hentry] using hupdate
    · rw [Function.update_of_ne hn]
      simpa [Ne.symm hn] using hupdate
  · intro n r hr
    by_cases hn : n = c.name i
    · rw [hn, Function.update_self] at hr
      cases hr
      exact Nat.one_pos
    · rw [Function.update_of_ne hn] at hr
      exact h.pos n r hr
  · intro n
    by_cases hn : n = c.name i
    · rw [hn, Function.update_self, Function.update_self, h.living, hentry]
      rfl
    · rw [Function.update_of_ne hn, Function.update_of_ne hn, h.living]

/-- Another instance attaches to the object of the entry. -/
theorem attach (h : Entries c attached entry living) (hi : attached i = none) {r : ref_count_ptr}
    (hentry : entry (c.name i) = some r) :
    Entries c (Function.update attached i (some r.ptr))
      (Function.update entry (c.name i) (some ⟨r.ptr, r.singleton_ref_count + 1⟩)) living := by
  constructor
  · intro j a hj
    by_cases hji : j = i
    · rw [hji, Function.update_self] at hj
      cases hj
      rw [hji, Function.update_self]
      exact ⟨_, rfl, rfl⟩
    · rw [Function.update_of_ne hji] at hj
      obtain ⟨r', hr', hptr⟩ := h.object j a hj
      by_cases hname : c.name j = c.name i
      · rw [hname, hentry] at hr'
        cases hr'
        rw [hname, Function.update_self]
        exact ⟨_, rfl, hptr⟩
      · exact ⟨r', by rw [Function.update_of_ne hname, hr'], hptr⟩
  · intro n
    have hupdate := h.refs_update i (some r.ptr) n
    rw [hi] at hupdate
    by_cases hn : n = c.name i
    · subst hn
      rw [Function.update_self]
      simpa [hentry] using hupdate
    · rw [Function.update_of_ne hn]
      simpa [Ne.symm hn] using hupdate
  · intro n r' hr'
    by_cases hn : n = c.name i
    · rw [hn, Function.update_self] at hr'
      cases hr'
      exact Nat.succ_pos _
    · rw [Function.update_of_ne hn] at hr'
      exact h.pos n r' hr'
  · intro n
    by_cases hn : n = c.name i
    · rw [hn, Function.update_self, h.living, hentry]
      rfl
    · rw [Function.update_of_ne hn, h.living]

/-- An instance leaves an object that others are attached to. -/
theorem detach (h : Entries c attached entry living) {k : Nat} (hi : attached i = some k)
    {r : ref_count_ptr} (hentry : entry (c.name i) = some r) (hr : r.singleton_ref_count ≠ 1) :
    Entries c (Function.update attached i none)
      (Function.update entry (c.name i) (some ⟨r.ptr, r.singleton_ref_count - 1⟩)) living := by
  have hpos := h.pos _ r hentry
  constructor
  · intro j a hj
    by_cases hji : j = i
    · rw [hji, Function.update_self] at hj
      cases hj
    · rw [Function.update_of_ne hji] at hj
      obtain ⟨r', hr', hptr⟩ := h.object j a hj
      by_cases hname : c.name j = c.name i
      · rw [hname, hentry] at hr'
        cases hr'
        rw [hname, Function.update_self]
        exact ⟨_, rfl, hptr⟩
      · exact ⟨r', by rw [Function.update_of_ne hname, hr'], hptr⟩
  · intro n
    have hupdate := h.refs_update i none n
    rw [hi] at hupdate
    by_cases hn : n = c.name i
    · subst hn
      rw [Function.update_self]
      simp only [hentry, decide_true, Option.isSome_some, Option.isSome_none, Bool.and_true,
        Bool.and_false, Bool.toNat_true, Bool.toNat_false, Option.elim_some] at hupdate ⊢
      omega
    · rw [Function.update_of_ne hn]
      simpa [Ne.symm hn] using hupdate
  · intro n r' hr'
    by_cases hn : n = c.name i
    · rw [hn, Function.update_self] at hr'
      cases hr'
      show 0 < r.singleton_ref_count - 1
      omega
    · rw [Function.update_of_ne hn] at hr'
      exact h.pos n r' hr'
  · intro n
    by_cases hn : n = c.name i
    · rw [hn, Function.update_self, h.living, hentry]
      rfl
    · rw [Function.update_of_ne hn, h.living]

/-- The last attached instance leaves, and the object goes. -/
theorem detach_last (h : Entries c attached entry living) {k : Nat} (hi : attached i = some k)
    {r : ref_count_ptr} (hentry : entry (c.name i) = some r) (hr : r.singleton_ref_count = 1) :
    Entries c (Function.update attached i none) (Function.update entry (c.name i) none)
      (Function.update living (c.name i) ((living (c.name i)).erase r.ptr)) := by
  have hnone : tally (fun j a => (decide (c.name j = c.name i) && a.isSome).toNat)
      (Function.update attached i none) = 0 := by
    have hupdate := h.refs_update i none (c.name i)
    rw [hi, hentry] at hupdate
    simp only [decide_true, Option.isSome_some, Option.isSome_none, Bool.and_true,
      Bool.and_false, Bool.toNat_true, Bool.toNat_false, Option.elim_some, hr] at hupdate
    omega
  constructor
  · intro j a hj
    have hname : c.name j ≠ c.name i := by
      intro hname
      have hweight := weight_le_tally (fun j a => (decide (c.name j = c.name i) && a.isSome).toNat)
        (Function.update attached i none) j
      rw [hnone, hj] at hweight
      simp [hname] at hweight
    have hji : j ≠ i := fun hji => hname (by rw [hji])
    rw [Function.update_of_ne hji] at hj
    rw [Function.update_of_ne hname]
    exact h.object j a hj
  · intro n
    by_cases hn : n = c.name i
    · rw [hn, Function.update_self, hnone]
      rfl
    · have hupdate := h.refs_update i none n
      rw [Function.update_of_ne hn]
      simpa [Ne.symm hn] using hupdate
  · intro n r' hr'
    by_cases hn : n = c.name i
    · rw [hn, Function.update_self] at hr'
      cases hr'
    · rw [Function.update_of_ne hn] at hr'
      exact h.pos n r' hr'
  · intro n
    by_cases hn : n = c.name i
    · rw [hn, Function.update_self, Function.update_self, h.living, hentry]
      simp
    · rw [Function.update_of_ne hn, Function.update_of_ne hn, h.living]

end Entries

section Counts

variable [Fintype τ] [Fintype ι] [DecidableEq μ] {c : Config ι μ ν} {place : τ → Option (ι × Place)}
  {counted : ι → Bool} {number number' : μ → Nat}

/-- A thread moves, an instance is counted or not any more, and the number of
    singletons follows. -/
theorem Counts.update (h : Counts c place counted number) (t : τ) (next : Option (ι × Place)) (i : ι)
    (b : Bool)
    (hnumber : ∀ m, number' m + (decide (c.module i = m) && counted i).toNat + (leaving c m (place t)).toNat =
      number m + (decide (c.module i = m) && b).toNat + (leaving c m next).toNat) :
    Counts c (Function.update place t next) (Function.update counted i b) number' := by
  intro m
  have hcounted := tally_update (fun i b => (decide (c.module i = m) && b).toNat) counted i b
  have hleaving := count_update (leaving c m) place t next
  have hbefore := h m
  have hafter := hnumber m
  omega

omit [DecidableEq ι] in
/-- A thread moves between places that the count does not see. -/
theorem Counts.roam (h : Counts c place counted number) (t : τ) (next : Option (ι × Place))
    (hplace : ∀ m, leaving c m next = leaving c m (place t)) :
    Counts c (Function.update place t next) counted number := by
  intro m
  have hleaving := count_update (leaving c m) place t next
  have hbefore := h m
  rw [hplace m] at hleaving
  omega

end Counts

end interprocess.ipcdetail.intermodule_singleton
