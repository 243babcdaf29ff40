import Interprocess.Base.Transition
import Interprocess.Sync.SyncHandles.Operations
import Mathlib.Tactic.Tauto

open Transition

namespace interprocess.sync_handles

variable {Id : Type} [DecidableEq Id] {s t u : State Id}

/-- The invariant of runs that use every id through one address at a time: the address
    map is up to date, and new handles are fresh. -/
structure Inv (s : State Id) : Prop where
  map_eq : s.map_ = s.registered
  single : ∀ a a' id, s.map_ a = some id → s.map_ a' = some id → a = a'
  fresh : ∀ hnd ∈ s.opened, hnd < s.next_handle
  next_pos : 0 < s.next_handle
  consistent : Consistent s

omit [DecidableEq Id] in
theorem inv_construct : Inv (State.construct : State Id) := by
  refine ⟨rfl, ?_, ?_, Nat.one_pos, ?_, ?_, ?_, ?_, ?_, rfl⟩
  · intro a a' id h
    cases h
  · intro hnd h
    exact absurd h (Finset.notMem_empty hnd)
  · intro a id h
    cases h
  · intro a id h
    cases h
  · intro hnd h
    exact absurd h (Finset.notMem_empty hnd)
  · intro id id' hnd h
    cases h
  · intro id hnd h
    cases h

omit [DecidableEq Id] in
/-- An id is open if and only if it is registered. -/
theorem Inv.umap_eq_none (hinv : Inv s) {id : Id} (hnone : ∀ a, s.registered a ≠ some id) :
    s.umap_ id = none := by
  cases hid : s.umap_ id with
  | none => rfl
  | some hnd =>
    obtain ⟨a, ha⟩ := hinv.consistent.named id hnd hid
    rw [hinv.map_eq] at ha
    exact absurd ha (hnone a)

omit [DecidableEq Id] in
theorem Inv.umap_eq_some (hinv : Inv s) {id : Id} {a : Nat} (ha : s.registered a = some id) :
    ∃ hnd ∈ s.opened, hnd ≠ 0 ∧ s.umap_ id = some hnd :=
  hinv.consistent.open_of_mapped a id (hinv.map_eq ▸ ha)

/-- Some handles were closed, each of them open and no longer in use, and nothing else
    changed. -/
structure Closes (s t : State Id) (closed : List Nat) : Prop where
  inv : Inv t
  nodup : closed.Nodup
  opened : ∀ hnd ∈ closed, hnd ∈ s.opened
  gone : ∀ hnd ∈ closed, hnd ∉ t.opened
  subset : t.opened ⊆ s.opened
  kept : ∀ id hnd, s.umap_ id = some hnd → hnd ∉ closed → t.umap_ id = some hnd
  unused : ∀ id hnd, s.umap_ id = some hnd → hnd ∈ closed → ∀ a, t.registered a ≠ some id
  registered_le : ∀ a id, t.registered a = some id → s.registered a = some id

omit [DecidableEq Id] in
theorem Closes.refl (hinv : Inv s) : Closes s s [] where
  inv := hinv
  nodup := List.nodup_nil
  opened := fun _ h => absurd h List.not_mem_nil
  gone := fun _ h => absurd h List.not_mem_nil
  subset := Finset.Subset.refl _
  kept := fun _ _ h _ => h
  unused := fun _ _ _ h => absurd h List.not_mem_nil
  registered_le := fun _ _ h => h

omit [DecidableEq Id] in
theorem Closes.trans {closed closed' : List Nat} (hfirst : Closes s t closed)
    (hsecond : Closes t u closed') : Closes s u (closed ++ closed') where
  inv := hsecond.inv
  nodup := by
    refine List.nodup_append.mpr ⟨hfirst.nodup, hsecond.nodup, ?_⟩
    rintro hnd hmem hnd' hmem' rfl
    exact hfirst.gone hnd hmem (hsecond.opened hnd hmem')
  opened := by
    intro hnd hmem
    rcases List.mem_append.mp hmem with hmem | hmem
    · exact hfirst.opened hnd hmem
    · exact hfirst.subset (hsecond.opened hnd hmem)
  gone := by
    intro hnd hmem hopened
    rcases List.mem_append.mp hmem with hmem | hmem
    · exact hfirst.gone hnd hmem (hsecond.subset hopened)
    · exact hsecond.gone hnd hmem hopened
  subset := hsecond.subset.trans hfirst.subset
  kept := by
    intro id hnd hid hnot
    obtain ⟨hnot₁, hnot₂⟩ := not_or.mp (mt List.mem_append.mpr hnot)
    exact hsecond.kept id hnd (hfirst.kept id hnd hid hnot₁) hnot₂
  unused := by
    intro id hnd hid hmem a ha
    by_cases hmem₁ : hnd ∈ closed
    · exact hfirst.unused id hnd hid hmem₁ a (hsecond.registered_le a id ha)
    · have hmem₂ := (List.mem_append.mp hmem).resolve_left hmem₁
      exact hsecond.unused id hnd (hfirst.kept id hnd hid hmem₁) hmem₂ a ha
  registered_le := fun a id h => hfirst.registered_le a id (hsecond.registered_le a id h)

/-- The registry after an id with its handle and its address is gone. -/
def destroyed (s : State Id) (id : Id) (a hnd : Nat) : State Id :=
  { s with
    opened := s.opened.erase hnd
    num_handles_ := s.num_handles_ - 1
    map_ := Function.update s.map_ a none
    umap_ := Function.update s.umap_ id none
    registered := Function.update s.registered a none }

theorem destroyed_map {id id' : Id} {a a' hnd : Nat} (hinv : Inv s) (ha : s.map_ a = some id)
    (h : (destroyed s id a hnd).map_ a' = some id') : s.map_ a' = some id' ∧ id' ≠ id ∧ a' ≠ a := by
  simp only [destroyed] at h
  by_cases haa : a' = a
  · rw [haa, Function.update_self] at h
    cases h
  · rw [Function.update_of_ne haa] at h
    refine ⟨h, ?_, haa⟩
    rintro rfl
    exact haa (hinv.single a' a id' h ha)

theorem destroyed_umap {id id' : Id} {a hnd hnd' : Nat}
    (h : (destroyed s id a hnd).umap_ id' = some hnd') : s.umap_ id' = some hnd' ∧ id' ≠ id := by
  simp only [destroyed] at h
  by_cases hii : id' = id
  · rw [hii, Function.update_self] at h
    cases h
  · rw [Function.update_of_ne hii] at h
    exact ⟨h, hii⟩

theorem umap_destroyed {id id' : Id} {a hnd hnd' : Nat} (h : s.umap_ id' = some hnd')
    (hne : id' ≠ id) : (destroyed s id a hnd).umap_ id' = some hnd' := by
  simp only [destroyed, Function.update_of_ne hne, h]

theorem Inv.destroyed (hinv : Inv s) {id : Id} {a hnd : Nat} (ha : s.map_ a = some id)
    (hid : s.umap_ id = some hnd) (hopen : hnd ∈ s.opened) : Inv (destroyed s id a hnd) := by
  have hmapeq : (sync_handles.destroyed s id a hnd).map_ =
      (sync_handles.destroyed s id a hnd).registered := by
    simp only [sync_handles.destroyed, hinv.map_eq]
  have hcons := hinv.consistent
  refine ⟨hmapeq, ?_, ?_, hinv.next_pos, ?_, ?_, ?_, ?_, ?_, ?_⟩
  · intro a₁ a₂ id' h₁ h₂
    exact hinv.single a₁ a₂ id' (destroyed_map hinv ha h₁).1 (destroyed_map hinv ha h₂).1
  · intro hnd' hmem
    exact hinv.fresh hnd' (Finset.mem_of_mem_erase hmem)
  · intro a' id' h
    rw [hmapeq]
    exact h
  · intro a' id' h
    obtain ⟨hold, hne, -⟩ := destroyed_map hinv ha h
    obtain ⟨hnd', hopen', hnonnull, hid'⟩ := hcons.open_of_mapped a' id' hold
    have hneh : hnd' ≠ hnd := by
      rintro rfl
      exact hne (hcons.exclusive id' id hnd' hid' hid)
    exact ⟨hnd', Finset.mem_erase_of_ne_of_mem hneh hopen', hnonnull, umap_destroyed hid' hne⟩
  · intro hnd' hmem
    obtain ⟨id', hid'⟩ := hcons.owned hnd' (Finset.mem_of_mem_erase hmem)
    have hne : id' ≠ id := by
      rintro rfl
      rw [hid'] at hid
      exact Finset.ne_of_mem_erase hmem (Option.some.inj hid)
    exact ⟨id', umap_destroyed hid' hne⟩
  · intro id₁ id₂ hnd' h₁ h₂
    exact hcons.exclusive id₁ id₂ hnd' (destroyed_umap h₁).1 (destroyed_umap h₂).1
  · intro id' hnd' h
    obtain ⟨hold, hne⟩ := destroyed_umap h
    obtain ⟨a', ha'⟩ := hcons.named id' hnd' hold
    have hneh : a' ≠ a := by
      rintro rfl
      rw [ha'] at ha
      exact hne (Option.some.inj ha)
    refine ⟨a', ?_⟩
    simp only [sync_handles.destroyed, Function.update_of_ne hneh, ha']
  · simp only [sync_handles.destroyed]
    rw [hcons.count, Finset.card_erase_of_mem hopen]
    have hpos := Finset.card_pos.mpr ⟨hnd, hopen⟩
    omega

theorem Inv.closes_destroyed (hinv : Inv s) {id : Id} {a hnd : Nat} (ha : s.map_ a = some id)
    (hid : s.umap_ id = some hnd) (hopen : hnd ∈ s.opened) :
    Closes s (sync_handles.destroyed s id a hnd) [hnd] where
  inv := hinv.destroyed ha hid hopen
  nodup := List.nodup_singleton hnd
  opened := by
    intro hnd' hmem
    rw [List.mem_singleton.mp hmem]
    exact hopen
  gone := by
    intro hnd' hmem
    rw [List.mem_singleton.mp hmem]
    exact Finset.notMem_erase hnd s.opened
  subset := Finset.erase_subset hnd s.opened
  kept := by
    intro id' hnd' hid' hnot
    refine umap_destroyed hid' ?_
    rintro rfl
    rw [hid'] at hid
    exact hnot (List.mem_singleton.mpr (Option.some.inj hid))
  unused := by
    intro id' hnd' hid' hmem a' ha'
    rw [List.mem_singleton.mp hmem] at hid'
    have heq := hinv.consistent.exclusive id' id hnd hid' hid
    rw [← (hinv.destroyed ha hid hopen).map_eq] at ha'
    exact (destroyed_map hinv ha ha').2.1 heq
  registered_le := by
    intro a' id' ha'
    rw [← (hinv.destroyed ha hid hopen).map_eq] at ha'
    rw [← hinv.map_eq]
    exact (destroyed_map hinv ha ha').1

/-- Destroying an id through its address closes its handle. -/
theorem Inv.destroy_handle (hinv : Inv s) {id : Id} {a : Nat} (ha : s.registered a = some id) :
    ∃ hnd, (s.destroy_handle id a).2 = ⟨false, true, [hnd]⟩ ∧
      Closes s (s.destroy_handle id a).1 [hnd] := by
  obtain ⟨hnd, hopen, -, hid⟩ := hinv.umap_eq_some ha
  have hmap : s.map_ a = some id := hinv.map_eq ▸ ha
  have hcall : s.destroy_handle id a =
      (sync_handles.destroyed s id a hnd, ⟨false, true, [hnd]⟩) := by
    simp only [State.destroy_handle, hid, State.close_handle, hmap, ne_eq, reduceCtorEq,
      not_false_eq_true, decide_true, sync_handles.destroyed]
  rw [hcall]
  exact ⟨hnd, rfl, hinv.closes_destroyed hmap hid hopen⟩

/-- The registry without some addresses. -/
def forget (s : State Id) (addresses : List Nat) : State Id :=
  { s with
    map_ := fun a => if a ∈ addresses then none else s.map_ a
    registered := fun a => if a ∈ addresses then none else s.registered a }

/-- Forgetting one address more. -/
theorem if_mem_cons {α : Type} {a a' : Nat} {addresses : List Nat} (x : Option α) :
    (if a' ∈ a :: addresses then none else x) =
      if a' = a then none else if a' ∈ addresses then none else x := by
  by_cases haa : a' = a
  · simp [haa]
  · simp [haa]

omit [DecidableEq Id] in
theorem forget_nil (s : State Id) : forget s [] = s := by
  simp [forget]

/-- A round of the loop leaves an entry of the address map behind that is removed at the
    end; without it the round destroys the id at the address. -/
theorem forget_close_registered {s : State Id} {a : Nat} {done : List Nat}
    (hinv : Inv (forget s done)) (ha : a ∉ done) :
    (s.close_registered a).2.asserts = true ∧
      Closes (forget s done) (forget (s.close_registered a).1 (a :: done))
        (s.close_registered a).2.closed := by
  have hview : (forget s done).map_ a = s.map_ a := if_neg ha
  have hregistered : s.registered a = s.map_ a := by
    have heq := congrFun hinv.map_eq a
    simp only [forget, if_neg ha] at heq
    exact heq.symm
  cases hmap : s.map_ a with
  | none =>
    have hsame : forget s (a :: done) = forget s done := by
      rw [hmap] at hregistered
      simp only [forget, if_mem_cons]
      congr 1
      · funext a'
        by_cases haa : a' = a
        · rw [if_pos haa, haa, if_neg ha, hmap]
        · rw [if_neg haa]
      · funext a'
        by_cases haa : a' = a
        · rw [if_pos haa, haa, if_neg ha, hregistered]
        · rw [if_neg haa]
    simp only [State.close_registered, hmap, hsame]
    exact ⟨trivial, Closes.refl hinv⟩
  | some id =>
    rw [hmap] at hview
    obtain ⟨hnd, hopen, -, hid⟩ := hinv.consistent.open_of_mapped a id hview
    have humap : s.umap_ id = some hnd := hid
    have hopen' : hnd ∈ s.opened := hopen
    have hnext : forget (s.close_registered a).1 (a :: done) =
        sync_handles.destroyed (forget s done) id a hnd := by
      simp only [State.close_registered, hmap, humap, State.close_handle, forget, if_mem_cons,
        sync_handles.destroyed]
      congr 1
      · funext a'
        rw [Function.update_apply]
      · funext a'
        rw [Function.update_apply]
    rw [hnext]
    simp only [State.close_registered, hmap, humap, State.close_handle, hopen', decide_true]
    exact ⟨trivial, hinv.closes_destroyed hview hid hopen⟩

theorem forget_close_all {s : State Id} {todo done : List Nat} (hinv : Inv (forget s done))
    (hnodup : todo.Nodup) (hnew : ∀ a ∈ todo, a ∉ done) :
    ∃ all, (∀ a, a ∈ all ↔ a ∈ todo ∨ a ∈ done) ∧ (s.close_all todo).2.asserts = true ∧
      Closes (forget s done) (forget (s.close_all todo).1 all) (s.close_all todo).2.closed := by
  induction todo generalizing s done with
  | nil => exact ⟨done, by simp, rfl, Closes.refl hinv⟩
  | cons a todo ih =>
    obtain ⟨hfirst, hrest⟩ := List.nodup_cons.mp hnodup
    obtain ⟨hasserts, hcloses⟩ := forget_close_registered hinv (hnew a List.mem_cons_self)
    have hnew' : ∀ a' ∈ todo, a' ∉ a :: done := by
      intro a' ha' hmem
      rcases List.mem_cons.mp hmem with rfl | hmem
      · exact hfirst ha'
      · exact hnew a' (List.mem_cons_of_mem a ha') hmem
    obtain ⟨all, hall, hasserts', hcloses'⟩ := ih hcloses.inv hrest hnew'
    refine ⟨all, ?_, ?_, hcloses.trans hcloses'⟩
    · intro a'
      rw [hall, List.mem_cons, List.mem_cons]
      tauto
    · simp only [State.close_all, hasserts, hasserts', Bool.and_self]

omit [DecidableEq Id] in
theorem forget_eq_erase_range (s : State Id) {addr size : Nat} {all : List Nat}
    (hall : ∀ a, a ∈ all ↔ a ∈ List.range' addr size ∨ a ∈ []) :
    forget s all = s.erase_range addr size := by
  have hmem : ∀ a, a ∈ all ↔ addr ≤ a ∧ a < addr + size := by
    intro a
    rw [hall, List.mem_range'_1]
    simp only [List.not_mem_nil, or_false]
  simp only [forget, State.erase_range, hmem]

/-- Unmapping a range closes the handles of the ids registered in it. -/
theorem Inv.destroy_syncs_in_range (hinv : Inv s) (addr size : Nat) :
    (s.destroy_syncs_in_range addr size).2.asserts = true ∧
      Closes s (s.destroy_syncs_in_range addr size).1
        (s.destroy_syncs_in_range addr size).2.closed := by
  have hnodup : (List.range' addr size).Nodup := List.nodup_range' 1
  rw [← forget_nil s] at hinv
  obtain ⟨all, hall, hasserts, hcloses⟩ :=
    forget_close_all hinv hnodup (fun _ _ => List.not_mem_nil)
  rw [forget_nil, forget_eq_erase_range _ hall] at hcloses
  exact ⟨hasserts, hcloses⟩

/-- The registry after a free address got an unused id with a fresh handle. -/
def registering (s : State Id) (id : Id) (a : Nat) : State Id :=
  { s with
    umap_ := Function.update s.umap_ id (some s.next_handle)
    map_ := Function.update s.map_ a (some id)
    num_handles_ := s.num_handles_ + 1
    next_handle := s.next_handle + 1
    opened := insert s.next_handle s.opened
    registered := Function.update s.registered a (some id) }

/-- Opening a system object for an id that no address uses keeps the registry consistent. -/
theorem Inv.registering (hinv : Inv s) {id : Id} {a : Nat} (hfree : s.registered a = none)
    (hnone : ∀ a, s.registered a ≠ some id) : Inv (registering s id a) := by
  have hcons := hinv.consistent
  have hid : s.umap_ id = none := hinv.umap_eq_none hnone
  have hmapeq : (sync_handles.registering s id a).map_ =
      (sync_handles.registering s id a).registered := by
    simp only [sync_handles.registering, hinv.map_eq]
  have hunmapped : s.map_ a = none := by rw [hinv.map_eq, hfree]
  have hunnamed : ∀ a', s.map_ a' ≠ some id := by
    rw [hinv.map_eq]
    exact hnone
  have hnew : s.next_handle ∉ s.opened := fun hmem => Nat.lt_irrefl _ (hinv.fresh _ hmem)
  have hold : ∀ id' hnd, s.umap_ id' = some hnd → hnd ≠ s.next_handle := by
    intro id' hnd hid' heq
    obtain ⟨a', ha'⟩ := hcons.named id' hnd hid'
    obtain ⟨hnd', hopen, -, hid''⟩ := hcons.open_of_mapped a' id' ha'
    rw [hid'] at hid''
    exact hnew (heq ▸ Option.some.inj hid'' ▸ hopen)
  have hne_of_umap : ∀ id' hnd, s.umap_ id' = some hnd → id' ≠ id := by
    rintro id' hnd hid' rfl
    rw [hid] at hid'
    cases hid'
  refine ⟨hmapeq, ?_, ?_, Nat.succ_pos _, ?_, ?_, ?_, ?_, ?_, ?_⟩
  · intro a₁ a₂ id' h₁ h₂
    simp only [sync_handles.registering, Function.update_apply] at h₁ h₂
    split at h₁ <;> split at h₂
    · simp [*]
    · cases h₁
      exact absurd h₂ (hunnamed a₂)
    · cases h₂
      exact absurd h₁ (hunnamed a₁)
    · exact hinv.single a₁ a₂ id' h₁ h₂
  · intro hnd hmem
    simp only [sync_handles.registering] at hmem ⊢
    rcases Finset.mem_insert.mp hmem with rfl | hmem
    · exact Nat.lt_succ_self _
    · exact Nat.lt_succ_of_lt (hinv.fresh hnd hmem)
  · intro a' id' h
    rw [hmapeq]
    exact h
  · intro a' id' h
    simp only [sync_handles.registering, Function.update_apply] at h ⊢
    split at h
    · cases h
      exact ⟨s.next_handle, Finset.mem_insert_self _ _, hinv.next_pos.ne', if_pos rfl⟩
    · obtain ⟨hnd, hopen, hnonnull, hid'⟩ := hcons.open_of_mapped a' id' h
      refine ⟨hnd, Finset.mem_insert_of_mem hopen, hnonnull, ?_⟩
      rw [if_neg (hne_of_umap id' hnd hid'), hid']
  · intro hnd hmem
    simp only [sync_handles.registering, Function.update_apply] at hmem ⊢
    rcases Finset.mem_insert.mp hmem with rfl | hmem
    · exact ⟨id, if_pos rfl⟩
    · obtain ⟨id', hid'⟩ := hcons.owned hnd hmem
      refine ⟨id', ?_⟩
      rw [if_neg (hne_of_umap id' hnd hid'), hid']
  · intro id₁ id₂ hnd h₁ h₂
    simp only [sync_handles.registering, Function.update_apply] at h₁ h₂
    split at h₁ <;> split at h₂
    · simp [*]
    · cases h₁
      exact absurd rfl (hold id₂ _ h₂)
    · cases h₂
      exact absurd rfl (hold id₁ _ h₁)
    · exact hcons.exclusive id₁ id₂ hnd h₁ h₂
  · intro id' hnd h
    simp only [sync_handles.registering, Function.update_apply] at h ⊢
    split at h
    · refine ⟨a, ?_⟩
      simp [*]
    · obtain ⟨a', ha'⟩ := hcons.named id' hnd h
      refine ⟨a', ?_⟩
      rw [if_neg, ha']
      rintro rfl
      rw [hunmapped] at ha'
      cases ha'
  · simp only [sync_handles.registering]
    rw [hcons.count, Finset.card_insert_of_notMem hnew]
    push_cast
    rfl

/-- An id that is in use through the address is found. -/
theorem Inv.obtain_again (hinv : Inv s) {id : Id} {a : Nat} (ha : s.registered a = some id)
    (popen_created throws : Bool) :
    s.obtain id a popen_created throws = (s, ⟨false, true, []⟩) := by
  obtain ⟨hnd, -, hnonnull, hid⟩ := hinv.umap_eq_some ha
  have hsame : Function.update s.registered a (some id) = s.registered := by
    rw [← ha, Function.update_eq_self]
  have hmap : s.map_ a = some id := by rw [hinv.map_eq, ha]
  simp only [State.obtain, hid, reduceCtorEq, if_false, Option.some.injEq, hnonnull, hsame, hmap,
    ne_eq, not_false_eq_true, decide_true, Bool.or_true]

/-- An id that is in use through no address is opened. -/
theorem Inv.obtain_new (hinv : Inv s) {id : Id} {a : Nat} (hfree : s.registered a = none)
    (hnone : ∀ a, s.registered a ≠ some id) (popen_created : Bool) :
    s.obtain id a popen_created false = (sync_handles.registering s id a, ⟨false, true, []⟩) := by
  have hid := hinv.umap_eq_none hnone
  have hmap : s.map_ a = none := by rw [hinv.map_eq, hfree]
  simp only [State.obtain, hid, if_true, Function.update_self, hmap, decide_true,
    State.open_or_create, Function.update_idem, sync_handles.registering, Bool.false_eq_true,
    if_false]

end interprocess.sync_handles
