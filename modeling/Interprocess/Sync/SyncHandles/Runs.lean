import Interprocess.Sync.SyncHandles.Registry

open Transition

namespace interprocess.sync_handles

variable {Id : Type} [DecidableEq Id] {s t : State Id}

theorem close_all_threw (s : State Id) (addresses : List Nat) :
    (s.close_all addresses).2.threw = false := by
  cases addresses with
  | nil => rfl
  | cons address addresses => rfl

/-- A call that closes some handles is sound. -/
theorem Closes.sound {op : Op Id} {closed : List Nat} (hcloses : Closes s (call s op).1 closed)
    (hreport : (call s op).2 = ⟨false, true, closed⟩) : Sound s op where
  consistent := hcloses.inv.consistent
  asserts := by rw [hreport]
  closed_once := by
    rw [hreport]
    exact ⟨hcloses.nodup, hcloses.opened⟩
  closed_unused := by
    rw [hreport]
    exact hcloses.unused
  unchanged := by
    rw [hreport]
    intro hthrew
    cases hthrew

/-- What a call to `obtain_mutex` or `obtain_semaphore` does when it neither throws nor
    finds the id in use through another address. -/
theorem Inv.obtain_cases (hinv : Inv s) {id : Id} {a : Nat} {throws : Bool}
    (hlegal : s.registered a = none ∨ s.registered a = some id)
    (hmeets : ObtainMeets s id a throws) (popen_created : Bool) :
    Inv (s.obtain id a popen_created throws).1 ∧
      (s.obtain id a popen_created throws).2 = ⟨false, true, []⟩ := by
  rcases hlegal with hfree | hid
  · have hnone : ∀ a', s.registered a' ≠ some id := by
      intro a' ha'
      rw [hmeets.1 a' ha', hfree] at ha'
      cases ha'
    have hopens : throws = false := by
      cases throws with
      | false => rfl
      | true =>
        obtain ⟨a', ha'⟩ := hmeets.2 rfl
        exact absurd ha' (hnone a')
    rw [hopens, hinv.obtain_new hfree hnone]
    exact ⟨hinv.registering hfree hnone, rfl⟩
  · rw [hinv.obtain_again hid]
    exact ⟨hinv, rfl⟩

/-- An id that is in use through another address is not registered again. -/
theorem Inv.obtain_elsewhere (hinv : Inv s) {id : Id} {a a' : Nat} (ha' : s.registered a' = some id)
    (hfree : s.registered a = none) (popen_created throws : Bool) :
    ¬ Consistent (s.obtain id a popen_created throws).1 := by
  intro hconsistent
  obtain ⟨hnd, -, hnonnull, hid⟩ := hinv.umap_eq_some ha'
  have hmap : s.map_ a = none := by rw [hinv.map_eq, hfree]
  have hmapped := hconsistent.mapped a id
  simp only [State.obtain, hid, reduceCtorEq, if_false, Option.some.injEq, hnonnull,
    Function.update_self, hmap] at hmapped
  exact hmapped trivial

/-- An open that throws leaves a null handle in the map of the ids. -/
theorem Inv.obtain_throws (hinv : Inv s) {id : Id} (hnone : ∀ a, s.registered a ≠ some id)
    (a : Nat) (popen_created : Bool) :
    (s.obtain id a popen_created true).2.threw = true ∧
      (s.obtain id a popen_created true).1.umap_ ≠ s.umap_ := by
  have hid := hinv.umap_eq_none hnone
  simp only [State.obtain, hid, if_true, Function.update_self]
  refine ⟨trivial, ?_⟩
  intro heq
  have hat := congrFun heq id
  rw [Function.update_self, hid] at hat
  cases hat

/-- `obtain_mutex` and `obtain_semaphore` are sound exactly when the id is in use through
    no other address and the open does not throw. -/
theorem Inv.obtain_sound_iff (hinv : Inv s) {op : Op Id} {id : Id} {a : Nat}
    {popen_created throws : Bool} (hcall : call s op = s.obtain id a popen_created throws)
    (hlegal : s.registered a = none ∨ s.registered a = some id) :
    Sound s op ↔ ObtainMeets s id a throws := by
  constructor
  · intro hsound
    have honly : ∀ a', s.registered a' = some id → a' = a := by
      intro a' ha'
      rcases hlegal with hfree | hid
      · have hconsistent := hsound.consistent
        rw [hcall] at hconsistent
        exact absurd hconsistent (hinv.obtain_elsewhere ha' hfree popen_created throws)
      · rw [← hinv.map_eq] at ha' hid
        exact hinv.single a' a id ha' hid
    refine ⟨honly, ?_⟩
    rintro rfl
    by_contra hnone
    obtain ⟨hthrew, hchanged⟩ :=
      hinv.obtain_throws (not_exists.mp hnone) a popen_created
    have hunchanged := hsound.unchanged
    rw [hcall] at hunchanged
    exact hchanged (hunchanged hthrew).1
  · intro hmeets
    obtain ⟨hinv', hreport⟩ := hinv.obtain_cases hlegal hmeets popen_created
    rw [← hcall] at hinv' hreport
    refine ⟨hinv'.consistent, ?_, ?_, ?_, ?_⟩
    · rw [hreport]
    · rw [hreport]
      exact ⟨List.nodup_nil, fun _ h => absurd h List.not_mem_nil⟩
    · rw [hreport]
      exact fun _ _ _ h => absurd h List.not_mem_nil
    · rw [hreport]
      intro hthrew
      cases hthrew

theorem Inv.sound_iff (hinv : Inv s) {op : Op Id} (hlegal : Legal s op) :
    Sound s op ↔ Meets s op := by
  cases op with
  | obtain_mutex id a popen_created throws => exact hinv.obtain_sound_iff rfl hlegal
  | obtain_semaphore id a initial_count popen_created throws =>
    exact hinv.obtain_sound_iff rfl hlegal
  | destroy_handle id a =>
    obtain ⟨hnd, hreport, hcloses⟩ := hinv.destroy_handle hlegal
    exact ⟨fun _ => trivial, fun _ => hcloses.sound hreport⟩
  | destroy_syncs_in_range addr size =>
    obtain ⟨hasserts, hcloses⟩ := hinv.destroy_syncs_in_range addr size
    refine ⟨fun _ => trivial, fun _ => hcloses.sound ?_⟩
    simp only [call, State.destroy_syncs_in_range] at hasserts ⊢
    rw [← hasserts, ← close_all_threw s (List.range' addr size)]

/-- A call that meets the condition keeps the invariant. -/
theorem Inv.step (hinv : Inv s) {op : Op Id} (hlegal : Legal s op) (hmeets : Meets s op) :
    Inv (step s op) := by
  cases op with
  | obtain_mutex id a popen_created throws => exact (hinv.obtain_cases hlegal hmeets _).1
  | obtain_semaphore id a initial_count popen_created throws =>
    exact (hinv.obtain_cases hlegal hmeets _).1
  | destroy_handle id a =>
    obtain ⟨hnd, -, hcloses⟩ := hinv.destroy_handle hlegal
    exact hcloses.inv
  | destroy_syncs_in_range addr size => exact (hinv.destroy_syncs_in_range addr size).2.inv

/-- The calls of a run are all sound exactly when every obtain uses an id that is in use
    through no other address and does not fail to open it. -/
theorem registry_sound_iff {ops : List (Op Id)} (hlegal : Along step Legal .construct ops) :
    Along step Sound (.construct : State Id) ops ↔ Along step Meets .construct ops :=
  along_iff (fun _ _ hinv hlegal => hinv.sound_iff hlegal)
    (fun _ _ hinv hlegal hmeets => hinv.step hlegal hmeets) inv_construct hlegal

/-- Two ids, one of them obtained again and destroyed, the other one unmapped. -/
theorem registry_sound_iff_small_run :
    Along step Legal (.construct : State Nat)
        [.obtain_mutex 1 8 true false, .obtain_semaphore 2 16 5 false false,
          .obtain_mutex 1 8 true false, .destroy_handle 1 8, .destroy_syncs_in_range 0 32] ∧
      Along step Sound (.construct : State Nat)
        [.obtain_mutex 1 8 true false, .obtain_semaphore 2 16 5 false false,
          .obtain_mutex 1 8 true false, .destroy_handle 1 8, .destroy_syncs_in_range 0 32] := by
  have hlegal : Along step Legal (.construct : State Nat)
      [.obtain_mutex 1 8 true false, .obtain_semaphore 2 16 5 false false,
        .obtain_mutex 1 8 true false, .destroy_handle 1 8, .destroy_syncs_in_range 0 32] := by
    refine ⟨.inl rfl, .inl rfl, .inr rfl, rfl, trivial, trivial⟩
  refine ⟨hlegal, (registry_sound_iff hlegal).mpr ⟨⟨?_, ?_⟩, ⟨?_, ?_⟩, ⟨?_, ?_⟩, trivial, trivial,
    trivial⟩⟩
  · intro a ha
    cases ha
  · intro hthrows
    cases hthrows
  · intro a ha
    change Function.update (fun _ => none) 8 (some 1) a = some 2 at ha
    simp [Function.update_apply] at ha
  · intro hthrows
    cases hthrows
  · intro a ha
    change Function.update (Function.update (fun _ => none) 8 (some 1)) 16 (some 2) a = some 1 at ha
    simp only [Function.update_apply] at ha
    grind
  · intro hthrows
    cases hthrows

/-- A mutex is obtained through a second mapping of its segment, or its open throws. -/
theorem registry_second_mapping_or_throw :
    (Along step Legal (.construct : State Nat)
        [.obtain_mutex 1 8 false false, .obtain_mutex 1 16 false false] ∧
      ¬ Along step Sound (.construct : State Nat)
        [.obtain_mutex 1 8 false false, .obtain_mutex 1 16 false false]) ∧
    (Along step Legal (.construct : State Nat) [.obtain_mutex 1 8 false true] ∧
      ¬ Along step Sound (.construct : State Nat) [.obtain_mutex 1 8 false true]) := by
  refine ⟨⟨⟨.inl rfl, .inl rfl, trivial⟩, ?_⟩, ⟨.inl rfl, trivial⟩, ?_⟩
  · rintro ⟨-, hsound, -⟩
    have hmapped := hsound.consistent.mapped 16 1 rfl
    cases hmapped
  · rintro ⟨hsound, -⟩
    have hkept := congrFun (hsound.unchanged rfl).1 1
    cases hkept

end interprocess.sync_handles
