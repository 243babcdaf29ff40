import Interprocess.Detail.IntermoduleSingleton.Frames

open Count

namespace interprocess.ipcdetail.intermodule_singleton

variable {τ ι μ ν : Type} [Fintype τ] [Fintype ι] [DecidableEq τ] [DecidableEq ι] [DecidableEq μ]
  [DecidableEq ν]

omit [Fintype ι] [DecidableEq ι] [DecidableEq ν] in
theorem leaving_eq_false {c : Config ι μ ν} {m : μ} {next : Option (ι × Place)}
    (h : ∀ j q, next = some (j, q) → q ≠ .fini_dec) : leaving c m next = false := by
  unfold leaving
  split
  · exact absurd rfl (h _ _ rfl)
  · rfl

namespace Inv

variable {c : Config ι μ ν} {s s' : State τ ι μ ν} {life : ι → Life τ} {map_life : μ → MapLife τ}
  {t : τ} {i : ι} {p : Place} {next : Option (ι × Place)}

omit [DecidableEq ι] in
/-- A thread that has nothing for itself moves to such a place again. -/
theorem roam (h : Inv c s life map_life) (hplace : ∀ j q, s.place t = some (j, q) → q.roams = true)
    (hnext : ∀ j q, next = some (j, q) → q.roams = true ∧ (q = .returning → ∃ k, life j = .ready k)) :
    Inv c { s with place := Function.update s.place t next } life map_life where
  instances := h.instances.roam (fun j q hj => (Place.of_roams (hplace j q hj)).1) fun j q hj =>
    ⟨(Place.of_roams (hnext j q hj).1).1, (hnext j q hj).2, (Place.of_roams (hnext j q hj).1).2.2.2⟩
  maps := h.maps.roam (fun j q hj => (Place.of_roams (hplace j q hj)).2.1)
    (fun j q hj => (Place.of_roams (hnext j q hj).1).2.1) h.maps.uses
  entries := h.entries
  counts := h.counts.roam t next fun m => by
    rw [leaving_eq_false fun j q hj => (Place.of_roams (hnext j q hj).1).2.2.1,
      leaving_eq_false fun j q hj => (Place.of_roams (hplace j q hj)).2.2.1]

omit [DecidableEq ι] in
theorem goto (h : Inv c s life map_life) {q : Place} (hplace : s.place t = some (i, p))
    (hp : p.roams = true) (hq : q.roams = true) (hready : q = .returning → ∃ k, life i = .ready k) :
    Inv c (s.goto t i q) life map_life := by
  refine h.roam (of_place hplace hp) ?_
  intro j r hj
  cases hj
  exact ⟨hq, hready⟩

omit [DecidableEq ι] in
theorem leave (h : Inv c s life map_life) (hplace : s.place t = some (i, p)) (hp : p.roams = true) :
    Inv c (s.leave t) life map_life :=
  h.roam (of_place hplace hp) nofun

/-- A step on an instance that leaves the maps of the modules alone. -/
theorem instance_step (h : Inv c s life map_life) {stage : Life τ}
    (hplace : ∀ j q, s.place t = some (j, q) → q.holds_map = false)
    (hnext : ∀ j q, next = some (j, q) → q.holds_map = false)
    (hs : s'.place = Function.update s.place t next)
    (hmap : s'.this_module_map_initialized = s.this_module_map_initialized) (hmem : s'.map_mem = s.map_mem)
    (hinstances : Instances (Function.update s.place t next) s'.this_module_singleton_initialized
      s'.this_module_singleton_ptr (Function.update life i stage))
    (huses : stage.uses_map = true → map_life (c.module i) = .up)
    (hentries : Entries c (Function.update (fun j => (life j).attached) i stage.attached) s'.entry
      s'.living)
    (hnumber : ∀ m, s'.this_module_singleton_count m +
        (decide (c.module i = m) && (life i).counted).toNat + (leaving c m (s.place t)).toNat =
      s.this_module_singleton_count m + (decide (c.module i = m) && stage.counted).toNat +
        (leaving c m next).toNat) :
    Inv c s' (Function.update life i stage) map_life := by
  refine ⟨by rw [hs]; exact hinstances, ?_, by rw [read_update]; exact hentries, ?_⟩
  · rw [hs, hmap, hmem]
    refine h.maps.roam hplace hnext ?_
    intro j hj
    by_cases hji : j = i
    · rw [hji, Function.update_self] at hj
      rw [hji]
      exact huses hj
    · rw [Function.update_of_ne hji] at hj
      exact h.maps.uses j hj
  · rw [hs, read_update]
    exact h.counts.update t next i stage.counted hnumber

/-- The same when the instance is counted as before. -/
theorem instance_step_uncounted (h : Inv c s life map_life) {stage : Life τ}
    (hplace : ∀ j q, s.place t = some (j, q) → q.holds_map = false ∧ q ≠ .fini_dec)
    (hnext : ∀ j q, next = some (j, q) → q.holds_map = false ∧ q ≠ .fini_dec)
    (hs : s'.place = Function.update s.place t next)
    (hmap : s'.this_module_map_initialized = s.this_module_map_initialized) (hmem : s'.map_mem = s.map_mem)
    (hcount : s'.this_module_singleton_count = s.this_module_singleton_count)
    (hinstances : Instances (Function.update s.place t next) s'.this_module_singleton_initialized
      s'.this_module_singleton_ptr (Function.update life i stage))
    (huses : stage.uses_map = true → map_life (c.module i) = .up)
    (hentries : Entries c (Function.update (fun j => (life j).attached) i stage.attached) s'.entry
      s'.living)
    (hcounted : stage.counted = (life i).counted) :
    Inv c s' (Function.update life i stage) map_life := by
  refine h.instance_step (fun j q hj => (hplace j q hj).1) (fun j q hj => (hnext j q hj).1) hs hmap hmem
    hinstances huses hentries ?_
  intro m
  rw [hcount, hcounted, leaving_eq_false fun j q hj => (hplace j q hj).2,
    leaving_eq_false fun j q hj => (hnext j q hj).2]

/-- The same when also the attachment stays. -/
theorem instance_step_quiet (h : Inv c s life map_life) {stage : Life τ}
    (hplace : ∀ j q, s.place t = some (j, q) → q.holds_map = false ∧ q ≠ .fini_dec)
    (hnext : ∀ j q, next = some (j, q) → q.holds_map = false ∧ q ≠ .fini_dec)
    (hs : s'.place = Function.update s.place t next)
    (hmap : s'.this_module_map_initialized = s.this_module_map_initialized) (hmem : s'.map_mem = s.map_mem)
    (hcount : s'.this_module_singleton_count = s.this_module_singleton_count)
    (hentry : s'.entry = s.entry) (hliving : s'.living = s.living)
    (hinstances : Instances (Function.update s.place t next) s'.this_module_singleton_initialized
      s'.this_module_singleton_ptr (Function.update life i stage))
    (huses : stage.uses_map = true → map_life (c.module i) = .up)
    (hattached : stage.attached = (life i).attached) (hcounted : stage.counted = (life i).counted) :
    Inv c s' (Function.update life i stage) map_life := by
  refine h.instance_step_uncounted hplace hnext hs hmap hmem hcount hinstances huses ?_ hcounted
  rw [hattached, Function.update_eq_self i (fun j => (life j).attached), hentry, hliving]
  exact h.entries

/-- A step of the winner on the map of its module, before it attaches. -/
theorem map_step (h : Inv c s life map_life) {q : Place} (stage : MapLife τ)
    (hplace : s.place t = some (i, p)) (hp : p.initializes = true) (hq : q.initializes = true)
    (hunattached : p.attached = none ∧ q.attached = none)
    (huncounted : p.counted = false ∧ q.counted = false) (huses : q.passed_map = true → stage = .up)
    (hs : s'.place = Function.update s.place t (some (i, q)))
    (hstate : s'.this_module_singleton_initialized = s.this_module_singleton_initialized)
    (hptr : s'.this_module_singleton_ptr = s.this_module_singleton_ptr)
    (hcount : s'.this_module_singleton_count = s.this_module_singleton_count)
    (hentry : s'.entry = s.entry) (hliving : s'.living = s.living)
    (hmap : ∀ m, m ≠ c.module i → s'.this_module_map_initialized m = s.this_module_map_initialized m)
    (hmem : ∀ m, m ≠ c.module i → s'.map_mem m = s.map_mem m)
    (hword : s'.this_module_map_initialized (c.module i) = stage.word)
    (hexists : stage.Exists (s'.map_mem (c.module i)))
    (hnext : q.holds_map = true → stage = .held t q)
    (hstage : ∀ u r, stage = .held u r → u = t ∧ r = q ∧ q.holds_map = true)
    (hothers : ∀ u r, map_life (c.module i) = .held u r → u = t)
    (hup : map_life (c.module i) = .up → stage = .up) :
    Inv c s' (Function.update life i (.held t q)) (Function.update map_life (c.module i) stage) := by
  have hholds := Place.holds_of_initializes hp
  have hlife := h.instances.holder t i p hplace hholds
  have hdec : ∀ {r : Place}, r.initializes = true → r ≠ .fini_dec := by
    rintro r hr rfl
    cases hr
  have hattached : (Life.held t q).attached = (life i).attached := by
    rw [hlife]
    exact hunattached.2.trans hunattached.1.symm
  have hcounted : (Life.held t q).counted = (life i).counted := by
    rw [hlife]
    exact huncounted.2.trans huncounted.1.symm
  refine ⟨?_, ?_, ?_, ?_⟩
  · rw [hs, hstate, hptr]
    refine h.instances.advance hplace hholds (Place.holds_of_initializes hq) (fun _ _ => rfl)
      (fun _ _ => rfl) ?_ ?_
    · rw [h.instances.word i, hlife]
      simp only [Life.word, hp, hq]
    · have hpoints := h.instances.points i
      rw [hlife, Life.points_iff_of_unattached hp hunattached.1] at hpoints
      exact (Life.points_iff_of_unattached hq hunattached.2 _).mpr hpoints
  · rw [hs]
    refine h.maps.update hmap hmem hword hexists ?_ ?_ ?_ hothers ?_
    · intro j r hj
      rw [eq_of_place hplace j r hj]
    · intro j r hj
      cases hj
      exact ⟨rfl, hnext⟩
    · intro u r hr
      obtain ⟨hu, rfl, hholds_map⟩ := hstage u r hr
      exact ⟨hu, hholds_map, i, rfl, rfl⟩
    · intro j hj
      by_cases hji : j = i
      · rw [hji, Function.update_self] at hj
        simp only [Life.uses_map, huncounted.2, Bool.or_false] at hj
        exact ⟨fun _ => huses hj, fun hne => absurd (by rw [hji]) hne⟩
      · rw [Function.update_of_ne hji] at hj
        exact ⟨fun hm => hup (by rw [← hm]; exact h.maps.uses j hj), fun _ => hj⟩
  · rw [read_update Life.attached, hattached, Function.update_eq_self i (fun j => (life j).attached),
      hentry, hliving]
    exact h.entries
  · rw [read_update Life.counted, hcounted, Function.update_eq_self i (fun j => (life j).counted),
      hcount, hs]
    refine h.counts.roam t _ ?_
    intro m
    rw [leaving_eq_false (of_place rfl (hdec hq)), leaving_eq_false (of_place hplace (hdec hp))]

end Inv

end interprocess.ipcdetail.intermodule_singleton
