import Interprocess.Detail.IntermoduleSingleton.Steps

open Count

namespace interprocess.ipcdetail.intermodule_singleton

variable {τ ι μ ν : Type} [DecidableEq τ] [DecidableEq ι] [DecidableEq μ] [DecidableEq ν]

/-- No finaliser of the instance stands between its call of the destructor and
    the end of its write of `Destroyed`. -/
def NotClosing (s : State τ ι μ ν) (i : ι) : Prop :=
  ∀ u, s.place u ≠ some (i, .fini_null) ∧ s.place u ≠ some (i, .fini_mark)

/-- What a thread may do next at a place. The construction of the map must not
    throw; a waiter must not read that the winner failed or that the instance was
    destroyed meanwhile; and a finaliser and the threads that initialise must not
    meet while one of them is half way, at the instance or at the map. -/
def OrderlyAt (c : Config ι μ ν) (s : State τ ι μ ν) (i : ι) (outcome : Outcome) : Place → Prop
  | .map_make => outcome ≠ .throws
  | .wait => s.this_module_singleton_initialized i ≠ .Broken ∧
      s.this_module_singleton_initialized i ≠ .Destroyed ∧ NotClosing s i
  | .read_state | .cas | .cas_again => NotClosing s i
  | .fini_destroy => s.this_module_singleton_initialized i = .Initialized ∧ NotClosing s i ∧
      ∀ u, s.place u ≠ some (i, .returning)
  | .map_cas => ∀ u j, c.module j = c.module i → s.place u ≠ some (j, .fini_mark_map)
  | .fini_unmap => s.map_mem (c.module i) = true ∧
      s.this_module_map_initialized (c.module i) = .Initialized ∧
      s.this_module_singleton_count (c.module i) = 0 ∧
      ∀ u, ∀ x ∈ s.place u, c.module x.1 = c.module i → x.2.passed_map = false
  | _ => True

def Orderly (c : Config ι μ ν) (s : State τ ι μ ν) : Label τ ι → Prop
  | .run t outcome => ∀ x ∈ s.place t, OrderlyAt c s x.1 outcome x.2
  | _ => True

variable [Fintype τ] [Fintype ι]

omit [DecidableEq τ] [DecidableEq μ] [DecidableEq ν] [Fintype ι] in
instance (s : State τ ι μ ν) (i : ι) : Decidable (NotClosing s i) :=
  inferInstanceAs (Decidable (∀ u, s.place u ≠ some (i, .fini_null) ∧ s.place u ≠ some (i, .fini_mark)))

instance (c : Config ι μ ν) (s : State τ ι μ ν) (i : ι) (outcome : Outcome) (p : Place) :
    Decidable (OrderlyAt c s i outcome p) := by
  cases p <;> unfold OrderlyAt <;> infer_instance

instance (c : Config ι μ ν) (s : State τ ι μ ν) (label : Label τ ι) : Decidable (Orderly c s label) := by
  cases label <;> unfold Orderly <;> infer_instance

namespace Inv

variable {c : Config ι μ ν} {s s' : State τ ι μ ν} {life : ι → Life τ} {map_life : μ → MapLife τ}
  {t : τ} {i : ι} {p : Place}

omit [DecidableEq τ] [DecidableEq ι] in
/-- An instance that says it is initialised is ready while no finaliser is half
    way. -/
theorem ready_of_initialized (h : Inv c s life map_life)
    (hword : s.this_module_singleton_initialized i = .Initialized) (hclosing : NotClosing s i) :
    ∃ k, life i = .ready k := by
  rw [h.instances.word i] at hword
  obtain hready | ⟨u, q, hheld, hq⟩ := Life.ready_or_closing hword
  · exact hready
  · exfalso
    obtain ⟨hplace, hholds⟩ := h.instances.held i u q hheld
    cases q with
    | fini_null => exact (hclosing u).1 hplace
    | fini_mark => exact (hclosing u).2 hplace
    | _ => exact absurd (hq.symm.trans hholds) Bool.false_ne_true

omit [DecidableEq τ] [DecidableEq ι] in
/-- Nobody has an instance for itself that is in a stage without a holder. -/
theorem others_of_unheld (h : Inv c s life map_life) (hunheld : ∀ u q, life i ≠ .held u q)
    (hready : ∀ k, life i ≠ .ready k) {stage : Life τ} (u : τ) (q : Place) (hplace : s.place u = some (i, q)) :
    q.holds = false ∧ (q = .returning → ∃ k, stage = .ready k) := by
  constructor
  · by_contra hq
    exact hunheld u q (h.instances.holder u i q hplace (by simpa using hq))
  · rintro rfl
    obtain ⟨k, hk⟩ := h.instances.returning u i hplace
    exact absurd hk (hready k)

/-- The exchange that wins. -/
theorem win (h : Inv c s life map_life) (hplace : s.place t = some (i, p)) (hp : p.roams = true)
    (hword : s.this_module_singleton_initialized i = .Uninitialized) :
    Inv c ((s.set_state i .Initializing).goto t i .map_cas) (Function.update life i (.held t .map_cas))
      map_life := by
  have hfresh : life i = .fresh := Life.eq_fresh (by rw [← h.instances.word i, hword])
  have hroams := Place.of_roams hp
  refine h.instance_step_quiet (of_place hplace ⟨hroams.2.1, hroams.2.2.1⟩)
    (of_place (i := i) (p := .map_cas) rfl ⟨rfl, nofun⟩)
    rfl rfl rfl rfl rfl rfl ?_ nofun (by rw [hfresh]; rfl) (by rw [hfresh]; rfl)
  refine h.instances.update (fun j hj => Function.update_of_ne hj _ _) (fun _ _ => rfl)
    (Function.update_self i _ _) ?_ (eq_of_place hplace) ?_ ?_ ?_
  · have hpoints := h.instances.points i
    rw [hfresh] at hpoints
    exact hpoints
  · intro j q hj
    cases hj
    exact ⟨rfl, fun _ => rfl, nofun, nofun⟩
  · intro u q hq
    cases hq
    exact ⟨rfl, rfl, rfl⟩
  · intro u q _ hu
    exact h.others_of_unheld (by rw [hfresh]; nofun) (by rw [hfresh]; nofun) u q hu

/-- A phoenix that was destroyed starts again. -/
theorem resurrect (h : Inv c s life map_life) (hplace : s.place t = some (i, .resurrect))
    (hword : s.this_module_singleton_initialized i = .Destroyed) :
    Inv c ((s.set_state i .Uninitialized).goto t i .cas_again) (Function.update life i .fresh)
      map_life := by
  have hdead : life i = .dead := Life.eq_dead (by rw [← h.instances.word i, hword])
  refine h.instance_step_quiet (of_place hplace ⟨rfl, nofun⟩)
    (of_place (i := i) (p := .cas_again) rfl ⟨rfl, nofun⟩)
    rfl rfl rfl rfl rfl rfl ?_ nofun (by rw [hdead]; rfl) (by rw [hdead]; rfl)
  refine h.instances.update (fun j hj => Function.update_of_ne hj _ _) (fun _ _ => rfl)
    (Function.update_self i _ _) ?_ (eq_of_place hplace) ?_ nofun ?_
  · have hpoints := h.instances.points i
    rw [hdead] at hpoints
    exact hpoints
  · intro j q hj
    cases hj
    exact ⟨rfl, nofun, nofun, nofun⟩
  · intro u q _ hu
    exact h.others_of_unheld (by rw [hdead]; nofun) (by rw [hdead]; nofun) u q hu

theorem after_cas (h : Inv c s life map_life) (hplace : s.place t = some (i, p)) (hp : p.roams = true)
    (hclosing : NotClosing s i) : ∃ life', Inv c (after_cas s t i) life' map_life := by
  unfold intermodule_singleton.after_cas
  split
  next hword => exact ⟨_, h.win hplace hp hword⟩
  next => exact ⟨_, h.goto hplace hp rfl nofun⟩
  next hword => exact ⟨_, h.goto hplace hp rfl fun _ => h.ready_of_initialized hword hclosing⟩
  next => exact ⟨_, h.leave hplace hp⟩
  next => exact ⟨_, h.leave hplace hp⟩

/-- The winner of an instance goes on without touching the map, the global map or
    the counts. -/
theorem proceed (h : Inv c s life map_life) {q : Place} (hplace : s.place t = some (i, p))
    (hp : p.holds = true) (hp_map : p.holds_map = false) (hq : q.holds = true) (hq_map : q.holds_map = false)
    (hs : s'.place = Function.update s.place t (some (i, q)))
    (hmap : s'.this_module_map_initialized = s.this_module_map_initialized) (hmem : s'.map_mem = s.map_mem)
    (hcount : s'.this_module_singleton_count = s.this_module_singleton_count)
    (hentry : s'.entry = s.entry) (hliving : s'.living = s.living)
    (hstate : ∀ j, j ≠ i → s'.this_module_singleton_initialized j = s.this_module_singleton_initialized j)
    (hptr : ∀ j, j ≠ i → s'.this_module_singleton_ptr j = s.this_module_singleton_ptr j)
    (hword : s'.this_module_singleton_initialized i = (Life.held t q).word)
    (hpoints : (Life.held t q).Points (s'.this_module_singleton_ptr i))
    (huses : (Life.held t q).uses_map = true → map_life (c.module i) = .up)
    (hattached : q.attached = p.attached) (hcounted : q.counted = p.counted) :
    Inv c s' (Function.update life i (.held t q)) map_life := by
  have hlife := h.instances.holder t i p hplace hp
  have hdec : ∀ {r : Place}, r.holds = true → r ≠ .fini_dec := by
    rintro r hr rfl
    cases hr
  exact h.instance_step_quiet (of_place hplace ⟨hp_map, hdec hp⟩) (of_place rfl ⟨hq_map, hdec hq⟩) hs hmap hmem
    hcount hentry hliving (h.instances.advance hplace hp hq hstate hptr hword hpoints) huses
    (by rw [hlife]; exact hattached) (by rw [hlife]; exact hcounted)

omit [DecidableEq τ] [DecidableEq ι] in
theorem up_of_holder (h : Inv c s life map_life) (hplace : s.place t = some (i, p)) (hp : p.holds = true)
    (huses : (p.passed_map || p.counted) = true) : map_life (c.module i) = .up := by
  refine h.maps.uses i ?_
  rw [h.instances.holder t i p hplace hp]
  exact huses

omit [DecidableEq τ] [DecidableEq ι] in
theorem word_of_winner (h : Inv c s life map_life) (hplace : s.place t = some (i, p)) (hp : p.initializes = true) :
    s.this_module_singleton_initialized i = .Initializing := by
  rw [h.instances.word i, h.instances.holder t i p hplace (Place.holds_of_initializes hp)]
  simp only [Life.word, hp, if_true]

omit [DecidableEq τ] [DecidableEq ι] in
theorem ptr_of_unattached (h : Inv c s life map_life) (hplace : s.place t = some (i, p))
    (hp : p.initializes = true) (hnone : p.attached = none) : s.this_module_singleton_ptr i = none := by
  have hpoints := h.instances.points i
  rw [h.instances.holder t i p hplace (Place.holds_of_initializes hp)] at hpoints
  exact (Life.points_iff_of_unattached hp hnone _).mp hpoints

/-- A step of the winner that only changes where it stands. -/
theorem winner_goto (h : Inv c s life map_life) {q : Place} (hplace : s.place t = some (i, p))
    (hp : p.initializes = true) (hp_map : p.holds_map = false) (hq : q.initializes = true)
    (hq_map : q.holds_map = false) (hp_none : p.attached = none) (hq_none : q.attached = none)
    (hcounted : q.counted = p.counted)
    (huses : (Life.held t q).uses_map = true → map_life (c.module i) = .up) :
    Inv c (s.goto t i q) (Function.update life i (.held t q)) map_life := by
  refine h.proceed hplace (Place.holds_of_initializes hp) hp_map (Place.holds_of_initializes hq) hq_map
    rfl rfl rfl rfl rfl rfl (fun _ _ => rfl) (fun _ _ => rfl) ?_ ?_ huses
    (hq_none.trans hp_none.symm) hcounted
  · refine (h.word_of_winner hplace hp).trans ?_
    simp only [Life.word, hq, if_true]
  · exact (Life.points_iff_of_unattached hq hq_none _).mpr (h.ptr_of_unattached hplace hp hp_none)

omit [DecidableEq τ] [DecidableEq ι] in
/-- A map that is not initialised by somebody else is held by nobody else. -/
theorem map_unheld (h : Inv c s life map_life)
    (hword : s.this_module_map_initialized (c.module i) ≠ .Initializing)
    (hmark : ∀ u j, c.module j = c.module i → s.place u ≠ some (j, .fini_mark_map)) (u : τ) (r : Place) :
    map_life (c.module i) ≠ .held u r := by
  intro hheld
  obtain ⟨hr, j, hj, hplace⟩ := h.maps.held _ u r hheld
  rw [h.maps.word, hheld] at hword
  cases r with
  | fini_mark_map => exact hmark u j hj hplace
  | map_make | map_retry | map_ready => exact hword rfl
  | _ => cases hr

/-- The exchange on the state of the map. -/
theorem map_cas (h : Inv c s life map_life) (hplace : s.place t = some (i, .map_cas))
    (hmark : ∀ u j, c.module j = c.module i → s.place u ≠ some (j, .fini_mark_map)) :
    ∃ life' map_life', Inv c (map_cas_step c s t i) life' map_life' := by
  unfold map_cas_step
  split
  next hword =>
    have hunheld := h.map_unheld (by rw [hword]; nofun) hmark
    refine ⟨_, _, h.map_step (.held t .map_make) hplace rfl rfl ⟨rfl, rfl⟩ ⟨rfl, rfl⟩ (by nofun) rfl rfl rfl
      rfl rfl rfl (fun m hm => Function.update_of_ne hm _ _) (fun _ _ => rfl) (Function.update_self _ _ _)
      trivial (fun _ => rfl) ?_ (fun u r hr => absurd hr (hunheld u r)) ?_⟩
    · rintro u r ⟨⟩
      exact ⟨rfl, rfl, rfl⟩
    · intro hup
      rw [h.maps.word, hup] at hword
      cases hword
  next => exact ⟨_, _, h⟩
  next hword =>
    refine ⟨_, _, h.winner_goto hplace rfl rfl rfl rfl rfl rfl rfl fun _ => ?_⟩
    have hunheld := h.map_unheld (by rw [hword]; nofun) hmark
    rw [h.maps.word] at hword
    cases hlife : map_life (c.module i) with
    | up => rfl
    | held u r => exact absurd hlife (hunheld u r)
    | absent => rw [hlife] at hword; cases hword
    | gone => rw [hlife] at hword; cases hword
  next hword =>
    exfalso
    rw [h.maps.word] at hword
    cases hlife : map_life (c.module i) with
    | held u r =>
      rw [hlife, MapLife.word] at hword
      split at hword <;> cases hword
    | _ => rw [hlife] at hword; cases hword
  next => exact ⟨_, _, h.winner_goto hplace rfl rfl rfl rfl rfl rfl rfl (by nofun)⟩

/-- The reset of a map that was destroyed. -/
theorem map_reset (h : Inv c s life map_life) (hplace : s.place t = some (i, .map_reset)) :
    ∃ life' map_life', Inv c ((if s.this_module_map_initialized (c.module i) = .Destroyed then
      s.set_map_state (c.module i) .Uninitialized else s).goto t i .map_cas) life' map_life' := by
  split
  next hword =>
    have hgone : map_life (c.module i) = .gone := by
      rw [h.maps.word] at hword
      cases hlife : map_life (c.module i) with
      | gone => rfl
      | held u r =>
        rw [hlife, MapLife.word] at hword
        split at hword <;> cases hword
      | _ => rw [hlife] at hword; cases hword
    exact ⟨_, _, h.map_step .absent hplace rfl rfl ⟨rfl, rfl⟩ ⟨rfl, rfl⟩ (by nofun) rfl rfl rfl
      rfl rfl rfl (fun m hm => Function.update_of_ne hm _ _) (fun _ _ => rfl) (Function.update_self _ _ _)
      trivial nofun nofun (by rw [hgone]; nofun) (by rw [hgone]; nofun)⟩
  next => exact ⟨_, _, h.winner_goto hplace rfl rfl rfl rfl rfl rfl rfl (by nofun)⟩

/-- The construction of the map, its retry and its end: steps of the thread that
    has the map for itself. -/
theorem map_holder_step (h : Inv c s life map_life) {q : Place} (stage : MapLife τ)
    (hplace : s.place t = some (i, p)) (hp : p.initializes_map = true) (hq : q.initializes = true)
    (hunattached : q.attached = none) (huncounted : q.counted = false)
    (huses : q.passed_map = true → stage = .up)
    (hs : s'.place = Function.update s.place t (some (i, q)))
    (hstate : s'.this_module_singleton_initialized = s.this_module_singleton_initialized)
    (hptr : s'.this_module_singleton_ptr = s.this_module_singleton_ptr)
    (hcount : s'.this_module_singleton_count = s.this_module_singleton_count)
    (hentry : s'.entry = s.entry) (hliving : s'.living = s.living)
    (hmap : ∀ m, m ≠ c.module i → s'.this_module_map_initialized m = s.this_module_map_initialized m)
    (hmem : ∀ m, m ≠ c.module i → s'.map_mem m = s.map_mem m)
    (hword : s'.this_module_map_initialized (c.module i) = stage.word)
    (hexists : stage.Exists (s'.map_mem (c.module i)))
    (hnext : q.holds_map = true → stage = .held t q)
    (hstage : ∀ u r, stage = .held u r → u = t ∧ r = q ∧ q.holds_map = true) :
    Inv c s' (Function.update life i (.held t q)) (Function.update map_life (c.module i) stage) := by
  have hholds : p.holds_map = true := by cases p <;> first | rfl | cases hp
  have hlife := h.maps.holder t i p hplace hholds
  refine h.map_step stage hplace ?_ hq ⟨?_, hunattached⟩ ⟨?_, huncounted⟩ huses hs hstate hptr hcount hentry
    hliving hmap hmem hword hexists hnext hstage ?_ ?_
  · cases p <;> first | rfl | cases hp
  · cases p <;> first | rfl | cases hp
  · cases p <;> first | rfl | cases hp
  · intro u r hr
    rw [hlife] at hr
    cases hr
    rfl
  · rw [hlife]
    nofun

omit [DecidableEq τ] [DecidableEq ι] in
theorem map_word_of_holder (h : Inv c s life map_life) (hplace : s.place t = some (i, p))
    (hp : p.initializes_map = true) :
    s.this_module_map_initialized (c.module i) = .Initializing := by
  have hholds : p.holds_map = true := by cases p <;> first | rfl | cases hp
  rw [h.maps.word, h.maps.holder t i p hplace hholds]
  simp only [MapLife.word, hp, if_true]

theorem map_make (h : Inv c s life map_life) (hplace : s.place t = some (i, .map_make)) {outcome : Outcome}
    (houtcome : outcome ≠ .throws) : ∃ life' map_life', Inv c (map_make_step c s t i outcome) life' map_life' := by
  have hword := h.map_word_of_holder hplace rfl
  have hmade : ∃ life' map_life', Inv c ((s.set_map_mem (c.module i) true).goto t i .map_ready) life' map_life' := by
    refine ⟨_, _, h.map_holder_step (.held t .map_ready) hplace rfl rfl rfl rfl (by nofun) rfl rfl rfl rfl rfl
      rfl (fun _ _ => rfl) (fun m hm => Function.update_of_ne hm _ _) hword (Function.update_self _ _ _)
      (fun _ => rfl) ?_⟩
    rintro u r ⟨⟩
    exact ⟨rfl, rfl, rfl⟩
  cases outcome with
  | returns => exact hmade
  | insert_throws => exact hmade
  | retry =>
    refine ⟨_, _, h.map_holder_step (.held t .map_retry) hplace rfl rfl rfl rfl (by nofun) rfl rfl rfl rfl rfl
      rfl (fun _ _ => rfl) (fun m hm => Function.update_of_ne hm _ _) hword trivial (fun _ => rfl) ?_⟩
    rintro u r ⟨⟩
    exact ⟨rfl, rfl, rfl⟩
  | throws => exact absurd rfl houtcome

theorem map_retry (h : Inv c s life map_life) (hplace : s.place t = some (i, .map_retry)) :
    ∃ life' map_life', Inv c ((s.set_map_state (c.module i) .Destroyed).goto t i .map_cas) life' map_life' :=
  ⟨_, _, h.map_holder_step .gone hplace rfl rfl rfl rfl (by nofun) rfl rfl rfl rfl rfl rfl
    (fun m hm => Function.update_of_ne hm _ _) (fun _ _ => rfl) (Function.update_self _ _ _) trivial nofun
    nofun⟩

theorem map_ready (h : Inv c s life map_life) (hplace : s.place t = some (i, .map_ready)) :
    ∃ life' map_life', Inv c ((s.set_map_state (c.module i) .Initialized).goto t i .construct) life'
      map_life' := by
  have hmem := h.maps.mem (c.module i)
  rw [h.maps.holder t i _ hplace rfl] at hmem
  exact ⟨_, _, h.map_holder_step .up hplace rfl rfl rfl rfl (fun _ => rfl) rfl rfl rfl rfl rfl rfl
    (fun m hm => Function.update_of_ne hm _ _) (fun _ _ => rfl) (Function.update_self _ _ _) hmem nofun nofun⟩

/-- The winner attaches its instance to an object of the global map. -/
theorem attach (h : Inv c s life map_life) (hplace : s.place t = some (i, .construct)) {k : Nat}
    (hs : s'.place = Function.update s.place t (some (i, .count_inc k)))
    (hstate : s'.this_module_singleton_initialized = s.this_module_singleton_initialized)
    (hptr : s'.this_module_singleton_ptr = s.this_module_singleton_ptr)
    (hmap : s'.this_module_map_initialized = s.this_module_map_initialized) (hmem : s'.map_mem = s.map_mem)
    (hcount : s'.this_module_singleton_count = s.this_module_singleton_count)
    (hentries : Entries c (Function.update (fun j => (life j).attached) i (some k)) s'.entry s'.living) :
    Inv c s' (Function.update life i (.held t (.count_inc k))) map_life := by
  refine h.instance_step_uncounted (of_place hplace ⟨rfl, nofun⟩)
    (of_place (i := i) (p := .count_inc k) rfl ⟨rfl, nofun⟩) hs hmap hmem hcount ?_
    (fun _ => h.up_of_holder hplace rfl rfl) hentries ?_
  · rw [hstate, hptr]
    exact h.instances.advance hplace rfl rfl (fun _ _ => rfl) (fun _ _ => rfl)
      (h.word_of_winner hplace rfl) (h.ptr_of_unattached hplace rfl rfl)
  · rw [h.instances.holder t i _ hplace rfl]
    rfl

theorem construct (h : Inv c s life map_life) (hplace : s.place t = some (i, .construct)) (outcome : Outcome) :
    ∃ life', Inv c (singleton_constructor c s t i outcome) life' map_life := by
  have hmem := h.maps.mem (c.module i)
  rw [h.up_of_holder hplace rfl rfl] at hmem
  have hunattached : (life i).attached = none := by
    rw [h.instances.holder t i _ hplace rfl]
    rfl
  unfold singleton_constructor
  rw [if_neg (by rw [show s.map_mem (c.module i) = true from hmem]; nofun)]
  split
  next => exact ⟨_, h.winner_goto hplace rfl rfl rfl rfl rfl rfl rfl nofun⟩
  next =>
    split
    next r hentry => exact ⟨_, h.attach hplace rfl rfl rfl rfl rfl rfl (h.entries.attach hunattached hentry)⟩
    next hentry =>
      dsimp only
      split
      next =>
        -- the object that could not be inserted was never seen by anybody
        exact ⟨_, h.proceed (q := .mark_broken) hplace rfl rfl rfl rfl rfl rfl rfl rfl rfl rfl (fun _ _ => rfl)
          (fun _ _ => rfl) (h.word_of_winner hplace rfl) (h.ptr_of_unattached hplace rfl rfl) nofun rfl rfl⟩
      next =>
        exact ⟨_, h.attach hplace rfl rfl rfl rfl rfl rfl
          (h.entries.attach_new hunattached hentry (s.constructed (c.name i)))⟩

theorem count_inc (h : Inv c s life map_life) {tmp : Nat} (hplace : s.place t = some (i, .count_inc tmp)) :
    Inv c ((s.set_count (c.module i) (s.this_module_singleton_count (c.module i) + 1)).goto t i (.barrier tmp))
      (Function.update life i (.held t (.barrier tmp))) map_life := by
  have hlife := h.instances.holder t i _ hplace rfl
  have hpoints := h.instances.points i
  rw [hlife] at hpoints
  refine h.instance_step (of_place hplace rfl) (of_place (i := i) (p := .barrier tmp) rfl rfl) rfl rfl rfl
    (h.instances.advance hplace rfl rfl (fun _ _ => rfl) (fun _ _ => rfl) (h.word_of_winner hplace rfl) hpoints)
    (fun _ => h.up_of_holder hplace rfl rfl) ?_ ?_
  · have hattached : (life i).attached = some tmp := by
      rw [hlife]
      rfl
    rw [show (Life.held t (.barrier tmp)).attached = (life i).attached from hattached.symm,
      Function.update_eq_self i (fun j => (life j).attached)]
    exact h.entries
  · intro m
    rw [hlife, hplace]
    by_cases hm : m = c.module i
    · subst hm
      simp [State.set_count, State.goto, Life.counted, Place.counted, leaving]
    · simp [State.set_count, State.goto, Life.counted, Place.counted, leaving, hm, Ne.symm hm]

theorem barrier (h : Inv c s life map_life) {tmp : Nat} (hplace : s.place t = some (i, .barrier tmp)) :
    Inv c ((s.set_state i .Initializing).goto t i (.assign tmp))
      (Function.update life i (.held t (.assign tmp))) map_life := by
  have hpoints := h.instances.points i
  rw [h.instances.holder t i _ hplace rfl] at hpoints
  exact h.proceed hplace rfl rfl rfl rfl rfl rfl rfl rfl rfl rfl (fun j hj => Function.update_of_ne hj _ _)
    (fun _ _ => rfl) (Function.update_self i _ _) hpoints (fun _ => h.up_of_holder hplace rfl rfl) rfl rfl

theorem assign (h : Inv c s life map_life) {tmp : Nat} (hplace : s.place t = some (i, .assign tmp)) :
    Inv c ((s.set_ptr i (some tmp)).goto t i (.publish tmp))
      (Function.update life i (.held t (.publish tmp))) map_life :=
  h.proceed hplace rfl rfl rfl rfl rfl rfl rfl rfl rfl rfl (fun _ _ => rfl)
    (fun _ hj => Function.update_of_ne hj _ _) (h.word_of_winner hplace rfl) (Function.update_self i _ _)
    (fun _ => h.up_of_holder hplace rfl rfl) rfl rfl

theorem publish (h : Inv c s life map_life) {tmp : Nat} (hplace : s.place t = some (i, .publish tmp)) :
    Inv c ((s.set_state i .Initialized).goto t i .returning) (Function.update life i (.ready tmp))
      map_life := by
  have hlife := h.instances.holder t i _ hplace rfl
  have hpoints := h.instances.points i
  rw [hlife] at hpoints
  refine h.instance_step_quiet (of_place hplace ⟨rfl, nofun⟩)
    (of_place (i := i) (p := .returning) rfl ⟨rfl, nofun⟩) rfl rfl rfl rfl rfl rfl ?_
    (fun _ => h.up_of_holder hplace rfl rfl) (by rw [hlife]; rfl) (by rw [hlife]; rfl)
  refine h.instances.own hplace rfl (fun j hj => Function.update_of_ne hj _ _) (fun _ _ => rfl)
    (Function.update_self i _ _) hpoints ?_ nofun
  rintro _ q ⟨⟩
  exact ⟨rfl, nofun, fun _ => ⟨tmp, rfl⟩, nofun⟩

theorem mark_broken (h : Inv c s life map_life) (hplace : s.place t = some (i, .mark_broken)) :
    Inv c ((s.set_state i .Broken).leave t) (Function.update life i .failed) map_life := by
  have hlife := h.instances.holder t i _ hplace rfl
  exact h.instance_step_quiet (of_place hplace ⟨rfl, nofun⟩) (by nofun) rfl rfl rfl rfl rfl rfl
    (h.instances.own hplace rfl (fun j hj => Function.update_of_ne hj _ _) (fun _ _ => rfl)
      (Function.update_self i _ _) (h.ptr_of_unattached hplace rfl rfl) nofun nofun)
    nofun (by rw [hlife]; rfl) (by rw [hlife]; rfl)

end Inv

end interprocess.ipcdetail.intermodule_singleton
