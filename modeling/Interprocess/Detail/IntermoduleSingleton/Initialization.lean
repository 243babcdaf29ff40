import Interprocess.Base.Transition
import Interprocess.Detail.IntermoduleSingleton.Winning

open Count Transition

namespace interprocess.ipcdetail.intermodule_singleton

variable {τ ι μ ν : Type} [DecidableEq τ] [DecidableEq ι] [DecidableEq μ] [DecidableEq ν] [Fintype τ]
  [Fintype ι]

namespace Inv

variable {c : Config ι μ ν} {s s' : State τ ι μ ν} {life : ι → Life τ} {map_life : μ → MapLife τ}
  {t : τ} {i : ι} {p : Place}

/-- The call of the destructor, in a state where nobody else is half way. -/
theorem fini_destroy (h : Inv c s life map_life) (hplace : s.place t = some (i, .fini_destroy))
    (hword : s.this_module_singleton_initialized i = .Initialized) (hclosing : NotClosing s i)
    (hreturning : ∀ u, s.place u ≠ some (i, .returning)) :
    Inv c (singleton_destructor c s t i) (Function.update life i (.held t .fini_null)) map_life := by
  obtain ⟨k, hready⟩ := h.ready_of_initialized hword hclosing
  have hattached : (life i).attached = some k := by
    rw [hready]
    rfl
  have hup : map_life (c.module i) = .up := h.maps.uses i (by rw [hready]; rfl)
  have hmem := h.maps.mem (c.module i)
  rw [hup] at hmem
  obtain ⟨r, hentry, -⟩ := h.entries.object i k hattached
  have hinstances : Instances (Function.update s.place t (some (i, .fini_null)))
      s.this_module_singleton_initialized s.this_module_singleton_ptr
      (Function.update life i (.held t .fini_null)) := by
    refine h.instances.update (fun _ _ => rfl) (fun _ _ => rfl) hword trivial (eq_of_place hplace) ?_ ?_ ?_
    · rintro _ q ⟨⟩
      exact ⟨rfl, fun _ => rfl, by rintro ⟨⟩, by rintro ⟨⟩⟩
    · intro u q hq
      cases hq
      exact ⟨rfl, rfl, rfl⟩
    · intro u q _ hu
      refine ⟨?_, ?_⟩
      · by_contra hq
        have hheld := h.instances.holder u i q hu (by simpa using hq)
        rw [hready] at hheld
        cases hheld
      · rintro rfl
        exact absurd hu (hreturning u)
  unfold singleton_destructor
  rw [if_neg (by rw [show s.map_mem (c.module i) = true from hmem]; rintro ⟨⟩), hentry]
  dsimp only
  split
  next hlast =>
    exact h.instance_step_uncounted (of_place hplace ⟨rfl, by rintro ⟨⟩⟩)
      (of_place (i := i) (p := .fini_null) rfl ⟨rfl, by rintro ⟨⟩⟩) rfl rfl rfl rfl hinstances (fun _ => hup)
      (h.entries.detach_last hattached hentry hlast) (by rw [hready]; rfl)
  next hmore =>
    exact h.instance_step_uncounted (of_place hplace ⟨rfl, by rintro ⟨⟩⟩)
      (of_place (i := i) (p := .fini_null) rfl ⟨rfl, by rintro ⟨⟩⟩) rfl rfl rfl rfl hinstances (fun _ => hup)
      (h.entries.detach hattached hentry hmore) (by rw [hready]; rfl)

omit [DecidableEq τ] [DecidableEq ι] in
theorem word_of_closing (h : Inv c s life map_life) (hplace : s.place t = some (i, p))
    (hp : p.holds = true) (hclosing : p.initializes = false) :
    s.this_module_singleton_initialized i = .Initialized := by
  rw [h.instances.word i, h.instances.holder t i p hplace hp]
  simp only [Life.word, hclosing, Bool.false_eq_true, if_false]

theorem fini_null (h : Inv c s life map_life) (hplace : s.place t = some (i, .fini_null)) :
    Inv c ((s.set_ptr i none).goto t i .fini_mark) (Function.update life i (.held t .fini_mark)) map_life :=
  h.proceed hplace rfl rfl rfl rfl rfl rfl rfl rfl rfl rfl (fun _ _ => rfl)
    (fun _ hj => Function.update_of_ne hj _ _) (h.word_of_closing hplace rfl rfl) (Function.update_self i _ _)
    (fun _ => h.up_of_holder hplace rfl rfl) rfl rfl

theorem fini_mark (h : Inv c s life map_life) (hplace : s.place t = some (i, .fini_mark)) :
    Inv c ((s.set_state i .Destroyed).goto t i .fini_dec) (Function.update life i .dead) map_life := by
  have hlife := h.instances.holder t i _ hplace rfl
  have hpoints := h.instances.points i
  rw [hlife] at hpoints
  refine h.instance_step (of_place hplace rfl) (of_place (i := i) (p := .fini_dec) rfl rfl) rfl rfl rfl
    (h.instances.own hplace rfl (fun j hj => Function.update_of_ne hj _ _) (fun _ _ => rfl)
      (Function.update_self i _ _) hpoints ?_ nofun) nofun ?_ ?_
  · rintro _ _ ⟨⟩
    exact ⟨rfl, nofun, nofun, nofun⟩
  · have hattached : (life i).attached = none := by
      rw [hlife]
      rfl
    rw [show (Life.dead : Life τ).attached = (life i).attached from hattached.symm,
      Function.update_eq_self i (fun j => (life j).attached)]
    exact h.entries
  · intro m
    rw [hlife, hplace]
    simp [State.set_state, State.goto, Life.counted, Place.counted, leaving]

omit [DecidableEq ι] in
/-- The number of singletons is positive before a finaliser takes its own from
    it. -/
theorem fini_dec (h : Inv c s life map_life) (hplace : s.place t = some (i, .fini_dec)) :
    Inv c (fini_dec_step c s t i) life map_life := by
  have hmove : ∀ next, (∀ j q, next = some (j, q) → q.roams = true ∧ q ≠ .returning) →
      Inv c { s.set_count (c.module i) (s.this_module_singleton_count (c.module i) - 1) with
        place := Function.update s.place t next } life map_life := by
    intro next hnext
    refine ⟨h.instances.roam (of_place hplace rfl) ?_, ?_, h.entries, ?_⟩
    · intro j q hj
      have hroams := Place.of_roams (hnext j q hj).1
      exact ⟨hroams.1, fun hq => absurd hq (hnext j q hj).2, hroams.2.2.2⟩
    · exact h.maps.roam (of_place hplace rfl) (fun j q hj => (Place.of_roams (hnext j q hj).1).2.1) h.maps.uses
    · intro m
      have hcount := count_update (leaving c m) s.place t next
      have hleaving : leaving c m next = false :=
        leaving_eq_false fun j q hj => (Place.of_roams (hnext j q hj).1).2.2.1
      have hbefore := h.counts m
      rw [hplace, hleaving] at hcount
      by_cases hm : m = c.module i
      · subst hm
        simp only [leaving, decide_true, Bool.toNat_true, Bool.toNat_false] at hcount
        simp only [State.set_count, Function.update_self]
        omega
      · simp only [leaving, Ne.symm hm, decide_false, Bool.toNat_false] at hcount
        simp only [State.set_count, Function.update_of_ne hm]
        omega
  unfold fini_dec_step
  dsimp only
  split
  · refine hmove (some (i, .fini_read_count)) ?_
    intro j q hj
    cases hj
    exact ⟨rfl, by rintro ⟨⟩⟩
  · exact hmove none (by rintro _ _ ⟨⟩)

omit [DecidableEq τ] [DecidableEq ι] in
/-- A counted instance makes the number of singletons of its module positive. -/
theorem not_counted (h : Inv c s life map_life) {m : μ} (hcount : s.this_module_singleton_count m = 0) {j : ι}
    (hj : c.module j = m) : (life j).counted = false := by
  have hweight := weight_le_tally (fun i b => (decide (c.module i = m) && b).toNat)
    (fun i => (life i).counted) j
  have htotal := h.counts m
  rw [hcount] at htotal
  cases hcounted : (life j).counted with
  | false => rfl
  | true =>
    simp only [hj, hcounted, decide_true, Bool.and_self, Bool.toNat_true] at hweight
    omega

omit [DecidableEq ι] in
/-- The destruction of the map object, in a state where nobody relies on it. -/
theorem fini_unmap (h : Inv c s life map_life) (hplace : s.place t = some (i, .fini_unmap))
    (hmem : s.map_mem (c.module i) = true)
    (hword : s.this_module_map_initialized (c.module i) = .Initialized)
    (hcount : s.this_module_singleton_count (c.module i) = 0)
    (hpassed : ∀ u, ∀ x ∈ s.place u, c.module x.1 = c.module i → x.2.passed_map = false) :
    Inv c ((s.set_map_mem (c.module i) false).goto t i .fini_mark_map) life
      (Function.update map_life (c.module i) (.held t .fini_mark_map)) := by
  have hup : map_life (c.module i) = .up := by
    rw [h.maps.word] at hword
    have hexists := h.maps.mem (c.module i)
    cases hlife : map_life (c.module i) with
    | up => rfl
    | held u q =>
      rw [hlife] at hword hexists
      have hq := (h.maps.held _ u q hlife).1
      cases q with
      | fini_mark_map => exact absurd (hmem.symm.trans hexists) (by nofun)
      | map_make | map_retry | map_ready => cases hword
      | _ => cases hq
    | _ => rw [hlife] at hword; cases hword
  refine ⟨h.instances.roam (of_place hplace rfl) ?_, ?_, h.entries, ?_⟩
  · rintro _ _ ⟨⟩
    exact ⟨rfl, nofun, nofun⟩
  · refine h.maps.update (fun _ _ => rfl) (fun m hm => Function.update_of_ne hm _ _) hword
      (Function.update_self _ _ _) ?_ ?_ ?_ (by rw [hup]; nofun) ?_
    · intro j q hj
      rw [eq_of_place hplace j q hj]
    · rintro _ q ⟨⟩
      exact ⟨rfl, fun _ => rfl⟩
    · rintro u q ⟨⟩
      exact ⟨rfl, rfl, i, rfl, rfl⟩
    · intro j hj
      refine ⟨fun hm => ?_, fun _ => hj⟩
      exfalso
      have hcounted := h.not_counted hcount hm
      cases hlife : life j with
      | held u q =>
        rw [hlife] at hj hcounted
        simp only [Life.uses_map, show q.counted = false from hcounted, Bool.or_false] at hj
        rw [hpassed u (j, q) (h.instances.held j u q hlife).1 hm] at hj
        cases hj
      | ready k => rw [hlife] at hcounted; cases hcounted
      | _ => rw [hlife] at hj; cases hj
  · refine h.counts.roam t _ fun m => ?_
    rw [hplace]
    rfl

omit [DecidableEq ι] in
theorem fini_mark_map (h : Inv c s life map_life) (hplace : s.place t = some (i, .fini_mark_map)) :
    Inv c ((s.set_map_state (c.module i) .Destroyed).leave t) life
      (Function.update map_life (c.module i) .gone) := by
  have hheld := h.maps.holder t i _ hplace rfl
  refine ⟨h.instances.roam (of_place hplace rfl) nofun, ?_, h.entries, ?_⟩
  · refine h.maps.update (fun m hm => Function.update_of_ne hm _ _) (fun _ _ => rfl) (Function.update_self _ _ _)
      trivial ?_ nofun nofun ?_ ?_
    · intro j q hj
      rw [eq_of_place hplace j q hj]
    · intro u q hq
      rw [hheld] at hq
      cases hq
      rfl
    · intro j hj
      refine ⟨fun hm => ?_, fun _ => hj⟩
      have hup := h.maps.uses j hj
      rw [hm, hheld] at hup
      cases hup
  · refine h.counts.roam t _ fun m => ?_
    rw [hplace]
    rfl

/-- Every step that a thread takes in an orderly way leads to a state that some
    stages fit. -/
theorem run_at (h : Inv c s life map_life) (hplace : s.place t = some (i, p)) {outcome : Outcome}
    (horderly : OrderlyAt c s i outcome p) (hstep : run_at c s t i outcome p = some s') :
    ∃ life' map_life', Inv c s' life' map_life' := by
  cases p with
  | read_state =>
    cases hstep
    split
    next hword => exact ⟨_, _, h.goto hplace rfl rfl fun _ => h.ready_of_initialized hword horderly⟩
    next => exact ⟨_, _, h.goto hplace rfl rfl (by rintro ⟨⟩)⟩
  | cas =>
    cases hstep
    split
    · exact ⟨_, _, h.goto hplace rfl rfl (by rintro ⟨⟩)⟩
    · exact (h.after_cas hplace rfl horderly).imp fun _ h' => ⟨_, h'⟩
  | resurrect =>
    cases hstep
    split
    next hword => exact ⟨_, _, h.resurrect hplace hword⟩
    next => exact ⟨_, _, h.goto hplace rfl rfl (by rintro ⟨⟩)⟩
  | cas_again =>
    cases hstep
    exact (h.after_cas hplace rfl horderly).imp fun _ h' => ⟨_, h'⟩
  | wait =>
    cases hstep
    obtain ⟨hbroken, hdestroyed, hclosing⟩ := horderly
    unfold wait_step
    split
    next => exact ⟨_, _, h⟩
    next => exact ⟨_, _, h⟩
    next hword => exact ⟨_, _, h.goto hplace rfl rfl fun _ => h.ready_of_initialized hword hclosing⟩
    next hword => exact absurd hword hbroken
    next hword => exact absurd hword hdestroyed
  | map_cas =>
    cases hstep
    exact h.map_cas hplace horderly
  | map_reset =>
    cases hstep
    exact h.map_reset hplace
  | map_make =>
    cases hstep
    exact h.map_make hplace horderly
  | map_retry =>
    cases hstep
    exact h.map_retry hplace
  | map_ready =>
    cases hstep
    exact h.map_ready hplace
  | construct =>
    cases hstep
    exact (h.construct hplace outcome).imp fun _ h' => ⟨_, h'⟩
  | count_inc tmp =>
    cases hstep
    exact ⟨_, _, h.count_inc hplace⟩
  | barrier tmp =>
    cases hstep
    exact ⟨_, _, h.barrier hplace⟩
  | assign tmp =>
    cases hstep
    exact ⟨_, _, h.assign hplace⟩
  | publish tmp =>
    cases hstep
    exact ⟨_, _, h.publish hplace⟩
  | mark_broken =>
    cases hstep
    exact ⟨_, _, h.mark_broken hplace⟩
  | returning =>
    cases hstep
    exact ⟨_, _, h.leave hplace rfl⟩
  | fini_destroy =>
    cases hstep
    exact ⟨_, _, h.fini_destroy hplace horderly.1 horderly.2.1 horderly.2.2⟩
  | fini_null =>
    cases hstep
    exact ⟨_, _, h.fini_null hplace⟩
  | fini_mark =>
    cases hstep
    exact ⟨_, _, h.fini_mark hplace⟩
  | fini_dec =>
    cases hstep
    exact ⟨_, _, h.fini_dec hplace⟩
  | fini_read_count =>
    cases hstep
    split
    · exact ⟨_, _, h.goto hplace rfl rfl (by rintro ⟨⟩)⟩
    · exact ⟨_, _, h.leave hplace rfl⟩
  | fini_unmap =>
    cases hstep
    obtain ⟨hmem, hword, hcount, hpassed⟩ := horderly
    rw [if_neg (by rw [hmem]; rintro ⟨⟩)]
    exact ⟨_, _, h.fini_unmap hplace hmem hword hcount hpassed⟩
  | fini_mark_map =>
    cases hstep
    exact ⟨_, _, h.fini_mark_map hplace⟩
  | undefined => cases hstep

theorem step (h : Inv c s life map_life) {label : Label τ ι} (horderly : Orderly c s label)
    (hstep : step c s label = some s') : ∃ life' map_life', Inv c s' life' map_life' := by
  -- a thread that starts has nothing for itself
  have hstart : ∀ t i (q : Place), s.place t = none → q.roams = true → q ≠ .returning →
      ∃ life' map_life', Inv c (s.goto t i q) life' map_life' := by
    intro t i q hidle hq hreturning
    refine ⟨_, _, h.roam (by rw [hidle]; rintro _ _ ⟨⟩) ?_⟩
    rintro _ _ ⟨⟩
    exact ⟨hq, fun hr => absurd hr hreturning⟩
  cases label with
  | run t outcome =>
    simp only [intermodule_singleton.step] at hstep
    split at hstep
    · cases hstep
    next i p hplace => exact h.run_at hplace (horderly (i, p) hplace) hstep
  | get t i =>
    simp only [intermodule_singleton.step] at hstep
    split at hstep
    next hidle =>
      cases hstep
      split
      · exact ⟨_, _, h⟩
      · exact hstart t i .read_state hidle rfl (by rintro ⟨⟩)
    next => cases hstep
  | atentry_work t i =>
    simp only [intermodule_singleton.step] at hstep
    split at hstep
    next hidle =>
      cases hstep
      exact hstart t i .read_state hidle rfl (by rintro ⟨⟩)
    next => cases hstep
  | atexit_work t i =>
    simp only [intermodule_singleton.step] at hstep
    split at hstep
    next hidle =>
      cases hstep
      split
      · exact hstart t i .fini_destroy hidle rfl (by rintro ⟨⟩)
      · exact ⟨_, _, h⟩
    next => cases hstep

end Inv

omit [DecidableEq τ] [DecidableEq ι] in
/-- Before any thread runs nothing is there. -/
theorem inv_start (c : Config ι μ ν) :
    Inv c (start : State τ ι μ ν) (fun _ => .fresh) (fun _ => .absent) where
  instances := ⟨fun _ => rfl, fun _ => rfl, nofun, nofun, nofun, nofun⟩
  maps := ⟨fun _ => rfl, fun _ => trivial, nofun, nofun, nofun⟩
  entries := ⟨nofun, fun n => by simp [tally, Life.attached, start], nofun, fun _ => rfl⟩
  counts := fun m => by simp [tally, count, total, Life.counted, leaving, start]

/-- One type in one module. -/
def single : Config Unit Unit Unit where
  module := id
  name := id
  Phoenix := fun _ => false

end interprocess.ipcdetail.intermodule_singleton
