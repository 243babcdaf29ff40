import Interprocess.Sync.LockGuards.Releases

namespace interprocess.lock_guards

open interprocess_upgradable_mutex Count Transition

variable {M G : Type} [DecidableEq M] [DecidableEq G] [Fintype G] {s t : State M G} {g source : G}
  {how : WaitEnd} {report : Report M} {u : Guard M}

omit [Fintype G] in
/-- What a guard locks with needs no ownership. -/
theorem lock_with_calls {kind : Kind} {m m' : M} {locking : Locking} {o : Op}
    (hlock : s.lock_with g kind m locking how = some (t, report)) (hmem : (m', o) ∈ report.calls) :
    o.requires = .none := by
  obtain ⟨⟨s', result⟩, -, heq⟩ := Option.map_eq_some_iff.mp hlock
  have hcalls : report.calls = [(m, locking.op kind)] := by
    cases result <;> cases heq <;> rfl
  rw [hcalls, List.mem_singleton] at hmem
  cases hmem
  exact locking.op_requires kind

omit [Fintype G] in
/-- `unlock` calls the mutex that the guard holds. -/
theorem unlock_calls {m : M} {o : Op} (hunlock : s.unlock g = some (t, report))
    (hmem : (m, o) ∈ report.calls) : holding (s.guards g) m = o.requires := by
  unfold State.unlock at hunlock
  split at hunlock
  · cases hunlock
  · rename_i u hu
    split at hunlock
    · rename_i m' hlocked hmutex
      obtain ⟨⟨s', result⟩, -, heq⟩ := Option.map_eq_some_iff.mp hunlock
      cases heq
      rw [List.mem_singleton] at hmem
      cases hmem
      rw [hu, holding_of_owns hlocked hmutex, if_pos rfl, unlock_op_requires]
    · cases hunlock
      cases hmem

omit [Fintype G] in
/-- A function of a mutex that takes an ownership away or changes it is only called for
    a guard that has this ownership. -/
theorem called_of_call {op : GuardOp M G} {m : M} {o : Op} (hwell : Wellformed s op)
    (hcall : call s op = some (t, report)) (hmem : (m, o) ∈ report.calls)
    (howned : o.requires ≠ .none) : holding (s.guards op.subject) m = o.requires := by
  cases op with
  | construct g kind =>
    cases hcall
    cases hmem
  | construct_lock g kind m' locking how => exact absurd (lock_with_calls hcall hmem) howned
  | construct_defer g kind m' =>
    cases hcall
    cases hmem
  | construct_accept g kind m' =>
    cases hcall
    cases hmem
  | move_construct g source =>
    obtain ⟨u, -, heq⟩ := Option.map_eq_some_iff.mp hcall
    cases heq
    cases hmem
  | convert g source conversion how =>
    obtain ⟨-, u, hu, hkind⟩ := hwell
    rcases convert_cases hu hcall with ⟨m', c', hlocked, hmutex, -, hcalls⟩ | ⟨-, hcalls, -⟩
    · rw [hcalls, List.mem_singleton] at hmem
      cases hmem
      refine (congrArg (holding · m) hu).trans ?_
      rw [holding_of_owns hlocked hmutex, if_pos rfl, conversion.op_requires, hkind]
    · rw [hcalls] at hmem
      cases hmem
  | try_convert g source conversion how =>
    obtain ⟨-, u, hu, hkind⟩ := hwell
    rcases try_convert_cases hu hcall with ⟨m', c', result, hlocked, hmutex, -, hcalls, -⟩ |
      ⟨-, hcalls, -⟩
    · rw [hcalls, List.mem_singleton] at hmem
      cases hmem
      refine (congrArg (holding · m) hu).trans ?_
      rw [holding_of_owns hlocked hmutex, if_pos rfl, conversion.op_requires, hkind]
    · rw [hcalls] at hmem
      cases hmem
  | move_assign g source =>
    obtain ⟨kind, ⟨w, hw, -⟩, -⟩ := hwell
    simp only [call, State.move_assign, hw] at hcall
    obtain ⟨⟨s', unlocked⟩, hunlock, hmoved⟩ := Option.bind_eq_some_iff.mp hcall
    obtain ⟨u, -, heq⟩ := Option.map_eq_some_iff.mp hmoved
    cases heq
    split_ifs at hunlock with howns
    · exact unlock_calls hunlock hmem
    · cases hunlock
      cases hmem
  | lock g locking how =>
    simp only [call, State.lock] at hcall
    split at hcall
    · cases hcall
    · split at hcall
      · exact absurd (lock_with_calls hcall hmem) howned
      · cases hcall
        cases hmem
  | unlock g => exact unlock_calls hcall hmem
  | swap g other =>
    cases hcall
    cases hmem
  | release g =>
    obtain ⟨u, -, heq⟩ := Option.map_eq_some_iff.mp hcall
    split at heq <;> cases heq <;> cases hmem
  | destroy g =>
    simp only [call, State.destroy] at hcall
    split at hcall
    · cases hcall
    · split_ifs at hcall with howns
      · obtain ⟨⟨s', unlocked⟩, hunlock, heq⟩ := Option.map_eq_some_iff.mp hcall
        cases heq
        exact unlock_calls hunlock hmem
      · cases hcall
        cases hmem

omit [DecidableEq G] in
/-- Mutexes of no guard and of no released ownership are free. -/
theorem owners_of_no_guard (hconserved : Conserved s) (hnone : ∀ g, s.guards g = none)
    (hreleased : ∀ m kind, s.released m kind = 0) (m : M) (kind : Kind) :
    owners (s.ctrl m) kind = 0 := by
  have howning : owning s m kind = 0 := by
    refine (total_eq_zero_iff _ _).mpr fun g => ?_
    have hnot : decide (holding (s.guards g) m = ownership kind) = false := by
      rw [holding_none_of_empty (hnone g)]
      exact decide_eq_false (ownership_ne_none kind).symm
    exact congrArg Bool.toNat hnot
  rw [hconserved m kind, howning, hreleased m kind]

omit [Fintype G] in
/-- A promotion that fails leaves its source as it was and a guard without a mutex. -/
theorem failed_of_try_convert {conversion : TryConversion} (hg : s.guards g = none)
    (hu : s.guards source = some u) (howns : u.owns = true)
    (hcall : s.try_convert g source conversion how = some (t, report))
    (hfailed : report.answer ≠ .returned true) :
    t.guards source = some u ∧ (report.answer = .returned false →
      t.guards g = some (.default_constructed conversion.target)) := by
  have hne : source ≠ g := by
    rintro rfl
    rw [hg] at hu
    cases hu
  rcases try_convert_cases hu hcall with ⟨m, c', result, -, -, -, -, hresult⟩ | ⟨hnot, -, -⟩
  · rcases hresult with ⟨-, hanswer, -⟩ | ⟨-, -, rfl⟩ | ⟨-, hanswer, rfl⟩
    · exact absurd hanswer hfailed
    · exact ⟨(Function.update_of_ne hne _ _).trans hu, fun _ => Function.update_self ..⟩
    · refine ⟨hu, fun hreturned => ?_⟩
      rw [hanswer] at hreturned
      cases hreturned
  · rw [howns] at hnot
    cases hnot

omit [DecidableEq M] [Fintype G] in
theorem set_set_guards (hne : source ≠ g) (guard guard' : Option (Guard M)) :
    ((s.set source guard).set g guard').guards g = guard' ∧
      ((s.set source guard).set g guard').guards source = guard :=
  ⟨Function.update_self .., (Function.update_of_ne hne _ _).trans (Function.update_self ..)⟩

/-- What the target and the source of a transfer are after it. -/
def Moved (u : Guard M) (g source : G) (t : State M G) : Prop :=
  (∃ v, t.guards g = some v ∧ v.mp_mutex = u.mp_mutex ∧ v.owns = false) ∧
    (source ≠ g → t.guards source = some u.release)

omit [DecidableEq M] [Fintype G] in
theorem moved_of_set {kind : Kind} {m_locked : Bool} (hnot : m_locked = false) (u : Guard M)
    (g source : G) (s : State M G) : Moved u g source
      ((s.set source (some u.release)).set g (some ⟨kind, u.mp_mutex, m_locked⟩)) := by
  subst hnot
  refine ⟨⟨_, Function.update_self .., rfl, rfl⟩, ?_⟩
  intro hne
  exact (set_set_guards hne _ _).2

omit [Fintype G] in
theorem moved_of_convert {conversion : Conversion} (hu : s.guards source = some u)
    (hnot : u.owns = false) (hcall : s.convert g source conversion how = some (t, report)) :
    Moved u g source t := by
  rcases convert_cases hu hcall with ⟨m, c', hlocked, hmutex, -⟩ | ⟨-, -, rfl⟩
  · rw [Guard.owns, hlocked, hmutex] at hnot
    cases hnot
  · exact moved_of_set rfl u g source s

omit [Fintype G] in
/-- A promotion that may fail hands over the mutex of a source that does not own only if
    there is none. -/
theorem moved_of_try_convert_iff {conversion : TryConversion} (hg : s.guards g = none)
    (hu : s.guards source = some u) (hnot : u.owns = false)
    (hcall : s.try_convert g source conversion how = some (t, report)) :
    Moved u g source t ↔ u.mp_mutex = none := by
  have hne : source ≠ g := by
    rintro rfl
    rw [hg] at hu
    cases hu
  rcases try_convert_cases hu hcall with ⟨m, c', result, hlocked, hmutex, -⟩ | ⟨-, -, rfl⟩
  · rw [Guard.owns, hlocked, hmutex] at hnot
    cases hnot
  · constructor
    · rintro ⟨⟨v, hv, hmutex, -⟩, -⟩
      rw [(set_set_guards hne _ _).1] at hv
      cases hv
      exact hmutex.symm
    · intro hnone
      refine ⟨⟨_, Function.update_self .., hnone.symm, rfl⟩, ?_⟩
      intro hne
      exact (set_set_guards hne _ _).2

omit [Fintype G] in
theorem moved_of_move_assign {w : Guard M} (hthis : s.guards g = some w)
    (hu : s.guards source = some u) (hnot : u.owns = false)
    (hcall : s.move_assign g source = some (t, report)) : Moved u g source t := by
  simp only [State.move_assign, hthis] at hcall
  rcases owns_cases w with ⟨m, hlocked, hmutex, howns⟩ | hfree
  · have hne : source ≠ g := by
      rintro rfl
      rw [Option.some.inj (hthis.symm.trans hu), hnot] at howns
      cases howns
    obtain ⟨c', hunlock⟩ := unlock_eq hthis hlocked hmutex
    rw [if_pos howns, hunlock] at hcall
    obtain ⟨scop, hscop, heq⟩ := Option.map_eq_some_iff.mp hcall
    cases heq
    simp only [State.set, Function.update_of_ne hne, hu, Option.some.injEq] at hscop
    subst hscop
    exact moved_of_set hnot u g source _
  · rw [if_neg (by rw [hfree]; exact Bool.false_ne_true)] at hcall
    obtain ⟨scop, hscop, heq⟩ := Option.map_eq_some_iff.mp hcall
    cases heq
    have hsame : scop = u := Option.some.inj (hscop.symm.trans hu)
    subst hsame
    exact moved_of_set hnot scop g source s

omit [Fintype G] in
/-- A transfer hands over the mutex of a source that does not own, unless it is a promotion
    that may fail. -/
theorem moved_of_call {op : GuardOp M G} (hwell : Wellformed s op) (hmeets : Meets s op)
    (htransfer : op.transfer = some (g, source)) (hu : s.guards source = some u)
    (hnot : u.owns = false) (hcall : call s op = some (t, report)) : Moved u g source t := by
  cases op with
  | move_construct g' source' =>
    cases htransfer
    simp only [call, State.move_construct, hu, Option.map_some, Option.some.injEq] at hcall
    cases hcall
    exact moved_of_set hnot u g source s
  | convert g' source' conversion how =>
    cases htransfer
    exact moved_of_convert hu hnot hcall
  | try_convert g' source' conversion how =>
    cases htransfer
    exact (moved_of_try_convert_iff hwell.1 hu hnot hcall).mpr (hmeets u hu hnot)
  | move_assign g' source' =>
    cases htransfer
    obtain ⟨kind, ⟨w, hw, -⟩, -⟩ := hwell
    exact moved_of_move_assign hw hu hnot hcall
  | construct | construct_lock | construct_defer | construct_accept | lock | unlock | swap
  | release | destroy => cases htransfer

omit [Fintype G] in
theorem step_eq {op : GuardOp M G} (hcall : call s op = some (t, report)) : step s op = t := by
  rw [step, hcall]

omit [Fintype G] in
theorem exists_call {op : GuardOp M G} (hlegal : Legal s op) :
    ∃ t report, call s op = some (t, report) := by
  obtain ⟨⟨t, report⟩, hcall⟩ := Option.ne_none_iff_exists'.mp hlegal.2
  exact ⟨t, report, hcall⟩

theorem Inv.step (hinv : Inv s) {op : GuardOp M G} (hlegal : Legal s op) : Inv (step s op) := by
  obtain ⟨t, report, hcall⟩ := exists_call hlegal
  rw [step_eq hcall]
  exact hinv.call hlegal.1 hcall

/-- An operation does all it should exactly if it does not lose a mutex. -/
theorem sound_iff_meets (hinv : Inv s) {op : GuardOp M G} (hlegal : Legal s op) :
    Sound s op ↔ Meets s op := by
  obtain ⟨t, report, hcall⟩ := exists_call hlegal
  constructor
  · intro hsound
    cases op with
    | try_convert g source conversion how =>
      intro u hu hnot
      have hmoved := hsound.moved g source u rfl hu hnot
      rw [step_eq hcall] at hmoved
      exact (moved_of_try_convert_iff hlegal.1.1 hu hnot hcall).mp hmoved
    | _ => trivial
  · intro hmeets
    have hconserved := (hinv.step hlegal).conserved
    refine ⟨hconserved, ?_, owners_of_no_guard hconserved, ?_, ?_⟩
    · intro t' report' hcall' m o hmem howned
      exact called_of_call hlegal.1 hcall' hmem howned
    · rintro g source conversion how u t' report' rfl hu howns hcall' hfailed
      exact failed_of_try_convert hlegal.1.1 hu howns hcall' hfailed
    · intro g source u htransfer hu hnot
      rw [step_eq hcall]
      exact moved_of_call hlegal.1 hmeets htransfer hu hnot hcall

/-- Ownership is conserved along a run of operations on guards, and every transfer is what
    it should be, exactly if no promotion that may fail is from a guard that refers to a
    mutex without owning it. -/
theorem ownership_conserved_iff {ops : List (GuardOp M G)} (hlegal : Along step Legal start ops) :
    Along step Sound (start : State M G) ops ↔ Along step Meets start ops :=
  along_iff (fun _ _ hinv hlegal => sound_iff_meets hinv hlegal)
    (fun _ _ hinv hlegal _ => hinv.step hlegal) inv_start hlegal

theorem ownership_conserved_of_demotion :
    Along step Legal (start : State Unit Bool)
      [.construct_lock false .exclusive () .lock .woken,
        .convert true false .sharable_of_scoped .woken, .unlock true, .destroy true] ∧
    (Along step Sound (start : State Unit Bool)
      [.construct_lock false .exclusive () .lock .woken,
        .convert true false .sharable_of_scoped .woken, .unlock true, .destroy true] ↔
    Along step Meets (start : State Unit Bool)
      [.construct_lock false .exclusive () .lock .woken,
        .convert true false .sharable_of_scoped .woken, .unlock true, .destroy true]) := by
  have hlegal : Along step Legal (start : State Unit Bool)
      [.construct_lock false .exclusive () .lock .woken,
        .convert true false .sharable_of_scoped .woken, .unlock true, .destroy true] :=
    ⟨⟨rfl, nofun⟩, ⟨⟨rfl, _, rfl, rfl⟩, nofun⟩, ⟨⟨_, _, rfl, rfl⟩, nofun⟩,
      ⟨⟨_, _, rfl, rfl⟩, nofun⟩, trivial⟩
  exact ⟨hlegal, ownership_conserved_iff hlegal⟩

/-- A `scoped_lock` that tries to take over an `upgradable_lock` that was constructed with
    `defer_lock` has no mutex, and neither has its source. -/
theorem promotion_loses_mutex :
    Along step Legal (start : State Unit Bool)
      [.construct_defer false .upgradable (),
        .try_convert true false .scoped_of_upgradable_try .woken] ∧
    ¬ Along step Sound (start : State Unit Bool)
      [.construct_defer false .upgradable (),
        .try_convert true false .scoped_of_upgradable_try .woken] := by
  constructor
  · exact ⟨⟨rfl, nofun⟩, ⟨⟨rfl, _, rfl, rfl⟩, nofun⟩, trivial⟩
  · rintro ⟨-, hsound, -⟩
    obtain ⟨⟨v, hv, hmutex, -⟩, -⟩ := hsound.moved true false ⟨.upgradable, some (), false⟩
      rfl rfl rfl
    cases hv
    cases hmutex

end interprocess.lock_guards
