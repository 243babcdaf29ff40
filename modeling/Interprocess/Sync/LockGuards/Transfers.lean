import Interprocess.Sync.LockGuards.Conservation

namespace interprocess.lock_guards

open interprocess_upgradable_mutex Count Transition

variable {M G : Type} [DecidableEq M] [DecidableEq G] [Fintype G] {s t : State M G} {g source : G}
  {how : WaitEnd} {report : Report M} {u : Guard M}

omit [DecidableEq M] in
/-- A guard that owns is locked and has a mutex. -/
theorem owns_cases (u : Guard M) :
    (∃ m, u.m_locked = true ∧ u.mp_mutex = some m ∧ u.owns = true) ∨ u.owns = false := by
  obtain ⟨kind, mp_mutex, m_locked⟩ := u
  cases m_locked with
  | false => exact Or.inr rfl
  | true =>
    cases mp_mutex with
    | none => exact Or.inr rfl
    | some m => exact Or.inl ⟨m, rfl, rfl, rfl⟩

/-- Moving mutex and ownership between guards of one kind. -/
theorem Inv.move (hinv : Inv s) (hne : source ≠ g) (hu : s.guards source = some u)
    (hfree : ∀ m, holding (s.guards g) m = .none) {kind : Kind} (hkind : kind = u.kind) :
    Inv ((s.set source (some u.release)).set g (some ⟨kind, u.mp_mutex, u.owns⟩)) := by
  refine hinv.of_eq rfl fun m => ?_
  obtain ⟨n, hn, hset⟩ := tally_set_set hne (hfree m) (holding_release u m)
  rw [hn, hu, ← holding_moved u m, ← hkind]
  exact hset (some ⟨kind, u.mp_mutex, u.owns⟩)

/-- A conversion passes on what the mutex has made of the ownership of its source. -/
theorem Inv.take_over (hinv : Inv s) (hne : source ≠ g) {m : M} {op : Op} {result : Result}
    {c' : control_word_t} {kind : Kind} (hu : s.guards source = some u)
    (hlocked : u.m_locked = true) (hmutex : u.mp_mutex = some m)
    (hfree : ∀ m, holding (s.guards g) m = .none)
    (hperform : perform (s.ctrl m) op how = some (c', result)) (hacquired : result = .acquired)
    (hrequires : op.requires = ownership u.kind) (hgrants : grants op = ownership kind) :
    Inv ((({ s with ctrl := Function.update s.ctrl m c' } : State M G).set source
      (some u.release)).set g (some ⟨kind, some m, true⟩)) := by
  refine hinv.of_perform hperform rfl ?_ ?_
  · intro m' hm'
    obtain ⟨n, hn, hset⟩ := tally_set_set hne (hfree m') (holding_release u m')
    refine (hset _).trans ?_
    rw [hn, hu, holding_of_owns hlocked hmutex, holding_locked, if_neg hm', if_neg hm']
  · obtain ⟨n, hn, hset⟩ := tally_set_set hne (hfree m) (holding_release u m)
    refine ⟨n, ?_, (hset _).trans ?_⟩
    · rw [hn, hu, holding_of_owns hlocked hmutex, if_pos rfl, hrequires]
    · rw [holding_locked, if_pos rfl, hacquired, left, if_pos rfl, hgrants]

/-- A conversion that is refused leaves the ownership with its source. -/
theorem Inv.refused (hinv : Inv s) {m : M} {op : Op} {result : Result} {c' : control_word_t}
    (hu : s.guards source = some u) (hlocked : u.m_locked = true) (hmutex : u.mp_mutex = some m)
    (hperform : perform (s.ctrl m) op how = some (c', result)) (hrefused : result ≠ .acquired)
    (hrequires : op.requires = ownership u.kind) :
    Inv { s with ctrl := Function.update s.ctrl m c' } := by
  obtain ⟨n, hn, -⟩ := tally_set s source none m
  rw [hu, holding_of_owns hlocked hmutex, if_pos rfl, ← hrequires] at hn
  refine hinv.of_perform hperform rfl (fun _ _ => rfl) ⟨n, hn, ?_⟩
  rw [left, if_neg hrefused]
  exact hn

/-- A source that does not own gives up nothing. -/
theorem Inv.set_free (hinv : Inv s) {guard : Option (Guard M)}
    (hguard : ∀ m, holding guard m = .none) (hfree : ∀ m, holding (s.guards g) m = .none) :
    Inv (s.set g guard) := by
  refine hinv.of_eq rfl fun m => tally_set_eq ?_
  rw [hguard, hfree]

omit [Fintype G] in
/-- What a conversion does: it takes over an ownership, throws, or finds none. -/
theorem convert_cases {conversion : Conversion} (hu : s.guards source = some u)
    (hcall : s.convert g source conversion how = some (t, report)) :
    (∃ m c', u.m_locked = true ∧ u.mp_mutex = some m ∧
      ((perform (s.ctrl m) conversion.op how = some (c', .acquired) ∧
          t = (({ s with ctrl := Function.update s.ctrl m c' } : State M G).set source
            (some u.release)).set g (some ⟨conversion.target, some m, true⟩)) ∨
        (perform (s.ctrl m) conversion.op how = some (c', .thrown) ∧
          t = { s with ctrl := Function.update s.ctrl m c' })) ∧
      report.calls = [(m, conversion.op)]) ∨
    (u.owns = false ∧ report.calls = [] ∧
      t = (s.set source (some u.release)).set g (some ⟨conversion.target, u.mp_mutex, false⟩)) := by
  simp only [State.convert, hu] at hcall
  split at hcall
  · rename_i m hlocked hmutex
    obtain ⟨⟨s', result⟩, hmutexcall, heq⟩ := Option.map_eq_some_iff.mp hcall
    obtain ⟨c', hperform, rfl⟩ := mutex_call_eq_some hmutexcall
    refine Or.inl ⟨m, c', hlocked, hmutex, ?_, ?_⟩
    · cases result with
      | acquired =>
        cases heq
        exact Or.inl ⟨hperform, rfl⟩
      | failed => exact absurd rfl (Conversion.perform_op hperform)
      | thrown =>
        cases heq
        exact Or.inr ⟨hperform, rfl⟩
    · cases result <;> cases heq <;> rfl
  · rename_i hnot
    cases hcall
    refine Or.inr ⟨?_, rfl, rfl⟩
    rcases owns_cases u with ⟨m, hlocked, hmutex, -⟩ | hfree
    · exact absurd hmutex (hnot m hlocked)
    · exact hfree

omit [Fintype G] in
/-- What a conversion does that may be refused. -/
theorem try_convert_cases {conversion : TryConversion} (hu : s.guards source = some u)
    (hcall : s.try_convert g source conversion how = some (t, report)) :
    (∃ m c' result, u.m_locked = true ∧ u.mp_mutex = some m ∧
      perform (s.ctrl m) conversion.op how = some (c', result) ∧
      report.calls = [(m, conversion.op)] ∧
      ((result = .acquired ∧ report.answer = .returned true ∧
          t = (({ s with ctrl := Function.update s.ctrl m c' } : State M G).set source
            (some u.release)).set g (some ⟨conversion.target, some m, true⟩)) ∨
        (result = .failed ∧ report.answer = .returned false ∧
          t = ({ s with ctrl := Function.update s.ctrl m c' } : State M G).set g
            (some (.default_constructed conversion.target))) ∨
        (result = .thrown ∧ report.answer = .mutex_exception ∧
          t = { s with ctrl := Function.update s.ctrl m c' }))) ∨
    (u.owns = false ∧ report.calls = [] ∧
      t = (s.set source (some u.release)).set g
        (some (.default_constructed conversion.target))) := by
  simp only [State.try_convert, hu] at hcall
  split at hcall
  · rename_i m hlocked hmutex
    obtain ⟨⟨s', result⟩, hmutexcall, heq⟩ := Option.map_eq_some_iff.mp hcall
    obtain ⟨c', hperform, rfl⟩ := mutex_call_eq_some hmutexcall
    refine Or.inl ⟨m, c', result, hlocked, hmutex, hperform, ?_, ?_⟩
    · cases result <;> cases heq <;> rfl
    · cases result with
      | acquired =>
        cases heq
        exact Or.inl ⟨rfl, rfl, rfl⟩
      | failed =>
        cases heq
        exact Or.inr (Or.inl ⟨rfl, rfl, rfl⟩)
      | thrown =>
        cases heq
        exact Or.inr (Or.inr ⟨rfl, rfl, rfl⟩)
  · rename_i hnot
    cases hcall
    refine Or.inr ⟨?_, rfl, rfl⟩
    rcases owns_cases u with ⟨m, hlocked, hmutex, -⟩ | hfree
    · exact absurd hmutex (hnot m hlocked)
    · exact hfree

omit [DecidableEq G] [Fintype G] in
theorem holding_none_of_empty (hg : s.guards g = none) (m : M) :
    holding (s.guards g) m = .none := by
  rw [hg]
  rfl

theorem Inv.convert (hinv : Inv s) {conversion : Conversion} (hg : s.guards g = none)
    (hu : s.guards source = some u) (hkind : u.kind = conversion.source)
    (hcall : s.convert g source conversion how = some (t, report)) : Inv t := by
  have hne : source ≠ g := by
    rintro rfl
    rw [hg] at hu
    cases hu
  have hfree := holding_none_of_empty hg
  have hrequires : conversion.op.requires = ownership u.kind := by
    rw [conversion.op_requires, hkind]
  rcases convert_cases hu hcall with ⟨m, c', hlocked, hmutex, hresult, -⟩ | ⟨hnot, -, rfl⟩
  · rcases hresult with ⟨hperform, rfl⟩ | ⟨hperform, rfl⟩
    · exact hinv.take_over hne hu hlocked hmutex hfree hperform rfl hrequires conversion.op_grants
    · exact hinv.refused hu hlocked hmutex hperform nofun hrequires
  · refine (hinv.set_free (holding_release u) ?_).set_free (holding_unlocked _ _) ?_
    · rw [hu]
      exact holding_of_not_owns hnot
    · intro m
      have hother : (s.set source (some u.release)).guards g = s.guards g :=
        Function.update_of_ne hne.symm _ _
      rw [hother, hfree]

theorem Inv.try_convert (hinv : Inv s) {conversion : TryConversion} (hg : s.guards g = none)
    (hu : s.guards source = some u) (hkind : u.kind = conversion.source)
    (hcall : s.try_convert g source conversion how = some (t, report)) : Inv t := by
  have hne : source ≠ g := by
    rintro rfl
    rw [hg] at hu
    cases hu
  have hfree := holding_none_of_empty hg
  have hrequires : conversion.op.requires = ownership u.kind := by
    rw [conversion.op_requires, hkind]
  rcases try_convert_cases hu hcall with ⟨m, c', result, hlocked, hmutex, hperform, -, hresult⟩ |
    ⟨hnot, -, rfl⟩
  · rcases hresult with ⟨hacquired, -, rfl⟩ | ⟨rfl, -, rfl⟩ | ⟨rfl, -, rfl⟩
    · exact hinv.take_over hne hu hlocked hmutex hfree hperform hacquired hrequires
        conversion.op_grants
    · exact (hinv.refused hu hlocked hmutex hperform nofun hrequires).set_free
        (holding_unlocked _ _) hfree
    · exact hinv.refused hu hlocked hmutex hperform nofun hrequires
  · refine (hinv.set_free (holding_release u) ?_).set_free (holding_unlocked _ _) ?_
    · rw [hu]
      exact holding_of_not_owns hnot
    · intro m
      have hother : (s.set source (some u.release)).guards g = s.guards g :=
        Function.update_of_ne hne.symm _ _
      rw [hother, hfree]

omit [Fintype G] in
/-- `unlock` of a guard that owns. -/
theorem unlock_eq (hu : s.guards g = some u) (hlocked : u.m_locked = true) {m : M}
    (hmutex : u.mp_mutex = some m) :
    ∃ c', s.unlock g = some
      (({ s with ctrl := Function.update s.ctrl m c' } : State M G).set g
        (some { u with m_locked := false }), ⟨.returned true, [(m, unlock_op u.kind)]⟩) := by
  obtain ⟨c', hperform⟩ := perform_unlock (s.ctrl m) u.kind .woken
  refine ⟨c', ?_⟩
  simp only [State.unlock, hu, hlocked, hmutex, State.mutex_call, hperform, Option.map_some]

/-- Moving a guard into one that does not own, which may be the same. -/
theorem Inv.move_into (hinv : Inv s) {w : Guard M} (hthis : s.guards g = some w)
    (hfree : w.owns = false) (hu : s.guards source = some u) (hkind : w.kind = u.kind) :
    Inv ((s.set source (some u.release)).set g (some ⟨w.kind, u.mp_mutex, u.owns⟩)) := by
  have hholding : ∀ m, holding (s.guards g) m = .none := by
    intro m
    rw [hthis]
    exact holding_of_not_owns hfree m
  by_cases hne : source = g
  · subst hne
    have huw : u = w := Option.some.inj (hu.symm.trans hthis)
    rw [huw, hfree]
    refine (hinv.set_free (holding_release w) hholding).set_free (holding_unlocked _ _) ?_
    intro m
    have hsame : (s.set source (some w.release)).guards source = some w.release :=
      Function.update_self ..
    rw [hsame, holding_release]
  · exact hinv.move hne hu hholding hkind

theorem Inv.move_assign (hinv : Inv s) {w : Guard M} (hthis : s.guards g = some w)
    (hu : s.guards source = some u) (hkind : w.kind = u.kind)
    (hcall : s.move_assign g source = some (t, report)) : Inv t := by
  simp only [State.move_assign, hthis] at hcall
  rcases owns_cases w with ⟨m, hlocked, hmutex, howns⟩ | hnot
  · obtain ⟨c', hunlock⟩ := unlock_eq hthis hlocked hmutex
    have hinv' := hinv.unlock hunlock
    rw [if_pos howns, hunlock] at hcall
    obtain ⟨scop, hscop, heq⟩ := Option.map_eq_some_iff.mp hcall
    cases heq
    have hkind' : w.kind = scop.kind := by
      by_cases hne : source = g
      · subst hne
        simp only [State.set, Function.update_self, Option.some.injEq] at hscop
        rw [← hscop]
      · simp only [State.set, Function.update_of_ne hne, hu, Option.some.injEq] at hscop
        rw [← hscop, hkind]
    exact hinv'.move_into (w := { w with m_locked := false }) (Function.update_self ..) rfl hscop
      hkind'
  · rw [if_neg (by rw [hnot]; exact Bool.false_ne_true)] at hcall
    obtain ⟨scop, hscop, heq⟩ := Option.map_eq_some_iff.mp hcall
    cases heq
    have hsame : scop = u := Option.some.inj (hscop.symm.trans hu)
    rw [hsame]
    exact hinv.move_into hthis hnot hu hkind

end interprocess.lock_guards
