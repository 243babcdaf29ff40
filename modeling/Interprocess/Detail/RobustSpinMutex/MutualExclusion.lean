import Interprocess.Base.Transition
import Interprocess.Detail.RobustSpinMutex.Operations

open Transition

namespace interprocess.robust_spin_mutex

variable {π : Type}

/-- A live process that acquired the mutex and has not released it. -/
def State.acquired (s : State π) (p : π) : Prop :=
  s.alive p = true ∧ (s.place p).acquired = true

/-- The inner mutex is locked and who locked it is dead. -/
def State.abandoned (s : State π) : Prop :=
  s.mtx = true ∧ ∀ p, s.alive p = true → s.place p ≠ .write_owner ∧ s.place p ≠ .mtx_unlock

/-- A process that found no owner becomes the owner only of an abandoned mutex. -/
def SwapsAbandoned (s : State π) : Label π → Prop
  | .access p _ => (s.place p).swaps_invalid = true → s.owner = none → s.abandoned
  | _ => True

instance [Fintype π] [DecidableEq π] (s : State π) : Decidable s.abandoned :=
  inferInstanceAs (Decidable (s.mtx = true ∧
    ∀ p, s.alive p = true → s.place p ≠ .write_owner ∧ s.place p ≠ .mtx_unlock))

instance [Fintype π] [DecidableEq π] (s : State π) (a : Label π) : Decidable (SwapsAbandoned s a) :=
  match a with
  | .call _ _ => inferInstanceAs (Decidable True)
  | .access p _ =>
    inferInstanceAs (Decidable ((s.place p).swaps_invalid = true → s.owner = none → s.abandoned))
  | .die _ => inferInstanceAs (Decidable True)

/-- The inner mutex and the owner agree with where the live processes are. -/
structure Inv (s : State π) : Prop where
  alone : ∀ p q, s.acquired p → s.acquired q → p = q
  locked : ∀ p, s.acquired p → s.mtx = true
  recorded : ∀ p, s.acquired p → (s.place p).recorded = true → s.owner = some p
  unrecorded : ∀ p, s.acquired p → (s.place p).recorded = false → s.owner = none
  free : s.mtx = false → s.owner = none
  holds : ∀ p, s.owner = some p → s.alive p = true → (s.place p).acquired = true
  judged : ∀ p call q, s.place p = .cas_owner call (some q) → s.alive q = false

variable {s s' : State π} {p : π}

theorem back_acquired (held : Bool) : (Place.back held : Place π).acquired = held := by
  cases held <;> rfl

theorem back_recorded (held : Bool) : (Place.back held : Place π).recorded = held := by
  cases held <;> rfl

theorem acquired_of_inside {place : Place π} (hinside : place.inside = true) :
    place.acquired = true := by
  cases place <;> simp_all [Place.inside, Place.acquired]

theorem start_inv : Inv (start : State π) := by
  refine ⟨?_, ?_, ?_, ?_, fun _ => rfl, ?_, ?_⟩
  · rintro p q ⟨_, hp⟩
    cases hp
  · rintro p ⟨_, hp⟩
    cases hp
  · rintro p ⟨_, hp⟩
    cases hp
  · rintro p ⟨_, hp⟩
    cases hp
  · intro p hp
    cases hp
  · intro p call q hp
    cases hp

/-- Nobody else has a mutex of which the owner was found dead. -/
theorem Inv.swap (hinv : Inv s) {call : Call} {old_owner : Option π}
    (hat : s.place p = .cas_owner call old_owner) (howner : s.owner = old_owner)
    (hnone : old_owner = none → s.abandoned) : s.mtx = true ∧ ∀ q, ¬ s.acquired q := by
  cases old_owner with
  | none =>
    obtain ⟨hmtx, hwindow⟩ := hnone rfl
    refine ⟨hmtx, ?_⟩
    intro q hq
    have hrec : (s.place q).recorded = true := by
      obtain ⟨hlive, hplace⟩ := hq
      have hw := hwindow q hlive
      cases hpl : s.place q <;> simp_all [Place.recorded, Place.acquired]
    have hsome := hinv.recorded q hq hrec
    rw [howner] at hsome
    cases hsome
  | some r =>
    have hdead := hinv.judged p call r hat
    refine ⟨?_, ?_⟩
    · cases hmtx : s.mtx with
      | true => rfl
      | false =>
        have hfree := hinv.free hmtx
        rw [howner] at hfree
        cases hfree
    · intro q hq
      cases hrec : (s.place q).recorded with
      | true =>
        have hsome := hinv.recorded q hq hrec
        rw [howner] at hsome
        cases hsome
        rw [hq.1] at hdead
        cases hdead
      | false =>
        have hnone := hinv.unrecorded q hq hrec
        rw [howner] at hnone
        cases hnone

variable [DecidableEq π]

/-- An access that changes neither the inner mutex nor the owner, and neither
    acquires nor releases. -/
theorem Inv.move (hinv : Inv s) {before place : Place π} (hat : s.place p = before)
    (hmtx : s'.mtx = s.mtx) (howner : s'.owner = s.owner) (halive : s'.alive = s.alive)
    (hplace : s'.place = Function.update s.place p place)
    (hacquired : place.acquired = before.acquired) (hrecorded : place.recorded = before.recorded)
    (hjudged : ∀ call q, place = .cas_owner call (some q) → s.alive q = false) : Inv s' := by
  have hacq : ∀ q, (s'.place q).acquired = (s.place q).acquired := by
    intro q
    rw [hplace]
    by_cases hq : q = p
    · rw [hq, Function.update_self, hacquired, hat]
    · rw [Function.update_of_ne hq]
  have hrec : ∀ q, (s'.place q).recorded = (s.place q).recorded := by
    intro q
    rw [hplace]
    by_cases hq : q = p
    · rw [hq, Function.update_self, hrecorded, hat]
    · rw [Function.update_of_ne hq]
  have hsame : ∀ q, s'.acquired q ↔ s.acquired q := by
    intro q
    unfold State.acquired
    rw [halive, hacq]
  refine ⟨?_, ?_, ?_, ?_, ?_, ?_, ?_⟩
  · intro q r hq hr
    exact hinv.alone q r ((hsame q).mp hq) ((hsame r).mp hr)
  · intro q hq
    rw [hmtx]
    exact hinv.locked q ((hsame q).mp hq)
  · intro q hq hr
    rw [howner]
    exact hinv.recorded q ((hsame q).mp hq) (hrec q ▸ hr)
  · intro q hq hr
    rw [howner]
    exact hinv.unrecorded q ((hsame q).mp hq) (hrec q ▸ hr)
  · rw [hmtx, howner]
    exact hinv.free
  · intro q hq hlive
    rw [hacq]
    rw [howner] at hq
    rw [halive] at hlive
    exact hinv.holds q hq hlive
  · intro q call r hq
    rw [halive]
    rw [hplace] at hq
    by_cases hqp : q = p
    · rw [hqp, Function.update_self] at hq
      exact hjudged call r hq
    · rw [Function.update_of_ne hqp] at hq
      exact hinv.judged q call r hq

/-- A process acquires a mutex that no live process has, or goes on to record or
    erase itself. -/
theorem Inv.take (hinv : Inv s) {place : Place π} (hlive : s.alive p = true) (hmtx : s'.mtx = true)
    (halive : s'.alive = s.alive) (hplace : s'.place = Function.update s.place p place)
    (hacquired : place.acquired = true) (hothers : ∀ q, s.acquired q → q = p)
    (howner : s'.owner = if place.recorded then some p else none) : Inv s' := by
  have hself : s'.place p = place := by rw [hplace, Function.update_self]
  have hother : ∀ q, q ≠ p → s'.place q = s.place q := by
    intro q hq
    rw [hplace, Function.update_of_ne hq]
  have hunique : ∀ q, s'.acquired q → q = p := by
    intro q hq
    by_contra hne
    unfold State.acquired at hq
    rw [halive, hother q hne] at hq
    exact hne (hothers q hq)
  refine ⟨?_, fun _ _ => hmtx, ?_, ?_, ?_, ?_, ?_⟩
  · intro q r hq hr
    rw [hunique q hq, hunique r hr]
  · intro q hq hr
    have hqp := hunique q hq
    subst hqp
    rw [hself] at hr
    rw [howner, if_pos hr]
  · intro q hq hr
    have hqp := hunique q hq
    subst hqp
    rw [hself] at hr
    rw [howner, hr]
    rfl
  · intro hfree
    rw [hmtx] at hfree
    cases hfree
  · intro q hq _
    have hqp : q = p := by
      rw [howner] at hq
      by_cases hr : place.recorded = true
      · rw [if_pos hr] at hq
        cases hq
        rfl
      · rw [if_neg hr] at hq
        cases hq
    subst hqp
    rw [hself]
    exact hacquired
  · intro q call r hq
    rw [halive]
    by_cases hqp : q = p
    · subst hqp
      rw [hself] at hq
      rw [hq] at hacquired
      cases hacquired
    · rw [hother q hqp] at hq
      exact hinv.judged q call r hq

/-- The inner mutex is unlocked. -/
theorem Inv.release (hinv : Inv s) (hat : s.place p = .mtx_unlock) (hlive : s.alive p = true)
    (howner : s'.owner = s.owner) (halive : s'.alive = s.alive)
    (hplace : s'.place = Function.update s.place p .outside) : Inv s' := by
  have hacq : s.acquired p := ⟨hlive, by rw [hat]; rfl⟩
  have hnone : s.owner = none := hinv.unrecorded p hacq (by rw [hat]; rfl)
  have hnobody : ∀ q, ¬ s'.acquired q := by
    rintro q ⟨hq, hplaceq⟩
    rw [halive] at hq
    rw [hplace] at hplaceq
    by_cases hqp : q = p
    · rw [hqp, Function.update_self] at hplaceq
      cases hplaceq
    · rw [Function.update_of_ne hqp] at hplaceq
      exact hqp (hinv.alone q p ⟨hq, hplaceq⟩ hacq)
  refine ⟨?_, ?_, ?_, ?_, ?_, ?_, ?_⟩
  · intro q _ hq
    exact absurd hq (hnobody q)
  · intro q hq
    exact absurd hq (hnobody q)
  · intro q hq
    exact absurd hq (hnobody q)
  · intro q hq
    exact absurd hq (hnobody q)
  · intro _
    rw [howner, hnone]
  · intro q hq
    rw [howner, hnone] at hq
    cases hq
  · intro q call r hq
    rw [halive]
    rw [hplace] at hq
    by_cases hqp : q = p
    · rw [hqp, Function.update_self] at hq
      cases hq
    · rw [Function.update_of_ne hqp] at hq
      exact hinv.judged q call r hq

theorem Inv.die (hinv : Inv s) (hmtx : s'.mtx = s.mtx) (howner : s'.owner = s.owner)
    (halive : s'.alive = Function.update s.alive p false) (hplace : s'.place = s.place) : Inv s' := by
  have hstill : ∀ q, s'.alive q = true → s.alive q = true := by
    intro q hq
    rw [halive] at hq
    by_cases hqp : q = p
    · rw [hqp, Function.update_self] at hq
      cases hq
    · rwa [Function.update_of_ne hqp] at hq
  have hacq : ∀ q, s'.acquired q → s.acquired q := by
    rintro q ⟨hq, hplaceq⟩
    rw [hplace] at hplaceq
    exact ⟨hstill q hq, hplaceq⟩
  refine ⟨?_, ?_, ?_, ?_, ?_, ?_, ?_⟩
  · intro q r hq hr
    exact hinv.alone q r (hacq q hq) (hacq r hr)
  · intro q hq
    rw [hmtx]
    exact hinv.locked q (hacq q hq)
  · intro q hq hr
    rw [howner]
    exact hinv.recorded q (hacq q hq) (hplace ▸ hr)
  · intro q hq hr
    rw [howner]
    exact hinv.unrecorded q (hacq q hq) (hplace ▸ hr)
  · rw [hmtx, howner]
    exact hinv.free
  · intro q hq hlive
    rw [howner] at hq
    rw [hplace]
    exact hinv.holds q hq (hstill q hlive)
  · intro q call r hq
    rw [hplace] at hq
    have hdead := hinv.judged q call r hq
    cases hr : s'.alive r with
    | false => rfl
    | true =>
      rw [hstill r hr] at hdead
      cases hdead

theorem Inv.access (hinv : Inv s) {choice : Bool} (hlive : s.alive p = true)
    (hallowed : SwapsAbandoned s (.access p choice)) (hstep : access s p choice = some s') : Inv s' := by
  unfold robust_spin_mutex.access at hstep
  have hlone : (s.place p).acquired = true → ∀ q, s.acquired q → q = p :=
    fun hacq q hq => hinv.alone q p hq ⟨hlive, hacq⟩
  cases hplace : s.place p with
  | outside | holding =>
    simp only [hplace] at hstep
    cases hstep
  | read_state call =>
    simp only [hplace] at hstep
    split_ifs at hstep <;> cases hstep
    · exact hinv.move hplace rfl rfl rfl rfl rfl rfl (by simp)
    · exact hinv.move hplace rfl rfl rfl rfl rfl rfl (by simp)
  | lock_own_unique_file call =>
    simp only [hplace] at hstep
    split_ifs at hstep <;> cases hstep
    · exact hinv.move hplace rfl rfl rfl rfl rfl rfl (by simp)
    · exact hinv.move hplace rfl rfl rfl rfl rfl rfl (by simp)
  | mtx_try_lock call =>
    simp only [hplace] at hstep
    split_ifs at hstep with hmtx <;> cases hstep
    · exact hinv.move hplace rfl rfl rfl rfl rfl rfl (by simp)
    · have hfree : s.mtx = false := by simpa using hmtx
      refine hinv.take hlive rfl rfl rfl rfl ?_ (hinv.free hfree)
      intro q hq
      exact absurd (hinv.locked q hq) hmtx
  | write_owner =>
    simp only [hplace] at hstep
    cases hstep
    refine hinv.take hlive ?_ rfl rfl rfl (hlone (by rw [hplace]; rfl)) rfl
    exact hinv.locked p ⟨hlive, by rw [hplace]; rfl⟩
  | read_owner call =>
    simp only [hplace] at hstep
    cases hstep
    exact hinv.move hplace rfl rfl rfl rfl rfl rfl (by simp)
  | is_owner_dead call old_owner =>
    simp only [hplace] at hstep
    split_ifs at hstep with hdead <;> cases hstep
    · refine hinv.move hplace rfl rfl rfl rfl rfl rfl ?_
      intro call' q hq
      cases hq
      simpa [is_owner_dead] using hdead
    · rcases s.attempt_failed_eq p choice call with heq | heq <;> rw [heq]
      · exact hinv.move hplace rfl rfl rfl rfl rfl rfl (by simp)
      · exact hinv.move hplace rfl rfl rfl rfl rfl rfl (by simp)
  | cas_owner call old_owner =>
    simp only [hplace] at hstep
    split_ifs at hstep with howner <;> cases hstep
    · have hswap := hinv.swap hplace howner (by
        rintro rfl
        exact hallowed (by rw [hplace]; rfl) howner)
      refine hinv.take hlive hswap.1 rfl rfl rfl ?_ rfl
      intro q hq
      exact absurd hq (hswap.2 q)
    · exact hinv.move hplace rfl rfl rfl rfl rfl rfl (by simp)
  | write_fixing =>
    simp only [hplace] at hstep
    cases hstep
    exact hinv.move hplace rfl rfl rfl rfl rfl rfl (by simp)
  | consistent_state held =>
    simp only [hplace] at hstep
    split_ifs at hstep <;> cases hstep
    · exact hinv.move hplace rfl rfl rfl rfl rfl rfl (by simp)
    · exact hinv.move hplace rfl rfl rfl rfl rfl rfl (by simp)
  | consistent_owner held =>
    simp only [hplace] at hstep
    split_ifs at hstep <;> cases hstep
    · exact hinv.move hplace rfl rfl rfl rfl rfl rfl (by simp)
    · refine hinv.move hplace rfl rfl rfl rfl (back_acquired held) (back_recorded held) ?_
      cases held <;> simp [Place.back]
  | consistent_write held =>
    simp only [hplace] at hstep
    cases hstep
    refine hinv.move hplace rfl rfl rfl rfl (back_acquired held) (back_recorded held) ?_
    cases held <;> simp [Place.back]
  | unlock_state =>
    simp only [hplace] at hstep
    split_ifs at hstep <;> cases hstep
    · exact hinv.move hplace rfl rfl rfl rfl rfl rfl (by simp)
    · exact hinv.move hplace rfl rfl rfl rfl rfl rfl (by simp)
  | write_broken =>
    simp only [hplace] at hstep
    cases hstep
    exact hinv.move hplace rfl rfl rfl rfl rfl rfl (by simp)
  | clear_owner =>
    simp only [hplace] at hstep
    cases hstep
    refine hinv.take hlive ?_ rfl rfl rfl (hlone (by rw [hplace]; rfl)) rfl
    exact hinv.locked p ⟨hlive, by rw [hplace]; rfl⟩
  | mtx_unlock =>
    simp only [hplace] at hstep
    cases hstep
    exact hinv.release hplace hlive rfl rfl rfl

theorem Inv.begin_call (hinv : Inv s) {op : Op} (hstep : begin_call s p op = some s') : Inv s' := by
  cases op with
  | lock call =>
    simp only [robust_spin_mutex.begin_call] at hstep
    split_ifs at hstep with hplace
    cases hstep
    exact hinv.move hplace rfl rfl rfl rfl rfl rfl (by simp)
  | unlock =>
    simp only [robust_spin_mutex.begin_call] at hstep
    split_ifs at hstep with hplace
    cases hstep
    exact hinv.move hplace rfl rfl rfl rfl rfl rfl (by simp)
  | consistent =>
    simp only [robust_spin_mutex.begin_call] at hstep
    split_ifs at hstep with hholding houtside <;> cases hstep
    · exact hinv.move hholding rfl rfl rfl rfl rfl rfl (by simp)
    · exact hinv.move houtside rfl rfl rfl rfl rfl rfl (by simp)

theorem Inv.step (hinv : Inv s) {a : Label π} (hallowed : SwapsAbandoned s a)
    (hstep : step s a = some s') : Inv s' := by
  cases a with
  | call p op =>
    simp only [robust_spin_mutex.step] at hstep
    split_ifs at hstep
    exact hinv.begin_call hstep
  | access p choice =>
    simp only [robust_spin_mutex.step] at hstep
    split_ifs at hstep with hlive
    exact hinv.access hlive hallowed hstep
  | die p =>
    cases hstep
    exact hinv.die rfl rfl rfl rfl

/-- No two live processes are between a successful lock and the matching unlock,
    as long as only abandoned mutexes are taken over from an invalid owner. -/
theorem mutual_exclusion (s : State π) (hrun : Reaches step SwapsAbandoned start s) (p q : π)
    (hp : s.alive p = true) (hq : s.alive q = true) (hpin : (s.place p).inside = true)
    (hqin : (s.place q).inside = true) : p = q := by
  have hinv : Inv s := hrun.invariant start_inv fun _ _ _ hbefore hallowed hstep =>
    hbefore.step hallowed hstep
  exact hinv.alone p q ⟨hp, acquired_of_inside hpin⟩ ⟨hq, acquired_of_inside hqin⟩

/-- A process takes over from a dead one. -/
theorem mutual_exclusion_after_death :
    ∃ s : State (Fin 2), Reaches step SwapsAbandoned start s ∧ s.alive 0 = false ∧
      (s.place 1).inside = true ∧ ∀ p, s.alive p = true → (s.place p).inside = true → p = 1 := by
  obtain ⟨s, hrun, hs⟩ := exists_reaches_of_replay step SwapsAbandoned start
    [.call (0 : Fin 2) (.lock .lock), .access 0 true, .access 0 true, .access 0 true, .access 0 true,
      .die 0, .call 1 (.lock .lock), .access 1 true, .access 1 true, .access 1 true, .access 1 true,
      .access 1 true, .access 1 true, .access 1 true]
    (fun s => s.alive 0 = false ∧ s.alive 1 = true ∧ (s.place 1).inside = true) (by decide)
  obtain ⟨hdead, hlive, hinside⟩ := of_decide_eq_true hs
  refine ⟨s, hrun, hdead, hinside, ?_⟩
  intro p hp hpin
  exact mutual_exclusion s hrun p 1 hp hlive hpin hinside

/-- A process that has locked the inner mutex and not yet recorded itself is
    taken for dead. -/
theorem unrecorded_owner_is_taken_for_dead :
    ∃ s : State (Fin 2), Reachable step start s ∧ s.alive 0 = true ∧ s.alive 1 = true ∧
      (s.place 0).inside = true ∧ (s.place 1).inside = true := by
  obtain ⟨s, hreach, hs⟩ := exists_reachable_of_replay step start
    [.call (0 : Fin 2) (.lock .lock), .access 0 true, .access 0 true, .access 0 true,
      .call 1 (.lock .lock), .access 1 true, .access 1 true, .access 1 true, .access 1 true,
      .access 1 true, .access 1 true, .access 1 true, .access 0 true]
    (fun s => s.alive 0 = true ∧ s.alive 1 = true ∧ (s.place 0).inside = true ∧
      (s.place 1).inside = true) (by decide)
  exact ⟨s, hreach, of_decide_eq_true hs⟩

end interprocess.robust_spin_mutex
