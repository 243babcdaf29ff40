import Interprocess.Detail.RobustSpinMutex.MutualExclusion

open Transition

namespace interprocess.robust_spin_mutex

namespace Place

variable {π : Type}

/-- Where a process that has to repair can be. -/
def repairing : Place π → Bool
  | .holding | .unlock_state | .write_broken => true
  | .consistent_state held | .consistent_owner held | .consistent_write held => held
  | _ => false

/-- Where a process can be once the mutex is broken. -/
def after_break : Place π → Bool
  | .outside | .read_state _ | .clear_owner | .mtx_unlock => true
  | .lock_own_unique_file _ | .mtx_try_lock _ | .read_owner _ => true
  | .is_owner_dead _ _ | .cas_owner _ _ => true
  | .consistent_state held | .consistent_owner held => !held
  | _ => false

end Place

variable {π : Type}

/-- `consistent` is called by the owner in the fixing state, or by a process that
    is not the owner in another state. -/
def ConsistentByOwner (s : State π) : Label π → Prop
  | .access p _ => ∀ held, s.place p = .consistent_state held →
    (s.owner = some p ↔ s.state = .fixing_state)
  | _ => True

/-- A call that repeats an attempt which returned `false`. -/
def Call.repeats (choice : Bool) : Call → Bool
  | .lock => true
  | .try_lock => false
  | .timed_lock => choice

/-- The access neither takes the mutex nor ends an attempt with `false`. -/
def Spares [DecidableEq π] (s : State π) (p : π) (choice : Bool) : Bool :=
  match s.place p with
  | .mtx_try_lock _ => s.mtx
  | .is_owner_dead call old_owner => is_owner_dead s old_owner || call.repeats choice
  | .cas_owner _ old_owner => s.owner ≠ old_owner
  | _ => true

/-- An attempt that passed its check before the mutex became broken does not go on to
    take it, and does not end with `false`. -/
def SparesBroken [DecidableEq π] (s : State π) : Label π → Prop
  | .access p choice => s.state = .broken_state → Spares s p choice = true
  | _ => True

/-- The condition on each step under which the recovery works. -/
structure Careful [DecidableEq π] (s : State π) (a : Label π) : Prop where
  swaps_abandoned : SwapsAbandoned s a
  consistent_by_owner : ConsistentByOwner s a
  spares_broken : SparesBroken s a

instance [Fintype π] [DecidableEq π] (s : State π) (a : Label π) : Decidable (ConsistentByOwner s a) :=
  match a with
  | .call _ _ => inferInstanceAs (Decidable True)
  | .access p _ => inferInstanceAs (Decidable (∀ held, s.place p = .consistent_state held →
      (s.owner = some p ↔ s.state = .fixing_state)))
  | .die _ => inferInstanceAs (Decidable True)

instance [DecidableEq π] (s : State π) (a : Label π) : Decidable (SparesBroken s a) :=
  match a with
  | .call _ _ => inferInstanceAs (Decidable True)
  | .access p choice =>
    inferInstanceAs (Decidable (s.state = .broken_state → Spares s p choice = true))
  | .die _ => inferInstanceAs (Decidable True)

instance [Fintype π] [DecidableEq π] (s : State π) (a : Label π) : Decidable (Careful s a) :=
  decidable_of_iff (SwapsAbandoned s a ∧ ConsistentByOwner s a ∧ SparesBroken s a)
    ⟨fun h => ⟨h.1, h.2.1, h.2.2⟩,
      fun h => ⟨h.swaps_abandoned, h.consistent_by_owner, h.spares_broken⟩⟩

/-- The state word and the history agree with where the live processes are. -/
structure RecoveryInv (s : State π) : Prop extends Inv s where
  orphaned_locked : s.orphaned = true → s.mtx = true
  orphaned_fixing : s.orphaned = true → ∀ p, s.acquired p → s.place p = .write_fixing
  fixer : ∀ p, s.fixer = some p →
    s.acquired p ∧ (s.place p).repairing = true ∧ s.state = .fixing_state
  consistent_write : ∀ p held, s.alive p = true → s.place p = .consistent_write held →
    s.owner = some p ∧ s.state = .fixing_state
  consistent_owner : ∀ p held, s.alive p = true → s.place p = .consistent_owner held →
    s.owner ≠ some p
  broken : s.state = .broken_state → ∀ p, s.alive p = true → (s.place p).after_break = true

variable {s s' : State π} {p : π}

theorem acquired_of_repairing {place : Place π} (hrepairing : place.repairing = true) :
    place.acquired = true := by
  cases place <;> simp_all [Place.repairing, Place.acquired]

/-- The owner a process finds in `consistent_write` is the only one that has the
    mutex. -/
theorem RecoveryInv.eq_of_consistent_write (hinv : RecoveryInv s) {q : π} {held : Bool}
    (hp : s.acquired p) (hq : s.alive q = true) (hat : s.place q = .consistent_write held) : q = p := by
  have howner := (hinv.consistent_write q held hq hat).1
  have hacq := hinv.holds q howner hq
  exact hinv.alone q p ⟨hq, hacq⟩ hp

variable [DecidableEq π]

/-- An access that changes no shared word and neither acquires nor releases. -/
theorem RecoveryInv.move (hinv : RecoveryInv s) {before place : Place π} (hat : s.place p = before)
    (hlive : s.alive p = true) (hmtx : s'.mtx = s.mtx) (howner : s'.owner = s.owner)
    (hstate : s'.state = s.state) (halive : s'.alive = s.alive)
    (hplace : s'.place = Function.update s.place p place) (horphaned : s'.orphaned = s.orphaned)
    (hfixer : s'.fixer = s.fixer) (hacquired : place.acquired = before.acquired)
    (hrecorded : place.recorded = before.recorded) (hfixing : before ≠ .write_fixing)
    (hjudged : ∀ call q, place = .cas_owner call (some q) → s.alive q = false)
    (hrepairing : s.state = .fixing_state → before.repairing = true → place.repairing = true)
    (hbroken : s.state = .broken_state → before.after_break = true → place.after_break = true)
    (hwrite : ∀ held, place = .consistent_write held →
      s.owner = some p ∧ s.state = .fixing_state)
    (hcheck : ∀ held, place = .consistent_owner held → s.owner ≠ some p) : RecoveryInv s' := by
  have hself : s'.place p = place := by rw [hplace, Function.update_self]
  have hother : ∀ q, q ≠ p → s'.place q = s.place q := by
    intro q hq
    rw [hplace, Function.update_of_ne hq]
  have hacq : ∀ q, s'.acquired q → s.acquired q := by
    rintro q ⟨hq, hplaceq⟩
    rw [halive] at hq
    refine ⟨hq, ?_⟩
    by_cases hqp : q = p
    · rw [hqp, hself, hacquired] at hplaceq
      rw [hqp, hat]
      exact hplaceq
    · rwa [hother q hqp] at hplaceq
  refine ⟨hinv.toInv.move hat hmtx howner halive hplace hacquired hrecorded hjudged, ?_, ?_, ?_, ?_, ?_, ?_⟩
  · rw [horphaned, hmtx]
    exact hinv.orphaned_locked
  · intro horph q hq
    rw [horphaned] at horph
    have hqfix := hinv.orphaned_fixing horph q (hacq q hq)
    by_cases hqp : q = p
    · rw [hqp, hat] at hqfix
      exact absurd hqfix hfixing
    · rw [hother q hqp]
      exact hqfix
  · intro q hq
    rw [hfixer] at hq
    obtain ⟨hqacq, hqrep, hqstate⟩ := hinv.fixer q hq
    rw [hstate]
    by_cases hqp : q = p
    · rw [hqp, hat] at hqrep
      have hrep := hrepairing hqstate hqrep
      rw [hqp]
      unfold State.acquired
      rw [hself, halive]
      exact ⟨⟨hlive, acquired_of_repairing hrep⟩, hrep, hqstate⟩
    · unfold State.acquired
      rw [hother q hqp, halive]
      exact ⟨hqacq, hqrep, hqstate⟩
  · intro q held hq hplaceq
    rw [howner, hstate]
    rw [halive] at hq
    by_cases hqp : q = p
    · rw [hqp, hself] at hplaceq
      rw [hqp]
      exact hwrite held hplaceq
    · rw [hother q hqp] at hplaceq
      exact hinv.consistent_write q held hq hplaceq
  · intro q held hq hplaceq
    rw [howner]
    rw [halive] at hq
    by_cases hqp : q = p
    · rw [hqp, hself] at hplaceq
      rw [hqp]
      exact hcheck held hplaceq
    · rw [hother q hqp] at hplaceq
      exact hinv.consistent_owner q held hq hplaceq
  · intro hst q hq
    rw [hstate] at hst
    rw [halive] at hq
    have hqbreak := hinv.broken hst q hq
    by_cases hqp : q = p
    · rw [hqp, hat] at hqbreak
      rw [hqp, hself]
      exact hbroken hst hqbreak
    · rw [hother q hqp]
      exact hqbreak

/-- A live process is the only one with the mutex after its access: the others
    are not in the middle of `consistent`. -/
theorem RecoveryInv.only (hinv : RecoveryInv s) {place : Place π} (hnew : Inv s')
    (hothers : ∀ q, s.acquired q → q = p) (halive : s'.alive = s.alive)
    (hplace : s'.place = Function.update s.place p place)
    (hlocked : s'.orphaned = true → s'.mtx = true)
    (hself : s'.orphaned = true → place.acquired = true → place = .write_fixing)
    (hfixer : ∀ q, s'.fixer = some q → q = p ∧ s.alive p = true ∧ place.repairing = true ∧
      s'.state = .fixing_state)
    (hwrite : ∀ held, place ≠ .consistent_write held)
    (hcheck : ∀ held, place ≠ .consistent_owner held)
    (howner : ∀ q, q ≠ p → s'.owner ≠ some q)
    (hbroken : s'.state = .broken_state → ∀ q, s.alive q = true →
      (Function.update s.place p place q).after_break = true) : RecoveryInv s' := by
  have hat : s'.place p = place := by rw [hplace, Function.update_self]
  have hother : ∀ q, q ≠ p → s'.place q = s.place q := by
    intro q hq
    rw [hplace, Function.update_of_ne hq]
  refine ⟨hnew, hlocked, ?_, ?_, ?_, ?_, ?_⟩
  · rintro horph q ⟨hq, hplaceq⟩
    rw [halive] at hq
    by_cases hqp : q = p
    · rw [hqp, hat] at hplaceq
      rw [hqp, hat]
      exact hself horph hplaceq
    · rw [hother q hqp] at hplaceq
      exact absurd (hothers q ⟨hq, hplaceq⟩) hqp
  · intro q hq
    obtain ⟨rfl, hlive, hrep, hstate⟩ := hfixer q hq
    unfold State.acquired
    rw [hat, halive]
    exact ⟨⟨hlive, acquired_of_repairing hrep⟩, hrep, hstate⟩
  · intro q held hq hplaceq
    rw [halive] at hq
    by_cases hqp : q = p
    · rw [hqp, hat] at hplaceq
      exact absurd hplaceq (hwrite held)
    · rw [hother q hqp] at hplaceq
      have hown := (hinv.consistent_write q held hq hplaceq).1
      exact absurd (hothers q ⟨hq, hinv.holds q hown hq⟩) hqp
  · intro q held hq hplaceq
    by_cases hqp : q = p
    · rw [hqp, hat] at hplaceq
      exact absurd hplaceq (hcheck held)
    · exact howner q hqp
  · intro hst q hq
    rw [halive] at hq
    rw [hplace]
    exact hbroken hst q hq

/-- A process dies. -/
theorem RecoveryInv.die (hinv : RecoveryInv s) (p : π) :
    RecoveryInv { s with
      alive := Function.update s.alive p false
      orphaned := s.orphaned || (s.alive p && (s.place p).acquired)
      fixer := s.released_by p } := by
  have hstill : ∀ q, Function.update s.alive p false q = true → q ≠ p ∧ s.alive q = true := by
    intro q hq
    by_cases hqp : q = p
    · rw [hqp, Function.update_self] at hq
      cases hq
    · rw [Function.update_of_ne hqp] at hq
      exact ⟨hqp, hq⟩
  refine ⟨hinv.toInv.die rfl rfl rfl rfl, ?_, ?_, ?_, ?_, ?_, ?_⟩
  · intro horph
    rcases (Bool.or_eq_true _ _).mp horph with horph | hdied
    · exact hinv.orphaned_locked horph
    · obtain ⟨hlive, hacq⟩ := (Bool.and_eq_true _ _).mp hdied
      exact hinv.locked p ⟨hlive, hacq⟩
  · rintro horph q ⟨hq, hplaceq⟩
    obtain ⟨hqp, hlive⟩ := hstill q hq
    rcases (Bool.or_eq_true _ _).mp horph with horph | hdied
    · exact hinv.orphaned_fixing horph q ⟨hlive, hplaceq⟩
    · obtain ⟨hplive, hacq⟩ := (Bool.and_eq_true _ _).mp hdied
      exact absurd (hinv.alone q p ⟨hlive, hplaceq⟩ ⟨hplive, hacq⟩) hqp
  · intro q hq
    change s.released_by p = some q at hq
    unfold State.released_by at hq
    split_ifs at hq with hfixer
    obtain ⟨⟨hqlive, hqacq⟩, hqrep, hqstate⟩ := hinv.fixer q hq
    have hqp : q ≠ p := by
      rintro rfl
      exact hfixer hq
    refine ⟨⟨?_, hqacq⟩, hqrep, hqstate⟩
    change Function.update s.alive p false q = true
    rw [Function.update_of_ne hqp]
    exact hqlive
  · intro q held hq hplaceq
    exact hinv.consistent_write q held (hstill q hq).2 hplaceq
  · intro q held hq hplaceq
    exact hinv.consistent_owner q held (hstill q hq).2 hplaceq
  · intro hst q hq
    exact hinv.broken hst q (hstill q hq).2

/-- A moving process that is not one of those the recovery watches. -/
theorem RecoveryInv.pass (hinv : RecoveryInv s) {before place : Place π} (hat : s.place p = before)
    (hlive : s.alive p = true) (hmtx : s'.mtx = s.mtx) (howner : s'.owner = s.owner)
    (hstate : s'.state = s.state) (halive : s'.alive = s.alive)
    (hplace : s'.place = Function.update s.place p place) (horphaned : s'.orphaned = s.orphaned)
    (hfixer : s'.fixer = s.fixer) (hbefore : before.acquired = false) (hafter : place.acquired = false)
    (hjudged : ∀ call q, place = .cas_owner call (some q) → s.alive q = false)
    (hbroken : s.state = .broken_state → before.after_break = true → place.after_break = true)
    (hwrite : ∀ held, place ≠ .consistent_write held)
    (hcheck : ∀ held, place = .consistent_owner held → s.owner ≠ some p) : RecoveryInv s' := by
  have hunrecorded : ∀ pl : Place π, pl.acquired = false → pl.recorded = false := by
    intro pl hpl
    cases pl <;> simp_all [Place.recorded, Place.acquired]
  refine hinv.move hat hlive hmtx howner hstate halive hplace horphaned hfixer (by rw [hbefore, hafter])
    (by rw [hunrecorded _ hbefore, hunrecorded _ hafter]) ?_ hjudged ?_ hbroken ?_ hcheck
  · rintro rfl
    cases hbefore
  · intro _ hrep
    rw [acquired_of_repairing hrep] at hbefore
    cases hbefore
  · intro held hheld
    exact absurd hheld (hwrite held)

theorem RecoveryInv.access (hinv : RecoveryInv s) {choice : Bool} (hlive : s.alive p = true)
    (hcareful : Careful s (.access p choice)) (hstep : access s p choice = some s') :
    RecoveryInv s' := by
  have hnew := hinv.toInv.access hlive hcareful.swaps_abandoned hstep
  have hlone : (s.place p).acquired = true → ∀ q, s.acquired q → q = p :=
    fun hacq q hq => hinv.alone q p hq ⟨hlive, hacq⟩
  unfold robust_spin_mutex.access at hstep
  cases hplace : s.place p with
  | outside | holding =>
    simp only [hplace] at hstep
    cases hstep
  | read_state call =>
    simp only [hplace] at hstep
    split_ifs at hstep with hst <;> cases hstep
    · exact hinv.pass hplace hlive rfl rfl rfl rfl rfl rfl rfl rfl rfl (by simp) (fun _ _ => rfl)
        (by simp) (by simp)
    · exact hinv.pass hplace hlive rfl rfl rfl rfl rfl rfl rfl rfl rfl (by simp)
        (fun hbroken => absurd hbroken hst) (by simp) (by simp)
  | lock_own_unique_file call =>
    simp only [hplace] at hstep
    split_ifs at hstep <;> cases hstep
    · exact hinv.pass hplace hlive rfl rfl rfl rfl rfl rfl rfl rfl rfl (by simp)
        (fun _ _ => rfl) (by simp) (by simp)
    · exact hinv.pass hplace hlive rfl rfl rfl rfl rfl rfl rfl rfl rfl (by simp)
        (fun _ _ => rfl) (by simp) (by simp)
  | mtx_try_lock call =>
    simp only [hplace] at hstep
    split_ifs at hstep with hmtx <;> cases hstep
    · exact hinv.pass hplace hlive rfl rfl rfl rfl rfl rfl rfl rfl rfl (by simp)
        (fun _ _ => rfl) (by simp) (by simp)
    · have hnobody : ∀ q, ¬ s.acquired q := fun q hq => hmtx (hinv.locked q hq)
      have hfree : s.owner = none := hinv.free (by simpa using hmtx)
      refine hinv.only hnew (fun q hq => absurd hq (hnobody q)) rfl rfl (fun _ => rfl) ?_ ?_ (by simp)
        (by simp) ?_ ?_
      · intro horph
        exact absurd (hinv.orphaned_locked horph) hmtx
      · intro q hq
        exact absurd (hinv.fixer q hq).1 (hnobody q)
      · intro q _
        change s.owner ≠ some q
        rw [hfree]
        simp
      · intro hst
        have hspares := hcareful.spares_broken hst
        simp only [Spares, hplace] at hspares
        exact absurd hspares hmtx
  | write_owner =>
    simp only [hplace] at hstep
    cases hstep
    have hacq : s.acquired p := ⟨hlive, by rw [hplace]; rfl⟩
    have horph : s.orphaned = false := by
      cases horph : s.orphaned with
      | false => rfl
      | true =>
        have hfixing := hinv.orphaned_fixing horph p hacq
        rw [hplace] at hfixing
        cases hfixing
    refine hinv.only hnew (hlone hacq.2) rfl rfl (by simp [State.locks]) (by simp [State.locks]) ?_
      (by simp) (by simp) ?_ ?_
    · intro q hq
      simp only [State.locks, horph, Bool.false_eq_true, if_false] at hq
      obtain ⟨hqacq, hqrep, _⟩ := hinv.fixer q hq
      rw [hlone hacq.2 q hqacq, hplace] at hqrep
      cases hqrep
    · intro q hq heq
      exact hq (Option.some.inj heq).symm
    · intro hst
      have hbreak := hinv.broken hst p hlive
      rw [hplace] at hbreak
      cases hbreak
  | read_owner call =>
    simp only [hplace] at hstep
    cases hstep
    exact hinv.pass hplace hlive rfl rfl rfl rfl rfl rfl rfl rfl rfl (by simp)
      (fun _ _ => rfl) (by simp) (by simp)
  | is_owner_dead call old_owner =>
    simp only [hplace] at hstep
    split_ifs at hstep with hdead <;> cases hstep
    · refine hinv.pass hplace hlive rfl rfl rfl rfl rfl rfl rfl rfl rfl ?_
        (fun _ _ => rfl) (by simp) (by simp)
      intro call' q hq
      cases hq
      simpa [is_owner_dead] using hdead
    · rcases s.attempt_failed_eq p choice call with heq | heq <;> rw [heq]
      · exact hinv.pass hplace hlive rfl rfl rfl rfl rfl rfl rfl rfl rfl (by simp)
          (fun _ _ => rfl) (by simp) (by simp)
      · exact hinv.pass hplace hlive rfl rfl rfl rfl rfl rfl rfl rfl rfl (by simp)
          (fun _ _ => rfl) (by simp) (by simp)
  | cas_owner call old_owner =>
    simp only [hplace] at hstep
    split_ifs at hstep with howner <;> cases hstep
    · have hswap := hinv.swap hplace howner (by
        rintro rfl
        exact hcareful.swaps_abandoned (by rw [hplace]; rfl) howner)
      refine hinv.only hnew (fun q hq => absurd hq (hswap.2 q)) rfl rfl (fun _ => hswap.1)
        (fun _ _ => rfl) ?_ (by simp) (by simp) ?_ ?_
      · intro q hq
        exact absurd (hinv.fixer q hq).1 (hswap.2 q)
      · intro q hq heq
        exact hq (Option.some.inj heq).symm
      · intro hst
        have hspares := hcareful.spares_broken hst
        simp only [Spares, hplace, howner] at hspares
        simp at hspares
    · exact hinv.pass hplace hlive rfl rfl rfl rfl rfl rfl rfl rfl rfl (by simp)
        (fun _ _ => rfl) (by simp) (by simp)
  | write_fixing =>
    simp only [hplace] at hstep
    cases hstep
    have hacq : s.acquired p := ⟨hlive, by rw [hplace]; rfl⟩
    refine hinv.only hnew (hlone hacq.2) rfl rfl (by simp [State.locks]) (by simp [State.locks]) ?_
      (by simp) (by simp) ?_ (by simp)
    · intro q hq
      simp only [State.locks] at hq
      split_ifs at hq
      · exact ⟨(Option.some.inj hq).symm, hlive, rfl, rfl⟩
      · obtain ⟨hqacq, hqrep, _⟩ := hinv.fixer q hq
        rw [hlone hacq.2 q hqacq, hplace] at hqrep
        cases hqrep
    · intro q hq heq
      change s.owner = some q at heq
      rw [hinv.recorded p hacq (by rw [hplace]; rfl)] at heq
      exact hq (Option.some.inj heq).symm
  | consistent_state held =>
    simp only [hplace] at hstep
    have hcalled := hcareful.consistent_by_owner held hplace
    split_ifs at hstep with hst <;> cases hstep
    · refine hinv.move hplace hlive rfl rfl rfl rfl rfl rfl rfl rfl rfl (by simp) (by simp)
        (fun _ hrep => hrep) ?_ (fun _ _ => ⟨hcalled.mpr hst, hst⟩) (by simp)
      intro hbroken
      rw [hst] at hbroken
      cases hbroken
    · exact hinv.move hplace hlive rfl rfl rfl rfl rfl rfl rfl rfl rfl (by simp) (by simp)
        (fun _ hrep => hrep) (fun _ hbreak => hbreak) (by simp)
        (fun _ _ howner => hst (hcalled.mp howner))
  | consistent_owner held =>
    simp only [hplace] at hstep
    have hnot := hinv.consistent_owner p held hlive hplace
    rw [if_neg hnot] at hstep
    cases hstep
    refine hinv.move hplace hlive rfl rfl rfl rfl rfl rfl rfl (back_acquired held) (back_recorded held)
      (by simp) ?_ ?_ ?_ ?_ ?_
    all_goals cases held <;> simp [Place.back, Place.repairing, Place.after_break]
  | consistent_write held =>
    simp only [hplace] at hstep
    cases hstep
    obtain ⟨howner, hst⟩ := hinv.consistent_write p held hlive hplace
    have hacq : s.acquired p := ⟨hlive, hinv.holds p howner hlive⟩
    refine hinv.only hnew (hlone hacq.2) rfl rfl ?_ ?_ ?_ ?_ ?_ ?_ (by simp)
    · exact fun horph => hinv.orphaned_locked horph
    · intro horph
      have hfixing := hinv.orphaned_fixing horph p hacq
      rw [hplace] at hfixing
      cases hfixing
    · intro q hq
      simp only [State.released_by] at hq
      split_ifs at hq with hfixer
      rw [hlone hacq.2 q (hinv.fixer q hq).1] at hq
      exact absurd hq hfixer
    · cases held <;> simp [Place.back]
    · cases held <;> simp [Place.back]
    · intro q hq heq
      change s.owner = some q at heq
      rw [howner] at heq
      exact hq (Option.some.inj heq).symm
  | unlock_state =>
    simp only [hplace] at hstep
    split_ifs at hstep with hst <;> cases hstep
    · exact hinv.move hplace hlive rfl rfl rfl rfl rfl rfl rfl rfl rfl (by simp) (by simp)
        (fun _ _ => rfl) (fun _ hbreak => by cases hbreak) (by simp) (by simp)
    · exact hinv.move hplace hlive rfl rfl rfl rfl rfl rfl rfl rfl rfl (by simp) (by simp)
        (fun hfixing => absurd hfixing hst) (fun _ _ => rfl) (by simp) (by simp)
  | write_broken =>
    simp only [hplace] at hstep
    cases hstep
    have hacq : s.acquired p := ⟨hlive, by rw [hplace]; rfl⟩
    have howner := hinv.recorded p hacq (by rw [hplace]; rfl)
    refine hinv.only hnew (hlone hacq.2) rfl rfl ?_ ?_ ?_ (by simp) (by simp) ?_ ?_
    · exact fun horph => hinv.orphaned_locked horph
    · intro horph
      have hfixing := hinv.orphaned_fixing horph p hacq
      rw [hplace] at hfixing
      cases hfixing
    · intro q hq
      simp only [State.released_by] at hq
      split_ifs at hq with hfixer
      rw [hlone hacq.2 q (hinv.fixer q hq).1] at hq
      exact absurd hq hfixer
    · intro q hq heq
      change s.owner = some q at heq
      rw [howner] at heq
      exact hq (Option.some.inj heq).symm
    · intro _ q hq
      by_cases hqp : q = p
      · rw [hqp, Function.update_self]
        rfl
      · rw [Function.update_of_ne hqp]
        have hnot : (s.place q).acquired = false := by
          cases hqacq : (s.place q).acquired with
          | false => rfl
          | true => exact absurd (hlone hacq.2 q ⟨hq, hqacq⟩) hqp
        have hwrite : ∀ held, s.place q ≠ .consistent_write held := fun held hat =>
          hqp (hinv.eq_of_consistent_write hacq hq hat)
        cases hat : s.place q <;> simp_all [Place.after_break, Place.acquired]
  | clear_owner =>
    simp only [hplace] at hstep
    cases hstep
    have hacq : s.acquired p := ⟨hlive, by rw [hplace]; rfl⟩
    refine hinv.only hnew (hlone hacq.2) rfl rfl ?_ ?_ ?_ (by simp) (by simp) (by simp) ?_
    · exact fun horph => hinv.orphaned_locked horph
    · intro horph
      have hfixing := hinv.orphaned_fixing horph p hacq
      rw [hplace] at hfixing
      cases hfixing
    · intro q hq
      obtain ⟨hqacq, hqrep, _⟩ := hinv.fixer q hq
      rw [hlone hacq.2 q hqacq, hplace] at hqrep
      cases hqrep
    · intro hst q hq
      by_cases hqp : q = p
      · rw [hqp, Function.update_self]
        rfl
      · rw [Function.update_of_ne hqp]
        exact hinv.broken hst q hq
  | mtx_unlock =>
    simp only [hplace] at hstep
    cases hstep
    have hacq : s.acquired p := ⟨hlive, by rw [hplace]; rfl⟩
    have horph : s.orphaned ≠ true := by
      intro horph
      have hfixing := hinv.orphaned_fixing horph p hacq
      rw [hplace] at hfixing
      cases hfixing
    refine hinv.only hnew (hlone hacq.2) rfl rfl ?_ ?_ ?_ (by simp) (by simp) ?_ ?_
    · exact fun h => absurd h horph
    · exact fun h => absurd h horph
    · intro q hq
      obtain ⟨hqacq, hqrep, _⟩ := hinv.fixer q hq
      rw [hlone hacq.2 q hqacq, hplace] at hqrep
      cases hqrep
    · intro q _ heq
      change s.owner = some q at heq
      rw [hinv.unrecorded p hacq (by rw [hplace]; rfl)] at heq
      cases heq
    · intro hst q hq
      by_cases hqp : q = p
      · rw [hqp, Function.update_self]
        rfl
      · rw [Function.update_of_ne hqp]
        exact hinv.broken hst q hq

theorem RecoveryInv.begin_call (hinv : RecoveryInv s) {op : Op} (hlive : s.alive p = true)
    (hstep : begin_call s p op = some s') : RecoveryInv s' := by
  cases op with
  | lock call =>
    simp only [robust_spin_mutex.begin_call] at hstep
    split_ifs at hstep with hplace
    cases hstep
    exact hinv.pass hplace hlive rfl rfl rfl rfl rfl rfl rfl rfl rfl (by simp) (fun _ _ => rfl)
      (by simp) (by simp)
  | unlock =>
    simp only [robust_spin_mutex.begin_call] at hstep
    split_ifs at hstep with hplace
    cases hstep
    exact hinv.move hplace hlive rfl rfl rfl rfl rfl rfl rfl rfl rfl (by simp) (by simp)
      (fun _ _ => rfl) (fun _ hbreak => by cases hbreak) (by simp) (by simp)
  | consistent =>
    simp only [robust_spin_mutex.begin_call] at hstep
    split_ifs at hstep with hholding houtside <;> cases hstep
    · exact hinv.move hholding hlive rfl rfl rfl rfl rfl rfl rfl rfl rfl (by simp) (by simp)
        (fun _ _ => rfl) (fun _ hbreak => by cases hbreak) (by simp) (by simp)
    · exact hinv.pass houtside hlive rfl rfl rfl rfl rfl rfl rfl rfl rfl (by simp) (fun _ _ => rfl)
        (by simp) (by simp)

theorem RecoveryInv.step (hinv : RecoveryInv s) {a : Label π} (hcareful : Careful s a)
    (hstep : step s a = some s') : RecoveryInv s' := by
  cases a with
  | call p op =>
    simp only [robust_spin_mutex.step] at hstep
    split_ifs at hstep with hlive
    exact hinv.begin_call hlive hstep
  | access p choice =>
    simp only [robust_spin_mutex.step] at hstep
    split_ifs at hstep with hlive
    exact hinv.access hlive hcareful hstep
  | die p =>
    cases hstep
    exact hinv.die p

@[simp] theorem State.goto_place_self (s : State π) (p : π) (place : Place π) :
    (s.goto p place).place p = place := by
  simp [goto]

end interprocess.robust_spin_mutex
