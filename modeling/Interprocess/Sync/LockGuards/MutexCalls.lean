import Interprocess.Sync.LockGuards.Operations
import Interprocess.Sync.UpgradableMutex.ControlWord

namespace interprocess.lock_guards

open interprocess_upgradable_mutex

/-- The ownership that a call leaves its caller with when it gets what it asks for. -/
def grants : Op → Ownership
  | .lock | .try_lock | .timed_lock => .exclusive
  | .lock_upgradable | .try_lock_upgradable | .timed_lock_upgradable => .upgradable
  | .lock_sharable | .try_lock_sharable | .timed_lock_sharable => .sharable
  | .unlock | .unlock_upgradable | .unlock_sharable => .none
  | .unlock_and_lock_upgradable | .try_unlock_sharable_and_lock_upgradable => .upgradable
  | .unlock_and_lock_sharable | .unlock_upgradable_and_lock_sharable => .sharable
  | .unlock_upgradable_and_lock | .try_unlock_upgradable_and_lock => .exclusive
  | .timed_unlock_upgradable_and_lock | .try_unlock_sharable_and_lock => .exclusive

/-- What the caller owns after a call with a result. -/
def left (op : Op) (result : Result) : Ownership :=
  if result = .acquired then grants op else op.requires

variable {c c' : control_word_t} {n : Tally} {op : Op} {how : WaitEnd} {result : Result}
  {owned : Ownership} {kind : Kind} {rollback : Rollback} {timed : Bool}

theorem pass_second_gate_done
    (hdone : pass_second_gate c rollback timed = (c', .done owned result)) :
    owned = .exclusive ∧ result = .acquired := by
  unfold pass_second_gate at hdone
  split_ifs at hdone
  · cases hdone
  · cases hdone
    exact ⟨rfl, rfl⟩

theorem pass_first_gate_done
    (hdone : pass_first_gate c timed kind = (c', .done owned result)) :
    owned = ownership kind ∧ result = .acquired := by
  cases kind with
  | exclusive => exact pass_second_gate_done hdone
  | upgradable =>
    cases hdone
    exact ⟨rfl, rfl⟩
  | sharable =>
    cases hdone
    exact ⟨rfl, rfl⟩

/-- A call that is done has left its caller what its result says. -/
theorem enter_done (hdone : op.enter c = (c', .done owned result)) : owned = left op result := by
  have hlock : ∀ kind timed, lock_kind c kind timed = (c', .done owned result) →
      owned = ownership kind ∧ result = .acquired := by
    intro kind timed hlock
    unfold lock_kind at hlock
    split_ifs at hlock
    · cases hlock
    · exact pass_first_gate_done hlock
  have htry : ∀ kind, try_kind c kind = (c', .done owned result) →
      owned = if result = .acquired then ownership kind else .none := by
    intro kind htry
    unfold try_kind at htry
    split_ifs at htry
    · cases htry
      rfl
    · obtain ⟨rfl, rfl⟩ := pass_first_gate_done htry
      rfl
  cases op with
  | lock | timed_lock | lock_upgradable | timed_lock_upgradable | lock_sharable
  | timed_lock_sharable =>
    obtain ⟨rfl, rfl⟩ := hlock _ _ hdone
    rfl
  | try_lock_upgradable => exact htry .upgradable hdone
  | try_lock_sharable => exact htry .sharable hdone
  | try_lock =>
    simp only [Op.enter, try_lock] at hdone
    split_ifs at hdone <;> cases hdone <;> rfl
  | unlock_upgradable_and_lock | timed_unlock_upgradable_and_lock =>
    obtain ⟨rfl, rfl⟩ := pass_second_gate_done hdone
    rfl
  | try_unlock_upgradable_and_lock =>
    simp only [Op.enter, try_unlock_upgradable_and_lock] at hdone
    split_ifs at hdone <;> cases hdone <;> rfl
  | try_unlock_sharable_and_lock =>
    simp only [Op.enter, try_unlock_sharable_and_lock] at hdone
    split_ifs at hdone <;> cases hdone <;> rfl
  | try_unlock_sharable_and_lock_upgradable =>
    simp only [Op.enter, try_unlock_sharable_and_lock_upgradable] at hdone
    split_ifs at hdone <;> cases hdone <;> rfl
  | unlock | unlock_upgradable | unlock_sharable | unlock_and_lock_upgradable
  | unlock_and_lock_sharable | unlock_upgradable_and_lock_sharable =>
    cases hdone
    rfl

theorem pass_first_gate_wait {place : Place}
    (hwait : pass_first_gate c timed kind = (c', .wait place)) :
    kind = .exclusive ∧ place = .second_gate .exclusive_rollback timed := by
  cases kind with
  | exclusive =>
    unfold pass_first_gate pass_second_gate at hwait
    split_ifs at hwait
    · cases hwait
      exact ⟨rfl, rfl⟩
    · cases hwait
  | upgradable => cases hwait
  | sharable => cases hwait

/-- What a call asks for that waits: at the first gate it has changed nothing. -/
theorem enter_wait {place : Place} (hwait : op.enter c = (c', .wait place)) :
    (∃ kind timed, place = .first_gate kind timed ∧ op.requires = .none ∧
      grants op = ownership kind ∧ c' = c ∧ first_gate_closed c kind = true) ∨
    ∃ rollback timed, place = .second_gate rollback timed ∧ op.requires = rollback.restores ∧
      grants op = .exclusive := by
  have hlock : ∀ kind timed, lock_kind c kind timed = (c', .wait place) →
      (place = .first_gate kind timed ∧ c' = c ∧ first_gate_closed c kind = true) ∨
        (kind = .exclusive ∧ place = .second_gate .exclusive_rollback timed) := by
    intro kind timed hlock
    unfold lock_kind at hlock
    split_ifs at hlock with hclosed
    · cases hlock
      exact Or.inl ⟨rfl, rfl, hclosed⟩
    · exact Or.inr (pass_first_gate_wait hlock)
  have hpromote : ∀ timed, promote c timed = (c', .wait place) →
      place = .second_gate .upgradable_to_exclusive_rollback timed := by
    intro timed hpromote
    unfold promote pass_second_gate at hpromote
    split_ifs at hpromote
    · cases hpromote
      rfl
    · cases hpromote
  have htry : ∀ kind, try_kind c kind = (c', .wait place) → kind = .exclusive := by
    intro kind htry
    unfold try_kind at htry
    split_ifs at htry
    · cases htry
    · exact (pass_first_gate_wait htry).1
  cases op with
  | lock =>
    rcases hlock _ _ hwait with ⟨hplace, hsame, hclosed⟩ | ⟨-, hplace⟩
    · exact Or.inl ⟨_, _, hplace, rfl, rfl, hsame, hclosed⟩
    · exact Or.inr ⟨_, _, hplace, rfl, rfl⟩
  | timed_lock =>
    rcases hlock _ _ hwait with ⟨hplace, hsame, hclosed⟩ | ⟨-, hplace⟩
    · exact Or.inl ⟨_, _, hplace, rfl, rfl, hsame, hclosed⟩
    · exact Or.inr ⟨_, _, hplace, rfl, rfl⟩
  | lock_upgradable | timed_lock_upgradable | lock_sharable | timed_lock_sharable =>
    rcases hlock _ _ hwait with ⟨hplace, hsame, hclosed⟩ | ⟨hkind, -⟩
    · exact Or.inl ⟨_, _, hplace, rfl, rfl, hsame, hclosed⟩
    · cases hkind
  | unlock_upgradable_and_lock => exact Or.inr ⟨_, _, hpromote false hwait, rfl, rfl⟩
  | timed_unlock_upgradable_and_lock => exact Or.inr ⟨_, _, hpromote true hwait, rfl, rfl⟩
  | try_lock_upgradable | try_lock_sharable => cases htry _ hwait
  | try_lock =>
    simp only [Op.enter, try_lock] at hwait
    split_ifs at hwait <;> cases hwait
  | try_unlock_upgradable_and_lock =>
    simp only [Op.enter, try_unlock_upgradable_and_lock] at hwait
    split_ifs at hwait <;> cases hwait
  | try_unlock_sharable_and_lock =>
    simp only [Op.enter, try_unlock_sharable_and_lock] at hwait
    split_ifs at hwait <;> cases hwait
  | try_unlock_sharable_and_lock_upgradable =>
    simp only [Op.enter, try_unlock_sharable_and_lock_upgradable] at hwait
    split_ifs at hwait <;> cases hwait
  | unlock | unlock_upgradable | unlock_sharable | unlock_and_lock_upgradable
  | unlock_and_lock_sharable | unlock_upgradable_and_lock_sharable => cases hwait

theorem ended_eq_some {r : control_word_t × Outcome} (hended : ended r = some (c', result)) :
    ∃ owned, r = (c', .done owned result) := by
  obtain ⟨c₁, outcome⟩ := r
  cases outcome with
  | done owned result₁ =>
    cases hended
    exact ⟨owned, rfl⟩
  | wait place => cases hended

/-- A call of a mutex: the control word describes the owners before and after it. -/
theorem perform_spec (h : Consistent c (n.with_owner op.requires))
    (hperform : perform c op how = some (c', result)) :
    Consistent c' (n.with_owner (left op result)) := by
  have henter := h.enter Thread.outside
  unfold perform at hperform
  cases hop : op.enter c with
  | mk c₁ outcome =>
    rw [hop] at hperform henter
    cases outcome with
    | done owned result₁ =>
      cases hperform
      rw [Tally.add_done, enter_done hop] at henter
      exact henter
    | wait place =>
      rcases enter_wait hop with ⟨kind, timed, rfl, hrequires, hgrants, rfl, hclosed⟩ |
        ⟨rollback, timed, rfl, hrequires, hgrants⟩
      · simp only [Tally.add_first_gate] at henter hperform
        split_ifs at hperform with hhow
        obtain ⟨owned, hdone⟩ := ended_eq_some hperform
        have hafter := henter.after_first_gate Thread.outside kind timed how
        rw [hdone, Tally.add_done] at hafter
        have howned : owned = left op result := by
          rcases hhow with rfl | ⟨rfl, -⟩
          · cases hdone
            exact hrequires.symm
          · simp only [after_first_gate, if_pos hclosed] at hdone
            cases hdone
            exact hrequires.symm
        rwa [← howned]
      · simp only [Tally.add_second_gate] at henter hperform
        split_ifs at hperform with hhow
        obtain ⟨owned, hdone⟩ := ended_eq_some hperform
        have hafter := henter.after_second_gate Thread.outside timed how
        rw [hdone, Tally.add_done] at hafter
        have howned : owned = left op result := by
          rcases hhow with rfl | ⟨rfl, -⟩
          · cases hdone
            exact hrequires.symm
          · simp only [after_second_gate] at hdone
            split_ifs at hdone
            · cases hdone
              exact hrequires.symm
            · cases hdone
              exact hgrants.symm
        rwa [← howned]

end interprocess.lock_guards
