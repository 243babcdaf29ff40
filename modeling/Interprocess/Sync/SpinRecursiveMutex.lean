import Interprocess.Base.Transition
import Mathlib.Algebra.Group.Nat.Defs
import Mathlib.Logic.Function.Basic

open Transition

namespace interprocess.ipcdetail.spin_recursive_mutex

/-- The calls that attempt to lock. They repeat the attempt until it succeeds, not at
    all, or until the time point. -/
inductive Call where
  | lock
  | try_lock
  | timed_lock
  deriving DecidableEq

/-- The next access of a thread to the shared words. -/
inductive Place where
  | outside
  | read_owner (call : Call)
  | check_overflow
  | increment
  | cas (call : Call)
  | reread (call : Call)
  | write_owner
  | write_count
  | decrement
  | test_count
  | clear_owner
  | release
  deriving DecidableEq

/-- The shared words, where an invalid id of a thread is `none`, and the threads. What
    follows `place` is history: how many locks of a thread it has not undone, and
    whether its last call threw. -/
structure State (τ : Type) where
  m_s : Bool
  m_nLockCount : Nat
  m_nOwner : Option τ
  place : τ → Place
  depth : τ → Nat
  threw : τ → Bool

/-- A call of a thread, or its next access. The choice decides whether the time point of
    a timed lock is still ahead. -/
inductive Label (τ : Type) where
  | lock (t : τ) (call : Call)
  | unlock (t : τ)
  | access (t : τ) (choice : Bool)

section Steps

variable {τ : Type} [DecidableEq τ]

def State.goto (s : State τ) (t : τ) (place : Place) : State τ :=
  { s with place := Function.update s.place t place }

/-- The call of a thread returns. -/
def State.returns (s : State τ) (t : τ) (depth : Nat) (threw : Bool) : State τ :=
  { s with
    place := Function.update s.place t .outside
    depth := Function.update s.depth t depth
    threw := Function.update s.threw t threw }

/-- `m_mutex.try_lock` has returned `false`. -/
def State.attempt_failed (s : State τ) (t : τ) (choice : Bool) : Call → State τ
  | .lock => s.goto t (.cas .lock)
  | .try_lock => s.returns t (s.depth t) false
  | .timed_lock => if choice then s.goto t (.cas .timed_lock) else s.returns t (s.depth t) false

/-- The next access of a thread. -/
def access (s : State τ) (t : τ) (choice : Bool) : Option (State τ) :=
  match s.place t with
  | .outside => none
  | .read_owner call => some (s.goto t (if s.m_nOwner = some t then .check_overflow else .cas call))
  | .check_overflow =>
    if (s.m_nLockCount + 1) % 2 ^ 32 = 0 then some (s.returns t (s.depth t) true)
    else some (s.goto t .increment)
  | .increment =>
    some { s.returns t (s.depth t + 1) false with m_nLockCount := (s.m_nLockCount + 1) % 2 ^ 32 }
  | .cas call =>
    if s.m_s then some (s.attempt_failed t choice call)
    else some { s.goto t (.reread call) with m_s := true }
  -- `spin_mutex::try_lock` reads the word again after it has swapped it
  | .reread call =>
    if s.m_s then some (s.goto t .write_owner) else some (s.attempt_failed t choice call)
  | .write_owner => some { s.goto t .write_count with m_nOwner := some t }
  | .write_count => some { s.returns t (s.depth t + 1) false with m_nLockCount := 1 }
  | .decrement =>
    some { s.goto t .test_count with m_nLockCount := (s.m_nLockCount + (2 ^ 32 - 1)) % 2 ^ 32 }
  | .test_count =>
    if s.m_nLockCount = 0 then some (s.goto t .clear_owner)
    else some (s.returns t (s.depth t - 1) false)
  | .clear_owner => some { s.goto t .release with m_nOwner := none }
  | .release => some { s.returns t (s.depth t - 1) false with m_s := false }

/-- A thread may lock at any time, and undo a lock that it has. -/
def step (s : State τ) : Label τ → Option (State τ)
  | .lock t call => if s.place t = .outside then some (s.goto t (.read_owner call)) else none
  | .unlock t =>
    if s.place t = .outside ∧ 0 < s.depth t then some (s.goto t .decrement) else none
  | .access t choice => access s t choice

omit [DecidableEq τ] in
variable (τ) in
/-- A new mutex. -/
def start : State τ where
  m_s := false
  m_nLockCount := 0
  m_nOwner := none
  place := fun _ => .outside
  depth := fun _ => 0
  threw := fun _ => false

end Steps

variable {τ : Type} {s s' : State τ} {t u : τ}

/-- The words and the depth of the thread that has the inner mutex. -/
def Holds (t : τ) (owner : Option τ) (count depth : Nat) : Place → Prop
  | .reread _ | .write_owner => owner = none ∧ count = 0 ∧ depth = 0
  | .write_count => owner = some t ∧ count = 0 ∧ depth = 0
  | .outside | .read_owner _ | .check_overflow | .decrement =>
    owner = some t ∧ count = depth ∧ 0 < depth ∧ depth < 2 ^ 32
  | .increment => owner = some t ∧ count = depth ∧ 0 < depth ∧ depth + 1 < 2 ^ 32
  | .test_count => owner = some t ∧ count + 1 = depth ∧ depth < 2 ^ 32
  | .clear_owner => owner = some t ∧ count = 0 ∧ depth = 1
  | .release => owner = none ∧ count = 0 ∧ depth = 1
  | .cas _ => False

/-- A thread that does not have the inner mutex. -/
def Waits (depth : Nat) : Place → Prop
  | .outside | .read_owner _ | .cas _ => depth = 0
  | _ => False

theorem Waits.depth_eq {depth : Nat} {place : Place} (hwaits : Waits depth place) : depth = 0 := by
  cases place with
  | outside | read_owner | cas => exact hwaits
  | _ => exact hwaits.elim

theorem Holds.not_waits {owner : Option τ} {count depth : Nat} {place : Place}
    (hholds : Holds t owner count depth place) : ¬ Waits depth place := by
  intro hwaits
  cases place with
  | outside | read_owner =>
    have hdepth : depth = 0 := hwaits
    have hpos := hholds.2.2.1
    omega
  | cas => exact hholds
  | _ => exact hwaits

theorem Holds.depth_lt {owner : Option τ} {count depth : Nat} {place : Place}
    (hholds : Holds t owner count depth place) : depth < 2 ^ 32 := by
  cases place with
  | cas => exact hholds.elim
  | outside | read_owner | check_overflow | decrement => exact hholds.2.2.2
  | increment => exact Nat.lt_of_succ_lt hholds.2.2.2
  | test_count => exact hholds.2.2
  | _ =>
    have hdepth := hholds.2.2
    omega

theorem Holds.owner_eq {owner : Option τ} {count depth : Nat} {place : Place}
    (hholds : Holds t owner count depth place) : owner = none ∨ owner = some t := by
  cases place with
  | cas => exact hholds.elim
  | reread | write_owner | release => exact Or.inl hholds.1
  | _ => exact Or.inr hholds.1

/-- The mutex is free and nobody holds it, or one thread has it and the words are as that
    thread left them. -/
inductive Inv (s : State τ) : Prop where
  | free (hword : s.m_s = false) (howner : s.m_nOwner = none) (hcount : s.m_nLockCount = 0)
      (hall : ∀ u, Waits (s.depth u) (s.place u))
  | held (t : τ) (hword : s.m_s = true)
      (hholds : Holds t s.m_nOwner s.m_nLockCount (s.depth t) (s.place t))
      (hothers : ∀ u, u ≠ t → Waits (s.depth u) (s.place u))

/-- A step that changes nothing of the other threads. -/
def Local (s s' : State τ) (t : τ) : Prop :=
  ∀ u, u ≠ t → s'.depth u = s.depth u ∧ s'.place u = s.place u

theorem Local.waits (hlocal : Local s s' t) (hothers : ∀ u, u ≠ t → Waits (s.depth u) (s.place u)) :
    ∀ u, u ≠ t → Waits (s'.depth u) (s'.place u) := by
  intro u hu
  rw [(hlocal u hu).1, (hlocal u hu).2]
  exact hothers u hu

/-- A step that changes no word either, of a thread that does not have the mutex. -/
structure Quiet (s s' : State τ) (t : τ) : Prop where
  word : s'.m_s = s.m_s
  owner : s'.m_nOwner = s.m_nOwner
  count : s'.m_nLockCount = s.m_nLockCount
  waits : Waits (s'.depth t) (s'.place t)
  unchanged : Local s s' t

theorem Inv.quiet (hinv : Inv s) (hquiet : Quiet s s' t) (hwaits : Waits (s.depth t) (s.place t)) :
    Inv s' := by
  have hrest : ∀ u, Waits (s.depth u) (s.place u) → Waits (s'.depth u) (s'.place u) := by
    intro u hu
    by_cases hut : u = t
    · rw [hut]
      exact hquiet.waits
    · rw [(hquiet.unchanged u hut).1, (hquiet.unchanged u hut).2]
      exact hu
  cases hinv with
  | free hword howner hcount hall =>
    exact .free (hquiet.word.trans hword) (hquiet.owner.trans howner) (hquiet.count.trans hcount)
      fun u => hrest u (hall u)
  | held v hword hholds hothers =>
    have hvt : v ≠ t := by
      rintro rfl
      exact hholds.not_waits hwaits
    refine .held v (hquiet.word.trans hword) ?_ fun u hu => hrest u (hothers u hu)
    rw [hquiet.owner, hquiet.count, (hquiet.unchanged v hvt).1, (hquiet.unchanged v hvt).2]
    exact hholds

/-- A step of the thread that has the mutex and keeps it. -/
theorem Inv.keep (hword : s'.m_s = true) (hlocal : Local s s' t)
    (hothers : ∀ u, u ≠ t → Waits (s.depth u) (s.place u))
    (hholds : Holds t s'.m_nOwner s'.m_nLockCount (s'.depth t) (s'.place t)) : Inv s' :=
  .held t hword hholds (hlocal.waits hothers)

section Step

variable [DecidableEq τ]

@[simp]
theorem goto_place (s : State τ) (t : τ) (place : Place) : (s.goto t place).place t = place :=
  Function.update_self ..

theorem goto_local (s : State τ) (t : τ) (place : Place) : Local s (s.goto t place) t :=
  fun _ hu => ⟨rfl, Function.update_of_ne hu _ _⟩

theorem returns_local (s : State τ) (t : τ) (depth : Nat) (threw : Bool) :
    Local s (s.returns t depth threw) t :=
  fun _ hu => ⟨Function.update_of_ne hu _ _, Function.update_of_ne hu _ _⟩

theorem goto_quiet {place : Place} (hwaits : Waits (s.depth t) place) :
    Quiet s (s.goto t place) t := by
  refine ⟨rfl, rfl, rfl, ?_, goto_local s t place⟩
  rw [goto_place]
  exact hwaits

theorem returns_quiet (hdepth : s.depth t = 0) (threw : Bool) :
    Quiet s (s.returns t (s.depth t) threw) t := by
  refine ⟨rfl, rfl, rfl, ?_, returns_local s t _ threw⟩
  simp only [State.returns, Function.update_self]
  exact hdepth

theorem attempt_failed_quiet (hdepth : s.depth t = 0) (choice : Bool) (call : Call) :
    Quiet s (s.attempt_failed t choice call) t := by
  cases call with
  | lock => exact goto_quiet hdepth
  | try_lock => exact returns_quiet hdepth false
  | timed_lock =>
    unfold State.attempt_failed
    split_ifs
    · exact goto_quiet hdepth
    · exact returns_quiet hdepth false

/-- An access of a thread that does not have the mutex. -/
theorem Inv.access_waits (hinv : Inv s) (hwaits : Waits (s.depth t) (s.place t)) {choice : Bool}
    (hstep : access s t choice = some s') : Inv s' := by
  have hdepth := hwaits.depth_eq
  have hnot : s.m_nOwner ≠ some t := by
    cases hinv with
    | free _ howner _ _ =>
      rw [howner]
      rintro ⟨⟩
    | held v _ hholds _ =>
      intro howner
      rcases hholds.owner_eq with hnone | hsome
      · rw [hnone] at howner
        cases howner
      · rw [hsome] at howner
        cases howner
        exact hholds.not_waits hwaits
  unfold access at hstep
  cases hplace : s.place t with
  | outside =>
    rw [hplace] at hstep
    cases hstep
  | read_owner call =>
    rw [hplace] at hstep
    cases hstep
    rw [if_neg hnot]
    exact hinv.quiet (goto_quiet hdepth) hwaits
  | cas call =>
    simp only [hplace] at hstep
    split_ifs at hstep with hword
    · cases hstep
      exact hinv.quiet (attempt_failed_quiet hdepth choice call) hwaits
    · cases hstep
      cases hinv with
      | free _ howner hcount hall =>
        refine .keep rfl (fun u hu => goto_local s t _ u hu) (fun u _ => hall u) ?_
        rw [goto_place]
        exact ⟨howner, hcount, hdepth⟩
      | held v hheld _ _ => exact absurd hheld hword
  | _ =>
    rw [hplace] at hwaits
    exact hwaits.elim

/-- An access of the thread that has the mutex. -/
theorem Inv.access_holds (hword : s.m_s = true)
    (hholds : Holds t s.m_nOwner s.m_nLockCount (s.depth t) (s.place t))
    (hothers : ∀ u, u ≠ t → Waits (s.depth u) (s.place u)) {choice : Bool}
    (hstep : access s t choice = some s') : Inv s' := by
  have hgoto : ∀ place, Holds t s.m_nOwner s.m_nLockCount (s.depth t) place →
      Inv (s.goto t place) := by
    intro place hplace
    refine .keep hword (goto_local s t place) hothers ?_
    rw [goto_place]
    exact hplace
  unfold access at hstep
  cases hplace : s.place t with
  | outside =>
    rw [hplace] at hstep
    cases hstep
  | cas call =>
    rw [hplace] at hholds
    exact hholds.elim
  | read_owner call =>
    rw [hplace] at hstep hholds
    cases hstep
    rw [if_pos hholds.1]
    exact hgoto _ hholds
  | check_overflow =>
    rw [hplace] at hholds
    obtain ⟨howner, hcount, hpos, hlt⟩ := hholds
    simp only [hplace] at hstep
    split_ifs at hstep with hoverflow
    · cases hstep
      refine .keep hword (returns_local s t _ true) hothers ?_
      simp only [State.returns, Function.update_self]
      exact ⟨howner, hcount, hpos, hlt⟩
    · cases hstep
      exact hgoto _ ⟨howner, hcount, hpos, by omega⟩
  | increment =>
    rw [hplace] at hstep hholds
    obtain ⟨howner, hcount, hpos, hlt⟩ := hholds
    have hmod : (s.m_nLockCount + 1) % 2 ^ 32 = s.depth t + 1 := by
      rw [hcount, Nat.mod_eq_of_lt hlt]
    cases hstep
    refine .keep hword (returns_local s t _ false) hothers ?_
    simp only [State.returns, Function.update_self]
    exact ⟨howner, hmod, Nat.succ_pos _, hlt⟩
  | reread call =>
    rw [hplace] at hholds
    simp only [hplace, hword, if_true] at hstep
    cases hstep
    exact hgoto _ hholds
  | write_owner =>
    rw [hplace] at hstep hholds
    cases hstep
    refine .keep hword (goto_local s t _) hothers ?_
    rw [goto_place]
    exact ⟨rfl, hholds.2⟩
  | write_count =>
    rw [hplace] at hstep hholds
    obtain ⟨howner, _, hdepth⟩ := hholds
    cases hstep
    refine .keep hword (returns_local s t _ false) hothers ?_
    simp only [State.returns, Function.update_self, hdepth]
    exact ⟨howner, rfl, by decide, by decide⟩
  | decrement =>
    rw [hplace] at hstep hholds
    obtain ⟨howner, hcount, hpos, hlt⟩ := hholds
    have hmod : (s.m_nLockCount + (2 ^ 32 - 1)) % 2 ^ 32 + 1 = s.depth t := by
      rw [hcount]
      omega
    cases hstep
    refine .keep hword (fun u hu => goto_local s t .test_count u hu) hothers ?_
    rw [goto_place]
    exact ⟨howner, hmod, hlt⟩
  | test_count =>
    rw [hplace] at hholds
    obtain ⟨howner, hcount, hlt⟩ := hholds
    simp only [hplace] at hstep
    split_ifs at hstep with hzero
    · cases hstep
      exact hgoto _ ⟨howner, hzero, by omega⟩
    · cases hstep
      refine .keep hword (returns_local s t _ false) hothers ?_
      simp only [State.returns, Function.update_self]
      exact ⟨howner, by omega, by omega, by omega⟩
  | clear_owner =>
    rw [hplace] at hstep hholds
    cases hstep
    refine .keep hword (goto_local s t _) hothers ?_
    rw [goto_place]
    exact ⟨rfl, hholds.2⟩
  | release =>
    rw [hplace] at hstep hholds
    obtain ⟨howner, hcount, hdepth⟩ := hholds
    cases hstep
    refine .free rfl howner hcount fun u => ?_
    by_cases hu : u = t
    · rw [hu]
      simp only [State.returns, Function.update_self]
      exact Nat.sub_eq_zero_of_le (Nat.le_of_eq hdepth)
    · exact (returns_local s t _ false).waits hothers u hu

theorem Inv.step {label : Label τ} (hinv : Inv s)
    (hstep : spin_recursive_mutex.step s label = some s') : Inv s' := by
  have hcases : ∀ t, Waits (s.depth t) (s.place t) ∨ (s.m_s = true ∧
      Holds t s.m_nOwner s.m_nLockCount (s.depth t) (s.place t) ∧
      ∀ u, u ≠ t → Waits (s.depth u) (s.place u)) := by
    intro t
    cases hinv with
    | free _ _ _ hall => exact Or.inl (hall t)
    | held v hword hholds hothers =>
      by_cases htv : t = v
      · rw [htv]
        exact Or.inr ⟨hword, hholds, hothers⟩
      · exact Or.inl (hothers t htv)
  cases label with
  | lock t call =>
    simp only [spin_recursive_mutex.step] at hstep
    split_ifs at hstep with hplace
    cases hstep
    rcases hcases t with hwaits | ⟨hword, hholds, hothers⟩
    · exact hinv.quiet (goto_quiet hwaits.depth_eq) hwaits
    · refine .keep hword (goto_local s t _) hothers ?_
      rw [hplace] at hholds
      rw [goto_place]
      exact hholds
  | unlock t =>
    simp only [spin_recursive_mutex.step] at hstep
    split_ifs at hstep with hplace
    cases hstep
    rcases hcases t with hwaits | ⟨hword, hholds, hothers⟩
    · have hdepth := hwaits.depth_eq
      omega
    · refine .keep hword (goto_local s t _) hothers ?_
      rw [hplace.1] at hholds
      rw [goto_place]
      exact hholds
  | access t choice =>
    rcases hcases t with hwaits | ⟨hword, hholds, hothers⟩
    · exact hinv.access_waits hwaits hstep
    · exact Inv.access_holds hword hholds hothers hstep

/-- What the mutex promises: one thread has locks, no more of them than the count can
    tell; between its calls the words say so; `unlock` finds the id that it asserts; an
    overflow is found just in time; and when all locks are undone the mutex is new. -/
structure Sound (s : State τ) : Prop where
  exclusive : ∀ t u, 0 < s.depth t → 0 < s.depth u → t = u
  bounded : ∀ t, s.depth t < 2 ^ 32
  recorded : ∀ t, s.place t = .outside → 0 < s.depth t →
    s.m_s = true ∧ s.m_nOwner = some t ∧ s.m_nLockCount = s.depth t
  asserted : ∀ t, s.place t = .decrement → s.m_nOwner = some t
  overflow : ∀ t, s.place t = .check_overflow →
    ((s.m_nLockCount + 1) % 2 ^ 32 = 0 ↔ s.depth t = 2 ^ 32 - 1)
  released : (∀ t, s.place t = .outside ∧ s.depth t = 0) →
    s.m_s = false ∧ s.m_nOwner = none ∧ s.m_nLockCount = 0

omit [DecidableEq τ] in
theorem Inv.sound (hinv : Inv s) : Sound s := by
  cases hinv with
  | free hword howner hcount hall =>
    have hdepth : ∀ t, s.depth t = 0 := fun t => (hall t).depth_eq
    have hplace : ∀ t, ∀ place, s.place t = place → Waits 0 place := by
      rintro t _ rfl
      rw [← hdepth t]
      exact hall t
    refine ⟨?_, ?_, ?_, ?_, ?_, fun _ => ⟨hword, howner, hcount⟩⟩
    · intro t u ht
      rw [hdepth t] at ht
      cases ht
    · intro t
      rw [hdepth t]
      decide
    · intro t _ ht
      rw [hdepth t] at ht
      cases ht
    · intro t ht
      exact (hplace t _ ht).elim
    · intro t ht
      exact (hplace t _ ht).elim
  | held v hword hholds hothers =>
    have hpos : ∀ t, ¬ Waits (s.depth t) (s.place t) → t = v := by
      intro t ht
      by_contra htv
      exact ht (hothers t htv)
    have hdepth : ∀ t, 0 < s.depth t → t = v := by
      intro t ht
      refine hpos t fun hwaits => ?_
      rw [hwaits.depth_eq] at ht
      cases ht
    refine ⟨?_, ?_, ?_, ?_, ?_, ?_⟩
    · intro t u ht hu
      rw [hdepth t ht, hdepth u hu]
    · intro t
      by_cases htv : t = v
      · rw [htv]
        exact hholds.depth_lt
      · rw [(hothers t htv).depth_eq]
        decide
    · intro t hplace ht
      obtain rfl := hdepth t ht
      rw [hplace] at hholds
      exact ⟨hword, hholds.1, hholds.2.1⟩
    · intro t hplace
      obtain rfl := hpos t (by rw [hplace]; exact id)
      rw [hplace] at hholds
      exact hholds.1
    · intro t hplace
      obtain rfl := hpos t (by rw [hplace]; exact id)
      rw [hplace] at hholds
      obtain ⟨_, hcount, _, hlt⟩ := hholds
      omega
    · intro hall
      obtain ⟨hplace, hzero⟩ := hall v
      refine absurd ?_ hholds.not_waits
      rw [hplace, hzero]
      exact rfl

omit [DecidableEq τ] in
theorem inv_start : Inv (start τ) :=
  .free rfl rfl rfl fun _ => rfl

/-- In every interleaving of the accesses of any number of threads the mutex is sound. -/
theorem recursive_ownership (hrun : Reachable spin_recursive_mutex.step (start τ) s) : Sound s :=
  (hrun.invariant inv_start fun _ _ _ hinv _ hstep => hinv.step hstep).sound

end Step

/-- A thread that locks twice while another one tries. -/
def nested : List (Label Bool) :=
  [.lock true .lock, .access true true, .lock false .try_lock, .access true true, .access false true,
    .access true true, .access false true, .access true true, .access true true, .lock true .lock,
    .access true true, .access true true, .access true true]

theorem recursive_ownership_of_nested :
    ∃ s : State Bool, s.depth true = 2 ∧ s.depth false = 0 ∧ Sound s := by
  obtain ⟨s, hrun, hdepth⟩ := exists_reachable_of_replay spin_recursive_mutex.step (start Bool) nested
    (fun s => s.depth true = 2 ∧ s.depth false = 0) (by decide)
  obtain ⟨htrue, hfalse⟩ := of_decide_eq_true hdepth
  exact ⟨s, htrue, hfalse, recursive_ownership hrun⟩

end interprocess.ipcdetail.spin_recursive_mutex
