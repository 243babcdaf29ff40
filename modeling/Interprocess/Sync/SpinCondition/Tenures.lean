import Mathlib.Tactic.SplitIfs
import Interprocess.Sync.SpinCondition.Operations

namespace interprocess.ipcdetail.spin_condition

/-- Between the locking of `m_enter_mut`, or taking it over from a notifier, and
    unlocking it. -/
def Pc.holds : Pc → Bool
  | .registering _ | .unlocking_mut _ | .unlocking_entry _ => true
  | .notified_one | .last_notified | .timed_out | .unlocking _ => true
  | .notifying _ | .no_waiters | .posting _ => true
  | _ => false

/-- Has no part in the tenure of `m_enter_mut`. -/
def Pc.Neutral (pc : Pc) : Prop :=
  pc.holds = false ∧ pc ≠ .notified_all

variable {τ : Type}

/-- What a finished tenure did: a registration or a time-out released nobody and
    was ended by its own thread, a notification that found nobody registered was
    ended by the notifier, and any other released one or all of those registered
    and was ended by the last of them to leave. -/
def Tenure.Closed (n : Tenure τ) : Prop :=
  match n.reason with
  | .registration t | .time_out t => n.released = [] ∧ n.unlocked_by = [t]
  | .notification t command =>
    (n.registered = ∅ → n.released = [] ∧ n.unlocked_by = [t]) ∧
    (n.registered ≠ ∅ →
      n.released.Nodup ∧ (∀ u ∈ n.released, u ∈ n.registered) ∧
      (command = .NOTIFY_ONE → n.released.length = 1) ∧
      (command = .NOTIFY_ALL → ∀ u ∈ n.registered, u ∈ n.released) ∧
      ∃ w rest, n.released = w :: rest ∧ n.unlocked_by = [w])

/-- What a tenure has done so far: nobody unlocked the mutex, and those who left
    are some of those registered. -/
structure Tenure.Open (n : Tenure τ) : Prop where
  locked : n.unlocked_by = []
  once : n.released.Nodup
  among : ∀ u ∈ n.released, u ∈ n.registered
  one : ∀ t, n.reason = .notification t .NOTIFY_ONE → n.released.length ≤ 1
  other : (∀ t command, n.reason ≠ .notification t command) → n.released = []

/-- A tenure that its thread ends by unlocking the mutex. -/
structure Tenure.Ready (n : Tenure τ) (t : τ) : Prop where
  locked : n.unlocked_by = []
  closes : Tenure.Closed { n with unlocked_by := [t] }

/-- A tenure in which nothing happened yet. -/
structure Tenure.Fresh (n : Tenure τ) (reason : Reason τ) : Prop where
  reason : n.reason = reason
  released : n.released = []
  locked : n.unlocked_by = []

/-- What is known about the tenure of a thread that holds the mutex when
    `registered` are the threads registered now. -/
def Tenure.HeldBy (registered : τ → Bool) (t : τ) (n : Tenure τ) : Pc → Prop
  | .registering _ | .unlocking_mut _ | .unlocking_entry _ => n.Fresh (.registration t)
  | .timed_out | .unlocking true => n.Fresh (.time_out t)
  | .notifying command =>
    n.Fresh (.notification t command) ∧ ∀ u, u ∈ n.registered ↔ registered u = true
  | .no_waiters => (∃ command, n.Fresh (.notification t command)) ∧ n.registered = ∅
  | .posting command =>
    n.Fresh (.notification t command) ∧ (∀ u, u ∈ n.registered ↔ registered u = true) ∧
      ∃ u, registered u = true
  | .notified_one => (∃ by_, n.Fresh (.notification by_ .NOTIFY_ONE)) ∧ t ∈ n.registered
  | .last_notified =>
    (∃ by_, n.reason = .notification by_ .NOTIFY_ALL) ∧ n.Open ∧ n.Ready t ∧ ∀ u, registered u = false
  | .unlocking false => (∃ by_ command, n.reason = .notification by_ command) ∧ n.Open ∧ n.Ready t
  | _ => False

/-- What is known about the tenure of a posted notification. -/
structure Tenure.Posted (registered : τ → Bool) (command : Command) (n : Tenure τ) : Prop where
  reason : ∃ t, n.reason = .notification t command
  locked : n.unlocked_by = []
  once : n.released.Nodup
  split : ∀ u, u ∈ n.registered ↔ u ∈ n.released ∨ registered u = true
  left : ∀ u ∈ n.released, registered u = false
  one : command = .NOTIFY_ONE → n.released = []
  remaining : ∃ u, registered u = true

/-- The four situations of `m_enter_mut`: it is free, a thread holds it, or a
    command is posted that the registered waiters have to take. -/
inductive Situation (locked : Bool) (command : Command) (pc : τ → Pc) (tenures : List (Tenure τ)) :
    Prop where
  | free (hlocked : locked = false) (hcommand : command = .SLEEP) (hneutral : ∀ u, (pc u).Neutral)
      (hclosed : ∀ n ∈ tenures, n.Closed)
  | held (t : τ) (n : Tenure τ) (past : List (Tenure τ)) (hlocked : locked = true)
      (hcommand : command = if pc t = .last_notified then .NOTIFY_ALL else .SLEEP)
      (hholds : (pc t).holds = true) (hneutral : ∀ u, u ≠ t → (pc u).Neutral)
      (htenures : tenures = n :: past) (hclosed : ∀ m ∈ past, m.Closed)
      (hheld : n.HeldBy (fun u => (pc u).registered) t (pc t))
  | one (n : Tenure τ) (past : List (Tenure τ)) (hlocked : locked = true)
      (hcommand : command = .NOTIFY_ONE) (hneutral : ∀ u, (pc u).Neutral)
      (htenures : tenures = n :: past) (hclosed : ∀ m ∈ past, m.Closed)
      (hposted : n.Posted (fun u => (pc u).registered) .NOTIFY_ONE)
  | all (n : Tenure τ) (past : List (Tenure τ)) (hlocked : locked = true)
      (hcommand : command = .NOTIFY_ALL) (hnobody : ∀ u, (pc u).holds = false)
      (htenures : tenures = n :: past) (hclosed : ∀ m ∈ past, m.Closed)
      (hposted : n.Posted (fun u => (pc u).registered) .NOTIFY_ALL)

/-- The thread that is about to unlock the mutex ends the tenure. -/
theorem Tenure.Fresh.ready {n : Tenure τ} {t : τ}
    (h : n.Fresh (.registration t) ∨ n.Fresh (.time_out t) ∨
      (∃ command, n.Fresh (.notification t command)) ∧ n.registered = ∅) : n.Ready t := by
  rcases h with h | h | ⟨⟨command, h⟩, hnobody⟩
  · refine ⟨h.locked, ?_⟩
    simp only [Tenure.Closed, h.reason]
    exact ⟨h.released, trivial⟩
  · refine ⟨h.locked, ?_⟩
    simp only [Tenure.Closed, h.reason]
    exact ⟨h.released, trivial⟩
  · refine ⟨h.locked, ?_⟩
    simp only [Tenure.Closed, h.reason]
    exact ⟨fun _ => ⟨h.released, trivial⟩, fun hsome => absurd hnobody hsome⟩

/-- The only waiter a `NOTIFY_ONE` releases. -/
theorem Tenure.Fresh.release_one {n : Tenure τ} {t by_ : τ}
    (h : n.Fresh (.notification by_ .NOTIFY_ONE)) (ht : t ∈ n.registered) :
    Tenure.Open { n with released := t :: n.released } ∧
      Tenure.Ready { n with released := t :: n.released } t := by
  have hreleased := h.released
  refine ⟨⟨h.locked, ?_, ?_, ?_, ?_⟩, h.locked, ?_⟩
  · simp only [hreleased]
    exact List.nodup_singleton t
  · intro u hu
    simp only [hreleased, List.mem_singleton] at hu
    rw [hu]
    exact ht
  · intro _ _
    simp only [hreleased, List.length_singleton, Nat.le_refl]
  · intro hother
    exact absurd h.reason (hother by_ .NOTIFY_ONE)
  · simp only [Tenure.Closed, h.reason, hreleased]
    refine ⟨?_, ?_⟩
    · intro hnobody
      rw [hnobody] at ht
      cases ht
    · intro _
      refine ⟨List.nodup_singleton t, ?_, fun _ => rfl, ?_, t, [], rfl, rfl⟩
      · intro u hu
        rw [List.mem_singleton] at hu
        rw [hu]
        exact ht
      · intro hcommand
        cases hcommand

/-- A waiter that leaves because of a `NOTIFY_ALL` with others still to leave. -/
theorem Tenure.Posted.release {registered registered' : τ → Bool} {n : Tenure τ} {t : τ}
    (h : n.Posted registered .NOTIFY_ALL) (ht : registered t = true) (hleft : registered' t = false)
    (hothers : ∀ u, u ≠ t → registered' u = registered u) (hremaining : ∃ u, registered' u = true) :
    Tenure.Posted registered' .NOTIFY_ALL { n with released := t :: n.released } where
  reason := h.reason
  locked := h.locked
  once := by
    refine List.nodup_cons.mpr ⟨?_, h.once⟩
    intro hmem
    rw [h.left t hmem] at ht
    cases ht
  split := by
    intro u
    by_cases hu : u = t
    · simp [hu, h.split t, ht]
    · simp [hu, h.split u, hothers u hu]
  left := by
    intro u hmem
    simp only [List.mem_cons] at hmem
    by_cases hu : u = t
    · rw [hu]
      exact hleft
    · rw [hothers u hu]
      exact h.left u (hmem.resolve_left hu)
  one := by
    intro hcommand
    cases hcommand
  remaining := hremaining

/-- The last waiter that leaves because of a `NOTIFY_ALL`. -/
theorem Tenure.Posted.release_last {registered : τ → Bool} {n : Tenure τ} {t : τ}
    (h : n.Posted registered .NOTIFY_ALL) (ht : registered t = true)
    (hlast : ∀ u, registered u = true → u = t) :
    Tenure.Open { n with released := t :: n.released } ∧
      Tenure.Ready { n with released := t :: n.released } t := by
  obtain ⟨by_, hby⟩ := h.reason
  have hnodup : (t :: n.released).Nodup := by
    refine List.nodup_cons.mpr ⟨?_, h.once⟩
    intro hmem
    rw [h.left t hmem] at ht
    cases ht
  have hsplit : ∀ u, u ∈ n.registered ↔ u ∈ t :: n.released := by
    intro u
    rw [h.split u, List.mem_cons, or_comm]
    refine or_congr_left ⟨hlast u, ?_⟩
    rintro rfl
    exact ht
  refine ⟨⟨h.locked, hnodup, fun u hu => (hsplit u).mpr hu, ?_, ?_⟩, h.locked, ?_⟩
  · intro by' hone
    simp only [hby] at hone
    cases hone
  · intro hother
    exact absurd hby (hother by_ .NOTIFY_ALL)
  · simp only [Tenure.Closed, hby]
    refine ⟨?_, ?_⟩
    · intro hnobody
      have ht' := (hsplit t).mpr (List.mem_cons_self ..)
      rw [hnobody] at ht'
      cases ht'
    · intro _
      refine ⟨hnodup, fun u hu => (hsplit u).mpr hu, ?_, fun _ u hu => (hsplit u).mp hu, t, n.released,
        rfl, rfl⟩
      intro hcommand
      cases hcommand

end interprocess.ipcdetail.spin_condition
