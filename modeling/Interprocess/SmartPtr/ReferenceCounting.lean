import Interprocess.Base.Transition
import Interprocess.SmartPtr.Accesses

open Count Transition

namespace interprocess.smart_ptr

variable {τ ι : Type} [Fintype τ] [Fintype ι] [DecidableEq τ] [DecidableEq ι]

omit [DecidableEq τ] in
/-- Creating the control block starts both counts with the first owner. -/
theorem Inv.construct {s : State τ ι} (hinv : Inv s) {i : ι}
    (hcreated : s.created = false) (hvacant : s.obj i = .vacant) :
    Inv { s with
      created := true
      use_count_ := 1
      weak_count_ := 1
      obj := Function.update s.obj i (.shared true) } := by
  obtain ⟨huse, hweak, hdisposed, hdestroyed, huncreated⟩ := hinv.counts
  have hzero := huncreated hcreated
  have howners := total_update Obj.owners s.obj i (.shared true)
  have hobservers := total_update Obj.observers s.obj i (.shared true)
  rw [hvacant] at howners hobservers
  simp only [Obj.owners_vacant, Obj.owners_shared, Bool.toNat_true, Obj.observers_vacant,
    Obj.observers_shared] at howners hobservers
  rw [if_neg (by simp [hcreated])] at hdisposed hdestroyed
  have hnone : s.use_count_ = 0 := by
    by_contra hne
    rw [if_neg hne] at hweak
    omega
  rw [if_pos hnone] at hweak
  refine ⟨⟨?_, ?_, hdisposed, hdestroyed, fun hfalse => absurd hfalse (by simp)⟩, ?_⟩
  · change 1 = total Obj.owners (Function.update s.obj i (.shared true)) + total Frame.owners s.frame
    omega
  · change 1 = total Obj.observers (Function.update s.obj i (.shared true)) +
      total Frame.observers s.frame + 1
    omega
  · intro t
    have hok := hinv.frames t
    refine hok.congr ?_ ?_
    · intro k hk
      refine Function.update_of_ne ?_ _ _
      rintro rfl
      have hbusy := hok.writes k hk
      rw [hvacant] at hbusy
      cases hbusy
    · intro j hj
      refine Function.update_of_ne ?_ _ _
      rintro rfl
      have hlive := hok.reads j hj
      rw [hvacant] at hlive
      exact hlive

/-- Beginning an operation moves the references of the objects it writes into
    its hand. -/
theorem Inv.begin {s : State τ ι} (hinv : Inv s) {t : τ} {p : Plan ι}
    (hplan : PlanOk s.obj p) (hdone : (s.frame t).code = .done)
    (hunread : ∀ i ∈ p.dsts, ∀ u, (s.frame u).src ≠ some i) :
    Inv { s with
      obj := take s.obj t p.dsts
      frame := Function.update s.frame t
        { owners := (p.dsts.map fun i => (s.obj i).owners).sum
          observers := (p.dsts.map fun i => (s.obj i).observers).sum
          src := p.src
          code := p.code } } := by
  have hempty := (hinv.frames t).balanced
  simp only [Frame.Balanced, hdone, Code.balanced_done] at hempty
  have hplain : (s.frame t).disposing = false ∧ (s.frame t).destroying = false := by
    simp [Frame.disposing, Frame.destroying, hdone]
  obtain ⟨hframe, hdisposing, hdestroying⟩ := hplan.balanced.frame p.src
  have hsrc : ∀ j, p.src = some j → take s.obj t p.dsts j = s.obj j :=
    fun j hj => take_of_not_mem (hplan.reads j hj).1
  refine hinv.update rfl ?_ ?_ ?_
  · intro o v P Q hbefore
    have howners := total_take Obj.owners t rfl s.obj hplan.nodup
    have hobservers := total_take Obj.observers t rfl s.obj hplan.nodup
    rw [hempty.1, hempty.2, hplain.1, hplain.2] at hbefore
    rw [hdisposing, hdestroying]
    have hO : total Obj.owners (take s.obj t p.dsts) + (o + (p.dsts.map fun i => (s.obj i).owners).sum) =
        total Obj.owners s.obj + (o + 0) := by omega
    have hV : total Obj.observers (take s.obj t p.dsts) +
        (v + (p.dsts.map fun i => (s.obj i).observers).sum) =
        total Obj.observers s.obj + (v + 0) := by omega
    simp only [hO, hV]
    exact hbefore
  · refine ⟨?_, ?_, ?_⟩
    · have howners : src_owners (take s.obj t p.dsts) p.src = src_owners s.obj p.src := by
        cases hp : p.src with
        | none => rfl
        | some j => simp only [src_owners, hsrc j hp]
      have hobservers : src_observers (take s.obj t p.dsts) p.src = src_observers s.obj p.src := by
        cases hp : p.src with
        | none => rfl
        | some j => simp only [src_observers, hsrc j hp]
      simp only [howners, hobservers]
      exact hframe
    · intro i hi
      exact take_of_mem (hplan.writes i hi)
    · intro j hj
      change (take s.obj t p.dsts j).Live
      rw [hsrc j hj]
      exact (hplan.reads j hj).2
  · intro u _
    have hok := hinv.frames u
    refine hok.congr ?_ ?_
    · intro i hi
      refine take_of_not_mem ?_
      intro hmem
      exact hplan.free i hmem u (hok.writes i hi)
    · intro j hj
      refine take_of_not_mem ?_
      intro hmem
      exact hunread j hmem u hj

/-- The counts fit in 32 bits after the step, and no aliasing operation begins
    with an owning source. -/
def Allowed (s : State τ ι) (a : Label τ ι) : Prop :=
  s.use_count_ < uint32_max ∧ s.weak_count_ < uint32_max ∧
    match a with
    | .begin _ op => op.aliases_owner s.obj = false
    | .advance _ => True

instance (s : State τ ι) (a : Label τ ι) : Decidable (Allowed s a) :=
  match a with
  | .begin _ _ => inferInstanceAs (Decidable (_ ∧ _ ∧ _))
  | .advance _ => inferInstanceAs (Decidable (_ ∧ _ ∧ _))

theorem Inv.step {s s' : State τ ι} (hinv : Inv s) {a : Label τ ι}
    (hallowed : Allowed s a) (hstep : step s a = some s') : Inv s' := by
  obtain ⟨huse, hweak, halias⟩ := hallowed
  cases a with
  | advance t => exact hinv.advance huse hweak hstep
  | begin t op =>
    have hplanned : ∀ p, op.plan s.obj = some p → (s.frame t).code = .done →
        (∀ i ∈ p.dsts, ∀ u, (s.frame u).src ≠ some i) → some { s with
          obj := take s.obj t p.dsts
          frame := Function.update s.frame t
            { owners := (p.dsts.map fun i => (s.obj i).owners).sum
              observers := (p.dsts.map fun i => (s.obj i).observers).sum
              src := p.src
              code := p.code } } = some s' → Inv s' := by
      intro p hp hdone hunread heq
      cases heq
      exact hinv.begin (plan_ok hp halias) hdone hunread
    cases op with
    | construct i =>
      simp only [smart_ptr.step] at hstep
      split at hstep
      case h_2 => cases hstep
      case h_1 hdone hvacant =>
        split_ifs at hstep with hcreated
        cases hstep
        exact hinv.construct (by simpa using hcreated) hvacant
    | _ =>
      simp only [smart_ptr.step] at hstep
      split at hstep
      case h_2 => cases hstep
      case h_1 p hdone hp =>
        split_ifs at hstep with hunread
        exact hplanned p hp hdone hunread hstep

omit [DecidableEq τ] [DecidableEq ι] in
theorem start_inv : Inv (start : State τ ι) := by
  have hobj : ∀ weight : Obj τ → Nat, weight .vacant = 0 →
      total weight (fun _ : ι => .vacant) = 0 :=
    fun weight hzero => (total_eq_zero_iff weight _).mpr fun _ => hzero
  have hframe : ∀ weight : Frame ι → Nat, weight .idle = 0 →
      total weight (fun _ : τ => .idle) = 0 :=
    fun weight hzero => (total_eq_zero_iff weight _).mpr fun _ => hzero
  refine ⟨⟨?_, ?_, ?_, ?_, fun _ => rfl⟩, ?_⟩
  · simp only [start, hobj Obj.owners rfl, hframe Frame.owners rfl]
  · simp only [start, hobj Obj.observers rfl, hframe Frame.observers rfl, if_true]
  · simp only [start, count, hframe (fun f => f.disposing.toNat) rfl, Bool.false_eq_true, false_and,
      if_false]
  · simp only [start, count, hframe (fun f => f.destroying.toNat) rfl, Bool.false_eq_true, false_and,
      if_false]
  · intro t
    refine ⟨⟨rfl, rfl⟩, ?_, ?_⟩
    · intro i hi
      cases hi
    · intro j hj
      cases hj

omit [DecidableEq τ] [DecidableEq ι] in
/-- A destroyed control block had been disposed: the disposing operation holds
    the owners' weak reference until it is done. -/
theorem Inv.disposed_of_destroyed {s : State τ ι} (hinv : Inv s) (hdestroyed : 0 < s.destroyed) :
    s.disposed = 1 := by
  obtain ⟨huse, hweak, hdisposed, hdestroyed', _⟩ := hinv.counts
  have hzero : s.created = true ∧ s.weak_count_ = 0 := by
    by_contra hnot
    rw [if_neg hnot] at hdestroyed'
    omega
  have hnouse : s.use_count_ = 0 := by
    by_contra hne
    rw [if_neg hne] at hweak
    omega
  rw [if_pos ⟨hzero.1, hnouse⟩] at hdisposed
  have hnobody : count Frame.disposing s.frame = 0 := by
    rw [count, total_eq_zero_iff]
    intro t
    cases hdisposing : (s.frame t).disposing with
    | false => rfl
    | true =>
      have hbalanced := (hinv.frames t).balanced
      have hle := weight_le_total Frame.observers s.frame t
      unfold Frame.disposing at hdisposing
      split at hdisposing
      case h_2 => cases hdisposing
      case h_1 next hcode =>
        simp only [Frame.Balanced, hcode] at hbalanced
        omega
  omega

/-- In every state of every run whose aliasing operations all have an empty
    source, the counts are the references there are, the object is disposed once
    and with no owner left, and the control block is destroyed once, after the
    disposal and with no reference left. -/
theorem reference_counting (s : State τ ι) (hreach : Reaches step Allowed start s) :
    s.use_count_ = total Obj.owners s.obj + total Frame.owners s.frame ∧
      s.weak_count_ = total Obj.observers s.obj + total Frame.observers s.frame +
        (if s.use_count_ = 0 then 0 else 1) ∧
      s.disposed + count Frame.disposing s.frame =
        (if s.created = true ∧ s.use_count_ = 0 then 1 else 0) ∧
      s.destroyed + count Frame.destroying s.frame =
        (if s.created = true ∧ s.weak_count_ = 0 then 1 else 0) ∧
      (0 < s.disposed → ∀ i, s.obj i ≠ .shared true) ∧
      (0 < s.destroyed → s.disposed = 1 ∧ ∀ i, s.obj i ≠ .weak true) := by
  have hinv : Inv s := hreach.invariant start_inv
    fun _ _ _ hbefore hallowed hstep => hbefore.step hallowed hstep
  obtain ⟨huse, hweak, hdisposed, hdestroyed, _⟩ := hinv.counts
  refine ⟨huse, hweak, hdisposed, hdestroyed, ?_, ?_⟩
  · intro hpos i hi
    have hle := weight_le_total Obj.owners s.obj i
    rw [hi, Obj.owners_shared, Bool.toNat_true] at hle
    rw [if_neg (by omega)] at hdisposed
    omega
  · intro hpos
    refine ⟨hinv.disposed_of_destroyed hpos, ?_⟩
    intro i hi
    have hle := weight_le_total Obj.observers s.obj i
    rw [hi, Obj.observers_weak, Bool.toNat_true] at hle
    rw [if_neg (by omega)] at hdestroyed
    omega

/-- A `weak_ptr` locked while the last owner goes away. -/
theorem reference_counting_after_lock :
    ∃ s : State (Fin 2) (Fin 3), Reaches step Allowed start s ∧ 0 < s.disposed ∧
      s.obj 2 = .shared false ∧ s.use_count_ = total Obj.owners s.obj + total Frame.owners s.frame := by
  obtain ⟨s, hreach, hs⟩ := exists_reaches_of_replay step Allowed start
    [.begin (0 : Fin 2) (.construct (0 : Fin 3)), .begin 0 (.weak_from_shared 1 0), .advance 0,
      .advance 0, .begin 1 (.lock 2 1), .advance 1, .advance 1, .begin 0 (.destroy 0), .advance 0,
      .advance 1, .advance 1, .advance 1, .advance 0, .advance 0, .advance 0]
    (fun s => 0 < s.disposed ∧ s.obj 2 = .shared false) (by decide)
  obtain ⟨hdisposed, hempty⟩ := of_decide_eq_true hs
  exact ⟨s, hreach, hdisposed, hempty, (reference_counting s hreach).1⟩

/-- An aliasing `shared_ptr` of an owner is not counted: the object is disposed
    while it still has an owner. -/
theorem alias_construct_not_counted :
    ∃ s : State (Fin 1) (Fin 2), Reachable step start s ∧ s.use_count_ < uint32_max ∧
      s.weak_count_ < uint32_max ∧ (∀ t, (s.frame t).owners = 0) ∧
      s.use_count_ ≠ total Obj.owners s.obj ∧ s.disposed = 1 ∧ s.obj 1 = .shared true := by
  obtain ⟨s, hreach, hs⟩ := exists_reachable_of_replay step start
    [.begin (0 : Fin 1) (.construct (0 : Fin 2)), .begin 0 (.alias_construct 1 0), .advance 0,
      .begin 0 (.destroy 0), .advance 0, .advance 0, .advance 0, .advance 0, .advance 0]
    (fun s => s.use_count_ < uint32_max ∧ s.weak_count_ < uint32_max ∧
      (∀ t, (s.frame t).owners = 0) ∧ s.use_count_ ≠ total Obj.owners s.obj ∧ s.disposed = 1 ∧
      s.obj 1 = .shared true) (by decide)
  exact ⟨s, hreach, of_decide_eq_true hs⟩

end interprocess.smart_ptr
