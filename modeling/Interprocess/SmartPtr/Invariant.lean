import Interprocess.Base.Count
import Interprocess.SmartPtr.Balanced
import Interprocess.SmartPtr.Counts

open Count

namespace interprocess.smart_ptr

variable {τ ι : Type}

/-- Every reference is counted, by the object or by the operation that has it. -/
structure Inv [Fintype τ] [Fintype ι] (s : State τ ι) : Prop where
  counts : Counts s.created s.use_count_ s.weak_count_ s.disposed s.destroyed
    (total Obj.owners s.obj + total Frame.owners s.frame)
    (total Obj.observers s.obj + total Frame.observers s.frame)
    (count Frame.disposing s.frame) (count Frame.destroying s.frame)
  frames : ∀ t, FrameOk s.obj t (s.frame t)

theorem FrameOk.congr {obj obj' : ι → Obj τ} {t : τ} {f : Frame ι} (hok : FrameOk obj t f)
    (hwrites : ∀ i ∈ f.code.writes, obj' i = obj i) (hreads : ∀ j, f.src = some j → obj' j = obj j) :
    FrameOk obj' t f := by
  have howners : src_owners obj' f.src = src_owners obj f.src := by
    cases hsrc : f.src with
    | none => rfl
    | some j => simp only [src_owners, hreads j hsrc]
  have hobservers : src_observers obj' f.src = src_observers obj f.src := by
    cases hsrc : f.src with
    | none => rfl
    | some j => simp only [src_observers, hreads j hsrc]
  refine ⟨?_, ?_, ?_⟩
  · rw [howners, hobservers]
    exact hok.balanced
  · intro i hi
    rw [hwrites i hi]
    exact hok.writes i hi
  · intro j hj
    rw [hreads j hj]
    exact hok.reads j hj

/-- A write to an object in a thread's hand does not concern the others. -/
theorem FrameOk.of_store [DecidableEq ι] {obj : ι → Obj τ} {t u : τ} {i : ι} {f : Frame ι}
    {o : Obj τ} (hok : FrameOk obj u f) (hbusy : obj i = .busy t) (htu : t ≠ u) :
    FrameOk (Function.update obj i o) u f := by
  refine hok.congr ?_ ?_
  · intro k hk
    rw [Function.update_of_ne]
    rintro rfl
    have := hok.writes k hk
    rw [hbusy] at this
    cases this
    exact htu rfl
  · intro j hj
    rw [Function.update_of_ne]
    rintro rfl
    have := hok.reads j hj
    rw [hbusy] at this
    exact this

/-- The frame after an access is well formed when what is left of its code is
    balanced and the objects it has still to write stay in its hand. -/
theorem FrameOk.next {obj obj' : ι → Obj τ} {t : τ} {f : Frame ι} (hok : FrameOk obj t f)
    {owners observers : Nat} {code : Code ι}
    (hbalanced : Frame.Balanced (src_owners obj f.src) (src_observers obj f.src)
      { owners := owners, observers := observers, src := f.src, code := code })
    (hwrites : ∀ i ∈ code.writes, obj' i = .busy t)
    (hreads : ∀ j, f.src = some j → obj' j = obj j) :
    FrameOk obj' t (f.next owners observers code) := by
  have hsrc : src_owners obj' f.src = src_owners obj f.src ∧
      src_observers obj' f.src = src_observers obj f.src := by
    cases hsrc : f.src with
    | none => exact ⟨rfl, rfl⟩
    | some j => simp only [src_owners, src_observers, hreads j hsrc, and_self]
  have hgeneral : FrameOk obj' t
      { owners := owners, observers := observers, src := f.src, code := code } := by
    refine ⟨?_, hwrites, ?_⟩
    · rw [hsrc.1, hsrc.2]
      exact hbalanced
    · intro j hj
      rw [hreads j hj]
      exact hok.reads j hj
  cases code with
  | done =>
    refine ⟨hgeneral.balanced, hwrites, ?_⟩
    intro j hj
    cases hj
  | _ => exact hgeneral

section Taking

variable [DecidableEq ι]

theorem take_of_not_mem {obj : ι → Obj τ} {t : τ} {dsts : List ι} {i : ι} (hi : i ∉ dsts) :
    take obj t dsts i = obj i := by
  induction dsts with
  | nil => rfl
  | cons d dsts ih =>
    rw [List.mem_cons, not_or] at hi
    rw [take, Function.update_of_ne hi.1, ih hi.2]

theorem take_of_mem {obj : ι → Obj τ} {t : τ} {dsts : List ι} {i : ι} (hi : i ∈ dsts) :
    take obj t dsts i = .busy t := by
  induction dsts with
  | nil => cases hi
  | cons d dsts ih =>
    by_cases hid : i = d
    · rw [take, hid, Function.update_self]
    · rw [take, Function.update_of_ne hid]
      exact ih ((List.mem_cons.mp hi).resolve_left hid)

/-- Taking objects in hand moves their weight to the thread. -/
theorem total_take [Fintype ι] (weight : Obj τ → Nat) (t : τ) (hbusy : weight (.busy t) = 0)
    (obj : ι → Obj τ) {dsts : List ι} (hnodup : dsts.Nodup) :
    total weight (take obj t dsts) + (dsts.map fun i => weight (obj i)).sum = total weight obj := by
  induction dsts with
  | nil => rfl
  | cons d dsts ih =>
    obtain ⟨hd, hrest⟩ := List.nodup_cons.mp hnodup
    have hupdate := total_update weight (take obj t dsts) d (.busy t)
    rw [hbusy, take_of_not_mem hd] at hupdate
    have hbefore := ih hrest
    simp only [take, List.map_cons, List.sum_cons]
    omega

end Taking

section Frames

variable (f : Frame ι) (owners observers : Nat) (code : Code ι)

@[simp] theorem Frame.next_owners : (f.next owners observers code).owners = owners := by
  cases code <;> rfl

@[simp] theorem Frame.next_observers : (f.next owners observers code).observers = observers := by
  cases code <;> rfl

theorem Frame.next_disposing : (f.next owners observers code).disposing =
    Frame.disposing { owners := owners, observers := observers, src := f.src, code := code } := by
  cases code <;> rfl

theorem Frame.next_destroying : (f.next owners observers code).destroying =
    Frame.destroying { owners := owners, observers := observers, src := f.src, code := code } := by
  cases code <;> rfl

variable {f owners observers code}

/-- Balanced code neither disposes nor destroys on its own. -/
theorem Code.Balanced.frame {e v : Nat} (h : code.Balanced e v owners observers)
    (src : Option ι) :
    Frame.Balanced e v { owners := owners, observers := observers, src := src, code := code } ∧
      Frame.disposing { owners := owners, observers := observers, src := src, code := code } = false ∧
      Frame.destroying { owners := owners, observers := observers, src := src, code := code } =
        false := by
  cases code with
  | dispose => exact h.elim
  | destroy => exact h.elim
  | _ => exact ⟨h, rfl, rfl⟩

end Frames

section Runs

variable [Fintype τ] [Fintype ι] [DecidableEq τ]

/-- A step of one thread keeps the invariant when it keeps the counters right for
    any references of the others, and every frame well formed. -/
theorem Inv.update {s s' : State τ ι} (hinv : Inv s) {t : τ} {f' : Frame ι}
    (hframe : s'.frame = Function.update s.frame t f')
    (hcounts : ∀ o v p q, Counts s.created s.use_count_ s.weak_count_ s.disposed s.destroyed
        (total Obj.owners s.obj + (o + (s.frame t).owners))
        (total Obj.observers s.obj + (v + (s.frame t).observers))
        (p + (s.frame t).disposing.toNat) (q + (s.frame t).destroying.toNat) →
      Counts s'.created s'.use_count_ s'.weak_count_ s'.disposed s'.destroyed
        (total Obj.owners s'.obj + (o + f'.owners)) (total Obj.observers s'.obj + (v + f'.observers))
        (p + f'.disposing.toNat) (q + f'.destroying.toNat))
    (hown : FrameOk s'.obj t f') (hothers : ∀ u, u ≠ t → FrameOk s'.obj u (s.frame u)) :
    Inv s' := by
  obtain ⟨o, ho⟩ := exists_total_update Frame.owners s.frame t
  obtain ⟨v, hv⟩ := exists_total_update Frame.observers s.frame t
  obtain ⟨p, hp⟩ := exists_total_update (fun f => f.disposing.toNat) s.frame t
  obtain ⟨q, hq⟩ := exists_total_update (fun f => f.destroying.toNat) s.frame t
  have hbefore := hinv.counts
  have ho' := ho (s.frame t)
  have hv' := hv (s.frame t)
  have hp' := hp (s.frame t)
  have hq' := hq (s.frame t)
  rw [Function.update_eq_self] at ho' hv' hp' hq'
  simp only [count, ho', hv', hp', hq'] at hbefore
  refine ⟨?_, ?_⟩
  · simp only [count, hframe, ho, hv, hp, hq]
    exact hcounts o v p q hbefore
  · intro u
    rw [hframe]
    by_cases hu : u = t
    · rw [hu, Function.update_self]
      exact hown
    · rw [Function.update_of_ne hu]
      exact hothers u hu

omit [Fintype τ] [DecidableEq τ] in
theorem src_owners_le (obj : ι → Obj τ) (src : Option ι) :
    src_owners obj src ≤ total Obj.owners obj := by
  cases src with
  | none => exact Nat.zero_le _
  | some j => exact weight_le_total Obj.owners obj j

omit [Fintype τ] [DecidableEq τ] in
theorem src_observers_le (obj : ι → Obj τ) (src : Option ι) :
    src_observers obj src ≤ total Obj.observers obj := by
  cases src with
  | none => exact Nat.zero_le _
  | some j => exact weight_le_total Obj.observers obj j

/-- An access to the control block. -/
theorem Inv.access {s s' : State τ ι} (hinv : Inv s) {t : τ} {owners observers : Nat} {code : Code ι}
    (hobj : s'.obj = s.obj)
    (hframe : s'.frame = Function.update s.frame t ((s.frame t).next owners observers code))
    (hbalanced : Frame.Balanced (src_owners s.obj (s.frame t).src)
      (src_observers s.obj (s.frame t).src)
      { owners := owners, observers := observers, src := (s.frame t).src, code := code })
    (hwrites : ∀ i ∈ code.writes, i ∈ (s.frame t).code.writes)
    (hcounts : ∀ o v p q, src_owners s.obj (s.frame t).src ≤ o →
      src_observers s.obj (s.frame t).src ≤ v →
      Counts s.created s.use_count_ s.weak_count_ s.disposed s.destroyed
        (o + (s.frame t).owners) (v + (s.frame t).observers)
        (p + (s.frame t).disposing.toNat) (q + (s.frame t).destroying.toNat) →
      Counts s'.created s'.use_count_ s'.weak_count_ s'.disposed s'.destroyed
        (o + owners) (v + observers)
        (p + (Frame.disposing ⟨owners, observers, (s.frame t).src, code⟩).toNat)
        (q + (Frame.destroying ⟨owners, observers, (s.frame t).src, code⟩).toNat)) : Inv s' := by
  have hok := hinv.frames t
  refine hinv.update hframe ?_ ?_ ?_
  · intro o v p q hbefore
    rw [← Nat.add_assoc, ← Nat.add_assoc] at hbefore
    have hsrcOwners := src_owners_le s.obj (s.frame t).src
    have hsrcObservers := src_observers_le s.obj (s.frame t).src
    have hafter := hcounts _ _ _ _ (by omega) (by omega) hbefore
    simp only [Frame.next_owners, Frame.next_observers, Frame.next_disposing, Frame.next_destroying,
      hobj, ← Nat.add_assoc]
    exact hafter
  · rw [hobj]
    exact hok.next hbalanced (fun i hi => hok.writes i (hwrites i hi)) fun _ _ => rfl
  · intro u _
    rw [hobj]
    exact hinv.frames u

/-- The write of a finished value moves the reference from the operation to the
    object. -/
theorem Inv.store [DecidableEq ι] {s s' : State τ ι} (hinv : Inv s) {t : τ} {i : ι} {o : Obj τ}
    {owners observers : Nat} {code : Code ι}
    (hobj : s'.obj = Function.update s.obj i o)
    (hframe : s'.frame = Function.update s.frame t ((s.frame t).next owners observers code))
    (hsame : s'.created = s.created ∧ s'.use_count_ = s.use_count_ ∧
      s'.weak_count_ = s.weak_count_ ∧ s'.disposed = s.disposed ∧ s'.destroyed = s.destroyed)
    (hbalanced : code.Balanced (src_owners s.obj (s.frame t).src)
      (src_observers s.obj (s.frame t).src) owners observers)
    (hwrites : (s.frame t).code.writes = i :: code.writes) (honce : i ∉ code.writes)
    (hplain : (s.frame t).disposing = false ∧ (s.frame t).destroying = false)
    (howners : o.owners + owners = (s.frame t).owners)
    (hobservers : o.observers + observers = (s.frame t).observers) : Inv s' := by
  have hok := hinv.frames t
  have hbusy : s.obj i = .busy t := hok.writes i (by rw [hwrites]; exact List.mem_cons_self)
  obtain ⟨hframeBalanced, hdisposing, hdestroying⟩ := hbalanced.frame (s.frame t).src
  refine hinv.update hframe ?_ ?_ ?_
  · intro o' v p q hbefore
    obtain ⟨h₁, h₂, h₃, h₄, h₅⟩ := hsame
    simp only [Frame.next_owners, Frame.next_observers, Frame.next_disposing, Frame.next_destroying,
      hdisposing, hdestroying, h₁, h₂, h₃, h₄, h₅, hobj]
    rw [hplain.1, hplain.2] at hbefore
    have hO : total Obj.owners (Function.update s.obj i o) + (o' + owners) =
        total Obj.owners s.obj + (o' + (s.frame t).owners) := by
      have := total_update Obj.owners s.obj i o
      rw [hbusy] at this
      change _ + 0 = _ at this
      omega
    have hV : total Obj.observers (Function.update s.obj i o) + (v + observers) =
        total Obj.observers s.obj + (v + (s.frame t).observers) := by
      have := total_update Obj.observers s.obj i o
      rw [hbusy] at this
      change _ + 0 = _ at this
      omega
    rw [hO, hV]
    exact hbefore
  · rw [hobj]
    refine hok.next hframeBalanced ?_ ?_
    · intro k hk
      rw [Function.update_of_ne]
      · exact hok.writes k (by rw [hwrites]; exact List.mem_cons_of_mem i hk)
      · rintro rfl
        exact honce hk
    · intro j hj
      rw [Function.update_of_ne]
      rintro rfl
      have hlive := hok.reads j hj
      rw [hbusy] at hlive
      exact hlive
  · intro u hu
    rw [hobj]
    exact (hinv.frames u).of_store hbusy (Ne.symm hu)

end Runs

end interprocess.smart_ptr
