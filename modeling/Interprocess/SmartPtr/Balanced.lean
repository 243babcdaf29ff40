import Interprocess.SmartPtr.Operations

namespace interprocess.smart_ptr

section Definitions

variable {τ ι : Type}

/-- The objects some way through the code writes. -/
def Code.writes : Code ι → List ι
  | .done => []
  | .add_ref_copy next | .release next | .dispose next => next.writes
  | .weak_add_ref next | .weak_release next | .destroy next => next.writes
  | .expired yes no => yes.writes ++ no.writes
  | .add_ref_lock locked failed | .atomic_cas32 _ locked failed => locked.writes ++ failed.writes
  | .store_shared i _ next | .store_weak i _ next | .store_vacant i next => i :: next.writes

/-- Code that starts with the given references in hand gives up every one of
    them, takes a reference only while it can point to another one, and writes
    an object once. `e` and `v` are the references of the object it reads. -/
def Code.Balanced (e v : Nat) : Nat → Nat → Code ι → Prop
  | owners, observers, .done => owners = 0 ∧ observers = 0
  | owners, observers, .add_ref_copy next =>
    0 < owners + e ∧ next.Balanced e v (owners + 1) observers
  | owners, observers, .release next => 0 < owners ∧ next.Balanced e v (owners - 1) observers
  | _, _, .dispose _ => False
  | owners, observers, .weak_add_ref next =>
    0 < owners + observers + e + v ∧ next.Balanced e v owners (observers + 1)
  | owners, observers, .weak_release next =>
    0 < observers ∧ next.Balanced e v owners (observers - 1)
  | _, _, .destroy _ => False
  | owners, observers, .expired yes no =>
    yes.Balanced e v owners observers ∧ no.Balanced e v owners observers
  | owners, observers, .add_ref_lock locked failed =>
    locked.Balanced e v (owners + 1) observers ∧ failed.Balanced e v owners observers
  | owners, observers, .atomic_cas32 tmp locked failed =>
    tmp ≠ 0 ∧ locked.Balanced e v (owners + 1) observers ∧ failed.Balanced e v owners observers
  | owners, observers, .store_shared i m_pi next =>
    m_pi.toNat ≤ owners ∧ i ∉ next.writes ∧ next.Balanced e v (owners - m_pi.toNat) observers
  | owners, observers, .store_weak i m_pi next =>
    m_pi.toNat ≤ observers ∧ i ∉ next.writes ∧ next.Balanced e v owners (observers - m_pi.toNat)
  | owners, observers, .store_vacant i next =>
    i ∉ next.writes ∧ next.Balanced e v owners observers

namespace Code

variable (i : ι) (m_pi : Bool) (tmp : Nat) (next yes no : Code ι)

@[simp] theorem writes_done : (done : Code ι).writes = [] := rfl

@[simp] theorem writes_add_ref_copy : (add_ref_copy next).writes = next.writes := rfl

@[simp] theorem writes_release : (release next).writes = next.writes := rfl

@[simp] theorem writes_dispose : (dispose next).writes = next.writes := rfl

@[simp] theorem writes_weak_add_ref : (weak_add_ref next).writes = next.writes := rfl

@[simp] theorem writes_weak_release : (weak_release next).writes = next.writes := rfl

@[simp] theorem writes_destroy : (destroy next).writes = next.writes := rfl

@[simp] theorem writes_expired : (expired yes no).writes = yes.writes ++ no.writes := rfl

@[simp] theorem writes_add_ref_lock : (add_ref_lock yes no).writes = yes.writes ++ no.writes := rfl

@[simp] theorem writes_atomic_cas32 :
    (atomic_cas32 tmp yes no).writes = yes.writes ++ no.writes := rfl

@[simp] theorem writes_store_shared : (store_shared i m_pi next).writes = i :: next.writes := rfl

@[simp] theorem writes_store_weak : (store_weak i m_pi next).writes = i :: next.writes := rfl

@[simp] theorem writes_store_vacant : (store_vacant i next).writes = i :: next.writes := rfl

variable (e v owners observers : Nat)

@[simp] theorem balanced_done :
    (done : Code ι).Balanced e v owners observers ↔ owners = 0 ∧ observers = 0 := Iff.rfl

@[simp] theorem balanced_add_ref_copy : (add_ref_copy next).Balanced e v owners observers ↔
    0 < owners + e ∧ next.Balanced e v (owners + 1) observers := Iff.rfl

@[simp] theorem balanced_release : (release next).Balanced e v owners observers ↔
    0 < owners ∧ next.Balanced e v (owners - 1) observers := Iff.rfl

@[simp] theorem balanced_weak_add_ref : (weak_add_ref next).Balanced e v owners observers ↔
    0 < owners + observers + e + v ∧ next.Balanced e v owners (observers + 1) := Iff.rfl

@[simp] theorem balanced_weak_release : (weak_release next).Balanced e v owners observers ↔
    0 < observers ∧ next.Balanced e v owners (observers - 1) := Iff.rfl

@[simp] theorem balanced_expired : (expired yes no).Balanced e v owners observers ↔
    yes.Balanced e v owners observers ∧ no.Balanced e v owners observers := Iff.rfl

@[simp] theorem balanced_add_ref_lock : (add_ref_lock yes no).Balanced e v owners observers ↔
    yes.Balanced e v (owners + 1) observers ∧ no.Balanced e v owners observers := Iff.rfl

@[simp] theorem balanced_store_shared : (store_shared i m_pi next).Balanced e v owners observers ↔
    m_pi.toNat ≤ owners ∧ i ∉ next.writes ∧
      next.Balanced e v (owners - m_pi.toNat) observers := Iff.rfl

@[simp] theorem balanced_store_weak : (store_weak i m_pi next).Balanced e v owners observers ↔
    m_pi.toNat ≤ observers ∧ i ∉ next.writes ∧
      next.Balanced e v owners (observers - m_pi.toNat) := Iff.rfl

@[simp] theorem balanced_store_vacant : (store_vacant i next).Balanced e v owners observers ↔
    i ∉ next.writes ∧ next.Balanced e v owners observers := Iff.rfl

end Code

/-- The disposal and the destruction follow a last release. -/
def Frame.Balanced (e v : Nat) (f : Frame ι) : Prop :=
  match f.code with
  | .dispose next => 0 < f.observers ∧ next.Balanced e v f.owners f.observers
  | .destroy next => next.Balanced e v f.owners f.observers
  | code => code.Balanced e v f.owners f.observers

def Frame.disposing (f : Frame ι) : Bool :=
  match f.code with
  | .dispose _ => true
  | _ => false

def Frame.destroying (f : Frame ι) : Bool :=
  match f.code with
  | .destroy _ => true
  | _ => false

/-- A smart pointer object that nobody writes. -/
def Obj.Live : Obj τ → Prop
  | .shared _ | .weak _ => True
  | _ => False

/-- The references of the object a frame reads. -/
def src_owners (obj : ι → Obj τ) : Option ι → Nat
  | some j => (obj j).owners
  | none => 0

def src_observers (obj : ι → Obj τ) : Option ι → Nat
  | some j => (obj j).observers
  | none => 0

structure FrameOk (obj : ι → Obj τ) (t : τ) (f : Frame ι) : Prop where
  balanced : f.Balanced (src_owners obj f.src) (src_observers obj f.src)
  writes : ∀ i ∈ f.code.writes, obj i = .busy t
  reads : ∀ j, f.src = some j → (obj j).Live

end Definitions

section Plans

variable {τ ι : Type}

/-- What beginning an operation relies on: it writes objects nobody writes,
    each once, reads another live one, and accounts for every reference. -/
structure PlanOk (obj : ι → Obj τ) (p : Plan ι) : Prop where
  nodup : p.dsts.Nodup
  free : ∀ i ∈ p.dsts, ∀ t, obj i ≠ .busy t
  writes : ∀ i ∈ p.code.writes, i ∈ p.dsts
  reads : ∀ j, p.src = some j → j ∉ p.dsts ∧ (obj j).Live
  balanced : p.code.Balanced (src_owners obj p.src) (src_observers obj p.src)
    (p.dsts.map fun i => (obj i).owners).sum (p.dsts.map fun i => (obj i).observers).sum

/-- An aliasing construction or reset whose source owns the object. -/
def Op.aliases_owner (obj : ι → Obj τ) : Op ι → Bool
  | .alias_construct _ j | .reset_alias _ j => (obj j).owners ≠ 0
  | _ => false

/-- A construction in raw storage from another object. -/
theorem PlanOk.construct {obj : ι → Obj τ} {i j : ι} {code : Code ι} (hi : obj i = .vacant)
    (hj : (obj j).Live) (hwrites : ∀ k ∈ code.writes, k = i)
    (hbalanced : code.Balanced (obj j).owners (obj j).observers 0 0) :
    PlanOk obj ⟨[i], some j, code⟩ := by
  refine ⟨List.nodup_singleton i, ?_, ?_, ?_, ?_⟩
  · simp [hi]
  · simpa using hwrites
  · intro k hk
    cases hk
    refine ⟨?_, hj⟩
    rintro hmem
    rw [List.mem_singleton.mp hmem, hi] at hj
    exact hj
  · simpa [src_owners, src_observers, hi, Obj.owners, Obj.observers] using hbalanced

/-- An operation on one live object that reads no other. -/
theorem PlanOk.single {obj : ι → Obj τ} {i : ι} {code : Code ι} (hi : ∀ t, obj i ≠ .busy t)
    (hwrites : ∀ k ∈ code.writes, k = i)
    (hbalanced : code.Balanced 0 0 (obj i).owners (obj i).observers) :
    PlanOk obj ⟨[i], none, code⟩ := by
  refine ⟨List.nodup_singleton i, ?_, ?_, ?_, ?_⟩
  · simpa using hi
  · simpa using hwrites
  · intro k hk
    cases hk
  · simpa [src_owners, src_observers] using hbalanced

/-- An assignment to a live object from another one. -/
theorem PlanOk.assign_other {obj : ι → Obj τ} {i j : ι} {code : Code ι} (hij : i ≠ j)
    (hi : ∀ t, obj i ≠ .busy t) (hj : (obj j).Live) (hwrites : ∀ k ∈ code.writes, k = i)
    (hbalanced : code.Balanced (obj j).owners (obj j).observers (obj i).owners (obj i).observers) :
    PlanOk obj ⟨[i], some j, code⟩ := by
  refine ⟨List.nodup_singleton i, ?_, ?_, ?_, ?_⟩
  · simpa using hi
  · simpa using hwrites
  · intro k hk
    cases hk
    exact ⟨by simpa using Ne.symm hij, hj⟩
  · simpa [src_owners, src_observers] using hbalanced

/-- An assignment to a live object, possibly from itself. -/
theorem PlanOk.assign [DecidableEq ι] {obj : ι → Obj τ} {i j : ι} {code : Code ι}
    (hi : ∀ t, obj i ≠ .busy t) (hj : (obj j).Live) (hwrites : ∀ k ∈ code.writes, k = i)
    (hself : i = j → code.Balanced 0 0 (obj i).owners (obj i).observers)
    (hother : i ≠ j → code.Balanced (obj j).owners (obj j).observers (obj i).owners (obj i).observers) :
    PlanOk obj ⟨[i], if i = j then none else some j, code⟩ := by
  by_cases hij : i = j
  · rw [if_pos hij]
    exact PlanOk.single hi hwrites (hself hij)
  · rw [if_neg hij]
    exact PlanOk.assign_other hij hi hj hwrites (hother hij)

/-- An exchange between two objects. -/
theorem PlanOk.pair {obj : ι → Obj τ} {i j : ι} {code : Code ι} (hij : i ≠ j)
    (hi : ∀ t, obj i ≠ .busy t) (hj : ∀ t, obj j ≠ .busy t)
    (hwrites : ∀ k ∈ code.writes, k = i ∨ k = j)
    (hbalanced : code.Balanced 0 0 ((obj i).owners + (obj j).owners)
      ((obj i).observers + (obj j).observers)) : PlanOk obj ⟨[i, j], none, code⟩ := by
  refine ⟨by simpa using hij, ?_, ?_, ?_, ?_⟩
  · simpa using ⟨hi, hj⟩
  · simpa using hwrites
  · intro k hk
    cases hk
  · simpa [src_owners, src_observers] using hbalanced

theorem ne_of_obj {obj : ι → Obj τ} {i j : ι} {a b : Obj τ} (hi : obj i = a) (hj : obj j = b)
    (hab : a ≠ b) : i ≠ j := by
  rintro rfl
  exact hab (hi.symm.trans hj)

theorem default_shared_plan_ok {obj : ι → Obj τ} {i : ι} {p : Plan ι}
    (h : Op.default_plan obj i (.store_shared i false .done) = some p) : PlanOk obj p := by
  unfold Op.default_plan at h
  split at h
  case h_2 => cases h
  case h_1 hi =>
    cases h
    refine PlanOk.single ?_ ?_ ?_ <;> simp [hi]

theorem default_weak_plan_ok {obj : ι → Obj τ} {i : ι} {p : Plan ι}
    (h : Op.default_plan obj i (.store_weak i false .done) = some p) : PlanOk obj p := by
  unfold Op.default_plan at h
  split at h
  case h_2 => cases h
  case h_1 hi =>
    cases h
    refine PlanOk.single ?_ ?_ ?_ <;> simp [hi]

theorem copy_construct_plan_ok {obj : ι → Obj τ} {i j : ι} {p : Plan ι}
    (h : Op.copy_construct_plan obj i j = some p) : PlanOk obj p := by
  unfold Op.copy_construct_plan at h
  split at h
  case h_2 => cases h
  case h_1 m_pi hi hj =>
    cases h
    refine PlanOk.construct hi ?_ ?_ ?_ <;> cases m_pi <;> simp [hj, Obj.Live]

theorem dynamic_cast_failed_plan_ok {obj : ι → Obj τ} {i j : ι} {p : Plan ι}
    (h : Op.dynamic_cast_failed_plan obj i j = some p) : PlanOk obj p := by
  unfold Op.dynamic_cast_failed_plan at h
  split at h
  case h_2 => cases h
  case h_1 m_pi hi hj =>
    cases h
    refine PlanOk.construct hi ?_ ?_ ?_ <;> cases m_pi <;> simp [hj, Obj.Live]

theorem alias_construct_plan_ok {obj : ι → Obj τ} {i j : ι} {p : Plan ι}
    (h : Op.alias_construct_plan obj i j = some p)
    (halias : (obj j).owners = 0) : PlanOk obj p := by
  unfold Op.alias_construct_plan at h
  split at h
  case h_2 => cases h
  case h_1 m_pi hi hj =>
    cases h
    simp [hj] at halias
    refine PlanOk.construct hi ?_ ?_ ?_ <;> simp [hj, halias, Obj.Live]

theorem move_construct_plan_ok {obj : ι → Obj τ} {i j : ι} {p : Plan ι}
    (h : Op.move_construct_plan obj i j = some p) : PlanOk obj p := by
  unfold Op.move_construct_plan at h
  split at h
  case h_2 => cases h
  case h_1 m_pi hi hj =>
    cases h
    have hij : i ≠ j := ne_of_obj hi hj (by simp)
    refine PlanOk.pair hij ?_ ?_ ?_ ?_ <;> cases m_pi <;> simp [hi, hj, hij]

theorem assign_plan_ok [DecidableEq ι] {obj : ι → Obj τ} {i j : ι} {p : Plan ι}
    (h : Op.assign_plan obj i j = some p) : PlanOk obj p := by
  unfold Op.assign_plan at h
  split at h
  case h_2 => cases h
  case h_1 m_pi tmp hi hj =>
    cases h
    refine PlanOk.assign ?_ ?_ ?_ ?_ ?_ <;> cases m_pi <;> cases tmp <;> simp [hi, hj, Obj.Live]
    exact ne_of_obj hi hj (by simp)

theorem move_assign_plan_ok [DecidableEq ι] {obj : ι → Obj τ} {i j : ι} {p : Plan ι}
    (h : Op.move_assign_plan obj i j = some p) : PlanOk obj p := by
  unfold Op.move_assign_plan at h
  split at h
  case h_2 => cases h
  case h_1 m_pi tmp hi hj =>
    cases h
    refine PlanOk.assign ?_ ?_ ?_ ?_ ?_ <;> cases m_pi <;> cases tmp <;> simp [hi, hj, Obj.Live]
    exact ne_of_obj hi hj (by simp)

theorem reset_plan_ok {obj : ι → Obj τ} {i : ι} {p : Plan ι}
    (h : Op.reset_plan obj i = some p) : PlanOk obj p := by
  unfold Op.reset_plan at h
  split at h
  case h_2 => cases h
  case h_1 m_pi hi =>
    cases h
    refine PlanOk.single ?_ ?_ ?_ <;> cases m_pi <;> simp [hi]

theorem reset_alias_plan_ok [DecidableEq ι] {obj : ι → Obj τ} {i j : ι} {p : Plan ι}
    (h : Op.reset_alias_plan obj i j = some p)
    (halias : (obj j).owners = 0) : PlanOk obj p := by
  unfold Op.reset_alias_plan at h
  split at h
  case h_2 => cases h
  case h_1 m_pi tmp hi hj =>
    cases h
    simp [hj] at halias
    refine PlanOk.assign ?_ ?_ ?_ ?_ ?_ <;> cases m_pi <;> simp [hi, hj, halias, Obj.Live]

theorem swap_plan_ok [DecidableEq ι] {obj : ι → Obj τ} {i j : ι} {p : Plan ι}
    (h : Op.swap_plan obj i j = some p) : PlanOk obj p := by
  unfold Op.swap_plan at h
  split at h
  case h_2 => cases h
  case h_1 a b hi hj =>
    split_ifs at h with hij
    · cases h
      refine PlanOk.single ?_ ?_ ?_ <;> simp [hi]
    · cases h
      refine PlanOk.pair hij ?_ ?_ ?_ ?_ <;> cases a <;> cases b <;> simp [hi, hj, hij]

theorem from_weak_plan_ok {obj : ι → Obj τ} {i j : ι} {p : Plan ι}
    (h : Op.from_weak_plan obj i j = some p) : PlanOk obj p := by
  unfold Op.from_weak_plan at h
  split at h
  case h_2 => cases h
  case h_1 m_pi hi hj =>
    cases h
    refine PlanOk.construct hi ?_ ?_ ?_ <;> cases m_pi <;> simp [hj, Obj.Live]

theorem lock_plan_ok {obj : ι → Obj τ} {i j : ι} {p : Plan ι}
    (h : Op.lock_plan obj i j = some p) : PlanOk obj p := by
  unfold Op.lock_plan at h
  split at h
  case h_2 => cases h
  case h_1 m_pi hi hj =>
    cases h
    refine PlanOk.construct hi ?_ ?_ ?_ <;> cases m_pi <;> simp [hj, Obj.Live]

theorem destroy_plan_ok {obj : ι → Obj τ} {i : ι} {p : Plan ι}
    (h : Op.destroy_plan obj i = some p) : PlanOk obj p := by
  unfold Op.destroy_plan at h
  split at h
  case h_2 => cases h
  case h_1 m_pi hi =>
    cases h
    refine PlanOk.single ?_ ?_ ?_ <;> cases m_pi <;> simp [hi]

theorem weak_from_shared_plan_ok {obj : ι → Obj τ} {i j : ι} {p : Plan ι}
    (h : Op.weak_from_shared_plan obj i j = some p) : PlanOk obj p := by
  unfold Op.weak_from_shared_plan at h
  split at h
  case h_2 => cases h
  case h_1 m_pi hi hj =>
    cases h
    refine PlanOk.construct hi ?_ ?_ ?_ <;> cases m_pi <;> simp [hj, Obj.Live]

theorem weak_copy_plan_ok {obj : ι → Obj τ} {i j : ι} {p : Plan ι}
    (h : Op.weak_copy_plan obj i j = some p) : PlanOk obj p := by
  unfold Op.weak_copy_plan at h
  split at h
  case h_2 => cases h
  case h_1 m_pi hi hj =>
    cases h
    refine PlanOk.construct hi ?_ ?_ ?_ <;> cases m_pi <;> simp [hj, Obj.Live]

theorem weak_convert_plan_ok {obj : ι → Obj τ} {i j : ι} {p : Plan ι}
    (h : Op.weak_convert_plan obj i j = some p) : PlanOk obj p := by
  unfold Op.weak_convert_plan at h
  split at h
  case h_2 => cases h
  case h_1 m_pi hi hj =>
    cases h
    refine PlanOk.construct hi ?_ ?_ ?_ <;> cases m_pi <;> simp [hj, Obj.Live]

theorem weak_assign_shared_plan_ok {obj : ι → Obj τ} {i j : ι} {p : Plan ι}
    (h : Op.weak_assign_shared_plan obj i j = some p) : PlanOk obj p := by
  unfold Op.weak_assign_shared_plan at h
  split at h
  case h_2 => cases h
  case h_1 m_pi tmp hi hj =>
    cases h
    have hij : i ≠ j := ne_of_obj hi hj (by simp)
    refine PlanOk.assign_other hij ?_ ?_ ?_ ?_ <;> cases m_pi <;> cases tmp <;> simp [hi, hj, Op.weak_assign_code, Obj.Live]

theorem weak_assign_plan_ok [DecidableEq ι] {obj : ι → Obj τ} {i j : ι} {p : Plan ι}
    (h : Op.weak_assign_plan obj i j = some p) : PlanOk obj p := by
  unfold Op.weak_assign_plan at h
  split at h
  case h_2 => cases h
  case h_1 m_pi tmp hi hj =>
    cases h
    refine PlanOk.assign ?_ ?_ ?_ ?_ ?_ <;> cases m_pi <;> cases tmp <;> simp [hi, hj, Op.weak_assign_code, Obj.Live]
    exact ne_of_obj hi hj (by simp)

theorem weak_assign_convert_plan_ok [DecidableEq ι] {obj : ι → Obj τ} {i j : ι} {p : Plan ι}
    (h : Op.weak_assign_convert_plan obj i j = some p) : PlanOk obj p := by
  unfold Op.weak_assign_convert_plan at h
  split at h
  case h_2 => cases h
  case h_1 m_pi tmp hi hj =>
    cases h
    refine PlanOk.assign ?_ ?_ ?_ ?_ ?_ <;> cases m_pi <;> cases tmp <;> simp [hi, hj, Op.weak_assign_code, Obj.Live]
    exact ne_of_obj hi hj (by simp)

theorem weak_swap_plan_ok [DecidableEq ι] {obj : ι → Obj τ} {i j : ι} {p : Plan ι}
    (h : Op.weak_swap_plan obj i j = some p) : PlanOk obj p := by
  unfold Op.weak_swap_plan at h
  split at h
  case h_2 => cases h
  case h_1 a b hi hj =>
    split_ifs at h with hij
    · cases h
      refine PlanOk.single ?_ ?_ ?_ <;> cases a <;> simp [hi, Op.weak_assign_code]
    · cases h
      refine PlanOk.pair hij ?_ ?_ ?_ ?_ <;> cases a <;> cases b <;> simp [hi, hj, hij, Op.weak_assign_code]

theorem weak_reset_plan_ok {obj : ι → Obj τ} {i : ι} {p : Plan ι}
    (h : Op.weak_reset_plan obj i = some p) : PlanOk obj p := by
  unfold Op.weak_reset_plan at h
  split at h
  case h_2 => cases h
  case h_1 m_pi hi =>
    cases h
    refine PlanOk.single ?_ ?_ ?_ <;> cases m_pi <;> simp [hi, Op.weak_assign_code]

theorem weak_destroy_plan_ok {obj : ι → Obj τ} {i : ι} {p : Plan ι}
    (h : Op.weak_destroy_plan obj i = some p) : PlanOk obj p := by
  unfold Op.weak_destroy_plan at h
  split at h
  case h_2 => cases h
  case h_1 m_pi hi =>
    cases h
    refine PlanOk.single ?_ ?_ ?_ <;> cases m_pi <;> simp [hi]

/-- Every operation but an aliasing one with an owning source accounts for its
    references. -/
theorem plan_ok [DecidableEq ι] {obj : ι → Obj τ} {op : Op ι} {p : Plan ι}
    (h : op.plan obj = some p) (halias : op.aliases_owner obj = false) : PlanOk obj p := by
  cases op with
  | construct => cases h
  | default_shared i => exact default_shared_plan_ok h
  | default_weak i => exact default_weak_plan_ok h
  | copy_construct i j => exact copy_construct_plan_ok h
  | dynamic_cast_failed i j => exact dynamic_cast_failed_plan_ok h
  | alias_construct i j => exact alias_construct_plan_ok h (by simpa [Op.aliases_owner] using halias)
  | move_construct i j => exact move_construct_plan_ok h
  | assign i j => exact assign_plan_ok h
  | move_assign i j => exact move_assign_plan_ok h
  | reset i => exact reset_plan_ok h
  | reset_alias i j => exact reset_alias_plan_ok h (by simpa [Op.aliases_owner] using halias)
  | swap i j => exact swap_plan_ok h
  | from_weak i j => exact from_weak_plan_ok h
  | lock i j => exact lock_plan_ok h
  | destroy i => exact destroy_plan_ok h
  | weak_from_shared i j => exact weak_from_shared_plan_ok h
  | weak_copy i j => exact weak_copy_plan_ok h
  | weak_convert i j => exact weak_convert_plan_ok h
  | weak_assign_shared i j => exact weak_assign_shared_plan_ok h
  | weak_assign i j => exact weak_assign_plan_ok h
  | weak_assign_convert i j => exact weak_assign_convert_plan_ok h
  | weak_swap i j => exact weak_swap_plan_ok h
  | weak_reset i => exact weak_reset_plan_ok h
  | weak_destroy i => exact weak_destroy_plan_ok h

end Plans

end interprocess.smart_ptr
