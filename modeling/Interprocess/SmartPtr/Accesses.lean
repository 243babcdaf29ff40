import Interprocess.SmartPtr.Invariant

namespace interprocess.smart_ptr

variable {τ ι : Type} [Fintype τ] [Fintype ι] [DecidableEq τ] [DecidableEq ι]

omit [Fintype ι] [DecidableEq ι] in
theorem Frame.plain_of_code {f : Frame ι} {code : Code ι} (hcode : f.code = code)
    (hne : ∀ next, code ≠ .dispose next ∧ code ≠ .destroy next) :
    f.disposing = false ∧ f.destroying = false := by
  unfold Frame.disposing Frame.destroying
  rw [hcode]
  cases code with
  | dispose next => exact absurd rfl (hne next).1
  | destroy next => exact absurd rfl (hne next).2
  | _ => exact ⟨rfl, rfl⟩

theorem Inv.add_ref_copy_step {s s' : State τ ι} (hinv : Inv s) {t : τ} {next : Code ι}
    (hcode : (s.frame t).code = .add_ref_copy next)
    (huse : s.use_count_ < uint32_max)
    (hstep : advance s t = some s') : Inv s' := by
  have hbalanced := (hinv.frames t).balanced
  unfold smart_ptr.advance at hstep
  simp only [hcode, Option.some.injEq] at hstep
  simp only [Frame.Balanced, hcode, Code.balanced_add_ref_copy] at hbalanced
  obtain ⟨hframe, hdisposing, hdestroying⟩ := hbalanced.2.frame (s.frame t).src
  obtain ⟨hnot, hnot'⟩ := Frame.plain_of_code hcode (by simp)
  subst hstep
  refine hinv.access rfl rfl hframe (by simp [hcode]) ?_
  intro o v p q hsrcOwners hsrcObservers hbefore
  rw [hnot, hnot'] at hbefore
  rw [hdisposing, hdestroying]
  exact hbefore.add_owner (by omega) huse

theorem Inv.release_step {s s' : State τ ι} (hinv : Inv s) {t : τ} {next : Code ι}
    (hcode : (s.frame t).code = .release next)
    (hstep : advance s t = some s') : Inv s' := by
  have hbalanced := (hinv.frames t).balanced
  unfold smart_ptr.advance at hstep
  simp only [hcode, Option.some.injEq] at hstep
  simp only [Frame.Balanced, hcode, Code.balanced_release] at hbalanced
  obtain ⟨hpos, hnext⟩ := hbalanced
  obtain ⟨hframe, hdisposing, hdestroying⟩ := hnext.frame (s.frame t).src
  obtain ⟨hnot, hnot'⟩ := Frame.plain_of_code hcode (by simp)
  by_cases hlast : s.use_count_ = 1
  · rw [if_pos hlast] at hstep
    subst hstep
    refine hinv.access rfl rfl ?_ (by simp [hcode]) ?_
    · exact ⟨Nat.succ_pos _, Nat.succ_pos _, hnext⟩
    · intro o v p q _ _ hbefore
      rw [hnot, hnot', hlast] at hbefore
      have hafter := hbefore.release_last
      have hless : o + ((s.frame t).owners - 1) = o + (s.frame t).owners - 1 := by omega
      rw [hless, hlast]
      exact hafter
  · rw [if_neg hlast] at hstep
    subst hstep
    refine hinv.access rfl rfl hframe (by simp [hcode]) ?_
    intro o v p q _ _ hbefore
    rw [hnot, hnot'] at hbefore
    have hless : o + ((s.frame t).owners - 1) = o + (s.frame t).owners - 1 := by omega
    rw [hdisposing, hdestroying, hless]
    exact hbefore.release hlast (by omega)

theorem Inv.dispose_step {s s' : State τ ι} (hinv : Inv s) {t : τ} {next : Code ι}
    (hcode : (s.frame t).code = .dispose next)
    (hstep : advance s t = some s') : Inv s' := by
  have hbalanced := (hinv.frames t).balanced
  unfold smart_ptr.advance at hstep
  simp only [hcode, Option.some.injEq] at hstep
  simp only [Frame.Balanced, hcode] at hbalanced
  obtain ⟨hframe, hdisposing, hdestroying⟩ := hbalanced.2.frame (s.frame t).src
  have hnot : (s.frame t).disposing = true ∧ (s.frame t).destroying = false := by
    simp [Frame.disposing, Frame.destroying, hcode]
  subst hstep
  refine hinv.access rfl rfl hframe (by simp [hcode]) ?_
  intro o v p q _ _ hbefore
  rw [hnot.1, hnot.2] at hbefore
  rw [hdisposing, hdestroying]
  exact hbefore.dispose

theorem Inv.weak_add_ref_step {s s' : State τ ι} (hinv : Inv s) {t : τ} {next : Code ι}
    (hcode : (s.frame t).code = .weak_add_ref next)
    (hweak : s.weak_count_ < uint32_max)
    (hstep : advance s t = some s') : Inv s' := by
  have hbalanced := (hinv.frames t).balanced
  unfold smart_ptr.advance at hstep
  simp only [hcode, Option.some.injEq] at hstep
  simp only [Frame.Balanced, hcode, Code.balanced_weak_add_ref] at hbalanced
  obtain ⟨hframe, hdisposing, hdestroying⟩ := hbalanced.2.frame (s.frame t).src
  obtain ⟨hnot, hnot'⟩ := Frame.plain_of_code hcode (by simp)
  subst hstep
  refine hinv.access rfl rfl hframe (by simp [hcode]) ?_
  intro o v p q hsrcOwners hsrcObservers hbefore
  rw [hnot, hnot'] at hbefore
  rw [hdisposing, hdestroying]
  exact hbefore.add_observer (by omega) hweak

theorem Inv.weak_release_step {s s' : State τ ι} (hinv : Inv s) {t : τ} {next : Code ι}
    (hcode : (s.frame t).code = .weak_release next)
    (hstep : advance s t = some s') : Inv s' := by
  have hbalanced := (hinv.frames t).balanced
  unfold smart_ptr.advance at hstep
  simp only [hcode, Option.some.injEq] at hstep
  simp only [Frame.Balanced, hcode, Code.balanced_weak_release] at hbalanced
  obtain ⟨hpos, hnext⟩ := hbalanced
  obtain ⟨hframe, hdisposing, hdestroying⟩ := hnext.frame (s.frame t).src
  obtain ⟨hnot, hnot'⟩ := Frame.plain_of_code hcode (by simp)
  by_cases hlast : s.weak_count_ = 1
  · rw [if_pos hlast] at hstep
    subst hstep
    refine hinv.access rfl rfl hnext (by simp [hcode]) ?_
    intro o v p q _ _ hbefore
    rw [hnot, hnot', hlast] at hbefore
    have hafter := hbefore.weak_release_last (by omega)
    have hless : v + ((s.frame t).observers - 1) = v + (s.frame t).observers - 1 := by omega
    rw [hless, hlast]
    exact hafter
  · rw [if_neg hlast] at hstep
    subst hstep
    refine hinv.access rfl rfl hframe (by simp [hcode]) ?_
    intro o v p q _ _ hbefore
    rw [hnot, hnot'] at hbefore
    have hless : v + ((s.frame t).observers - 1) = v + (s.frame t).observers - 1 := by omega
    rw [hdisposing, hdestroying, hless]
    exact hbefore.weak_release hlast (by omega)

theorem Inv.destroy_step {s s' : State τ ι} (hinv : Inv s) {t : τ} {next : Code ι}
    (hcode : (s.frame t).code = .destroy next)
    (hstep : advance s t = some s') : Inv s' := by
  have hbalanced := (hinv.frames t).balanced
  unfold smart_ptr.advance at hstep
  simp only [hcode, Option.some.injEq] at hstep
  simp only [Frame.Balanced, hcode] at hbalanced
  obtain ⟨hframe, hdisposing, hdestroying⟩ := hbalanced.frame (s.frame t).src
  have hnot : (s.frame t).disposing = false ∧ (s.frame t).destroying = true := by
    simp [Frame.disposing, Frame.destroying, hcode]
  subst hstep
  refine hinv.access rfl rfl hframe (by simp [hcode]) ?_
  intro o v p q _ _ hbefore
  rw [hnot.1, hnot.2] at hbefore
  rw [hdisposing, hdestroying]
  exact hbefore.destroy

theorem Inv.expired_step {s s' : State τ ι} (hinv : Inv s) {t : τ} {yes no : Code ι}
    (hcode : (s.frame t).code = .expired yes no)
    (hstep : advance s t = some s') : Inv s' := by
  have hbalanced := (hinv.frames t).balanced
  unfold smart_ptr.advance at hstep
  simp only [hcode, Option.some.injEq] at hstep
  simp only [Frame.Balanced, hcode, Code.balanced_expired] at hbalanced
  obtain ⟨hnot, hnot'⟩ := Frame.plain_of_code hcode (by simp)
  have hnext : (if s.use_count_ = 0 then yes else no).Balanced (src_owners s.obj (s.frame t).src)
      (src_observers s.obj (s.frame t).src) (s.frame t).owners (s.frame t).observers := by
    split
    · exact hbalanced.1
    · exact hbalanced.2
  obtain ⟨hframe, hdisposing, hdestroying⟩ := hnext.frame (s.frame t).src
  subst hstep
  refine hinv.access rfl rfl hframe ?_ ?_
  · intro i hi
    rw [hcode, Code.writes_expired, List.mem_append]
    split at hi
    · exact Or.inl hi
    · exact Or.inr hi
  · intro o v p q _ _ hbefore
    rw [hnot, hnot'] at hbefore
    rw [hdisposing, hdestroying]
    exact hbefore

theorem Inv.add_ref_lock_step {s s' : State τ ι} (hinv : Inv s) {t : τ} {locked failed : Code ι}
    (hcode : (s.frame t).code = .add_ref_lock locked failed)
    (hstep : advance s t = some s') : Inv s' := by
  have hbalanced := (hinv.frames t).balanced
  unfold smart_ptr.advance at hstep
  simp only [hcode, Option.some.injEq] at hstep
  simp only [Frame.Balanced, hcode, Code.balanced_add_ref_lock] at hbalanced
  obtain ⟨hnot, hnot'⟩ := Frame.plain_of_code hcode (by simp)
  have hnext : (if s.use_count_ = 0 then failed else Code.atomic_cas32 s.use_count_ locked failed).Balanced
      (src_owners s.obj (s.frame t).src) (src_observers s.obj (s.frame t).src)
      (s.frame t).owners (s.frame t).observers := by
    split
    · exact hbalanced.2
    · rename_i hne
      exact ⟨hne, hbalanced⟩
  obtain ⟨hframe, hdisposing, hdestroying⟩ := hnext.frame (s.frame t).src
  subst hstep
  refine hinv.access rfl rfl hframe ?_ ?_
  · intro i hi
    rw [hcode, Code.writes_add_ref_lock, List.mem_append]
    split at hi
    · exact Or.inr hi
    · exact List.mem_append.mp hi
  · intro o v p q _ _ hbefore
    rw [hnot, hnot'] at hbefore
    rw [hdisposing, hdestroying]
    exact hbefore

theorem Inv.atomic_cas32_step {s s' : State τ ι} (hinv : Inv s) {t : τ} {tmp : Nat} {locked failed : Code ι}
    (hcode : (s.frame t).code = .atomic_cas32 tmp locked failed)
    (huse : s.use_count_ < uint32_max)
    (hstep : advance s t = some s') : Inv s' := by
  have hbalanced := (hinv.frames t).balanced
  unfold smart_ptr.advance at hstep
  simp only [hcode] at hstep
  simp only [Frame.Balanced, hcode] at hbalanced
  obtain ⟨hne, hlocked, hfailed⟩ := hbalanced
  obtain ⟨hnot, hnot'⟩ := Frame.plain_of_code hcode (by simp)
  split_ifs at hstep with hequal
  · obtain ⟨hframe, hdisposing, hdestroying⟩ := hlocked.frame (s.frame t).src
    simp only [Option.some.injEq] at hstep
    subst hstep
    refine hinv.access rfl rfl hframe ?_ ?_
    · intro i hi
      rw [hcode, Code.writes_atomic_cas32, List.mem_append]
      exact Or.inl hi
    · intro o v p q _ _ hbefore
      rw [hnot, hnot'] at hbefore
      rw [hdisposing, hdestroying, ← hequal]
      have hcount := hbefore.use_eq
      exact hbefore.add_owner (by omega) huse
  · simp only [Option.some.injEq] at hstep
    subst hstep
    refine hinv.access rfl rfl ⟨hlocked, hfailed⟩ ?_ ?_
    · intro i hi
      rw [hcode]
      exact hi
    · intro o v p q _ _ hbefore
      rw [hnot, hnot'] at hbefore
      exact hbefore

theorem Inv.store_shared_step {s s' : State τ ι} (hinv : Inv s) {t : τ} {i : ι} {m_pi : Bool} {next : Code ι}
    (hcode : (s.frame t).code = .store_shared i m_pi next)
    (hstep : advance s t = some s') : Inv s' := by
  have hbalanced := (hinv.frames t).balanced
  unfold smart_ptr.advance at hstep
  simp only [hcode, Option.some.injEq] at hstep
  simp only [Frame.Balanced, hcode, Code.balanced_store_shared] at hbalanced
  obtain ⟨hle, honce, hnext⟩ := hbalanced
  subst hstep
  refine hinv.store rfl rfl ⟨rfl, rfl, rfl, rfl, rfl⟩ hnext (by rw [hcode]; rfl) honce
    (Frame.plain_of_code hcode (by simp)) ?_ ?_
  · rw [Obj.owners_shared]
    omega
  · rw [Obj.observers_shared]
    omega

theorem Inv.store_weak_step {s s' : State τ ι} (hinv : Inv s) {t : τ} {i : ι} {m_pi : Bool} {next : Code ι}
    (hcode : (s.frame t).code = .store_weak i m_pi next)
    (hstep : advance s t = some s') : Inv s' := by
  have hbalanced := (hinv.frames t).balanced
  unfold smart_ptr.advance at hstep
  simp only [hcode, Option.some.injEq] at hstep
  simp only [Frame.Balanced, hcode, Code.balanced_store_weak] at hbalanced
  obtain ⟨hle, honce, hnext⟩ := hbalanced
  subst hstep
  refine hinv.store rfl rfl ⟨rfl, rfl, rfl, rfl, rfl⟩ hnext (by rw [hcode]; rfl) honce
    (Frame.plain_of_code hcode (by simp)) ?_ ?_
  · rw [Obj.owners_weak]
    omega
  · rw [Obj.observers_weak]
    omega

theorem Inv.store_vacant_step {s s' : State τ ι} (hinv : Inv s) {t : τ} {i : ι} {next : Code ι}
    (hcode : (s.frame t).code = .store_vacant i next)
    (hstep : advance s t = some s') : Inv s' := by
  have hbalanced := (hinv.frames t).balanced
  unfold smart_ptr.advance at hstep
  simp only [hcode, Option.some.injEq] at hstep
  simp only [Frame.Balanced, hcode, Code.balanced_store_vacant] at hbalanced
  obtain ⟨honce, hnext⟩ := hbalanced
  subst hstep
  refine hinv.store rfl rfl ⟨rfl, rfl, rfl, rfl, rfl⟩ hnext (by rw [hcode]; rfl) honce
    (Frame.plain_of_code hcode (by simp)) ?_ ?_
  · rw [Obj.owners_vacant]
    omega
  · rw [Obj.observers_vacant]
    omega

/-- Every access of an operation keeps the invariant while the counts fit. -/
theorem Inv.advance {s s' : State τ ι} (hinv : Inv s) {t : τ}
    (huse : s.use_count_ < uint32_max) (hweak : s.weak_count_ < uint32_max)
    (hstep : advance s t = some s') : Inv s' := by
  cases hcode : (s.frame t).code with
  | done => simp [smart_ptr.advance, hcode] at hstep
  | add_ref_copy next => exact hinv.add_ref_copy_step hcode huse hstep
  | release next => exact hinv.release_step hcode hstep
  | dispose next => exact hinv.dispose_step hcode hstep
  | weak_add_ref next => exact hinv.weak_add_ref_step hcode hweak hstep
  | weak_release next => exact hinv.weak_release_step hcode hstep
  | destroy next => exact hinv.destroy_step hcode hstep
  | expired yes no => exact hinv.expired_step hcode hstep
  | add_ref_lock locked failed => exact hinv.add_ref_lock_step hcode hstep
  | atomic_cas32 tmp locked failed => exact hinv.atomic_cas32_step hcode huse hstep
  | store_shared i m_pi next => exact hinv.store_shared_step hcode hstep
  | store_weak i m_pi next => exact hinv.store_weak_step hcode hstep
  | store_vacant i next => exact hinv.store_vacant_step hcode hstep

end interprocess.smart_ptr
