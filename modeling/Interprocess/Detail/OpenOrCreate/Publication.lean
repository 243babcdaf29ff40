import Interprocess.Base.Count
import Interprocess.Base.Transition
import Interprocess.Detail.OpenOrCreate.Protocol

open Count Transition

namespace interprocess.ipcdetail.managed_open_or_create_impl

namespace Place

/-- The backing object a process works on. -/
def object : Place → Option Nat
  | .idle | .create_device _ _ _ | .open_device _ _ _ | .failed => none
  | .truncate_device o _ | .map_after_create o | .atomic_cas o | .construct_func o => some o
  | .write_initialized o | .write_corrupted o | .truncate_to_one o | .get_file_size o => some o
  | .map_after_open o | .read_word o | .spin o | .remap o | .open_func o => some o
  | .created o | .opened o => some o

/-- A creator on its way to the functor call. -/
def preparing (o : Nat) : Place → Bool
  | .truncate_device o' _ | .map_after_create o' | .atomic_cas o' => o' = o
  | _ => false

/-- A creator in its functor call. -/
def constructing (o : Nat) : Place → Bool
  | .construct_func o' => o' = o
  | _ => false

def in_construct_func : Place → Bool
  | .construct_func _ => true
  | _ => false

/-- A process that found the segment initialised, or is about to say so. -/
def relies (o : Nat) : Place → Bool
  | .write_initialized o' | .remap o' | .open_func o' | .opened o' => o' = o
  | _ => false

theorem object_of_preparing {o : Nat} {place : Place} (h : place.preparing o = true) :
    place.object = some o := by
  cases place <;> simp_all [preparing, object]

theorem object_of_constructing {o : Nat} {place : Place} (h : place.constructing o = true) :
    place.object = some o := by
  cases place <;> simp_all [constructing, object]

end Place

/-- One creator prepares or has called the functor on an object, a call ends
    once, and the word and those who rely on it speak of a successful call. -/
structure Inv {τ : Type} [Fintype τ] (s : State τ) : Prop where
  entry_lt : ∀ o, s.entry = some o → o < s.next
  object_lt : ∀ p o, (s.place p).object = some o → o < s.next
  fresh : ∀ o, s.next ≤ o → s.backing o = Backing.fresh 0
  once : ∀ o, count (Place.preparing o) s.place + (s.backing o).runs ≤ 1
  ended : ∀ o, count (Place.constructing o) s.place + (s.backing o).results.length = (s.backing o).runs
  published : ∀ o, (s.backing o).word = .InitializedSegment → (s.backing o).results = [true]
  relied : ∀ p o, (s.place p).relies o = true → (s.backing o).results = [true]

variable {τ : Type} [Fintype τ] [DecidableEq τ]

omit [Fintype τ] in
theorem goto_place_self (s : State τ) (p : τ) (place : Place) : (s.goto p place).place p = place := by
  simp only [State.goto, Function.update_self]

omit [Fintype τ] in
theorem goto_place_of_ne (s : State τ) {p q : τ} (hqp : q ≠ p) (place : Place) :
    (s.goto p place).place q = s.place q := by
  simp only [State.goto, Function.update_of_ne hqp]

/-- A process that moves on and changes nothing else keeps the invariant when it
    does not begin to prepare, construct or rely on anything new. -/
theorem Inv.goto {s : State τ} (hinv : Inv s) {p : τ} {place : Place}
    (hobject : ∀ o, place.object = some o → o < s.next)
    (hpreparing : ∀ o, place.preparing o ≤ (s.place p).preparing o)
    (hconstructing : ∀ o, place.constructing o = (s.place p).constructing o)
    (hrelies : ∀ o, place.relies o = true → (s.backing o).results = [true]) :
    Inv (s.goto p place) := by
  refine ⟨hinv.entry_lt, ?_, hinv.fresh, ?_, ?_, hinv.published, ?_⟩
  · intro q o hq
    by_cases hqp : q = p
    · rw [hqp, goto_place_self] at hq
      exact hobject o hq
    · rw [goto_place_of_ne s hqp] at hq
      exact hinv.object_lt q o hq
  · intro o
    have hcount := count_update (Place.preparing o) s.place p place
    have hle := Bool.toNat_le_toNat (hpreparing o)
    have honce := hinv.once o
    change count (Place.preparing o) (Function.update s.place p place) + (s.backing o).runs ≤ 1
    omega
  · intro o
    have hcount := count_update (Place.constructing o) s.place p place
    rw [hconstructing o] at hcount
    have hended := hinv.ended o
    change count (Place.constructing o) (Function.update s.place p place) +
      (s.backing o).results.length = (s.backing o).runs
    omega
  · intro q o hq
    by_cases hqp : q = p
    · rw [hqp, goto_place_self] at hq
      exact hrelies o hq
    · rw [goto_place_of_ne s hqp] at hq
      exact hinv.relied q o hq

omit [DecidableEq τ] in
/-- A write to a backing object that records no functor call and publishes only
    a successful one. -/
theorem Inv.set_backing {s : State τ} (hinv : Inv s) {o : Nat} {b : Backing} (ho : o < s.next)
    (hruns : b.runs = (s.backing o).runs) (hresults : b.results = (s.backing o).results)
    (hword : b.word = .InitializedSegment → b.results = [true]) : Inv (s.set_backing o b) := by
  have hkept : ∀ o', ((s.set_backing o b).backing o').runs = (s.backing o').runs ∧
      ((s.set_backing o b).backing o').results = (s.backing o').results := by
    intro o'
    simp only [State.set_backing]
    by_cases ho' : o' = o
    · rw [ho', Function.update_self]
      exact ⟨hruns, hresults⟩
    · rw [Function.update_of_ne ho']
      exact ⟨rfl, rfl⟩
  refine ⟨hinv.entry_lt, hinv.object_lt, ?_, ?_, ?_, ?_, ?_⟩
  · intro o' ho'
    have hne : o' ≠ o := by
      rintro rfl
      exact absurd ho (Nat.not_lt.mpr ho')
    simp only [State.set_backing, Function.update_of_ne hne]
    exact hinv.fresh o' ho'
  · intro o'
    rw [(hkept o').1]
    exact hinv.once o'
  · intro o'
    rw [(hkept o').1, (hkept o').2]
    exact hinv.ended o'
  · intro o' hinit
    by_cases ho' : o' = o
    · subst ho'
      simp only [State.set_backing, Function.update_self] at hinit ⊢
      exact hword hinit
    · simp only [State.set_backing, Function.update_of_ne ho'] at hinit ⊢
      exact hinv.published o' hinit
  · intro q o' hq
    rw [(hkept o').2]
    exact hinv.relied q o' hq

/-- The exclusive creation starts a new object with one creator. -/
theorem Inv.create {s : State τ} (hinv : Inv s) {p : τ} (FileBased : Bool) (size : Nat)
    (hplace : (s.place p).object = none) : Inv (s.create p FileBased size) := by
  have hother : ∀ o, o ≠ s.next → (s.create p FileBased size).backing o = s.backing o :=
    fun o ho => Function.update_of_ne ho _ _
  have hnew : (s.create p FileBased size).backing s.next =
      Backing.fresh (if FileBased then 0 else size) := Function.update_self _ _ _
  have hnobody : ∀ P : Place → Bool, (∀ place, P place = true → place.object = some s.next) →
      count P s.place = 0 := by
    intro P hP
    rw [count, total_eq_zero_iff]
    intro q
    cases hq : P (s.place q) with
    | false => rfl
    | true => exact absurd (hinv.object_lt q _ (hP _ hq)) (Nat.lt_irrefl _)
  have hpreparing : ∀ o, (s.place p).preparing o = false := by
    intro o
    cases ho : (s.place p).preparing o with
    | false => rfl
    | true => rw [Place.object_of_preparing ho] at hplace; cases hplace
  have hconstructing : ∀ o, (s.place p).constructing o = false := by
    intro o
    cases ho : (s.place p).constructing o with
    | false => rfl
    | true => rw [Place.object_of_constructing ho] at hplace; cases hplace
  refine ⟨?_, ?_, ?_, ?_, ?_, ?_, ?_⟩
  · intro o ho
    change some s.next = some o at ho
    cases ho
    exact Nat.lt_succ_self _
  · intro q o hq
    change o < s.next + 1
    by_cases hqp : q = p
    · simp only [State.create, hqp, Function.update_self, Place.object, Option.some.injEq] at hq
      omega
    · simp only [State.create, Function.update_of_ne hqp] at hq
      have := hinv.object_lt q o hq
      omega
  · intro o ho
    change s.next + 1 ≤ o at ho
    rw [hother o (by omega)]
    exact hinv.fresh o (by omega)
  · intro o
    have hcount := count_update (Place.preparing o) s.place p (.truncate_device s.next size)
    change count (Place.preparing o) (Function.update s.place p (.truncate_device s.next size)) +
      ((s.create p FileBased size).backing o).runs ≤ 1
    rw [hpreparing o] at hcount
    by_cases ho : o = s.next
    · subst ho
      rw [hnobody _ fun _ => Place.object_of_preparing] at hcount
      rw [hnew]
      have hone := Bool.toNat_le ((Place.truncate_device s.next size).preparing s.next)
      simp only [Backing.fresh]
      simp only [Bool.toNat_false] at hcount
      omega
    · have hnot : (Place.truncate_device s.next size).preparing o = false :=
        decide_eq_false (Ne.symm ho)
      rw [hnot] at hcount
      rw [hother o ho]
      have honce := hinv.once o
      omega
  · intro o
    have hcount := count_update (Place.constructing o) s.place p (.truncate_device s.next size)
    rw [hconstructing o] at hcount
    simp only [Place.constructing, Bool.toNat_false, Nat.add_zero] at hcount
    change count (Place.constructing o) (Function.update s.place p (.truncate_device s.next size)) +
      ((s.create p FileBased size).backing o).results.length =
        ((s.create p FileBased size).backing o).runs
    rw [hcount]
    by_cases ho : o = s.next
    · subst ho
      rw [hnobody _ fun _ => Place.object_of_constructing, hnew]
      rfl
    · rw [hother o ho]
      exact hinv.ended o
  · intro o hinit
    by_cases ho : o = s.next
    · rw [ho, hnew] at hinit
      cases hinit
    · rw [hother o ho] at hinit ⊢
      exact hinv.published o hinit
  · intro q o hq
    by_cases hqp : q = p
    · simp only [State.create, hqp, Function.update_self, Place.relies, Bool.false_eq_true] at hq
    · simp only [State.create, Function.update_of_ne hqp] at hq
      have ho : o ≠ s.next := by
        rintro rfl
        have hobject : (s.place q).object = some s.next := by
          cases hplace : s.place q <;> simp_all [Place.relies, Place.object]
        exact absurd (hinv.object_lt q _ hobject) (Nat.lt_irrefl _)
      rw [hother o ho]
      exact hinv.relied q o hq

/-- A creator that begins or ends its functor call: what it was counted for
    before is now in the record of the object. -/
theorem Inv.record {s : State τ} (hinv : Inv s) {p : τ} {o : Nat} {b : Backing} {place : Place}
    (ho : o < s.next) (hobject : ∀ o', place.object = some o' → o' = o)
    (honce : count (Place.preparing o) (Function.update s.place p place) + b.runs ≤ 1)
    (hended : count (Place.constructing o) (Function.update s.place p place) + b.results.length =
      b.runs)
    (hother : ∀ o', o' ≠ o → place.preparing o' = (s.place p).preparing o' ∧
      place.constructing o' = (s.place p).constructing o')
    (hword : b.word = .InitializedSegment → b.results = [true])
    (hrelied : ∀ q, q ≠ p → (s.place q).relies o = true → b.results = [true])
    (hrelies : place.relies o = true → b.results = [true]) :
    Inv ((s.set_backing o b).goto p place) := by
  have hsame : ∀ o', o' ≠ o → ((s.set_backing o b).goto p place).backing o' = s.backing o' :=
    fun o' ho' => Function.update_of_ne ho' _ _
  have hself : ((s.set_backing o b).goto p place).backing o = b := Function.update_self _ _ _
  refine ⟨hinv.entry_lt, ?_, ?_, ?_, ?_, ?_, ?_⟩
  · intro q o' hq
    by_cases hqp : q = p
    · rw [hqp, goto_place_self] at hq
      rw [hobject o' hq]
      exact ho
    · rw [goto_place_of_ne _ hqp] at hq
      exact hinv.object_lt q o' hq
  · intro o' ho'
    change s.next ≤ o' at ho'
    rw [hsame o' (by omega)]
    exact hinv.fresh o' ho'
  · intro o'
    by_cases ho' : o' = o
    · rw [ho', hself]
      exact honce
    · rw [hsame o' ho']
      have hcount := count_update (Place.preparing o') s.place p place
      rw [(hother o' ho').1] at hcount
      have hbefore := hinv.once o'
      change count (Place.preparing o') (Function.update s.place p place) + _ ≤ 1
      omega
  · intro o'
    by_cases ho' : o' = o
    · rw [ho', hself]
      exact hended
    · rw [hsame o' ho']
      have hcount := count_update (Place.constructing o') s.place p place
      rw [(hother o' ho').2] at hcount
      have hbefore := hinv.ended o'
      change count (Place.constructing o') (Function.update s.place p place) + _ = _
      omega
  · intro o' hinit
    by_cases ho' : o' = o
    · rw [ho', hself] at hinit ⊢
      exact hword hinit
    · rw [hsame o' ho'] at hinit ⊢
      exact hinv.published o' hinit
  · intro q o' hq
    by_cases hqp : q = p
    · rw [hqp, goto_place_self] at hq
      have hobj : place.object = some o' := by
        cases hp : place <;> simp_all [Place.relies, Place.object]
      have ho' := hobject o' hobj
      rw [ho', hself]
      rw [ho'] at hq
      exact hrelies hq
    · rw [goto_place_of_ne _ hqp] at hq
      by_cases ho' : o' = o
      · rw [ho', hself]
        rw [ho'] at hq
        exact hrelied q hqp hq
      · rw [hsame o' ho']
        exact hinv.relied q o' hq

theorem Inv.atomic_cas_step {s : State τ} (hinv : Inv s) {p : τ} {o : Nat}
    (hplace : s.place p = .atomic_cas o) : Inv (atomic_cas_step s p o) := by
  have ho : o < s.next := hinv.object_lt p o (by rw [hplace]; rfl)
  have hprep : (s.place p).preparing o = true := by rw [hplace]; exact decide_eq_true rfl
  have honce := hinv.once o
  have hended := hinv.ended o
  have hpos := (count_pos_iff (Place.preparing o) s.place).mpr ⟨p, hprep⟩
  unfold managed_open_or_create_impl.atomic_cas_step
  split_ifs with hword
  · have hcountP := count_update (Place.preparing o) s.place p (.construct_func o)
    have hcountC := count_update (Place.constructing o) s.place p (.construct_func o)
    rw [hplace] at hcountP hcountC
    simp only [Place.preparing, Place.constructing, decide_true, Bool.toNat_true,
      Bool.toNat_false] at hcountP hcountC
    refine hinv.record ho ?_ ?_ ?_ ?_ ?_ ?_ ?_
    · intro o' ho'
      cases ho'
      rfl
    · simp only
      omega
    · simp only
      omega
    · intro o' ho'
      rw [hplace]
      simp [Place.preparing, Place.constructing, Ne.symm ho']
    · intro hinit
      cases hinit
    · intro q _ hq
      exact hinv.relied q o hq
    · intro hfalse
      cases hfalse
  · refine hinv.goto ?_ ?_ ?_ ?_
    · intro o' ho'
      cases ho'
      exact ho
    · intro o'
      exact Bool.false_le _
    · intro o'
      rw [hplace]
      rfl
    · intro o' hfalse
      cases hfalse

/-- The end of a creator's functor call, for a functor that does not report a
    failure by returning `false`. -/
theorem Inv.construct_func_step {s : State τ} (hinv : Inv s) {p : τ} {o : Nat} {outcome : Outcome}
    (hplace : s.place p = .construct_func o) (hreturns : outcome ≠ .returns_false) :
    Inv (construct_func_step s p o outcome) := by
  have ho : o < s.next := hinv.object_lt p o (by rw [hplace]; rfl)
  have hcons : (s.place p).constructing o = true := by rw [hplace]; exact decide_eq_true rfl
  have honce := hinv.once o
  have hended := hinv.ended o
  have hpos := (count_pos_iff (Place.constructing o) s.place).mpr ⟨p, hcons⟩
  have hnone : (s.backing o).results = [] := List.eq_nil_of_length_eq_zero (by omega)
  have hnobody : ∀ q, (s.place q).relies o = true → False := by
    intro q hq
    have hresults := hinv.relied q o hq
    rw [hnone] at hresults
    cases hresults
  have hunpublished : (s.backing o).word ≠ .InitializedSegment := by
    intro hinit
    have hresults := hinv.published o hinit
    rw [hnone] at hresults
    cases hresults
  have hfinish : ∀ place : Place, place.object = some o → (∀ o', place.preparing o' = false) →
      (∀ o', place.constructing o' = false) → ∀ ended : Bool, (place.relies o = true → ended = true) →
      Inv ((s.set_backing o { s.backing o with results := ended :: (s.backing o).results }).goto p
        place) := by
    intro place hobject hprepares hconstructs ended hrelies
    have hcountP := count_update (Place.preparing o) s.place p place
    have hcountC := count_update (Place.constructing o) s.place p place
    rw [hprepares o, hplace] at hcountP
    rw [hconstructs o, hcons] at hcountC
    simp only [Place.preparing, Bool.toNat_true, Bool.toNat_false] at hcountP hcountC
    refine hinv.record ho ?_ ?_ ?_ ?_ ?_ ?_ ?_
    · intro o' ho'
      rw [hobject] at ho'
      cases ho'
      rfl
    · simp only
      omega
    · simp only [List.length_cons]
      omega
    · intro o' ho'
      rw [hprepares o', hconstructs o', hplace]
      simp [Place.preparing, Place.constructing, Ne.symm ho']
    · intro hinit
      exact absurd hinit hunpublished
    · intro q _ hq
      exact (hnobody q hq).elim
    · intro hplaceRelies
      simp only [hnone, hrelies hplaceRelies]
  cases outcome with
  | ok => exact hfinish _ rfl (fun _ => rfl) (fun _ => rfl) true fun _ => rfl
  | returns_false => exact absurd rfl hreturns
  | throws =>
    refine hfinish _ rfl (fun _ => rfl) (fun _ => rfl) false ?_
    intro hfalse
    cases hfalse

/-- A move to a place where nothing is prepared or constructed. -/
theorem Inv.goto_plain {s : State τ} (hinv : Inv s) {p : τ} {place : Place}
    (hobject : ∀ o, place.object = some o → o < s.next)
    (hpreparing : ∀ o, place.preparing o = false) (hconstructing : ∀ o, place.constructing o = false)
    (hleaves : ∀ o, (s.place p).constructing o = false)
    (hrelies : ∀ o, place.relies o = true → (s.backing o).results = [true]) :
    Inv (s.goto p place) := by
  refine hinv.goto hobject ?_ ?_ hrelies
  · intro o
    rw [hpreparing o]
    exact Bool.false_le _
  · intro o
    rw [hconstructing o, hleaves o]

theorem Inv.fail {s : State τ} (hinv : Inv s) {p : τ}
    (hleaves : ∀ o, (s.place p).constructing o = false) : Inv (s.goto p .failed) := by
  refine hinv.goto_plain ?_ (fun _ => rfl) (fun _ => rfl) hleaves ?_
  · intro o ho
    cases ho
  · intro o ho
    cases ho

/-- Every step of a process keeps the invariant, unless it is a creator's functor
    call that returns `false`. -/
theorem Inv.advance {c : Config} {s s' : State τ} (hinv : Inv s) {p : τ} {outcome : Outcome}
    (hreturns : ∀ o, s.place p = .construct_func o → outcome ≠ .returns_false)
    (hstep : advance c s p outcome = some s') : Inv s' := by
  unfold managed_open_or_create_impl.advance at hstep
  have hlt : ∀ o, (s.place p).object = some o → ∀ o', some o = some o' → o' < s.next := by
    rintro o ho o' ⟨⟩
    exact hinv.object_lt p o ho
  cases hplace : s.place p with
  | idle | created | opened | failed => simp [hplace] at hstep
  | create_device type size tries =>
    simp only [hplace, Option.some.injEq] at hstep
    subst hstep
    have hleaves : ∀ o, (s.place p).constructing o = false := by simp [hplace, Place.constructing]
    unfold create_device_step
    split
    · exact hinv.fail hleaves
    · cases hentry : s.entry with
      | none => exact hinv.create c.FileBased size (by rw [hplace]; rfl)
      | some o =>
        simp only
        split_ifs
        · exact hinv.fail hleaves
        · exact hinv.fail hleaves
        · refine hinv.goto_plain ?_ (fun _ => rfl) (fun _ => rfl) hleaves ?_
          · intro o' ho'
            cases ho'
          · intro o' ho'
            cases ho'
  | open_device type size tries =>
    simp only [hplace, Option.some.injEq] at hstep
    subst hstep
    have hleaves : ∀ o, (s.place p).constructing o = false := by simp [hplace, Place.constructing]
    unfold open_device_step
    split
    · exact hinv.fail hleaves
    · cases hentry : s.entry with
      | none =>
        simp only
        split_ifs
        · exact hinv.fail hleaves
        · refine hinv.goto_plain ?_ (fun _ => rfl) (fun _ => rfl) hleaves ?_
          · intro o' ho'
            cases ho'
          · intro o' ho'
            cases ho'
      | some o =>
        refine hinv.goto_plain ?_ (fun _ => rfl) (fun _ => rfl) hleaves ?_
        · rintro o' ⟨⟩
          exact hinv.entry_lt o hentry
        · intro o' ho'
          cases ho'
  | truncate_device o size =>
    simp only [hplace, Option.some.injEq] at hstep
    subst hstep
    have hobject := hlt o (by rw [hplace]; rfl)
    have hleaves : ∀ o, (s.place p).constructing o = false := by simp [hplace, Place.constructing]
    unfold truncate_device_step
    split
    · refine hinv.goto_plain hobject (fun _ => rfl) (fun _ => rfl) hleaves ?_
      intro o' ho'
      cases ho'
    · have hsize : Inv (if c.FileBased then s.set_backing o { s.backing o with size := size } else s) ∧
          (if c.FileBased then s.set_backing o { s.backing o with size := size } else s).place p =
            s.place p ∧
          (if c.FileBased then s.set_backing o { s.backing o with size := size } else s).next =
            s.next := by
        split_ifs
        · exact ⟨hinv.set_backing (hobject o rfl) rfl rfl (hinv.published o), rfl, rfl⟩
        · exact ⟨hinv, rfl, rfl⟩
      obtain ⟨hnew, hsame, hnext⟩ := hsize
      refine hnew.goto ?_ ?_ ?_ ?_
      · rw [hnext]
        exact hobject
      · intro o'
        rw [hsame, hplace]
        exact le_refl _
      · intro o'
        rw [hsame, hplace]
        rfl
      · intro o' ho'
        cases ho'
  | map_after_create o =>
    simp only [hplace, Option.some.injEq] at hstep
    subst hstep
    have hobject := hlt o (by rw [hplace]; rfl)
    split_ifs
    · refine hinv.goto_plain hobject (fun _ => rfl) (fun _ => rfl) (by simp [hplace, Place.constructing]) ?_
      intro o' ho'
      cases ho'
    · refine hinv.goto hobject ?_ ?_ ?_
      · intro o'
        rw [hplace]
        exact le_refl _
      · intro o'
        rw [hplace]
        rfl
      · intro o' ho'
        cases ho'
  | atomic_cas o =>
    simp only [hplace, Option.some.injEq] at hstep
    subst hstep
    exact hinv.atomic_cas_step hplace
  | construct_func o =>
    simp only [hplace, Option.some.injEq] at hstep
    subst hstep
    exact hinv.construct_func_step hplace (hreturns o hplace)
  | write_initialized o =>
    simp only [hplace, Option.some.injEq] at hstep
    subst hstep
    have hobject := hlt o (by rw [hplace]; rfl)
    have hresults := hinv.relied p o (by rw [hplace]; exact decide_eq_true rfl)
    have hnew := hinv.set_backing (b := { s.backing o with word := .InitializedSegment })
      (hobject o rfl) rfl rfl fun _ => hresults
    refine hnew.goto_plain hobject (fun _ => rfl) (fun _ => rfl) ?_ ?_
    · intro o'
      change (s.place p).constructing o' = false
      rw [hplace]
      rfl
    · intro o' ho'
      cases ho'
  | write_corrupted o =>
    simp only [hplace, Option.some.injEq] at hstep
    subst hstep
    have hobject := hlt o (by rw [hplace]; rfl)
    have hnew := hinv.set_backing (b := { s.backing o with word := .CorruptedSegment })
      (hobject o rfl) rfl rfl fun hinit => by cases hinit
    refine hnew.goto_plain hobject (fun _ => rfl) (fun _ => rfl) ?_ ?_
    · intro o'
      change (s.place p).constructing o' = false
      rw [hplace]
      rfl
    · intro o' ho'
      cases ho'
  | truncate_to_one o =>
    simp only [hplace, Option.some.injEq] at hstep
    subst hstep
    have hobject := hlt o (by rw [hplace]; rfl)
    split_ifs
    · have hnew := hinv.set_backing (b := { s.backing o with size := 1 }) (hobject o rfl) rfl rfl
        (hinv.published o)
      refine hnew.fail ?_
      intro o'
      change (s.place p).constructing o' = false
      rw [hplace]
      rfl
    · exact hinv.fail (by simp [hplace, Place.constructing])
  | get_file_size o =>
    simp only [hplace, Option.some.injEq] at hstep
    subst hstep
    have hobject := hlt o (by rw [hplace]; rfl)
    have hleaves : ∀ o, (s.place p).constructing o = false := by simp [hplace, Place.constructing]
    have hmap : Inv (s.goto p (.map_after_open o)) := by
      refine hinv.goto_plain hobject (fun _ => rfl) (fun _ => rfl) hleaves ?_
      intro o' ho'
      cases ho'
    unfold get_file_size_step
    split
    · exact hinv.fail hleaves
    · split_ifs
      · exact hinv
      · exact hinv.fail hleaves
      · exact hmap
      · exact hmap
  | map_after_open o =>
    simp only [hplace, Option.some.injEq] at hstep
    subst hstep
    have hobject := hlt o (by rw [hplace]; rfl)
    have hleaves : ∀ o, (s.place p).constructing o = false := by simp [hplace, Place.constructing]
    split_ifs
    · exact hinv.fail hleaves
    · refine hinv.goto_plain hobject (fun _ => rfl) (fun _ => rfl) hleaves ?_
      intro o' ho'
      cases ho'
  | read_word o =>
    simp only [hplace, Option.some.injEq] at hstep
    subst hstep
    have hobject := hlt o (by rw [hplace]; rfl)
    have hleaves : ∀ o, (s.place p).constructing o = false := by simp [hplace, Place.constructing]
    split_ifs with hword
    · refine hinv.goto_plain hobject (fun _ => rfl) (fun _ => rfl) hleaves ?_
      intro o' ho'
      rw [← of_decide_eq_true ho']
      exact hinv.published o hword
    · refine hinv.goto_plain hobject (fun _ => rfl) (fun _ => rfl) hleaves ?_
      intro o' ho'
      cases ho'
  | spin o =>
    simp only [hplace, Option.some.injEq] at hstep
    subst hstep
    have hobject := hlt o (by rw [hplace]; rfl)
    have hleaves : ∀ o, (s.place p).constructing o = false := by simp [hplace, Place.constructing]
    unfold spin_step
    split
    · exact hinv.fail hleaves
    · split_ifs with hword
      · refine hinv.goto_plain hobject (fun _ => rfl) (fun _ => rfl) hleaves ?_
        intro o' ho'
        rw [← of_decide_eq_true ho']
        exact hinv.published o hword
      · exact hinv.fail hleaves
      · exact hinv
  | remap o | open_func o =>
    simp only [hplace, Option.some.injEq] at hstep
    subst hstep
    have hobject := hlt o (by rw [hplace]; rfl)
    have hleaves : ∀ o, (s.place p).constructing o = false := by simp [hplace, Place.constructing]
    have hresults := hinv.relied p o (by rw [hplace]; exact decide_eq_true rfl)
    split_ifs
    · exact hinv.fail hleaves
    · refine hinv.goto_plain hobject (fun _ => rfl) (fun _ => rfl) hleaves ?_
      intro o' ho'
      rw [← of_decide_eq_true ho']
      exact hresults

/-- No creator's functor reports its failure by returning `false`. -/
def Allowed {τ : Type} (s : State τ) : Label τ → Prop
  | .advance p outcome => (s.place p).in_construct_func = true → outcome ≠ .returns_false
  | _ => True

instance {τ : Type} (s : State τ) (label : Label τ) : Decidable (Allowed s label) :=
  match label with
  | .start _ _ _ | .remove => inferInstanceAs (Decidable True)
  | .advance _ _ => inferInstanceAs (Decidable (_ = true → _ ≠ _))

omit [DecidableEq τ] in
theorem inv_start : Inv (start : State τ) := by
  have hnone : ∀ P : Place → Bool, P .idle = false → count P (start : State τ).place = 0 := by
    intro P hP
    rw [count, total_eq_zero_iff]
    intro p
    change (P .idle).toNat = 0
    rw [hP]
    rfl
  refine ⟨?_, ?_, fun _ _ => rfl, ?_, ?_, ?_, ?_⟩
  · intro o ho
    cases ho
  · intro p o ho
    cases ho
  · intro o
    rw [hnone _ rfl]
    exact Nat.zero_le 1
  · intro o
    rw [hnone _ rfl]
    rfl
  · intro o ho
    cases ho
  · intro p o ho
    cases ho

theorem Inv.step {c : Config} {s s' : State τ} (hinv : Inv s) {label : Label τ}
    (hallowed : Allowed s label) (hstep : step c s label = some s') : Inv s' := by
  cases label with
  | start p type size =>
    unfold managed_open_or_create_impl.step at hstep
    cases hplace : s.place p with
    | idle =>
      have hleaves : ∀ o, (s.place p).constructing o = false := by simp [hplace, Place.constructing]
      have hmove : ∀ place : Place, place.object = none → (∀ o, place.preparing o = false) →
          (∀ o, place.constructing o = false) → (∀ o, place.relies o = false) →
          Inv (s.goto p place) := by
        intro place hobject hpreparing hconstructing hrelies
        refine hinv.goto_plain ?_ hpreparing hconstructing hleaves ?_
        · intro o ho
          rw [hobject] at ho
          cases ho
        · intro o ho
          rw [hrelies o] at ho
          cases ho
      simp only [hplace] at hstep
      split_ifs at hstep <;>
        · cases hstep
          exact hmove _ rfl (fun _ => rfl) (fun _ => rfl) (fun _ => rfl)
    | _ => simp [hplace] at hstep
  | advance p outcome =>
    refine hinv.advance ?_ hstep
    intro o ho
    exact hallowed (by rw [ho]; rfl)
  | remove =>
    cases hstep
    refine ⟨?_, hinv.object_lt, hinv.fresh, hinv.once, hinv.ended, hinv.published, hinv.relied⟩
    intro o ho
    cases ho

/-- In every interleaving in which no creator's functor returns `false`, the
    functor runs at most once with `created = true` on a backing object, an opener
    succeeds only after such a run ended well, and a failed run is never
    published. -/
theorem open_or_create_publishes_only_success (c : Config) (s : State τ)
    (hrun : Reaches (step c) Allowed start s) :
    (∀ o, (s.backing o).runs ≤ 1) ∧
    (∀ p o, s.place p = .opened o → true ∈ (s.backing o).results) ∧
    (∀ o, false ∈ (s.backing o).results → (s.backing o).word ≠ .InitializedSegment) := by
  have hinv : Inv s := hrun.invariant inv_start
    fun _ _ _ hinv hallowed hstep => hinv.step hallowed hstep
  refine ⟨?_, ?_, ?_⟩
  · intro o
    exact Nat.le_trans (Nat.le_add_left _ _) (hinv.once o)
  · intro p o hplace
    rw [hinv.relied p o (by rw [hplace]; exact decide_eq_true rfl)]
    exact List.mem_singleton_self true
  · intro o hfailed hinit
    rw [hinv.published o hinit] at hfailed
    cases List.mem_singleton.mp hfailed

/-- Process 0 creates a segment of 4096 bytes and process 1 opens it. -/
theorem open_or_create_publishes_only_success_of_two :
    ∃ s : State (Fin 2), Reaches (step ⟨true, 64⟩) Allowed start s ∧ s.place 1 = .opened 0 ∧
      true ∈ (s.backing 0).results := by
  obtain ⟨s, hrun, hs⟩ := exists_reaches_of_replay (step ⟨true, 64⟩) Allowed
    (start : State (Fin 2)) ([.start 0 .DoOpenOrCreate 4096, .start 1 .DoOpenOrCreate 4096] ++
      List.replicate 6 (.advance 0 .ok) ++ List.replicate 6 (.advance 1 .ok))
    (fun s => s.place 1 = .opened 0) (by decide)
  have hopened := of_decide_eq_true hs
  exact ⟨s, hrun, hopened, (open_or_create_publishes_only_success ⟨true, 64⟩ s hrun).2.1 1 0 hopened⟩

/-- The functor of the creator returns `false`, as the one of `message_queue` does
    for a segment that is too small: the word says that the segment is
    initialised, and an opener succeeds. -/
theorem returned_false_is_published :
    ∃ s : State (Fin 2), Reachable (step ⟨true, 64⟩) start s ∧
      (s.backing 0).results = [false] ∧ (s.backing 0).word = .InitializedSegment ∧
      s.place 1 = .opened 0 := by
  obtain ⟨s, hrun, hs⟩ := exists_reachable_of_replay (step ⟨true, 64⟩) (start : State (Fin 2))
    ([.start 0 .DoCreate 4096, .start 1 .DoOpenOrCreate 4096] ++ List.replicate 4 (.advance 0 .ok) ++
      [.advance 0 .returns_false, .advance 0 .ok] ++ List.replicate 6 (.advance 1 .ok))
    (fun s => (s.backing 0).results = [false] ∧ (s.backing 0).word = .InitializedSegment ∧
      s.place 1 = .opened 0) (by decide)
  exact ⟨s, hrun, of_decide_eq_true hs⟩

end interprocess.ipcdetail.managed_open_or_create_impl
