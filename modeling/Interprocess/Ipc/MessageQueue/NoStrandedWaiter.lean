import Interprocess.Ipc.MessageQueue.Waiting

open Count Transition
open interprocess.ipcdetail

namespace interprocess.message_queue.waiters

/-- Registered in the waiting loop of a side. -/
def registeredOn (side : Side) : Place → Bool
  | .waiting request _ _ => request.side = side
  | _ => false

/-- Registered and notified, awake or past its time point. -/
def readyOn (side : Side) : Place → Bool
  | .waiting _ _ .asleep => false
  | .waiting request _ _ => request.side = side
  | _ => false

/-- Past the critical section with a notification of the side to be issued. -/
def notifyingOn (side : Side) : Place → Bool
  | .notifying side' => side' = side
  | _ => false

/-- What a side waits for: the messages in the queue or the free slots. -/
def State.avail {τ : Type} (s : State τ) : Side → Nat
  | .receiver => s.hdr.m_cur_num_msg
  | .sender => s.hdr.m_max_num_msg - s.hdr.m_cur_num_msg

/-- The blocked counters count the registered threads, and while a side has an
    un-notified sleeper, everything available to it is covered by a thread that
    is up or by a notification still to come. -/
structure Inv {τ : Type} [Fintype τ] (s : State τ) : Prop where
  num_le : s.hdr.m_cur_num_msg ≤ s.hdr.m_max_num_msg
  blocked_eq : ∀ side, s.blocked side = count (registeredOn side) s.place
  covered : ∀ side, 0 < count (asleepOn side) s.place →
    s.avail side ≤ count (readyOn side) s.place + count (notifyingOn side) s.place

theorem must_wait_iff {τ : Type} {s : State τ} (hnum : s.hdr.m_cur_num_msg ≤ s.hdr.m_max_num_msg)
    (side : Side) : s.must_wait side = true ↔ s.avail side = 0 := by
  cases side with
  | receiver => simp [State.must_wait, State.avail, mq_hdr_t.is_empty]
  | sender =>
    simp only [State.must_wait, State.avail, mq_hdr_t.is_full, beq_iff_eq]
    omega

theorem insert_msg_num (h : mq_hdr_t) (buffer : List UInt8) (priority : Nat) :
    (insert_msg h buffer priority).m_cur_num_msg = h.m_cur_num_msg + 1 ∧
      (insert_msg h buffer priority).m_max_num_msg = h.m_max_num_msg := by
  simp only [insert_msg, mq_hdr_t.queue_free_msg]
  generalize (if h.m_cur_num_msg ≠ 0 ∧ priority > (h.slots h.bottom_msg).priority then
    if priority > (h.slots h.top_msg).priority then h.end_pos else h.lower_bound priority
    else h.m_cur_first_msg) = whr
  simp only [mq_hdr_t.insert_at]
  split_ifs <;> exact ⟨rfl, rfl⟩

/-- The critical section takes one of what its own side waits for and provides
    one of what the other side waits for. -/
theorem avail_proceed {τ : Type} [DecidableEq τ] {s : State τ} {request : Request} (t : τ)
    (hnum : s.hdr.m_cur_num_msg ≤ s.hdr.m_max_num_msg) (hgo : s.must_wait request.side ≠ true) :
    (s.proceed t request).hdr.m_cur_num_msg ≤ (s.proceed t request).hdr.m_max_num_msg ∧
      (s.proceed t request).avail request.side + 1 = s.avail request.side ∧
      (s.proceed t request).avail request.side.other = s.avail request.side.other + 1 := by
  rw [ne_eq, must_wait_iff hnum] at hgo
  cases request with
  | send buffer priority =>
    obtain ⟨hcur, hmax⟩ := insert_msg_num s.hdr buffer priority
    simp only [State.proceed, State.transfer, State.avail, Request.side, Side.other] at hgo ⊢
    omega
  | receive buffer_size =>
    have hcur : (remove_msg s.hdr).2.m_cur_num_msg = s.hdr.m_cur_num_msg - 1 := rfl
    have hmax : (remove_msg s.hdr).2.m_max_num_msg = s.hdr.m_max_num_msg := rfl
    simp only [State.proceed, State.transfer, State.avail, Request.side, Side.other] at hgo ⊢
    omega

theorem Side.eq_or_eq_other (side side' : Side) : side = side' ∨ side = side'.other := by
  cases side <;> cases side' <;> simp [Side.other]

theorem Side.ne_other (side : Side) : side ≠ side.other := by
  cases side <;> simp [Side.other]

theorem registeredOn_of_asleepOn {side : Side} {p : Place} (h : asleepOn side p = true) :
    registeredOn side p = true := by
  unfold asleepOn at h
  split at h
  · exact h
  · cases h

section Steps

variable {τ : Type}

theorem blocked_set_blocked (s : State τ) (side side' : Side) (n : Nat) :
    (s.set_blocked side n).blocked side' = if side' = side then n else s.blocked side' := by
  cases side <;> cases side' <;> rfl

theorem set_blocked_hdr (s : State τ) (side : Side) (n : Nat) : (s.set_blocked side n).hdr = s.hdr := by
  cases side <;> rfl

theorem set_blocked_place (s : State τ) (side : Side) (n : Nat) :
    (s.set_blocked side n).place = s.place := by
  cases side <;> rfl

theorem set_blocked_must_wait (s : State τ) (side side' : Side) (n : Nat) :
    (s.set_blocked side n).must_wait side' = s.must_wait side' := by
  cases side <;> rfl

theorem section_exit_not_waiting (s : State τ) (request : Request) (side : Side) :
    registeredOn side (s.section_exit request) = false ∧
      asleepOn side (s.section_exit request) = false ∧
      readyOn side (s.section_exit request) = false := by
  unfold State.section_exit
  split <;> exact ⟨rfl, rfl, rfl⟩

theorem section_exit_notifying {s : State τ} {request : Request}
    (hblocked : 0 < s.blocked request.side.other) :
    notifyingOn request.side.other (s.section_exit request) = true := by
  rw [State.section_exit, if_pos (by omega)]
  exact decide_eq_true rfl

variable [Fintype τ] [DecidableEq τ]

/-- Leaving the critical section keeps the invariant, whether the thread came
    from outside or from its waiting loop. -/
theorem Inv.proceed {s s₁ : State τ} (hinv : Inv s) {t : τ} {request : Request}
    (hhdr : s₁.hdr = s.hdr) (hplace : s₁.place = s.place)
    (hblocked : ∀ side, s₁.blocked side + (registeredOn side (s.place t)).toNat = s.blocked side)
    (hasleep : ∀ side, asleepOn side (s.place t) = false)
    (hnotifying : ∀ side, notifyingOn side (s.place t) = false)
    (hready : readyOn request.side.other (s.place t) = false)
    (hregistered : registeredOn request.side.other (s.place t) = false)
    (hgo : s₁.must_wait request.side ≠ true) : Inv (s₁.proceed t request) := by
  have hnum : s₁.hdr.m_cur_num_msg ≤ s₁.hdr.m_max_num_msg := by
    rw [hhdr]
    exact hinv.num_le
  obtain ⟨hle, hown, hother⟩ := avail_proceed t hnum hgo
  have havail : ∀ side, s₁.avail side = s.avail side := by
    intro side
    cases side <;> simp only [State.avail, hhdr]
  have hafter : (s₁.proceed t request).place =
      Function.update s.place t (s₁.section_exit request) := by
    simp only [State.proceed, hplace]
  refine ⟨hle, ?_, ?_⟩
  · intro side
    have hcount := count_update (registeredOn side) s.place t (s₁.section_exit request)
    rw [(section_exit_not_waiting s₁ request side).1, Bool.toNat_false] at hcount
    have hbefore := hinv.blocked_eq side
    have hsame : (s₁.proceed t request).blocked side = s₁.blocked side := by cases side <;> rfl
    have hmoved := hblocked side
    rw [hafter, hsame]
    omega
  · intro side hsleeper
    rw [hafter] at hsleeper ⊢
    obtain ⟨_, hexitA, hexitR⟩ := section_exit_not_waiting s₁ request side
    have hcountA := count_update (asleepOn side) s.place t (s₁.section_exit request)
    have hcountR := count_update (readyOn side) s.place t (s₁.section_exit request)
    have hcountN := count_update (notifyingOn side) s.place t (s₁.section_exit request)
    rw [hexitA, hasleep side] at hcountA
    rw [hexitR, Bool.toNat_false] at hcountR
    rw [hnotifying side, Bool.toNat_false] at hcountN
    have hcovered := hinv.covered side (by omega)
    have hsame := havail side
    rcases Side.eq_or_eq_other side request.side with rfl | rfl
    · have hone := Bool.toNat_le (readyOn request.side (s.place t))
      omega
    · have hsub : count (asleepOn request.side.other) s.place ≤
          count (registeredOn request.side.other) s.place :=
        count_le_count (fun _ => registeredOn_of_asleepOn) s.place
      have hbefore := hinv.blocked_eq request.side.other
      have hmoved := hblocked request.side.other
      rw [hregistered, Bool.toNat_false] at hmoved
      have hnotify : 0 < s₁.blocked request.side.other := by omega
      rw [section_exit_notifying hnotify, Bool.toNat_true] at hcountN
      rw [hready, Bool.toNat_false] at hcountR
      omega

/-- A step that moves one thread and leaves the messages alone keeps the
    invariant when the counters follow its registration, no notification is
    dropped, and it falls asleep or leaves only with nothing available. -/
theorem Inv.move {s s₁ : State τ} (hinv : Inv s) {t : τ} {p : Place}
    (hhdr : s₁.hdr = s.hdr) (hplace : s₁.place = Function.update s.place t p)
    (hblocked : ∀ side, s₁.blocked side + (registeredOn side (s.place t)).toNat =
      s.blocked side + (registeredOn side p).toNat)
    (hnotifying : ∀ side, notifyingOn side p = notifyingOn side (s.place t))
    (hup : ∀ side, s.must_wait side = true ∨ (readyOn side (s.place t) ≤ readyOn side p ∧
      asleepOn side p ≤ asleepOn side (s.place t))) : Inv s₁ := by
  have havail : ∀ side, s₁.avail side = s.avail side := by
    intro side
    cases side <;> simp only [State.avail, hhdr]
  refine ⟨by rw [hhdr]; exact hinv.num_le, ?_, ?_⟩
  · intro side
    have hcount := count_update (registeredOn side) s.place t p
    have hbefore := hinv.blocked_eq side
    have hmoved := hblocked side
    rw [hplace]
    omega
  · intro side hsleeper
    rw [hplace] at hsleeper ⊢
    rw [havail side]
    have hcountA := count_update (asleepOn side) s.place t p
    have hcountR := count_update (readyOn side) s.place t p
    have hcountN := count_update (notifyingOn side) s.place t p
    rw [hnotifying side] at hcountN
    rcases hup side with hwait | ⟨hready, hasleep⟩
    · rw [(must_wait_iff hinv.num_le side).mp hwait]
      exact Nat.zero_le _
    · have hR := Bool.toNat_le_toNat hready
      have hA := Bool.toNat_le_toNat hasleep
      have hcovered := hinv.covered side (by omega)
      omega

/-- An issued notification is traded for the waiter it wakes; when it wakes
    none, its side has no sleeper. -/
theorem Inv.notify {s : State τ} (hinv : Inv s) {t : τ} {side : Side} {place : τ → Place}
    (hregistered : ∀ side', count (registeredOn side') place = count (registeredOn side') s.place)
    (hnotifying : ∀ side', count (notifyingOn side') place = count (notifyingOn side') s.place)
    (hready : ∀ side', count (readyOn side') s.place ≤ count (readyOn side') place)
    (hasleep : ∀ side', count (asleepOn side') place ≤ count (asleepOn side') s.place)
    (htraded : 0 < count (asleepOn side) place →
      count (readyOn side) s.place < count (readyOn side) place)
    (hsame : place t = .notifying side) :
    Inv { s with place := Function.update place t .outside } := by
  refine ⟨hinv.num_le, ?_, ?_⟩
  · intro side'
    have hcount := count_update (registeredOn side') place t .outside
    rw [hsame] at hcount
    simp only [registeredOn, Bool.toNat_false] at hcount
    have hbefore := hinv.blocked_eq side'
    have hkept := hregistered side'
    change s.blocked side' = count (registeredOn side') (Function.update place t .outside)
    omega
  · intro side' hsleeper
    change 0 < count (asleepOn side') (Function.update place t .outside) at hsleeper
    change s.avail side' ≤ count (readyOn side') (Function.update place t .outside) +
      count (notifyingOn side') (Function.update place t .outside)
    have hcountA := count_update (asleepOn side') place t .outside
    have hcountR := count_update (readyOn side') place t .outside
    have hcountN := count_update (notifyingOn side') place t .outside
    rw [hsame] at hcountA hcountR hcountN
    simp only [asleepOn, readyOn, notifyingOn, Bool.toNat_false] at hcountA hcountR hcountN
    have hone := Bool.toNat_le (decide (side = side'))
    have hA := hasleep side'
    have hR := hready side'
    have hN := hnotifying side'
    have hcovered := hinv.covered side' (by omega)
    by_cases hside : side = side'
    · subst hside
      have htrade := htraded (by omega)
      omega
    · rw [decide_eq_false hside, Bool.toNat_false] at hcountN
      omega

theorem Inv.notify_one {s s' : State τ} (hinv : Inv s) {t : τ} {woken : Option τ}
    (hstep : step s (.notify_one t woken) = some s') : Inv s' := by
  simp only [step] at hstep
  cases hplace : s.place t with
  | outside => simp [hplace] at hstep
  | waiting => simp [hplace] at hstep
  | notifying side =>
    simp only [hplace] at hstep
    cases woken with
    | none =>
      simp only at hstep
      split_ifs at hstep with hnone
      cases hstep
      refine hinv.notify (fun _ => rfl) (fun _ => rfl) (fun _ => le_refl _) (fun _ => le_refl _) ?_ hplace
      intro hsleeper
      obtain ⟨w, hw⟩ := (count_pos_iff (asleepOn side) s.place).mp hsleeper
      rw [hnone w] at hw
      cases hw
    | some w =>
      simp only at hstep
      split at hstep
      case h_2 => cases hstep
      case h_1 request timed hw =>
        split_ifs at hstep with hside
        cases hstep
        have hne : t ≠ w := by
          rintro rfl
          rw [hplace] at hw
          cases hw
        have hcount := fun P => count_update P s.place w (.waiting request timed .notified)
        simp only [hw] at hcount
        refine hinv.notify ?_ ?_ ?_ ?_ ?_ ((Function.update_of_ne hne _ _).trans hplace)
        · intro side'
          have h := hcount (registeredOn side')
          simp only [registeredOn] at h
          omega
        · intro side'
          have h := hcount (notifyingOn side')
          simp only [notifyingOn] at h
          omega
        · intro side'
          have h := hcount (readyOn side')
          simp only [readyOn, Bool.toNat_false] at h
          omega
        · intro side'
          have h := hcount (asleepOn side')
          simp only [asleepOn, Bool.toNat_false] at h
          omega
        · intro _
          have h := hcount (readyOn side)
          simp only [readyOn, Bool.toNat_false, hside, decide_true, Bool.toNat_true] at h
          omega

theorem Inv.call {s s' : State τ} (hinv : Inv s) {t : τ} {request : Request} {block : mqblock_types}
    (hstep : step s (.call t request block) = some s') : Inv s' := by
  simp only [step] at hstep
  cases hplace : s.place t with
  | waiting => simp [hplace] at hstep
  | notifying => simp [hplace] at hstep
  | outside =>
    simp only [hplace] at hstep
    split_ifs at hstep with hsize hwait
    · cases hstep
      exact hinv
    · have henter : ∀ timed : Bool, Inv { s.set_blocked request.side (s.blocked request.side + 1) with
          place := Function.update s.place t (.waiting request timed .asleep) } := by
        intro timed
        refine hinv.move (set_blocked_hdr s _ _) rfl ?_ ?_ ?_
        · intro side
          change (s.set_blocked _ _).blocked side + _ = _
          rw [blocked_set_blocked, hplace]
          by_cases hside : side = request.side
          · simp [registeredOn, hside]
          · simp [registeredOn, hside, Ne.symm hside]
        · intro side
          rw [hplace]
          rfl
        · intro side
          by_cases hside : side = request.side
          · rw [hside]
            exact Or.inl hwait
          · right
            simp [hplace, readyOn, asleepOn, Ne.symm hside]
      cases block with
      | non_blocking =>
        cases hstep
        exact hinv
      | blocking =>
        cases hstep
        exact henter _
      | timed =>
        cases hstep
        exact henter _
    · cases hstep
      refine hinv.proceed rfl rfl ?_ ?_ ?_ ?_ ?_ hwait
      · intro side
        rw [hplace]
        rfl
      all_goals simp [hplace, asleepOn, notifyingOn, readyOn, registeredOn]

theorem Inv.resume {s s' : State τ} (hinv : Inv s) {t : τ}
    (hstep : step s (.resume t) = some s') : Inv s' := by
  simp only [step] at hstep
  cases hplace : s.place t with
  | outside => simp [hplace] at hstep
  | notifying => simp [hplace] at hstep
  | waiting request timed phase =>
    have hpos : 0 < s.blocked request.side := by
      rw [hinv.blocked_eq, count_pos_iff]
      exact ⟨t, by simp [hplace, registeredOn]⟩
    have hleave : ∀ side, (s.set_blocked request.side (s.blocked request.side - 1)).blocked side +
        (registeredOn side (s.place t)).toNat = s.blocked side := by
      intro side
      rw [blocked_set_blocked, hplace]
      by_cases hside : side = request.side
      · subst hside
        simp only [if_true, registeredOn, decide_true, Bool.toNat_true]
        omega
      · simp [registeredOn, hside, Ne.symm hside]
    have hstep' : phase ≠ .asleep ∧ some s' = (if s.must_wait request.side then
        if phase = .expired then
          some { s.set_blocked request.side (s.blocked request.side - 1) with
            place := Function.update s.place t .outside }
        else some { s with place := Function.update s.place t (.waiting request timed .asleep) }
      else some ((s.set_blocked request.side (s.blocked request.side - 1)).proceed t request)) := by
      cases phase <;> simp_all
    obtain ⟨hphase, hstep⟩ := hstep'
    split_ifs at hstep with hwait hexpired
    · cases hstep
      refine hinv.move (set_blocked_hdr s _ _) rfl hleave ?_ ?_
      · intro side
        rw [hplace]
        rfl
      · intro side
        by_cases hside : side = request.side
        · rw [hside]
          exact Or.inl hwait
        · right
          cases phase <;> simp [hplace, readyOn, asleepOn, Ne.symm hside]
    · cases hstep
      refine hinv.move rfl rfl ?_ ?_ ?_
      · intro side
        rw [hplace]
        rfl
      · intro side
        rw [hplace]
        rfl
      · intro side
        by_cases hside : side = request.side
        · rw [hside]
          exact Or.inl hwait
        · right
          cases phase <;> simp [hplace, readyOn, asleepOn, Ne.symm hside]
    · cases hstep
      rw [Bool.not_eq_true] at hwait
      refine hinv.proceed (set_blocked_hdr s _ _) (set_blocked_place s _ _) hleave ?_ ?_ ?_ ?_ ?_
      · intro side
        cases phase <;> simp_all [asleepOn]
      · intro side
        rw [hplace]
        rfl
      · cases phase <;> simp [hplace, readyOn, Side.ne_other]
      · simp [hplace, registeredOn, Side.ne_other]
      · rw [set_blocked_must_wait, hwait]
        simp

theorem Inv.step {s s' : State τ} (hinv : Inv s) {a : Label τ} (hstep : step s a = some s') :
    Inv s' := by
  cases a with
  | call t request block => exact hinv.call hstep
  | resume t => exact hinv.resume hstep
  | notify_one t woken => exact hinv.notify_one hstep
  | spurious_wake t =>
    simp only [waiters.step] at hstep
    split at hstep
    case h_2 => cases hstep
    case h_1 request timed hplace =>
      cases hstep
      refine hinv.move rfl rfl ?_ ?_ ?_
      · intro side
        rw [hplace]
        rfl
      · intro side
        rw [hplace]
        rfl
      · intro side
        right
        simp [hplace, readyOn, asleepOn]
  | time_out t =>
    simp only [waiters.step] at hstep
    split at hstep
    case h_2 => cases hstep
    case h_1 request phase hplace =>
      cases hstep
      refine hinv.move rfl rfl ?_ ?_ ?_
      · intro side
        rw [hplace]
        rfl
      · intro side
        rw [hplace]
        rfl
      · intro side
        right
        cases phase <;> simp [hplace, readyOn, asleepOn]

omit [DecidableEq τ] in
theorem start_inv (max_num_msg max_msg_size : Nat) :
    Inv (start max_num_msg max_msg_size : State τ) := by
  have hnobody : ∀ P : Place → Bool, P .outside = false →
      count P (start max_num_msg max_msg_size : State τ).place = 0 := by
    intro P hP
    simp [count, total_eq_zero_iff, start, hP]
  refine ⟨Nat.zero_le _, ?_, ?_⟩
  · intro side
    rw [hnobody _ rfl]
    cases side <;> rfl
  · intro side hsleeper
    rw [hnobody _ rfl] at hsleeper
    omega

/-- In every state of every interleaving the blocked counters are exact, and
    messages or free slots never wait with only un-notified sleepers for them. -/
theorem never_strands_a_waiter (max_num_msg max_msg_size : Nat) (s : State τ)
    (hreach : Reachable step (start max_num_msg max_msg_size) s) (side : Side) :
    s.blocked side = count (registeredOn side) s.place ∧
      (0 < count (asleepOn side) s.place →
        s.avail side ≤ count (readyOn side) s.place + count (notifyingOn side) s.place) ∧
      (0 < count (asleepOn side) s.place → 0 < s.avail side →
        ∃ t, readyOn side (s.place t) = true ∨ notifyingOn side (s.place t) = true) := by
  have hinv : Inv s := hreach.invariant (start_inv max_num_msg max_msg_size)
    fun _ _ _ hbefore _ hstep => hbefore.step hstep
  refine ⟨hinv.blocked_eq side, hinv.covered side, ?_⟩
  intro hsleeper havail
  have hcovered := hinv.covered side hsleeper
  by_cases hready : 0 < count (readyOn side) s.place
  · obtain ⟨t, ht⟩ := (count_pos_iff _ _).mp hready
    exact ⟨t, Or.inl ht⟩
  · obtain ⟨t, ht⟩ := (count_pos_iff (notifyingOn side) s.place).mp (by omega)
    exact ⟨t, Or.inr ht⟩

/-- A receiver asleep on an empty queue when a message arrives. -/
theorem never_strands_a_waiter_after_send :
    ∃ s : State (Fin 2), Reachable step (start 1 8) s ∧ 0 < count (asleepOn .receiver) s.place ∧
      0 < s.avail .receiver ∧
      ∃ t, readyOn .receiver (s.place t) = true ∨ notifyingOn .receiver (s.place t) = true := by
  obtain ⟨s, hreach, hs⟩ := exists_reachable_of_replay step (start 1 8)
    [.call (0 : Fin 2) (.receive 8) .blocking, .call 1 (.send [1] 0) .non_blocking]
    (fun s => 0 < count (asleepOn .receiver) s.place ∧ 0 < s.avail .receiver) (by decide)
  obtain ⟨hasleep, havail⟩ := of_decide_eq_true hs
  exact ⟨s, hreach, hasleep, havail,
    (never_strands_a_waiter 1 8 s hreach .receiver).2.2 hasleep havail⟩

end Steps

end interprocess.message_queue.waiters
