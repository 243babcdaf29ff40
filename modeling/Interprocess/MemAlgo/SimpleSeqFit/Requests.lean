import Interprocess.MemAlgo.SimpleSeqFit.Aligning

namespace interprocess.ipcdetail.simple_seq_fit_impl

open Memory Tiling LinkedList

/-- The buffers `live` are those of the allocated blocks; of the blocks `sized` the
    units are known, too. -/
structure Owned (P : Traits) (h : Heap) (blocks : List Block) (stale live : List Nat)
    (sized : List (Nat × Nat)) : Prop extends Rep P h blocks stale where
  live_perm : live.Perm ((useds P.Alignment (first_block P h) blocks).map (priv_get_user_buffer P))
  sized_placed : ∀ x v, (x, v) ∈ sized →
    (x, (⟨v, true⟩ : Block)) ∈ placed P.Alignment (first_block P h) blocks

def Holds (P : Traits) (h : Heap) (live : List Nat) (sized : List (Nat × Nat)) : Prop :=
  ∃ blocks, Owned P h blocks [] live sized

/-- The answer to a request: null, or the buffer of a new block of at least `n`
    units. -/
def Granted (P : Traits) (live : List Nat) (sized : List (Nat × Nat)) (n : Nat) (h : Heap)
    (ptr : Nat) : Prop :=
  ptr = 0 ∧ Holds P h live sized ∨
    ∃ L w R, ptr = priv_get_user_buffer P (stop P.Alignment (first_block P h) L) ∧ n ≤ w ∧
      Owned P h (L ++ ⟨w, true⟩ :: R) [] (ptr :: live) sized

variable {P : Traits} {h : Heap} {blocks blocks' L R : List Block} {stale live : List Nat}
  {sized : List (Nat × Nat)} {u w x n : Nat}

theorem Granted.mono {h' : Heap} {k ptr : Nat} (hgranted : Granted P live sized n h' ptr)
    (hk : k ≤ n) : Granted P live sized k h' ptr := by
  rcases hgranted with hnull | ⟨L, w, R, hptr, hw, howned⟩
  · exact Or.inl hnull
  · exact Or.inr ⟨L, w, R, hptr, Nat.le_trans hk hw, howned⟩

/-- The buffers held after a request. -/
theorem Granted.holds {h' : Heap} {ptr : Nat} (hgranted : Granted P live sized n h' ptr) :
    Holds P h' (if ptr = 0 then live else ptr :: live) sized := by
  rcases hgranted with ⟨rfl, hholds⟩ | ⟨L, w, R, rfl, _, howned⟩
  · rw [if_pos rfl]
    exact hholds
  · rw [if_neg (user_buffer_ne_zero P _)]
    exact ⟨_, howned⟩

theorem Owned.live_nodup (howned : Owned P h blocks stale live sized) : live.Nodup := by
  rw [howned.live_perm.nodup_iff]
  refine List.Nodup.map ?_ (useds_nodup _ P.Alignment_pos howned.units_pos)
  exact fun x y heq => Nat.add_right_cancel heq

/-- The heap after a free block was taken. -/
theorem Owned.take {allocated : Nat} {mem : Memory} (howned : Owned P h blocks stale live sized)
    (hrep : Rep P { h with m_allocated := allocated, mem := mem } (L ++ ⟨w, true⟩ :: R) stale)
    (htaken : Taken P (first_block P h) h.mem mem blocks L w R) :
    Owned P { h with m_allocated := allocated, mem := mem } (L ++ ⟨w, true⟩ :: R) stale
      (priv_get_user_buffer P (stop P.Alignment (first_block P h) L) :: live) sized := by
  refine ⟨hrep, ?_, fun y v hy => (htaken.kept y v (howned.sized_placed y v hy)).1⟩
  refine (howned.live_perm.cons _).trans ?_
  exact (htaken.useds_perm.map (priv_get_user_buffer P)).symm

theorem sequential_fit_granted (hholds : Holds P h live sized) (limit_size preferred_size : Nat)
    (hlimit : n ≤ ceil_units P limit_size + P.BlockCtrlUnits)
    (hpreferred : n ≤ ceil_units P preferred_size + P.BlockCtrlUnits) :
    ∃ h' ptr received, sequential_fit P h limit_size preferred_size = some (h', ptr, received) ∧
      Granted P live sized n h' ptr := by
  obtain ⟨blocks, howned⟩ := hholds
  rcases sequential_fit_spec howned.toRep limit_size preferred_size with
    hanswer | ⟨allocated, mem, received, L, w, R, hanswer, hw, hrep, htaken⟩
  · exact ⟨h, 0, 0, hanswer, Or.inl ⟨rfl, blocks, howned⟩⟩
  · refine ⟨_, _, received, hanswer, Or.inr ⟨L, w, R, rfl, ?_, howned.take hrep htaken⟩⟩
    rcases hw with hw | hw
    · exact Nat.le_trans hpreferred hw
    · exact Nat.le_trans hlimit hw

theorem priv_allocate_new_granted (hholds : Holds P h live sized)
    (limit_size preferred_size : Nat)
    (hlimit : n ≤ ceil_units P limit_size + P.BlockCtrlUnits)
    (hpreferred : n ≤ ceil_units P preferred_size + P.BlockCtrlUnits) :
    ∃ h' ptr received, priv_allocate_new P h limit_size preferred_size = some (h', ptr, received) ∧
      Granted P live sized n h' ptr := by
  unfold priv_allocate_new
  split_ifs
  · exact ⟨h, 0, 0, rfl, Or.inl ⟨rfl, hholds⟩⟩
  · exact sequential_fit_granted hholds _ _ hlimit hpreferred

theorem user_buffer_ceil_units_eq (P : Traits) (nbytes : Nat) :
    user_buffer_ceil_units P nbytes = ceil_units P nbytes := by
  unfold user_buffer_ceil_units
  split_ifs with hzero
  · rw [Nat.le_zero.mp hzero]
    have hceil := ceil_units_mul (P := P) (n := 0) (by rw [Nat.zero_mul]; decide)
    rw [Nat.zero_mul] at hceil
    exact hceil.symm
  · rfl

/-- An aligned buffer is cut out of the padded block that was taken for it. -/
theorem priv_allocate_overaligned_granted (hholds : Holds P h live sized)
    (hsized : ∀ x v, (x, v) ∈ sized → priv_get_user_buffer P x ∈ live) {k nbytes : Nat}
    (hk : k < 64) (hpad : P.Alignment < 2 ^ k)
    (hfits : RequestFits P nbytes (2 ^ k)) :
    ∃ h' ptr, priv_allocate_overaligned P h nbytes (2 ^ k) = some (h', ptr) ∧
      Granted P live sized (ceil_units P nbytes + P.BlockCtrlUnits) h' ptr := by
  have hrequest : overaligned_units P nbytes (2 ^ k) * P.Alignment % 2 ^ 64 =
      overaligned_units P nbytes (2 ^ k) * P.Alignment := Nat.mod_eq_of_lt hfits
  have hceil := ceil_units_mul hfits
  obtain ⟨h₁, ptr, received, hanswer, hgranted⟩ := priv_allocate_new_granted
    (n := overaligned_units P nbytes (2 ^ k) + P.BlockCtrlUnits) hholds
    (overaligned_units P nbytes (2 ^ k) * P.Alignment)
    (overaligned_units P nbytes (2 ^ k) * P.Alignment) (by rw [hceil]) (by rw [hceil])
  simp only [priv_allocate_overaligned, hrequest, hanswer, Option.bind_eq_bind, Option.bind_some]
  rcases hgranted with ⟨rfl, hholds₁⟩ | ⟨L, w, R, rfl, hw, howned⟩
  · rw [if_pos rfl]
    exact ⟨h₁, 0, rfl, Or.inl ⟨rfl, hholds₁⟩⟩
  · rw [if_neg (user_buffer_ne_zero P _)]
    have hnot : ∀ y v, (y, v) ∈ sized → y ≠ stop P.Alignment (first_block P h₁) L := by
      rintro y v hy rfl
      exact (List.nodup_cons.mp howned.live_nodup).1 (hsized _ v hy)
    have hmin : min_units P nbytes = ceil_units P nbytes + P.BlockCtrlUnits := by
      rw [min_units_eq, user_buffer_ceil_units_eq]
    split_ifs with haligned
    · have hle : min_units P nbytes ≤ w := by
        refine Nat.le_trans ?_ hw
        rw [min_units_eq, overaligned_units_eq]
        generalize (2 ^ k - P.Alignment) / P.Alignment = padding
        omega
      obtain ⟨allocated, mem, blocks, v, hsplit, hrep, hv, hplaced, hkept, hperm⟩ :=
        split_aligned_spec howned.toRep hle
      rw [hsplit]
      obtain ⟨L', R', rfl, hx⟩ := exists_of_mem_placed _ hplaced
      refine ⟨_, _, rfl, Or.inr ⟨L', v, R', congrArg _ hx, hmin ▸ hv, hrep, ?_, ?_⟩⟩
      · exact howned.live_perm.trans (hperm.map _).symm
      · exact fun y v hy => hkept y v (howned.sized_placed y v hy) (hnot y v hy)
    · obtain ⟨allocated, mem, blocks, x, v, hsplit, hbuffer, hrep, hv, hplaced, hkept, hperm⟩ :=
        split_overaligned_spec howned.toRep hk hpad hw
      rw [hsplit]
      obtain ⟨L', R', rfl, rfl⟩ := exists_of_mem_placed _ hplaced
      refine ⟨_, _, rfl, Or.inr ⟨L', v, R', hbuffer, hmin ▸ hv, hrep, ?_, ?_⟩⟩
      · have hmap := hperm.map (priv_get_user_buffer P)
        rw [List.map_cons, List.map_cons] at hmap
        have hlive := hmap.trans (howned.live_perm.symm.cons _)
        rw [hbuffer]
        exact ((hlive.trans (List.Perm.swap _ _ _)).cons_inv).symm
      · exact fun y v hy => hkept y v (howned.sized_placed y v hy) (hnot y v hy)

theorem allocate_aligned_granted (hholds : Holds P h live sized)
    (hsized : ∀ x v, (x, v) ∈ sized → priv_get_user_buffer P x ∈ live)
    {nbytes alignment : Nat} (hlt : alignment < 2 ^ 64)
    (hfits : P.Alignment < alignment → RequestFits P nbytes alignment) :
    ∃ h' ptr, allocate_aligned P h nbytes alignment = some (h', ptr) ∧
      Granted P live sized (ceil_units P nbytes + P.BlockCtrlUnits) h' ptr := by
  unfold allocate_aligned
  split_ifs with hpow hle
  · exact ⟨h, 0, rfl, Or.inl ⟨rfl, hholds⟩⟩
  · obtain ⟨h', ptr, received, hanswer, hgranted⟩ := priv_allocate_new_granted hholds nbytes nbytes
      (Nat.le_refl _) (Nat.le_refl _)
    rw [hanswer]
    exact ⟨h', ptr, rfl, hgranted⟩
  · have hgt := Nat.lt_of_not_le hle
    obtain ⟨k, hk, rfl⟩ := two_pow_of_aligned (by omega) hlt (not_not.mp hpow)
    exact priv_allocate_overaligned_granted hholds hsized hk hgt (hfits hgt)

/-- The part of `priv_allocate` behind the expansion grants a request or answers
    null. -/
theorem allocate_if_new_granted (hholds : Holds P h live sized)
    (hsized : ∀ x v, (x, v) ∈ sized → priv_get_user_buffer P x ∈ live)
    {limit_size preferred_size alignof_object : Nat}
    (hlimit : n ≤ ceil_units P limit_size + P.BlockCtrlUnits)
    (hpreferred : n ≤ ceil_units P preferred_size + P.BlockCtrlUnits)
    (hlt : alignof_object < 2 ^ 64)
    (hfits : P.Alignment < alignof_object → RequestFits P limit_size alignof_object)
    (allocate_new : Bool) (reuse_ptr received : Nat) :
    ∃ answer, allocate_if_new P h allocate_new limit_size preferred_size reuse_ptr alignof_object
        received = some answer ∧ Granted P live sized n answer.heap answer.ret ∧
      (alignof_object ≤ P.Alignment → answer.reuse_ptr = 0) := by
  unfold allocate_if_new
  split_ifs with hnew hover
  · obtain ⟨h', ptr, hanswer, hgranted⟩ := allocate_aligned_granted hholds hsized hlt hfits
    rw [hanswer]
    exact ⟨_, rfl, hgranted.mono hlimit, fun hle => absurd hover (Nat.not_lt.mpr hle)⟩
  · obtain ⟨h', ptr, received', hanswer, hgranted⟩ :=
      sequential_fit_granted hholds limit_size preferred_size hlimit hpreferred
    rw [hanswer]
    exact ⟨_, rfl, hgranted, fun _ => rfl⟩
  · exact ⟨_, rfl, Or.inl ⟨rfl, hholds⟩, fun _ => rfl⟩

/-- The block of a live buffer. -/
theorem Owned.exists_block {ptr : Nat} (howned : Owned P h blocks stale live sized)
    (hptr : ptr ∈ live) :
    ∃ L u R, blocks = L ++ ⟨u, true⟩ :: R ∧
      ptr = priv_get_user_buffer P (stop P.Alignment (first_block P h) L) := by
  obtain ⟨x, hx, rfl⟩ := List.mem_map.mp (howned.live_perm.mem_iff.mp hptr)
  obtain ⟨u, hu⟩ := (mem_useds _).mp hx
  obtain ⟨L, R, rfl, rfl⟩ := exists_of_mem_placed _ hu
  exact ⟨L, u, R, rfl, rfl⟩

/-- The same buffers in a heap with the same allocated blocks. -/
theorem Owned.holds_of_perm {allocated : Nat} {mem : Memory}
    (howned : Owned P h blocks stale live [])
    (hrep : Rep P { h with m_allocated := allocated, mem := mem } blocks' [])
    (hperm : (useds P.Alignment (first_block P h) blocks').Perm
      (useds P.Alignment (first_block P h) blocks)) :
    Holds P { h with m_allocated := allocated, mem := mem } live [] :=
  ⟨blocks', hrep, howned.live_perm.trans (hperm.map _).symm, fun _ _ hp => nomatch hp⟩

/-- What a command may answer: a new buffer or null, or the buffer to reuse. -/
def Answered (P : Traits) (live : List Nat) (reuse_ptr : Nat) (answer : Answer) : Prop :=
  (Granted P live [] 0 answer.heap answer.ret ∧ (answer.ret = 0 ∨ answer.reuse_ptr = 0)) ∨
    (reuse_ptr ≠ 0 ∧ answer.ret = reuse_ptr ∧ answer.reuse_ptr = reuse_ptr ∧
      Holds P answer.heap live [])

/-- The buffers held after a command: a fresh buffer comes with a null
    `reuse_ptr`. -/
theorem Answered.holds {reuse_ptr : Nat} {answer : Answer}
    (hanswered : Answered P live reuse_ptr answer) :
    Holds P answer.heap
      (if answer.ret ≠ 0 ∧ answer.reuse_ptr = 0 then answer.ret :: live else live) [] := by
  rcases hanswered with ⟨hgranted, hreuse⟩ | ⟨hne, _, hreuse, hholds⟩
  · have hholds := hgranted.holds
    by_cases hret : answer.ret = 0
    · rw [if_pos hret] at hholds
      rwa [if_neg fun hfresh => hfresh.1 hret]
    · rw [if_neg hret] at hholds
      rwa [if_pos ⟨hret, hreuse.resolve_left hret⟩]
  · rwa [if_neg fun hfresh => hne (hreuse ▸ hfresh.2)]

theorem shrink_holds (hholds : Holds P h live []) {ptr : Nat} (hptr : ptr ∈ live)
    (max_size preferred_size : Nat) :
    ∃ h' success received, shrink P h ptr max_size preferred_size = some (h', success, received) ∧
      Holds P h' live [] := by
  obtain ⟨blocks, howned⟩ := hholds
  obtain ⟨L, u, R, rfl, rfl⟩ := howned.exists_block hptr
  rcases shrink_spec howned.toRep (fun _ => List.not_mem_nil) max_size preferred_size with
    ⟨success, received, hanswer⟩ | ⟨allocated, mem, received, blocks, hanswer, hrep, _, _, hperm⟩
  · exact ⟨h, success, received, hanswer, _, howned⟩
  · exact ⟨_, true, received, hanswer, howned.holds_of_perm hrep hperm⟩

theorem priv_expand_holds (hholds : Holds P h live []) {ptr : Nat} (hptr : ptr ∈ live)
    (min_size preferred_size : Nat) :
    ∃ h' success received,
      priv_expand P h ptr min_size preferred_size = some (h', success, received) ∧
      Holds P h' live [] := by
  obtain ⟨blocks, howned⟩ := hholds
  obtain ⟨L, u, R, rfl, rfl⟩ := howned.exists_block hptr
  rcases priv_expand_spec howned.toRep min_size preferred_size with
    ⟨success, received, hanswer⟩ | ⟨allocated, mem, received, blocks, hanswer, hrep, hperm⟩
  · exact ⟨h, success, received, hanswer, _, howned⟩
  · exact ⟨_, true, received, hanswer, howned.holds_of_perm hrep hperm⟩

/-- Every command answers. -/
theorem priv_allocate_answered (hholds : Holds P h live []) (command : allocation_type)
    (limit_size preferred_size : Nat) {reuse_ptr : Nat} (hreuse : reuse_ptr ≠ 0 → reuse_ptr ∈ live) :
    ∃ answer, priv_allocate P h command limit_size preferred_size reuse_ptr P.Alignment =
        some answer ∧ Answered P live reuse_ptr answer := by
  have hnull : ∀ received reuse, Answered P live reuse_ptr ⟨h, 0, received, reuse⟩ :=
    fun _ _ => Or.inl ⟨Or.inl ⟨rfl, hholds⟩, Or.inl rfl⟩
  have hlt : P.Alignment < 2 ^ 64 := Nat.pow_lt_pow_right (by decide) P.alignment_lt
  have hnew : ∀ h' received, Holds P h' live [] → ∃ answer, allocate_if_new P h'
      command.allocate_new limit_size preferred_size reuse_ptr (max P.Alignment P.Alignment)
        received = some answer ∧ Answered P live reuse_ptr answer := by
    intro h' received hholds'
    rw [Nat.max_self]
    obtain ⟨answer, hanswer, hgranted, hreset⟩ := allocate_if_new_granted (n := 0) hholds'
      (fun _ _ hp => nomatch hp) (Nat.zero_le _) (Nat.zero_le _) hlt
      (fun hgt => absurd hgt (Nat.lt_irrefl _)) command.allocate_new reuse_ptr received
    exact ⟨answer, hanswer, Or.inl ⟨hgranted, Or.inr (hreset (Nat.le_refl _))⟩⟩
  unfold priv_allocate
  split_ifs with _ _ hzero _ hexpand
  · exact ⟨_, rfl, hnull _ _⟩
  · exact ⟨_, rfl, hnull _ _⟩
  · obtain ⟨h', success, received, hanswer, hholds'⟩ :=
      shrink_holds hholds (hreuse hzero) limit_size preferred_size
    rw [hanswer]
    refine ⟨_, rfl, ?_⟩
    cases success with
    | true => exact Or.inr ⟨hzero, rfl, rfl, hholds'⟩
    | false => exact Or.inl ⟨Or.inl ⟨rfl, hholds'⟩, Or.inl rfl⟩
  · exact ⟨_, rfl, hnull _ _⟩
  · obtain ⟨h', success, received, hanswer, hholds'⟩ :=
      priv_expand_holds hholds (hreuse hexpand.1) limit_size preferred_size
    rw [hanswer]
    cases success with
    | true => exact ⟨_, rfl, Or.inr ⟨hexpand.1, rfl, rfl, hholds'⟩⟩
    | false => exact hnew h' received hholds'
  · exact hnew h 0 hholds

theorem allocation_command_answered (hholds : Holds P h live []) (command : allocation_type)
    (limit_size preferred_size : Nat) {reuse_ptr : Nat} (hreuse : reuse_ptr ≠ 0 → reuse_ptr ∈ live)
    (sizeof_object : Nat) :
    ∃ answer, allocation_command P h command limit_size preferred_size reuse_ptr sizeof_object =
        some answer ∧ Answered P live reuse_ptr answer := by
  simp only [allocation_command]
  split_ifs
  · exact ⟨_, rfl, Or.inl ⟨Or.inl ⟨rfl, hholds⟩, Or.inl rfl⟩⟩
  · obtain ⟨answer, hanswer, hanswered⟩ := priv_allocate_answered hholds command
      (limit_size * sizeof_object) (preferred_size * sizeof_object) hreuse
    rw [hanswer]
    exact ⟨_, rfl, hanswered⟩

theorem allocate_granted (hholds : Holds P h live sized) (nbytes : Nat) :
    ∃ h' ptr, allocate P h nbytes = some (h', ptr) ∧
      Granted P live sized (ceil_units P nbytes + P.BlockCtrlUnits) h' ptr := by
  obtain ⟨h', ptr, received, hanswer, hgranted⟩ := priv_allocate_new_granted hholds nbytes nbytes
    (Nat.le_refl _) (Nat.le_refl _)
  refine ⟨h', ptr, ?_, hgranted⟩
  rw [allocate, hanswer]
  rfl

theorem priv_deallocate_holds (hholds : Holds P h live []) {ptr : Nat} (hptr : ptr ∈ live) :
    ∃ h', priv_deallocate P h ptr = some h' ∧ Holds P h' (live.erase ptr) [] := by
  obtain ⟨blocks, howned⟩ := hholds
  obtain ⟨L, u, R, rfl, rfl⟩ := howned.exists_block hptr
  obtain ⟨allocated, mem, blocks, hanswer, hrep, hreleased⟩ :=
    priv_deallocate_spec howned.toRep List.not_mem_nil
  refine ⟨_, hanswer, blocks, hrep, ?_, fun _ _ hp => nomatch hp⟩
  have hperm := howned.live_perm.trans (hreleased.useds_perm.map (priv_get_user_buffer P))
  have herase := hperm.erase (priv_get_user_buffer P (stop P.Alignment (first_block P h) L))
  rwa [List.map_cons, List.erase_cons_head] at herase

theorem deallocate_many_holds (hholds : Holds P h live []) {chain : List Nat}
    (hchain : chain.Subperm live) :
    ∃ h', deallocate_many P h chain = some h' ∧ Holds P h' (live.diff chain) [] := by
  induction chain generalizing h live with
  | nil => exact ⟨h, rfl, hholds⟩
  | cons ptr chain ih =>
    obtain ⟨h₁, hanswer, hholds₁⟩ :=
      priv_deallocate_holds hholds (hchain.subset List.mem_cons_self)
    have hrest := hchain.erase ptr
    rw [List.erase_cons_head] at hrest
    obtain ⟨h₂, hanswer₂, hholds₂⟩ := ih hholds₁ hrest
    refine ⟨h₂, ?_, ?_⟩
    · rw [deallocate_many, hanswer]
      exact hanswer₂
    · rw [List.diff_cons]
      exact hholds₂

end interprocess.ipcdetail.simple_seq_fit_impl
