import Interprocess.Streams.VectorCharacters

namespace interprocess.vectorbuf

open std streambuf

variable {C : Type} {M : Max}

section Seeks

variable {b : vectorbuf C M} {s : CharSequence C}

/-- The stream buffer when a seek looks at its end. -/
def prepared (b : vectorbuf C M) : vectorbuf C M :=
  if b.m_mode.out then
    if b.m_mode.in_ then b.update_high_water.update_egptr else b.update_high_water
  else b

/-- A seek sees all characters, and has not moved yet. -/
theorem Represents.prepared [Inhabited C] (hrep : Represents b s) :
    Represents b.prepared s ∧ b.prepared.m_mode = b.m_mode ∧
      (if b.m_mode.out then b.prepared.mp_high_water - b.prepared.areas.pbase
        else (b.prepared.m_vect.size : Int)) = s.contents.length ∧
      b.prepared.areas.eback = b.areas.eback ∧ b.prepared.areas.gptr = b.areas.gptr ∧
      b.prepared.areas.pbase = b.areas.pbase ∧ b.prepared.areas.pptr = b.areas.pptr ∧
      (b.m_mode.in_ = true → ∃ first, GetArea b.prepared s first s.contents.length) := by
  unfold vectorbuf.prepared
  by_cases hout : b.m_mode.out = true
  · have hw := hrep.writing hout
    simp only [if_pos hout, hw.synced_eq]
    refine ⟨hw.synced.represents hout, rfl, ?_, rfl, rfl, rfl, rfl, fun hin => ?_⟩
    · have hpbase := hw.pbase_eq
      show (b.m_vect.data : Int) + s.contents.length - b.areas.pbase = s.contents.length
      omega
    · obtain ⟨stop, harea⟩ := hw.synced.get_area_in hin
      obtain rfl : stop = s.contents.length := harea.stop_eq harea.eback_eq (by
        show (if b.m_mode.in_ then _ else _) = _
        rw [if_pos hin]
        rfl)
      exact ⟨_, harea⟩
  · have hr := hrep.reading hout
    simp only [if_neg hout, hr.length_eq]
    exact ⟨hrep, trivial, trivial, trivial, trivial, trivial, trivial, fun _ => ⟨_, hr.get_area⟩⟩

/-- The areas after a seek to the position `p`. -/
def sought (b : vectorbuf C M) (mode : openmode) (p : Nat) : vectorbuf C M :=
  b.set_areas
    { b.areas with
      gptr := if mode.in_ then b.areas.eback + p else b.areas.gptr
      pptr := if mode.out then b.areas.pbase + p else b.areas.pptr }

theorem seek_areas_eq (b : vectorbuf C M) (mode : openmode) {limit newoff : Int} :
    b.seek_areas mode limit newoff =
      if newoff < 0 ∨ limit < newoff ∨ b.m_mode.app = true ∧ mode.out = true ∧ newoff ≠ limit then
        (b, -1)
      else (b.sought mode newoff.toNat, newoff) := by
  unfold seek_areas
  by_cases hrange : newoff < 0 ∨ limit < newoff
  · rw [if_pos hrange, if_pos (by omega)]
  · rw [if_neg hrange]
    by_cases happ : b.m_mode.app = true ∧ mode.out = true ∧ newoff ≠ limit
    · rw [if_pos happ, if_pos (Or.inr (Or.inr happ))]
    · have hnat : (newoff.toNat : Int) = newoff := by omega
      have hgoes : ¬ (newoff < 0 ∨ limit < newoff ∨
          b.m_mode.app = true ∧ mode.out = true ∧ newoff ≠ limit) := by
        rintro (h | h | h)
        · exact hrange (Or.inl h)
        · exact hrange (Or.inr h)
        · exact happ h
      rw [if_neg happ, if_neg hgoes, sought, hnat]
      rcases mode with ⟨_ | _, _ | _, app, ate⟩ <;>
        simp [set_areas, setg, setp, pbump_eq _ (show 0 ≤ newoff by omega), streambuf.pbump]

/-- A seek inside the characters moves the positions. -/
theorem Represents.sought [Inhabited C] (hrep : Represents b s) {mode : openmode} {p : Nat}
    (hrequest : Requestable b.m_mode mode.in_ mode.out) (hle : p ≤ s.contents.length)
    (happ : b.m_mode.app = true → mode.out = true → p = s.contents.length)
    (hhigh : b.m_mode.out = true → b.mp_high_water - b.areas.pbase = s.contents.length)
    (harea : b.m_mode.in_ = true → ∃ first, GetArea b s first s.contents.length) :
    Represents (b.sought mode p)
      { s with
        read := if mode.in_ then p else s.read
        write := if mode.out then p else s.write } := by
  obtain ⟨_, hin, hout⟩ := hrequest
  by_cases hmode : b.m_mode.out = true
  · have hw := hrep.writing hmode
    refine Writing.represents ⟨hw.pbase_eq, ?_, hw.epptr_eq, hw.length_le, ?_, hw.contents_eq, ?_,
      ?_, ?_⟩ hmode
    · show (if mode.out then _ else _) = (b.m_vect.data : Int) + ((if mode.out then p else s.write : Nat) : Int)
      split
      · rw [hw.pbase_eq]
      · exact hw.pptr_eq
    · show (if mode.out then p else s.write) ≤ s.contents.length
      split
      · exact hle
      · exact hw.write_le
    · have hhigh' := hhigh hmode
      have hpbase := hw.pbase_eq
      have hwrite := hw.write_le
      refine ⟨s.contents.length, ?_, ?_⟩
      · show b.mp_high_water = (b.m_vect.data : Int) + s.contents.length
        omega
      · show max s.contents.length (if mode.out then p else s.write) = s.contents.length
        split <;> omega
    · show if b.m_mode.in_ then _ else _
      by_cases hin' : b.m_mode.in_ = true
      · obtain ⟨first, harea⟩ := harea hin'
        have hget := hw.get_area
        rw [if_pos hin'] at hget ⊢
        obtain rfl : (b.m_vect.data : Int) = first := hget.1.symm.trans harea.eback_eq
        refine ⟨hget.1, ?_, s.contents.length, harea.egptr_eq, ?_, Nat.le_refl _⟩
        · show (if mode.in_ then _ else _) = (b.m_vect.data : Int) + ((if mode.in_ then p else s.read : Nat) : Int)
          split
          · rw [hget.1]
          · exact hget.2.1
        · show (if mode.in_ then p else s.read) ≤ s.contents.length
          split
          · exact hle
          · exact harea.read_le
      · rw [if_neg hin']
        have hnull := hw.get_area_null hin'
        refine ⟨hnull.1, ?_, hnull.2.2⟩
        show (if mode.in_ then _ else _) = (0 : Int)
        rw [if_neg (mt hin hin')]
        exact hnull.2.1
    · intro happ'
      show (if mode.out then p else s.write) = s.contents.length
      split
      · rename_i hmode'
        exact happ happ' hmode'
      · exact hw.at_end happ'
  · have hr := hrep.reading hmode
    have hnull := hr.put_area
    have hlength := hr.length_eq
    refine Reading.represents ⟨hr.eback_eq, ?_, hr.egptr_eq, ?_, hr.contents_eq, ⟨hnull.1, ?_, hnull.2.2⟩,
      ?_⟩ hmode
    · show (if mode.in_ then _ else _) =
        b.m_vect.front_address + ((if mode.in_ then p else s.read : Nat) : Int)
      split
      · rw [hr.eback_eq]
      · exact hr.gptr_eq
    · show (if mode.in_ then p else s.read) ≤ b.m_vect.size
      split
      · omega
      · exact hr.read_le
    · show (if mode.out then _ else _) = (0 : Int)
      rw [if_neg (mt hout hmode)]
      exact hnull.2.1
    · intro hin'
      show (if mode.in_ then p else s.read) = 0
      rw [if_neg (mt hin hin')]
      exact hr.unread hin'

/-- A null area has no characters. -/
theorem Represents.contents_of_null [Inhabited C] (hrep : Represents b s) {in_ out : Bool}
    (hrequest : Requestable b.m_mode in_ out)
    (hnull : in_ = true ∧ b.areas.gptr = 0 ∨ out = true ∧ b.areas.pptr = 0) :
    s.contents = [] := by
  rcases hnull with ⟨h, hgptr⟩ | ⟨h, hpptr⟩
  · obtain ⟨first, stop, harea⟩ := hrep.get_area (hrequest.2.1 h)
    exact harea.contents_of_null hgptr
  · have hw := hrep.writing (hrequest.2.2 h)
    have hpptr' := hw.pptr_eq
    have hdata := b.m_vect.data_eq_zero_iff.mp (by omega)
    have hsize := b.m_vect.size_le
    have hlength := hw.length_le
    exact List.length_eq_zero_iff.mp (by omega)

theorem Represents.length_lt (hrep : Represents b s) : s.contents.length < 2 ^ 63 := by
  have hsize := b.m_vect.size_le
  have hcapacity := b.m_vect.capacity_le
  have hmax := M.property
  by_cases hout : b.m_mode.out = true
  · have hlength := (hrep.writing hout).length_le
    omega
  · have hlength := (hrep.reading hout).length_eq
    omega

/-- A seek from the position `origin`. -/
theorem Represents.seek_from [Inhabited C] (hrep : Represents b s) {mode : openmode}
    (hrequest : Requestable b.m_mode mode.in_ mode.out) (off : off_type) {dir : seekdir}
    {origin : Nat} (hdir : s.origin dir mode = some origin) (horigin : origin ≤ s.contents.length) :
    (b.prepared.seek_areas mode s.contents.length (off_add origin off.val)).2 =
        (s.seek b.m_mode off dir mode).2 ∧
      Represents (b.prepared.seek_areas mode s.contents.length (off_add origin off.val)).1
        (s.seek b.m_mode off dir mode).1 := by
  obtain ⟨hrep', hmode, hlimit, _, _, hpbase, _, harea⟩ := hrep.prepared
  have hlt := hrep.length_lt
  have hposition : 0 ≤ (origin : Int) ∧ (origin : Int) < 2 ^ 63 := by omega
  have hlimit' : (s.contents.length : Int) < 2 ^ 63 := by omega
  have houtside := off_add_outside off.property hposition hlimit'
  rw [off_add_comm] at houtside
  rw [seek_areas_eq, hmode, CharSequence.seek, CharSequence.landing, hdir, Option.bind_some]
  by_cases hrange : 0 ≤ origin + off.val ∧ origin + off.val ≤ s.contents.length
  · have hsum : off_add origin off.val = origin + off.val := by
      rw [off_add_comm, off_add_inside hrange.1 (by omega)]
    rw [hsum]
    by_cases happ : b.m_mode.app = true → mode.out = true → origin + off.val = s.contents.length
    · have hgoes : ¬ (origin + off.val < 0 ∨ (s.contents.length : Int) < origin + off.val ∨
          b.m_mode.app = true ∧ mode.out = true ∧ origin + off.val ≠ s.contents.length) := by
        rintro (h | h | ⟨h, h', hne⟩)
        · omega
        · omega
        · exact hne (happ h h')
      rw [if_neg hgoes, if_pos ⟨hrequest, hrange.1, hrange.2, happ⟩]
      refine ⟨(Int.toNat_of_nonneg hrange.1).symm, hrep'.sought ?_ (by omega) ?_ ?_ ?_⟩
      · rw [hmode]
        exact hrequest
      · rw [hmode]
        intro h h'
        have hend := happ h h'
        omega
      · rw [hmode]
        intro hout
        rw [if_pos hout] at hlimit
        exact hlimit
      · rw [hmode]
        exact harea
    · have hstays : b.m_mode.app = true ∧ mode.out = true ∧
          origin + off.val ≠ s.contents.length := by
        by_contra hnot
        refine happ fun h h' => ?_
        by_contra hne
        exact hnot ⟨h, h', hne⟩
      rw [if_pos (Or.inr (Or.inr hstays)), if_neg fun h => happ h.2.2.2]
      exact ⟨rfl, hrep'⟩
  · have hstays := houtside.mpr hrange
    rw [if_pos (hstays.imp_right Or.inl), if_neg fun h => hrange ⟨h.2.1, h.2.2.1⟩]
    exact ⟨rfl, hrep'⟩

/-- What `seekoff` does after its checks. -/
def seek_dir (b : vectorbuf C M) (off : Int) (dir : seekdir) (mode : openmode) :
    vectorbuf C M × Int :=
  let limit : Int := if b.m_mode.out then b.mp_high_water - b.areas.pbase else b.m_vect.size
  match dir with
  | .beg => b.seek_areas mode limit (off_add 0 off)
  | .end_ => b.seek_areas mode limit (off_add limit off)
  | .cur =>
    b.seek_areas mode limit (off_add
      (if mode.in_ then b.areas.gptr - b.areas.eback else b.areas.pptr - b.areas.pbase) off)
  | .unknown => (b, -1)

theorem seekoff_eq (b : vectorbuf C M) (off : Int) (dir : seekdir) (mode : openmode) :
    b.seekoff off dir mode =
      if !mode.in_ && !mode.out then (b, -1)
      else if mode.in_ && mode.out && dir == .cur then (b, -1)
      else if mode.in_ && (!b.m_mode.in_ || off != 0 && b.areas.gptr == 0) ||
          mode.out && (!b.m_mode.out || off != 0 && b.areas.pptr == 0) then (b, -1)
      else b.prepared.seek_dir off dir mode := by
  have hmode : b.update_high_water.m_mode = b.m_mode := by
    unfold update_high_water
    split <;> rfl
  simp only [seekoff, vectorbuf.prepared, hmode]
  rfl

/-- A seek of positions that the mode does not have is refused. -/
theorem seekoff_refused {off : Int} {dir : seekdir} {mode : openmode}
    (hrequest : ¬ Requestable b.m_mode mode.in_ mode.out) :
    b.seekoff off dir mode = (b, -1) := by
  rw [seekoff_eq]
  split
  · rfl
  · rename_i hsome
    split
    · rfl
    · rw [if_pos]
      by_contra hgoes
      refine hrequest ⟨?_, fun h => ?_, fun h => ?_⟩
      · rcases mode with ⟨_ | _, _ | _, app, ate⟩ <;> simp_all
      · by_contra hmode
        exact hgoes (by simp [h, hmode])
      · by_contra hmode
        exact hgoes (by simp [h, hmode])

theorem CharSequence.seek_refused {m_mode : openmode} {off : Int} {dir : seekdir} {mode : openmode}
    (hnone : s.landing m_mode off dir mode = none) : s.seek m_mode off dir mode = (s, -1) := by
  rw [CharSequence.seek, hnone]

theorem Represents.read_le [Inhabited C] (hrep : Represents b s) (hin : b.m_mode.in_ = true) :
    s.read ≤ s.contents.length := by
  obtain ⟨first, stop, harea⟩ := hrep.get_area hin
  exact Nat.le_trans harea.read_le harea.stop_le

/-- A seek starts inside the sequence. -/
theorem Represents.origin_le [Inhabited C] (hrep : Represents b s) {dir : seekdir}
    {mode : openmode} (hrequest : Requestable b.m_mode mode.in_ mode.out) {origin : Nat}
    (hdir : s.origin dir mode = some origin) : origin ≤ s.contents.length := by
  obtain ⟨hsome, hin, hout⟩ := hrequest
  cases dir with
  | beg =>
    rw [← Option.some.inj hdir]
    exact Nat.zero_le _
  | end_ =>
    rw [← Option.some.inj hdir]
  | cur =>
    rw [CharSequence.origin] at hdir
    split at hdir
    · exact absurd hdir (by simp)
    · rw [← Option.some.inj hdir]
      split
      · rename_i hmode
        exact hrep.read_le (hin hmode)
      · rename_i hmode
        exact (hrep.writing (hout (hsome.resolve_left hmode))).write_le
  | unknown => exact absurd hdir (by simp [CharSequence.origin])

/-- What a seek does after its checks. -/
theorem Represents.seek_dir [Inhabited C] (hrep : Represents b s) (off : off_type)
    {dir : seekdir} {mode : openmode} (hrequest : Requestable b.m_mode mode.in_ mode.out)
    (hcur : ¬ (mode.in_ && mode.out && dir == .cur) = true) :
    (b.prepared.seek_dir off dir mode).2 = (s.seek b.m_mode off dir mode).2 ∧
      Represents (b.prepared.seek_dir off dir mode).1 (s.seek b.m_mode off dir mode).1 := by
  obtain ⟨hrep', hmode, hlimit, heback, hgptr, hpbase, hpptr, _⟩ := hrep.prepared
  unfold vectorbuf.seek_dir
  rw [hmode, hlimit]
  cases dir with
  | beg => exact hrep.seek_from hrequest off rfl (Nat.zero_le _)
  | end_ => exact hrep.seek_from hrequest off rfl (Nat.le_refl _)
  | cur =>
    have hboth : ¬ (mode.in_ && mode.out) = true := by simpa using hcur
    have hdir : s.origin .cur mode = some (if mode.in_ then s.read else s.write) := if_neg hboth
    have hnewoff : (if mode.in_ then b.prepared.areas.gptr - b.prepared.areas.eback
        else b.prepared.areas.pptr - b.prepared.areas.pbase) =
        ((if mode.in_ then s.read else s.write : Nat) : Int) := by
      rw [heback, hgptr, hpbase, hpptr]
      split
      · rename_i hin
        obtain ⟨first, stop, harea⟩ := hrep.get_area (hrequest.2.1 hin)
        have hgptr' := harea.gptr_eq
        have heback' := harea.eback_eq
        omega
      · rename_i hin
        have hw := hrep.writing (hrequest.2.2 (hrequest.1.resolve_left hin))
        have hpptr' := hw.pptr_eq
        have hpbase' := hw.pbase_eq
        omega
    simp only [hnewoff]
    exact hrep.seek_from hrequest off hdir (hrep.origin_le hrequest hdir)
  | unknown =>
    rw [CharSequence.seek_refused rfl]
    exact ⟨rfl, hrep'⟩

/-- Every seek leads where the sequence's does. -/
theorem Represents.seek [Inhabited C] (hrep : Represents b s) (off : off_type) (dir : seekdir)
    (mode : openmode) :
    (b.seekoff off dir mode).2 = (s.seek b.m_mode off dir mode).2 ∧
      Represents (b.seekoff off dir mode).1 (s.seek b.m_mode off dir mode).1 := by
  by_cases hrequest : Requestable b.m_mode mode.in_ mode.out
  · have hsome : ¬ (!mode.in_ && !mode.out) = true := by
      rcases hrequest.1 with h | h <;> simp [h]
    rw [seekoff_eq, if_neg hsome]
    by_cases hcur : (mode.in_ && mode.out && dir == .cur) = true
    · have hnone : s.origin dir mode = none := by
        simp only [Bool.and_eq_true, beq_iff_eq] at hcur
        obtain ⟨⟨hin, hout⟩, rfl⟩ := hcur
        simp [CharSequence.origin, hin, hout]
      rw [if_pos hcur, CharSequence.seek_refused (by rw [CharSequence.landing, hnone]; rfl)]
      exact ⟨rfl, hrep⟩
    · rw [if_neg hcur]
      split
      · rename_i hrefused
        simp only [Bool.or_eq_true, Bool.and_eq_true, Bool.not_eq_true', bne_iff_ne,
          beq_iff_eq] at hrefused
        -- the mode has the positions, so an area is null
        have hnull : off.val ≠ 0 ∧ s.contents = [] := by
          rcases hrefused with ⟨h, hmode | ⟨hoff, hgptr⟩⟩ | ⟨h, hmode | ⟨hoff, hpptr⟩⟩
          · exact absurd (hrequest.2.1 h) (by simp [hmode])
          · exact ⟨hoff, hrep.contents_of_null hrequest (Or.inl ⟨h, hgptr⟩)⟩
          · exact absurd (hrequest.2.2 h) (by simp [hmode])
          · exact ⟨hoff, hrep.contents_of_null hrequest (Or.inr ⟨h, hpptr⟩)⟩
        rw [CharSequence.seek_refused]
        · exact ⟨rfl, hrep⟩
        · rw [CharSequence.landing]
          cases hdir : s.origin dir mode with
          | none => rfl
          | some origin =>
            have hle := hrep.origin_le hrequest hdir
            rw [hnull.2, List.length_nil] at hle
            rw [Option.bind_some, if_neg fun h => by
              have hlength := h.2.2.1
              rw [hnull.2, List.length_nil] at hlength
              have hoff := hnull.1
              have hnonneg := h.2.1
              omega]
      · exact hrep.seek_dir off hrequest hcur
  · rw [seekoff_refused hrequest, CharSequence.seek_refused]
    · exact ⟨rfl, hrep⟩
    · rw [CharSequence.landing]
      cases s.origin dir mode with
      | none => rfl
      | some origin => rw [Option.bind_some, if_neg fun h => hrequest h.1]

end Seeks

end interprocess.vectorbuf
