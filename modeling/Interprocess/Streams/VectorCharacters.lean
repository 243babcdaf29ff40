import Interprocess.Streams.VectorSequence

namespace interprocess.vectorbuf

open std streambuf

variable {C I : Type} {M : Max}

section Characters

variable [Inhabited C] [DecidableEq I] {T : char_traits C I} {b : vectorbuf C M}
  {s : CharSequence C}

/-- Where a get area ends. -/
theorem GetArea.stop_eq {first first' : Int} {stop stop' : Nat} (harea : GetArea b s first stop)
    (heback : b.areas.eback = first') (hegptr : b.areas.egptr = first' + stop') :
    stop = stop' := by
  have heback' := harea.eback_eq
  have hegptr' := harea.egptr_eq
  omega

omit [DecidableEq I] in
/-- The next character of an area that has all characters. -/
theorem GetArea.next_eq {first : Int} (harea : GetArea b s first s.contents.length)
    (hin : b.m_mode.in_ = true) :
    (if b.areas.gptr < b.areas.egptr then T.to_int_type (b.deref b.areas.gptr) else T.eof) =
      s.peek T b.m_mode := by
  have hgptr := harea.gptr_eq
  have hegptr := harea.egptr_eq
  rw [CharSequence.peek]
  by_cases hmore : s.read < s.contents.length
  · rw [if_pos (by omega), if_pos ⟨hin, hmore⟩, hgptr, harea.deref_eq s.read hmore]
  · rw [if_neg (by omega), if_neg fun h => hmore h.2]

omit [DecidableEq I] in
/-- Without characters there is nothing to read. -/
theorem peek_of_empty {m_mode : openmode} (hempty : s.contents = []) : s.peek T m_mode = T.eof := by
  rw [CharSequence.peek, if_neg fun h => by simp [hempty] at h]

/-- A null area has no characters. -/
theorem GetArea.contents_of_null {first : Int} {stop : Nat} (harea : GetArea b s first stop)
    (hnull : b.areas.gptr = 0) : s.contents = [] := by
  refine harea.empty ?_
  have hfirst := harea.first_nonneg
  have hgptr := harea.gptr_eq
  omega

omit [DecidableEq I] in
/-- `underflow` sees the characters that the get area did not have yet. -/
theorem Represents.underflow_spec (hrep : Represents b s)
    (hmode : b.m_mode.in_ = true ∨ b.m_mode.out = true ∨ s.contents = []) :
    ∃ b', underflow T b = (b', s.peek T b.m_mode) ∧ Represents b' s ∧ b'.m_mode = b.m_mode ∧
      (b.m_mode.in_ = true → s.read < s.contents.length →
        ∃ first, GetArea b' s first s.contents.length) := by
  unfold underflow
  by_cases hout : b.m_mode.out = true
  · have hw := hrep.writing hout
    by_cases hin : b.m_mode.in_ = true
    · obtain ⟨stop, harea⟩ := hw.get_area_in hin
      by_cases hnull : b.areas.gptr = 0
      · have hempty := harea.contents_of_null hnull
        refine ⟨b, ?_, hrep, rfl, fun _ hlt => by simp [hempty] at hlt⟩
        rw [if_pos hnull, peek_of_empty hempty]
      · have hsynced := hw.synced_eq
        rw [if_pos hin] at hsynced
        obtain ⟨stop', harea'⟩ := hw.synced.get_area_in hin
        obtain rfl : stop' = s.contents.length := harea'.stop_eq harea'.eback_eq (by
          show (if b.m_mode.in_ then _ else _) = _
          rw [if_pos hin]
          rfl)
        refine ⟨b.synced s.contents.length, ?_, hw.synced.represents hout, rfl, fun _ _ => ⟨_, harea'⟩⟩
        simp only [if_neg hnull, if_pos hout, hsynced]
        rw [harea'.next_eq hin]
        rfl
    · refine ⟨b, ?_, hrep, rfl, fun h => absurd h hin⟩
      rw [if_pos (hw.get_area_null hin).2.1, CharSequence.peek, if_neg fun h => hin h.1]
  · have hr := hrep.reading hout
    have harea := hr.get_area
    rw [← hr.length_eq] at harea
    refine ⟨b, ?_, hrep, rfl, fun _ _ => ⟨_, harea⟩⟩
    by_cases hnull : b.areas.gptr = 0
    · rw [if_pos hnull, peek_of_empty (harea.contents_of_null hnull)]
    · have hin : b.m_mode.in_ = true := by
        by_contra hin
        have hempty : s.contents = [] := (hmode.resolve_left hin).resolve_left hout
        have hsize : b.m_vect.size = 0 := by rw [← hr.length_eq, hempty, List.length_nil]
        have hgptr := hr.gptr_eq
        rw [char_vector.front_address, if_neg (not_not.mpr hsize), hr.unread hin] at hgptr
        exact hnull hgptr
      simp only [if_neg hnull, if_neg hout]
      rw [harea.next_eq hin]

omit [DecidableEq I] in
/-- The characters of the get area are read at once. -/
theorem GetArea.peek_eq {first : Int} {stop : Nat} (harea : GetArea b s first stop)
    (hin : b.m_mode.in_ = true) (hlt : b.areas.gptr < b.areas.egptr) :
    s.read < stop ∧ T.to_int_type (b.deref b.areas.gptr) = s.peek T b.m_mode := by
  have hgptr := harea.gptr_eq
  have hegptr := harea.egptr_eq
  have hle := harea.stop_le
  have hmore : s.read < s.contents.length := by omega
  refine ⟨by omega, ?_⟩
  rw [CharSequence.peek, if_pos ⟨hin, hmore⟩, hgptr, harea.deref_eq s.read hmore]

/-- The get area of a stream buffer that reads. -/
theorem Represents.get_area (hrep : Represents b s) (hin : b.m_mode.in_ = true) :
    ∃ first stop, GetArea b s first stop := by
  by_cases hout : b.m_mode.out = true
  · exact ⟨_, (hrep.writing hout).get_area_in hin⟩
  · exact ⟨_, _, (hrep.reading hout).get_area⟩

omit [Inhabited C] in
/-- Without reading there is no get area, or it is empty. -/
theorem Represents.gptr_lt_in (hrep : Represents b s)
    (hmode : b.m_mode.in_ = true ∨ b.m_mode.out = true ∨ s.contents = [])
    (hlt : b.areas.gptr < b.areas.egptr) : b.m_mode.in_ = true := by
  by_contra hin
  by_cases hout : b.m_mode.out = true
  · have hnull := (hrep.writing hout).get_area_null hin
    omega
  · have hr := hrep.reading hout
    have hempty : s.contents = [] := (hmode.resolve_left hin).resolve_left hout
    have hsize : b.m_vect.size = 0 := by rw [← hr.length_eq, hempty, List.length_nil]
    have hgptr := hr.gptr_eq
    have hegptr := hr.egptr_eq
    omega

theorem Represents.peek (hrep : Represents b s)
    (hmode : b.m_mode.in_ = true ∨ b.m_mode.out = true ∨ s.contents = []) :
    Follows T b s .peek := by
  unfold Follows
  rw [call, sgetc, CharSequence.call]
  by_cases hlt : b.areas.gptr < b.areas.egptr
  · have hin := hrep.gptr_lt_in hmode hlt
    obtain ⟨first, stop, harea⟩ := hrep.get_area hin
    rw [if_pos (show ((derived T default).areas b).gptr < ((derived T default).areas b).egptr from hlt),
      ← (harea.peek_eq hin hlt).2]
    exact ⟨rfl, hrep⟩
  · obtain ⟨b', hunderflow, hrep', _⟩ := hrep.underflow_spec (T := T) hmode
    rw [if_neg (show ¬ ((derived T default).areas b).gptr < ((derived T default).areas b).egptr from hlt),
      show (derived T default).underflow b = underflow T b from rfl, hunderflow]
    exact ⟨rfl, hrep'⟩

/-- Reading moves to the next character. -/
theorem Represents.move_next (hrep : Represents b s) (hin : b.m_mode.in_ = true) {first : Int}
    {stop : Nat} (harea : GetArea b s first stop) (hread : s.read < stop) :
    Represents (b.set_areas (b.areas.gbump 1)) { s with read := s.read + 1 } := by
  refine hrep.move_read hin harea hread ?_
  congr 1
  omega

theorem Represents.get (hrep : Represents b s)
    (hmode : b.m_mode.in_ = true ∨ b.m_mode.out = true ∨ s.contents = []) :
    Follows T b s .get := by
  unfold Follows
  rw [call, sbumpc, CharSequence.call, CharSequence.get]
  by_cases hlt : b.areas.gptr < b.areas.egptr
  · have hin := hrep.gptr_lt_in hmode hlt
    obtain ⟨first, stop, harea⟩ := hrep.get_area hin
    obtain ⟨hread, hpeek⟩ := harea.peek_eq (T := T) hin hlt
    have hmore : b.m_mode.in_ = true ∧ s.read < s.contents.length :=
      ⟨hin, Nat.lt_of_lt_of_le hread harea.stop_le⟩
    rw [CharSequence.peek, if_pos hmore] at hpeek
    rw [if_pos (show ((derived T default).areas b).gptr < ((derived T default).areas b).egptr from hlt),
      if_pos hmore, ← hpeek]
    exact ⟨rfl, hrep.move_next hin harea hread⟩
  · obtain ⟨b', hunderflow, hrep', hmode', harea'⟩ := hrep.underflow_spec (T := T) hmode
    rw [if_neg (show ¬ ((derived T default).areas b).gptr < ((derived T default).areas b).egptr from hlt),
      uflow, show (derived T default).underflow b = underflow T b from rfl, hunderflow]
    by_cases hmore : b.m_mode.in_ = true ∧ s.read < s.contents.length
    · obtain ⟨first, harea'⟩ := harea' hmore.1 hmore.2
      have hin' : b'.m_mode.in_ = true := hmode'.symm ▸ hmore.1
      have hpeek : s.peek T b.m_mode = T.to_int_type (s.char s.read) := if_pos hmore
      have hchar : b'.deref b'.areas.gptr = s.char s.read := by
        rw [harea'.gptr_eq, harea'.deref_eq s.read hmore.2]
      simp only [hpeek, if_neg (T.to_int_type_ne_eof _), if_pos hmore]
      refine ⟨?_, hrep'.move_next hin' harea' hmore.2⟩
      show Result.char (some (T.to_int_type (b'.deref b'.areas.gptr))) = _
      rw [hchar]
      rfl
    · have hpeek : s.peek T b.m_mode = T.eof := if_neg hmore
      simp only [hpeek, if_true, if_neg hmore]
      exact ⟨rfl, hrep'⟩

omit [Inhabited C] in
/-- There is a character to put back exactly if one was read. -/
theorem Represents.eback_lt_iff (hrep : Represents b s) :
    b.areas.eback ≤ b.areas.gptr ∧
      (b.areas.eback < b.areas.gptr ↔ b.m_mode.in_ = true ∧ 0 < s.read) := by
  by_cases hout : b.m_mode.out = true
  · have hw := hrep.writing hout
    have harea := hw.get_area
    by_cases hin : b.m_mode.in_ = true
    · rw [if_pos hin] at harea
      obtain ⟨heback, hgptr, _⟩ := harea
      simp only [hin, true_and]
      omega
    · rw [if_neg hin] at harea
      exact ⟨by omega, fun hlt => by omega, fun hmore => absurd hmore.1 hin⟩
  · have hr := hrep.reading hout
    have heback := hr.eback_eq
    have hgptr := hr.gptr_eq
    refine ⟨by omega, fun hlt => ⟨?_, by omega⟩, fun hmore => by omega⟩
    by_contra hin
    have hread := hr.unread hin
    omega

/-- The character before the position. -/
theorem Represents.previous (hrep : Represents b s) (hmore : b.m_mode.in_ = true ∧ 0 < s.read) :
    s.read - 1 < s.contents.length ∧ b.deref (b.areas.gptr - 1) = s.char (s.read - 1) ∧
      Represents (b.set_areas (b.areas.gbump (-1))) { s with read := s.read - 1 } := by
  obtain ⟨first, stop, harea⟩ := hrep.get_area hmore.1
  have hgptr := harea.gptr_eq
  have hread := harea.read_le
  have hstop := harea.stop_le
  have hposition : s.read - 1 < s.contents.length := by omega
  have hprev : b.areas.gptr - 1 = first + ((s.read - 1 : Nat) : Int) := by omega
  refine ⟨hposition, ?_, hrep.move_read hmore.1 harea (by omega) ?_⟩
  · rw [hprev, harea.deref_eq _ hposition]
  · congr 1
    omega

theorem Represents.unget (hrep : Represents b s) : Follows T b s .unget := by
  obtain ⟨hle, hiff⟩ := hrep.eback_lt_iff
  unfold Follows
  rw [call, sungetc_eq b.m_mode hle rfl, CharSequence.call, CharSequence.unget]
  by_cases hlt : b.areas.eback < b.areas.gptr
  · have hmore := hiff.mp hlt
    obtain ⟨_, hchar, hback⟩ := hrep.previous hmore
    rw [if_pos (show ((derived T default).areas b).eback < ((derived T default).areas b).gptr from hlt),
      if_pos hmore, ← hchar]
    exact ⟨rfl, hback⟩
  · rw [if_neg (show ¬ ((derived T default).areas b).eback < ((derived T default).areas b).gptr from hlt),
      if_neg (mt hiff.mpr hlt)]
    exact ⟨rfl, hrep⟩

omit [Inhabited C] in
/-- A character is replaced. -/
theorem Writing.store (hw : Writing b s) (position : Nat) (c : C) :
    Writing (b.store (b.m_vect.data + position) c)
      { s with contents := s.contents.set position c } := by
  have hindex : ((b.m_vect.data : Int) + position - b.m_vect.data).toNat = position := by omega
  have hlength : (s.contents.set position c).length = s.contents.length := List.length_set
  refine ⟨hw.pbase_eq, hw.pptr_eq, hw.epptr_eq, ?_, ?_, ?_, ?_, ?_, ?_⟩
  · show (s.contents.set position c).length ≤ _
    rw [hlength]
    exact hw.length_le
  · show s.write ≤ (s.contents.set position c).length
    rw [hlength]
    exact hw.write_le
  · show (b.m_vect.cells.set _ c).take (s.contents.set position c).length = s.contents.set position c
    rw [hindex, hlength, List.take_set, hw.contents_eq]
  · show ∃ high : Nat, _ ∧ max high s.write = (s.contents.set position c).length
    rw [hlength]
    exact hw.high_water
  · show if b.m_mode.in_ then _ ∧ _ ∧ ∃ stop : Nat, _ ∧ _ ∧ stop ≤ (s.contents.set position c).length
      else _
    rw [hlength]
    exact hw.get_area
  · show b.m_mode.app = true → s.write = (s.contents.set position c).length
    rw [hlength]
    exact hw.at_end

theorem Represents.put_back (hrep : Represents b s) (c : C) : Follows T b s (.put_back c) := by
  obtain ⟨hle, hiff⟩ := hrep.eback_lt_iff
  unfold Follows
  rw [call, sputbackc_eq b.m_mode c hle rfl, CharSequence.call, CharSequence.put_back]
  by_cases hlt : b.areas.eback < b.areas.gptr
  · have hmore := hiff.mp hlt
    obtain ⟨_, hchar, hback⟩ := hrep.previous hmore
    rw [if_pos (show ((derived T default).areas b).eback < ((derived T default).areas b).gptr from hlt),
      if_pos hmore, ← hchar]
    by_cases heq : T.eq c (b.deref (b.areas.gptr - 1)) = true
    · simp only [show (derived T default).deref = deref (C := C) (M := M) from rfl,
        show (derived T default).areas = areas (C := C) (M := M) from rfl, heq, if_true]
      exact ⟨rfl, hback⟩
    · simp only [show (derived T default).deref = deref (C := C) (M := M) from rfl,
        show (derived T default).areas = areas (C := C) (M := M) from rfl, if_neg heq]
      by_cases hout : b.m_mode.out = true
      · simp only [if_pos hout]
        refine ⟨rfl, Writing.represents ?_ hout⟩
        have hstored := (hback.writing hout).store (s.read - 1) c
        have hgptr : b.areas.gptr - 1 = b.m_vect.data + ((s.read - 1 : Nat) : Int) := by
          obtain ⟨stop, harea⟩ := (hrep.writing hout).get_area_in hmore.1
          have hgptr := harea.gptr_eq
          omega
        have hstored' : Writing ((b.set_areas (b.areas.gbump (-1))).store (b.areas.gptr - 1) c)
            { s with
              contents := s.contents.set (s.read - 1) c
              read := s.read - 1 } := by
          rw [hgptr]
          exact hstored
        exact hstored'
      · simp only [if_neg hout]
        exact ⟨rfl, hrep⟩
  · rw [if_neg (show ¬ ((derived T default).areas b).eback < ((derived T default).areas b).gptr from hlt),
      if_neg (mt hiff.mpr hlt)]
    exact ⟨rfl, hrep⟩

omit [Inhabited C] in
/-- A character inside the sequence is written over. -/
theorem Writing.overwrite (hw : Writing b s) (hlt : s.write < s.contents.length) (c : C) :
    Writing ((b.store b.areas.pptr c).set_areas (b.areas.pbump 1))
      { s with
        contents := s.contents.set s.write c
        write := s.write + 1 } := by
  have hstored := hw.store s.write c
  rw [← hw.pptr_eq] at hstored
  have hlength : (s.contents.set s.write c).length = s.contents.length := List.length_set
  refine ⟨hw.pbase_eq, ?_, hw.epptr_eq, hstored.length_le, ?_, hstored.contents_eq, ?_,
    hstored.get_area, ?_⟩
  · show b.areas.pptr + 1 = b.m_vect.data + ((s.write + 1 : Nat) : Int)
    have hpptr := hw.pptr_eq
    omega
  · show s.write + 1 ≤ (s.contents.set s.write c).length
    rwa [hlength]
  · obtain ⟨high, hhigh, hmax⟩ := hw.high_water
    refine ⟨high, hhigh, ?_⟩
    show max high (s.write + 1) = (s.contents.set s.write c).length
    omega
  · intro happ
    have hend := hw.at_end happ
    omega

omit [Inhabited C] in
/-- A character is appended in the room that the vector has. -/
theorem Writing.append (hw : Writing b s) (hend : s.write = s.contents.length)
    (hroom : s.contents.length < b.m_vect.size) (c : C) :
    Writing ((b.store b.areas.pptr c).set_areas (b.areas.pbump 1))
      { s with
        contents := s.contents ++ [c]
        write := s.write + 1 } := by
  have hpptr := hw.pptr_eq
  have hindex : (b.areas.pptr - b.m_vect.data).toNat = s.contents.length := by omega
  have hlength : (s.contents ++ [c]).length = s.contents.length + 1 := List.length_append
  refine ⟨hw.pbase_eq, ?_, hw.epptr_eq, ?_, ?_, ?_, ?_, ?_, ?_⟩
  · show b.areas.pptr + 1 = b.m_vect.data + ((s.write + 1 : Nat) : Int)
    omega
  · show (s.contents ++ [c]).length ≤ b.m_vect.size
    omega
  · show s.write + 1 ≤ (s.contents ++ [c]).length
    omega
  · show (b.m_vect.cells.set _ c).take (s.contents ++ [c]).length = s.contents ++ [c]
    rw [hindex, hlength, take_set_succ (Nat.lt_of_lt_of_le hroom b.m_vect.size_le), hw.contents_eq]
  · obtain ⟨high, hhigh, hmax⟩ := hw.high_water
    refine ⟨high, hhigh, ?_⟩
    show max high (s.write + 1) = (s.contents ++ [c]).length
    omega
  · have harea := hw.get_area
    show if b.m_mode.in_ then _ else _
    split at harea
    · rename_i hin
      obtain ⟨heback, hgptr, stop, hstop, hread, hle⟩ := harea
      rw [if_pos hin]
      refine ⟨heback, hgptr, stop, hstop, hread, ?_⟩
      show stop ≤ (s.contents ++ [c]).length
      omega
    · rename_i hin
      rw [if_neg hin]
      exact harea
  · intro _
    show s.write + 1 = (s.contents ++ [c]).length
    omega

/-- A character is appended to a vector that is full. -/
theorem Writing.overflow_areas (hw : Writing b s) (hend : s.write = s.contents.length)
    (hfull : s.contents.length = b.m_vect.size) {pushed : char_vector C M} {c : C}
    (hsize : pushed.size = b.m_vect.size + 1)
    (hcontents : pushed.contents = b.m_vect.contents ++ [c]) :
    Writing (b.overflow_areas pushed)
      { s with
        contents := s.contents ++ [c]
        write := s.write + 1 } := by
  have hlength : (s.contents ++ [c]).length = s.contents.length + 1 := List.length_append
  have hnew : b.areas.pptr - b.areas.pbase + 1 = ((s.write + 1 : Nat) : Int) := by
    have hpptr := hw.pptr_eq
    have hpbase := hw.pbase_eq
    omega
  have hhipos : max (b.mp_high_water - b.areas.pbase) ((s.write + 1 : Nat) : Int) =
      ((s.write + 1 : Nat) : Int) := by
    obtain ⟨high, hhigh, hmax⟩ := hw.high_water
    have hpbase := hw.pbase_eq
    omega
  have hvect : b.m_vect.contents = s.contents := by
    rw [char_vector.contents, ← hfull, hw.contents_eq]
  generalize hv : pushed.resize_within pushed.cells.length (Nat.le_refl _) = vect
  have hvsize : vect.size = pushed.cells.length := by
    rw [← hv]
    rfl
  have hvcells : vect.cells.take (s.contents.length + 1) = s.contents ++ [c] := by
    rw [← hv, hfull, ← hsize, take_resize_within (Nat.le_refl _), ← hvect]
    exact hcontents
  have hareas : b.overflow_areas pushed =
      { b with
        areas := (if b.m_mode.in_ then
            (b.areas.setp vect.data (vect.data + vect.size)).setg vect.data
              (vect.data + (b.areas.gptr - b.areas.eback))
              (vect.data + ((s.write + 1 : Nat) : Int))
          else b.areas.setp vect.data (vect.data + vect.size)).pbump ((s.write + 1 : Nat) : Int)
        m_vect := vect
        mp_high_water := vect.data + ((s.write + 1 : Nat) : Int) } := by
    simp only [vectorbuf.overflow_areas, hv, hnew, hhipos, pbump_eq _ (Int.natCast_nonneg _)]
    rfl
  have hbound := pushed.size_le
  rw [hareas]
  refine ⟨?_, ?_, ?_, ?_, ?_, ?_, ⟨s.write + 1, rfl, ?_⟩, ?_, ?_⟩
  · by_cases hin : b.m_mode.in_ = true <;> simp [hin, setg, setp, streambuf.pbump]
  · by_cases hin : b.m_mode.in_ = true <;> simp [hin, setg, setp, streambuf.pbump]
  · by_cases hin : b.m_mode.in_ = true <;> simp [hin, setg, setp, streambuf.pbump]
  · show (s.contents ++ [c]).length ≤ vect.size
    omega
  · show s.write + 1 ≤ (s.contents ++ [c]).length
    omega
  · show vect.cells.take (s.contents ++ [c]).length = s.contents ++ [c]
    rw [hlength, hvcells]
  · show max (s.write + 1) (s.write + 1) = (s.contents ++ [c]).length
    omega
  · have harea := hw.get_area
    by_cases hin : b.m_mode.in_ = true
    · simp only [hin, if_true] at harea ⊢
      obtain ⟨heback, hgptr, stop, _, hread, hle⟩ := harea
      refine ⟨rfl, ?_, s.write + 1, rfl, ?_, ?_⟩
      · show (vect.data : Int) + (b.areas.gptr - b.areas.eback) = vect.data + s.read
        omega
      · show s.read ≤ s.write + 1
        omega
      · show s.write + 1 ≤ (s.contents ++ [c]).length
        omega
    · simp only [hin] at harea ⊢
      exact harea
  · intro _
    show s.write + 1 = (s.contents ++ [c]).length
    omega

omit [Inhabited C] in
/-- With `app` the write position is the end already. -/
theorem Writing.write_position_eq (hw : Writing b s) :
    s.write_position b.m_mode = s.write := by
  unfold CharSequence.write_position
  split
  · rename_i happ
    exact (hw.at_end happ).symm
  · rfl

theorem Represents.put (hrep : Represents b s) (c : C) (A : Allocation) :
    Follows T b s (.put c A) := by
  unfold Follows
  rw [call, sputc, CharSequence.call, CharSequence.put]
  by_cases hout : b.m_mode.out = true
  · have hw := hrep.writing hout
    have hpptr := hw.pptr_eq
    have hepptr := hw.epptr_eq
    have hwrite := hw.write_le
    have hlength := hw.length_le
    simp only [hw.write_position_eq, if_pos hout]
    by_cases hroom : s.write < b.m_vect.size
    · rw [if_pos (show ((derived T A).areas b).pptr < ((derived T A).areas b).epptr by
        show b.areas.pptr < b.areas.epptr
        omega)]
      by_cases hlt : s.write < s.contents.length
      · rw [if_pos hlt]
        exact ⟨rfl, (hw.overwrite hlt c).represents hout⟩
      · have hmax : s.contents.length < M.val := by
          have hsize := b.m_vect.size_le
          have hcapacity := b.m_vect.capacity_le
          omega
        rw [if_neg hlt, if_pos hmax]
        exact ⟨rfl, (hw.append (by omega) (by omega) c).represents hout⟩
    · rw [if_neg (show ¬ ((derived T A).areas b).pptr < ((derived T A).areas b).epptr by
          show ¬ b.areas.pptr < b.areas.epptr
          omega), if_neg (show ¬ s.write < s.contents.length by omega),
        show (derived T A).overflow b (T.to_int_type c) = overflow T A b (T.to_int_type c) from rfl,
        overflow, if_pos hout, if_pos (T.to_int_type_ne_eof c), T.to_char_type_to_int_type]
      have hfull : s.contents.length = b.m_vect.size := by omega
      rcases push_back_spec A b.m_vect c with ⟨pushed, hpushed, hmax, hsize, hcontents⟩ | ⟨hnone, hmax⟩
      · rw [hpushed, if_pos (by omega)]
        exact ⟨rfl, (hw.overflow_areas (by omega) hfull hsize hcontents).represents hout⟩
      · rw [hnone, if_neg (by omega)]
        exact ⟨rfl, hrep⟩
  · have hr := hrep.reading hout
    have hnull := hr.put_area
    rw [if_neg (show ¬ ((derived T A).areas b).pptr < ((derived T A).areas b).epptr by
        show ¬ b.areas.pptr < b.areas.epptr
        omega),
      show (derived T A).overflow b (T.to_int_type c) = overflow T A b (T.to_int_type c) from rfl,
      overflow, if_neg hout]
    simp only [if_neg hout]
    exact ⟨rfl, hrep⟩

end Characters

end interprocess.vectorbuf
