import Interprocess.Base.Transition
import Interprocess.Streams.VectorSeeks

namespace interprocess.vectorbuf

open std streambuf Transition

variable {C I : Type} {M : Max}

section Resets

variable [Inhabited C] [DecidableEq I] {T : char_traits C I} {b : vectorbuf C M}
  {s : CharSequence C}

/-- The areas over the whole capacity. -/
theorem initialize_pointers_out (hout : b.m_mode.out = true) :
    b.initialize_pointers =
      { b with
        areas :=
          let areas := b.areas.setp b.m_vect.data (b.m_vect.data + b.m_vect.cells.length)
          let areas := if b.m_mode.in_ then
              areas.setg b.m_vect.data b.m_vect.data (b.m_vect.data + b.m_vect.size)
            else areas
          areas.pbump ((if b.m_mode.app || b.m_mode.ate then b.m_vect.size else 0 : Nat) : Int)
        m_vect := b.m_vect.resize_within b.m_vect.cells.length (Nat.le_refl _)
        mp_high_water := b.m_vect.data + b.m_vect.size } := by
  have hsize := b.m_vect.size_le
  have hpbump : ∀ areas : streambuf, areas.pbump 0 = areas := fun areas => by
    ext <;> simp [streambuf.pbump]
  have hdata := b.m_vect.data_eq_zero_iff
  have hpbump' : ∀ areas : streambuf, (if b.m_mode.app || b.m_mode.ate then
      pbump areas b.m_vect.size else areas) =
      areas.pbump ((if b.m_mode.app || b.m_mode.ate then b.m_vect.size else 0 : Nat) : Int) := by
    intro areas
    split
    · exact pbump_eq areas (Int.natCast_nonneg _)
    · exact (hpbump areas).symm
  simp only [initialize_pointers, hout, Bool.not_true, Bool.false_eq_true, if_false, if_true,
    size_resize_within, data_resize_within, hpbump']
  by_cases hempty : b.m_vect.cells.length = 0
  · have hzero : b.m_vect.size = 0 := by omega
    simp [hempty, hdata.mpr hempty, hzero]
  · simp [hempty]

/-- A vector that is taken over is read and written from its start, or written at its
    end. -/
theorem initialize_pointers_represents (hput : ¬ b.m_mode.out = true →
      b.areas.pbase = 0 ∧ b.areas.pptr = 0 ∧ b.areas.epptr = 0)
    (hget : b.m_mode.out = true → ¬ b.m_mode.in_ = true →
      b.areas.eback = 0 ∧ b.areas.gptr = 0 ∧ b.areas.egptr = 0) :
    Represents b.initialize_pointers (CharSequence.of_contents b.m_mode b.m_vect.contents) := by
  have hlength := contents_length b.m_vect
  by_cases hout : b.m_mode.out = true
  · rw [initialize_pointers_out hout]
    refine Writing.represents ⟨?_, ?_, ?_, ?_, ?_, ?_, ⟨b.m_vect.size, rfl, ?_⟩, ?_, ?_⟩ hout
    · by_cases hin : b.m_mode.in_ = true <;> simp [hin, setg, setp, streambuf.pbump]
    · by_cases hin : b.m_mode.in_ = true <;>
        simp [hin, setg, setp, streambuf.pbump, CharSequence.of_contents, hlength]
    · by_cases hin : b.m_mode.in_ = true <;> simp [hin, setg, setp, streambuf.pbump]
    · show b.m_vect.contents.length ≤ b.m_vect.cells.length
      rw [hlength]
      exact b.m_vect.size_le
    · show (if b.m_mode.app || b.m_mode.ate then _ else 0) ≤ b.m_vect.contents.length
      split
      · exact Nat.le_refl _
      · exact Nat.zero_le _
    · show List.take b.m_vect.contents.length
        (b.m_vect.resize_within b.m_vect.cells.length (Nat.le_refl _)).cells = b.m_vect.contents
      rw [hlength, take_resize_within (Nat.le_refl _), char_vector.contents]
    · show max b.m_vect.size (if b.m_mode.app || b.m_mode.ate then b.m_vect.contents.length else 0) =
        b.m_vect.contents.length
      split <;> omega
    · show if b.m_mode.in_ then _ else _
      by_cases hin : b.m_mode.in_ = true
      · rw [if_pos hin]
        refine ⟨?_, ?_, b.m_vect.size, ?_, Nat.zero_le _, Nat.le_of_eq hlength.symm⟩ <;>
          simp [hin, setg, setp, streambuf.pbump, CharSequence.of_contents]
      · rw [if_neg hin]
        simpa [hin, setp, streambuf.pbump] using hget hout hin
    · intro happ
      show (if b.m_mode.app || b.m_mode.ate then _ else 0) = b.m_vect.contents.length
      rw [if_pos (by simp [show b.m_mode.app = true from happ])]
  · have hareas : b.initialize_pointers = b.set_areas (b.areas.setg b.m_vect.front_address
        b.m_vect.front_address (b.m_vect.front_address + b.m_vect.size)) := by
      unfold initialize_pointers char_vector.front_address
      by_cases hsize : b.m_vect.size = 0
      · simp [hout, hsize, set_areas]
      · simp [hout, hsize, set_areas]
    rw [hareas]
    refine Reading.represents ⟨rfl, ?_, rfl, Nat.zero_le _, rfl, hput hout, fun _ => rfl⟩ hout
    show b.m_vect.front_address = b.m_vect.front_address + ((0 : Nat) : Int)
    omega

/-- The areas that a mode does not have stay null. -/
theorem Represents.initialize (hrep : Represents b s) (vect : char_vector C M) (high : Int) :
    Represents
      { b with
        m_vect := vect
        mp_high_water := high }.initialize_pointers
      (CharSequence.of_contents b.m_mode vect.contents) :=
  initialize_pointers_represents (fun hout => (hrep.reading hout).put_area)
    (fun hout hin => (hrep.writing hout).get_area_null hin)

theorem construct_represents (vect : char_vector C M) (mode : openmode) :
    Represents (construct vect mode) (CharSequence.of_contents mode vect.contents) :=
  initialize_pointers_represents (fun _ => ⟨rfl, rfl, rfl⟩) (fun _ _ => ⟨rfl, rfl, rfl⟩)

theorem Represents.clear (hrep : Represents b s) : Follows T b s .clear := by
  refine ⟨rfl, ?_⟩
  have hempty : b.m_vect.clear.contents = [] := List.take_zero
  have hinit := hrep.initialize b.m_vect.clear b.mp_high_water
  rw [hempty] at hinit
  exact hinit

/-- The characters of a vector that is cut behind them. -/
theorem Writing.cut_contents (hw : Writing b s) (hn : s.contents.length ≤ b.m_vect.cells.length) :
    (b.m_vect.resize_within s.contents.length hn).contents = s.contents := by
  rw [char_vector.contents, size_resize_within, take_resize_within hw.length_le, hw.contents_eq]

/-- Behind the high water mark nothing is lost. -/
theorem Writing.cut_vector (hw : Writing b s)
    (hhigh : b.mp_high_water = b.m_vect.data + s.contents.length) :
    Writing b.cut_vector s ∧ b.cut_vector.m_vect.contents = s.contents ∧
      b.cut_vector.m_mode = b.m_mode := by
  have hpbase := hw.pbase_eq
  have hpptr := hw.pptr_eq
  have hlength := hw.length_le
  have hn : s.contents.length ≤ b.m_vect.cells.length := Nat.le_trans hlength b.m_vect.size_le
  have hpos : (b.mp_high_water - b.areas.pbase).toNat = s.contents.length := by omega
  have hold : b.areas.pptr - b.areas.pbase = s.write := by omega
  unfold vectorbuf.cut_vector
  simp only [hpos, hold, pbump_eq _ (Int.natCast_nonneg s.write)]
  split
  · refine ⟨⟨hw.pbase_eq, ?_, ?_, Nat.le_refl _, hw.write_le, ?_, hw.high_water, hw.get_area,
      hw.at_end⟩, hw.cut_contents hn, rfl⟩
    · show b.areas.pbase + s.write = (b.m_vect.data : Int) + s.write
      rw [hpbase]
    · show b.areas.pbase + s.contents.length = (b.m_vect.data : Int) + s.contents.length
      rw [hpbase]
    · show List.take s.contents.length (b.m_vect.resize_within s.contents.length hn).cells = _
      rw [take_resize_within hlength, hw.contents_eq]
  · have hsize : b.m_vect.size = s.contents.length := by omega
    refine ⟨hw, ?_, rfl⟩
    rw [char_vector.contents, hsize, hw.contents_eq]

theorem Represents.vector (hrep : Represents b s) : Follows T b s .vector := by
  unfold Follows
  rw [call, CharSequence.call, vectorbuf.vector]
  by_cases hout : b.m_mode.out = true
  · have hw := hrep.writing hout
    obtain ⟨hcut, hcontents, hmode⟩ := hw.with_high_water.cut_vector rfl
    simp only [if_pos hout, hw.update_high_water_eq]
    refine ⟨?_, hcut.represents (by
      rw [hmode]
      exact hout)⟩
    show Result.vector (some (char_vector.contents _)) = Result.vector (some s.contents)
    rw [hcontents]
  · have hr := hrep.reading hout
    simp only [if_neg hout]
    refine ⟨?_, hrep⟩
    show Result.vector (some b.m_vect.contents) = Result.vector (some s.contents)
    rw [hr.contents_eq]

/-- The vector of a stream that writes has characters or no storage. A call of
    `vector()` on an empty stream leaves storage without a character. -/
def Swappable (b : vectorbuf C M) : Prop :=
  b.m_mode.out = true → b.m_vect.size = 0 → b.m_vect.capacity = 0

/-- Without a character `swap_vector` takes the address of the storage for a size. -/
theorem Represents.swap_vector_iff (hrep : Represents b s) (vect : char_vector C M)
    (A : Allocation) : Follows T b s (.swap_vector vect A) ↔ Swappable b := by
  unfold Follows Swappable
  rw [call, CharSequence.call, vectorbuf.swap_vector]
  by_cases hout : b.m_mode.out = true
  · have hw := hrep.writing hout
    have hlength := hw.length_le
    have hcapacity := b.m_vect.size_le
    have hdata := b.m_vect.data_eq_zero_iff
    simp only [hw.update_high_water_eq, hout, if_true, true_imp_iff]
    by_cases hgood : b.m_vect.size = 0 → b.m_vect.capacity = 0
    · have hsize : ((b.m_vect.data : Int) + s.contents.length - b.m_vect.front_address).toNat =
          s.contents.length := by
        unfold char_vector.capacity at hgood
        unfold char_vector.front_address
        split <;> omega
      have hn : s.contents.length ≤ b.m_vect.cells.length := Nat.le_trans hlength hcapacity
      rw [hsize, char_vector.resize, dif_pos hn]
      refine iff_of_true ⟨?_, hrep.initialize vect _⟩ hgood
      show Result.vector (some (b.m_vect.resize_within s.contents.length hn).contents) =
        Result.vector (some s.contents)
      rw [hw.cut_contents]
    · obtain ⟨hempty, hstorage⟩ := Classical.not_imp.mp hgood
      unfold char_vector.capacity at hstorage
      have hpos : b.m_vect.data ≠ 0 := mt hdata.mp hstorage
      have hsize : ((b.m_vect.data : Int) + s.contents.length - b.m_vect.front_address).toNat =
          b.m_vect.data := by
        rw [char_vector.front_address, if_neg (not_not.mpr hempty)]
        omega
      have hcontents : s.contents = [] := List.length_eq_zero_iff.mp (by omega)
      refine iff_of_false (fun hfollows => ?_) hgood
      rw [hsize] at hfollows
      cases hresize : b.m_vect.resize A b.m_vect.data with
      | none =>
        rw [hresize] at hfollows
        exact absurd hfollows.1 (by simp)
      | some old =>
        rw [hresize] at hfollows
        have hresult : old.contents = s.contents := by
          simpa using hfollows.1
        have hold : old.size = b.m_vect.data := by
          unfold char_vector.resize at hresize
          split at hresize
          · rw [← Option.some.inj hresize]
            rfl
          · split at hresize
            · rw [← Option.some.inj hresize]
              rfl
            · exact absurd hresize (by simp)
        have hlength' := contents_length old
        rw [hresult, hcontents, List.length_nil, hold] at hlength'
        exact hpos hlength'.symm
  · have hr := hrep.reading hout
    simp only [if_neg hout]
    refine iff_of_true ⟨?_, hrep.initialize vect _⟩ (fun h => absurd h hout)
    show Result.vector (some b.m_vect.contents) = Result.vector (some s.contents)
    rw [hr.contents_eq]

end Resets

section Runs

variable [Inhabited C] [DecidableEq I] {T : char_traits C I} {b : vectorbuf C M}
  {s : CharSequence C}

/-- A stream that is open neither for reading nor for writing has nothing to read. -/
def Readable (m_mode : openmode) (s : CharSequence C) : Prop :=
  m_mode.in_ = true ∨ m_mode.out = true ∨ s.contents = []

omit [Inhabited C] in
/-- A stream that is not readable has its first character in the get area. -/
theorem Represents.gptr_lt_of_not_readable (hrep : Represents b s)
    (hnot : ¬ Readable b.m_mode s) :
    ¬ b.m_mode.in_ = true ∧ b.areas.gptr < b.areas.egptr := by
  obtain ⟨hin, hrest⟩ := not_or.mp hnot
  obtain ⟨hout, hcontents⟩ := not_or.mp hrest
  have hr := hrep.reading hout
  have hgptr := hr.gptr_eq
  have hegptr := hr.egptr_eq
  have hread := hr.unread hin
  have hsize : 0 < b.m_vect.size := by
    rw [← hr.length_eq]
    exact List.length_pos_of_ne_nil hcontents
  exact ⟨hin, by omega⟩

theorem Represents.peek_iff (hrep : Represents b s) :
    Follows T b s .peek ↔ Readable b.m_mode s := by
  refine ⟨fun hfollows => ?_, hrep.peek⟩
  by_contra hnot
  obtain ⟨hin, hlt⟩ := hrep.gptr_lt_of_not_readable hnot
  unfold Follows at hfollows
  rw [call, sgetc,
    if_pos (show ((derived T default).areas b).gptr < ((derived T default).areas b).egptr from hlt),
    CharSequence.call, CharSequence.peek, if_neg fun h => hin h.1] at hfollows
  have hresult := hfollows.1
  simp only [Prod.map_snd, Function.comp_apply, Result.char.injEq, Option.some.injEq] at hresult
  exact T.to_int_type_ne_eof _ hresult

theorem Represents.get_iff (hrep : Represents b s) :
    Follows T b s .get ↔ Readable b.m_mode s := by
  refine ⟨fun hfollows => ?_, hrep.get⟩
  by_contra hnot
  obtain ⟨hin, hlt⟩ := hrep.gptr_lt_of_not_readable hnot
  unfold Follows at hfollows
  rw [call, sbumpc,
    if_pos (show ((derived T default).areas b).gptr < ((derived T default).areas b).egptr from hlt),
    CharSequence.call, CharSequence.get, if_neg fun h => hin h.1] at hfollows
  have hresult := hfollows.1
  simp only [Prod.map_snd, Function.comp_apply, Result.char.injEq, Option.some.injEq] at hresult
  exact T.to_int_type_ne_eof _ hresult

/-- When a call does what it does to the sequence. -/
def Followable (b : vectorbuf C M) (s : CharSequence C) : Call C M → Prop
  | .peek => Readable b.m_mode s
  | .get => Readable b.m_mode s
  | .swap_vector _ _ => Swappable b
  | _ => True

theorem Represents.follows_iff (hrep : Represents b s) (c : Call C M) :
    Follows T b s c ↔ Followable b s c := by
  cases c with
  | put c A => exact iff_of_true (hrep.put c A) trivial
  | peek => exact hrep.peek_iff
  | get => exact hrep.get_iff
  | put_back c => exact iff_of_true (hrep.put_back c) trivial
  | unget => exact iff_of_true hrep.unget trivial
  | seekoff off dir mode =>
    obtain ⟨hresult, hrep'⟩ := hrep.seek off dir mode
    exact iff_of_true ⟨congrArg Result.position hresult, hrep'⟩ trivial
  | seekpos pos mode =>
    obtain ⟨hresult, hrep'⟩ := hrep.seek pos .beg mode
    exact iff_of_true ⟨congrArg Result.position hresult, hrep'⟩ trivial
  | vector => exact iff_of_true hrep.vector trivial
  | swap_vector vect A => exact hrep.swap_vector_iff vect A
  | clear => exact iff_of_true hrep.clear trivial

/-- The stream buffer and the sequence take the same calls. -/
def step (T : char_traits C I) (state : vectorbuf C M × CharSequence C) (c : Call C M) :
    Option (vectorbuf C M × CharSequence C) :=
  some ((call T state.1 c).1, (state.2.call T state.1.m_mode c).1)

/-- In every run whose calls are followable the stream buffer represents the sequence,
    and a call in such a state returns what the sequence returns and represents it again
    exactly if it is followable. -/
theorem refines_char_sequence (vect : char_vector C M) (mode : openmode)
    (hrun : Reaches (step T) (fun state c => Followable state.1 state.2 c)
      (construct vect mode, CharSequence.of_contents mode vect.contents) (b, s)) :
    Represents b s ∧ ∀ c, Follows T b s c ↔ Followable b s c := by
  have hrep : Represents b s :=
    Reaches.invariant (P := fun state => Represents state.1 state.2) hrun
      (construct_represents vect mode)
      fun state c next hstate hfollowable hstep => by
        rw [← Option.some.inj hstep]
        exact ((hstate.follows_iff c).mpr hfollowable).2
  exact ⟨hrep, hrep.follows_iff⟩

end Runs

/-- A vector without storage, of at most 1000 bytes. -/
def no_bytes : char_vector UInt8 ⟨1000, by decide⟩ where
  data := 0
  cells := []
  size := 0
  size_le := Nat.le_refl 0
  capacity_le := Nat.zero_le _
  data_eq_zero_iff := by decide

theorem page_address_pos : 0 < 4096 := by decide

/-- One cell at the address 4096. -/
def one_page : Allocation :=
  ⟨4096, page_address_pos, 0⟩

/-- A character is written. -/
theorem refines_char_sequence_one_byte :
    let b := (call byte_traits (construct no_bytes in_out) (.put 65 one_page)).1
    let s := ((CharSequence.of_contents in_out no_bytes.contents).call byte_traits in_out
      (.put 65 one_page : Call UInt8 ⟨1000, by decide⟩)).1
    Represents b s ∧ ∀ c, Follows byte_traits b s c ↔ Followable b s c :=
  refines_char_sequence (T := byte_traits) no_bytes in_out
    (.tail (a := .put 65 one_page) .refl trivial rfl)

/-- After `vector()` on a stream that was cleared, `swap_vector` asks for a vector as
    large as an address. -/
theorem swap_vector_after_vector :
    ∃ b s, Reachable (step byte_traits)
      (construct no_bytes in_out, CharSequence.of_contents in_out no_bytes.contents) (b, s) ∧
      ¬ Follows byte_traits b s (.swap_vector no_bytes one_page) := by
  refine ⟨_, _, .tail (a := .vector) (.tail (a := .clear) (.tail (a := .put 65 one_page) .refl trivial rfl)
    trivial rfl) trivial rfl, fun hfollows => ?_⟩
  have hresult : (Result.vector none : Result UInt8 Int) = Result.vector (some []) := hfollows.1
  exact absurd hresult (by simp)

end interprocess.vectorbuf
