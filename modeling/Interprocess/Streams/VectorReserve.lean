import Interprocess.Streams.VectorRefinement

namespace interprocess.vectorbuf

open std streambuf Transition

variable {C I : Type} {M : Max}

section Calls

variable [Inhabited C] [DecidableEq I] (T : char_traits C I)

/-- A call, or `reserve` with the place of the storage that it may allocate. -/
inductive Event (C : Type) (M : Max) where
  | call (c : Call C M)
  | reserve (size : Nat) (A : Allocation)

/-- A `reserve` that throws leaves the stream buffer as it is. -/
def event_step (b : vectorbuf C M) : Event C M → vectorbuf C M
  | .call c => (call T b c).1
  | .reserve size A => (b.reserve A size).getD b

/-- What calls return one after the other. -/
def results (b : vectorbuf C M) : List (Call C M) → List (Result C I)
  | [] => []
  | c :: calls => (call T b c).2 :: results (call T b c).1 calls

def Exchanges : Call C M → Prop
  | .swap_vector _ _ => True
  | _ => False

/-- Nothing shows whether the first or the second stream buffer is used: calls return the
    same, among them `vector()` and reading, and the positions are the same. -/
structure SameStream (b b' : vectorbuf C M) : Prop where
  results_eq : ∀ calls : List (Call C M), (∀ c ∈ calls, ¬Exchanges c) →
    results T b' calls = results T b calls
  write_eq : b'.areas.pptr - b'.areas.pbase = b.areas.pptr - b.areas.pbase
  read_eq : b.m_mode.in_ = true →
    b'.areas.gptr - b'.areas.eback = b.areas.gptr - b.areas.eback

/-- `reserve` keeps the stream. -/
def Keeps (b : vectorbuf C M) : Event C M → Prop
  | .call _ => True
  | .reserve size A => SameStream T b ((b.reserve A size).getD b)

/-- Nothing is to be reserved or nothing can be; or the vector ends at the high water mark,
    and in the modes that start at the end it is empty. -/
def Reservable (b : vectorbuf C M) (size : Nat) : Prop :=
  size ≤ b.m_vect.size ∨ M.val < size ∨
    (b.update_high_water.mp_high_water - b.areas.pbase = b.m_vect.size ∧
      (b.m_mode.app = true ∨ b.m_mode.ate = true → b.m_vect.size = 0))

def Meets (b : vectorbuf C M) : Event C M → Prop
  | .call _ => True
  | .reserve size _ => Reservable b size

end Calls

section Sequences

variable [Inhabited C] [DecidableEq I] {T : char_traits C I} {b b' : vectorbuf C M}
  {s : CharSequence C}

omit [Inhabited C] in
theorem update_high_water_m_mode (b : vectorbuf C M) : b.update_high_water.m_mode = b.m_mode := by
  unfold update_high_water
  split <;> rfl

omit [Inhabited C] in
theorem update_egptr_m_mode (b : vectorbuf C M) : b.update_egptr.m_mode = b.m_mode := by
  unfold update_egptr
  split <;> rfl

theorem initialize_pointers_m_mode (b : vectorbuf C M) :
    b.initialize_pointers.m_mode = b.m_mode := by
  simp only [initialize_pointers, set_areas]
  split <;> split <;> first | rfl | (split <;> rfl)

theorem cut_vector_m_mode (b : vectorbuf C M) : b.cut_vector.m_mode = b.m_mode := by
  simp only [cut_vector]
  split <;> rfl

theorem overflow_m_mode (A : Allocation) (b : vectorbuf C M) (c : I) :
    (overflow T A b c).1.m_mode = b.m_mode := by
  simp only [overflow]
  split
  · split
    · split <;> rfl
    · rfl
  · rfl

omit [DecidableEq I] in
theorem underflow_m_mode (b : vectorbuf C M) : (underflow T b).1.m_mode = b.m_mode := by
  simp only [underflow]
  split
  · rfl
  · split
    · rw [update_egptr_m_mode, update_high_water_m_mode]
    · rfl

theorem pbackfail_m_mode (b : vectorbuf C M) (c : I) :
    (pbackfail T b c).1.m_mode = b.m_mode := by
  simp only [pbackfail, interprocess.pbackfail]
  repeat' split
  all_goals rfl

omit [Inhabited C] in
theorem seek_areas_m_mode (b : vectorbuf C M) (mode : openmode) (limit newoff : Int) :
    (b.seek_areas mode limit newoff).1.m_mode = b.m_mode := by
  simp only [seek_areas, set_areas]
  repeat' split
  all_goals rfl

omit [Inhabited C] in
theorem seekoff_m_mode (b : vectorbuf C M) (off : Int) (dir : seekdir) (mode : openmode) :
    (b.seekoff off dir mode).1.m_mode = b.m_mode := by
  have hsynced : (if b.m_mode.out then
      if b.update_high_water.m_mode.in_ then b.update_high_water.update_egptr
      else b.update_high_water
    else b).m_mode = b.m_mode := by
    split
    · split
      · rw [update_egptr_m_mode, update_high_water_m_mode]
      · rw [update_high_water_m_mode]
    · rfl
  unfold seekoff
  split
  · rfl
  split
  · rfl
  split
  · rfl
  cases dir with
  | unknown => exact hsynced
  | beg => exact (seek_areas_m_mode ..).trans hsynced
  | end_ => exact (seek_areas_m_mode ..).trans hsynced
  | cur => exact (seek_areas_m_mode ..).trans hsynced

theorem fixes_m_mode (A : Allocation) : Fixes (derived T A : Derived (vectorbuf C M) C I) m_mode where
  set_areas := fun _ _ => rfl
  store := fun _ _ _ => rfl
  underflow := underflow_m_mode
  pbackfail := pbackfail_m_mode
  overflow := overflow_m_mode A

/-- No call changes the mode. -/
theorem call_m_mode (b : vectorbuf C M) (c : Call C M) : (call T b c).1.m_mode = b.m_mode := by
  cases c with
  | put c A => exact (fixes_m_mode A).sputc b c
  | peek => exact (fixes_m_mode default).sgetc b
  | get => exact (fixes_m_mode default).sbumpc b
  | put_back c => exact (fixes_m_mode default).sputbackc b c
  | unget => exact (fixes_m_mode default).sungetc b
  | seekoff off dir mode => exact seekoff_m_mode b off dir mode
  | seekpos pos mode => exact seekoff_m_mode b pos .beg mode
  | vector =>
    simp only [call, vector, Prod.map_fst, id_eq]
    split
    · rw [cut_vector_m_mode, update_high_water_m_mode]
    · rfl
  | swap_vector vect A =>
    simp only [call]
    cases hswap : b.swap_vector A vect with
    | none => exact update_high_water_m_mode b
    | some result =>
      unfold swap_vector at hswap
      split at hswap
      · obtain ⟨old, -, rfl⟩ := Option.map_eq_some_iff.mp hswap
        exact (initialize_pointers_m_mode _).trans (update_high_water_m_mode b)
      · rw [← Option.some.inj hswap]
        exact initialize_pointers_m_mode _
  | clear => exact initialize_pointers_m_mode _

/-- The state of every run: a stream buffer that writes and holds some sequence. -/
def Holds (b : vectorbuf C M) : Prop :=
  b.m_mode.out = true ∧ ∃ s, Represents b s

/-- A stream buffer that writes follows the sequence in every call but `swap_vector`. -/
theorem Represents.follows (hrep : Represents b s) (hout : b.m_mode.out = true) {c : Call C M}
    (hc : ¬Exchanges c) : Follows T b s c := by
  apply (hrep.follows_iff c).mpr
  cases c with
  | peek => exact Or.inr (Or.inl hout)
  | get => exact Or.inr (Or.inl hout)
  | swap_vector vect A => exact absurd trivial hc
  | _ => trivial

/-- Stream buffers of one mode that hold one sequence return the same. -/
theorem results_eq_of_represents (hrep : Represents b s) (hrep' : Represents b' s)
    (hmode : b'.m_mode = b.m_mode) (hout : b.m_mode.out = true) {calls : List (Call C M)}
    (hcalls : ∀ c ∈ calls, ¬Exchanges c) : results T b' calls = results T b calls := by
  induction calls generalizing b b' s with
  | nil => rfl
  | cons c calls ih =>
    have hc := hcalls c List.mem_cons_self
    obtain ⟨hresult, hnext⟩ := hrep.follows (T := T) hout hc
    obtain ⟨hresult', hnext'⟩ := hrep'.follows (T := T) (hmode ▸ hout) hc
    rw [hmode] at hresult' hnext'
    have hmode' : (call T b' c).1.m_mode = (call T b c).1.m_mode := by
      rw [call_m_mode, call_m_mode, hmode]
    have hrest := ih hnext hnext' hmode' ((congrArg openmode.out (call_m_mode b c)).trans hout)
      (fun c hc => hcalls c (List.mem_cons_of_mem _ hc))
    rw [results, results, hresult, hresult', hrest]

theorem Holds.call (hholds : Holds b) (c : Call C M) : Holds (call T b c).1 := by
  obtain ⟨hout, s, hrep⟩ := hholds
  refine ⟨(congrArg openmode.out (call_m_mode b c)).trans hout, ?_⟩
  by_cases hc : Exchanges c
  · cases c with
    | swap_vector vect A =>
      simp only [vectorbuf.call]
      cases hswap : b.swap_vector A vect with
      | none =>
        refine ⟨s, ?_⟩
        have hw := hrep.writing hout
        show Represents b.update_high_water s
        rw [hw.update_high_water_eq]
        exact hw.with_high_water.represents hout
      | some result =>
        unfold swap_vector at hswap
        rw [if_pos hout] at hswap
        obtain ⟨old, -, rfl⟩ := Option.map_eq_some_iff.mp hswap
        refine ⟨CharSequence.of_contents b.m_mode vect.contents, ?_⟩
        have hw := hrep.writing hout
        show Represents { b.update_high_water with m_vect := vect }.initialize_pointers _
        rw [hw.update_high_water_eq]
        exact hrep.initialize vect _
    | _ => exact absurd hc id
  · exact ⟨_, (hrep.follows hout hc).2⟩

/-- What `reserve` of a vector does when it does not throw. -/
theorem reserve_spec (A : Allocation) (v : char_vector C M) {n : Nat} (hmax : n ≤ M.val) :
    ∃ w, v.reserve A n = some w ∧ n ≤ w.cells.length ∧ w.size = v.size ∧
      w.contents = v.contents := by
  unfold char_vector.reserve
  split
  · exact ⟨v, rfl, ‹_›, rfl, rfl⟩
  · have hsize := v.size_le
    refine ⟨_, rfl, ?_, rfl, ?_⟩
    · exact (v.reallocate A n (by omega) hmax).size_le
    · show ((v.contents ++ _).take _).take v.size = v.contents
      have hlength := contents_length v
      rw [List.take_take, Nat.min_eq_left (by omega), ← hlength, List.take_left']
      rfl

theorem reserve_none (A : Allocation) (v : char_vector C M) {n : Nat} (hmax : M.val < n) :
    v.reserve A n = none := by
  have hcapacity := v.capacity_le
  unfold char_vector.reserve
  rw [dif_neg (by omega), dif_neg (by omega)]

omit [Inhabited C] in
theorem Writing.read_pos_eq (hw : Writing b s) (hin : b.m_mode.in_ = true) :
    b.areas.gptr - b.areas.eback = (s.read : Int) := by
  have harea := hw.get_area
  rw [if_pos hin] at harea
  omega

omit [Inhabited C] in
theorem Writing.write_pos_eq (hw : Writing b s) :
    b.areas.pptr - b.areas.pbase = (s.write : Int) := by
  have hpptr := hw.pptr_eq
  have hpbase := hw.pbase_eq
  omega

/-- The stream buffer after a `reserve` that took effect. -/
theorem reserve_eq (hw : Writing b s) (hout : b.m_mode.out = true) {A : Allocation} {size : Nat}
    (hmore : b.m_vect.size < size) {w : char_vector C M} (hvect : b.m_vect.reserve A size = some w) :
    b.reserve A size = some
      { b with
        areas :=
          let areas := b.areas.setp w.data (w.data + w.cells.length)
          let areas := if b.m_mode.in_ then
              areas.setg w.data (w.data + (b.areas.gptr - b.areas.eback)) (w.data + w.size)
            else areas
          areas.pbump (((if b.m_mode.app || b.m_mode.ate then w.size else 0 : Nat) + s.write : Nat) :
            Int)
        m_vect := w.resize_within w.cells.length (Nat.le_refl _)
        mp_high_water := w.data + w.size } := by
  have hwrite := hw.write_pos_eq
  have hinit : ({ b with m_vect := w } : vectorbuf C M).initialize_pointers = _ :=
    initialize_pointers_out hout
  unfold vectorbuf.reserve
  rw [if_pos ⟨hout, hmore⟩, hvect]
  simp only [Option.map_some, hinit, hwrite, pbump_eq _ (Int.natCast_nonneg _), set_areas]
  by_cases hin : b.m_mode.in_ = true
  · simp only [if_pos hin, setg, setp, streambuf.pbump, Int.natCast_add, Int.add_assoc]
  · simp only [if_neg hin, setp, streambuf.pbump, Int.natCast_add, Int.add_assoc]

/-- Where the stream starts in the modes `app` and `ate`. -/
def start (b : vectorbuf C M) : Nat :=
  if b.m_mode.app || b.m_mode.ate then b.m_vect.size else 0

/-- A `reserve` that takes effect ends the stream at the end of the vector. -/
theorem Writing.reserve (hw : Writing b s) (hout : b.m_mode.out = true) (A : Allocation)
    {size : Nat} (hmore : b.m_vect.size < size) (hmax : size ≤ M.val) :
    ∃ b', b.reserve A size = some b' ∧ b'.m_mode = b.m_mode ∧
      b'.areas.pptr - b'.areas.pbase = (b.start + s.write : Nat) ∧
      (b.start = 0 → Writing b' { s with contents := b.m_vect.contents }) := by
  obtain ⟨w, hvect, hroom, hsize, hcontents⟩ := reserve_spec A b.m_vect hmax
  have hanswer := reserve_eq hw hout hmore hvect
  have hlength := contents_length b.m_vect
  have hwrite := Nat.le_trans hw.write_le hw.length_le
  refine ⟨_, hanswer, rfl, ?_, ?_⟩
  · simp only [start, hsize]
    by_cases hin : b.m_mode.in_ = true
    · simp only [if_pos hin, setg, setp, streambuf.pbump]
      omega
    · simp only [if_neg hin, setp, streambuf.pbump]
      omega
  · intro hstart
    have hstart' : (if b.m_mode.app || b.m_mode.ate then w.size else 0) = 0 := by
      rw [hsize]
      exact hstart
    simp only [hstart', Nat.zero_add]
    refine ⟨?_, ?_, ?_, ?_, ?_, ?_, ⟨w.size, rfl, ?_⟩, ?_, ?_⟩
    · by_cases hin : b.m_mode.in_ = true <;> simp [hin, setg, setp, streambuf.pbump]
    · by_cases hin : b.m_mode.in_ = true <;> simp [hin, setg, setp, streambuf.pbump]
    · by_cases hin : b.m_mode.in_ = true <;> simp [hin, setg, setp, streambuf.pbump]
    · show b.m_vect.contents.length ≤ w.cells.length
      omega
    · show s.write ≤ b.m_vect.contents.length
      omega
    · show List.take b.m_vect.contents.length
        (w.resize_within w.cells.length (Nat.le_refl _)).cells = b.m_vect.contents
      rw [take_resize_within (by omega), ← hcontents, contents_length, char_vector.contents]
    · show max w.size s.write = b.m_vect.contents.length
      omega
    · have harea := hw.get_area
      show if b.m_mode.in_ then _ else _
      by_cases hin : b.m_mode.in_ = true
      · rw [if_pos hin] at harea ⊢
        obtain ⟨-, -, stop, -, hread, hstop⟩ := harea
        have hread' : s.read ≤ w.size := by
          have hle := hw.length_le
          omega
        refine ⟨?_, ?_, w.size, ?_, hread', ?_⟩
        · simp [hin, setg, setp, streambuf.pbump]
        · simp [hin, setg, setp, streambuf.pbump, hw.read_pos_eq hin]
        · simp [hin, setg, setp, streambuf.pbump]
        · show w.size ≤ b.m_vect.contents.length
          omega
      · rw [if_neg hin] at harea ⊢
        simpa [hin, setp, streambuf.pbump] using harea
    · intro happ
      have hzero : b.m_vect.size = 0 := by
        have happ' : b.m_mode.app = true := happ
        simpa [start, happ'] using hstart
      show s.write = b.m_vect.contents.length
      omega

omit [Inhabited C] in
theorem start_eq_zero_iff :
    b.start = 0 ↔ (b.m_mode.app = true ∨ b.m_mode.ate = true → b.m_vect.size = 0) := by
  unfold start
  split
  · simp_all
  · simp_all

/-- A `reserve` without an effect. -/
theorem reserve_getD_of_not (A : Allocation) {size : Nat}
    (hnot : size ≤ b.m_vect.size ∨ M.val < size) : (b.reserve A size).getD b = b := by
  unfold vectorbuf.reserve
  split
  · rename_i hmore
    have hmax : M.val < size := by
      omega
    rw [reserve_none A b.m_vect hmax]
    rfl
  · rfl

theorem SameStream.refl (b : vectorbuf C M) : SameStream T b b :=
  ⟨fun _ _ => rfl, rfl, fun _ => rfl⟩

/-- Stream buffers that hold the same sequence show the same stream. -/
theorem sameStream_of_writing (hw : Writing b s) (hw' : Writing b' s) (hmode : b'.m_mode = b.m_mode)
    (hout : b.m_mode.out = true) : SameStream T b b' where
  results_eq := by
    intro calls hcalls
    have hout' : b'.m_mode.out = true := hmode ▸ hout
    exact results_eq_of_represents (hw.represents hout) (hw'.represents hout') hmode hout hcalls
  write_eq := by rw [hw.write_pos_eq, hw'.write_pos_eq]
  read_eq := by
    intro hin
    rw [hw.read_pos_eq hin, hw'.read_pos_eq (hmode ▸ hin)]

omit [Inhabited C] in
/-- The high water mark that follows the put area is at the end of the characters. -/
theorem Writing.high_water_eq_iff (hw : Writing b s) :
    b.update_high_water.mp_high_water - b.areas.pbase = b.m_vect.size ↔
      s.contents.length = b.m_vect.size := by
  have hpbase := hw.pbase_eq
  rw [hw.update_high_water_eq]
  show (b.m_vect.data : Int) + s.contents.length - b.areas.pbase = b.m_vect.size ↔ _
  omega

/-- `vector()` returns the characters. -/
theorem Represents.vector_result (hrep : Represents b s) (hout : b.m_mode.out = true) :
    results T b [.vector] = [.vector (some s.contents)] := by
  have hresult := (hrep.follows (T := T) (c := .vector) hout id).1
  rw [results, results, hresult]
  rfl

/-- `reserve` keeps the stream exactly when the condition holds. -/
theorem Writing.keeps_iff (hw : Writing b s) (hout : b.m_mode.out = true) (A : Allocation)
    (size : Nat) : SameStream T b ((b.reserve A size).getD b) ↔ Reservable b size := by
  by_cases hnot : size ≤ b.m_vect.size ∨ M.val < size
  · rw [reserve_getD_of_not A hnot]
    refine iff_of_true (SameStream.refl b) ?_
    exact hnot.imp_right Or.inl
  · obtain ⟨hmore, hmax⟩ := not_or.mp hnot
    obtain ⟨b', hanswer, hmode, hwrite, hnext⟩ :=
      hw.reserve hout A (Nat.lt_of_not_le hmore) (Nat.le_of_not_lt hmax)
    have hcondition : Reservable b size ↔ s.contents.length = b.m_vect.size ∧ b.start = 0 := by
      unfold Reservable
      rw [hw.high_water_eq_iff, start_eq_zero_iff]
      tauto
    rw [hanswer, Option.getD_some, hcondition]
    constructor
    · intro hsame
      have hpositions := hsame.write_eq
      rw [hwrite, hw.write_pos_eq] at hpositions
      have hstart : b.start = 0 := by
        omega
      refine ⟨?_, hstart⟩
      have hrep' := (hnext hstart).represents (hmode ▸ hout)
      have hresults := hsame.results_eq [.vector] (by simp [Exchanges])
      rw [hrep'.vector_result (hmode ▸ hout), (hw.represents hout).vector_result hout] at hresults
      simp only [List.cons.injEq, Result.vector.injEq, Option.some.injEq, and_true] at hresults
      rw [← hresults, contents_length]
    · rintro ⟨hlength, hstart⟩
      have hcontents : b.m_vect.contents = s.contents := by
        rw [char_vector.contents, ← hlength, hw.contents_eq]
      have hw' := hnext hstart
      rw [hcontents] at hw'
      exact sameStream_of_writing hw hw' hmode hout

theorem Holds.keeps_iff (hholds : Holds b) (event : Event C M) : Keeps T b event ↔ Meets b event := by
  obtain ⟨hout, s, hrep⟩ := hholds
  cases event with
  | call c => exact Iff.rfl
  | reserve size A => exact (hrep.writing hout).keeps_iff hout A size

theorem Holds.event_step (hholds : Holds b) {event : Event C M} (hmeets : Meets b event) :
    Holds (event_step T b event) := by
  cases event with
  | call c => exact hholds.call c
  | reserve size A =>
    obtain ⟨hout, s, hrep⟩ := hholds
    have hw := hrep.writing hout
    show Holds ((b.reserve A size).getD b)
    by_cases hnot : size ≤ b.m_vect.size ∨ M.val < size
    · rw [reserve_getD_of_not A hnot]
      exact ⟨hout, s, hrep⟩
    · obtain ⟨hmore, hmax⟩ := not_or.mp hnot
      obtain ⟨b', hanswer, hmode, -, hnext⟩ :=
        hw.reserve hout A (Nat.lt_of_not_le hmore) (Nat.le_of_not_lt hmax)
      have hend := (hmeets.resolve_left hmore).resolve_left hmax
      have hstart := start_eq_zero_iff.mpr hend.2
      rw [hanswer, Option.getD_some]
      exact ⟨hmode ▸ hout, _, (hnext hstart).represents (hmode ▸ hout)⟩

/-- A run of calls in which every `reserve` keeps the stream is one in which every
    `reserve` that takes effect finds the high water mark at the end of the vector, and
    an empty vector in the modes `app` and `ate`. -/
theorem reserve_keeps_the_stream_iff (vect : char_vector C M) (mode : openmode)
    (hout : mode.out = true) (events : List (Event C M)) :
    Along (event_step T) (Keeps T) (construct vect mode) events ↔
      Along (event_step T) Meets (construct vect mode) events := by
  have hstart : Holds (construct vect mode) := by
    refine ⟨?_, _, construct_represents vect mode⟩
    exact (congrArg openmode.out (initialize_pointers_m_mode _)).trans hout
  exact along_iff (fun b event hholds _ => hholds.keeps_iff event)
    (fun b event hholds _ hmeets => hholds.event_step hmeets) hstart
    (along_of_forall (fun _ _ => trivial) _ events)

end Sequences

/-- Eight cells at the address 4096. -/
def eight_cells : Allocation :=
  ⟨4096, page_address_pos, 7⟩

/-- A character is written, the vector is cut behind it and memory is reserved. -/
theorem reserve_keeps_one_byte :
    Along (event_step byte_traits) (Keeps byte_traits) (construct no_bytes in_out)
      [.call (.put 65 eight_cells), .call .vector, .reserve 100 one_page] := by
  refine (reserve_keeps_the_stream_iff no_bytes in_out rfl _).mpr
    ⟨trivial, trivial, Or.inr (Or.inr ⟨by decide, ?_⟩), trivial⟩
  rintro (happ | hate)
  · cases happ
  · cases hate

theorem thousand_lt : 1000 < 2 ^ 63 := by decide

/-- A vector with one byte. -/
def one_byte : char_vector UInt8 ⟨1000, thousand_lt⟩ where
  data := 4096
  cells := [65]
  size := 1
  size_le := Nat.le_refl 1
  capacity_le := by decide
  data_eq_zero_iff := by decide

/-- `reserve` after a character was written into eight cells lengthens the stream to
    eight characters, and in the mode `ate` it moves the write position. -/
theorem reserve_changes_the_stream :
    (¬Along (event_step byte_traits) (Keeps byte_traits) (construct no_bytes in_out)
      [.call (.put 65 eight_cells), .reserve 100 one_page]) ∧
    ¬Along (event_step byte_traits) (Keeps byte_traits)
      (construct one_byte ⟨true, true, false, true⟩) [.reserve 100 one_page] := by
  constructor
  · rintro ⟨-, hkeeps, -⟩
    have hresults := hkeeps.results_eq [.vector] (by simp [Exchanges])
    have hlengths := congrArg (List.map fun result : Result UInt8 Int =>
      match result with
      | .vector contents => (contents.getD []).length
      | _ => 0) hresults
    revert hlengths
    decide
  · rintro ⟨hkeeps, -⟩
    have hposition := hkeeps.write_eq
    revert hposition
    decide

end interprocess.vectorbuf
