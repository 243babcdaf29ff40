import Interprocess.Streams.Operations

namespace interprocess.vectorbuf

open std streambuf

/-- A call of a public function, with the place of the storage that it may allocate. -/
inductive Call (C : Type) (M : Max) where
  | put (c : C) (A : Allocation)
  | peek
  | get
  | put_back (c : C)
  | unget
  | seekoff (off : off_type) (dir : seekdir) (mode : openmode)
  | seekpos (pos : off_type) (mode : openmode)
  | vector
  | swap_vector (vect : char_vector C M) (A : Allocation)
  | clear

/-- What a call returns. A character or a vector that is none is an exception. -/
inductive Result (C I : Type) where
  | char (c : Option I)
  | position (p : Int)
  | vector (contents : Option (List C))
  | done

section Calls

variable {C I : Type} {M : Max} [Inhabited C] [DecidableEq I] (T : char_traits C I)

/-- Only `overflow` looks at the allocation. -/
def call (b : vectorbuf C M) : Call C M → vectorbuf C M × Result C I
  | .put c A => (sputc (derived T A) T b c).map id .char
  | .peek => (sgetc (derived T default) T b).map id (.char ∘ some)
  | .get => (sbumpc (derived T default) T b).map id (.char ∘ some)
  | .put_back c => (sputbackc (derived T default) T b c).map id (.char ∘ some)
  | .unget => (sungetc (derived T default) T b).map id (.char ∘ some)
  | .seekoff off dir mode => (b.seekoff off dir mode).map id .position
  | .seekpos pos mode => (b.seekpos pos mode).map id .position
  | .vector => b.vector.map id (.vector ∘ some ∘ char_vector.contents)
  | .swap_vector vect A =>
    match b.swap_vector A vect with
    | some (b', old) => (b', .vector (some old.contents))
    | none => (b.update_high_water, .vector none)
  | .clear => (b.clear, .done)

end Calls

/-- A sequence of characters with a position for reading and one for writing. -/
structure CharSequence (C : Type) where
  contents : List C
  read : Nat
  write : Nat

namespace CharSequence

variable {C I : Type} {M : Max} [Inhabited C] (T : char_traits C I) (m_mode : openmode)

/-- The sequence that a vector becomes. -/
def of_contents (contents : List C) : CharSequence C :=
  ⟨contents, 0, if m_mode.app || m_mode.ate then contents.length else 0⟩

/-- Where the next character is written. -/
def write_position (s : CharSequence C) : Nat :=
  if m_mode.app then s.contents.length else s.write

/-- Writing at the end appends, as long as a vector can grow. -/
def put (M : Max) (s : CharSequence C) (c : C) : CharSequence C × Option I :=
  let position := s.write_position m_mode
  if m_mode.out then
    if position < s.contents.length then
      ({ s with
          contents := s.contents.set position c
          write := position + 1 }, some (T.to_int_type c))
    else if s.contents.length < M.val then
      ({ s with
          contents := s.contents ++ [c]
          write := position + 1 }, some (T.to_int_type c))
    else (s, none)
  else (s, some T.eof)

def char (s : CharSequence C) (position : Nat) : C :=
  s.contents.getD position default

def peek (s : CharSequence C) : I :=
  if m_mode.in_ ∧ s.read < s.contents.length then T.to_int_type (s.char s.read) else T.eof

def get (s : CharSequence C) : CharSequence C × I :=
  if m_mode.in_ ∧ s.read < s.contents.length then
    ({ s with read := s.read + 1 }, T.to_int_type (s.char s.read))
  else (s, T.eof)

/-- A character that differs from the one read is written in its place if the mode
    allows it. -/
def put_back (s : CharSequence C) (c : C) : CharSequence C × I :=
  if m_mode.in_ ∧ 0 < s.read then
    if T.eq c (s.char (s.read - 1)) then
      ({ s with read := s.read - 1 }, T.to_int_type (s.char (s.read - 1)))
    else if m_mode.out then
      ({ s with
          contents := s.contents.set (s.read - 1) c
          read := s.read - 1 }, T.to_int_type c)
    else (s, T.eof)
  else (s, T.eof)

def unget (s : CharSequence C) : CharSequence C × I :=
  if m_mode.in_ ∧ 0 < s.read then
    ({ s with read := s.read - 1 }, T.to_int_type (s.char (s.read - 1)))
  else (s, T.eof)

/-- Where a seek starts. Both positions are sought only from an end. -/
def origin (s : CharSequence C) : seekdir → openmode → Option Nat
  | .beg, _ => some 0
  | .end_, _ => some s.contents.length
  | .cur, mode =>
    if mode.in_ && mode.out then none else some (if mode.in_ then s.read else s.write)
  | .unknown, _ => none

/-- Where a seek leads, if it stays inside the sequence. With `app` the write position
    stays at the end. -/
def landing (s : CharSequence C) (off : Int) (dir : seekdir) (mode : openmode) : Option Nat :=
  (s.origin dir mode).bind fun origin =>
    if Requestable m_mode mode.in_ mode.out ∧ 0 ≤ origin + off ∧
        origin + off ≤ s.contents.length ∧
        (m_mode.app = true → mode.out = true → origin + off = s.contents.length) then
      some (origin + off).toNat
    else none

def seek (s : CharSequence C) (off : Int) (dir : seekdir) (mode : openmode) :
    CharSequence C × Int :=
  match s.landing m_mode off dir mode with
  | none => (s, -1)
  | some p =>
    ({ s with
        read := if mode.in_ then p else s.read
        write := if mode.out then p else s.write }, p)

def call (s : CharSequence C) : Call C M → CharSequence C × Result C I
  | .put c _ => (s.put T m_mode M c).map id .char
  | .peek => (s, .char (some (s.peek T m_mode)))
  | .get => (s.get T m_mode).map id (.char ∘ some)
  | .put_back c => (s.put_back T m_mode c).map id (.char ∘ some)
  | .unget => (s.unget T m_mode).map id (.char ∘ some)
  | .seekoff off dir mode => (s.seek m_mode off dir mode).map id .position
  | .seekpos pos mode => (s.seek m_mode pos .beg mode).map id .position
  | .vector => (s, .vector (some s.contents))
  | .swap_vector vect _ => (of_contents m_mode vect.contents, .vector (some s.contents))
  | .clear => (of_contents m_mode [], .done)

end CharSequence

variable {C I : Type} {M : Max}

/-- A stream buffer that writes. The characters end at the higher one of the high water
    mark and the write position, and the get area may end before. -/
structure Writing (b : vectorbuf C M) (s : CharSequence C) : Prop where
  pbase_eq : b.areas.pbase = b.m_vect.data
  pptr_eq : b.areas.pptr = b.m_vect.data + s.write
  epptr_eq : b.areas.epptr = b.m_vect.data + b.m_vect.size
  length_le : s.contents.length ≤ b.m_vect.size
  write_le : s.write ≤ s.contents.length
  contents_eq : b.m_vect.cells.take s.contents.length = s.contents
  high_water : ∃ high : Nat, b.mp_high_water = b.m_vect.data + high ∧
    max high s.write = s.contents.length
  get_area : if b.m_mode.in_ then b.areas.eback = b.m_vect.data ∧
      b.areas.gptr = b.m_vect.data + s.read ∧
      ∃ stop : Nat, b.areas.egptr = b.m_vect.data + stop ∧ s.read ≤ stop ∧
        stop ≤ s.contents.length
    else b.areas.eback = 0 ∧ b.areas.gptr = 0 ∧ b.areas.egptr = 0
  at_end : b.m_mode.app = true → s.write = s.contents.length

/-- A stream buffer that does not write. -/
structure Reading (b : vectorbuf C M) (s : CharSequence C) : Prop where
  eback_eq : b.areas.eback = b.m_vect.front_address
  gptr_eq : b.areas.gptr = b.m_vect.front_address + s.read
  egptr_eq : b.areas.egptr = b.m_vect.front_address + b.m_vect.size
  read_le : s.read ≤ b.m_vect.size
  contents_eq : b.m_vect.contents = s.contents
  put_area : b.areas.pbase = 0 ∧ b.areas.pptr = 0 ∧ b.areas.epptr = 0
  unread : ¬ b.m_mode.in_ = true → s.read = 0

/-- The stream buffer holds the sequence. -/
def Represents (b : vectorbuf C M) (s : CharSequence C) : Prop :=
  if b.m_mode.out then Writing b s else Reading b s

section Vectors

variable [Inhabited C]

/-- The pieces add up to the whole way. -/
theorem pbump_eq (areas : streambuf) {delta : Int} (hnonneg : 0 ≤ delta) :
    pbump areas delta = areas.pbump delta := by
  have hiterate : ∀ n (areas : streambuf),
      Nat.iterate (fun areas => areas.pbump (2 ^ 31 - 1)) n areas =
        areas.pbump (n * (2 ^ 31 - 1)) := by
    intro n
    induction n with
    | zero =>
      intro areas
      ext <;> simp [streambuf.pbump]
    | succ n ih =>
      intro areas
      rw [Function.iterate_succ_apply, ih]
      ext <;> simp [streambuf.pbump]
      omega
  have hdelta := Int.emod_add_mul_ediv delta (2 ^ 31 - 1)
  have hmod := Int.emod_nonneg delta (show (2 ^ 31 - 1 : Int) ≠ 0 by decide)
  have hlt := Int.emod_lt_of_pos delta (show (0 : Int) < 2 ^ 31 - 1 by decide)
  unfold pbump
  split
  · have hdiv : ((delta / (2 ^ 31 - 1)).toNat : Int) = delta / (2 ^ 31 - 1) := by omega
    rw [hiterate, (to_int_eq_iff hmod).mpr (by omega), hdiv]
    ext <;> simp [streambuf.pbump]
    omega
  · rw [(to_int_eq_iff hnonneg).mpr (by omega)]

@[simp] theorem size_resize_within (v : char_vector C M) (n : Nat) (hn : n ≤ v.cells.length) :
    (v.resize_within n hn).size = n := rfl

@[simp] theorem data_resize_within (v : char_vector C M) (n : Nat) (hn : n ≤ v.cells.length) :
    (v.resize_within n hn).data = v.data := rfl

theorem take_resize_within {v : char_vector C M} {n k : Nat} {hn : n ≤ v.cells.length}
    (hk : k ≤ v.size) : (v.resize_within n hn).cells.take k = v.cells.take k := by
  have hsize := v.size_le
  have hlength : k ≤ (v.cells.take v.size).length := by
    rw [List.length_take]
    omega
  show List.take k (_ ++ _ ++ _) = _
  rw [List.append_assoc, List.take_append_of_le_length hlength, List.take_take, Nat.min_eq_left hk]

omit [Inhabited C] in
theorem contents_length (v : char_vector C M) : v.contents.length = v.size := by
  rw [char_vector.contents, List.length_take, Nat.min_eq_left v.size_le]

omit [Inhabited C] in
/-- A character behind the first `n`. -/
theorem take_set_succ {l : List C} {n : Nat} (hn : n < l.length) (c : C) :
    (l.set n c).take (n + 1) = l.take n ++ [c] := by
  rw [List.take_succ_eq_append_getElem (by rwa [List.length_set]), List.getElem_set_self,
    List.take_set_of_le (Nat.le_refl n)]

/-- `push_back` appends, and throws only at the `max_size()`. -/
theorem push_back_spec (A : Allocation) (v : char_vector C M) (c : C) :
    (∃ w, v.push_back A c = some w ∧ v.size < M.val ∧ w.size = v.size + 1 ∧
      w.contents = v.contents ++ [c]) ∨ v.push_back A c = none ∧ v.size = M.val := by
  have hsize := v.size_le
  have hmax := v.capacity_le
  unfold char_vector.push_back
  split
  · rename_i hroom
    refine Or.inl ⟨_, rfl, by omega, rfl, ?_⟩
    exact take_set_succ hroom c
  · split
    · rename_i hfull hfits
      refine Or.inl ⟨_, rfl, hfits, rfl, ?_⟩
      have hcontents := contents_length v
      have hlength : v.size < (v.reallocate A (v.size + 1) (Nat.succ_pos _) hfits).cells.length :=
        (v.reallocate A (v.size + 1) (Nat.succ_pos _) hfits).size_le
      refine (take_set_succ hlength c).trans ?_
      congr 1
      show List.take v.size (List.take _ (v.contents ++ _)) = _
      rw [List.take_take, Nat.min_eq_left (by omega), List.take_append_of_le_length (by omega),
        List.take_of_length_le (by omega)]
    · exact Or.inr ⟨rfl, by omega⟩

end Vectors

section Areas

variable {b : vectorbuf C M} {s : CharSequence C}

/-- The high water mark becomes the end of the characters. -/
theorem Writing.update_high_water_eq (hw : Writing b s) :
    b.update_high_water = { b with mp_high_water := b.m_vect.data + s.contents.length } := by
  obtain ⟨high, hhigh, hmax⟩ := hw.high_water
  have hpptr := hw.pptr_eq
  unfold update_high_water
  split
  · have hlength : b.areas.pptr = b.m_vect.data + s.contents.length := by omega
    rw [hlength]
  · have hlength : b.mp_high_water = b.m_vect.data + s.contents.length := by omega
    rw [← hlength]

theorem Writing.with_high_water (hw : Writing b s) :
    Writing { b with mp_high_water := b.m_vect.data + s.contents.length } s :=
  { hw with
    high_water := ⟨s.contents.length, rfl, by
      have hle := hw.write_le
      omega⟩ }

/-- The high water mark and the get area reach `length` characters. -/
def synced (b : vectorbuf C M) (length : Nat) : vectorbuf C M :=
  { b with
    mp_high_water := b.m_vect.data + length
    areas :=
      { b.areas with
        egptr := if b.m_mode.in_ then b.m_vect.data + length else b.areas.egptr } }

theorem Writing.read_le (hw : Writing b s) (hin : b.m_mode.in_ = true) :
    s.read ≤ s.contents.length := by
  have harea := hw.get_area
  rw [if_pos hin] at harea
  obtain ⟨_, _, stop, _, hread, hle⟩ := harea
  exact Nat.le_trans hread hle

/-- Both are brought to the end of the characters. -/
theorem Writing.synced_eq (hw : Writing b s) :
    (if b.m_mode.in_ then b.update_high_water.update_egptr else b.update_high_water) =
      b.synced s.contents.length := by
  rw [hw.update_high_water_eq, synced]
  by_cases hin : b.m_mode.in_ = true
  · have harea := hw.get_area
    rw [if_pos hin] at harea
    obtain ⟨_, _, stop, hstop, _, hle⟩ := harea
    rw [if_pos hin, if_pos hin, update_egptr]
    split
    · rfl
    · rename_i hnot
      have hend : b.areas.egptr = b.m_vect.data + s.contents.length := by
        have hnot' : ¬ b.areas.egptr < b.m_vect.data + s.contents.length := hnot
        omega
      rw [← hend]
  · rw [if_neg hin, if_neg hin]

theorem Writing.synced (hw : Writing b s) : Writing (b.synced s.contents.length) s := by
  refine { hw.with_high_water with get_area := ?_ }
  have harea := hw.get_area
  show if b.m_mode.in_ then _ else _
  by_cases hin : b.m_mode.in_ = true
  · rw [if_pos hin] at harea ⊢
    refine ⟨harea.1, harea.2.1, s.contents.length, ?_, hw.read_le hin, Nat.le_refl _⟩
    show (if b.m_mode.in_ then _ else _) = _
    rw [if_pos hin]
    rfl
  · rw [if_neg hin] at harea ⊢
    refine ⟨harea.1, harea.2.1, ?_⟩
    show (if b.m_mode.in_ then _ else _) = _
    rw [if_neg hin]
    exact harea.2.2

theorem Represents.writing (hrep : Represents b s) (hout : b.m_mode.out = true) : Writing b s := by
  rwa [Represents, if_pos hout] at hrep

theorem Represents.reading (hrep : Represents b s) (hout : ¬ b.m_mode.out = true) :
    Reading b s := by
  rwa [Represents, if_neg hout] at hrep

theorem Writing.represents (hw : Writing b s) (hout : b.m_mode.out = true) : Represents b s := by
  rwa [Represents, if_pos hout]

theorem Reading.represents (hr : Reading b s) (hout : ¬ b.m_mode.out = true) :
    Represents b s := by
  rwa [Represents, if_neg hout]

/-- The get area starts at `first` and has `stop` of the characters. -/
structure GetArea [Inhabited C] (b : vectorbuf C M) (s : CharSequence C) (first : Int)
    (stop : Nat) : Prop where
  first_nonneg : 0 ≤ first
  eback_eq : b.areas.eback = first
  gptr_eq : b.areas.gptr = first + s.read
  egptr_eq : b.areas.egptr = first + stop
  read_le : s.read ≤ stop
  stop_le : stop ≤ s.contents.length
  deref_eq : ∀ p < s.contents.length, b.deref (first + p) = s.char p
  empty : first = 0 → s.contents = []

/-- The cells at a position inside the characters. -/
theorem deref_of_take [Inhabited C] {n p : Nat} (htake : b.m_vect.cells.take n = s.contents)
    (hp : p < s.contents.length) : b.deref (b.m_vect.data + p) = s.char p := by
  have hn : p < n := by
    have hlength := congrArg List.length htake
    rw [List.length_take] at hlength
    omega
  have hindex : ((b.m_vect.data : Int) + p - b.m_vect.data).toNat = p := by omega
  rw [deref, CharSequence.char, ← htake, hindex,
    List.getD_eq_getElem?_getD, List.getD_eq_getElem?_getD, List.getElem?_take_of_lt hn]

theorem Writing.get_area_in [Inhabited C] (hw : Writing b s) (hin : b.m_mode.in_ = true) :
    ∃ stop, GetArea b s b.m_vect.data stop := by
  have harea := hw.get_area
  rw [if_pos hin] at harea
  obtain ⟨heback, hgptr, stop, hstop, hread, hle⟩ := harea
  refine ⟨stop, Int.natCast_nonneg _, heback, hgptr, hstop, hread, hle,
    fun p hp => deref_of_take hw.contents_eq hp, fun hzero => ?_⟩
  have hempty := b.m_vect.data_eq_zero_iff.mp (Int.natCast_eq_zero.mp hzero)
  have hsize := b.m_vect.size_le
  have hlength := hw.length_le
  exact List.length_eq_zero_iff.mp (by omega)

theorem Writing.get_area_null (hw : Writing b s) (hin : ¬ b.m_mode.in_ = true) :
    b.areas.eback = 0 ∧ b.areas.gptr = 0 ∧ b.areas.egptr = 0 := by
  have harea := hw.get_area
  rwa [if_neg hin] at harea

theorem Reading.length_eq (hr : Reading b s) : s.contents.length = b.m_vect.size := by
  rw [← hr.contents_eq, contents_length]

theorem Reading.get_area [Inhabited C] (hr : Reading b s) :
    GetArea b s b.m_vect.front_address b.m_vect.size where
  first_nonneg := by
    unfold char_vector.front_address
    split <;> omega
  eback_eq := hr.eback_eq
  gptr_eq := hr.gptr_eq
  egptr_eq := hr.egptr_eq
  read_le := hr.read_le
  stop_le := Nat.le_of_eq hr.length_eq.symm
  deref_eq := by
    intro p hp
    have hsize : b.m_vect.size ≠ 0 := by
      have hlength := hr.length_eq
      omega
    rw [char_vector.front_address, if_pos hsize]
    exact deref_of_take hr.contents_eq hp
  empty := by
    intro hzero
    have hlength := hr.length_eq
    have hdata := b.m_vect.data_eq_zero_iff
    have hsize := b.m_vect.size_le
    unfold char_vector.front_address at hzero
    split at hzero <;> exact List.length_eq_zero_iff.mp (by omega)

/-- The position moves inside the get area. -/
theorem Represents.move_read [Inhabited C] (hrep : Represents b s) (hin : b.m_mode.in_ = true)
    {first : Int} {stop : Nat} (harea : GetArea b s first stop) {read : Nat} (hread : read ≤ stop)
    {areas : streambuf} (hareas : areas = b.areas.gbump (read - s.read)) :
    Represents (b.set_areas areas) { s with read := read } := by
  subst hareas
  have hgptr : (b.areas.gbump (read - s.read)).gptr = first + read := by
    have hgptr := harea.gptr_eq
    show b.areas.gptr + (read - s.read) = first + read
    omega
  by_cases hout : b.m_mode.out = true
  · have hw := hrep.writing hout
    have hget := hw.get_area
    rw [if_pos hin] at hget
    have hfirst : first = b.m_vect.data := by rw [← harea.eback_eq, hget.1]
    subst hfirst
    refine Writing.represents { hw with get_area := ?_ } hout
    show if b.m_mode.in_ then _ else _
    rw [if_pos hin]
    exact ⟨hget.1, hgptr, stop, harea.egptr_eq, hread, harea.stop_le⟩
  · have hr := hrep.reading hout
    have hfirst : first = b.m_vect.front_address := by rw [← harea.eback_eq, hr.eback_eq]
    subst hfirst
    have hstop : stop = b.m_vect.size := by
      have hegptr := harea.egptr_eq
      have hegptr' := hr.egptr_eq
      omega
    exact Reading.represents
      { hr with
        gptr_eq := hgptr
        read_le := hstop ▸ hread
        unread := fun hnot => absurd hin hnot } hout

end Areas

/-- A call and what it stands for return the same and lead to the same. -/
def Follows [Inhabited C] [DecidableEq I] (T : char_traits C I) (b : vectorbuf C M)
    (s : CharSequence C) (c : Call C M) : Prop :=
  (call T b c).2 = (s.call T b.m_mode c).2 ∧ Represents (call T b c).1 (s.call T b.m_mode c).1

end interprocess.vectorbuf
