import Interprocess.Base.Transition
import Interprocess.Streams.Operations

namespace interprocess.bufferbuf

open std streambuf Transition

/-- A buffer whose length fits `off_type`. The null pointer has no characters. -/
structure Buffer where
  start : Int
  length : Nat
  start_nonneg : 0 ≤ start
  length_pos : start = 0 → length = 0
  length_lt : length < 2 ^ 63

/-- A call of a public function. -/
inductive Call (C : Type) where
  | put (c : C)
  | peek
  | get
  | put_back (c : C)
  | unget
  | seekoff (off : off_type) (dir : seekdir) (mode : openmode)
  | seekpos (pos : off_type) (mode : openmode)
  | buffer (buf : Buffer)

/-- What a call returns. A character that is none is an exception. -/
inductive Result (I : Type) where
  | char (c : Option I)
  | position (p : Int)
  | done

section Calls

variable {C I : Type} [DecidableEq I] (T : char_traits C I)

def call (b : bufferbuf C) : Call C → bufferbuf C × Result I
  | .put c => (sputc (derived T) T b c).map id .char
  | .peek => (sgetc (derived T) T b).map id (.char ∘ some)
  | .get => (sbumpc (derived T) T b).map id (.char ∘ some)
  | .put_back c => (sputbackc (derived T) T b c).map id (.char ∘ some)
  | .unget => (sungetc (derived T) T b).map id (.char ∘ some)
  | .seekoff off dir mode => (b.seekoff off dir mode).map id .position
  | .seekpos pos mode => (b.seekpos pos mode).map id .position
  | .buffer buf => (b.buffer buf.start buf.length, .done)

end Calls

/-- An array of characters in memory, with a position for reading and one for
    writing. -/
structure CharArray (C : Type) where
  memory : Int → C
  buffer : Buffer
  read : Nat
  write : Nat

namespace CharArray

variable {C I : Type} (T : char_traits C I) (m_mode : openmode)

def store (s : CharArray C) (position : Nat) (c : C) : CharArray C :=
  { s with memory := Function.update s.memory (s.buffer.start + position) c }

def char (s : CharArray C) (position : Nat) : C :=
  s.memory (s.buffer.start + position)

def put (s : CharArray C) (c : C) : CharArray C × I :=
  if m_mode.out ∧ s.write < s.buffer.length then
    ({ s.store s.write c with write := s.write + 1 }, T.to_int_type c)
  else (s, T.eof)

def peek (s : CharArray C) : I :=
  if m_mode.in_ ∧ s.read < s.buffer.length then T.to_int_type (s.char s.read) else T.eof

def get (s : CharArray C) : CharArray C × I :=
  if m_mode.in_ ∧ s.read < s.buffer.length then
    ({ s with read := s.read + 1 }, T.to_int_type (s.char s.read))
  else (s, T.eof)

/-- A character that differs from the one read is written in its place if the mode
    allows it. -/
def put_back (s : CharArray C) (c : C) : CharArray C × I :=
  if m_mode.in_ ∧ 0 < s.read then
    if T.eq c (s.char (s.read - 1)) then
      ({ s with read := s.read - 1 }, T.to_int_type (s.char (s.read - 1)))
    else if m_mode.out then
      ({ s.store (s.read - 1) c with read := s.read - 1 }, T.to_int_type c)
    else (s, T.eof)
  else (s, T.eof)

def unget (s : CharArray C) : CharArray C × I :=
  if m_mode.in_ ∧ 0 < s.read then
    ({ s with read := s.read - 1 }, T.to_int_type (s.char (s.read - 1)))
  else (s, T.eof)

/-- Where a seek starts. Both positions are sought only from an end. -/
def origin (s : CharArray C) : seekdir → openmode → Option Nat
  | .beg, _ => some 0
  | .end_, _ => some s.buffer.length
  | .cur, mode =>
    if mode.in_ && mode.out then none else some (if mode.in_ then s.read else s.write)
  | .unknown, _ => none

/-- Where a seek leads, if it stays inside the array. -/
def landing (s : CharArray C) (off : Int) (dir : seekdir) (mode : openmode) : Option Nat :=
  (s.origin dir mode).bind fun origin =>
    if Requestable m_mode mode.in_ mode.out ∧ 0 ≤ origin + off ∧
        origin + off ≤ s.buffer.length then some (origin + off).toNat
    else none

def seek (s : CharArray C) (off : Int) (dir : seekdir) (mode : openmode) : CharArray C × Int :=
  match s.landing m_mode off dir mode with
  | none => (s, -1)
  | some p =>
    ({ s with
        read := if mode.in_ then p else s.read
        write := if mode.out then p else s.write }, p)

def call (s : CharArray C) : Call C → CharArray C × Result I
  | .put c => (s.put T m_mode c).map id (.char ∘ some)
  | .peek => (s, .char (some (s.peek T m_mode)))
  | .get => (s.get T m_mode).map id (.char ∘ some)
  | .put_back c => (s.put_back T m_mode c).map id (.char ∘ some)
  | .unget => (s.unget T m_mode).map id (.char ∘ some)
  | .seekoff off dir mode => (s.seek m_mode off dir mode).map id .position
  | .seekpos pos mode => (s.seek m_mode pos .beg mode).map id .position
  | .buffer buf => (⟨s.memory, buf, 0, 0⟩, .done)

end CharArray

/-- The areas lie on the buffer, with the next characters at the positions. An area
    that the mode does not have is null. -/
structure Represents {C : Type} (b : bufferbuf C) (s : CharArray C) : Prop where
  memory_eq : b.memory = s.memory
  buffer_eq : b.m_buffer = s.buffer.start
  length_eq : b.m_length = s.buffer.length
  read_le : s.read ≤ s.buffer.length
  write_le : s.write ≤ s.buffer.length
  get_area : if b.m_mode.in_ then b.areas.eback = s.buffer.start ∧
      b.areas.gptr = s.buffer.start + s.read ∧ b.areas.egptr = s.buffer.start + s.buffer.length
    else b.areas.eback = 0 ∧ b.areas.gptr = 0 ∧ b.areas.egptr = 0
  put_area : if b.m_mode.out then b.areas.pbase = s.buffer.start ∧
      b.areas.pptr = s.buffer.start + s.write ∧ b.areas.epptr = s.buffer.start + s.buffer.length
    else b.areas.pbase = 0 ∧ b.areas.pptr = 0 ∧ b.areas.epptr = 0

/-- A call and what it stands for return the same and lead to the same. -/
def Follows {C I : Type} [DecidableEq I] (T : char_traits C I) (b : bufferbuf C) (s : CharArray C)
    (c : Call C) : Prop :=
  (call T b c).2 = (s.call T b.m_mode c).2 ∧ Represents (call T b c).1 (s.call T b.m_mode c).1

section Characters

variable {C I : Type} [DecidableEq I] {T : char_traits C I} {b : bufferbuf C} {s : CharArray C}

theorem Represents.get_area_in (hrep : Represents b s) (hin : b.m_mode.in_ = true) :
    b.areas.eback = s.buffer.start ∧ b.areas.gptr = s.buffer.start + s.read ∧
      b.areas.egptr = s.buffer.start + s.buffer.length := by
  have harea := hrep.get_area
  rwa [if_pos hin] at harea

theorem Represents.get_area_null (hrep : Represents b s) (hin : ¬ b.m_mode.in_ = true) :
    b.areas.eback = 0 ∧ b.areas.gptr = 0 ∧ b.areas.egptr = 0 := by
  have harea := hrep.get_area
  rwa [if_neg hin] at harea

theorem Represents.put_area_out (hrep : Represents b s) (hout : b.m_mode.out = true) :
    b.areas.pbase = s.buffer.start ∧ b.areas.pptr = s.buffer.start + s.write ∧
      b.areas.epptr = s.buffer.start + s.buffer.length := by
  have harea := hrep.put_area
  rwa [if_pos hout] at harea

theorem Represents.put_area_null (hrep : Represents b s) (hout : ¬ b.m_mode.out = true) :
    b.areas.pbase = 0 ∧ b.areas.pptr = 0 ∧ b.areas.epptr = 0 := by
  have harea := hrep.put_area
  rwa [if_neg hout] at harea

/-- The next character is moved inside the get area. -/
theorem Represents.move_read (hrep : Represents b s) (hin : b.m_mode.in_ = true) {read : Nat}
    (hle : read ≤ s.buffer.length) {areas : streambuf}
    (hareas : areas = b.areas.gbump (read - s.read)) :
    Represents (b.set_areas areas) { s with read := read } := by
  obtain ⟨heback, hgptr, hegptr⟩ := hrep.get_area_in hin
  subst hareas
  refine ⟨hrep.memory_eq, hrep.buffer_eq, hrep.length_eq, hle, hrep.write_le, ?_, hrep.put_area⟩
  show if b.m_mode.in_ then _ else _
  rw [if_pos hin]
  refine ⟨heback, ?_, hegptr⟩
  show b.areas.gptr + (read - s.read) = s.buffer.start + read
  omega

/-- A character inside the buffer is replaced. -/
theorem Represents.store (hrep : Represents b s) (position : Nat) (c : C) :
    Represents (b.store (s.buffer.start + position) c) (s.store position c) where
  memory_eq := by
    show Function.update b.memory _ c = Function.update s.memory _ c
    rw [hrep.memory_eq]
  buffer_eq := hrep.buffer_eq
  length_eq := hrep.length_eq
  read_le := hrep.read_le
  write_le := hrep.write_le
  get_area := hrep.get_area
  put_area := hrep.put_area

theorem Represents.deref_eq (hrep : Represents b s) (position : Nat) :
    b.deref (s.buffer.start + position) = s.char position := by
  rw [deref, hrep.memory_eq, CharArray.char]

theorem Represents.put (hrep : Represents b s) (c : C) : Follows T b s (.put c) := by
  by_cases hout : b.m_mode.out = true
  · obtain ⟨hpbase, hpptr, hepptr⟩ := hrep.put_area_out hout
    by_cases hroom : s.write < s.buffer.length
    · have hlt : ((derived T).areas b).pptr < ((derived T).areas b).epptr := by
        show b.areas.pptr < b.areas.epptr
        omega
      unfold Follows
      rw [call, sputc, if_pos hlt, CharArray.call, CharArray.put, if_pos ⟨hout, hroom⟩]
      refine ⟨rfl, ?_⟩
      have hstored := hrep.store s.write c
      rw [← hpptr] at hstored
      refine ⟨hstored.memory_eq, hrep.buffer_eq, hrep.length_eq, hrep.read_le, hroom,
        hrep.get_area, ?_⟩
      show if b.m_mode.out then _ else _
      rw [if_pos hout]
      refine ⟨hpbase, ?_, hepptr⟩
      show b.areas.pptr + 1 = s.buffer.start + ((s.write + 1 : Nat) : Int)
      omega
    · have hend : b.areas.pptr = b.areas.epptr := by
        have hle := hrep.write_le
        omega
      have hnlt : ¬ ((derived T).areas b).pptr < ((derived T).areas b).epptr := by
        show ¬ b.areas.pptr < b.areas.epptr
        omega
      unfold Follows
      rw [call, sputc, if_neg hnlt, CharArray.call, CharArray.put,
        if_neg fun hroom' => hroom hroom'.2]
      rw [show (derived T).overflow b (T.to_int_type c) =
          (overflow T b (T.to_int_type c)).map id some from rfl, overflow, if_pos hout,
        if_pos (T.to_int_type_ne_eof c), if_pos hend]
      exact ⟨rfl, hrep⟩
  · have hnull := hrep.put_area_null hout
    have hnlt : ¬ ((derived T).areas b).pptr < ((derived T).areas b).epptr := by
      show ¬ b.areas.pptr < b.areas.epptr
      omega
    unfold Follows
    rw [call, sputc, if_neg hnlt, CharArray.call, CharArray.put, if_neg fun hroom => hout hroom.1]
    rw [show (derived T).overflow b (T.to_int_type c) =
        (overflow T b (T.to_int_type c)).map id some from rfl, overflow, if_neg hout]
    exact ⟨rfl, hrep⟩

/-- There is a character to read exactly if the array has one. -/
theorem Represents.gptr_lt_iff (hrep : Represents b s) :
    b.areas.gptr < b.areas.egptr ↔ b.m_mode.in_ = true ∧ s.read < s.buffer.length := by
  by_cases hin : b.m_mode.in_ = true
  · obtain ⟨_, hgptr, hegptr⟩ := hrep.get_area_in hin
    simp only [hin, true_and]
    omega
  · obtain ⟨_, hgptr, hegptr⟩ := hrep.get_area_null hin
    exact ⟨fun hlt => by omega, fun hmore => absurd hmore.1 hin⟩

/-- There is a character to put back exactly if one was read. -/
theorem Represents.eback_lt_iff (hrep : Represents b s) :
    b.areas.eback < b.areas.gptr ↔ b.m_mode.in_ = true ∧ 0 < s.read := by
  by_cases hin : b.m_mode.in_ = true
  · obtain ⟨heback, hgptr, _⟩ := hrep.get_area_in hin
    simp only [hin, true_and]
    omega
  · obtain ⟨heback, hgptr, _⟩ := hrep.get_area_null hin
    exact ⟨fun hlt => by omega, fun hmore => absurd hmore.1 hin⟩

theorem Represents.eback_le (hrep : Represents b s) : b.areas.eback ≤ b.areas.gptr := by
  by_cases hin : b.m_mode.in_ = true
  · obtain ⟨heback, hgptr, _⟩ := hrep.get_area_in hin
    omega
  · obtain ⟨heback, hgptr, _⟩ := hrep.get_area_null hin
    omega

omit [DecidableEq I] in
/-- At the end of the array no character is there. -/
theorem Represents.underflow_eq (hrep : Represents b s)
    (hend : ¬ b.areas.gptr < b.areas.egptr) : underflow T b = (b, T.eof) := by
  have heq : b.areas.gptr = b.areas.egptr := by
    by_cases hin : b.m_mode.in_ = true
    · obtain ⟨_, hgptr, hegptr⟩ := hrep.get_area_in hin
      have hle := hrep.read_le
      omega
    · obtain ⟨_, hgptr, hegptr⟩ := hrep.get_area_null hin
      omega
  rw [underflow, if_neg (not_not.mpr heq)]

theorem Represents.peek (hrep : Represents b s) : Follows T b s .peek := by
  unfold Follows
  rw [call, sgetc, CharArray.call, CharArray.peek]
  by_cases hmore : b.areas.gptr < b.areas.egptr
  · obtain ⟨hin, hlt⟩ := hrep.gptr_lt_iff.mp hmore
    obtain ⟨_, hgptr, _⟩ := hrep.get_area_in hin
    rw [if_pos (show ((derived T).areas b).gptr < ((derived T).areas b).egptr from hmore),
      if_pos (hrep.gptr_lt_iff.mp hmore), ← hrep.deref_eq, ← hgptr]
    exact ⟨rfl, hrep⟩
  · rw [if_neg (show ¬ ((derived T).areas b).gptr < ((derived T).areas b).egptr from hmore),
      if_neg (mt hrep.gptr_lt_iff.mpr hmore),
      show (derived T).underflow b = underflow T b from rfl, hrep.underflow_eq hmore]
    exact ⟨rfl, hrep⟩

theorem Represents.get (hrep : Represents b s) : Follows T b s .get := by
  unfold Follows
  rw [call, sbumpc, CharArray.call, CharArray.get]
  by_cases hmore : b.areas.gptr < b.areas.egptr
  · obtain ⟨hin, hlt⟩ := hrep.gptr_lt_iff.mp hmore
    obtain ⟨_, hgptr, _⟩ := hrep.get_area_in hin
    rw [if_pos (show ((derived T).areas b).gptr < ((derived T).areas b).egptr from hmore),
      if_pos (hrep.gptr_lt_iff.mp hmore), ← hrep.deref_eq, ← hgptr]
    refine ⟨rfl, hrep.move_read hin hlt ?_⟩
    show b.areas.gbump 1 = b.areas.gbump (((s.read + 1 : Nat) : Int) - s.read)
    congr 1
    omega
  · rw [if_neg (show ¬ ((derived T).areas b).gptr < ((derived T).areas b).egptr from hmore),
      if_neg (mt hrep.gptr_lt_iff.mpr hmore), uflow,
      show (derived T).underflow b = underflow T b from rfl, hrep.underflow_eq hmore]
    simp only [if_true]
    exact ⟨rfl, hrep⟩

/-- The position moves back by one. -/
theorem Represents.move_back (hrep : Represents b s) (hin : b.m_mode.in_ = true)
    (hpos : 0 < s.read) :
    Represents (b.set_areas (b.areas.gbump (-1))) { s with read := s.read - 1 } := by
  have hle := hrep.read_le
  refine hrep.move_read hin (by omega) ?_
  congr 1
  omega

theorem Represents.unget (hrep : Represents b s) : Follows T b s .unget := by
  unfold Follows
  rw [call, sungetc_eq b.m_mode hrep.eback_le rfl, CharArray.call, CharArray.unget]
  by_cases hmore : b.areas.eback < b.areas.gptr
  · obtain ⟨hin, hpos⟩ := hrep.eback_lt_iff.mp hmore
    obtain ⟨_, hgptr, _⟩ := hrep.get_area_in hin
    have hprev : b.areas.gptr - 1 = s.buffer.start + ((s.read - 1 : Nat) : Int) := by omega
    rw [if_pos (show ((derived T).areas b).eback < ((derived T).areas b).gptr from hmore),
      if_pos (hrep.eback_lt_iff.mp hmore), ← hrep.deref_eq, ← hprev]
    exact ⟨rfl, hrep.move_back hin hpos⟩
  · rw [if_neg (show ¬ ((derived T).areas b).eback < ((derived T).areas b).gptr from hmore),
      if_neg (mt hrep.eback_lt_iff.mpr hmore)]
    exact ⟨rfl, hrep⟩

theorem Represents.put_back (hrep : Represents b s) (c : C) : Follows T b s (.put_back c) := by
  unfold Follows
  rw [call, sputbackc_eq b.m_mode c hrep.eback_le rfl, CharArray.call,
    CharArray.put_back]
  by_cases hmore : b.areas.eback < b.areas.gptr
  · obtain ⟨hin, hpos⟩ := hrep.eback_lt_iff.mp hmore
    obtain ⟨_, hgptr, _⟩ := hrep.get_area_in hin
    have hprev : b.areas.gptr - 1 = s.buffer.start + ((s.read - 1 : Nat) : Int) := by omega
    have hback := hrep.move_back hin hpos
    rw [if_pos (show ((derived T).areas b).eback < ((derived T).areas b).gptr from hmore),
      if_pos (hrep.eback_lt_iff.mp hmore), ← hrep.deref_eq, ← hprev]
    by_cases heq : T.eq c (b.deref (b.areas.gptr - 1)) = true
    · simp only [show (derived T).deref = deref from rfl, show (derived T).areas = areas from rfl,
        heq, if_true]
      exact ⟨rfl, hback⟩
    · simp only [show (derived T).deref = deref from rfl, show (derived T).areas = areas from rfl,
        if_neg heq]
      by_cases hout : b.m_mode.out = true
      · simp only [if_pos hout]
        have hstored := hback.store (s.read - 1) c
        rw [← hprev] at hstored
        exact ⟨rfl, hstored⟩
      · simp only [if_neg hout]
        exact ⟨rfl, hrep⟩
  · rw [if_neg (show ¬ ((derived T).areas b).eback < ((derived T).areas b).gptr from hmore),
      if_neg (mt hrep.eback_lt_iff.mpr hmore)]
    exact ⟨rfl, hrep⟩

end Characters

section Seeks

variable {C : Type} {b : bufferbuf C} {s : CharArray C}

/-- The areas after a seek to the position `p`, which `pbump` takes as an `int`. -/
def sought (b : bufferbuf C) (in_ out : Bool) (p : Nat) : bufferbuf C :=
  b.set_areas
    { b.areas with
      gptr := if in_ then b.areas.eback + p else b.areas.gptr
      pptr := if out then b.areas.pbase + to_int p else b.areas.pptr }

/-- The areas are as long as the buffer, so a seek of both does not stop between
    them. -/
theorem Represents.seek_areas_eq (hrep : Represents b s) {in_ out : Bool}
    (hsome : in_ = true ∨ out = true) (hin : in_ = true → b.m_mode.in_ = true)
    (hout : out = true → b.m_mode.out = true) (off : Int) :
    b.seek_areas in_ out off = if off < 0 ∨ (s.buffer.length : Int) < off then (b, -1)
      else (b.sought in_ out off.toNat, off) := by
  have hget : in_ = true → b.areas.egptr - b.areas.eback = s.buffer.length := fun h => by
    obtain ⟨heback, _, hegptr⟩ := hrep.get_area_in (hin h)
    omega
  have hput : out = true → b.areas.epptr - b.areas.pbase = s.buffer.length := fun h => by
    obtain ⟨hpbase, _, hepptr⟩ := hrep.put_area_out (hout h)
    omega
  by_cases hrange : off < 0 ∨ (s.buffer.length : Int) < off
  · rw [if_pos hrange, seek_areas]
    cases in_ with
    | true => rw [if_pos ⟨rfl, by rwa [hget rfl]⟩]
    | false =>
      obtain rfl : out = true := hsome.resolve_left Bool.false_ne_true
      simp only [Bool.false_eq_true, false_and, if_false, true_and, hput, if_pos hrange]
  · have hnat : (off.toNat : Int) = off := by omega
    rw [if_neg hrange, seek_areas, sought, hnat]
    have hgetend : in_ = true → b.areas.eback + (s.buffer.length : Int) = b.areas.egptr := fun h => by
      have hlength := hget h
      omega
    have hputend : out = true → b.areas.pbase + (s.buffer.length : Int) = b.areas.epptr := fun h => by
      have hlength := hput h
      omega
    cases in_ <;> cases out <;>
      simp_all [set_areas, setg, setp, pbump]

/-- A null area has no position but the first. -/
theorem Represents.length_of_null (hrep : Represents b s) {in_ out : Bool}
    (hin : in_ = true → b.m_mode.in_ = true) (hout : out = true → b.m_mode.out = true)
    (hnull : in_ = true ∧ b.areas.gptr = 0 ∨ out = true ∧ b.areas.pptr = 0) :
    s.buffer.length = 0 := by
  have hstart := s.buffer.start_nonneg
  rcases hnull with ⟨h, hgptr⟩ | ⟨h, hpptr⟩
  · obtain ⟨_, hgptr', _⟩ := hrep.get_area_in (hin h)
    exact s.buffer.length_pos (by omega)
  · obtain ⟨_, hpptr', _⟩ := hrep.put_area_out (hout h)
    exact s.buffer.length_pos (by omega)

/-- A seek from the position `origin`. -/
theorem Represents.seek_from (hrep : Represents b s) {in_ out : Bool}
    (hrequest : Requestable b.m_mode in_ out) (off : off_type) {origin : Nat}
    (horigin : origin ≤ s.buffer.length) :
    b.seek_areas in_ out (off_add off.val origin) =
      if 0 ≤ origin + off.val ∧ origin + off.val ≤ s.buffer.length then
        (b.sought in_ out (origin + off.val).toNat, origin + off.val)
      else (b, -1) := by
  have hlength := s.buffer.length_lt
  have hposition : 0 ≤ (origin : Int) ∧ (origin : Int) < 2 ^ 63 := by omega
  have hlimit : (s.buffer.length : Int) < 2 ^ 63 := by omega
  have houtside := off_add_outside off.property hposition hlimit
  rw [hrep.seek_areas_eq hrequest.1 hrequest.2.1 hrequest.2.2]
  by_cases hrange : 0 ≤ origin + off.val ∧ origin + off.val ≤ s.buffer.length
  · rw [if_pos hrange, if_neg (mt houtside.mp (not_not.mpr hrange)),
      off_add_inside hrange.1 (by omega)]
  · rw [if_neg hrange, if_pos (houtside.mpr hrange)]

/-- The checks of `seekoff` before its second half. -/
theorem Represents.seek_checked (hrep : Represents b s) (in_ out : Bool) (off : off_type)
    {newoff : Int} {origin : Nat} (horigin : origin ≤ s.buffer.length)
    (hnewoff : Requestable b.m_mode in_ out → newoff = origin) :
    (if !in_ && !out then (b, -1)
      else if in_ && (!b.m_mode.in_ || off.val != 0 && b.areas.gptr == 0) ||
        out && (!b.m_mode.out || off.val != 0 && b.areas.pptr == 0) then (b, -1)
      else b.seek_areas in_ out (off_add off.val newoff)) =
      if Requestable b.m_mode in_ out ∧ 0 ≤ origin + off.val ∧
          origin + off.val ≤ s.buffer.length then
        (b.sought in_ out (origin + off.val).toNat, origin + off.val)
      else (b, -1) := by
  by_cases hrequest : Requestable b.m_mode in_ out
  · have hsome : ¬ (!in_ && !out) = true := by
      rcases hrequest.1 with h | h <;> simp [h]
    rw [if_neg hsome]
    split
    · rename_i hrefused
      simp only [Bool.or_eq_true, Bool.and_eq_true, Bool.not_eq_true', bne_iff_ne,
        beq_iff_eq] at hrefused
      -- only a null area can be refused here
      have hnull : off.val ≠ 0 ∧ s.buffer.length = 0 := by
        rcases hrefused with ⟨h, hmode | ⟨hoff, hgptr⟩⟩ | ⟨h, hmode | ⟨hoff, hpptr⟩⟩
        · exact absurd (hrequest.2.1 h) (by simp [hmode])
        · exact ⟨hoff, hrep.length_of_null hrequest.2.1 hrequest.2.2 (Or.inl ⟨h, hgptr⟩)⟩
        · exact absurd (hrequest.2.2 h) (by simp [hmode])
        · exact ⟨hoff, hrep.length_of_null hrequest.2.1 hrequest.2.2 (Or.inr ⟨h, hpptr⟩)⟩
      rw [if_neg (by omega)]
    · rw [hnewoff hrequest, hrep.seek_from hrequest off horigin]
      simp only [hrequest, true_and]
  · have hnot : ¬ (Requestable b.m_mode in_ out ∧ 0 ≤ origin + off.val ∧
        origin + off.val ≤ s.buffer.length) := fun h => hrequest h.1
    rw [if_neg hnot]
    split
    · rfl
    · rename_i hsome
      rw [if_pos]
      by_contra hgoes
      refine hrequest ⟨?_, fun h => ?_, fun h => ?_⟩
      · cases in_ <;> cases out <;> simp_all
      · by_contra hmode
        exact hgoes (by simp [h, hmode])
      · by_contra hmode
        exact hgoes (by simp [h, hmode])

/-- A seek leads where the array's does, but for the `int` of `pbump`. -/
theorem Represents.seekoff_eq (hrep : Represents b s) (off : off_type) (dir : seekdir)
    (mode : openmode) :
    b.seekoff off dir mode = match s.landing b.m_mode off dir mode with
      | none => (b, -1)
      | some p => (b.sought mode.in_ mode.out p, p) := by
  have hlands : ∀ origin : Nat, s.origin dir mode = some origin →
      b.seekoff off dir mode = (if Requestable b.m_mode mode.in_ mode.out ∧
        0 ≤ origin + off.val ∧ origin + off.val ≤ s.buffer.length then
          (b.sought mode.in_ mode.out (origin + off.val).toNat, origin + off.val)
        else (b, -1)) →
      b.seekoff off dir mode = match s.landing b.m_mode off dir mode with
        | none => (b, -1)
        | some p => (b.sought mode.in_ mode.out p, p) := by
    intro origin horigin hresult
    rw [hresult, CharArray.landing, horigin, Option.bind_some]
    split
    · rename_i hland
      simp only [Int.toNat_of_nonneg hland.2.1]
    · rfl
  cases dir with
  | beg =>
    refine hlands 0 rfl ?_
    rw [← hrep.seek_checked mode.in_ mode.out off (Nat.zero_le _) (fun _ => Int.natCast_zero.symm)]
    rcases mode with ⟨_ | _, _ | _, app, ate⟩ <;> rfl
  | cur =>
    rcases mode with ⟨_ | _, _ | _, app, ate⟩
    · refine hlands s.write rfl ?_
      rw [if_neg (by simp [Requestable])]
      rfl
    · refine hlands s.write rfl ?_
      rw [← hrep.seek_checked false true off hrep.write_le fun h => by
        obtain ⟨hpbase, hpptr, _⟩ := hrep.put_area_out (h.2.2 rfl)
        show b.areas.pptr - b.areas.pbase = s.write
        omega]
      rfl
    · refine hlands s.read rfl ?_
      rw [← hrep.seek_checked true false off hrep.read_le fun h => by
        obtain ⟨heback, hgptr, _⟩ := hrep.get_area_in (h.2.1 rfl)
        show b.areas.gptr - b.areas.eback = s.read
        omega]
      rfl
    · rfl
  | end_ =>
    refine hlands s.buffer.length rfl ?_
    have hlength := s.buffer.length_lt
    have hcast : ((b.m_length : Int)).bmod (2 ^ 64) = s.buffer.length := by
      rw [hrep.length_eq, Int.bmod_def]
      split <;> omega
    rw [← hrep.seek_checked mode.in_ mode.out off (Nat.le_refl _) (fun _ => hcast)]
    rcases mode with ⟨_ | _, _ | _, app, ate⟩ <;> rfl
  | unknown =>
    rcases mode with ⟨_ | _, _ | _, app, ate⟩ <;>
      simp [seekoff, CharArray.landing, CharArray.origin]

/-- A landing is inside the array, and the mode has the positions. -/
theorem landing_spec {m_mode : openmode} {off : Int} {dir : seekdir} {mode : openmode} {p : Nat}
    (hland : s.landing m_mode off dir mode = some p) :
    Requestable m_mode mode.in_ mode.out ∧ p ≤ s.buffer.length := by
  rw [CharArray.landing, Option.bind_eq_some_iff] at hland
  obtain ⟨origin, _, hland⟩ := hland
  split at hland
  · rename_i hrange
    have hp := Option.some.inj hland
    exact ⟨hrange.1, by omega⟩
  · exact absurd hland (by simp)

/-- No put position of a seek needs more than an `int`. -/
def FitsInt (m_mode : openmode) (s : CharArray C) : Call C → Prop
  | .seekoff off dir mode => ∀ p, s.landing m_mode off dir mode = some p → mode.out = true → p < 2 ^ 31
  | .seekpos pos mode => ∀ p, s.landing m_mode pos .beg mode = some p → mode.out = true → p < 2 ^ 31
  | _ => True

/-- A seek is followed exactly if `pbump` gets the position. -/
theorem Represents.seek_iff (hrep : Represents b s) (off : off_type) (dir : seekdir)
    (mode : openmode) :
    ((b.seekoff off dir mode).2 = (s.seek b.m_mode off dir mode).2 ∧
      Represents (b.seekoff off dir mode).1 (s.seek b.m_mode off dir mode).1) ↔
      ∀ p, s.landing b.m_mode off dir mode = some p → mode.out = true → p < 2 ^ 31 := by
  rw [hrep.seekoff_eq, CharArray.seek]
  cases hland : s.landing b.m_mode off dir mode with
  | none => simpa using hrep
  | some p =>
    obtain ⟨⟨_, hin, hout⟩, hle⟩ := landing_spec hland
    simp only [true_and, Option.some.injEq, forall_eq']
    constructor
    · intro hsought hmode
      have harea := (hsought.put_area_out (hout hmode)).2.1
      simp only [sought, set_areas, hmode, if_true] at harea
      have hpbase := (hrep.put_area_out (hout hmode)).1
      have hint : to_int p = p := by omega
      have hlt := (to_int_eq_iff (Int.natCast_nonneg p)).mp hint
      omega
    · intro hfits
      refine ⟨hrep.memory_eq, hrep.buffer_eq, hrep.length_eq, ?_, ?_, ?_, ?_⟩
      · show (if mode.in_ then p else s.read) ≤ s.buffer.length
        split
        · exact hle
        · exact hrep.read_le
      · show (if mode.out then p else s.write) ≤ s.buffer.length
        split
        · exact hle
        · exact hrep.write_le
      · by_cases hmode : mode.in_ = true
        · obtain ⟨heback, _, hegptr⟩ := hrep.get_area_in (hin hmode)
          simp only [sought, set_areas, hin hmode, hmode, if_true]
          exact ⟨heback, by rw [heback], hegptr⟩
        · simp only [sought, set_areas, hmode]
          exact hrep.get_area
      · by_cases hmode : mode.out = true
        · obtain ⟨hpbase, _, hepptr⟩ := hrep.put_area_out (hout hmode)
          have hlt := hfits hmode
          have hint : to_int p = p := (to_int_eq_iff (Int.natCast_nonneg p)).mpr (by omega)
          simp only [sought, set_areas, hout hmode, hmode, if_true]
          exact ⟨hpbase, by rw [hpbase, hint], hepptr⟩
        · simp only [sought, set_areas, hmode]
          exact hrep.put_area

end Seeks

section Runs

variable {C I : Type} [DecidableEq I] {T : char_traits C I} {b : bufferbuf C} {s : CharArray C}

/-- The areas of a mode start empty where the mode has none. -/
theorem set_pointers_represents {memory : Int → C} {buf : Buffer}
    (hbuffer : b.m_buffer = buf.start) (hlength : b.m_length = buf.length)
    (hmemory : b.memory = memory)
    (hget : ¬ b.m_mode.in_ = true → b.areas.eback = 0 ∧ b.areas.gptr = 0 ∧ b.areas.egptr = 0)
    (hput : ¬ b.m_mode.out = true → b.areas.pbase = 0 ∧ b.areas.pptr = 0 ∧ b.areas.epptr = 0) :
    Represents b.set_pointers ⟨memory, buf, 0, 0⟩ := by
  refine ⟨hmemory, hbuffer, hlength, Nat.zero_le _, Nat.zero_le _, ?_, ?_⟩
  · show if b.m_mode.in_ then _ else _
    by_cases hin : b.m_mode.in_ = true
    · by_cases hout : b.m_mode.out = true <;>
        simp [set_pointers, set_areas, setg, setp, hin, hout, hbuffer, hlength]
    · have hnull := hget hin
      by_cases hout : b.m_mode.out = true <;>
        simpa [set_pointers, set_areas, setp, hin, hout] using hnull
  · show if b.m_mode.out then _ else _
    by_cases hout : b.m_mode.out = true
    · simp [set_pointers, set_areas, setp, hout, hbuffer, hlength]
    · have hnull := hput hout
      by_cases hin : b.m_mode.in_ = true <;>
        simpa [set_pointers, set_areas, setg, hin, hout] using hnull

theorem construct_represents (memory : Int → C) (buf : Buffer) (mode : openmode) :
    Represents (construct memory buf.start buf.length mode) ⟨memory, buf, 0, 0⟩ :=
  set_pointers_represents rfl rfl rfl (fun _ => ⟨rfl, rfl, rfl⟩) (fun _ => ⟨rfl, rfl, rfl⟩)

theorem Represents.buffer (hrep : Represents b s) (buf : Buffer) :
    Represents (b.buffer buf.start buf.length) ⟨s.memory, buf, 0, 0⟩ :=
  set_pointers_represents rfl rfl hrep.memory_eq hrep.get_area_null hrep.put_area_null

/-- A buffer that is not given is the null one. -/
theorem construct_empty_eq (memory : Int → C) (mode : openmode) :
    construct_empty memory mode = construct memory 0 0 mode := by
  rcases mode with ⟨_ | _, _ | _, app, ate⟩ <;> rfl

/-- Every call but a seek too far is followed. -/
theorem Represents.follows_iff (hrep : Represents b s) (c : Call C) :
    Follows T b s c ↔ FitsInt b.m_mode s c := by
  have hresult : ∀ p q : Int, Result.position (I := I) p = Result.position q ↔ p = q :=
    fun p q => by simp
  cases c with
  | put c => exact iff_of_true (hrep.put c) trivial
  | peek => exact iff_of_true hrep.peek trivial
  | get => exact iff_of_true hrep.get trivial
  | put_back c => exact iff_of_true (hrep.put_back c) trivial
  | unget => exact iff_of_true hrep.unget trivial
  | seekoff off dir mode =>
    rw [FitsInt, ← hrep.seek_iff off dir mode, ← hresult]
    rfl
  | seekpos pos mode =>
    rw [FitsInt, ← hrep.seek_iff pos .beg mode, ← hresult]
    rfl
  | buffer buf => exact iff_of_true ⟨rfl, hrep.buffer buf⟩ trivial

/-- The stream buffer and the array take the same calls. -/
def step (T : char_traits C I) (state : bufferbuf C × CharArray C) (c : Call C) :
    Option (bufferbuf C × CharArray C) :=
  some ((call T state.1 c).1, (state.2.call T state.1.m_mode c).1)

/-- In every run whose seeks of the put area stay below `2 ^ 31` the stream buffer
    represents the array, and a call in such a state returns what the array returns and
    represents it again exactly if it is no seek of the put area beyond. -/
theorem refines_char_array (memory : Int → C) (buf : Buffer) (mode : openmode)
    (hrun : Reaches (step T) (fun state c => FitsInt state.1.m_mode state.2 c)
      (construct memory buf.start buf.length mode, ⟨memory, buf, 0, 0⟩) (b, s)) :
    Represents b s ∧ ∀ c, Follows T b s c ↔ FitsInt b.m_mode s c := by
  have hrep : Represents b s :=
    Reaches.invariant (P := fun state => Represents state.1 state.2) hrun
      (construct_represents memory buf mode)
      fun state c next hstate hfits hstep => by
        rw [← Option.some.inj hstep]
        exact ((hstate.follows_iff c).mpr hfits).2
  exact ⟨hrep, hrep.follows_iff⟩

end Runs

/-- A buffer of 2 GiB. -/
def two_gib : Buffer where
  start := 4096
  length := 2 ^ 31
  start_nonneg := by decide
  length_pos := by decide
  length_lt := by decide

/-- The first character is written and read. -/
theorem refines_char_array_two_gib :
    let b := (call byte_traits (construct (fun _ => 0) two_gib.start two_gib.length in_out)
      (.put 65)).1
    let s := ((⟨fun _ => 0, two_gib, 0, 0⟩ : CharArray UInt8).call byte_traits in_out (.put 65)).1
    Represents b s ∧ ∀ c, Follows byte_traits b s c ↔ FitsInt b.m_mode s c :=
  refines_char_array (T := byte_traits) (fun _ => 0) two_gib in_out
    (.tail (a := .put 65) .refl trivial rfl)

/-- A seek to the end of the buffer moves the put area's next character before its
    start. -/
theorem seek_end_before_start :
    ¬ ∀ c, Follows byte_traits (construct (fun _ => 0) two_gib.start two_gib.length in_out)
      ⟨fun _ => 0, two_gib, 0, 0⟩ c := by
  intro hall
  have hput := (hall (.seekoff ⟨0, by decide⟩ .end_ ⟨false, true, false, false⟩)).2.put_area
  rw [if_pos (by rfl)] at hput
  exact absurd hput.2.1 (by decide)

end interprocess.bufferbuf
