import Mathlib.Algebra.Group.Int.Defs
import Mathlib.Algebra.Group.Nat.Defs
import Mathlib.Data.Int.Basic
import Mathlib.Logic.Function.Basic

/-! The part of `std::basic_streambuf` that its derived classes build on. A pointer
    is an address, and 0 is the null pointer. -/

namespace std

/-- The modes of a stream that a stream buffer looks at. -/
structure openmode where
  in_ : Bool
  out : Bool
  app : Bool
  ate : Bool
deriving DecidableEq

/-- The directions of a seek, and any other value of their type. -/
inductive seekdir where
  | beg
  | cur
  | end_
  | unknown
deriving DecidableEq

/-- A value of `off_type`. -/
abbrev off_type : Type :=
  { off : Int // -2 ^ 63 ≤ off ∧ off < 2 ^ 63 }

/-- A seek asks for a position, and only for positions that the mode has. -/
def Requestable (m_mode : openmode) (in_ out : Bool) : Prop :=
  (in_ = true ∨ out = true) ∧ (in_ = true → m_mode.in_ = true) ∧ (out = true → m_mode.out = true)

instance (m_mode : openmode) (in_ out : Bool) : Decidable (Requestable m_mode in_ out) :=
  inferInstanceAs (Decidable ((in_ = true ∨ out = true) ∧ (in_ = true → m_mode.in_ = true) ∧
    (out = true → m_mode.out = true)))

/-- The operations of a character type and its `int_type`. -/
structure char_traits (C I : Type) where
  eof : I
  to_int_type : C → I
  to_char_type : I → C
  not_eof : I → I
  eq : C → C → Bool
  to_char_type_to_int_type : ∀ c, to_char_type (to_int_type c) = c
  to_int_type_ne_eof : ∀ c, to_int_type c ≠ eof

/-- The traits of `char`. -/
def byte_traits : char_traits UInt8 Int where
  eof := -1
  to_int_type c := c.toNat
  to_char_type c := UInt8.ofNat c.toNat
  not_eof c := if c = -1 then 0 else c
  eq c d := c == d
  to_char_type_to_int_type c := by simp
  to_int_type_ne_eof c := by omega

/-- Reading and writing. -/
def in_out : openmode :=
  ⟨true, true, false, false⟩

/-- The pointers of the get area and of the put area. -/
@[ext] structure streambuf where
  eback : Int
  gptr : Int
  egptr : Int
  pbase : Int
  pptr : Int
  epptr : Int

namespace streambuf

/-- A conversion to `int`. -/
def to_int (n : Int) : Int :=
  n.bmod (2 ^ 32)

/-- A sum of `off_type`. -/
def off_add (a b : Int) : Int :=
  (a + b).bmod (2 ^ 64)

def setg (b : streambuf) (eback gptr egptr : Int) : streambuf :=
  { b with
    eback := eback
    gptr := gptr
    egptr := egptr }

/-- The next position becomes the first one. -/
def setp (b : streambuf) (pbase epptr : Int) : streambuf :=
  { b with
    pbase := pbase
    pptr := pbase
    epptr := epptr }

/-- The argument of `gbump` is an `int`. -/
def gbump (b : streambuf) (n : Int) : streambuf :=
  { b with gptr := b.gptr + n }

/-- The argument of `pbump` is an `int`. -/
def pbump (b : streambuf) (n : Int) : streambuf :=
  { b with pptr := b.pptr + n }

theorem off_add_comm (a b : Int) : off_add a b = off_add b a := by
  rw [off_add, off_add, Int.add_comm]

/-- An offset that is added to a position leaves the range of positions also when the
    sum wraps around. -/
theorem off_add_outside {off position limit : Int} (hoff : -2 ^ 63 ≤ off ∧ off < 2 ^ 63)
    (hposition : 0 ≤ position ∧ position < 2 ^ 63) (hlimit : limit < 2 ^ 63) :
    (off_add off position < 0 ∨ limit < off_add off position) ↔
      ¬ (0 ≤ position + off ∧ position + off ≤ limit) := by
  rw [off_add, Int.bmod_def]
  split <;> omega

theorem off_add_inside {off position : Int} (hnonneg : 0 ≤ position + off)
    (hlt : position + off < 2 ^ 63) : off_add off position = position + off := by
  rw [off_add, Int.bmod_def]
  split <;> omega

/-- An `int` holds a position below `2 ^ 31`. -/
theorem to_int_eq_iff {n : Int} (hnonneg : 0 ≤ n) : to_int n = n ↔ n < 2 ^ 31 := by
  rw [to_int, Int.bmod_def]
  split <;> omega

end streambuf

/-- What a derived class `B` gives to the public functions: its areas, the characters
    its pointers lead to and its virtual functions. `overflow` may throw, and has then
    no result. -/
structure Derived (B C I : Type) where
  areas : B → streambuf
  set_areas : B → streambuf → B
  deref : B → Int → C
  store : B → Int → C → B
  underflow : B → B × I
  pbackfail : B → I → B × I
  overflow : B → I → B × Option I

section Public

variable {B C I : Type} [DecidableEq I] (D : Derived B C I) (T : char_traits C I)

def sputc (b : B) (c : C) : B × Option I :=
  if (D.areas b).pptr < (D.areas b).epptr then
    (D.set_areas (D.store b (D.areas b).pptr c) ((D.areas b).pbump 1), some (T.to_int_type c))
  else D.overflow b (T.to_int_type c)

def sgetc (b : B) : B × I :=
  if (D.areas b).gptr < (D.areas b).egptr then (b, T.to_int_type (D.deref b (D.areas b).gptr))
  else D.underflow b

def uflow (b : B) : B × I :=
  let (b', c) := D.underflow b
  if c = T.eof then (b', T.eof)
  else
    (D.set_areas b' ((D.areas b').gbump 1), T.to_int_type (D.deref b' (D.areas b').gptr))

def sbumpc (b : B) : B × I :=
  if (D.areas b).gptr < (D.areas b).egptr then
    (D.set_areas b ((D.areas b).gbump 1), T.to_int_type (D.deref b (D.areas b).gptr))
  else uflow D T b

def sputbackc (b : B) (c : C) : B × I :=
  if (D.areas b).eback < (D.areas b).gptr ∧ T.eq c (D.deref b ((D.areas b).gptr - 1)) = true then
    (D.set_areas b ((D.areas b).gbump (-1)), T.to_int_type (D.deref b ((D.areas b).gptr - 1)))
  else D.pbackfail b (T.to_int_type c)

def sungetc (b : B) : B × I :=
  if (D.areas b).eback < (D.areas b).gptr then
    (D.set_areas b ((D.areas b).gbump (-1)), T.to_int_type (D.deref b ((D.areas b).gptr - 1)))
  else D.pbackfail b T.eof

/-- What the virtual functions of a derived class leave as it is. -/
structure Fixes {X : Type} (f : B → X) : Prop where
  set_areas : ∀ b areas, f (D.set_areas b areas) = f b
  store : ∀ b p c, f (D.store b p c) = f b
  underflow : ∀ b, f (D.underflow b).1 = f b
  pbackfail : ∀ b c, f (D.pbackfail b c).1 = f b
  overflow : ∀ b c, f (D.overflow b c).1 = f b

end Public

section Fixed

variable {B C I X : Type} [DecidableEq I] {D : Derived B C I} {T : char_traits C I} {f : B → X}

omit [DecidableEq I] in
theorem Fixes.sputc (hfixes : Fixes D f) (b : B) (c : C) : f (sputc D T b c).1 = f b := by
  unfold std.sputc
  split
  · rw [hfixes.set_areas, hfixes.store]
  · exact hfixes.overflow b _

omit [DecidableEq I] in
theorem Fixes.sgetc (hfixes : Fixes D f) (b : B) : f (sgetc D T b).1 = f b := by
  unfold std.sgetc
  split
  · rfl
  · exact hfixes.underflow b

theorem Fixes.sbumpc (hfixes : Fixes D f) (b : B) : f (sbumpc D T b).1 = f b := by
  unfold std.sbumpc uflow
  split
  · exact hfixes.set_areas b _
  · dsimp only
    split
    · exact hfixes.underflow b
    · rw [hfixes.set_areas, hfixes.underflow]

omit [DecidableEq I] in
theorem Fixes.sputbackc (hfixes : Fixes D f) (b : B) (c : C) :
    f (sputbackc D T b c).1 = f b := by
  unfold std.sputbackc
  split
  · exact hfixes.set_areas b _
  · exact hfixes.pbackfail b _

omit [DecidableEq I] in
theorem Fixes.sungetc (hfixes : Fixes D f) (b : B) : f (sungetc D T b).1 = f b := by
  unfold std.sungetc
  split
  · exact hfixes.set_areas b _
  · exact hfixes.pbackfail b _

end Fixed

end std
