import Interprocess.Base.Streambuf
import Mathlib.Logic.Function.Iterate

namespace interprocess

open std streambuf

section Pbackfail

variable {B C I : Type} [DecidableEq I]

/-- `pbackfail` is the same in both stream buffers, each with its own characters. -/
def pbackfail (T : char_traits C I) (m_mode : openmode) (areas : B → streambuf)
    (set_areas : B → streambuf → B) (deref : B → Int → C) (store : B → Int → C → B)
    (b : B) (c : I) : B × I :=
  if (areas b).gptr ≠ (areas b).eback then
    if c ≠ T.eof then
      if T.eq (T.to_char_type c) (deref b ((areas b).gptr - 1)) then
        (set_areas b ((areas b).gbump (-1)), c)
      else if m_mode.out then
        let b' := set_areas b ((areas b).gbump (-1))
        (store b' (areas b').gptr (T.to_char_type c), c)
      else (b, T.eof)
    else (set_areas b ((areas b).gbump (-1)), T.not_eof c)
  else (b, T.eof)

variable {T : char_traits C I} {D : Derived B C I} {b : B}

/-- Putting back moves to the character before the next one, and writes there what
    differs from it. -/
theorem sputbackc_eq (m_mode : openmode) (c : C) (hle : (D.areas b).eback ≤ (D.areas b).gptr)
    (hfail : D.pbackfail b = pbackfail T m_mode D.areas D.set_areas D.deref D.store b) :
    sputbackc D T b c =
      if (D.areas b).eback < (D.areas b).gptr then
        let b' := D.set_areas b ((D.areas b).gbump (-1))
        if T.eq c (D.deref b ((D.areas b).gptr - 1)) then
          (b', T.to_int_type (D.deref b ((D.areas b).gptr - 1)))
        else if m_mode.out then (D.store b' (D.areas b').gptr c, T.to_int_type c)
        else (b, T.eof)
      else (b, T.eof) := by
  by_cases hlt : (D.areas b).eback < (D.areas b).gptr
  · have hne : (D.areas b).gptr ≠ (D.areas b).eback := by omega
    simp only [sputbackc, hlt, true_and, if_true]
    split
    · rfl
    · rw [hfail, pbackfail, if_pos hne, if_pos (T.to_int_type_ne_eof c),
        T.to_char_type_to_int_type, if_neg ‹_›]
  · have heq : (D.areas b).gptr = (D.areas b).eback := by omega
    rw [sputbackc, if_neg fun h => hlt h.1, if_neg hlt, hfail, pbackfail, if_neg (not_not.mpr heq)]

/-- Without a character, only the position moves. -/
theorem sungetc_eq (m_mode : openmode) (hle : (D.areas b).eback ≤ (D.areas b).gptr)
    (hfail : D.pbackfail b = pbackfail T m_mode D.areas D.set_areas D.deref D.store b) :
    sungetc D T b =
      if (D.areas b).eback < (D.areas b).gptr then
        (D.set_areas b ((D.areas b).gbump (-1)), T.to_int_type (D.deref b ((D.areas b).gptr - 1)))
      else (b, T.eof) := by
  rw [sungetc]
  split
  · rfl
  · have heq : (D.areas b).gptr = (D.areas b).eback := by omega
    rw [hfail, pbackfail, if_neg (not_not.mpr heq)]

end Pbackfail

/-- A stream buffer over a buffer of the user, with the memory around it. -/
@[ext] structure bufferbuf (C : Type) where
  areas : streambuf
  m_mode : openmode
  m_buffer : Int
  m_length : Nat
  memory : Int → C

namespace bufferbuf

variable {C I : Type} [DecidableEq I] (T : char_traits C I)

def set_areas (b : bufferbuf C) (areas : streambuf) : bufferbuf C :=
  { b with areas := areas }

def deref (b : bufferbuf C) (p : Int) : C :=
  b.memory p

def store (b : bufferbuf C) (p : Int) (c : C) : bufferbuf C :=
  { b with memory := Function.update b.memory p c }

def set_pointers (b : bufferbuf C) : bufferbuf C :=
  let areas := if b.m_mode.in_ then
      b.areas.setg b.m_buffer b.m_buffer (b.m_buffer + b.m_length)
    else b.areas
  b.set_areas (if b.m_mode.out then areas.setp b.m_buffer (b.m_buffer + b.m_length) else areas)

/-- The constructor without a buffer. -/
def construct_empty (memory : Int → C) (mode : openmode) : bufferbuf C :=
  ⟨⟨0, 0, 0, 0, 0, 0⟩, mode, 0, 0, memory⟩

/-- The constructor with a buffer. -/
def construct (memory : Int → C) (buf : Int) (length : Nat) (mode : openmode) : bufferbuf C :=
  set_pointers ⟨⟨0, 0, 0, 0, 0, 0⟩, mode, buf, length, memory⟩

def buffer (b : bufferbuf C) (buf : Int) (length : Nat) : bufferbuf C :=
  set_pointers
    { b with
      m_buffer := buf
      m_length := length }

def underflow (b : bufferbuf C) : bufferbuf C × I :=
  (b, if b.areas.gptr ≠ b.areas.egptr then T.to_int_type (b.deref b.areas.gptr) else T.eof)

def pbackfail (b : bufferbuf C) (c : I) : bufferbuf C × I :=
  interprocess.pbackfail T b.m_mode areas set_areas deref store b c

def overflow (b : bufferbuf C) (c : I) : bufferbuf C × I :=
  if b.m_mode.out then
    if c ≠ T.eof then
      if b.areas.pptr = b.areas.epptr then (b, T.eof)
      else
        ((b.store b.areas.pptr (T.to_char_type c)).set_areas (b.areas.pbump 1), c)
    else (b, T.not_eof c)
  else (b, T.eof)

def derived : Derived (bufferbuf C) C I where
  areas := areas
  set_areas := set_areas
  deref := deref
  store := store
  underflow := underflow T
  pbackfail := pbackfail T
  overflow b c := (overflow T b c).map id some

/-- The second half of `seekoff`, which checks the offset against one area after the
    other. -/
def seek_areas (b : bufferbuf C) (in_ out : Bool) (off : Int) : bufferbuf C × Int :=
  let n := b.areas.egptr - b.areas.eback
  if in_ ∧ (off < 0 ∨ n < off) then (b, -1)
  else
    let b := if in_ then
        b.set_areas (b.areas.setg b.areas.eback (b.areas.eback + off) (b.areas.eback + n))
      else b
    let n := b.areas.epptr - b.areas.pbase
    if out ∧ (off < 0 ∨ n < off) then (b, -1)
    else if out then
      (b.set_areas ((b.areas.setp b.areas.pbase (b.areas.pbase + n)).pbump (to_int off)), off)
    else (b, off)

def seekoff (b : bufferbuf C) (off : Int) (dir : seekdir) (mode : openmode) : bufferbuf C × Int :=
  let inout := mode.in_ && mode.out
  let both := inout && (dir == .beg || dir == .end_)
  let in_ := both || !inout && mode.in_
  let out := both || !inout && !mode.in_ && mode.out
  if !in_ && !out then (b, -1)
  else if in_ && (!b.m_mode.in_ || off != 0 && b.areas.gptr == 0) ||
      out && (!b.m_mode.out || off != 0 && b.areas.pptr == 0) then (b, -1)
  else
    match dir with
    | .beg => seek_areas b in_ out (off_add off 0)
    | .end_ => seek_areas b in_ out (off_add off ((b.m_length : Int).bmod (2 ^ 64)))
    | .cur =>
      seek_areas b in_ out (off_add off
        (if in_ then b.areas.gptr - b.areas.eback else b.areas.pptr - b.areas.pbase))
    | .unknown => (b, -1)

def seekpos (b : bufferbuf C) (pos : Int) (mode : openmode) : bufferbuf C × Int :=
  seekoff b pos .beg mode

end bufferbuf

/-- The `max_size()` of a vector: differences of its pointers fit `off_type`. -/
abbrev Max : Type :=
  { n : Nat // n < 2 ^ 63 }

/-- A vector with contiguous storage: the cells at `data`, of which the first `size`
    are its characters. Without storage there is no address. -/
@[ext] structure char_vector (C : Type) (M : Max) where
  data : Nat
  cells : List C
  size : Nat
  size_le : size ≤ cells.length
  capacity_le : cells.length ≤ M.val
  data_eq_zero_iff : data = 0 ↔ cells.length = 0

/-- Where an allocation puts new cells, and how many more than asked. -/
structure Allocation where
  address : Nat
  address_pos : 0 < address
  extra : Nat

instance : Inhabited Allocation :=
  ⟨⟨1, Nat.one_pos, 0⟩⟩

namespace char_vector

variable {C : Type} {M : Max} [Inhabited C]

/-- The characters. -/
def contents (v : char_vector C M) : List C :=
  v.cells.take v.size

def capacity (v : char_vector C M) : Nat :=
  v.cells.length

/-- `v.size() ? &v[0] : 0`. -/
def front_address (v : char_vector C M) : Int :=
  if v.size ≠ 0 then v.data else 0

/-- The cells after a change that keeps their number. -/
def with_cells (v : char_vector C M) (cells : List C) (size : Nat)
    (hcells : cells.length = v.cells.length) (hsize : size ≤ cells.length) : char_vector C M where
  data := v.data
  cells := cells
  size := size
  size_le := hsize
  capacity_le := hcells ▸ v.capacity_le
  data_eq_zero_iff := hcells ▸ v.data_eq_zero_iff

/-- New cells for at least `n` characters, the old ones among them. -/
def reallocate (A : Allocation) (v : char_vector C M) (n : Nat) (hpos : 0 < n) (hmax : n ≤ M.val) :
    char_vector C M where
  data := A.address
  cells := (v.contents ++ List.replicate (n + A.extra) default).take
    (max n (min (n + A.extra) M.val))
  size := n
  size_le := by
    simp only [List.length_take, List.length_append, List.length_replicate]
    omega
  capacity_le := by
    simp only [List.length_take]
    omega
  data_eq_zero_iff := by
    have haddress := A.address_pos
    simp only [List.length_take, List.length_append, List.length_replicate]
    omega

/-- `resize` inside the capacity. -/
def resize_within (v : char_vector C M) (n : Nat) (hn : n ≤ v.cells.length) : char_vector C M :=
  v.with_cells
    (v.cells.take v.size ++ List.replicate (n - v.size) default ++ v.cells.drop (max n v.size)) n
    (by
      have hsize := v.size_le
      simp only [List.length_append, List.length_take, List.length_replicate, List.length_drop]
      omega)
    (by
      simp only [List.length_append, List.length_take, List.length_replicate, List.length_drop]
      omega)

/-- `resize` throws if the vector cannot hold as many characters. -/
def resize (A : Allocation) (v : char_vector C M) (n : Nat) : Option (char_vector C M) :=
  if hn : n ≤ v.cells.length then some (v.resize_within n hn)
  else if hmax : n ≤ M.val then some (v.reallocate A n (by omega) hmax)
  else none

/-- `push_back` throws if the vector cannot hold one character more. -/
def push_back (A : Allocation) (v : char_vector C M) (c : C) : Option (char_vector C M) :=
  if hsize : v.size < v.cells.length then
    some (v.with_cells (v.cells.set v.size c) (v.size + 1) (List.length_set ..)
      (by rwa [List.length_set]))
  else if hmax : v.size + 1 ≤ M.val then
    let w := v.reallocate A (v.size + 1) (Nat.succ_pos _) hmax
    some (w.with_cells (w.cells.set v.size c) (v.size + 1) (List.length_set ..)
      (by
        rw [List.length_set]
        exact w.size_le))
  else none

/-- `reserve` throws if the vector cannot hold as many characters. -/
def reserve (A : Allocation) (v : char_vector C M) (n : Nat) : Option (char_vector C M) :=
  if hn : n ≤ v.cells.length then some v
  else if hmax : n ≤ M.val then
    let w := v.reallocate A n (by omega) hmax
    some (w.with_cells w.cells v.size rfl (by
      have hsize := v.size_le
      have hroom := w.size_le
      change n ≤ w.cells.length at hroom
      omega))
  else none

def clear (v : char_vector C M) : char_vector C M :=
  v.resize_within 0 (Nat.zero_le _)

end char_vector

/-- A stream buffer over a vector of its own. -/
@[ext] structure vectorbuf (C : Type) (M : Max) where
  areas : streambuf
  m_mode : openmode
  m_vect : char_vector C M
  mp_high_water : Int

namespace vectorbuf

variable {C I : Type} {M : Max} [Inhabited C] [DecidableEq I] (T : char_traits C I)

def set_areas (b : vectorbuf C M) (areas : streambuf) : vectorbuf C M :=
  { b with areas := areas }

def deref (b : vectorbuf C M) (p : Int) : C :=
  b.m_vect.cells.getD (p - b.m_vect.data).toNat default

def store (b : vectorbuf C M) (p : Int) (c : C) : vectorbuf C M :=
  { b with
    m_vect := b.m_vect.with_cells (b.m_vect.cells.set (p - b.m_vect.data).toNat c) b.m_vect.size
      (List.length_set ..)
      (by
        rw [List.length_set]
        exact b.m_vect.size_le) }

/-- `base_t::pbump` repeated for what does not fit an `int`. -/
def pbump (areas : streambuf) (delta : Int) : streambuf :=
  if 2 ^ 31 - 1 < delta then
    (Nat.iterate (fun areas => areas.pbump (2 ^ 31 - 1)) (delta / (2 ^ 31 - 1)).toNat areas).pbump
      (to_int (delta % (2 ^ 31 - 1)))
  else areas.pbump (to_int delta)

/-- The vector is resized to its capacity, which does not reallocate. -/
def initialize_pointers (b : vectorbuf C M) : vectorbuf C M :=
  let b := if !b.m_mode.out then
      if b.m_vect.size = 0 then b.set_areas (b.areas.setg 0 0 0)
      else
        b.set_areas (b.areas.setg b.m_vect.data b.m_vect.data (b.m_vect.data + b.m_vect.size))
    else b
  if b.m_mode.out then
    let real_size := b.m_vect.size
    let vect := b.m_vect.resize_within b.m_vect.cells.length (Nat.le_refl _)
    let high_water : Int := if vect.size ≠ 0 then vect.data + real_size else 0
    let areas := if vect.size = 0 then
        let areas := b.areas.setp 0 0
        if b.m_mode.in_ then areas.setg 0 0 0 else areas
      else
        let areas := b.areas.setp vect.data (vect.data + vect.size)
        if b.m_mode.in_ then areas.setg vect.data vect.data (vect.data + real_size) else areas
    let areas := if b.m_mode.app || b.m_mode.ate then pbump areas real_size else areas
    { b with
      areas := areas
      m_vect := vect
      mp_high_water := high_water }
  else b

/-- The constructor from a vector. -/
def construct (vect : char_vector C M) (mode : openmode) : vectorbuf C M :=
  initialize_pointers ⟨⟨0, 0, 0, 0, 0, 0⟩, mode, vect, 0⟩

/-- The high water mark follows the put area. -/
def update_high_water (b : vectorbuf C M) : vectorbuf C M :=
  if b.mp_high_water < b.areas.pptr then { b with mp_high_water := b.areas.pptr } else b

/-- The result is the vector that the caller gets. -/
def swap_vector (A : Allocation) (b : vectorbuf C M) (vect : char_vector C M) :
    Option (vectorbuf C M × char_vector C M) :=
  if b.m_mode.out then
    let b := b.update_high_water
    (b.m_vect.resize A (b.mp_high_water - b.m_vect.front_address).toNat).map fun old =>
      (initialize_pointers { b with m_vect := vect }, old)
  else some (initialize_pointers { b with m_vect := vect }, b.m_vect)

/-- The vector is cut at the high water mark, and the put area with it. -/
def cut_vector (b : vectorbuf C M) : vectorbuf C M :=
  let old_ptr := b.areas.pbase
  let high_pos := (b.mp_high_water - old_ptr).toNat
  if hmore : high_pos < b.m_vect.size then
    let old_pos := b.areas.pptr - b.areas.pbase
    { b with
      m_vect := b.m_vect.resize_within high_pos
        (Nat.le_trans (Nat.le_of_lt hmore) b.m_vect.size_le)
      areas := pbump (b.areas.setp old_ptr (old_ptr + high_pos)) old_pos }
  else b

/-- The result is `m_vect`. -/
def vector (b : vectorbuf C M) : vectorbuf C M × char_vector C M :=
  let b := if b.m_mode.out then b.update_high_water.cut_vector else b
  (b, b.m_vect)

/-- Only the allocation of the vector can throw, before anything has changed. -/
def reserve (A : Allocation) (b : vectorbuf C M) (size : Nat) : Option (vectorbuf C M) :=
  if b.m_mode.out ∧ b.m_vect.size < size then
    let write_pos := b.areas.pptr - b.areas.pbase
    let read_pos := b.areas.gptr - b.areas.eback
    (b.m_vect.reserve A size).map fun vect =>
      let b := initialize_pointers { b with m_vect := vect }
      let b := b.set_areas (pbump b.areas write_pos)
      if b.m_mode.in_ then
        b.set_areas (b.areas.setg b.areas.eback (b.areas.eback + read_pos) b.areas.egptr)
      else b
  else some b

def clear (b : vectorbuf C M) : vectorbuf C M :=
  initialize_pointers { b with m_vect := b.m_vect.clear }

/-- The end of the get area follows the high water mark. -/
def update_egptr (b : vectorbuf C M) : vectorbuf C M :=
  if b.areas.egptr < b.mp_high_water then
    b.set_areas (b.areas.setg b.areas.eback b.areas.gptr b.mp_high_water)
  else b

def underflow (b : vectorbuf C M) : vectorbuf C M × I :=
  if b.areas.gptr = 0 then (b, T.eof)
  else
    let b := if b.m_mode.out then b.update_high_water.update_egptr else b
    (b, if b.areas.gptr < b.areas.egptr then T.to_int_type (b.deref b.areas.gptr) else T.eof)

def pbackfail (b : vectorbuf C M) (c : I) : vectorbuf C M × I :=
  interprocess.pbackfail T b.m_mode areas set_areas deref store b c

/-- The areas over the vector after `push_back`. -/
def overflow_areas (b : vectorbuf C M) (pushed : char_vector C M) : vectorbuf C M :=
  let new_outpos := b.areas.pptr - b.areas.pbase + 1
  let hipos := max (b.mp_high_water - b.areas.pbase) new_outpos
  let vect := pushed.resize_within pushed.cells.length (Nat.le_refl _)
  let areas := b.areas.setp vect.data (vect.data + vect.size)
  let areas := if b.m_mode.in_ then
      areas.setg vect.data (vect.data + (areas.gptr - areas.eback)) (vect.data + hipos)
    else areas
  { b with
    areas := pbump areas new_outpos
    m_vect := vect
    mp_high_water := vect.data + hipos }

/-- An exception of `push_back` leaves the stream buffer as it is; the result is then
    none. -/
def overflow (A : Allocation) (b : vectorbuf C M) (c : I) : vectorbuf C M × Option I :=
  if b.m_mode.out then
    if c ≠ T.eof then
      match b.m_vect.push_back A (T.to_char_type c) with
      | some pushed => (b.overflow_areas pushed, some c)
      | none => (b, none)
    else (b, some (T.not_eof c))
  else (b, some T.eof)

def derived (A : Allocation) : Derived (vectorbuf C M) C I where
  areas := areas
  set_areas := set_areas
  deref := deref
  store := store
  underflow := underflow T
  pbackfail := pbackfail T
  overflow := overflow T A

/-- The second half of `seekoff`, from the offset `newoff`. -/
def seek_areas (b : vectorbuf C M) (mode : openmode) (limit newoff : Int) : vectorbuf C M × Int :=
  if newoff < 0 ∨ limit < newoff then (b, -1)
  else if b.m_mode.app ∧ mode.out ∧ newoff ≠ limit then (b, -1)
  else
    let b := if mode.in_ then
        b.set_areas (b.areas.setg b.areas.eback (b.areas.eback + newoff) b.areas.egptr)
      else b
    let b := if mode.out then
        b.set_areas (pbump (b.areas.setp b.areas.pbase b.areas.epptr) newoff)
      else b
    (b, newoff)

def seekoff (b : vectorbuf C M) (off : Int) (dir : seekdir) (mode : openmode) : vectorbuf C M × Int :=
  if !mode.in_ && !mode.out then (b, -1)
  else if mode.in_ && mode.out && dir == .cur then (b, -1)
  else if mode.in_ && (!b.m_mode.in_ || off != 0 && b.areas.gptr == 0) ||
      mode.out && (!b.m_mode.out || off != 0 && b.areas.pptr == 0) then (b, -1)
  else
    let b := if b.m_mode.out then
        let b := b.update_high_water
        if b.m_mode.in_ then b.update_egptr else b
      else b
    let limit : Int := if b.m_mode.out then b.mp_high_water - b.areas.pbase else b.m_vect.size
    match dir with
    | .beg => b.seek_areas mode limit (off_add 0 off)
    | .end_ => b.seek_areas mode limit (off_add limit off)
    | .cur =>
      b.seek_areas mode limit (off_add
        (if mode.in_ then b.areas.gptr - b.areas.eback else b.areas.pptr - b.areas.pbase) off)
    | .unknown => (b, -1)

def seekpos (b : vectorbuf C M) (pos : Int) (mode : openmode) : vectorbuf C M × Int :=
  seekoff b pos .beg mode

end vectorbuf

end interprocess
