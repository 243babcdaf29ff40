import Mathlib.Algebra.Group.Int.Defs
import Mathlib.Algebra.Group.Nat.Defs
import Mathlib.Order.Basic

namespace interprocess

/-- A duration in microseconds. -/
structure usduration where
  m_microsecs : UInt64
  deriving DecidableEq

/-- A time point in microseconds since the epoch. -/
structure ustime where
  m_microsecs : UInt64
  deriving DecidableEq

instance : HAdd ustime usduration ustime where
  hAdd t d := ⟨t.m_microsecs + d.m_microsecs⟩

/-- `operator <=`. -/
instance : LE ustime where
  le a b := a.m_microsecs ≤ b.m_microsecs

/-- `operator <`. -/
instance : LT ustime where
  lt a b := a.m_microsecs < b.m_microsecs

instance (a b : ustime) : Decidable (a < b) :=
  inferInstanceAs (Decidable (a.m_microsecs < b.m_microsecs))

def usduration_from_seconds (sec : UInt64) : usduration :=
  ⟨sec * 1000000⟩

def usduration_from_milliseconds (millisec : UInt64) : usduration :=
  ⟨millisec * 1000⟩

/-- The product is one of `unsigned`, 32 bits wide. -/
def ustime_delay_milliseconds (universal_time : UInt64) (msecs : UInt32) : ustime :=
  ustime.mk universal_time + usduration.mk (msecs * 1000).toUInt64

namespace ipcdetail

def duration_to_usduration (d : usduration) : usduration :=
  d

def duration_to_ustime (universal_time : UInt64) (d : usduration) : ustime :=
  ustime.mk universal_time + duration_to_usduration d

/-- `timespec` with 64 bits for each field. -/
structure timespec where
  tv_sec : Int64
  tv_nsec : Int64

def timepoint_to_timespec (tm : ustime) : timespec :=
  let micros := tm.m_microsecs
  { tv_sec := (micros / 1000000).toInt64
    tv_nsec := (micros % 1000000 * 1000).toInt64 }

end ipcdetail

open ipcdetail

/-- A time to wait, with the function that makes a deadline of it. -/
inductive Wait where
  | seconds (sec : UInt64)
  | milliseconds (millisec : UInt64)
  | microseconds (microsecs : UInt64)
  | delay_milliseconds (msecs : UInt32)

namespace Wait

/-- The microseconds to wait. -/
def micros : Wait → Nat
  | seconds sec => sec.toNat * 1000000
  | milliseconds millisec => millisec.toNat * 1000
  | microseconds microsecs => microsecs.toNat
  | delay_milliseconds msecs => msecs.toNat * 1000

/-- The deadline that the program computes. -/
def deadline (universal_time : UInt64) : Wait → ustime
  | seconds sec => duration_to_ustime universal_time (usduration_from_seconds sec)
  | milliseconds millisec => duration_to_ustime universal_time (usduration_from_milliseconds millisec)
  | microseconds microsecs => duration_to_ustime universal_time ⟨microsecs⟩
  | delay_milliseconds msecs => ustime_delay_milliseconds universal_time msecs

/-- The mathematical deadline fits the type. -/
def Representable (universal_time : UInt64) (w : Wait) : Prop :=
  universal_time.toNat + w.micros < 2 ^ 64

def Exact (universal_time : UInt64) (w : Wait) : Prop :=
  (w.deadline universal_time).m_microsecs.toNat = universal_time.toNat + w.micros

instance (universal_time : UInt64) (w : Wait) : Decidable (w.Representable universal_time) :=
  inferInstanceAs (Decidable (_ < _))

instance (universal_time : UInt64) (w : Wait) : Decidable (w.Exact universal_time) :=
  inferInstanceAs (Decidable (_ = _))

/-- The milliseconds of a delay are converted in 32 bits. -/
def Convertible : Wait → Prop
  | delay_milliseconds msecs => msecs.toNat * 1000 < 2 ^ 32
  | _ => True

variable {universal_time : UInt64} {w w' : Wait}

theorem toNat_deadline (universal_time : UInt64) (d : usduration) :
    (ustime.mk universal_time + d).m_microsecs.toNat =
      (universal_time.toNat + d.m_microsecs.toNat) % 2 ^ 64 :=
  UInt64.toNat_add _ _

/-- The deadline is exact if and only if the conversion to microseconds did not wrap. -/
theorem exact_iff (hfits : w.Representable universal_time) :
    w.Exact universal_time ↔ w.Convertible := by
  have hnow := universal_time.toNat_lt
  unfold Representable at hfits
  cases w with
  | seconds sec =>
    have hproduct : (sec * 1000000).toNat = sec.toNat * 1000000 % 2 ^ 64 := UInt64.toNat_mul _ _
    simp only [Exact, Convertible, deadline, duration_to_ustime, duration_to_usduration,
      usduration_from_seconds, toNat_deadline, micros, iff_true, hproduct] at hfits ⊢
    omega
  | milliseconds millisec =>
    have hproduct : (millisec * 1000).toNat = millisec.toNat * 1000 % 2 ^ 64 := UInt64.toNat_mul _ _
    simp only [Exact, Convertible, deadline, duration_to_ustime, duration_to_usduration,
      usduration_from_milliseconds, toNat_deadline, micros, iff_true, hproduct] at hfits ⊢
    omega
  | microseconds microsecs =>
    simp only [Exact, Convertible, deadline, duration_to_ustime, duration_to_usduration,
      toNat_deadline, micros, iff_true] at hfits ⊢
    omega
  | delay_milliseconds msecs =>
    have hproduct : (msecs * 1000).toUInt64.toNat = msecs.toNat * 1000 % 2 ^ 32 := by
      rw [UInt32.toNat_toUInt64]
      exact UInt32.toNat_mul _ _
    have hle := Nat.mod_le (msecs.toNat * 1000) (2 ^ 32)
    have hlt := Nat.mod_lt (msecs.toNat * 1000) (Nat.two_pow_pos 32)
    simp only [Exact, Convertible, deadline, ustime_delay_milliseconds, toNat_deadline, micros,
      hproduct] at hfits ⊢
    rw [Nat.mod_eq_of_lt (by omega)]
    constructor
    · omega
    · intro hconvertible
      rw [Nat.mod_eq_of_lt hconvertible]

theorem exact_not_before (hexact : w.Exact universal_time) :
    ustime.mk universal_time ≤ w.deadline universal_time := by
  refine UInt64.le_iff_toNat_le.mpr ?_
  rw [hexact]
  exact Nat.le_add_right _ _

/-- Longer waits end later. -/
theorem exact_mono (hexact : w.Exact universal_time) (hexact' : w'.Exact universal_time)
    (hle : w.micros ≤ w'.micros) : w.deadline universal_time ≤ w'.deadline universal_time := by
  refine UInt64.le_iff_toNat_le.mpr ?_
  rw [hexact, hexact']
  exact Nat.add_le_add_left hle _

/-- Equal waits end together, in whichever unit they are given. -/
theorem exact_eq (hexact : w.Exact universal_time) (hexact' : w'.Exact universal_time)
    (heq : w.micros = w'.micros) : w.deadline universal_time = w'.deadline universal_time := by
  have hmicros : (w.deadline universal_time).m_microsecs = (w'.deadline universal_time).m_microsecs := by
    refine UInt64.toNat_inj.mp ?_
    rw [hexact, hexact', heq]
  cases hdeadline : w.deadline universal_time
  cases hdeadline' : w'.deadline universal_time
  rw [hdeadline, hdeadline'] at hmicros
  rw [ustime.mk.injEq]
  exact hmicros

end Wait

namespace ipcdetail

theorem toInt_toInt64 {x : UInt64} (hx : x.toNat < 2 ^ 63) : x.toInt64.toInt = x.toNat := by
  have hbits : 2 * x.toBitVec.toNat < 2 ^ 64 := by
    change 2 * x.toNat < 2 ^ 64
    omega
  exact BitVec.toInt_eq_toNat_of_lt hbits

/-- The fields hold the whole seconds and the remaining microseconds. -/
theorem timepoint_to_timespec_fields (tm : ustime) :
    (timepoint_to_timespec tm).tv_sec.toInt = (tm.m_microsecs.toNat / 1000000 : Nat) ∧
      (timepoint_to_timespec tm).tv_nsec.toInt = (tm.m_microsecs.toNat % 1000000 * 1000 : Nat) := by
  have hmicros := tm.m_microsecs.toNat_lt
  have hsec : (tm.m_microsecs / 1000000).toNat = tm.m_microsecs.toNat / 1000000 :=
    UInt64.toNat_div _ _
  have hnsec : (tm.m_microsecs % 1000000 * 1000).toNat = tm.m_microsecs.toNat % 1000000 * 1000 := by
    have hproduct : (tm.m_microsecs % 1000000 * 1000).toNat =
        (tm.m_microsecs % 1000000).toNat * 1000 % 2 ^ 64 := UInt64.toNat_mul _ _
    have hmod : (tm.m_microsecs % 1000000).toNat = tm.m_microsecs.toNat % 1000000 :=
      UInt64.toNat_mod _ _
    rw [hproduct, hmod, Nat.mod_eq_of_lt (by omega)]
  refine ⟨?_, ?_⟩
  · rw [← hsec]
    exact toInt_toInt64 (by omega)
  · rw [← hnsec]
    exact toInt_toInt64 (by omega)

/-- The order of `timespec`s: seconds first. -/
def timespec.Before (a b : timespec) : Prop :=
  a.tv_sec.toInt < b.tv_sec.toInt ∨ a.tv_sec.toInt = b.tv_sec.toInt ∧ a.tv_nsec.toInt < b.tv_nsec.toInt

/-- The nanoseconds are less than a second. -/
def timespec.Normalised (ts : timespec) : Prop :=
  0 ≤ ts.tv_nsec.toInt ∧ ts.tv_nsec.toInt < 1000000000

/-- The conversion is normalised and keeps every microsecond. -/
theorem timepoint_to_timespec_exact (tm : ustime) :
    (timepoint_to_timespec tm).Normalised ∧
      (timepoint_to_timespec tm).tv_sec.toInt * 1000000000 + (timepoint_to_timespec tm).tv_nsec.toInt =
        tm.m_microsecs.toNat * 1000 := by
  obtain ⟨hsec, hnsec⟩ := timepoint_to_timespec_fields tm
  unfold timespec.Normalised
  rw [hsec, hnsec]
  omega

theorem timepoint_to_timespec_before (a b : ustime) :
    (timepoint_to_timespec a).Before (timepoint_to_timespec b) ↔ a < b := by
  obtain ⟨hsec, hnsec⟩ := timepoint_to_timespec_fields a
  obtain ⟨hsec', hnsec'⟩ := timepoint_to_timespec_fields b
  have hlt : a < b ↔ a.m_microsecs.toNat < b.m_microsecs.toNat := UInt64.lt_iff_toNat_lt
  rw [hlt]
  unfold timespec.Before
  rw [hsec, hnsec, hsec', hnsec']
  omega

end ipcdetail

/-- A deadline below 2 ^ 64 is computed exactly if and only if it is not made from
    milliseconds whose product with 1000 wraps in 32 bits. Exact deadlines are not
    before now and monotone in the wait, whatever its unit, and their conversion to
    a `timespec` is normalised, keeps the order and loses no microsecond. -/
theorem deadline_exact_iff (universal_time : UInt64) (w : Wait)
    (hfits : w.Representable universal_time) :
    (w.Exact universal_time ↔ w.Convertible) ∧
    (w.Convertible → ustime.mk universal_time ≤ w.deadline universal_time ∧
      ∀ w' : Wait, w'.Representable universal_time → w'.Convertible →
        (w.micros ≤ w'.micros → w.deadline universal_time ≤ w'.deadline universal_time) ∧
        (w.micros = w'.micros → w.deadline universal_time = w'.deadline universal_time)) ∧
    (timepoint_to_timespec (w.deadline universal_time)).Normalised ∧
    (timepoint_to_timespec (w.deadline universal_time)).tv_sec.toInt * 1000000000 +
        (timepoint_to_timespec (w.deadline universal_time)).tv_nsec.toInt =
      (w.deadline universal_time).m_microsecs.toNat * 1000 ∧
    ∀ tm : ustime, (timepoint_to_timespec (w.deadline universal_time)).Before (timepoint_to_timespec tm) ↔
      w.deadline universal_time < tm := by
  have hiff := Wait.exact_iff hfits
  obtain ⟨hnormalised, hlossless⟩ := timepoint_to_timespec_exact (w.deadline universal_time)
  refine ⟨hiff, ?_, hnormalised, hlossless, timepoint_to_timespec_before _⟩
  intro hconvertible
  have hexact := hiff.mpr hconvertible
  refine ⟨Wait.exact_not_before hexact, ?_⟩
  intro w' hfits' hconvertible'
  have hexact' := (Wait.exact_iff hfits').mpr hconvertible'
  exact ⟨Wait.exact_mono hexact hexact', Wait.exact_eq hexact hexact'⟩

theorem deadline_exact_iff_second :
    (Wait.delay_milliseconds 1000).Exact 5 ∧
      (Wait.delay_milliseconds 1000).deadline 5 = (Wait.seconds 1).deadline 5 := by
  have hdelay := deadline_exact_iff 5 (.delay_milliseconds 1000) (by decide)
  have hconvertible : (Wait.delay_milliseconds 1000).Convertible := by
    show (1000 : UInt32).toNat * 1000 < 2 ^ 32
    decide
  exact ⟨hdelay.1.mpr hconvertible,
    ((hdelay.2.1 hconvertible).2 (.seconds 1) (by decide) trivial).2 (by decide)⟩

/-- A delay of 4294968 milliseconds, 72 minutes, ends after 704 microseconds, before
    one of a second. -/
theorem long_delay_wraps :
    (Wait.delay_milliseconds 4294968).Representable 0 ∧
      (Wait.delay_milliseconds 4294968).deadline 0 = ⟨704⟩ ∧
      ¬ (Wait.delay_milliseconds 4294968).Exact 0 ∧
      (Wait.delay_milliseconds 4294968).deadline 0 < (Wait.delay_milliseconds 1000).deadline 0 := by
  refine ⟨by decide, by decide, by decide, by decide⟩

end interprocess
