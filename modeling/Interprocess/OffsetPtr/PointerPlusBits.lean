import Mathlib.Data.Nat.Bitwise
import Interprocess.Detail.Utilities
import Interprocess.OffsetPtr.Run

open interprocess.ipcdetail interprocess.offset_ptr

namespace interprocess.pointer_plus_bits

/-- The number of zero bits below the lowest one, computed by the compiler. -/
def ls_zeros (S : Nat) : Nat :=
  if S = 0 ∨ S % 2 = 1 then 0 else 1 + ls_zeros (S / 2)
termination_by S
decreasing_by omega

/-- The bits that a pointer to objects of some alignment can embed, one less than the
    alignment gives. -/
def max_pointer_plus_bits (OffsetAlignment : Nat) : Nat :=
  size_sub (ls_zeros OffsetAlignment) 1

variable {w : Nat}

/-- The bits above the lowest one, which stands for the null pointer. -/
def Mask (NumBits : Nat) : BitVec w :=
  ((1 : BitVec w) <<< NumBits - 1) <<< 1

/-- The offset of the untagged pointer `p` that is returned for `n`. -/
def get_pointer (NumBits : Nat) (p n n_offset : BitVec w) : BitVec w :=
  let tmp_off := n_offset &&& ~~~(Mask NumBits)
  offset_ptr_to_offset_from_other p n tmp_off

/-- The offset of `n` after the pointer `p` was assigned and the bits were put back. -/
def set_pointer (NumBits : Nat) (n n_offset p p_offset : BitVec w) : BitVec w :=
  let stored_bits := n_offset &&& Mask NumBits
  offset_ptr_to_offset_from_other n p p_offset ||| stored_bits

def get_bits (NumBits : Nat) (n_offset : BitVec w) : Nat :=
  ((n_offset &&& Mask NumBits) >>> 1).toNat % 2 ^ 64

def set_bits (NumBits : Nat) (n_offset : BitVec w) (b : Nat) : BitVec w :=
  let tmp := n_offset &&& ~~~(Mask NumBits)
  tmp ||| BitVec.ofNat w (b <<< 1 % 2 ^ 64)

/-- The alignment of an address. -/
def AlignedTo (alignment : Nat) (a : BitVec w) : Prop :=
  alignment ∣ a.toNat

/-- The assertion of `set_pointer` on the pointer that is assigned. -/
def set_pointer_assert (NumBits : Nat) (p_offset : BitVec w) : Bool :=
  get_bits NumBits p_offset == 0

/-- A tagged pointer object at an address, with the pointer and the bits that were set
    last. Every pointer object is aligned to its offset type, two bytes at least. -/
inductive Reachable (OffsetAlignment NumBits : Nat) : (n n_offset ptr : BitVec w) → (b : Nat) → Prop where
  | construct {n : BitVec w} (haligned : AlignedTo OffsetAlignment n) (heven : AlignedTo 2 n) :
      Reachable OffsetAlignment NumBits n 1 0 0
  | set_pointer {n n_offset ptr p p_offset ptr' : BitVec w} {b : Nat}
      (hreach : Reachable OffsetAlignment NumBits n n_offset ptr b) (hp : Holds p p_offset ptr')
      (heven : AlignedTo 2 p) (htarget : AlignedTo OffsetAlignment ptr') :
      Reachable OffsetAlignment NumBits n (set_pointer NumBits n n_offset p p_offset) ptr' b
  | set_bits {n n_offset ptr : BitVec w} {b b' : Nat}
      (hreach : Reachable OffsetAlignment NumBits n n_offset ptr b) (hbits : b' < 2 ^ NumBits) :
      Reachable OffsetAlignment NumBits n (set_bits NumBits n_offset b') ptr b'
  | relocate {n n_offset ptr : BitVec w} {b : Nat}
      (hreach : Reachable OffsetAlignment NumBits n n_offset ptr b) (displacement : BitVec w)
      (haligned : AlignedTo OffsetAlignment displacement) (heven : AlignedTo 2 displacement)
      (hnonnull : ptr ≠ 0 → ptr + displacement ≠ 0) :
      Reachable OffsetAlignment NumBits (n + displacement) n_offset (static_cast displacement ptr) b

/-- Both components are read back: the pointer through any untagged pointer object. -/
def ReadsBack (NumBits : Nat) (n n_offset ptr : BitVec w) (b : Nat) : Prop :=
  get_bits NumBits n_offset = b ∧ ∀ p : BitVec w, AlignedTo 2 p →
    offset_ptr_to_raw_pointer p (get_pointer NumBits p n n_offset) = ptr

theorem ls_zeros_two_pow (k : Nat) : ls_zeros (2 ^ k) = k := by
  induction k with
  | zero =>
    rw [ls_zeros]
    rfl
  | succ k ih =>
    have hpos := Nat.two_pow_pos k
    rw [ls_zeros, if_neg (by rw [Nat.pow_succ]; omega), Nat.pow_succ,
      Nat.mul_div_cancel _ Nat.two_pos, ih, Nat.add_comm]

theorem max_pointer_plus_bits_two_pow {k : Nat} (hk : 0 < k) (hk' : k < 64) :
    max_pointer_plus_bits (2 ^ k) = k - 1 := by
  rw [max_pointer_plus_bits, ls_zeros_two_pow]
  exact size_sub_of_le hk (Nat.lt_of_lt_of_le hk' (by decide))

variable {NumBits : Nat}

theorem toNat_Mask (hwidth : NumBits + 1 < w) : (Mask NumBits : BitVec w).toNat = (2 ^ NumBits - 1) * 2 := by
  have hpow : 2 ^ (NumBits + 1) < 2 ^ w := Nat.pow_lt_pow_right (by decide) hwidth
  have hpos := Nat.two_pow_pos NumBits
  rw [Nat.pow_succ] at hpow
  have hone : (1 : BitVec w).toNat = 1 := by
    change 1 % 2 ^ w = 1
    exact Nat.mod_eq_of_lt (by omega)
  rw [Mask, BitVec.toNat_shiftLeft, BitVec.toNat_sub, BitVec.toNat_shiftLeft, hone, Nat.shiftLeft_eq,
    Nat.shiftLeft_eq, Nat.one_mul, Nat.mod_eq_of_lt (show 2 ^ NumBits < 2 ^ w by omega)]
  have hsub : (2 ^ w - 1 + 2 ^ NumBits) % 2 ^ w = 2 ^ NumBits - 1 := by
    rw [show 2 ^ w - 1 + 2 ^ NumBits = 2 ^ NumBits - 1 + 2 ^ w by omega, Nat.add_mod_right,
      Nat.mod_eq_of_lt (by omega)]
  rw [hsub, Nat.pow_one, Nat.mod_eq_of_lt (by omega)]

theorem getLsbD_Mask (hwidth : NumBits + 1 < w) (i : Nat) :
    (Mask NumBits : BitVec w).getLsbD i = (decide (1 ≤ i) && decide (i ≤ NumBits)) := by
  have hmul := Nat.testBit_mul_two_pow (2 ^ NumBits - 1) i 1
  rw [Nat.pow_one, Nat.testBit_two_pow_sub_one] at hmul
  rw [BitVec.getLsbD, toNat_Mask hwidth, hmul]
  by_cases hi : 1 ≤ i
  · have hiff : i - 1 < NumBits ↔ i ≤ NumBits := by omega
    simp [hi, hiff]
  · simp [hi]

/-- The sentinel has no bit of the mask. -/
theorem one_and_Mask (hwidth : NumBits + 1 < w) : (1 : BitVec w) &&& Mask NumBits = 0 := by
  refine BitVec.eq_of_getLsbD_eq fun i hi => ?_
  rw [BitVec.getLsbD_and, getLsbD_Mask hwidth]
  by_cases hzero : i = 0
  · simp [hzero]
  · have hbit : (1 : BitVec w).getLsbD i = false := by
      change (1#w).getLsbD i = false
      rw [BitVec.getLsbD_one]
      simp [hzero]
    rw [hbit, Bool.false_and]
    exact BitVec.getLsbD_zero.symm

/-- An offset that is aligned for one bit more has no bit of the mask. -/
theorem aligned_and_Mask (hwidth : NumBits + 1 < w) {offset : BitVec w}
    (haligned : AlignedTo (2 ^ (NumBits + 1)) offset) : offset &&& Mask NumBits = 0 := by
  obtain ⟨c, hc⟩ := haligned
  refine BitVec.eq_of_getLsbD_eq fun i hi => ?_
  rw [BitVec.getLsbD_and, getLsbD_Mask hwidth, BitVec.getLsbD, hc, Nat.mul_comm,
    Nat.testBit_mul_two_pow]
  by_cases hlow : i ≤ NumBits
  · have hnot : ¬ i ≥ NumBits + 1 := by omega
    simp [hnot]
  · simp [hlow]

theorem bits_and_Mask (hwidth : NumBits + 1 < w) {b : Nat} (hb : b < 2 ^ NumBits) :
    BitVec.ofNat w (b * 2) &&& Mask NumBits = BitVec.ofNat w (b * 2) := by
  have hmul := fun i => Nat.testBit_mul_two_pow b i 1
  rw [Nat.pow_one] at hmul
  refine BitVec.eq_of_getLsbD_eq fun i hi => ?_
  rw [BitVec.getLsbD_and, getLsbD_Mask hwidth, BitVec.getLsbD_ofNat, hmul]
  by_cases hlow : 1 ≤ i ∧ i ≤ NumBits
  · simp [hlow]
  · have hnone : (decide (i ≥ 1) && b.testBit (i - 1)) = false := by
      by_cases hone : 1 ≤ i
      · have hlarge : NumBits ≤ i - 1 := by omega
        have hbit : b.testBit (i - 1) = false :=
          Nat.testBit_lt_two_pow (Nat.lt_of_lt_of_le hb (Nat.pow_le_pow_right Nat.two_pos hlarge))
        simp [hbit]
      · simp [hone]
    rw [hnone]
    simp

/-- An offset made of a distance and bits: the mask takes it apart again. -/
structure Tagged (NumBits : Nat) (offset base bits : BitVec w) : Prop where
  base_eq : offset &&& ~~~(Mask NumBits) = base
  bits_eq : offset &&& Mask NumBits = bits

theorem tagged_or {base bits : BitVec w} (hbase : base &&& Mask NumBits = 0)
    (hbits : bits &&& Mask NumBits = bits) : Tagged NumBits (base ||| bits) base bits := by
  have hbase' := fun i => congrArg (fun x => BitVec.getLsbD x i) hbase
  have hbits' := fun i => congrArg (fun x => BitVec.getLsbD x i) hbits
  simp only [BitVec.getLsbD_and] at hbase' hbits'
  refine ⟨?_, ?_⟩
  · refine BitVec.eq_of_getLsbD_eq fun i hi => ?_
    have h₁ := hbase' i
    have h₂ := hbits' i
    simp only [BitVec.getLsbD_and, BitVec.getLsbD_or, BitVec.getLsbD_not, hi, decide_true,
      Bool.true_and]
    revert h₁ h₂
    cases (Mask NumBits : BitVec w).getLsbD i <;> cases base.getLsbD i <;> cases bits.getLsbD i <;>
      simp
  · refine BitVec.eq_of_getLsbD_eq fun i hi => ?_
    have h₁ := hbase' i
    have h₂ := hbits' i
    simp only [BitVec.getLsbD_and, BitVec.getLsbD_or]
    revert h₁ h₂
    cases (Mask NumBits : BitVec w).getLsbD i <;> cases base.getLsbD i <;> cases bits.getLsbD i <;>
      simp

/-- The representation of the pointer and the bits that were set last. -/
structure Represents (NumBits : Nat) (n n_offset ptr : BitVec w) (b : Nat) : Prop where
  tagged : ∃ base, Holds n base ptr ∧ base &&& Mask NumBits = 0 ∧
    Tagged NumBits n_offset base (BitVec.ofNat w (b * 2))
  bits_lt : b < 2 ^ NumBits
  aligned : AlignedTo (2 ^ (NumBits + 1)) n
  target_aligned : AlignedTo (2 ^ (NumBits + 1)) ptr

theorem AlignedTo.even {k : Nat} {a : BitVec w} (haligned : AlignedTo (2 ^ (k + 1)) a) :
    AlignedTo 2 a :=
  Nat.dvd_trans (Nat.dvd_mul_left 2 (2 ^ k)) haligned

theorem AlignedTo.add {k : Nat} (hk : k ≤ w) {a d : BitVec w} (ha : AlignedTo (2 ^ k) a)
    (hd : AlignedTo (2 ^ k) d) : AlignedTo (2 ^ k) (a + d) := by
  unfold AlignedTo
  rw [BitVec.toNat_add]
  exact (Nat.dvd_mod_iff (Nat.pow_dvd_pow 2 hk)).mpr (Nat.dvd_add ha hd)

theorem AlignedTo.sub {k : Nat} (hk : k ≤ w) {a d : BitVec w} (ha : AlignedTo (2 ^ k) a)
    (hd : AlignedTo (2 ^ k) d) : AlignedTo (2 ^ k) (a - d) := by
  unfold AlignedTo
  rw [BitVec.toNat_sub]
  have hword : 2 ^ k ∣ 2 ^ w := Nat.pow_dvd_pow 2 hk
  exact (Nat.dvd_mod_iff hword).mpr (Nat.dvd_add (Nat.dvd_sub hword hd) ha)

/-- An even target is not the distance of the sentinel from an even address. -/
theorem storable_of_even (hw : 1 < w) {a t : BitVec w} (ha : AlignedTo 2 a) (ht : AlignedTo 2 t) :
    Storable a t := by
  refine Or.inr ?_
  rintro rfl
  have hword : 2 ∣ 2 ^ w := Nat.pow_dvd_pow (m := 1) 2 (by omega)
  have hone : (1 : BitVec w).toNat = 1 := by
    have hpow : 2 ^ 1 < 2 ^ w := Nat.pow_lt_pow_right (by decide) hw
    change 1 % 2 ^ w = 1
    exact Nat.mod_eq_of_lt (by omega)
  unfold AlignedTo at ha ht
  rw [BitVec.toNat_add, hone, Nat.dvd_mod_iff hword] at ht
  omega

/-- The distance of an aligned target, or the sentinel, has no bit of the mask. -/
theorem holds_and_Mask (hwidth : NumBits + 1 < w) {n base ptr : BitVec w} (hholds : Holds n base ptr)
    (hn : AlignedTo (2 ^ (NumBits + 1)) n) (hptr : AlignedTo (2 ^ (NumBits + 1)) ptr) :
    base &&& Mask NumBits = 0 := by
  by_cases hnull : ptr = 0
  · rw [hholds.2.mpr hnull]
    exact one_and_Mask hwidth
  · refine aligned_and_Mask hwidth ?_
    have hdistance : base = ptr - n := by
      rw [← hholds.eq_add hnull, BitVec.add_comm, BitVec.add_sub_cancel]
    rw [hdistance]
    exact hptr.sub (by omega) hn

theorem aligned_zero (k : Nat) : AlignedTo (2 ^ k) (0 : BitVec w) := by
  unfold AlignedTo
  simp

theorem Represents.construct (hwidth : NumBits + 1 < w) {n : BitVec w}
    (hn : AlignedTo (2 ^ (NumBits + 1)) n) : Represents NumBits n 1 0 0 := by
  have hnone := bits_and_Mask hwidth (Nat.two_pow_pos NumBits)
  have htagged := tagged_or (one_and_Mask hwidth) hnone
  rw [Nat.zero_mul, BitVec.or_zero] at htagged
  refine ⟨⟨1, holds_default n, one_and_Mask hwidth, ?_⟩, Nat.two_pow_pos _, hn, aligned_zero _⟩
  rw [Nat.zero_mul]
  exact htagged

/-- Setting a pointer re-biases its distance and leaves the bits. -/
theorem Represents.set_pointer {n n_offset ptr p p_offset ptr' : BitVec w} {b : Nat}
    (hrep : Represents NumBits n n_offset ptr b) (hwidth : NumBits + 1 < w) (hp : Holds p p_offset ptr')
    (htarget : AlignedTo (2 ^ (NumBits + 1)) ptr') :
    Represents NumBits n (set_pointer NumBits n n_offset p p_offset) ptr' b := by
  obtain ⟨⟨base, hbase, hclear, htagged⟩, hbits, hn, hptr⟩ := hrep
  have hholds := hp.from_other (storable_of_even (by omega) hn.even htarget.even)
  have hclear' := holds_and_Mask hwidth hholds hn htarget
  refine ⟨⟨_, hholds, hclear', ?_⟩, hbits, hn, htarget⟩
  unfold pointer_plus_bits.set_pointer
  simp only
  rw [htagged.bits_eq]
  exact tagged_or hclear' (bits_and_Mask hwidth hbits)

/-- Setting bits leaves the distance. -/
theorem Represents.set_bits {n n_offset ptr : BitVec w} {b b' : Nat}
    (hrep : Represents NumBits n n_offset ptr b) (hwidth : NumBits + 1 < w) (hword : NumBits < 63)
    (hbits : b' < 2 ^ NumBits) : Represents NumBits n (set_bits NumBits n_offset b') ptr b' := by
  obtain ⟨⟨base, hbase, hclear, htagged⟩, -, hn, hptr⟩ := hrep
  have hpow : 2 ^ NumBits ≤ 2 ^ 62 := Nat.pow_le_pow_right Nat.two_pos (by omega)
  have hshift : b' <<< 1 % 2 ^ 64 = b' * 2 := by
    rw [Nat.shiftLeft_eq, Nat.pow_one, Nat.mod_eq_of_lt (by omega)]
  refine ⟨⟨base, hbase, hclear, ?_⟩, hbits, hn, hptr⟩
  unfold pointer_plus_bits.set_bits
  simp only
  rw [htagged.base_eq, hshift]
  exact tagged_or hclear (bits_and_Mask hwidth hbits)

/-- The distance does not change when the object and its target move together. -/
theorem Represents.relocate {n n_offset ptr displacement : BitVec w} {b : Nat}
    (hrep : Represents NumBits n n_offset ptr b) (hwidth : NumBits + 1 < w)
    (haligned : AlignedTo (2 ^ (NumBits + 1)) displacement)
    (hnonnull : ptr ≠ 0 → ptr + displacement ≠ 0) :
    Represents NumBits (n + displacement) n_offset (static_cast displacement ptr) b := by
  obtain ⟨⟨base, hbase, hclear, htagged⟩, hbits, hn, hptr⟩ := hrep
  have hn' := hn.add (by omega) haligned
  by_cases hnull : ptr = 0
  · rw [static_cast, if_pos hnull]
    rw [hbase.2.mpr hnull] at hclear htagged
    exact ⟨⟨1, holds_default _, hclear, htagged⟩, hbits, hn', aligned_zero _⟩
  · rw [static_cast, if_neg hnull]
    have hptr' := hptr.add (by omega) haligned
    have hstore := storable_of_even (by omega) hn'.even hptr'.even
    have hmoved : n + displacement + base = ptr + displacement := by
      rw [← hbase.eq_add hnull, BitVec.add_assoc, BitVec.add_assoc, BitVec.add_comm displacement]
    exact ⟨⟨base, holds_of_add hmoved (hnonnull hnull) (hstore.resolve_left (hnonnull hnull)), hclear,
      htagged⟩, hbits, hn', hptr'⟩

theorem Reachable.represents {OffsetAlignment b : Nat} {n n_offset ptr : BitVec w}
    (hreach : Reachable OffsetAlignment NumBits n n_offset ptr b) (hwidth : NumBits + 1 < w)
    (hword : NumBits < 63) (halignment : 2 ^ (NumBits + 1) ∣ OffsetAlignment) :
    Represents NumBits n n_offset ptr b := by
  have haligned : ∀ {a : BitVec w}, AlignedTo OffsetAlignment a → AlignedTo (2 ^ (NumBits + 1)) a :=
    fun h => Nat.dvd_trans halignment h
  induction hreach with
  | construct hn heven => exact Represents.construct hwidth (haligned hn)
  | set_pointer hreach hp heven htarget ih => exact ih.set_pointer hwidth hp (haligned htarget)
  | set_bits hreach hbits ih => exact ih.set_bits hwidth hword hbits
  | relocate hreach displacement hd heven hnonnull ih =>
    exact ih.relocate hwidth (haligned hd) hnonnull

theorem Represents.readsBack {n n_offset ptr : BitVec w} {b : Nat}
    (hrep : Represents NumBits n n_offset ptr b) (hwidth : NumBits + 1 < w) (hword : NumBits < 63) :
    ReadsBack NumBits n n_offset ptr b := by
  obtain ⟨⟨base, hbase, hclear, htagged⟩, hbits, hn, hptr⟩ := hrep
  have hpow : 2 ^ (NumBits + 1) < 2 ^ w := Nat.pow_lt_pow_right (by decide) hwidth
  have hpow' : 2 ^ NumBits ≤ 2 ^ 62 := Nat.pow_le_pow_right Nat.two_pos (by omega)
  rw [Nat.pow_succ] at hpow
  refine ⟨?_, ?_⟩
  · rw [get_bits, htagged.bits_eq, BitVec.toNat_ushiftRight, BitVec.toNat_ofNat,
      Nat.mod_eq_of_lt (show b * 2 < 2 ^ w by omega), Nat.shiftRight_eq_div_pow, Nat.pow_one,
      Nat.mul_div_cancel _ Nat.two_pos, Nat.mod_eq_of_lt (by omega)]
  · intro p hp
    unfold get_pointer
    simp only
    rw [htagged.base_eq]
    exact (hbase.from_other (storable_of_even (by omega) hp hptr.even)).1

/-- The assertion on the pointer that is assigned holds when its object is aligned like
    its target. -/
theorem set_pointer_assert_of_aligned (hwidth : NumBits + 1 < w) {p p_offset ptr : BitVec w}
    (hp : Holds p p_offset ptr) (haligned : AlignedTo (2 ^ (NumBits + 1)) p)
    (htarget : AlignedTo (2 ^ (NumBits + 1)) ptr) : set_pointer_assert NumBits p_offset = true := by
  rw [set_pointer_assert, get_bits, holds_and_Mask hwidth hp haligned htarget]
  simp

theorem toNat_ofNat_small (hw : 5 ≤ w) {x : Nat} (hx : x < 32) : (BitVec.ofNat w x).toNat = x := by
  have hpow : 2 ^ 5 ≤ 2 ^ w := Nat.pow_le_pow_right Nat.two_pos hw
  rw [BitVec.toNat_ofNat, Nat.mod_eq_of_lt (by omega)]

theorem ofNat_small_ne (hw : 5 ≤ w) {x y : Nat} (hx : x < 32) (hy : y < 32) (hne : x ≠ y) :
    BitVec.ofNat w x ≠ BitVec.ofNat w y := by
  intro heq
  rw [← toNat_ofNat_small hw hx, ← toNat_ofNat_small hw hy, heq] at hne
  exact hne rfl

/-- The offset that a pointer gets from an object elsewhere is its distance. -/
theorem from_other_of_holds {n p p_offset ptr : BitVec w} (hp : Holds p p_offset ptr) (hnull : ptr ≠ 0) :
    offset_ptr_to_offset_from_other n p p_offset = ptr - n := by
  rw [offset_ptr_to_offset_from_other_eq, offset_ptr_to_offset_from_other_branching,
    if_neg (mt hp.2.mp hnull), ← hp.eq_add hnull, BitVec.sub_eq_add_neg, BitVec.sub_eq_add_neg,
    BitVec.add_assoc, BitVec.add_assoc, BitVec.add_comm (-n)]

theorem even_ofNat_small (hw : 5 ≤ w) {x : Nat} (hx : x < 16) : AlignedTo 2 (BitVec.ofNat w (2 * x)) := by
  unfold AlignedTo
  rw [toNat_ofNat_small hw (by omega)]
  exact Nat.dvd_mul_right 2 x

theorem storable_small (hw : 5 ≤ w) {a t : Nat} (ha : a + 1 < 32) (ht : t < 32) (hne : t ≠ a + 1) :
    Storable (BitVec.ofNat w a) (BitVec.ofNat w t) := by
  refine Or.inr ?_
  rw [show BitVec.ofNat w a + 1 = BitVec.ofNat w (a + 1) from (BitVec.ofNat_add a 1).symm]
  exact ofNat_small_ne hw ht ha hne

theorem sub_eight (x : Nat) : BitVec.ofNat w (x + 8) - 8#w = BitVec.ofNat w x := by
  rw [BitVec.ofNat_add, BitVec.add_sub_cancel]

/-- Without bits, a target one byte behind the object is taken for null. -/
theorem next_byte_reads_null (hw : 5 ≤ w) :
    ∃ n n_offset ptr : BitVec w, Reachable 1 0 n n_offset ptr 0 ∧ ¬ ReadsBack 0 n n_offset ptr 0 := by
  have hnull : (9#w) ≠ 0 := ofNat_small_ne hw (by decide) (by decide) (by decide)
  have hp := holds_offset_ptr_to_offset (storable_small hw (a := 16) (t := 9) (by decide) (by decide)
    (by decide))
  have hreach : Reachable 1 0 (8#w) _ (9#w) 0 :=
    .set_pointer (.construct (Nat.one_dvd _) (even_ofNat_small hw (x := 4) (by decide))) hp
      (even_ofNat_small hw (x := 8) (by decide)) (Nat.one_dvd _)
  have hmask : (Mask 0 : BitVec w) = 0 := by
    refine BitVec.eq_of_toNat_eq ?_
    rw [toNat_Mask (by omega)]
    rfl
  have hoffset : set_pointer 0 (8#w) 1 (16#w) (offset_ptr_to_offset (9#w) (16#w)) = 1 := by
    unfold set_pointer
    simp only
    rw [from_other_of_holds hp hnull, sub_eight 1, hmask]
    simp
  refine ⟨_, _, _, hreach, ?_⟩
  rintro ⟨-, hread⟩
  have hget := hread (16#w) (even_ofNat_small hw (x := 8) (by decide))
  have hkept : (1 : BitVec w) &&& ~~~0 = 1 := by simp
  unfold get_pointer at hget
  rw [hoffset, hmask] at hget
  simp only at hget
  rw [hkept, offset_ptr_to_offset_from_other_eq, offset_ptr_to_offset_from_other_branching, if_pos rfl,
    offset_ptr_to_raw_pointer_eq, offset_ptr_to_raw_pointer_branching, if_pos rfl] at hget
  exact hnull hget.symm

/-- With bits, a target two bytes behind the object sets one of them. -/
theorem next_bytes_set_bits (hw : 5 ≤ w) (hwidth : NumBits + 1 < w) (hsome : 0 < NumBits) :
    ∃ n n_offset ptr : BitVec w, Reachable 1 NumBits n n_offset ptr 0 ∧
      ¬ ReadsBack NumBits n n_offset ptr 0 := by
  have hnull : (10#w) ≠ 0 := ofNat_small_ne hw (by decide) (by decide) (by decide)
  have hp := holds_offset_ptr_to_offset (storable_small hw (a := 16) (t := 10) (by decide) (by decide)
    (by decide))
  have hreach : Reachable 1 NumBits (8#w) _ (10#w) 0 :=
    .set_pointer (.construct (Nat.one_dvd _) (even_ofNat_small hw (x := 4) (by decide))) hp
      (even_ofNat_small hw (x := 8) (by decide)) (Nat.one_dvd _)
  have hone : 1 < 2 ^ NumBits := Nat.one_lt_two_pow (by omega)
  have hoffset : set_pointer NumBits (8#w) 1 (16#w) (offset_ptr_to_offset (10#w) (16#w)) =
      BitVec.ofNat w (1 * 2) := by
    unfold set_pointer
    simp only
    rw [from_other_of_holds hp hnull, sub_eight 2, one_and_Mask hwidth]
    simp
  refine ⟨_, _, _, hreach, ?_⟩
  rintro ⟨hbits, -⟩
  rw [hoffset, get_bits, bits_and_Mask hwidth hone, BitVec.toNat_ushiftRight,
    toNat_ofNat_small hw (by decide)] at hbits
  exact absurd hbits (by decide)

/-- With as many bits as the trait allows for an alignment, both components of a tagged
    pointer are read back after every sequence of operations, and no assertion fails on
    an aligned pointer, if and only if the alignment is not 1. -/
theorem tagged_pointer_reads_back {k : Nat} (hw : 5 ≤ w) (hwidth : NumBits + 1 < w) (hk : k < 64)
    (hbits : NumBits ≤ max_pointer_plus_bits (2 ^ k)) :
    ((∀ (n n_offset ptr : BitVec w) (b : Nat), Reachable (2 ^ k) NumBits n n_offset ptr b →
        ReadsBack NumBits n n_offset ptr b) ∧
      ∀ p p_offset ptr : BitVec w, Holds p p_offset ptr → AlignedTo (2 ^ k) p →
        AlignedTo (2 ^ k) ptr → set_pointer_assert NumBits p_offset = true) ↔ 2 ^ k ≠ 1 := by
  constructor
  · rintro ⟨hall, -⟩ hone
    rw [hone] at hall
    rcases Nat.eq_zero_or_pos NumBits with rfl | hsome
    · obtain ⟨n, n_offset, ptr, hreach, hnot⟩ := next_byte_reads_null hw
      exact hnot (hall n n_offset ptr 0 hreach)
    · obtain ⟨n, n_offset, ptr, hreach, hnot⟩ := next_bytes_set_bits hw hwidth hsome
      exact hnot (hall n n_offset ptr 0 hreach)
  · intro hne
    have hpos : 0 < k := by
      refine Nat.pos_of_ne_zero fun hzero => hne ?_
      rw [hzero, Nat.pow_zero]
    rw [max_pointer_plus_bits_two_pow hpos hk] at hbits
    have halignment : 2 ^ (NumBits + 1) ∣ 2 ^ k := Nat.pow_dvd_pow 2 (by omega)
    refine ⟨fun n n_offset ptr b hreach => ?_, fun p p_offset ptr hp haligned htarget => ?_⟩
    · exact (hreach.represents hwidth (by omega) halignment).readsBack hwidth (by omega)
    · exact set_pointer_assert_of_aligned hwidth hp (Nat.dvd_trans halignment haligned)
        (Nat.dvd_trans halignment htarget)

/-- A pointer to its own address, with a bit. -/
theorem tagged_pointer_reads_back_self :
    ReadsBack 1 (8#64) (set_bits 1 (set_pointer 1 (8#64) 1 (16#64) (offset_ptr_to_offset (8#64) (16#64))) 1)
      (8#64) 1 := by
  have hp : Holds (16#64) (offset_ptr_to_offset (8#64) (16#64)) (8#64) :=
    holds_offset_ptr_to_offset (Or.inr (by decide))
  have hfour : ∀ x : Nat, x < 2 ^ 60 → AlignedTo (2 ^ 2) (BitVec.ofNat 64 (4 * x)) := by
    intro x hx
    unfold AlignedTo
    rw [BitVec.toNat_ofNat, Nat.mod_eq_of_lt (by omega)]
    exact Nat.dvd_mul_right 4 x
  have hreach : Reachable (2 ^ 2) 1 (8#64) _ (8#64) 1 :=
    .set_bits (.set_pointer (.construct (hfour 2 (by decide)) (AlignedTo.even (hfour 2 (by decide)))) hp
      (AlignedTo.even (hfour 4 (by decide))) (hfour 2 (by decide))) (by decide)
  have hmax : 1 ≤ max_pointer_plus_bits (2 ^ 2) := by
    rw [max_pointer_plus_bits_two_pow (by decide) (by decide)]
  exact ((tagged_pointer_reads_back (by decide) (by decide) (by decide) hmax).mpr (by decide)).1 _ _ _ _
    hreach

/-- For an alignment of 1 the trait wraps and promises every bit; one bit is then set by
    a target two bytes behind the object. -/
theorem unaligned_target_sets_bit :
    max_pointer_plus_bits 1 = 2 ^ 64 - 1 ∧
      Reachable 1 1 (8#64) (set_pointer 1 (8#64) 1 (16#64) (offset_ptr_to_offset (10#64) (16#64))) (10#64) 0 ∧
      ¬ ReadsBack 1 (8#64) (set_pointer 1 (8#64) 1 (16#64) (offset_ptr_to_offset (10#64) (16#64))) (10#64) 0 := by
  refine ⟨?_, ?_, ?_⟩
  · rw [max_pointer_plus_bits, show ls_zeros 1 = 0 from ls_zeros_two_pow 0]
    decide
  · exact .set_pointer (.construct (Nat.one_dvd _) (by unfold AlignedTo; decide))
      (holds_offset_ptr_to_offset (Or.inr (by decide))) (by unfold AlignedTo; decide) (Nat.one_dvd _)
  · rintro ⟨hbits, -⟩
    exact absurd hbits (by decide)

end interprocess.pointer_plus_bits
