import Interprocess.Base.Ranges
import Interprocess.Detail.LeastMultiples
import Mathlib.Tactic.SplitIfs

open interprocess.ipcdetail

namespace interprocess.message_queue.memory_layout

/-- Sizes and alignments of the types a queue is made of, as the compiler lays them
    out: a size is a multiple of the alignment, a class is aligned like its members,
    and `max_align_t` like every type. Alignments are powers of two, far below the
    size of the address space. -/
structure Abi where
  sizeof_mq_hdr_t : Nat
  alignof_mq_hdr_t : Nat
  sizeof_msg_hdr_t : Nat
  alignof_msg_hdr_t : Nat
  sizeof_msg_hdr_ptr_t : Nat
  alignof_msg_hdr_ptr_t : Nat
  RequiredAlignment : Nat
  mq_hdr_pos : 0 < sizeof_mq_hdr_t
  msg_hdr_pos : 0 < sizeof_msg_hdr_t
  mq_hdr_dvd : alignof_mq_hdr_t ∣ sizeof_mq_hdr_t
  msg_hdr_dvd : alignof_msg_hdr_t ∣ sizeof_msg_hdr_t
  pointer_member : alignof_msg_hdr_ptr_t ∣ alignof_mq_hdr_t
  size_member : alignof_msg_hdr_t ∣ alignof_mq_hdr_t
  required : alignof_mq_hdr_t ∣ RequiredAlignment
  power_of_two : RequiredAlignment ∣ 2 ^ 31

/-- Where the parts of a queue are placed. -/
structure Placement where
  header : Nat
  index : Nat
  slots : List Nat

section Model

variable (abi : Abi)

def ManagedOpenOrCreateUserOffset : Nat :=
  ct_rounded_size 4 abi.RequiredAlignment

def r_hdr_size : Nat :=
  ct_rounded_size abi.sizeof_mq_hdr_t abi.alignof_msg_hdr_ptr_t

def r_index_size (max_num_msg : Nat) : Nat :=
  get_rounded_size (max_num_msg * abi.sizeof_msg_hdr_ptr_t % 2 ^ 64) abi.alignof_msg_hdr_t

def r_max_msg_size (max_msg_size : Nat) : Nat :=
  (get_rounded_size max_msg_size abi.alignof_msg_hdr_t + abi.sizeof_msg_hdr_t) % 2 ^ 64

/-- The bytes needed to construct a queue, as `size_type` computes them. -/
def get_mem_size (max_msg_size max_num_msg : Nat) : Nat :=
  (r_hdr_size abi + r_index_size abi max_num_msg + max_num_msg * r_max_msg_size abi max_msg_size +
    ManagedOpenOrCreateUserOffset abi) % 2 ^ 64

/-- The size the initialization functor asks for. -/
def get_min_size (max_msg_size max_num_msg : Nat) : Nat :=
  size_sub (get_mem_size abi max_msg_size max_num_msg) (ManagedOpenOrCreateUserOffset abi)

/-- `size == std::size_t(offset_t(size))`, with a signed type of 64 bits between. -/
def check_offset_t_size (size : Nat) : Bool :=
  size == (Int.bmod size (2 ^ 64) % 2 ^ 64).toNat

/-- The size checks of `priv_open_or_create` before it creates a device. -/
def size_checks (size func_min_size : Nat) : Bool :=
  if 2 ^ 64 - 1 - ManagedOpenOrCreateUserOffset abi < func_min_size ∨
      size < (func_min_size + ManagedOpenOrCreateUserOffset abi) % 2 ^ 64 then false
  else check_offset_t_size size

/-- The loop of `initialize_memory` over the index. -/
def slot_pointers (r_max_msg_size : Nat) : (msg_hdr max_num_msg : Nat) → List Nat
  | _, 0 => []
  | msg_hdr, n + 1 =>
    msg_hdr :: slot_pointers r_max_msg_size ((msg_hdr + r_max_msg_size) % 2 ^ 64) n

/-- The queue header, constructed behind the word of the segment, places the index
    and the slots. -/
def initialize_memory (region max_msg_size max_num_msg : Nat) : Placement :=
  let header := region + ManagedOpenOrCreateUserOffset abi
  { header
    index := header + r_hdr_size abi
    slots := slot_pointers (r_max_msg_size abi max_msg_size)
      ((header + r_hdr_size abi + r_index_size abi max_num_msg) % 2 ^ 64) max_num_msg }

end Model

/-- The memory of the header, the index and the slots. -/
def Placement.ranges (abi : Abi) (max_msg_size max_num_msg : Nat) (p : Placement) : List Range :=
  ⟨p.header, abi.sizeof_mq_hdr_t⟩ :: ⟨p.index, max_num_msg * abi.sizeof_msg_hdr_ptr_t⟩ ::
    p.slots.map fun slot => ⟨slot, abi.sizeof_msg_hdr_t + max_msg_size⟩

/-- The parts do not overlap, lie in the region and are aligned. -/
structure WellPlaced (abi : Abi) (region size max_msg_size max_num_msg : Nat) (p : Placement) :
    Prop where
  apart : (p.ranges abi max_msg_size max_num_msg).Pairwise Range.Apart
  inside : ∀ a ∈ p.ranges abi max_msg_size max_num_msg, a.Inside region (region + size)
  header_aligned : abi.alignof_mq_hdr_t ∣ p.header
  index_aligned : abi.alignof_msg_hdr_ptr_t ∣ p.index
  slots_aligned : ∀ slot ∈ p.slots, abi.alignof_msg_hdr_t ∣ slot
  slots_length : p.slots.length = max_num_msg

/-- The bytes needed to construct a queue. -/
def unreduced_size (abi : Abi) (max_msg_size max_num_msg : Nat) : Nat :=
  r_hdr_size abi + least_multiple abi.alignof_msg_hdr_t (max_num_msg * abi.sizeof_msg_hdr_ptr_t) +
    max_num_msg * (least_multiple abi.alignof_msg_hdr_t max_msg_size + abi.sizeof_msg_hdr_t) +
    ManagedOpenOrCreateUserOffset abi

section Sizes

variable (abi : Abi)

theorem Abi.required_pos : 0 < abi.RequiredAlignment :=
  Nat.pos_of_dvd_of_pos abi.power_of_two (Nat.two_pow_pos 31)

theorem Abi.required_le : abi.RequiredAlignment ≤ 2 ^ 31 :=
  Nat.le_of_dvd (Nat.two_pow_pos 31) abi.power_of_two

theorem Abi.mq_hdr_align_pos : 0 < abi.alignof_mq_hdr_t :=
  Nat.pos_of_dvd_of_pos abi.required abi.required_pos

theorem Abi.msg_hdr_align_pos : 0 < abi.alignof_msg_hdr_t :=
  Nat.pos_of_dvd_of_pos abi.size_member abi.mq_hdr_align_pos

theorem Abi.pointer_align_pos : 0 < abi.alignof_msg_hdr_ptr_t :=
  Nat.pos_of_dvd_of_pos abi.pointer_member abi.mq_hdr_align_pos

theorem Abi.msg_hdr_dvd_word : abi.alignof_msg_hdr_t ∣ 2 ^ 64 :=
  abi.size_member.trans (abi.required.trans (abi.power_of_two.trans (Nat.pow_dvd_pow 2 (by decide))))

theorem Abi.msg_hdr_align_le : abi.alignof_msg_hdr_t ≤ abi.sizeof_msg_hdr_t :=
  Nat.le_of_dvd abi.msg_hdr_pos abi.msg_hdr_dvd

theorem offset_dvd : abi.RequiredAlignment ∣ ManagedOpenOrCreateUserOffset abi :=
  dvd_ct_rounded_size _ _

theorem Abi.msg_hdr_align_le_required : abi.alignof_msg_hdr_t ≤ abi.RequiredAlignment :=
  Nat.le_of_dvd abi.required_pos (abi.size_member.trans abi.required)

theorem offset_le : ManagedOpenOrCreateUserOffset abi ≤ abi.RequiredAlignment + 3 := by
  have hnext := next_multiple_bounds (n := 4 - 1) abi.required_pos
  unfold ManagedOpenOrCreateUserOffset ct_rounded_size
  omega

/-- The header is already rounded, for a pointer to the index is one of its members. -/
theorem r_hdr_size_eq : r_hdr_size abi = abi.sizeof_mq_hdr_t := by
  obtain ⟨q, hq⟩ := abi.pointer_member.trans abi.mq_hdr_dvd
  have hpos := abi.mq_hdr_pos
  have halign := abi.pointer_align_pos
  have hdiv : (abi.sizeof_mq_hdr_t - 1) / abi.alignof_msg_hdr_ptr_t = q - 1 := by
    rw [hq] at hpos ⊢
    rw [Nat.mul_sub_div 0 _ _ hpos, Nat.zero_div]
  have hq' : 0 < q := Nat.pos_of_mul_pos_left (hq ▸ hpos)
  rw [r_hdr_size, ct_rounded_size, hdiv, Nat.sub_add_cancel hq', Nat.mul_comm, ← hq]

theorem r_index_size_eq (max_num_msg : Nat) : r_index_size abi max_num_msg =
    least_multiple abi.alignof_msg_hdr_t (max_num_msg * abi.sizeof_msg_hdr_ptr_t) % 2 ^ 64 :=
  get_rounded_size_mod abi.msg_hdr_align_pos abi.msg_hdr_dvd_word _

theorem r_max_msg_size_eq {max_msg_size : Nat} (hmsg : max_msg_size < 2 ^ 64) :
    r_max_msg_size abi max_msg_size =
      (least_multiple abi.alignof_msg_hdr_t max_msg_size + abi.sizeof_msg_hdr_t) % 2 ^ 64 := by
  have hrounded := get_rounded_size_mod abi.msg_hdr_align_pos abi.msg_hdr_dvd_word max_msg_size
  rw [Nat.mod_eq_of_lt hmsg] at hrounded
  rw [r_max_msg_size, hrounded, Nat.mod_add_mod]

/-- The wraps of all sums and products come to one reduction. -/
theorem get_mem_size_eq {max_msg_size : Nat} (hmsg : max_msg_size < 2 ^ 64) (max_num_msg : Nat) :
    get_mem_size abi max_msg_size max_num_msg =
      unreduced_size abi max_msg_size max_num_msg % 2 ^ 64 := by
  unfold get_mem_size unreduced_size
  rw [r_index_size_eq, r_max_msg_size_eq abi hmsg]
  exact Nat.ModEq.add_right _ (Nat.ModEq.add (Nat.ModEq.add_left _ (Nat.mod_modEq _ _))
    (Nat.ModEq.mul_left _ (Nat.mod_modEq _ _)))

theorem check_offset_t_size_eq {size : Nat} (hsize : size < 2 ^ 64) :
    check_offset_t_size size = true := by
  unfold check_offset_t_size
  rw [beq_iff_eq, Int.bmod_def]
  split_ifs <;> omega

/-- The checks compare the size with itself: they let everything pass that has room
    for the word of the segment, also a size that wrapped. -/
theorem size_checks_iff (max_msg_size max_num_msg : Nat) :
    size_checks abi (get_mem_size abi max_msg_size max_num_msg)
        (get_min_size abi max_msg_size max_num_msg) = true ↔
      ManagedOpenOrCreateUserOffset abi ≤ get_mem_size abi max_msg_size max_num_msg := by
  have hoffset := offset_le abi
  have hrequired := abi.required_le
  have hsize : get_mem_size abi max_msg_size max_num_msg < 2 ^ 64 :=
    Nat.mod_lt _ (Nat.two_pow_pos 64)
  unfold size_checks get_min_size size_sub
  rw [check_offset_t_size_eq hsize]
  split_ifs with hthrows
  · simp only [false_iff]
    omega
  · simp only [true_iff]
    omega

end Sizes

section Placed

variable {abi : Abi} {max_msg_size max_num_msg : Nat}

theorem slot_pointers_length (stride msg_hdr n : Nat) :
    (slot_pointers stride msg_hdr n).length = n := by
  induction n generalizing msg_hdr with
  | zero => rfl
  | succ n ih => rw [slot_pointers, List.length_cons, ih]

/-- Slots that stay in the address space follow each other. -/
theorem slot_pointers_eq {stride msg_hdr n : Nat} (hstride : 0 < stride)
    (hfits : msg_hdr + n * stride ≤ 2 ^ 64) :
    slot_pointers stride msg_hdr n = (List.range n).map fun i => msg_hdr + i * stride := by
  induction n generalizing msg_hdr with
  | zero => rfl
  | succ n ih =>
    rw [Nat.succ_mul] at hfits
    have hrest : slot_pointers stride ((msg_hdr + stride) % 2 ^ 64) n =
        (List.range n).map fun i => msg_hdr + stride + i * stride := by
      rcases Nat.eq_zero_or_pos n with rfl | hn
      · rfl
      · have hmore : stride ≤ n * stride := Nat.le_mul_of_pos_left _ hn
        rw [Nat.mod_eq_of_lt (show msg_hdr + stride < 2 ^ 64 by omega), ih (by omega)]
    rw [slot_pointers, hrest, List.range_succ_eq_map, List.map_cons, List.map_map, Nat.zero_mul,
      Nat.add_zero]
    congr 2
    funext i
    simp only [Function.comp_apply, Nat.succ_mul]
    omega

/-- The parts of a well placed queue have room together. -/
theorem WellPlaced.sum_le {region size : Nat} {p : Placement}
    (hplaced : WellPlaced abi region size max_msg_size max_num_msg p) :
    abi.sizeof_mq_hdr_t + max_num_msg * abi.sizeof_msg_hdr_ptr_t +
      max_num_msg * (abi.sizeof_msg_hdr_t + max_msg_size) ≤ size := by
  have hsum := Range.sum_size_le hplaced.apart hplaced.inside
  have hslots : ((p.slots.map fun slot => Range.mk slot (abi.sizeof_msg_hdr_t + max_msg_size)).map
      Range.size).sum = max_num_msg * (abi.sizeof_msg_hdr_t + max_msg_size) := by
    rw [List.map_map, show (Range.size ∘ fun slot => Range.mk slot (abi.sizeof_msg_hdr_t + max_msg_size)) =
      fun _ => abi.sizeof_msg_hdr_t + max_msg_size from rfl, List.map_const',
      List.sum_replicate_nat, hplaced.slots_length]
  rw [Placement.ranges, List.map_cons, List.sum_cons, List.map_cons, List.sum_cons, hslots] at hsum
  dsimp only at hsum
  omega

/-- Rounding adds less than the messages take themselves, so a size that wraps is too
    small for them. -/
theorem unreduced_size_lt {size : Nat} (hsize : size = unreduced_size abi max_msg_size max_num_msg % 2 ^ 64)
    (hroom : abi.sizeof_mq_hdr_t + max_num_msg * abi.sizeof_msg_hdr_ptr_t +
      max_num_msg * (abi.sizeof_msg_hdr_t + max_msg_size) ≤ size) :
    unreduced_size abi max_msg_size max_num_msg < 2 ^ 64 := by
  by_contra hwraps
  have hmod : size + 2 ^ 64 ≤ unreduced_size abi max_msg_size max_num_msg := by omega
  have hsize64 : size < 2 ^ 64 := by omega
  unfold unreduced_size at hmod
  rw [r_hdr_size_eq] at hmod
  have hpos := abi.msg_hdr_align_pos
  have hindex := (least_multiple_bounds (n := max_num_msg * abi.sizeof_msg_hdr_ptr_t) hpos).2
  have hmsg := (least_multiple_bounds (n := max_msg_size) hpos).2
  have hpads : max_num_msg * (least_multiple abi.alignof_msg_hdr_t max_msg_size + 1) ≤
      max_num_msg * (max_msg_size + abi.alignof_msg_hdr_t) := Nat.mul_le_mul_left _ (by omega)
  have halign : max_num_msg * abi.alignof_msg_hdr_t ≤ max_num_msg * abi.sizeof_msg_hdr_t :=
    Nat.mul_le_mul_left _ abi.msg_hdr_align_le
  have hoffset := offset_le abi
  have hrequired := abi.required_le
  have hmsgalign := abi.msg_hdr_align_le_required
  have hfew : max_num_msg < 2 ^ 32 + 3 → max_num_msg * abi.alignof_msg_hdr_t ≤ (2 ^ 32 + 3) * 2 ^ 31 :=
    fun hlt => Nat.mul_le_mul (by omega) (by omega)
  simp only [Nat.mul_add, Nat.mul_one] at hmod hroom hpads
  omega

/-- A size that does not wrap has room for every part, one behind the other. -/
theorem well_placed {region : Nat} (haligned : abi.RequiredAlignment ∣ region)
    (hmsg : max_msg_size < 2 ^ 64)
    (hfits : unreduced_size abi max_msg_size max_num_msg < 2 ^ 64)
    (hregion : region + unreduced_size abi max_msg_size max_num_msg ≤ 2 ^ 64) :
    WellPlaced abi region (unreduced_size abi max_msg_size max_num_msg) max_msg_size max_num_msg
      (initialize_memory abi region max_msg_size max_num_msg) := by
  have hpos := abi.msg_hdr_align_pos
  have hindex := (least_multiple_bounds (n := max_num_msg * abi.sizeof_msg_hdr_ptr_t) hpos).1
  have hslot := (least_multiple_bounds (n := max_msg_size) hpos).1
  have hheader : abi.alignof_mq_hdr_t ∣ region + ManagedOpenOrCreateUserOffset abi :=
    abi.required.trans (Nat.dvd_add haligned (offset_dvd abi))
  have hfirst := Nat.dvd_add hheader abi.mq_hdr_dvd
  obtain ⟨I, hI⟩ : ∃ I, I = least_multiple abi.alignof_msg_hdr_t
      (max_num_msg * abi.sizeof_msg_hdr_ptr_t) := ⟨_, rfl⟩
  obtain ⟨stride, hstride⟩ : ∃ stride, stride =
      least_multiple abi.alignof_msg_hdr_t max_msg_size + abi.sizeof_msg_hdr_t := ⟨_, rfl⟩
  have hsize : unreduced_size abi max_msg_size max_num_msg =
      abi.sizeof_mq_hdr_t + I + max_num_msg * stride + ManagedOpenOrCreateUserOffset abi := by
    rw [unreduced_size, r_hdr_size_eq, hI, hstride]
  have hIdvd : abi.alignof_msg_hdr_t ∣ I := hI ▸ Nat.dvd_mul_left _ _
  have hstridedvd : abi.alignof_msg_hdr_t ∣ stride :=
    hstride ▸ Nat.dvd_add (Nat.dvd_mul_left _ _) abi.msg_hdr_dvd
  have hslots : (initialize_memory abi region max_msg_size max_num_msg).slots =
      (List.range max_num_msg).map fun i =>
        region + ManagedOpenOrCreateUserOffset abi + abi.sizeof_mq_hdr_t + I + i * stride := by
    have hmsgpos := abi.msg_hdr_pos
    simp only [initialize_memory]
    rcases Nat.eq_zero_or_pos max_num_msg with hzero | hsome
    · rw [hzero]
      rfl
    · have hmore : stride ≤ max_num_msg * stride := Nat.le_mul_of_pos_left _ hsome
      rw [r_max_msg_size_eq abi hmsg, r_index_size_eq, r_hdr_size_eq, ← hI, ← hstride,
        Nat.mod_eq_of_lt (show stride < 2 ^ 64 by omega),
        Nat.mod_eq_of_lt (show I < 2 ^ 64 by omega), Nat.mod_eq_of_lt (by omega)]
      exact slot_pointers_eq (by omega) (by omega)
  have hranges : (initialize_memory abi region max_msg_size max_num_msg).ranges abi max_msg_size
      max_num_msg =
      ⟨region + ManagedOpenOrCreateUserOffset abi, abi.sizeof_mq_hdr_t⟩ ::
        ⟨region + ManagedOpenOrCreateUserOffset abi + abi.sizeof_mq_hdr_t,
          max_num_msg * abi.sizeof_msg_hdr_ptr_t⟩ ::
        (List.range max_num_msg).map fun i =>
          ⟨region + ManagedOpenOrCreateUserOffset abi + abi.sizeof_mq_hdr_t + I + i * stride,
            abi.sizeof_msg_hdr_t + max_msg_size⟩ := by
    rw [Placement.ranges, hslots, List.map_map]
    simp only [initialize_memory, r_hdr_size_eq]
    rfl
  have hbefore : ∀ i < max_num_msg, i * stride + stride ≤ max_num_msg * stride := by
    intro i hi
    have hmul : (i + 1) * stride ≤ max_num_msg * stride := Nat.mul_le_mul_right _ hi
    rwa [Nat.succ_mul] at hmul
  refine ⟨?_, ?_, hheader, ?_, ?_, slot_pointers_length _ _ _⟩
  · rw [hranges]
    refine List.pairwise_cons.mpr ⟨?_, List.pairwise_cons.mpr ⟨?_, ?_⟩⟩
    · intro a ha
      left
      rcases List.mem_cons.mp ha with rfl | ha
      · exact Nat.le_refl _
      · obtain ⟨i, -, rfl⟩ := List.mem_map.mp ha
        dsimp only
        omega
    · intro a ha
      obtain ⟨i, -, rfl⟩ := List.mem_map.mp ha
      left
      dsimp only
      omega
    · exact Range.pairwise_apart_stride max_num_msg (by omega)
  · rw [hranges, hsize]
    intro a ha
    rcases List.mem_cons.mp ha with rfl | ha
    · exact ⟨Nat.le_add_right _ _, by dsimp only; omega⟩
    rcases List.mem_cons.mp ha with rfl | ha
    · exact ⟨by dsimp only; omega, by dsimp only; omega⟩
    · obtain ⟨i, hi, rfl⟩ := List.mem_map.mp ha
      have hlast := hbefore i (List.mem_range.mp hi)
      exact ⟨by dsimp only; omega, by dsimp only; omega⟩
  · simp only [initialize_memory, r_hdr_size_eq]
    exact abi.pointer_member.trans hfirst
  · intro slot hslot
    rw [hslots] at hslot
    obtain ⟨i, -, rfl⟩ := List.mem_map.mp hslot
    exact Nat.dvd_add (Nat.dvd_add (abi.size_member.trans hfirst) hIdvd)
      (hstridedvd.trans (Nat.dvd_mul_left _ _))

/-- In a region of the requested size the queue is well placed if and only if that size
    did not wrap. -/
theorem well_placed_iff_not_wrapped {region size : Nat} (hmsg : max_msg_size < 2 ^ 64)
    (hsize : size = get_mem_size abi max_msg_size max_num_msg)
    (haligned : abi.RequiredAlignment ∣ region) (hregion : region + size ≤ 2 ^ 64) :
    WellPlaced abi region size max_msg_size max_num_msg
        (initialize_memory abi region max_msg_size max_num_msg) ↔
      unreduced_size abi max_msg_size max_num_msg < 2 ^ 64 := by
  rw [get_mem_size_eq abi hmsg] at hsize
  constructor
  · intro hplaced
    exact unreduced_size_lt hsize hplaced.sum_le
  · intro hfits
    rw [Nat.mod_eq_of_lt hfits] at hsize
    rw [hsize] at hregion ⊢
    exact well_placed haligned hmsg hfits hregion

/-- The types of a queue of relative pointers on 64 bits, with a mutex and conditions
    that spin. -/
def spin_abi : Abi where
  sizeof_mq_hdr_t := 88
  alignof_mq_hdr_t := 8
  sizeof_msg_hdr_t := 16
  alignof_msg_hdr_t := 8
  sizeof_msg_hdr_ptr_t := 8
  alignof_msg_hdr_ptr_t := 8
  RequiredAlignment := 16
  mq_hdr_pos := by decide
  msg_hdr_pos := by decide
  mq_hdr_dvd := by decide
  msg_hdr_dvd := by decide
  pointer_member := by decide
  size_member := by decide
  required := by decide
  power_of_two := by decide

theorem well_placed_two_messages :
    size_checks spin_abi 168 (get_min_size spin_abi 5 2) = true ∧
      WellPlaced spin_abi 4096 168 5 2 (initialize_memory spin_abi 4096 5 2) :=
  ⟨by decide, (well_placed_iff_not_wrapped (by decide) (by decide) (by decide) (by decide)).mpr
    (by decide)⟩

/-- 2 ^ 32 messages of 2 ^ 32 - 24 bytes: the sizes wrap to 104 bytes, the checks pass,
    and the index does not fit. -/
theorem wrapped_size_passes_checks :
    get_mem_size spin_abi (2 ^ 32 - 24) (2 ^ 32) = 104 ∧
      size_checks spin_abi 104 (get_min_size spin_abi (2 ^ 32 - 24) (2 ^ 32)) = true ∧
      ¬ WellPlaced spin_abi 4096 104 (2 ^ 32 - 24) (2 ^ 32)
        (initialize_memory spin_abi 4096 (2 ^ 32 - 24) (2 ^ 32)) := by
  refine ⟨by decide, by decide, ?_⟩
  intro hplaced
  have hroom := hplaced.sum_le
  exact absurd hroom (by decide)

end Placed

end interprocess.message_queue.memory_layout
