import Interprocess.SegmentManager.BlockHeader

namespace interprocess

open ipcdetail

/-- A character type with its order. -/
structure CharTraits extends CType where
  lt : Nat → Nat → Bool
  lt_irrefl : ∀ c, lt c c = false
  lt_connected : ∀ c d, lt c d = false → lt d c = false → c = d

/-- `char_traits::compare` on two buffers of the same length. -/
def CharTraits.compare (CharT : CharTraits) : List Nat → List Nat → Ordering
  | c :: cs, d :: ds =>
    if CharT.lt c d then .lt else if CharT.lt d c then .gt else CharT.compare cs ds
  | _, _ => .eq

/-- `char_traits::length`: the characters in front of the first zero. -/
def CharTraits.length (CharT : CharTraits) (m : Memory) (str : Nat) : Nat → Nat
  | 0 => 0
  | fuel + 1 =>
    if m.load str CharT.sizeof = 0 then 0
    else CharT.length m (str + CharT.sizeof) fuel + 1

inductive IndexType where
  | iset_index
  | iunordered_set_index
  | map_index
  | flat_map_index
  deriving DecidableEq

def IndexType.is_intrusive_index : IndexType → Bool
  | .iset_index | .iunordered_set_index => true
  | .map_index | .flat_map_index => false

def IndexType.is_node_index : IndexType → Bool
  | .map_index => true
  | .iset_index | .iunordered_set_index | .flat_map_index => false

/-- The instantiation of a segment manager; `index_data_t` is what the index puts
    in front of a block, if anything. -/
structure Config where
  index_type : IndexType
  index_data_t : CType
  CharT : CharTraits

/-- Whether blocks start with an `index_data_t`. -/
def Config.has_header (cfg : Config) : Bool :=
  cfg.index_type.is_node_index || cfg.index_type.is_intrusive_index

/-- An element of the index: an intrusive one is the block itself, the others
    store a key beside the address of the block. -/
inductive IndexValue where
  | intrusive (hdr : Nat)
  | pair (mp_str m_len m_ptr : Nat)
  deriving DecidableEq

namespace IndexValue

/-- `priv_block_header_from_it`. -/
def block_header : IndexValue → Nat
  | .intrusive hdr => hdr
  | .pair _ _ m_ptr => m_ptr

/-- The address of the name an element is compared by. -/
def name (cfg : Config) (m : Memory) : IndexValue → Nat
  | .intrusive hdr => block_header.name m hdr cfg.CharT.toCType
  | .pair mp_str _ _ => mp_str

def name_length (m : Memory) : IndexValue → Nat
  | .intrusive hdr => block_header.name_length m hdr
  | .pair _ m_len _ => m_len

end IndexValue

section Functors

variable (cfg : Config) (m : Memory)

/-- `less_function` on a key and an element, and `index_key::operator<`. -/
def less_key_value (key : List Nat) (v : IndexValue) : Bool :=
  key.length < v.name_length m ∨
    (key.length = v.name_length m ∧
      cfg.CharT.compare key (m.loadList (v.name cfg m) cfg.CharT.sizeof key.length) = .lt)

def less_value_key (v : IndexValue) (key : List Nat) : Bool :=
  v.name_length m < key.length ∨
    (v.name_length m = key.length ∧
      cfg.CharT.compare (m.loadList (v.name cfg m) cfg.CharT.sizeof key.length) key = .lt)

/-- `equal_function` of the hashed index. -/
def equal_function (key : List Nat) (v : IndexValue) : Bool :=
  key.length = v.name_length m ∧
    cfg.CharT.compare key (m.loadList (v.name cfg m) cfg.CharT.sizeof key.length) = .eq

/-- The equivalence the index looks keys up by. -/
def equivalent (key : List Nat) (v : IndexValue) : Bool :=
  match cfg.index_type with
  | .iunordered_set_index => equal_function cfg m key v
  | _ => !less_key_value cfg m key v && !less_value_key cfg m v key

/-- The name of an element as the index reads it. -/
def stored_name (v : IndexValue) : List Nat :=
  m.loadList (v.name cfg m) cfg.CharT.sizeof (v.name_length m)

end Functors

namespace CharTraits

variable (CharT : CharTraits)

theorem compare_self (key : List Nat) : CharT.compare key key = .eq := by
  induction key with
  | nil => rfl
  | cons c cs ih =>
    rw [compare, CharT.lt_irrefl]
    simpa only [Bool.false_eq_true, if_false] using ih

theorem eq_of_compare {a b : List Nat} (hlength : a.length = b.length)
    (hlt : CharT.compare a b ≠ .lt) (hgt : CharT.compare b a ≠ .lt) : a = b := by
  induction a generalizing b with
  | nil => exact (List.eq_nil_of_length_eq_zero hlength.symm).symm
  | cons c cs ih =>
    cases b with
    | nil => cases hlength
    | cons d ds =>
      simp only [compare] at hlt hgt
      cases hcd : CharT.lt c d with
      | true => simp [hcd] at hlt
      | false =>
        cases hdc : CharT.lt d c with
        | true => simp [hdc] at hgt
        | false =>
          simp only [hcd, hdc, Bool.false_eq_true, if_false] at hlt hgt
          have hheads := CharT.lt_connected c d hcd hdc
          have htails := ih (Nat.succ.inj hlength) hlt hgt
          rw [hheads, htails]

theorem compare_ne_lt_of_eq {a b : List Nat} (heq : CharT.compare a b = .eq) :
    CharT.compare b a ≠ .lt := by
  induction a generalizing b with
  | nil => cases b <;> simp [compare]
  | cons c cs ih =>
    cases b with
    | nil => simp [compare]
    | cons d ds =>
      simp only [compare] at heq ⊢
      cases hcd : CharT.lt c d with
      | true => simp [hcd] at heq
      | false =>
        cases hdc : CharT.lt d c with
        | true => simp [hcd, hdc] at heq
        | false =>
          simp only [hcd, hdc, Bool.false_eq_true, if_false] at heq ⊢
          exact ih heq

end CharTraits

/-- Whatever the index, a key is equivalent to the elements with its name. -/
theorem equivalent_iff (cfg : Config) (m : Memory) (key : List Nat) (v : IndexValue) :
    equivalent cfg m key v = true ↔ key = stored_name cfg m v := by
  have hread : key.length = v.name_length m →
      (m.loadList (v.name cfg m) cfg.CharT.sizeof key.length) = stored_name cfg m v := by
    intro hlength
    rw [stored_name, hlength]
  constructor
  · intro hequivalent
    have hfacts : key.length = v.name_length m ∧
        cfg.CharT.compare key (m.loadList (v.name cfg m) cfg.CharT.sizeof key.length) ≠ .lt ∧
        cfg.CharT.compare (m.loadList (v.name cfg m) cfg.CharT.sizeof key.length) key ≠ .lt := by
      unfold equivalent at hequivalent
      split at hequivalent
      · obtain ⟨hlength, heq⟩ := of_decide_eq_true hequivalent
        refine ⟨hlength, ?_, cfg.CharT.compare_ne_lt_of_eq heq⟩
        rw [heq]
        exact Ordering.noConfusion
      · simp only [Bool.and_eq_true, Bool.not_eq_true', less_key_value, less_value_key,
          decide_eq_false_iff_not, not_or, not_and] at hequivalent
        obtain ⟨⟨hle, hlt⟩, hge, hgt⟩ := hequivalent
        have hlength : key.length = v.name_length m := by omega
        exact ⟨hlength, hlt hlength, hgt hlength.symm⟩
    obtain ⟨hlength, hlt, hgt⟩ := hfacts
    rw [← hread hlength]
    exact cfg.CharT.eq_of_compare (by rw [Memory.loadList_length]) hlt hgt
  · intro hkey
    have hlength : key.length = v.name_length m := by
      rw [hkey, stored_name, Memory.loadList_length]
    have hself : cfg.CharT.compare key (m.loadList (v.name cfg m) cfg.CharT.sizeof key.length) = .eq := by
      rw [hread hlength, ← hkey, cfg.CharT.compare_self]
    have hself' : cfg.CharT.compare (m.loadList (v.name cfg m) cfg.CharT.sizeof key.length) key = .eq := by
      rw [hread hlength, ← hkey, cfg.CharT.compare_self]
    unfold equivalent
    split
    · exact decide_eq_true ⟨hlength, hself⟩
    · rw [hlength] at hself hself'
      simp [less_key_value, less_value_key, hself, hself', hlength]

/-- A stored string is as long as the characters in front of its terminator. -/
theorem CharTraits.length_eq (CharT : CharTraits) (m : Memory) (chars : List Nat) {str fuel : Nat}
    (hchars : m.loadList str CharT.sizeof chars.length = chars) (hnonzero : ∀ c ∈ chars, 0 < c)
    (hend : m.load (str + chars.length * CharT.sizeof) CharT.sizeof = 0)
    (hfuel : chars.length < fuel) : CharT.length m str fuel = chars.length := by
  induction chars generalizing str fuel with
  | nil =>
    cases fuel with
    | zero => cases hfuel
    | succ fuel =>
      rw [List.length_nil, Nat.zero_mul, Nat.add_zero] at hend
      rw [CharTraits.length, if_pos hend, List.length_nil]
  | cons c rest ih =>
    cases fuel with
    | zero => cases hfuel
    | succ fuel =>
      simp only [List.length_cons, Memory.loadList, List.cons.injEq] at hchars
      have hpos : m.load str CharT.sizeof ≠ 0 := by
        rw [hchars.1]
        exact Nat.ne_of_gt (hnonzero c List.mem_cons_self)
      rw [List.length_cons, Nat.succ_mul] at hend
      rw [CharTraits.length, if_neg hpos, List.length_cons]
      rw [ih hchars.2 (fun d hd => hnonzero d (List.mem_cons_of_mem c hd)) ?_ (Nat.lt_of_succ_lt_succ hfuel)]
      rw [← hend]
      congr 1
      omega

end interprocess
