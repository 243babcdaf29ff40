import Mathlib.Data.Nat.ModEq

/-- A byte-addressed memory. -/
def Memory : Type :=
  Nat → UInt8

namespace Memory

/-- Two memories hold the same bytes in `[lo, hi)`. -/
def SameOn (m m' : Memory) (lo hi : Nat) : Prop :=
  ∀ b, lo ≤ b → b < hi → m b = m' b

theorem SameOn.mono {m m' : Memory} {lo hi lo' hi' : Nat} (h : SameOn m m' lo hi) (hlo : lo ≤ lo')
    (hhi : hi' ≤ hi) : SameOn m m' lo' hi' := by
  intro b hb hb'
  exact h b (Nat.le_trans hlo hb) (Nat.lt_of_lt_of_le hb' hhi)

theorem SameOn.symm {m m' : Memory} {lo hi : Nat} (h : SameOn m m' lo hi) : SameOn m' m lo hi := by
  intro b hb hb'
  exact (h b hb hb').symm

theorem SameOn.trans {m m' m'' : Memory} {lo hi : Nat} (h : SameOn m m' lo hi)
    (h' : SameOn m' m'' lo hi) : SameOn m m'' lo hi := by
  intro b hb hb'
  exact (h b hb hb').trans (h' b hb hb')

/-- Writes one byte. -/
def write (m : Memory) (a : Nat) (byte : UInt8) : Memory :=
  fun b => if b = a then byte else m b

theorem write_self (m : Memory) (a : Nat) (byte : UInt8) : m.write a byte a = byte :=
  if_pos rfl

theorem write_of_ne (m : Memory) {a b : Nat} (byte : UInt8) (hb : b ≠ a) : m.write a byte b = m b :=
  if_neg hb

/-- The little-endian value of the `width` bytes from address `a` on. -/
def load (m : Memory) (a : Nat) : Nat → Nat
  | 0 => 0
  | width + 1 => (m a).toNat + 256 * load m (a + 1) width

/-- Writes the low `width` bytes of a value at address `a`. -/
def store (m : Memory) (a : Nat) : Nat → Nat → Memory
  | 0, _ => m
  | width + 1, v => store (m.write a (UInt8.ofNat v)) (a + 1) width (v / 256)

theorem load_lt (m : Memory) (a width : Nat) : load m a width < 256 ^ width := by
  induction width generalizing a with
  | zero => exact Nat.one_pos
  | succ width ih =>
    have hbyte := (m a).toNat_lt
    have hrest := ih (a + 1)
    rw [load, Nat.pow_succ]
    omega

theorem load_congr {m m' : Memory} {a width : Nat} (h : SameOn m m' a (a + width)) :
    load m a width = load m' a width := by
  induction width generalizing a with
  | zero => rfl
  | succ width ih =>
    rw [load, load, h a (Nat.le_refl a) (by omega), ih (h.mono (by omega) (by omega))]

theorem store_outside (m : Memory) {a width b : Nat} (v : Nat) (hb : b < a ∨ a + width ≤ b) :
    store m a width v b = m b := by
  induction width generalizing m a v with
  | zero => rfl
  | succ width ih =>
    rw [store, ih _ _ (by omega)]
    exact write_of_ne m _ (by omega)

theorem store_sameOn (m : Memory) {a width lo hi : Nat} (v : Nat) (h : hi ≤ a ∨ a + width ≤ lo) :
    SameOn (store m a width v) m lo hi := by
  intro b hlo hhi
  exact store_outside m v (by omega)

/-- The same store into memories that agree. -/
theorem SameOn.store {m m' : Memory} {lo hi : Nat} (h : SameOn m m' lo hi) (a width v : Nat) :
    SameOn (store m a width v) (store m' a width v) lo hi := by
  induction width generalizing m m' a v with
  | zero => exact h
  | succ width ih =>
    refine ih ?_ _ _
    intro b hlo hhi
    unfold write
    rw [h b hlo hhi]

theorem load_store (m : Memory) (a width v : Nat) :
    load (store m a width v) a width = v % 256 ^ width := by
  induction width generalizing m a v with
  | zero => exact (Nat.mod_one v).symm
  | succ width ih =>
    have hfirst : store m a (width + 1) v a = UInt8.ofNat v := by
      rw [store, store_outside _ _ (by omega)]
      exact write_self m a _
    have hsplit : v % (256 * 256 ^ width) = v % 256 + 256 * (v / 256 % 256 ^ width) := Nat.mod_mul
    rw [load, hfirst, store, ih, UInt8.toNat_ofNat', Nat.pow_succ' (n := width), hsplit]

theorem write_same (m : Memory) (a : Nat) : m.write a (m a) = m := by
  funext b
  by_cases hb : b = a
  · rw [hb, write_self]
  · rw [write_of_ne m _ hb]

theorem store_load (m : Memory) (a width : Nat) : store m a width (load m a width) = m := by
  induction width generalizing a with
  | zero => rfl
  | succ width ih =>
    have hlt := (m a).toNat_lt
    have hbyte : UInt8.ofNat ((m a).toNat + 256 * load m (a + 1) width) = m a := by
      rw [← UInt8.toNat_inj, UInt8.toNat_ofNat']
      omega
    have hrest : ((m a).toNat + 256 * load m (a + 1) width) / 256 = load m (a + 1) width := by
      omega
    rw [load, store, hbyte, hrest, write_same, ih]

/-- What a store writes does not depend on the memory. -/
theorem store_inside (m m' : Memory) {a width b : Nat} (v : Nat) (hlo : a ≤ b) (hhi : b < a + width) :
    store m a width v b = store m' a width v b := by
  induction width generalizing m m' a v with
  | zero => omega
  | succ width ih =>
    rcases Nat.eq_or_lt_of_le hlo with rfl | hlt
    · simp only [store, store_outside _ _ (Or.inl (Nat.lt_succ_self a)), write_self]
    · exact ih _ _ _ hlt (by omega)

theorem store_store (m : Memory) (a width v w : Nat) :
    store (store m a width v) a width w = store m a width w := by
  funext b
  by_cases hb : a ≤ b ∧ b < a + width
  · exact store_inside _ _ w hb.1 hb.2
  · rw [store_outside _ w (by omega), store_outside _ v (by omega), store_outside _ w (by omega)]

theorem load_store_of_disjoint (m : Memory) {a width b width' : Nat} (v : Nat)
    (h : a + width ≤ b ∨ b + width' ≤ a) : load (store m a width v) b width' = load m b width' :=
  load_congr (store_sameOn m v (by omega))

/-- Clears `n` bytes. -/
def zero (m : Memory) (a n : Nat) : Memory :=
  fun b => if a ≤ b ∧ b < a + n then 0 else m b

theorem zero_sameOn (m : Memory) {a n lo hi : Nat} (h : hi ≤ a ∨ a + n ≤ lo) :
    SameOn (zero m a n) m lo hi := by
  intro b hlo hhi
  exact if_neg (by omega)

/-- The zero-filled memory. -/
def zeros : Memory :=
  fun _ => 0

theorem load_zeros (a width : Nat) : load zeros a width = 0 := by
  induction width generalizing a with
  | zero => rfl
  | succ width ih =>
    rw [load, ih]
    rfl

/-- Writes a list of bytes from an address on. -/
def copy (m : Memory) (a : Nat) (bytes : List UInt8) : Memory :=
  fun b => if a ≤ b ∧ b < a + bytes.length then bytes.getD (b - a) 0 else m b

theorem copy_sameOn (m : Memory) {a lo hi : Nat} {bytes : List UInt8}
    (h : hi ≤ a ∨ a + bytes.length ≤ lo) : SameOn (copy m a bytes) m lo hi := by
  intro b hlo hhi
  exact if_neg (by omega)

theorem copy_inside (m : Memory) (a : Nat) {bytes : List UInt8} {i : Nat} (hi : i < bytes.length) :
    copy m a bytes (a + i) = bytes[i] := by
  rw [copy, if_pos (by omega), Nat.add_sub_cancel_left, List.getD_eq_getElem?_getD,
    List.getElem?_eq_getElem hi, Option.getD_some]

/-- The values of `n` consecutive cells of `width` bytes. -/
def loadList (m : Memory) (a width : Nat) : Nat → List Nat
  | 0 => []
  | n + 1 => load m a width :: loadList m (a + width) width n

/-- Writes consecutive cells of `width` bytes. -/
def storeList (m : Memory) (a width : Nat) : List Nat → Memory
  | [] => m
  | v :: rest => storeList (store m a width v) (a + width) width rest

@[simp] theorem loadList_length (m : Memory) (a width n : Nat) :
    (loadList m a width n).length = n := by
  induction n generalizing a with
  | zero => rfl
  | succ n ih => rw [loadList, List.length_cons, ih]

theorem loadList_take (m : Memory) (a width : Nat) {n k : Nat} (hn : n ≤ k) :
    (loadList m a width k).take n = loadList m a width n := by
  induction k generalizing a n with
  | zero =>
    cases Nat.le_zero.mp hn
    rfl
  | succ k ih =>
    cases n with
    | zero => rfl
    | succ n => rw [loadList, loadList, List.take_succ_cons, ih _ (Nat.le_of_succ_le_succ hn)]

theorem loadList_getElem? (m : Memory) (a width : Nat) {n i : Nat} (hi : i < n) :
    (loadList m a width n)[i]? = some (load m (a + i * width) width) := by
  induction n generalizing a i with
  | zero => cases hi
  | succ n ih =>
    cases i with
    | zero => rw [loadList, List.getElem?_cons_zero, Nat.zero_mul, Nat.add_zero]
    | succ i =>
      rw [loadList, List.getElem?_cons_succ, ih _ (Nat.lt_of_succ_lt_succ hi), Nat.succ_mul,
        Nat.add_assoc, Nat.add_comm width]

theorem loadList_congr {m m' : Memory} {a width n : Nat} (h : SameOn m m' a (a + n * width)) :
    loadList m a width n = loadList m' a width n := by
  induction n generalizing a with
  | zero => rfl
  | succ n ih =>
    rw [Nat.succ_mul] at h
    rw [loadList, loadList, load_congr (h.mono (Nat.le_refl a) (by omega)),
      ih (h.mono (by omega) (by omega))]

theorem storeList_sameOn (m : Memory) {a width lo hi : Nat} (vs : List Nat)
    (h : hi ≤ a ∨ a + vs.length * width ≤ lo) : SameOn (storeList m a width vs) m lo hi := by
  induction vs generalizing m a with
  | nil =>
    intro b _ _
    rfl
  | cons v rest ih =>
    rw [List.length_cons, Nat.succ_mul] at h
    rw [storeList]
    exact (ih _ (by omega)).trans (store_sameOn m v (by omega))

theorem loadList_storeList (m : Memory) (a width : Nat) (vs : List Nat)
    (hvs : ∀ v ∈ vs, v < 256 ^ width) :
    loadList (storeList m a width vs) a width vs.length = vs := by
  induction vs generalizing m a with
  | nil => rfl
  | cons v rest ih =>
    rw [List.length_cons, loadList, storeList, ih _ _ fun w hw => hvs w (List.mem_cons_of_mem v hw),
      load_congr (storeList_sameOn _ rest (Or.inl (Nat.le_refl _))), load_store,
      Nat.mod_eq_of_lt (hvs v List.mem_cons_self)]

end Memory
