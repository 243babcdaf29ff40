import Mathlib.Tactic.SplitIfs
import Mathlib.Order.Basic
import Interprocess.Base.Circular
import Interprocess.Ipc.MessageQueue.Header

open Circular

namespace interprocess.ipcdetail.mq_hdr_t

/-- The slot of the `i`-th index entry counted from the window's start. The
    first `m_cur_num_msg` of them are the inserted messages. -/
def entry (h : mq_hdr_t) (i : Nat) : Nat :=
  h.mp_index (pos h.m_max_num_msg h.m_cur_first_msg i)

theorem end_pos_eq {h : mq_hdr_t} (hfirst : h.m_cur_first_msg < h.m_max_num_msg) :
    h.end_pos = pos h.m_max_num_msg h.m_cur_first_msg h.m_cur_num_msg := by
  simp only [end_pos, pos]
  split <;> split <;> omega

/-- Where each entry comes from when the free slot before the window is drawn
    into position `k`. -/
def drawLast (size k j : Nat) : Nat :=
  if j < k then j else if j = k then size - 1 else j - 1

/-- Where each entry comes from when the free slot after the window is drawn
    into position `k`. -/
def drawNext (num k j : Nat) : Nat :=
  if j < k then j else if j = k then num else if j ≤ num then j - 1 else j

theorem insert_moving_front_unique {h : mq_hdr_t} {p q : Nat} (hzero : h.m_cur_first_msg ≠ 0)
    (hq : (if p = 0 then h.m_max_num_msg else p) = q) (hle : h.m_cur_first_msg ≤ q) (i : Nat) :
    (h.insert_moving_front p).1.mp_index i =
      if i = q - 1 then h.mp_index (h.m_cur_first_msg - 1)
      else if h.m_cur_first_msg - 1 ≤ i ∧ i + 1 < q then h.mp_index (i + 1)
      else h.mp_index i := by
  have hwhr : (if p = 0 then h.m_max_num_msg - 1 else p - 1) = q - 1 := by
    rw [← hq]
    split <;> rfl
  simp only [insert_moving_front, hzero, ne_eq, not_false_eq_true, hq, hle, and_self, if_true, hwhr,
    Function.update_apply, std_copy]
  split_ifs <;> first | rfl | omega | (congr 1; omega)

theorem insert_moving_front_at_zero {h : mq_hdr_t} {p : Nat} (hzero : h.m_cur_first_msg = 0)
    (hp : 0 < p) (hmax : p < h.m_max_num_msg) (i : Nat) :
    (h.insert_moving_front p).1.mp_index i =
      if i = p - 1 then h.mp_index (h.m_max_num_msg - 1)
      else if i + 1 < p then h.mp_index (i + 1)
      else if i = h.m_max_num_msg - 1 then h.mp_index 0
      else h.mp_index i := by
  simp only [insert_moving_front, hzero, ne_eq, not_true_eq_false, false_and, if_false, or_true,
    if_true, Function.update_apply, std_copy]
  split_ifs <;> first | rfl | omega | (congr 1; omega)

theorem insert_moving_front_wrapped {h : mq_hdr_t} {p : Nat} (hp : 0 < p)
    (hpfirst : p < h.m_cur_first_msg) (hfirst : h.m_cur_first_msg < h.m_max_num_msg) (i : Nat) :
    (h.insert_moving_front p).1.mp_index i =
      if i = p - 1 then h.mp_index (h.m_cur_first_msg - 1)
      else if i + 1 < p then h.mp_index (i + 1)
      else if i = h.m_max_num_msg - 1 then h.mp_index 0
      else if h.m_cur_first_msg - 1 ≤ i ∧ i + 1 < h.m_max_num_msg then h.mp_index (i + 1)
      else h.mp_index i := by
  have hp0 : p ≠ 0 := by omega
  have hzero : h.m_cur_first_msg ≠ 0 := by omega
  have hnot : ¬ h.m_cur_first_msg ≤ p := by omega
  simp only [insert_moving_front, hnot, and_false, if_false, false_or, hzero, hp0,
    Function.update_apply, std_copy]
  split_ifs <;> first | rfl | omega | (congr 1; omega)

/-- Moving the front part keeps the order around position `k` and puts the
    free slot from before the window there, for every position of the window. -/
theorem insert_moving_front_entry {h : mq_hdr_t} {k j : Nat}
    (hfirst : h.m_cur_first_msg < h.m_max_num_msg) (hroom : h.m_cur_num_msg < h.m_max_num_msg)
    (hk : 0 < k) (hkn : k < h.m_cur_num_msg) (hj : j < h.m_max_num_msg) :
    (h.insert_moving_front (pos h.m_max_num_msg h.m_cur_first_msg k)).1.entry j =
      h.entry (drawLast h.m_max_num_msg k j) := by
  have hnewFirst : ∀ p, (h.insert_moving_front p).1.m_cur_first_msg =
      (if h.m_cur_first_msg ≠ 0 then h.m_cur_first_msg else h.m_max_num_msg) - 1 := fun _ => rfl
  have hmax : ∀ p, (h.insert_moving_front p).1.m_max_num_msg = h.m_max_num_msg := fun _ => rfl
  unfold entry
  rw [hnewFirst, hmax]
  by_cases hzero : h.m_cur_first_msg = 0
  · have hpos : pos h.m_max_num_msg h.m_cur_first_msg k = k := by
      unfold pos
      split <;> omega
    rw [hpos, insert_moving_front_at_zero hzero hk (by omega), hzero]
    unfold pos drawLast
    split_ifs <;> first | omega | (congr 1; omega)
  · rw [if_pos hzero]
    by_cases hwrap : h.m_max_num_msg < h.m_cur_first_msg + k
    · have hpos : pos h.m_max_num_msg h.m_cur_first_msg k =
          h.m_cur_first_msg + k - h.m_max_num_msg := by
        unfold pos
        split <;> omega
      rw [hpos, insert_moving_front_wrapped (by omega) (by omega) hfirst]
      unfold pos drawLast
      split_ifs <;> first | omega | (congr 1; omega)
    · have hlast : (if pos h.m_max_num_msg h.m_cur_first_msg k = 0 then h.m_max_num_msg
          else pos h.m_max_num_msg h.m_cur_first_msg k) = h.m_cur_first_msg + k := by
        unfold pos
        split_ifs <;> omega
      rw [insert_moving_front_unique hzero hlast (by omega)]
      unfold pos drawLast
      split_ifs <;> first | omega | (congr 1; omega)

theorem insert_moving_back_unique {h : mq_hdr_t} {p : Nat} (hp : p < h.end_pos) (i : Nat) :
    (h.insert_moving_back p).1.mp_index i =
      if i = p then h.mp_index h.end_pos
      else if p < i ∧ i ≤ h.end_pos then h.mp_index (i - 1)
      else h.mp_index i := by
  simp only [insert_moving_back, hp, if_true, Function.update_apply, std_copy_backward]
  split_ifs <;> first | rfl | omega | (congr 1; omega)

theorem insert_moving_back_wrapped {h : mq_hdr_t} {p : Nat} (hp : h.end_pos < p)
    (hmax : p < h.m_max_num_msg) (i : Nat) :
    (h.insert_moving_back p).1.mp_index i =
      if i = p then h.mp_index h.end_pos
      else if p < i ∧ i < h.m_max_num_msg then h.mp_index (i - 1)
      else if i = 0 then h.mp_index (h.m_max_num_msg - 1)
      else if i ≤ h.end_pos then h.mp_index (i - 1)
      else h.mp_index i := by
  have hnot : ¬ p < h.end_pos := by omega
  simp only [insert_moving_back, hnot, if_false, Function.update_apply, std_copy_backward]
  split_ifs <;> first | rfl | omega | (congr 1; omega)

/-- Moving the back part keeps the order around position `k` and puts the free
    slot from after the window there, for every position of the window. -/
theorem insert_moving_back_entry {h : mq_hdr_t} {k j : Nat}
    (hfirst : h.m_cur_first_msg < h.m_max_num_msg) (hroom : h.m_cur_num_msg < h.m_max_num_msg)
    (hkn : k < h.m_cur_num_msg) (hj : j < h.m_max_num_msg) :
    (h.insert_moving_back (pos h.m_max_num_msg h.m_cur_first_msg k)).1.entry j =
      h.entry (drawNext h.m_cur_num_msg k j) := by
  have hsame : ∀ p, (h.insert_moving_back p).1.m_cur_first_msg = h.m_cur_first_msg ∧
      (h.insert_moving_back p).1.m_max_num_msg = h.m_max_num_msg := fun _ => ⟨rfl, rfl⟩
  have hend := end_pos_eq hfirst
  unfold entry
  rw [(hsame _).1, (hsame _).2]
  by_cases hwrap : h.m_cur_first_msg + h.m_cur_num_msg < h.m_max_num_msg
  · have hpos : pos h.m_max_num_msg h.m_cur_first_msg k = h.m_cur_first_msg + k := if_pos (by omega)
    rw [pos, if_pos hwrap] at hend
    rw [hpos, insert_moving_back_unique (by omega), hend]
    unfold pos drawNext
    split_ifs <;> first | omega | (congr 1; omega)
  · rw [pos, if_neg hwrap] at hend
    by_cases hpwrap : h.m_cur_first_msg + k < h.m_max_num_msg
    · have hpos : pos h.m_max_num_msg h.m_cur_first_msg k = h.m_cur_first_msg + k := if_pos hpwrap
      rw [hpos, insert_moving_back_wrapped (by omega) (by omega), hend]
      unfold pos drawNext
      split_ifs <;> first | omega | (congr 1; omega)
    · have hpos : pos h.m_max_num_msg h.m_cur_first_msg k =
          h.m_cur_first_msg + k - h.m_max_num_msg := if_neg hpwrap
      rw [hpos, insert_moving_back_unique (by omega), hend]
      unfold pos drawNext
      split_ifs <;> first | omega | (congr 1; omega)

theorem draw_last_spec {size num k : Nat} (hroom : num < size) :
    (∀ j < size, drawLast size k j < size) ∧
      (∀ i < size, ∀ j < size, drawLast size k i = drawLast size k j → i = j) ∧
      (∀ j < k, drawLast size k j = j) ∧ num ≤ drawLast size k k ∧
      ∀ j, k < j → j ≤ num → drawLast size k j = j - 1 := by
  unfold drawLast
  refine ⟨?_, ?_, ?_, ?_, ?_⟩
  · intro j hj
    split_ifs <;> omega
  · intro i hi j hj h
    split_ifs at h <;> omega
  · intro j hj
    exact if_pos hj
  · split_ifs <;> omega
  · intro j hkj hj
    split_ifs <;> omega

theorem draw_next_spec {size num k : Nat} (hroom : num < size) (hk : k ≤ num) :
    (∀ j < size, drawNext num k j < size) ∧
      (∀ i < size, ∀ j < size, drawNext num k i = drawNext num k j → i = j) ∧
      (∀ j < k, drawNext num k j = j) ∧ num ≤ drawNext num k k ∧
      ∀ j, k < j → j ≤ num → drawNext num k j = j - 1 := by
  unfold drawNext
  refine ⟨?_, ?_, ?_, ?_, ?_⟩
  · intro j hj
    split_ifs <;> omega
  · intro i hi j hj h
    split_ifs at h <;> omega
  · intro j hj
    exact if_pos hj
  · split_ifs <;> omega
  · intro j hkj hj
    split_ifs <;> omega

/-- The result of an insertion at the `k`-th window position: the entries are
    redrawn by a permutation that brings a free slot to `k` and keeps the order
    of the inserted ones. -/
structure Inserted (h : mq_hdr_t) (k : Nat) (r : mq_hdr_t × Nat) : Prop where
  max_num : r.1.m_max_num_msg = h.m_max_num_msg
  max_size : r.1.m_max_msg_size = h.m_max_msg_size
  slots : r.1.slots = h.slots
  num : r.1.m_cur_num_msg = h.m_cur_num_msg + 1
  first : r.1.m_cur_first_msg < h.m_max_num_msg
  slot : r.2 = r.1.entry k
  draws : ∃ draw : Nat → Nat,
    (∀ j < h.m_max_num_msg, r.1.entry j = h.entry (draw j)) ∧
      (∀ j < h.m_max_num_msg, draw j < h.m_max_num_msg) ∧
      (∀ i < h.m_max_num_msg, ∀ j < h.m_max_num_msg, draw i = draw j → i = j) ∧
      (∀ j < k, draw j = j) ∧ h.m_cur_num_msg ≤ draw k ∧
      ∀ j, k < j → j ≤ h.m_cur_num_msg → draw j = j - 1

theorem insert_at_first {h : mq_hdr_t} (hfirst : h.m_cur_first_msg < h.m_max_num_msg)
    (hroom : h.m_cur_num_msg < h.m_max_num_msg) :
    Inserted h 0 (h.insert_at h.m_cur_first_msg) := by
  have hval : h.insert_at h.m_cur_first_msg =
      ({ h with
          m_cur_first_msg :=
            (if h.m_cur_first_msg ≠ 0 then h.m_cur_first_msg else h.m_max_num_msg) - 1
          m_cur_num_msg := h.m_cur_num_msg + 1 },
        h.mp_index ((if h.m_cur_first_msg ≠ 0 then h.m_cur_first_msg else h.m_max_num_msg) - 1)) := by
    simp only [insert_at, if_true]
  have hless : (if h.m_cur_first_msg ≠ 0 then h.m_cur_first_msg else h.m_max_num_msg) - 1 <
      h.m_max_num_msg := by
    split_ifs <;> omega
  rw [hval]
  refine ⟨rfl, rfl, rfl, rfl, hless, ?_, drawLast h.m_max_num_msg 0, ?_, draw_last_spec hroom⟩
  · exact congrArg h.mp_index (if_pos hless).symm
  · intro j hj
    simp only [entry]
    unfold pos drawLast
    split_ifs <;> first | omega | (congr 1; omega)

theorem insert_at_end {h : mq_hdr_t} (hfirst : h.m_cur_first_msg < h.m_max_num_msg)
    (hroom : h.m_cur_num_msg < h.m_max_num_msg) (hsome : 0 < h.m_cur_num_msg) :
    Inserted h h.m_cur_num_msg (h.insert_at h.end_pos) := by
  have hne : h.end_pos ≠ h.m_cur_first_msg := by
    rw [end_pos_eq hfirst]
    unfold pos
    split <;> omega
  have hval : h.insert_at h.end_pos =
      ({ h with m_cur_num_msg := h.m_cur_num_msg + 1 }, h.mp_index h.end_pos) := by
    simp only [insert_at, hne, if_false, if_true]
  rw [hval]
  refine ⟨rfl, rfl, rfl, rfl, hfirst, ?_, drawNext h.m_cur_num_msg h.m_cur_num_msg, ?_,
    draw_next_spec hroom (by omega)⟩
  · exact congrArg h.mp_index (end_pos_eq hfirst)
  · intro j hj
    have hdraw : drawNext h.m_cur_num_msg h.m_cur_num_msg j = j := by
      unfold drawNext
      split_ifs <;> omega
    rw [hdraw]
    rfl

theorem insert_moving_front_spec {h : mq_hdr_t} {k : Nat}
    (hfirst : h.m_cur_first_msg < h.m_max_num_msg) (hroom : h.m_cur_num_msg < h.m_max_num_msg)
    (hk : 0 < k) (hkn : k < h.m_cur_num_msg) :
    Inserted h k (h.insert_moving_front (pos h.m_max_num_msg h.m_cur_first_msg k)) := by
  refine ⟨rfl, rfl, rfl, rfl, ?_, ?_, drawLast h.m_max_num_msg k, fun j hj =>
    insert_moving_front_entry hfirst hroom hk hkn hj, draw_last_spec hroom⟩
  · simp only [insert_moving_front]
    split_ifs <;> omega
  · simp only [insert_moving_front, entry]
    congr 1
    unfold pos
    split_ifs <;> omega

theorem insert_moving_back_spec {h : mq_hdr_t} {k : Nat}
    (hfirst : h.m_cur_first_msg < h.m_max_num_msg) (hroom : h.m_cur_num_msg < h.m_max_num_msg)
    (hkn : k < h.m_cur_num_msg) :
    Inserted h k (h.insert_moving_back (pos h.m_max_num_msg h.m_cur_first_msg k)) :=
  ⟨rfl, rfl, rfl, rfl, hfirst, rfl, drawNext h.m_cur_num_msg k, fun _ hj =>
    insert_moving_back_entry hfirst hroom hkn hj, draw_next_spec hroom (Nat.le_of_lt hkn)⟩

/-- Every insertion path redraws the entries in the same way, whichever side of
    the window it shifts and however the window wraps. -/
theorem insert_at_spec {h : mq_hdr_t} {k : Nat} (hfirst : h.m_cur_first_msg < h.m_max_num_msg)
    (hroom : h.m_cur_num_msg < h.m_max_num_msg) (hk : k ≤ h.m_cur_num_msg) :
    Inserted h k (h.insert_at (pos h.m_max_num_msg h.m_cur_first_msg k)) := by
  by_cases hzero : k = 0
  · have hpos : pos h.m_max_num_msg h.m_cur_first_msg k = h.m_cur_first_msg := by
      rw [hzero]
      exact if_pos hfirst
    rw [hpos, hzero]
    exact insert_at_first hfirst hroom
  by_cases hlast : k = h.m_cur_num_msg
  · rw [hlast, ← end_pos_eq hfirst]
    exact insert_at_end hfirst hroom (by omega)
  have hbeg : pos h.m_max_num_msg h.m_cur_first_msg k ≠ h.m_cur_first_msg := by
    unfold pos
    split <;> omega
  have hend : pos h.m_max_num_msg h.m_cur_first_msg k ≠ h.end_pos := by
    rw [end_pos_eq hfirst]
    exact fun heq => hlast (pos_inj (by omega) hroom heq)
  by_cases hside : (if pos h.m_max_num_msg h.m_cur_first_msg k ≥ h.m_cur_first_msg
      then pos h.m_max_num_msg h.m_cur_first_msg k - h.m_cur_first_msg
      else pos h.m_max_num_msg h.m_cur_first_msg k + (h.m_max_num_msg - h.m_cur_first_msg)) <
      h.m_cur_num_msg / 2
  · have hval : h.insert_at (pos h.m_max_num_msg h.m_cur_first_msg k) =
        h.insert_moving_front (pos h.m_max_num_msg h.m_cur_first_msg k) := by
      simp only [insert_at, hbeg, hend, hside, if_false, if_true]
    rw [hval]
    exact insert_moving_front_spec hfirst hroom (by omega) (by omega)
  · have hval : h.insert_at (pos h.m_max_num_msg h.m_cur_first_msg k) =
        h.insert_moving_back (pos h.m_max_num_msg h.m_cur_first_msg k) := by
      simp only [insert_at, hbeg, hend, hside, if_false]
    rw [hval]
    exact insert_moving_back_spec hfirst hroom (by omega)

end interprocess.ipcdetail.mq_hdr_t
