import Interprocess.MemAlgo.RbtreeBestFit.Deallocate
import Interprocess.MemAlgo.RbtreeBestFit.Neighbours

namespace interprocess.rbtree_best_fit

open ipcdetail Memory Tiling

variable {P : Traits} {h : Heap} {first u v a x e k l : Nat} {L R : List Block} {m : Memory}
  {A X E : BlockCtrl}

/-- Where a buffer is cut in two. -/
structure Cut (P : Traits) (first : Nat) (L : List Block) (u v a x e : Nat) : Prop where
  front : a = stop P.Alignment first L
  mid : x = a + v * P.Alignment
  behind : e = x + (u - v) * P.Alignment
  total : e = a + u * P.Alignment
  stop_eq : e = stop P.Alignment first (L ++ [⟨u, true⟩])
  first_bytes : a + P.BlockCtrlBytes ≤ x
  second_bytes : x + P.BlockCtrlBytes ≤ e

theorem exists_cut (first : Nat) (L : List Block) (hv : P.BlockCtrlUnits ≤ v)
    (hcut : v + P.BlockCtrlUnits ≤ u) : ∃ a x e, Cut P first L u v a x e := by
  have hvbytes : P.BlockCtrlBytes ≤ v * P.Alignment := bytes_ge (b := ⟨v, true⟩) hv
  have hrest : P.BlockCtrlUnits ≤ u - v := by omega
  have hrbytes : P.BlockCtrlBytes ≤ (u - v) * P.Alignment := bytes_ge (b := ⟨u - v, true⟩) hrest
  have htotal : v * P.Alignment + (u - v) * P.Alignment = u * P.Alignment := by
    rw [← Nat.add_mul, Nat.add_sub_cancel' (by omega)]
  refine ⟨_, _, _, rfl, rfl, rfl, ?_, ?_, ?_, ?_⟩
  · omega
  · rw [stop_append, stop_cons, stop_nil]
    change _ = _ + u * P.Alignment
    omega
  · omega
  · omega

section Cutting

variable (hcut : Cut P first L u v a x e)

include hcut

theorem Cut.spread : Spread P (three a x e) :=
  spread_three hcut.first_bytes hcut.second_bytes

theorem Cut.ne : a ≠ x ∧ a ≠ e ∧ x ≠ e := by
  have hge := P.BlockCtrlBytes_ge
  have hfirst := hcut.first_bytes
  have hsecond := hcut.second_bytes
  omega

/-- The writes start. They leave what stays in the first part alone. -/
theorem Cut.editing (hrep : Rep P h first (L ++ [⟨u, true⟩] ++ R)) :
    Editing (three a x e) (a + 8) (a + 16) (x + 8) (e + 16) (outside P first L [⟨u, true⟩] R) h.mem h
      (tri a x e (ctrl h.mem a) (ctrl h.mem x) (ctrl h.mem e)) := by
  have hfirst := hcut.first_bytes
  have hsecond := hcut.second_bytes
  exact hrep.editing_three hcut.front hcut.stop_eq (by omega) (by omega)
    (fun y hy => absurd hy List.not_mem_nil) (fun y hy => absurd hy List.not_mem_nil)

/-- A buffer is cut in two once both headers are written. -/
theorem Cut.exchange (hrep : Rep P h first (L ++ [⟨u, true⟩] ++ R)) (hv : P.BlockCtrlUnits ≤ v)
    (hvu : v + P.BlockCtrlUnits ≤ u)
    (hX : Executed (three a x e) (a + 8) (a + 16) (x + 8) (e + 16)
      (outside P first L [⟨u, true⟩] R) h.mem m (tri a x e A X E))
    (hA : A = { ctrl h.mem a with m_size := v, m_allocated := true })
    (hX' : X.m_size = u - v ∧ X.m_prev_allocated = true ∧ X.m_allocated = true)
    (hE : E = { ctrl h.mem e with m_prev_allocated := true }) :
    Exchange P h { h with mem := m } first L [⟨u, true⟩] [⟨v, true⟩, ⟨u - v, true⟩] R := by
  obtain ⟨r, R', hR⟩ := exists_next R ⟨units (L ++ [⟨u, true⟩] ++ R), true⟩
  obtain ⟨hhead, hbehind, -⟩ := hrep.headers_here hR
  change HeaderAt _ (_ + u * P.Alignment) _ _ at hbehind
  rw [← hcut.front] at hhead hbehind
  rw [← hcut.total] at hbehind
  have hfirst := hcut.first_bytes
  have hsecond := hcut.second_bytes
  obtain ⟨hax, hae, hxe⟩ := hcut.ne
  have hstop := hcut.stop_eq
  have ha := hcut.front
  have hnodes := hrep.nodes_perm
  subst hA hE
  refine ((hcut.editing hrep).with_mem hX).exchange_two ha hcut.mid hcut.behind (by simp; omega)
    (by omega) (by omega) hR hv (by omega) (Or.inr rfl) (Or.inl rfl) (fun r hr => Or.inl rfl) ?_ ?_ ?_
    ?_ ?_ ?_
  · exact ⟨rfl, hhead.prev_allocated, rfl, hhead.prev_size⟩
  · exact ⟨hX'.1, hX'.2.1, hX'.2.2, by nofun⟩
  · exact ⟨hbehind.size, rfl, hbehind.allocated, by nofun⟩
  · rw [hstop]
    exact hnodes
  · subst ha hstop
    refine hrep.sorted_rest (List.Sublist.refl _) (fun y hy => hnodes.mem_iff.mp hy)
      (hX.frame.widen (Nat.le_refl _) (by omega) (by omega) (Nat.le_refl _)) ?_
    rw [hX.size_eq mem_three_right, tri_right hae hxe]
    rfl
  · simp only [usedUnits_cons, usedUnits_nil, if_true, Nat.add_zero]
    rw [Nat.add_sub_cancel' (by omega)]

end Cutting

end interprocess.rbtree_best_fit
