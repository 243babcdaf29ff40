import Interprocess.MemAlgo.RbtreeBestFit.Deallocate

namespace interprocess.rbtree_best_fit

open ipcdetail Memory Tiling

variable {P : Traits} {h h' h'' : Heap} {first : Nat} {L M G G' G'' R : List Block}

/-- Everything between two headers may change. -/
def Within (P : Traits) (h h' : Heap) (first : Nat) (L G R : List Block) : Prop :=
  Frame h.mem h'.mem (stop P.Alignment first L + 8) (stop P.Alignment first L + 8)
    (stop P.Alignment first L + 8) (stop P.Alignment first (L ++ G) + 16) (outside P first L G R)

theorem stop_append_congr (first : Nat) (L : List Block) (hunits : units G' = units G) :
    stop P.Alignment first (L ++ G') = stop P.Alignment first (L ++ G) := by
  simp only [stop, units_append, hunits]

/-- Two heaps that differ between two headers only are an exchange. -/
theorem Exchange.of_rep (hrep : Rep P h first (L ++ G ++ R)) (hrep' : Rep P h' first (L ++ G' ++ R))
    (hunits : units G' = units G) (hwithin : Within P h h' first L G R) :
    Exchange P h h' first L G G' R where
  units_eq := hunits
  sizes := fun b hb => hrep'.sizes b (by simp [hb])
  separated := hrep'.separated_here
  separated_tail := hrep'.separated_behind
  headers := by
    intro r R' hR
    have hR' : R ++ [⟨units (L ++ G' ++ R), true⟩] = r :: R' := by
      rw [← hR]
      simp only [units_append, hunits]
    exact hrep'.headers_here hR'
  frame := hwithin
  nodes := by
    have hnodes := hrep'.nodes_perm
    rwa [stop_append_congr first L hunits] at hnodes
  sorted := hrep'.sorted
  allocated := by
    have hallocated := hrep.allocated
    have hallocated' := hrep'.allocated
    simp only [usedUnits_append, Nat.add_mul] at hallocated hallocated'
    omega

theorem Exchange.refl (hrep : Rep P h first (L ++ G ++ R)) : Exchange P h h first L G G R :=
  Exchange.of_rep hrep hrep rfl fun _ _ _ _ => rfl

/-- One exchange after another. -/
theorem Exchange.trans (hrep : Rep P h first (L ++ G ++ R)) (hex : Exchange P h h' first L G G' R)
    (hex' : Exchange P h' h'' first L G' G'' R) : Exchange P h h'' first L G G'' R := by
  have hframe' := hex'.frame
  rw [stop_append_congr first L hex.units_eq] at hframe'
  exact Exchange.of_rep hrep ((hrep.exchange hex).exchange hex')
    (hex'.units_eq.trans hex.units_eq) (hex.frame.trans hframe')

/-- More of what is around may change. -/
theorem Frame.widen_nodes {m m' : Memory} {lo hi lo' hi' : Nat} {nodes nodes' : List Nat}
    (hframe : Frame m m' lo lo lo hi nodes) (hlo : lo' ≤ lo) (hhi : hi ≤ hi')
    (hnodes : ∀ n ∈ nodes, n ∈ nodes' ∨ (lo' ≤ n + 16 ∧ n + 40 ≤ hi')) :
    Frame m m' lo' lo' lo' hi' nodes' := by
  intro b hb hb' hfar
  refine hframe b (by omega) (by omega) ?_
  intro n hn
  rcases hnodes n hn with hin | hin
  · exact hfar n hin
  · omega

theorem Rep.free_bytes {blocks : List Block} (hrep : Rep P h first blocks) {a n : Nat} {B : List Block}
    (hB : ∀ b ∈ B, b ∈ blocks) (hn : n ∈ frees P.Alignment a B) :
    a ≤ n ∧ n + 40 ≤ stop P.Alignment a B := by
  obtain ⟨u, hu⟩ := (mem_frees _).mp hn
  have hbound : _ ∧ n + u * P.Alignment ≤ _ := mem_placed_bounds _ hu
  have hbytes : P.BlockCtrlBytes ≤ u * P.Alignment :=
    bytes_ge (b := ⟨u, false⟩) (hrep.sizes _ (hB _ (mem_of_mem_placed _ hu)))
  have hge := P.BlockCtrlBytes_ge
  omega

/-- An exchange seen together with blocks behind it. -/
theorem Exchange.widen_right (hrep : Rep P h first (L ++ G ++ (M ++ R)))
    (hex : Exchange P h h' first L G G' (M ++ R)) :
    Exchange P h h' first L (G ++ M) (G' ++ M) R := by
  have hassoc : ∀ B : List Block, L ++ B ++ (M ++ R) = L ++ (B ++ M) ++ R := fun B => by simp
  have hrep' := hrep.exchange hex
  have hstop : stop P.Alignment first (L ++ (G ++ M)) =
      stop P.Alignment (stop P.Alignment first (L ++ G)) M := by
    rw [← List.append_assoc, stop_append]
  refine Exchange.of_rep (hassoc G ▸ hrep) (hassoc G' ▸ hrep')
    (by simp only [units_append, hex.units_eq]) ?_
  have hle := le_stop P.Alignment (stop P.Alignment first (L ++ G)) M
  have hle' := le_stop P.Alignment (stop P.Alignment first L) G
  rw [← stop_append] at hle'
  refine hex.frame.widen_nodes (Nat.le_refl _) (by omega) ?_
  intro n hn
  rw [frees_append, List.mem_append, List.mem_append] at hn
  rw [outside, hstop, List.mem_append]
  rcases hn with hn | hn | hn
  · exact Or.inl (Or.inl hn)
  · refine Or.inr ?_
    have hbytes := hrep.free_bytes (B := M) (fun b hb => by simp [hb]) hn
    omega
  · exact Or.inl (Or.inr hn)

/-- An exchange seen together with blocks in front of it. -/
theorem Exchange.widen_left (hrep : Rep P h first (L ++ M ++ G ++ R))
    (hex : Exchange P h h' first (L ++ M) G G' R) :
    Exchange P h h' first L (M ++ G) (M ++ G') R := by
  have hassoc : ∀ B : List Block, L ++ M ++ B ++ R = L ++ (M ++ B) ++ R := fun B => by simp
  have hrep' := hrep.exchange hex
  refine Exchange.of_rep (hassoc G ▸ hrep) (hassoc G' ▸ hrep')
    (by simp only [units_append, hex.units_eq]) ?_
  have hframe := hex.frame
  rw [List.append_assoc] at hframe
  have hle := le_stop P.Alignment (stop P.Alignment first L) M
  rw [← stop_append] at hle
  have hle' := le_stop P.Alignment (stop P.Alignment first (L ++ M)) G
  rw [← stop_append, List.append_assoc] at hle'
  refine hframe.widen_nodes (by omega) (Nat.le_refl _) ?_
  intro n hn
  rw [frees_append, List.mem_append, List.mem_append] at hn
  rw [outside, List.mem_append]
  rcases hn with (hn | hn) | hn
  · exact Or.inl (Or.inl hn)
  · refine Or.inr ?_
    have hbytes := hrep.free_bytes (B := M) (fun b hb => by simp [hb]) hn
    rw [← stop_append] at hbytes
    omega
  · exact Or.inl (Or.inr hn)

/-- The second of two parts of a buffer is given back, which leaves the first alone. -/
theorem Rep.deallocate_second {u v w n : Nat} {d : Bool}
    (hrep : Rep P h first (L ++ [⟨u, true⟩] ++ (free_if d n ++ R)))
    (hr : d = false → ∀ r ∈ R.head?, r.used = true)
    (hex : Exchange P h h' first L [⟨u, true⟩] [⟨v, true⟩, ⟨w, true⟩] (free_if d n ++ R)) :
    Exchange P h (priv_deallocate P h' (priv_get_user_buffer P
        (stop P.Alignment first L + v * P.Alignment)))
      first L ([⟨u, true⟩] ++ free_if d n) [⟨v, true⟩, ⟨w + if d then n else 0, false⟩] R ∧
    SameOn (priv_deallocate P h' (priv_get_user_buffer P
        (stop P.Alignment first L + v * P.Alignment))).mem h'.mem
      (stop P.Alignment first L + P.AllocatedCtrlBytes)
      (stop P.Alignment first L + v * P.Alignment + UsableByPreviousChunk) := by
  have hrep' : Rep P h' first (L ++ [⟨v, true⟩] ++ surrounded false d 0 w n ++ R) := by
    have hnew := hrep.exchange hex
    simpa [surrounded] using hnew
  have hdeallocated := hrep'.deallocate_exchange (by simp) hr
  have hunits : units (surrounded false d 0 w n) = w + if d then n else 0 := by
    rw [units_surrounded]
    simp
  have hstart : stop P.Alignment first (L ++ [⟨v, true⟩]) + 0 * P.Alignment =
      stop P.Alignment first L + v * P.Alignment := by
    rw [stop_append, stop_cons, stop_nil]
    simp
  simp only [Bool.false_eq_true, if_false, hstart, hunits] at hdeallocated
  refine ⟨(hex.widen_right hrep).trans (by simpa using hrep) (hdeallocated.widen_left hrep'), ?_⟩
  have hlive : LiveAt P first (L ++ [⟨v, true⟩] ++ surrounded false d 0 w n ++ R)
      (stop P.Alignment first L) v := by
    have hmem := mem_placed_mid P.Alignment first ⟨v, true⟩ L (surrounded false d 0 w n ++ R)
    simpa [LiveAt] using hmem
  refine (hrep'.exchange_kept hdeallocated hlive ?_).2
  intro hin
  have hbound := (mem_placed_bounds _ hin).1
  have hbytes := bytes_ge (hrep'.sizes ⟨v, true⟩ (by simp))
  have hge := P.BlockCtrlBytes_ge
  rw [stop_append, stop_cons, stop_nil] at hbound
  omega

/-- The first of several parts of a buffer is given back, with blocks in use on both
    sides. -/
theorem Rep.deallocate_front {f s : Nat} (hrep : Rep P h first (L ++ G ++ R))
    (hl : (last front L).used = true)
    (hex : Exchange P h h' first L G (⟨f, true⟩ :: ⟨s, true⟩ :: M) R) :
    Exchange P h (priv_deallocate P h' (priv_get_user_buffer P (stop P.Alignment first L))) first L G
      (⟨f, false⟩ :: ⟨s, true⟩ :: M) R := by
  have hrep' : Rep P h' first (L ++ surrounded false false 0 f 0 ++ (⟨s, true⟩ :: M ++ R)) := by
    have hnew := hrep.exchange hex
    simpa [surrounded] using hnew
  have hdeallocated := hrep'.deallocate_exchange (fun _ => hl) (by
    intro _ r hr
    cases hr
    rfl)
  have hunits : units (surrounded false false 0 f 0) = f := by
    rw [units_surrounded]
    simp
  simp only [Bool.false_eq_true, if_false, Nat.zero_mul, Nat.add_zero, hunits] at hdeallocated
  exact hex.trans hrep (hdeallocated.widen_right hrep')

end interprocess.rbtree_best_fit
