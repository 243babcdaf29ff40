import Interprocess.Base.Transition
import Interprocess.SegmentManager.Construction.Operations

open Transition

namespace interprocess.segment_manager.construction

variable {ν : Type} [LinearOrder ν]

/-- The iterator of a construction still designates its entry. -/
def Designates (s : State ν) (frame : Frame ν) : Prop :=
  match frame.it, frame.name with
  | .position buffer position, some name => buffer = s.buffer ∧ s.index[position]? = some (name, frame.block)
  | _, _ => True

/-- The steps that the rollback can cope with: an iterator of the arguments does
    not throw when it is incremented, calls made by a constructor have not moved
    the entry that a flat map has to erase, and nobody destroys an object that is
    under construction. -/
def Orderly (s : State ν × Names ν) : Label ν → Prop
  | .increment_throws => False
  | .element_throws => ∀ frame ∈ s.1.frames.head?, Designates s.1 frame
  | .destroy name => ∀ frame ∈ s.1.frames, find s.1.index name ≠ some frame.block
  | _ => True

/-- The index holds the names, every block that is given out belongs to a
    construction in progress or to a whole object, and constructor and destructor
    runs are accounted for. -/
structure Inv (s : State ν) (m : Names ν) : Prop where
  defined : s.undefined = false
  names : (s.index.map Prod.fst).Nodup
  index_iff : ∀ name block, (name, block) ∈ s.index ↔ m name = some block
  named_mem : ∀ name block, m name = some block → block ∈ s.blocks
  named_inj : ∀ name name' block, m name = some block → m name' = some block → name = name'
  blocks_lt : ∀ block ∈ s.blocks, block < s.next
  frames_nodup : (s.frames.map Frame.block).Nodup
  frame_mem : ∀ frame ∈ s.frames, frame.block ∈ s.blocks
  frame_named : ∀ frame ∈ s.frames, ∀ name, m name = some frame.block ↔ frame.name = some name
  frame_node : ∀ frame ∈ s.frames, ∀ block, frame.it = .node block → block = frame.block
  frame_num : ∀ frame ∈ s.frames, s.num frame.block = frame.num
  frame_constructed : ∀ frame ∈ s.frames, ∀ j,
    s.constructed frame.block j = if j < frame.constructed then 1 else 0
  object_constructed : ∀ block ∈ s.blocks, (∀ frame ∈ s.frames, frame.block ≠ block) → ∀ j,
    s.constructed block j = if j < s.num block then 1 else 0
  alive : ∀ block ∈ s.blocks, ∀ j, s.destroyed block j = 0
  gone : ∀ block, block ∉ s.blocks → ∀ j, s.destroyed block j = s.constructed block j ∧ s.constructed block j ≤ 1
  fresh : ∀ block, s.next ≤ block → ∀ j, s.constructed block j = 0

variable {s : State ν} {m : Names ν}

/-- The lookup in the index is the lookup in the map. -/
theorem Inv.find_eq (h : Inv s m) (name : ν) : find s.index name = m name := by
  unfold find
  cases hfind : s.index.find? fun entry => entry.1 = name with
  | none =>
    rw [List.find?_eq_none] at hfind
    cases hm : m name with
    | none => rfl
    | some block => exact absurd (decide_eq_true rfl) (hfind _ ((h.index_iff name block).mpr hm))
  | some entry =>
    obtain ⟨name', block⟩ := entry
    have hname : name' = name := by simpa using List.find?_some hfind
    rw [Option.map_some, ← hname]
    exact ((h.index_iff name' block).mp (List.mem_of_find?_eq_some hfind)).symm

omit [LinearOrder ν] in
theorem inv_start : Inv (start : State ν × Names ν).1 (start : State ν × Names ν).2 where
  defined := rfl
  names := List.nodup_nil
  index_iff := by simp [start]
  named_mem := nofun
  named_inj := nofun
  blocks_lt := by simp [start]
  frames_nodup := List.nodup_nil
  frame_mem := nofun
  frame_named := nofun
  frame_node := nofun
  frame_num := nofun
  frame_constructed := nofun
  object_constructed := by simp [start]
  alive := by simp [start]
  gone := fun _ _ _ => ⟨rfl, Nat.zero_le 1⟩
  fresh := fun _ _ _ => rfl

omit [LinearOrder ν] in
/-- A block that was never given out. -/
theorem Inv.next_not_mem (h : Inv s m) : s.next ∉ s.blocks :=
  fun hmem => absurd (h.blocks_lt _ hmem) (Nat.lt_irrefl _)

omit [LinearOrder ν] in
/-- A new construction, under a new name or under none. -/
theorem Inv.begin_construction (h : Inv s m) {index : List (ν × Nat)} {buffer num : Nat} {m' : Names ν}
    {name : Option ν} {it : Iterator} (hnames : (index.map Prod.fst).Nodup)
    (hindex : ∀ n block, (n, block) ∈ index ↔ m' n = some block)
    (hnew : ∀ n, m' n = some s.next ↔ name = some n)
    (hold : ∀ n block, block ≠ s.next → (m' n = some block ↔ m n = some block))
    (hnode : ∀ block, it = .node block → block = s.next) :
    Inv (State.begin_construction { s with
      index := index
      buffer := buffer } name num it) m' where
  defined := h.defined
  names := hnames
  index_iff := hindex
  named_mem := by
    intro n block hn
    by_cases hblock : block = s.next
    · rw [hblock]
      exact Finset.mem_insert_self _ _
    · exact Finset.mem_insert_of_mem (h.named_mem n block ((hold n block hblock).mp hn))
  named_inj := by
    intro n n' block hn hn'
    by_cases hblock : block = s.next
    · rw [hblock] at hn hn'
      exact Option.some.inj (((hnew n).mp hn).symm.trans ((hnew n').mp hn'))
    · exact h.named_inj n n' block ((hold n block hblock).mp hn) ((hold n' block hblock).mp hn')
  blocks_lt := by
    intro block hmem
    show block < s.next + 1
    obtain rfl | hmem := Finset.mem_insert.mp hmem
    · exact Nat.lt_succ_self _
    · exact Nat.lt_succ_of_lt (h.blocks_lt block hmem)
  frames_nodup := by
    show (s.next :: s.frames.map Frame.block).Nodup
    refine List.nodup_cons.mpr ⟨?_, h.frames_nodup⟩
    intro hmem
    obtain ⟨frame, hframe, hblock⟩ := List.mem_map.mp hmem
    exact h.next_not_mem (hblock ▸ h.frame_mem frame hframe)
  frame_mem := by
    intro frame hframe
    obtain rfl | hframe := List.mem_cons.mp hframe
    · exact Finset.mem_insert_self _ _
    · exact Finset.mem_insert_of_mem (h.frame_mem frame hframe)
  frame_named := by
    intro frame hframe n
    obtain rfl | hframe := List.mem_cons.mp hframe
    · exact hnew n
    · rw [hold n frame.block fun heq => h.next_not_mem (heq ▸ h.frame_mem frame hframe)]
      exact h.frame_named frame hframe n
  frame_node := by
    intro frame hframe block hblock
    obtain rfl | hframe := List.mem_cons.mp hframe
    · exact hnode block hblock
    · exact h.frame_node frame hframe block hblock
  frame_num := by
    intro frame hframe
    obtain rfl | hframe := List.mem_cons.mp hframe
    · exact Function.update_self ..
    · have hne : frame.block ≠ s.next := fun heq => h.next_not_mem (heq ▸ h.frame_mem frame hframe)
      exact (Function.update_of_ne hne _ _).trans (h.frame_num frame hframe)
  frame_constructed := by
    intro frame hframe j
    obtain rfl | hframe := List.mem_cons.mp hframe
    · exact h.fresh s.next (Nat.le_refl _) j
    · exact h.frame_constructed frame hframe j
  object_constructed := by
    intro block hmem hframes j
    have hne : block ≠ s.next := fun heq => hframes _ (List.mem_cons_self ..) heq.symm
    have hmem := Finset.mem_of_mem_insert_of_ne hmem hne
    have hobject := h.object_constructed block hmem (fun frame hframe =>
      hframes frame (List.mem_cons_of_mem _ hframe)) j
    show s.constructed block j = if j < Function.update s.num s.next num block then 1 else 0
    rw [Function.update_of_ne hne]
    exact hobject
  alive := by
    intro block hmem j
    obtain rfl | hmem := Finset.mem_insert.mp hmem
    · exact ((h.gone s.next h.next_not_mem j).1).trans (h.fresh s.next (Nat.le_refl _) j)
    · exact h.alive block hmem j
  gone := fun block hmem => h.gone block fun hold => hmem (Finset.mem_insert_of_mem hold)
  fresh := fun block hle => h.fresh block (Nat.le_of_succ_le hle)

/-- The insertion of a new name. -/
theorem Inv.insert (h : Inv s m) {name : ν} {index : List (ν × Nat)} {buffer num : Nat} {it : Iterator}
    (hname : m name = none) (hperm : index.Perm ((name, s.next) :: s.index))
    (hnode : ∀ block, it = .node block → block = s.next) :
    Inv (State.begin_construction { s with
      index := index
      buffer := buffer } (some name) num it) (Function.update m name (some s.next)) := by
  refine h.begin_construction ?_ ?_ ?_ ?_ hnode
  · refine (hperm.map Prod.fst).nodup_iff.mpr (List.nodup_cons.mpr ⟨?_, h.names⟩)
    intro hmem
    obtain ⟨⟨name', block⟩, hentry, rfl⟩ := List.mem_map.mp hmem
    rw [(h.index_iff name' block).mp hentry] at hname
    cases hname
  · intro n block
    rw [hperm.mem_iff, List.mem_cons, Prod.mk.injEq]
    by_cases hn : n = name
    · subst hn
      rw [Function.update_self, Option.some.injEq]
      constructor
      · rintro (⟨-, rfl⟩ | hentry)
        · rfl
        · rw [(h.index_iff n block).mp hentry] at hname
          cases hname
      · intro hblock
        exact .inl ⟨rfl, hblock.symm⟩
    · rw [Function.update_of_ne hn, h.index_iff]
      simp [hn]
  · intro n
    by_cases hn : n = name
    · rw [hn, Function.update_self]
      simp
    · rw [Function.update_of_ne hn]
      constructor
      · intro hblock
        exact absurd (h.named_mem n s.next hblock) h.next_not_mem
      · rintro ⟨⟩
        exact absurd rfl hn
  · intro n block hblock
    by_cases hn : n = name
    · rw [hn, Function.update_self, hname]
      simp [Ne.symm hblock]
    · rw [Function.update_of_ne hn]

theorem Inv.construct (h : Inv s m) {kind : Index} {name : Option ν} {num : Nat} {insertion : Insertion}
    {s' : State ν} (hstep : construct kind s name num insertion = some s') :
    Inv s' (m.after kind s (.construct name num insertion)) := by
  cases name with
  | none =>
    cases hstep
    split_ifs
    · exact h
    · exact h.begin_construction h.names h.index_iff
        (fun n => ⟨fun hn => absurd (h.named_mem n s.next hn) h.next_not_mem, nofun⟩)
        (fun _ _ _ => Iff.rfl) (fun block hblock => (Iterator.node.inj hblock).symm)
  | some name =>
    simp only [construction.construct] at hstep
    rw [h.find_eq name] at hstep
    split_ifs at hstep with hnull hfound
    · cases hstep
      cases insertion with
      | inserted reallocates =>
        simp only [Names.after]
        rw [if_neg (fun hnone => by rw [hnone.2] at hfound; cases hfound)]
        exact h
      | _ => exact h
    · have hname : m name = none := by simpa using hfound
      cases insertion with
      | no_memory =>
        cases hstep
        exact h
      | insert_throws =>
        cases hstep
        exact { h with
          blocks_lt := fun block hmem => Nat.lt_succ_of_lt (h.blocks_lt block hmem)
          fresh := fun block hle => h.fresh block (Nat.le_of_succ_le hle) }
      | inserted reallocates =>
        simp only [Names.after]
        rw [if_pos ⟨hnull, hname⟩]
        cases hstep
        unfold State.insert_commit
        split
        · exact h.insert hname (List.perm_insertIdx _ _ List.countP_le_length) nofun
        · exact h.insert hname (List.Perm.refl _) (fun block hblock => (Iterator.node.inj hblock).symm)

omit [LinearOrder ν] in
/-- The constructor of an element returns. -/
theorem Inv.element_constructed (h : Inv s m) {frame : Frame ν} {rest : List (Frame ν)}
    (hframes : s.frames = frame :: rest) :
    Inv { s.count_element frame.block frame.constructed with
      frames := { frame with constructed := frame.constructed + 1 } :: rest } m := by
  have hmem : ∀ f, f ∈ s.frames ↔ f = frame ∨ f ∈ rest := by
    intro f
    rw [hframes, List.mem_cons]
  have hnodup := h.frames_nodup
  rw [hframes, List.map_cons, List.nodup_cons] at hnodup
  have hother : ∀ f ∈ rest, f.block ≠ frame.block := by
    intro f hf heq
    exact hnodup.1 (heq ▸ List.mem_map_of_mem hf)
  have hframe := (hmem frame).mpr (.inl rfl)
  have hin := h.frame_mem frame hframe
  have hkept : ∀ block, block ≠ frame.block → ∀ j,
      (s.count_element frame.block frame.constructed).constructed block j = s.constructed block j := by
    intro block hne j
    simp only [State.count_element, hne, false_and, if_false]
  refine { h with
    frames_nodup := ?_
    frame_mem := ?_
    frame_named := ?_
    frame_node := ?_
    frame_num := ?_
    frame_constructed := ?_
    object_constructed := ?_
    gone := ?_
    fresh := ?_ }
  · show (frame.block :: rest.map Frame.block).Nodup
    exact List.nodup_cons.mpr hnodup
  · intro f hf
    obtain rfl | hf := List.mem_cons.mp hf
    · exact hin
    · exact h.frame_mem f ((hmem f).mpr (.inr hf))
  · intro f hf
    obtain rfl | hf := List.mem_cons.mp hf
    · exact h.frame_named frame hframe
    · exact h.frame_named f ((hmem f).mpr (.inr hf))
  · intro f hf
    obtain rfl | hf := List.mem_cons.mp hf
    · exact h.frame_node frame hframe
    · exact h.frame_node f ((hmem f).mpr (.inr hf))
  · intro f hf
    obtain rfl | hf := List.mem_cons.mp hf
    · exact h.frame_num frame hframe
    · exact h.frame_num f ((hmem f).mpr (.inr hf))
  · intro f hf j
    obtain rfl | hf := List.mem_cons.mp hf
    · show (s.count_element frame.block frame.constructed).constructed frame.block j =
        if j < frame.constructed + 1 then 1 else 0
      simp only [State.count_element, true_and, h.frame_constructed frame hframe j]
      split_ifs <;> omega
    · exact (hkept f.block (hother f hf) j).trans (h.frame_constructed f ((hmem f).mpr (.inr hf)) j)
  · intro block hblock hnone j
    have hne : frame.block ≠ block := hnone { frame with constructed := frame.constructed + 1 }
      (List.mem_cons_self ..)
    refine (hkept block hne.symm j).trans (h.object_constructed block hblock ?_ j)
    intro f hf
    obtain rfl | hf := (hmem f).mp hf
    · exact hne
    · exact hnone f (List.mem_cons_of_mem _ hf)
  · intro block hblock j
    have hne : block ≠ frame.block := fun heq => hblock (heq ▸ hin)
    have hgone := h.gone block hblock j
    rw [← hkept block hne j] at hgone
    exact hgone
  · intro block hle j
    have hne : block ≠ frame.block := fun heq => absurd (h.blocks_lt _ hin) (by rw [← heq]; exact Nat.not_lt.mpr hle)
    exact (hkept block hne j).trans (h.fresh block hle j)

omit [LinearOrder ν] in
/-- A construction ends with all its elements. -/
theorem Inv.finish (h : Inv s m) {frame : Frame ν} {rest : List (Frame ν)}
    (hframes : s.frames = frame :: rest) (hall : frame.constructed = frame.num) :
    Inv { s with frames := rest } m := by
  have hmem : ∀ f, f ∈ s.frames ↔ f = frame ∨ f ∈ rest := by
    intro f
    rw [hframes, List.mem_cons]
  have hrest : ∀ f ∈ rest, f ∈ s.frames := fun f hf => (hmem f).mpr (.inr hf)
  have hnodup := h.frames_nodup
  rw [hframes, List.map_cons, List.nodup_cons] at hnodup
  have hframe := (hmem frame).mpr (.inl rfl)
  refine { h with
    frames_nodup := hnodup.2
    frame_mem := fun f hf => h.frame_mem f (hrest f hf)
    frame_named := fun f hf => h.frame_named f (hrest f hf)
    frame_node := fun f hf => h.frame_node f (hrest f hf)
    frame_num := fun f hf => h.frame_num f (hrest f hf)
    frame_constructed := fun f hf => h.frame_constructed f (hrest f hf)
    object_constructed := ?_ }
  intro block hblock hnone j
  by_cases hne : frame.block = block
  · subst hne
    show s.constructed frame.block j = if j < s.num frame.block then 1 else 0
    rw [h.frame_constructed frame hframe j, h.frame_num frame hframe, hall]
  · refine h.object_constructed block hblock ?_ j
    intro f hf
    obtain rfl | hf := (hmem f).mp hf
    · exact hne
    · exact hnone f hf

omit [LinearOrder ν] in
/-- A block goes back after the destructors of its constructed elements, and its
    entry leaves the index. -/
theorem Inv.release (h : Inv s m) (index : List (ν × Nat)) (frames : List (Frame ν)) {block n : Nat}
    {m' : Names ν} (hmem : block ∈ s.blocks) (hnames : (index.map Prod.fst).Nodup)
    (hindex : ∀ name b, (name, b) ∈ index ↔ (name, b) ∈ s.index ∧ b ≠ block)
    (hm : ∀ name b, m' name = some b ↔ m name = some b ∧ b ≠ block)
    (hsub : frames.Sublist s.frames) (hframes : ∀ frame ∈ frames, frame.block ≠ block)
    (hkept : ∀ frame ∈ s.frames, frame.block ≠ block → frame ∈ frames)
    (hconstructed : ∀ j, s.constructed block j = if j < n then 1 else 0) :
    Inv { (({ s with index := index }).destroy_n block n).deallocate block with frames := frames } m' := by
  have hdestroyed : ∀ b, b ≠ block → ∀ j, (s.destroy_n block n).destroyed b j = s.destroyed b j := by
    intro b hne j
    simp only [State.destroy_n, hne, false_and, if_false]
  refine { h with
    names := hnames
    index_iff := ?_
    named_mem := ?_
    named_inj := ?_
    blocks_lt := fun b hb => h.blocks_lt b (Finset.mem_of_mem_erase hb)
    frames_nodup := h.frames_nodup.sublist (hsub.map Frame.block)
    frame_mem := fun frame hframe =>
      Finset.mem_erase.mpr ⟨hframes frame hframe, h.frame_mem frame (hsub.mem hframe)⟩
    frame_named := ?_
    frame_node := fun frame hframe => h.frame_node frame (hsub.mem hframe)
    frame_num := fun frame hframe => h.frame_num frame (hsub.mem hframe)
    frame_constructed := fun frame hframe => h.frame_constructed frame (hsub.mem hframe)
    object_constructed := ?_
    alive := ?_
    gone := ?_ }
  · intro name b
    rw [hm]
    exact (hindex name b).trans (and_congr_left fun _ => h.index_iff name b)
  · intro name b hb
    obtain ⟨hb, hne⟩ := (hm name b).mp hb
    exact Finset.mem_erase.mpr ⟨hne, h.named_mem name b hb⟩
  · intro name name' b hb hb'
    exact h.named_inj name name' b ((hm name b).mp hb).1 ((hm name' b).mp hb').1
  · intro frame hframe name
    rw [hm, h.frame_named frame (hsub.mem hframe) name]
    exact and_iff_left (hframes frame hframe)
  · intro b hb hnone
    obtain ⟨hne, hb⟩ := Finset.mem_erase.mp hb
    refine h.object_constructed b hb ?_
    intro frame hframe heq
    exact hnone frame (hkept frame hframe (fun hblock => hne (heq.symm.trans hblock))) heq
  · intro b hb j
    obtain ⟨hne, hb⟩ := Finset.mem_erase.mp hb
    exact (hdestroyed b hne j).trans (h.alive b hb j)
  · intro b hb j
    by_cases hne : b = block
    · subst hne
      show (s.destroy_n b n).destroyed b j = s.constructed b j ∧ s.constructed b j ≤ 1
      simp only [State.destroy_n, true_and, h.alive b hmem j, hconstructed j]
      split_ifs <;> simp
    · have hgone := h.gone b (fun hb' => hb (Finset.mem_erase.mpr ⟨hne, hb'⟩)) j
      rw [← hdestroyed b hne j] at hgone
      exact hgone

/-- The map without a name, seen by blocks. -/
theorem Inv.update_none (h : Inv s m) {name : ν} {block : Nat} (hname : m name = some block) (n : ν) (b : Nat) :
    Function.update m name none n = some b ↔ m n = some b ∧ b ≠ block := by
  by_cases hn : n = name
  · rw [hn, Function.update_self, hname, Option.some.injEq]
    constructor
    · nofun
    · rintro ⟨rfl, hne⟩
      exact absurd rfl hne
  · rw [Function.update_of_ne hn]
    refine (and_iff_left_of_imp ?_).symm
    rintro hb rfl
    exact hn (h.named_inj n name b hb hname)

omit [LinearOrder ν] in
/-- The entry at the position that an iterator designates is erased, the others
    stay. -/
theorem Inv.mem_eraseIdx (h : Inv s m) {name : ν} {block position : Nat}
    (hat : s.index[position]? = some (name, block)) (hname : m name = some block) (n : ν) (b : Nat) :
    (n, b) ∈ s.index.eraseIdx position ↔ (n, b) ∈ s.index ∧ b ≠ block := by
  rw [List.mem_eraseIdx_iff_getElem?]
  constructor
  · rintro ⟨k, hk, hentry⟩
    have hmem := List.mem_of_getElem? hentry
    refine ⟨hmem, ?_⟩
    rintro rfl
    have hn := h.named_inj n name b ((h.index_iff n b).mp hmem) hname
    subst hn
    exact hk ((List.getElem?_inj (List.getElem?_eq_some_iff.mp hentry).1 (h.names.of_map _)).mp
      (hentry.trans hat.symm))
  · rintro ⟨hmem, hne⟩
    obtain ⟨k, hk⟩ := List.mem_iff_getElem?.mp hmem
    refine ⟨k, ?_, hk⟩
    rintro rfl
    rw [hat] at hk
    cases hk
    exact hne rfl

/-- The rollback of a construction whose entry is where its iterator says. -/
theorem Inv.roll_back (h : Inv s m) {frame : Frame ν} {rest : List (Frame ν)}
    (hframes : s.frames = frame :: rest) (hdesignates : Designates s frame) :
    Inv (s.roll_back frame rest) (match frame.name with
      | none => m
      | some name => Function.update m name none) := by
  have hframe : frame ∈ s.frames := by rw [hframes]; exact List.mem_cons_self ..
  have hblock := h.frame_mem frame hframe
  have hnodup := h.frames_nodup
  rw [hframes, List.map_cons, List.nodup_cons] at hnodup
  have hother : ∀ f ∈ rest, f.block ≠ frame.block := by
    intro f hf heq
    exact hnodup.1 (heq ▸ List.mem_map_of_mem hf)
  have hsub : rest.Sublist s.frames := by rw [hframes]; exact List.sublist_cons_self ..
  have hkept : ∀ f ∈ s.frames, f.block ≠ frame.block → f ∈ rest := by
    intro f hf hne
    rw [hframes] at hf
    obtain rfl | hf := List.mem_cons.mp hf
    · exact absurd rfl hne
    · exact hf
  have hnamed := h.frame_named frame hframe
  unfold State.roll_back
  cases hname : frame.name with
  | none =>
    refine h.release s.index rest hblock h.names ?_ ?_ hsub hother hkept (h.frame_constructed frame hframe)
    all_goals
      intro name b
      refine (and_iff_left_of_imp ?_).symm
      rintro hb rfl
    · have hnone := (hnamed name).mp ((h.index_iff name frame.block).mp hb)
      rw [hname] at hnone
      cases hnone
    · have hnone := (hnamed name).mp hb
      rw [hname] at hnone
      cases hnone
  | some name =>
    have hm := (hnamed name).mpr hname
    dsimp only
    cases hit : frame.it with
    | position buffer position =>
      unfold Designates at hdesignates
      rw [hit, hname] at hdesignates
      obtain ⟨rfl, hat⟩ := hdesignates
      have hlt : position < s.index.length := (List.getElem?_eq_some_iff.mp hat).1
      have herase : (s.destroy_n frame.block frame.constructed).erase (.position s.buffer position) =
          ({ s with index := s.index.eraseIdx position }).destroy_n frame.block frame.constructed :=
        if_pos ⟨rfl, hlt⟩
      rw [herase]
      refine h.release _ rest hblock ?_ (h.mem_eraseIdx hat hm) (h.update_none hm) hsub hother hkept
        (h.frame_constructed frame hframe)
      exact h.names.sublist ((List.eraseIdx_sublist ..).map Prod.fst)
    | node block =>
      have hnode := h.frame_node frame hframe block hit
      subst hnode
      have hany : s.index.any (fun entry => entry.2 = frame.block) = true :=
        List.any_eq_true.mpr ⟨(name, frame.block), (h.index_iff name frame.block).mpr hm, decide_eq_true rfl⟩
      have herase : (s.destroy_n frame.block frame.constructed).erase (.node frame.block) =
          ({ s with index := s.index.filter fun entry => entry.2 ≠ frame.block }).destroy_n frame.block
            frame.constructed :=
        if_pos hany
      rw [herase]
      refine h.release _ rest hblock ?_ ?_ (h.update_none hm) hsub hother hkept (h.frame_constructed frame hframe)
      · exact h.names.sublist (List.filter_sublist.map Prod.fst)
      · intro n b
        rw [List.mem_filter, decide_eq_true_iff]

/-- The destruction of a finished object. -/
theorem Inv.destroy (h : Inv s m) {name : ν} (hframes : ∀ frame ∈ s.frames, find s.index name ≠ some frame.block) :
    Inv (destroy s name) (Function.update m name none) := by
  unfold construction.destroy
  rw [h.find_eq name] at hframes ⊢
  cases hname : m name with
  | none =>
    dsimp only
    rw [← hname, Function.update_eq_self]
    exact h
  | some block =>
    rw [hname] at hframes
    have hblock := h.named_mem name block hname
    have hother : ∀ frame ∈ s.frames, frame.block ≠ block := fun frame hframe heq =>
      hframes frame hframe (congrArg some heq.symm)
    refine h.release _ s.frames hblock ?_ ?_ (h.update_none hname) (List.Sublist.refl _) hother
      (fun frame hframe _ => hframe) (h.object_constructed block hblock hother)
    · exact h.names.sublist (List.filter_sublist.map Prod.fst)
    · intro n b
      rw [List.mem_filter, decide_eq_true_iff]
      refine and_congr_right fun hmem => not_congr ?_
      constructor
      · rintro rfl
        exact Option.some.inj (((h.index_iff n b).mp hmem).symm.trans hname)
      · rintro rfl
        exact h.named_inj n name b ((h.index_iff n b).mp hmem) hname

theorem Inv.step (h : Inv s m) {kind : Index} {label : Label ν} {s' : State ν} (horderly : Orderly (s, m) label)
    (hstep : step kind s label = some s') : Inv s' (m.after kind s label) := by
  cases label with
  | construct name num insertion => exact h.construct hstep
  | destroy name =>
    cases hstep
    exact h.destroy horderly
  | increment_throws => exact horderly.elim
  | element_constructed =>
    simp only [construction.step] at hstep
    split at hstep
    next => cases hstep
    next frame rest hframes =>
      split_ifs at hstep
      cases hstep
      exact h.element_constructed hframes
  | element_throws =>
    simp only [construction.step] at hstep
    split at hstep
    next => cases hstep
    next frame rest hframes =>
      split_ifs at hstep
      cases hstep
      have hdesignates := horderly frame (by rw [hframes]; rfl)
      have hrolled := h.roll_back hframes hdesignates
      simp only [Names.after, hframes, List.head?_cons, Option.bind_some]
      exact hrolled
  | finish =>
    simp only [construction.step] at hstep
    split at hstep
    next => cases hstep
    next frame rest hframes =>
      split_ifs at hstep with hall
      cases hstep
      exact h.finish hframes hall

instance (s : State ν) (frame : Frame ν) : Decidable (Designates s frame) :=
  match h : frame.it, h' : frame.name with
  | .position buffer position, some name =>
    decidable_of_iff (buffer = s.buffer ∧ s.index[position]? = some (name, frame.block)) (by
      simp only [Designates, h, h'])
  | .position _ _, none => isTrue (by simp only [Designates, h, h'])
  | .node _, _ => isTrue (by simp only [Designates, h])

instance (s : State ν × Names ν) (label : Label ν) : Decidable (Orderly s label) := by
  cases label <;> unfold Orderly <;> infer_instance

end interprocess.segment_manager.construction
