import Interprocess.SegmentManager.Layout

namespace interprocess.segment_manager

open ipcdetail Memory

theorem Name.ext_chars {cfg : Config} {name name' : Name cfg} (h : name.chars = name'.chars) :
    name = name' := by
  cases name
  cases name'
  cases h
  rfl

/-- The element of the index for an object. -/
def Object.index_value (cfg : Config) (name : Name cfg) (obj : Object) : IndexValue :=
  if cfg.index_type.is_intrusive_index then .intrusive (obj.header cfg)
  else .pair (obj.header cfg + obj.info.name_offset cfg.CharT.alignment) name.chars.length
    (obj.header cfg)

/-- The segment holds the map: every object is stored in a block of its own, and
    the index and the blocks are those of the objects. -/
structure Inv {cfg : Config} (s : Segment × Store cfg) : Prop where
  stored : ∀ {name obj}, s.2 name = some obj → Stored cfg s.1.mem name obj
  short : ∀ {name obj}, s.2 name = some obj → cfg.index_type.is_intrusive_index = true →
    name.chars.length < 2 ^ 16
  index_mem : ∀ v, v ∈ s.1.index ↔ ∃ name obj, s.2 name = some obj ∧ v = obj.index_value cfg name
  index_nodup : s.1.index.Nodup
  blocks_mem : ∀ b, b ∈ s.1.blocks ↔ ∃ name obj, s.2 name = some obj ∧ b = obj.block
  inside : ∀ {name obj}, s.2 name = some obj → obj.block.1 + obj.block.2 ≤ s.1.size
  disjoint : ∀ {name obj name' obj'}, s.2 name = some obj → s.2 name' = some obj' →
    name ≠ name' → obj.block.1 + obj.block.2 ≤ obj'.block.1 ∨
      obj'.block.1 + obj'.block.2 ≤ obj.block.1

theorem Object.index_value_block_header (cfg : Config) (name : Name cfg) (obj : Object) :
    (obj.index_value cfg name).block_header = obj.header cfg := by
  unfold Object.index_value
  split_ifs <;> rfl

/-- The index reads the name of an object from its block. -/
theorem Stored.stored_name_eq {cfg : Config} {mem : Memory} {name : Name cfg} {obj : Object}
    (h : Stored cfg mem name obj)
    (hshort : cfg.index_type.is_intrusive_index = true → name.chars.length < 2 ^ 16) :
    stored_name cfg mem (obj.index_value cfg name) = name.chars := by
  have hchars : mem.loadList (obj.header cfg + obj.info.name_offset cfg.CharT.alignment)
      cfg.CharT.sizeof name.chars.length = name.chars := by
    have htake := congrArg (List.take name.chars.length) h.chars_eq
    rwa [loadList_take _ _ _ (Nat.le_succ _), List.take_left' rfl] at htake
  have hnamed : obj.info.m_alloc_type ≠ instance_type.anonymous_type.toNat := by
    change 1 % 4 ≠ 0
    decide
  unfold Object.index_value
  split_ifs with hintrusive
  · have hlength : mem.load (obj.header cfg + obj.info.name_length_offset) 2 = name.chars.length := by
      rw [h.length_eq]
      exact Nat.mod_eq_of_lt (hshort hintrusive)
    simp only [stored_name, IndexValue.name, IndexValue.name_length, block_header.name,
      block_header.name_length, h.read_eq, if_neg hnamed, block_header.sizeof_name_len_t, hlength]
    exact hchars
  · exact hchars

/-- A block holds its header, so blocks that are apart have different ones. -/
theorem Stored.header_ne {cfg : Config} {mem mem' : Memory} {name name' : Name cfg}
    {obj obj' : Object} (h : Stored cfg mem name obj) (h' : Stored cfg mem' name' obj')
    (hdisjoint : obj.block.1 + obj.block.2 ≤ obj'.block.1 ∨
      obj'.block.1 + obj'.block.2 ≤ obj.block.1) : obj.header cfg ≠ obj'.header cfg := by
  have hin := h.block_end
  have hin' := h'.block_end
  have hge := h.geometry.name_ge
  have hge' := h'.geometry.name_ge
  have hat := obj.header_eq cfg
  have hat' := obj'.header_eq cfg
  omega

variable {cfg : Config} {s : Segment × Store cfg}

theorem Inv.stored_name_eq (hinv : Inv s) {name : Name cfg} {obj : Object}
    (hname : s.2 name = some obj) :
    stored_name cfg s.1.mem (obj.index_value cfg name) = name.chars :=
  (hinv.stored hname).stored_name_eq (hinv.short hname)

/-- The index finds the element of the object under a name, and nothing else. -/
theorem Inv.index_find_eq (hinv : Inv s) (name : Name cfg) :
    index_find cfg s.1 name.chars = (s.2 name).map fun obj => obj.index_value cfg name := by
  have hfound : ∀ {v}, index_find cfg s.1 name.chars = some v →
      ∃ obj, s.2 name = some obj ∧ v = obj.index_value cfg name := by
    intro v hv
    obtain ⟨name', obj, hname', rfl⟩ := (hinv.index_mem v).mp (List.mem_of_find?_eq_some hv)
    have hequivalent := (equivalent_iff cfg s.1.mem name.chars _).mp (List.find?_some hv)
    rw [hinv.stored_name_eq hname'] at hequivalent
    have hsame := Name.ext_chars hequivalent
    subst hsame
    exact ⟨obj, hname', rfl⟩
  cases hname : s.2 name with
  | none =>
    cases hfind : index_find cfg s.1 name.chars with
    | none => rfl
    | some v =>
      obtain ⟨obj, hobj, _⟩ := hfound hfind
      rw [hname] at hobj
      cases hobj
  | some obj =>
    cases hfind : index_find cfg s.1 name.chars with
    | none =>
      have hmem : obj.index_value cfg name ∈ s.1.index :=
        (hinv.index_mem _).mpr ⟨name, obj, hname, rfl⟩
      have hnot := List.find?_eq_none.mp hfind _ hmem
      exact absurd ((equivalent_iff cfg s.1.mem _ _).mpr (hinv.stored_name_eq hname).symm) hnot
    | some v =>
      obtain ⟨obj', hobj', hv⟩ := hfound hfind
      rw [hname] at hobj'
      cases hobj'
      rw [hv]
      rfl

theorem Inv.block_pos (hinv : Inv s) {name : Name cfg} {obj : Object}
    (hname : s.2 name = some obj) : 0 < obj.block.2 := by
  have hend := (hinv.stored hname).block_end
  have hge := (hinv.stored hname).geometry.name_ge
  have hheader := obj.header_eq cfg
  omega

/-- Two names have different blocks. -/
theorem Inv.name_eq_of_block (hinv : Inv s) {name name' : Name cfg} {obj obj' : Object}
    (hname : s.2 name = some obj) (hname' : s.2 name' = some obj')
    (hblock : obj.block.1 = obj'.block.1) : name = name' := by
  by_contra hne
  have hdisjoint := hinv.disjoint hname hname' hne
  have hpos := hinv.block_pos hname
  have hpos' := hinv.block_pos hname'
  omega

/-- Two names have different headers. -/
theorem Inv.name_eq_of_header (hinv : Inv s) {name name' : Name cfg} {obj obj' : Object}
    (hname : s.2 name = some obj) (hname' : s.2 name' = some obj')
    (hheader : obj.header cfg = obj'.header cfg) : name = name' := by
  by_contra hne
  exact (hinv.stored hname).header_ne (hinv.stored hname') (hinv.disjoint hname hname' hne) hheader

/-- Two names have different elements in the index. -/
theorem Inv.name_eq_of_index_value (hinv : Inv s) {name name' : Name cfg} {obj obj' : Object}
    (hname : s.2 name = some obj) (hname' : s.2 name' = some obj')
    (hvalue : obj.index_value cfg name = obj'.index_value cfg name') : name = name' := by
  refine hinv.name_eq_of_header hname hname' ?_
  rw [← obj.index_value_block_header cfg name, hvalue, Object.index_value_block_header]

/-- Destroying the object under a name takes its element from the index and its
    block from the blocks. -/
theorem Inv.destroy_impl (hinv : Inv s) {name : Name cfg} {obj : Object}
    (hname : s.2 name = some obj) :
    Inv (priv_generic_named_destroy_impl cfg s.1 obj.T (obj.index_value cfg name),
      Function.update s.2 name none) := by
  have hlive : ∀ {name' obj'}, Function.update s.2 name none name' = some obj' →
      name' ≠ name ∧ s.2 name' = some obj' := by
    intro name' obj' hlive
    by_cases hsame : name' = name
    · rw [hsame, Function.update_self] at hlive
      cases hlive
    · rw [Function.update_of_ne hsame] at hlive
      exact ⟨hsame, hlive⟩
  have hkept : ∀ {name' obj'}, s.2 name' = some obj' → name' ≠ name →
      Function.update s.2 name none name' = some obj' := by
    intro name' obj' hname' hne
    rw [Function.update_of_ne hne]
    exact hname'
  refine ⟨?_, ?_, ?_, hinv.index_nodup.erase _, ?_, ?_, ?_⟩
  · intro name' obj' h
    exact hinv.stored (hlive h).2
  · intro name' obj' h
    exact hinv.short (hlive h).2
  · intro v
    change v ∈ s.1.index.erase (obj.index_value cfg name) ↔ _
    rw [hinv.index_nodup.mem_erase_iff, hinv.index_mem]
    constructor
    · rintro ⟨hne, name', obj', hname', rfl⟩
      refine ⟨name', obj', hkept hname' ?_, rfl⟩
      rintro rfl
      rw [hname] at hname'
      cases hname'
      exact hne rfl
    · rintro ⟨name', obj', hname', rfl⟩
      refine ⟨?_, name', obj', (hlive hname').2, rfl⟩
      intro hvalue
      exact (hlive hname').1 (hinv.name_eq_of_index_value (hlive hname').2 hname hvalue)
  · intro b
    simp only [priv_generic_named_destroy_impl, deallocate, List.mem_filter, hinv.blocks_mem,
      Object.index_value_block_header, Object.header, buffer_of_header_in_buffer,
      decide_eq_true_eq]
    constructor
    · rintro ⟨⟨name', obj', hname', rfl⟩, hne⟩
      refine ⟨name', obj', hkept hname' ?_, rfl⟩
      rintro rfl
      rw [hname] at hname'
      cases hname'
      exact hne rfl
    · rintro ⟨name', obj', hname', rfl⟩
      refine ⟨⟨name', obj', (hlive hname').2, rfl⟩, ?_⟩
      intro hblock
      exact (hlive hname').1 (hinv.name_eq_of_block (hlive hname').2 hname hblock)
  · intro name' obj' h
    exact hinv.inside (hlive h).2
  · intro name₁ obj₁ name₂ obj₂ h₁ h₂ hne
    exact hinv.disjoint (hlive h₁).2 (hlive h₂).2 hne

/-- Writes that spare the control parts of the live blocks. -/
theorem Inv.write (hinv : Inv s) {mem : Memory}
    (hspared : ∀ name obj, s.2 name = some obj →
      SameOn mem s.1.mem (obj.header cfg) (obj.header cfg + sizeof_block_header) ∧
      SameOn mem s.1.mem (obj.header cfg + obj.info.name_length_offset)
        (obj.block.1 + obj.block.2)) :
    Inv ({ s.1 with mem }, s.2) := by
  refine ⟨?_, hinv.short, hinv.index_mem, hinv.index_nodup, hinv.blocks_mem, hinv.inside,
    hinv.disjoint⟩
  intro name obj hname
  exact (hinv.stored hname).congr (hspared name obj hname).1 (hspared name obj hname).2

/-- The object that a construction makes, with its block fresh. -/
structure Made (s : Segment × Store cfg) (name : Name cfg) (obj : Object) : Prop where
  pointer_eq : obj.pointer = block_header.value (obj.header cfg)
  fits : Fits cfg obj.T obj.num name.chars.length
  block_size : obj.block.2 = total_size cfg obj.T obj.info name.chars.length
  fresh : Fresh s.1 obj.block.1 obj.block.2

theorem Made.geometry {name : Name cfg} {obj : Object} (h : Made s name obj) :
    Geometry cfg obj.T obj.num name.chars.length obj.info :=
  segment_manager.geometry h.fits.value_bytes_lt h.fits.size_lt

theorem Made.stored {name : Name cfg} {obj : Object} (h : Made s name obj) :
    Stored cfg (write_block cfg s.1.mem (obj.header cfg) obj.info name.chars) name obj :=
  (write_block_spec s.1.mem name obj h.pointer_eq h.geometry h.block_size).1

theorem Made.new_index_value_eq {name : Name cfg} {obj : Object} (h : Made s name obj) :
    new_index_value cfg (write_block cfg s.1.mem (obj.header cfg) obj.info name.chars)
      (obj.header cfg) name.chars.length = obj.index_value cfg name := by
  unfold new_index_value Object.index_value block_header.name
  rw [h.stored.read_eq]

/-- The writes of a construction leave the other objects as they are. -/
theorem Inv.frame (hinv : Inv s) {name : Name cfg} {obj : Object} (hmade : Made s name obj) :
    Inv ({ s.1 with mem := write_block cfg s.1.mem (obj.header cfg) obj.info name.chars }, s.2) := by
  refine ⟨?_, hinv.short, hinv.index_mem, hinv.index_nodup, hinv.blocks_mem, hinv.inside,
    hinv.disjoint⟩
  intro name' obj' hname'
  refine (hinv.stored hname').frame ?_
  have happart := hmade.fresh.2 obj'.block ((hinv.blocks_mem _).mpr ⟨name', obj', hname', rfl⟩)
  exact (write_block_spec s.1.mem name obj hmade.pointer_eq hmade.geometry hmade.block_size).2 _ _
    happart.symm

/-- A construction under a new name adds the object. -/
theorem Inv.insert (hinv : Inv s) {name : Name cfg} {obj : Object} (hnew : s.2 name = none)
    (hmade : Made s name obj)
    (hshort : cfg.index_type.is_intrusive_index = true → name.chars.length < 2 ^ 16) :
    Inv ({ s.1 with
      mem := write_block cfg s.1.mem (obj.header cfg) obj.info name.chars
      blocks := obj.block :: s.1.blocks
      index := obj.index_value cfg name :: s.1.index }, Function.update s.2 name (some obj)) := by
  have hframe := hinv.frame hmade
  have hlive : ∀ {name' obj'}, Function.update s.2 name (some obj) name' = some obj' →
      (name' = name ∧ obj' = obj) ∨ (name' ≠ name ∧ s.2 name' = some obj') := by
    intro name' obj' hlive
    by_cases hsame : name' = name
    · rw [hsame, Function.update_self] at hlive
      exact Or.inl ⟨hsame, (Option.some.inj hlive).symm⟩
    · rw [Function.update_of_ne hsame] at hlive
      exact Or.inr ⟨hsame, hlive⟩
  have hkept : ∀ {name' obj'}, s.2 name' = some obj' →
      Function.update s.2 name (some obj) name' = some obj' := by
    intro name' obj' hname'
    rw [Function.update_of_ne]
    · exact hname'
    · rintro rfl
      rw [hnew] at hname'
      cases hname'
  have happart : ∀ {name' obj'}, s.2 name' = some obj' →
      obj.block.1 + obj.block.2 ≤ obj'.block.1 ∨ obj'.block.1 + obj'.block.2 ≤ obj.block.1 := by
    intro name' obj' hname'
    exact hmade.fresh.2 obj'.block ((hinv.blocks_mem _).mpr ⟨name', obj', hname', rfl⟩)
  refine ⟨?_, ?_, ?_, ?_, ?_, ?_, ?_⟩
  · intro name' obj' h
    obtain ⟨rfl, rfl⟩ | ⟨_, hold⟩ := hlive h
    · exact hmade.stored
    · exact hframe.stored hold
  · intro name' obj' h
    obtain ⟨rfl, rfl⟩ | ⟨_, hold⟩ := hlive h
    · exact hshort
    · exact hinv.short hold
  · intro v
    rw [List.mem_cons, hinv.index_mem]
    constructor
    · rintro (rfl | ⟨name', obj', hname', rfl⟩)
      · exact ⟨name, obj, Function.update_self _ _ _, rfl⟩
      · exact ⟨name', obj', hkept hname', rfl⟩
    · rintro ⟨name', obj', h, rfl⟩
      obtain ⟨rfl, rfl⟩ | ⟨_, hold⟩ := hlive h
      · exact Or.inl rfl
      · exact Or.inr ⟨name', obj', hold, rfl⟩
  · rw [List.nodup_cons]
    refine ⟨?_, hinv.index_nodup⟩
    intro hmem
    obtain ⟨name', obj', hname', hvalue⟩ := (hinv.index_mem _).mp hmem
    have hheader : obj.header cfg = obj'.header cfg := by
      rw [← obj.index_value_block_header cfg name, hvalue, Object.index_value_block_header]
    exact hmade.stored.header_ne (hinv.stored hname') (happart hname') hheader
  · intro b
    rw [List.mem_cons, hinv.blocks_mem]
    constructor
    · rintro (rfl | ⟨name', obj', hname', rfl⟩)
      · exact ⟨name, obj, Function.update_self _ _ _, rfl⟩
      · exact ⟨name', obj', hkept hname', rfl⟩
    · rintro ⟨name', obj', h, rfl⟩
      obtain ⟨rfl, rfl⟩ | ⟨_, hold⟩ := hlive h
      · exact Or.inl rfl
      · exact Or.inr ⟨name', obj', hold, rfl⟩
  · intro name' obj' h
    obtain ⟨rfl, rfl⟩ | ⟨_, hold⟩ := hlive h
    · exact hmade.fresh.1
    · exact hinv.inside hold
  · intro name₁ obj₁ name₂ obj₂ h₁ h₂ hne
    obtain ⟨rfl, rfl⟩ | ⟨_, hold₁⟩ := hlive h₁ <;> obtain ⟨rfl, rfl⟩ | ⟨_, hold₂⟩ := hlive h₂
    · exact absurd rfl hne
    · exact happart hold₂
    · exact (happart hold₁).symm
    · exact hinv.disjoint hold₁ hold₂ hne

end interprocess.segment_manager
