import Interprocess.Base.Transition
import Interprocess.SegmentManager.Invariant

namespace interprocess.segment_manager

open ipcdetail Memory Transition

variable {cfg : Config} {s : Segment × Store cfg}

/-- A constructing call under a name that is taken changes nothing. -/
theorem Inv.construct_existing (hinv : Inv s) {name : Name cfg} {obj : Object}
    (hname : s.2 name = some obj) (T : CType) (num : Nat) (try2find : Bool)
    (allocated : Option Nat) (throws : Bool) :
    priv_generic_named_construct cfg s.1 T num name.chars try2find allocated throws =
      (s.1, if try2find then some obj.pointer else none) := by
  unfold priv_generic_named_construct
  rw [hinv.index_find_eq name, hname]
  simp only [Option.map_some, Object.index_value_block_header, (hinv.stored hname).pointer_eq]

/-- A constructing call under a new name, with the buffer it got. -/
theorem Inv.construct_new (hinv : Inv s) {name : Name cfg} (hnew : s.2 name = none) (T : CType)
    (num : Nat) (try2find : Bool) (buffer : Nat) (throws : Bool)
    (hmade : Made s name (Object.made cfg T num name.chars.length buffer
      (block_header.value (header_in_buffer cfg T buffer)))) :
    priv_generic_named_construct cfg s.1 T num name.chars try2find (some buffer) throws =
      let obj := Object.made cfg T num name.chars.length buffer
        (block_header.value (header_in_buffer cfg T buffer))
      let mem := write_block cfg s.1.mem (obj.header cfg) obj.info name.chars
      if throws then ({ s.1 with mem := mem }, none)
      else ({ s.1 with
        mem := mem
        blocks := obj.block :: s.1.blocks
        index := obj.index_value cfg name :: s.1.index }, some obj.pointer) := by
  have hvalue := hmade.new_index_value_eq
  have hpos : 0 < (Object.made cfg T num name.chars.length buffer
      (block_header.value (header_in_buffer cfg T buffer))).block.2 := by
    have hend := hmade.stored.block_end
    have hge := hmade.stored.geometry.name_ge
    rw [Object.header_eq] at hend
    omega
  have hother : s.1.blocks.filter (fun block => block.1 ≠ buffer) = s.1.blocks := by
    rw [List.filter_eq_self]
    intro block hblock
    obtain ⟨name', obj', hname', rfl⟩ := (hinv.blocks_mem block).mp hblock
    have happart := hmade.fresh.2 _ hblock
    have hpos' := hinv.block_pos hname'
    rw [decide_eq_true_eq]
    change buffer + _ ≤ _ ∨ _ ≤ buffer at happart
    omega
  unfold priv_generic_named_construct
  rw [hinv.index_find_eq name, hnew]
  cases throws with
  | true =>
    simp only [Option.map_none, if_true, deallocate, List.erase_cons_head, Prod.mk.injEq, and_true]
    congr 1
    rw [List.filter_cons_of_neg (by simp), hother]
  | false =>
    simp only [Option.map_none, Bool.false_eq_true, if_false]
    exact congrArg (fun it => (({ s.1 with mem := _, blocks := _, index := it :: s.1.index } : Segment),
      some _)) hvalue

theorem made_of_fresh {name : Name cfg} {T : CType} {num buffer : Nat}
    (hfits : Fits cfg T num name.chars.length)
    (hfresh : Fresh s.1 buffer (total_size cfg T
      (block_header.construct (T.sizeof * num % 2 ^ 64) .named_type) name.chars.length)) :
    Made s name (Object.made cfg T num name.chars.length buffer
      (block_header.value (header_in_buffer cfg T buffer))) where
  pointer_eq := rfl
  fits := hfits
  block_size := rfl
  fresh := hfresh

/-- A constructing call and the map after it. -/
theorem Inv.construct_call (hinv : Inv s) {name : Name cfg} {T : CType} {num : Nat}
    (try2find : Bool) (allocated : Option Nat) (throws : Bool)
    (hsized : s.2 name = none → allocated ≠ none →
      if throws then Fits cfg T num name.chars.length
      else Representable cfg T num name.chars.length)
    (hfresh : ∀ buffer, allocated = some buffer → Fresh s.1 buffer (total_size cfg T
      (block_header.construct (T.sizeof * num % 2 ^ 64) .named_type) name.chars.length)) :
    let result := priv_generic_named_construct cfg s.1 T num name.chars try2find allocated throws
    Inv (result.1, s.2.construct T num name allocated result.2) := by
  intro result
  unfold Store.construct
  cases hname : s.2 name with
  | some obj =>
    have hresult : result = (s.1, _) := hinv.construct_existing hname T num try2find allocated throws
    rw [hresult]
    exact hinv
  | none =>
    cases allocated with
    | none =>
      have hresult : result = (s.1, none) := by
        change priv_generic_named_construct cfg s.1 T num name.chars try2find none throws = _
        unfold priv_generic_named_construct
        rw [hinv.index_find_eq name, hname]
        rfl
      rw [hresult]
      exact hinv
    | some buffer =>
      have hsizes := hsized hname (Option.some_ne_none buffer)
      cases throws with
      | true =>
        have hmade := made_of_fresh hsizes (hfresh buffer rfl)
        have hresult : result = _ := hinv.construct_new hname T num try2find buffer true hmade
        rw [hresult]
        exact hinv.frame hmade
      | false =>
        have hrep : Representable cfg T num name.chars.length := hsizes
        have hmade := made_of_fresh hrep.toFits (hfresh buffer rfl)
        have hresult : result = _ := hinv.construct_new hname T num try2find buffer false hmade
        rw [hresult]
        exact hinv.insert hname hmade hrep.namelen_lt

/-- Destroying by name. -/
theorem Inv.destroy_eq (hinv : Inv s) (T : CType) (name : Name cfg) :
    priv_generic_named_destroy cfg s.1 T name.chars = match s.2 name with
      | none => (s.1, false)
      | some obj => (priv_generic_named_destroy_impl cfg s.1 T (obj.index_value cfg name), true) := by
  unfold priv_generic_named_destroy
  rw [hinv.index_find_eq name]
  cases s.2 name <;> rfl

/-- Destroying through the pointer of an object is destroying by its name. -/
theorem Inv.destroy_ptr_eq (hinv : Inv s) {name : Name cfg} {obj : Object}
    (hname : s.2 name = some obj) (T : CType) :
    priv_destroy_ptr cfg s.1 T obj.pointer =
      priv_generic_named_destroy_impl cfg s.1 T (obj.index_value cfg name) := by
  have hstored := hinv.stored hname
  have hheader : block_header.block_header_from_value obj.pointer = obj.header cfg := by
    rw [hstored.pointer_eq]
    exact Nat.add_sub_cancel _ _
  have hnamed : obj.info.m_alloc_type = instance_type.named_type.toNat := rfl
  unfold priv_destroy_ptr
  simp only [hheader, hstored.read_eq, hnamed, if_true]
  unfold priv_generic_named_destroy_header
  split_ifs with hnode
  · have hfind : s.1.index.find? (fun it => it.block_header = obj.header cfg) =
        some (obj.index_value cfg name) := by
      cases hfind : s.1.index.find? (fun it => it.block_header = obj.header cfg) with
      | none =>
        have hnot := List.find?_eq_none.mp hfind _ ((hinv.index_mem _).mpr ⟨name, obj, hname, rfl⟩)
        exact absurd (decide_eq_true (obj.index_value_block_header cfg name)) hnot
      | some v =>
        obtain ⟨name', obj', hname', rfl⟩ := (hinv.index_mem v).mp (List.mem_of_find?_eq_some hfind)
        have hsame : (obj'.index_value cfg name').block_header = obj.header cfg := by
          simpa only [decide_eq_true_eq] using List.find?_some hfind
        rw [Object.index_value_block_header] at hsame
        have hnames := hinv.name_eq_of_header hname' hname hsame
        subst hnames
        rw [hname] at hname'
        cases hname'
        rfl
    rw [hfind]
  · have hend := hstored.block_end
    have hinside := hinv.inside hname
    have hchars := hstored.chars_eq
    have hsizeof := cfg.CharT.sizeof_pos
    have hfront := congrArg (List.take name.chars.length) hchars
    rw [loadList_take _ _ _ (Nat.le_succ _), List.take_left' rfl] at hfront
    have hterminator : s.1.mem.load (obj.header cfg + obj.info.name_offset cfg.CharT.alignment +
        name.chars.length * cfg.CharT.sizeof) cfg.CharT.sizeof = 0 := by
      have hlast := congrArg (fun cells => cells[name.chars.length]?) hchars
      simp only [loadList_getElem? _ _ _ (Nat.lt_succ_self _), List.getElem?_concat_length,
        Option.some.injEq] at hlast
      exact hlast
    have hlength : cfg.CharT.length s.1.mem (obj.header cfg + obj.info.name_offset cfg.CharT.alignment)
        s.1.size = name.chars.length := by
      refine cfg.CharT.length_eq s.1.mem name.chars hfront (fun c hc => (name.valid c hc).1)
        hterminator ?_
      have hmul := Nat.le_mul_of_pos_right (name.chars.length + 1) hsizeof
      omega
    simp only [block_header.name, hstored.read_eq, hlength, hfront]
    rw [hinv.destroy_eq T name, hname]

/-- Every call and every foreign write keeps the invariant. -/
theorem Inv.step {s' : Segment × Store cfg} (hinv : Inv s) {label : Label cfg}
    (hpromised : Promised s label) (hsized : Sized s label) (hstep : step cfg s label = some s') :
    Inv s' := by
  unfold segment_manager.step at hstep
  cases hstep
  cases label with
  | construct T num name allocated throws => exact hinv.construct_call false allocated throws hsized hpromised
  | find_or_construct T num name allocated throws => exact hinv.construct_call true allocated throws hsized hpromised
  | find T name => exact hinv
  | destroy T name =>
    simp only [call, Store.after, hinv.destroy_eq T name]
    cases hname : s.2 name with
    | none =>
      rw [Function.update_eq_self_iff.mpr hname.symm]
      exact hinv
    | some obj =>
      have hT : obj.T = T := hpromised obj hname
      subst hT
      exact hinv.destroy_impl hname
  | destroy_ptr T ptr =>
    obtain ⟨name, obj, hname, rfl, rfl⟩ := hpromised
    have hafter : s.2.after none (.destroy_ptr obj.T obj.pointer) = Function.update s.2 name none := by
      funext name'
      simp only [Store.after]
      by_cases hsame : name' = name
      · rw [hsame, Function.update_self, hname]
        simp
      · rw [Function.update_of_ne hsame]
        cases hname' : s.2 name' with
        | none => rfl
        | some obj' =>
          refine Option.filter_eq_some_iff.mpr ⟨rfl, decide_eq_true ?_⟩
          intro hpointer
          rw [(hinv.stored hname').pointer_eq, (hinv.stored hname).pointer_eq] at hpointer
          exact hsame (hinv.name_eq_of_header hname' hname (Nat.add_right_cancel hpointer))
    simp only [call]
    rw [hafter, hinv.destroy_ptr_eq hname]
    exact hinv.destroy_impl hname
  | write mem => exact hinv.write hpromised

theorem inv_start (cfg : Config) (mem : Memory) (size : Nat) : Inv (start cfg mem size) := by
  refine ⟨?_, ?_, ?_, List.nodup_nil, ?_, ?_, ?_⟩
  · intro name obj h
    cases h
  · intro name obj h
    cases h
  · intro v
    constructor
    · intro h
      cases h
    · rintro ⟨name, obj, h, _⟩
      cases h
  · intro b
    constructor
    · intro h
      cases h
    · rintro ⟨name, obj, h, _⟩
      cases h
  · intro name obj h
    cases h
  · intro name obj name' obj' h
    cases h

/-- `char`, ordered by `unsigned char`. -/
def char : CharTraits where
  sizeof := 1
  alignment := 1
  sizeof_pos := Nat.one_pos
  alignment_pos := Nat.one_pos
  lt := fun c d => decide (c < d)
  lt_irrefl := fun c => decide_eq_false (Nat.lt_irrefl c)
  lt_connected := fun _ _ hcd hdc =>
    Nat.le_antisymm (Nat.not_lt.mp (of_decide_eq_false hdc)) (Nat.not_lt.mp (of_decide_eq_false hcd))

/-- The default index with its hook of three offset pointers. -/
def iset_config : Config where
  index_type := .iset_index
  index_data_t := ⟨24, 8, by decide, by decide⟩
  CharT := char

def int : CType :=
  ⟨4, 4, by decide, by decide⟩

/-- The name of `n` letters `a`. -/
def repeated_name (n : Nat) : Name iset_config where
  chars := List.replicate n 97
  valid := by
    intro c hc
    rw [List.eq_of_mem_replicate hc]
    decide

end interprocess.segment_manager
