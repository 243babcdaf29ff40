import Interprocess.SegmentManager.Refinement

namespace interprocess.segment_manager

open ipcdetail Memory

/-- A part of a block: where it starts, its size and the alignment it needs. -/
structure Area where
  start : Nat
  size : Nat
  alignment : Nat

/-- The areas follow each other between two addresses. -/
def InOrder : Nat → List Area → Nat → Prop
  | first, [], last => first ≤ last
  | first, area :: areas, last => first ≤ area.start ∧ InOrder (area.start + area.size) areas last

def Aligned (areas : List Area) : Prop :=
  ∀ area ∈ areas, area.alignment ∣ area.start

/-- Where the index header stands in a new buffer. -/
def index_data_in_buffer (cfg : Config) (T : CType) (buffer : Nat) : Nat :=
  buffer + sg_offsets_with_header.front_space T.alignment cfg.index_data_t

def header_area (hdr : Nat) : Area :=
  ⟨hdr, sizeof_block_header, sizeof_block_header⟩

def value_area (T : CType) (b : block_header) (hdr : Nat) : Area :=
  ⟨block_header.value hdr, b.m_value_bytes, T.alignment⟩

/-- The parts of the block of a named or unique object. -/
def named_areas (cfg : Config) (T : CType) (b : block_header) (buffer namelen : Nat) : List Area :=
  let hdr := header_in_buffer cfg T buffer
  (if cfg.has_header then
      [⟨index_data_in_buffer cfg T buffer, cfg.index_data_t.sizeof, cfg.index_data_t.alignment⟩] else []) ++
    [header_area hdr, value_area T b hdr,
      ⟨hdr + b.name_length_offset, block_header.sizeof_name_len_t, block_header.sizeof_name_len_t⟩,
      ⟨hdr + b.name_offset cfg.CharT.alignment, (namelen + 1) * cfg.CharT.sizeof, cfg.CharT.alignment⟩]

/-- Where the block header of an anonymous object stands in a new buffer. -/
def anonymous_header_in_buffer (T : CType) (buffer : Nat) : Nat :=
  buffer + sg_offsets_without_header.front_space T.alignment

/-- The address that `priv_anonymous_destroy` gives back. -/
def buffer_of_anonymous (T : CType) (value : Nat) : Nat :=
  block_header.block_header_from_value value - sg_offsets_without_header.front_space T.alignment

/-- The layout of an anonymous block. -/
structure AnonymousLayout (T : CType) (val_bytes buffer : Nat) : Prop where
  in_order : InOrder buffer
    [header_area (anonymous_header_in_buffer T buffer),
      value_area T (block_header.construct val_bytes .anonymous_type) (anonymous_header_in_buffer T buffer)]
    (buffer + (block_header.construct val_bytes .anonymous_type).total_anonymous_size T)
  aligned : Aligned
    [header_area (anonymous_header_in_buffer T buffer),
      value_area T (block_header.construct val_bytes .anonymous_type) (anonymous_header_in_buffer T buffer)]
  value_bytes : (block_header.construct val_bytes .anonymous_type).m_value_bytes = val_bytes
  header_from_value : block_header.block_header_from_value
    (block_header.value (anonymous_header_in_buffer T buffer)) = anonymous_header_in_buffer T buffer
  base : buffer_of_anonymous T (block_header.value (anonymous_header_in_buffer T buffer)) = buffer

/-- The layout of a named block, what is read from it and the address that its
    destruction gives back. -/
structure NamedLayout (cfg : Config) (mem : Memory) (T : CType) (val_bytes : Nat) (al_type : instance_type)
    (name : Name cfg) (buffer : Nat) : Prop where
  in_order : InOrder buffer
    (named_areas cfg T (block_header.construct val_bytes al_type) buffer name.chars.length)
    (buffer + total_size cfg T (block_header.construct val_bytes al_type) name.chars.length)
  aligned : Aligned
    (named_areas cfg T (block_header.construct val_bytes al_type) buffer name.chars.length)
  value_bytes : (block_header.construct val_bytes al_type).m_value_bytes = val_bytes
  header_from_value : block_header.block_header_from_value
    (block_header.value (header_in_buffer cfg T buffer)) = header_in_buffer cfg T buffer
  from_first_header : cfg.has_header = true →
    block_header.from_first_header cfg.index_data_t (index_data_in_buffer cfg T buffer) =
      header_in_buffer cfg T buffer
  to_first_header : cfg.has_header = true →
    block_header.to_first_header cfg.index_data_t (header_in_buffer cfg T buffer) =
      index_data_in_buffer cfg T buffer
  name_length : block_header.name_length (write_block cfg mem (header_in_buffer cfg T buffer)
    (block_header.construct val_bytes al_type) name.chars) (header_in_buffer cfg T buffer) =
      name.chars.length
  name : (write_block cfg mem (header_in_buffer cfg T buffer)
    (block_header.construct val_bytes al_type) name.chars).loadList
      (block_header.name (write_block cfg mem (header_in_buffer cfg T buffer)
        (block_header.construct val_bytes al_type) name.chars) (header_in_buffer cfg T buffer)
        cfg.CharT.toCType) cfg.CharT.sizeof (name.chars.length + 1) = name.chars ++ [0]
  base : buffer_of_header cfg T (header_in_buffer cfg T buffer) = buffer

/-- The bounds of the two rounded offsets of a value below `2 ^ 62` bytes. -/
theorem name_offsets_bounds {b : block_header} {CharAlign : Nat} (hvalue : b.m_value_bytes < 2 ^ 62)
    (halign : 0 < CharAlign) (hchar : CharAlign ≤ 2 ^ 63) :
    sizeof_block_header + b.m_value_bytes ≤ b.name_length_offset ∧
      b.name_length_offset ≤ sizeof_block_header + b.m_value_bytes + 1 ∧
      b.name_length_offset + 2 ≤ b.name_offset CharAlign ∧
      b.name_offset CharAlign < b.name_length_offset + 2 + CharAlign := by
  have hlength : sizeof_block_header + b.m_value_bytes ≤ b.name_length_offset ∧
      b.name_length_offset ≤ sizeof_block_header + b.m_value_bytes + 1 := by
    unfold block_header.name_length_offset block_header.value_offset block_header.sizeof_name_len_t
    cases Nat.eq_zero_or_pos b.m_value_bytes with
    | inl hzero =>
      rw [hzero]
      have hround : get_rounded_size 0 2 = 0 := by decide
      omega
    | inr hpos =>
      have hround := get_rounded_size_bounds _ Nat.two_pos hpos (by omega)
      omega
  have hname := get_rounded_size_bounds (b.name_length_offset + 2) halign (by omega)
    (by unfold sizeof_block_header at hlength; omega)
  exact ⟨hlength.1, hlength.2, hname⟩

theorem dvd_get_rounded_size {k : Nat} (hk : k ≤ 64) (orig_size : Nat) :
    2 ^ k ∣ get_rounded_size orig_size (2 ^ k) :=
  dvd_mod_two_pow hk rfl (Nat.dvd_mul_left _ _)

/-- The header of an anonymous block is aligned and its value starts at a multiple
    of the alignment of the type. -/
theorem without_header_prefix {k : Nat} :
    sizeof_block_header ∣ sg_offsets_without_header.front_space (2 ^ k) ∧
      2 ^ k ∣ sg_offsets_without_header.front_space (2 ^ k) + sizeof_block_header := by
  have hle : sizeof_block_header ≤ ct_rounded_size sizeof_block_header (2 ^ k) :=
    le_ct_rounded_size (Nat.two_pow_pos k)
  have hdvd := dvd_ct_rounded_size sizeof_block_header (2 ^ k)
  unfold sg_offsets_without_header.front_space sg_offsets_without_header.block_header_prefix
  refine ⟨?_, by rwa [Nat.sub_add_cancel hle]⟩
  refine Nat.dvd_sub ?_ (Nat.dvd_refl _)
  by_cases hk : k ≤ 3
  · -- an alignment that divides the header does not move it
    have hround : ct_rounded_size sizeof_block_header (2 ^ k) = sizeof_block_header := by
      have hsmall : k = 0 ∨ k = 1 ∨ k = 2 ∨ k = 3 := by omega
      obtain rfl | rfl | rfl | rfl := hsmall <;> rfl
    rw [hround]
  · exact Nat.dvd_trans (show 2 ^ 3 ∣ 2 ^ k from Nat.pow_dvd_pow 2 (by omega)) hdvd

/-- The prefix of a named block, from the static assertions where there is an
    index header. -/
theorem header_prefix {cfg : Config} {T : CType} {k : Nat} (hT : T.alignment = 2 ^ k)
    (hasserts : cfg.has_header = true → sg_offsets_with_header.StaticAsserts T.alignment cfg.index_data_t) :
    sizeof_block_header ∣ header_in_buffer cfg T 0 ∧
      T.alignment ∣ header_in_buffer cfg T 0 + sizeof_block_header := by
  unfold header_in_buffer
  split_ifs with hheader
  · have h := hasserts hheader
    have hbefore := h.total_prefix_eq
    have hbetween : cfg.index_data_t.sizeof ≤ sm_between_headers cfg.index_data_t := by
      have hle : sizeof_block_header ≤ ct_rounded_size sizeof_block_header cfg.index_data_t.alignment :=
        le_ct_rounded_size cfg.index_data_t.alignment_pos
      unfold sm_between_headers
      omega
    have hhdr : block_header.from_first_header cfg.index_data_t
        (0 + sg_offsets_with_header.front_space T.alignment cfg.index_data_t) =
        sg_offsets_with_header.block_header_prefix T.alignment cfg.index_data_t := by
      unfold block_header.from_first_header sg_offsets_with_header.block_header_prefix
      omega
    rw [hhdr]
    refine ⟨Nat.dvd_of_mod_eq_zero h.block_header_prefix_mod, ?_⟩
    have htotal : sg_offsets_with_header.block_header_prefix T.alignment cfg.index_data_t +
        sizeof_block_header = sg_offsets_with_header.total_prefix T.alignment cfg.index_data_t := by
      unfold sg_offsets_with_header.block_header_prefix
      omega
    rw [htotal]
    exact Nat.dvd_of_mod_eq_zero h.total_prefix_mod
  · rw [Nat.zero_add, hT]
    exact without_header_prefix

theorem anonymous_layout (T : CType) {val_bytes buffer k : Nat} (hk : k ≤ 63) (hT : T.alignment = 2 ^ k)
    (hvalue : val_bytes < 2 ^ 62) (hbuffer : sizeof_block_header ∣ buffer) (hbufferT : T.alignment ∣ buffer) :
    AnonymousLayout T val_bytes buffer := by
  have hbytes : (block_header.construct val_bytes .anonymous_type).m_value_bytes = val_bytes :=
    Nat.mod_eq_of_lt hvalue
  have hpow : 2 ^ k ≤ 2 ^ 63 := Nat.pow_le_pow_right Nat.two_pos hk
  have hbefore := without_header_prefix (k := k)
  rw [← hT] at hbefore hpow
  have hfront : sg_offsets_without_header.front_space T.alignment < T.alignment + sizeof_block_header := by
    have hbounds := next_multiple_bounds (n := sizeof_block_header - 1) T.alignment_pos
    unfold sg_offsets_without_header.front_space sg_offsets_without_header.block_header_prefix
      ct_rounded_size
    generalize ((sizeof_block_header - 1) / T.alignment + 1) * T.alignment = rounded at hbounds ⊢
    unfold sizeof_block_header at hbounds ⊢
    omega
  have hhdr : anonymous_header_in_buffer T buffer =
      buffer + sg_offsets_without_header.front_space T.alignment := rfl
  refine ⟨⟨Nat.le_add_right _ _, ?_, ?_⟩, ?_, hbytes, Nat.add_sub_cancel _ _, ?_⟩
  · exact Nat.le_refl _
  · have htotal : (block_header.construct val_bytes .anonymous_type).total_anonymous_size T =
        sg_offsets_without_header.front_space T.alignment + sizeof_block_header + val_bytes := by
      unfold block_header.total_anonymous_size
      rw [hbytes]
      refine Nat.mod_eq_of_lt ?_
      unfold sizeof_block_header at hfront
      show sg_offsets_without_header.front_space T.alignment + 8 + val_bytes < 2 ^ 64
      omega
    rw [htotal]
    simp only [InOrder, value_area, block_header.value, block_header.value_offset, hbytes]
    omega
  · intro area harea
    simp only [List.mem_cons, List.not_mem_nil, or_false] at harea
    obtain rfl | rfl := harea
    · exact Nat.dvd_add hbuffer hbefore.1
    · show T.alignment ∣ buffer + sg_offsets_without_header.front_space T.alignment + sizeof_block_header
      rw [Nat.add_assoc]
      exact Nat.dvd_add hbufferT hbefore.2
  · unfold buffer_of_anonymous block_header.block_header_from_value block_header.value
    omega

/-- The bytes of a named block without the cut to `size_type`. -/
def named_bytes (cfg : Config) (T : CType) (b : block_header) (namelen : Nat) : Nat :=
  header_in_buffer cfg T 0 + b.name_offset cfg.CharT.alignment + (namelen + 1) * cfg.CharT.sizeof

theorem index_data_le_header (cfg : Config) (T : CType) (buffer : Nat) (hheader : cfg.has_header = true) :
    header_in_buffer cfg T buffer =
        index_data_in_buffer cfg T buffer + sm_between_headers cfg.index_data_t ∧
      cfg.index_data_t.sizeof ≤ sm_between_headers cfg.index_data_t := by
  have hle : sizeof_block_header ≤ ct_rounded_size sizeof_block_header cfg.index_data_t.alignment :=
    le_ct_rounded_size cfg.index_data_t.alignment_pos
  constructor
  · unfold header_in_buffer
    rw [if_pos hheader]
    rfl
  · unfold sm_between_headers
    omega

/-- The parts of a named block follow each other up to its unreduced size. -/
theorem named_in_order (cfg : Config) (T : CType) {b : block_header} (buffer namelen : Nat)
    (hvalue : b.m_value_bytes < 2 ^ 62) (hchar : cfg.CharT.alignment ≤ 2 ^ 63) (last : Nat) :
    InOrder buffer (named_areas cfg T b buffer namelen) last ↔
      buffer + named_bytes cfg T b namelen ≤ last := by
  obtain ⟨hlength, -, hname, -⟩ := name_offsets_bounds hvalue cfg.CharT.alignment_pos hchar
  have hhdr := header_in_buffer_add cfg T buffer
  have hrest : InOrder (header_in_buffer cfg T buffer)
      [header_area (header_in_buffer cfg T buffer), value_area T b (header_in_buffer cfg T buffer),
        ⟨header_in_buffer cfg T buffer + b.name_length_offset, block_header.sizeof_name_len_t,
          block_header.sizeof_name_len_t⟩,
        ⟨header_in_buffer cfg T buffer + b.name_offset cfg.CharT.alignment,
          (namelen + 1) * cfg.CharT.sizeof, cfg.CharT.alignment⟩] last ↔
      buffer + named_bytes cfg T b namelen ≤ last := by
    simp only [InOrder, header_area, value_area, block_header.value, block_header.value_offset,
      block_header.sizeof_name_len_t, named_bytes]
    constructor
    · rintro ⟨-, -, -, -, hlast⟩
      omega
    · intro hlast
      exact ⟨Nat.le_refl _, Nat.le_refl _, by omega, by omega, by omega⟩
  unfold named_areas
  split_ifs with hheader
  · obtain ⟨hfirst, hle⟩ := index_data_le_header cfg T buffer hheader
    rw [← hrest]
    constructor
    · rintro ⟨-, -, hrest⟩
      exact ⟨Nat.le_refl _, hrest⟩
    · rintro ⟨-, hrest⟩
      exact ⟨Nat.le_add_right _ _, by simp only [header_area]; omega, hrest⟩
  · rw [← hrest]
    constructor
    · rintro ⟨-, hrest⟩
      exact ⟨Nat.le_refl _, hrest⟩
    · rintro ⟨-, hrest⟩
      exact ⟨by simp only [header_area]; omega, hrest⟩

/-- The parts of a named block that may be misaligned: the index header, whose
    alignment the memory algorithm is not told, and the name. -/
theorem named_aligned {cfg : Config} {T : CType} (b : block_header) (namelen : Nat) {buffer k l : Nat}
    (hT : T.alignment = 2 ^ k) (hl : l ≤ 63) (hchar : cfg.CharT.alignment = 2 ^ l)
    (hasserts : cfg.has_header = true → sg_offsets_with_header.StaticAsserts T.alignment cfg.index_data_t)
    (hbuffer : sizeof_block_header ∣ buffer) (hbufferT : T.alignment ∣ buffer) :
    Aligned (named_areas cfg T b buffer namelen) ↔
      (cfg.has_header = true → cfg.index_data_t.alignment ∣ buffer) ∧
        cfg.CharT.alignment ∣ header_in_buffer cfg T buffer := by
  obtain ⟨hbefore, hbeforeT⟩ := header_prefix hT hasserts
  have hhdr := header_in_buffer_add cfg T buffer
  have hhdr8 : sizeof_block_header ∣ header_in_buffer cfg T buffer := by
    rw [hhdr]
    exact Nat.dvd_add hbuffer hbefore
  have hvalue : T.alignment ∣ block_header.value (header_in_buffer cfg T buffer) := by
    show T.alignment ∣ header_in_buffer cfg T buffer + sizeof_block_header
    rw [hhdr, Nat.add_assoc]
    exact Nat.dvd_add hbufferT hbeforeT
  have hlength : block_header.sizeof_name_len_t ∣ header_in_buffer cfg T buffer + b.name_length_offset := by
    refine Nat.dvd_add (Nat.dvd_trans (by decide) hhdr8) (Nat.dvd_add (by decide) ?_)
    exact dvd_get_rounded_size (k := 1) (by decide) _
  have hname : cfg.CharT.alignment ∣ b.name_offset cfg.CharT.alignment := by
    unfold block_header.name_offset
    rw [hchar]
    exact dvd_get_rounded_size (by omega) _
  have hindex : cfg.has_header = true → (cfg.index_data_t.alignment ∣ index_data_in_buffer cfg T buffer ↔
      cfg.index_data_t.alignment ∣ buffer) := fun hheader =>
    (Nat.dvd_add_left (Nat.dvd_of_mod_eq_zero (hasserts hheader).front_space_mod))
  have hrest : (∀ area ∈ [header_area (header_in_buffer cfg T buffer),
        value_area T b (header_in_buffer cfg T buffer),
        ⟨header_in_buffer cfg T buffer + b.name_length_offset, block_header.sizeof_name_len_t,
          block_header.sizeof_name_len_t⟩,
        ⟨header_in_buffer cfg T buffer + b.name_offset cfg.CharT.alignment,
          (namelen + 1) * cfg.CharT.sizeof, cfg.CharT.alignment⟩], area.alignment ∣ area.start) ↔
      cfg.CharT.alignment ∣ header_in_buffer cfg T buffer := by
    simp only [List.forall_mem_cons, header_area, value_area]
    constructor
    · rintro ⟨-, -, -, hchars, -⟩
      exact (Nat.dvd_add_left hname).mp hchars
    · intro hchars
      exact ⟨hhdr8, hvalue, hlength, (Nat.dvd_add_left hname).mpr hchars, nofun⟩
  unfold Aligned named_areas
  split_ifs with hheader
  · rw [List.singleton_append, List.forall_mem_cons, hrest, hindex hheader]
    simp only [hheader, forall_const]
  · rw [List.nil_append, hrest]
    simp only [hheader, Bool.false_eq_true, false_imp_iff, true_and]

/-- The value, the headers and the name of every block lie in order and apart, each
    at its alignment and inside the bytes asked for, they are found again from each
    other, and the destruction gives back the address that the allocation returned:
    for anonymous objects always, and for named ones exactly when the alignments of
    the index header and of the characters happen to fit the buffer and the size
    does not wrap. -/
theorem block_layout (cfg : Config) (mem : Memory) (T : CType) (val_bytes : Nat) (al_type : instance_type)
    (name : Name cfg) (buffer k l : Nat) (hvalue : val_bytes < 2 ^ 62) (hk : k ≤ 63)
    (hT : T.alignment = 2 ^ k) (hl : l ≤ 63) (hchar : cfg.CharT.alignment = 2 ^ l)
    (hname : name.chars.length < 2 ^ 16) (htype : al_type ≠ .anonymous_type)
    (hasserts : cfg.has_header = true → sg_offsets_with_header.StaticAsserts T.alignment cfg.index_data_t)
    (hbuffer : sizeof_block_header ∣ buffer) (hbufferT : T.alignment ∣ buffer) :
    AnonymousLayout T val_bytes buffer ∧
      (NamedLayout cfg mem T val_bytes al_type name buffer ↔
        (cfg.has_header = true → cfg.index_data_t.alignment ∣ buffer) ∧
        cfg.CharT.alignment ∣ header_in_buffer cfg T buffer ∧
        named_bytes cfg T (block_header.construct val_bytes al_type) name.chars.length < 2 ^ 64) := by
  refine ⟨anonymous_layout T hk hT hvalue hbuffer hbufferT, ?_⟩
  have hbytes : (block_header.construct val_bytes al_type).m_value_bytes = val_bytes :=
    Nat.mod_eq_of_lt hvalue
  have hcharle : cfg.CharT.alignment ≤ 2 ^ 63 := by
    rw [hchar]
    exact Nat.pow_le_pow_right Nat.two_pos hl
  have horder := named_in_order cfg T (b := block_header.construct val_bytes al_type) buffer name.chars.length
    (by rw [hbytes]; exact hvalue) hcharle
  have haligned := named_aligned (block_header.construct val_bytes al_type) name.chars.length
    hT hl hchar hasserts hbuffer hbufferT
  have htotal : total_size cfg T (block_header.construct val_bytes al_type) name.chars.length =
      named_bytes cfg T (block_header.construct val_bytes al_type) name.chars.length % 2 ^ 64 :=
    total_size_eq cfg T _ _
  constructor
  · intro h
    obtain ⟨hindex, hchars⟩ := haligned.mp h.aligned
    refine ⟨hindex, hchars, ?_⟩
    have hin := (horder _).mp h.in_order
    rw [htotal] at hin
    omega
  · rintro ⟨hindex, hchars, hsize⟩
    obtain ⟨hlength_ge, -, hname_ge, -⟩ := name_offsets_bounds
      (b := block_header.construct val_bytes al_type) (by rw [hbytes]; exact hvalue)
      cfg.CharT.alignment_pos hcharle
    obtain ⟨hread, hlength, hread_chars, -⟩ := write_block_reads mem (header_in_buffer cfg T buffer) val_bytes
      al_type name rfl (by omega) hname_ge
    refine ⟨(horder _).mpr ?_, haligned.mpr ⟨hindex, hchars⟩, hbytes, Nat.add_sub_cancel _ _, ?_, ?_, ?_, ?_,
      buffer_of_header_in_buffer cfg T buffer⟩
    · rw [htotal, Nat.mod_eq_of_lt hsize]
    · intro hheader
      exact (index_data_le_header cfg T buffer hheader).1.symm
    · intro hheader
      rw [(index_data_le_header cfg T buffer hheader).1]
      exact Nat.add_sub_cancel _ _
    · unfold block_header.name_length
      rw [hread, if_neg]
      · exact hlength.trans (Nat.mod_eq_of_lt hname)
      · cases al_type with
        | anonymous_type => exact absurd rfl htype
        | named_type => exact Nat.one_ne_zero
        | unique_type => exact Nat.succ_ne_zero 1
    · unfold block_header.name
      rw [hread]
      exact hread_chars

/-- An integer with a name of three letters in a set index, in a buffer at
    address 64. -/
theorem block_layout_of_int :
    NamedLayout iset_config (fun _ => 0) int 4 .named_type (repeated_name 3) 64 := by
  refine (block_layout iset_config (fun _ => 0) int 4 .named_type (repeated_name 3) 64 2 0 (by decide)
    (by decide) rfl (by decide) rfl (by decide) (by decide) ?_ (by decide) (by decide)).2.mpr
    ⟨fun _ => by decide, by decide, by decide⟩
  intro _
  exact ⟨by decide, by decide, by decide, by decide, by decide⟩

/-- An intrusive index whose hook fills a cache line. -/
def cache_line_config : Config where
  index_type := .iset_index
  index_data_t := ⟨64, 64, by decide, by decide⟩
  CharT := char

/-- The static assertions accept a hook that is aligned to 64 bytes, but the buffer
    is asked for with the alignment of the integer: at address 16 the hook is
    misaligned. -/
theorem overaligned_index_header :
    sg_offsets_with_header.StaticAsserts int.alignment cache_line_config.index_data_t ∧
      ¬ NamedLayout cache_line_config (fun _ => 0) int 4 .named_type ⟨[97], by decide⟩ 16 := by
  refine ⟨⟨by decide, by decide, by decide, by decide, by decide⟩, ?_⟩
  intro h
  have haligned := h.aligned _ (List.mem_cons_self ..)
  revert haligned
  decide

end interprocess.segment_manager
