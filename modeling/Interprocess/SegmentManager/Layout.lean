import Interprocess.SegmentManager.Store

namespace interprocess.segment_manager

open ipcdetail Memory

theorem header_in_buffer_add (cfg : Config) (T : CType) (buffer : Nat) :
    header_in_buffer cfg T buffer = buffer + header_in_buffer cfg T 0 := by
  unfold header_in_buffer block_header.from_first_header
  split_ifs <;> omega

theorem buffer_of_header_in_buffer (cfg : Config) (T : CType) (buffer : Nat) :
    buffer_of_header cfg T (header_in_buffer cfg T buffer) = buffer := by
  unfold buffer_of_header header_in_buffer block_header.from_first_header
    block_header.to_first_header
  split_ifs <;> omega

theorem Object.header_eq (cfg : Config) (obj : Object) :
    obj.header cfg = obj.block.1 + header_in_buffer cfg obj.T 0 :=
  header_in_buffer_add cfg obj.T obj.block.1

theorem read_congr {mem mem' : Memory} {hdr : Nat}
    (hsame : SameOn mem' mem hdr (hdr + sizeof_block_header)) :
    block_header.read mem' hdr = block_header.read mem hdr := by
  have hload : mem'.load hdr 8 = mem.load hdr 8 := load_congr hsame
  rw [block_header.read, block_header.read, hload]

/-- The part of a block in front of its header. -/
theorem total_size_eq (cfg : Config) (T : CType) (b : block_header) (namelen : Nat) :
    total_size cfg T b namelen = (header_in_buffer cfg T 0 + b.name_offset cfg.CharT.alignment +
      (namelen + 1) * cfg.CharT.sizeof) % 2 ^ 64 := by
  unfold total_size header_in_buffer block_header.total_named_size
    block_header.total_named_size_with_header block_header.from_first_header
  split_ifs
  · have hfront : sg_offsets_with_header.both_headers cfg.index_data_t ≤
        sg_offsets_with_header.total_prefix T.alignment cfg.index_data_t :=
      le_ct_rounded_size T.alignment_pos
    unfold sg_offsets_with_header.block_header_prefix sg_offsets_with_header.front_space
    unfold sg_offsets_with_header.both_headers at hfront ⊢
    congr 1
    omega
  · unfold sg_offsets_without_header.front_space
    congr 1
    omega

/-- The places in a block that fits, in their order. -/
structure Geometry (cfg : Config) (T : CType) (num namelen : Nat) (b : block_header) : Prop where
  value_bytes : b.m_value_bytes = T.sizeof * num
  name_length_ge : sizeof_block_header + T.sizeof * num ≤ b.name_length_offset
  name_ge : b.name_length_offset + 2 ≤ b.name_offset cfg.CharT.alignment
  total : total_size cfg T b namelen = header_in_buffer cfg T 0 +
    b.name_offset cfg.CharT.alignment + (namelen + 1) * cfg.CharT.sizeof

theorem geometry {cfg : Config} {T : CType} {num namelen : Nat} (hvalue : T.sizeof * num < 2 ^ 62)
    (hsize : header_in_buffer cfg T 0 + sizeof_block_header + T.sizeof * num + 3 +
      cfg.CharT.alignment + (namelen + 1) * cfg.CharT.sizeof < 2 ^ 64) :
    Geometry cfg T num namelen (block_header.construct (T.sizeof * num % 2 ^ 64) .named_type) := by
  have hbytes : (block_header.construct (T.sizeof * num % 2 ^ 64) .named_type).m_value_bytes =
      T.sizeof * num := by
    simp only [block_header.construct]
    omega
  generalize block_header.construct (T.sizeof * num % 2 ^ 64) .named_type = b at hbytes ⊢
  have hlength : sizeof_block_header + T.sizeof * num ≤ b.name_length_offset ∧
      b.name_length_offset ≤ sizeof_block_header + T.sizeof * num + 1 := by
    unfold block_header.name_length_offset block_header.value_offset block_header.sizeof_name_len_t
    rw [hbytes]
    cases Nat.eq_zero_or_pos (T.sizeof * num) with
    | inl hzero =>
      rw [hzero]
      have hround : get_rounded_size 0 2 = 0 := by decide
      omega
    | inr hpos =>
      have hround := get_rounded_size_bounds _ Nat.two_pos hpos (by omega)
      omega
  have halign := cfg.CharT.alignment_pos
  unfold sizeof_block_header at hlength hsize
  have hname := get_rounded_size_bounds (b.name_length_offset + 2) halign (by omega)
    (by omega)
  change b.name_length_offset + 2 ≤ b.name_offset cfg.CharT.alignment ∧
    b.name_offset cfg.CharT.alignment < b.name_length_offset + 2 + cfg.CharT.alignment at hname
  refine ⟨hbytes, hlength.1, hname.1, ?_⟩
  rw [total_size_eq, Nat.mod_eq_of_lt]
  omega

/-- An object as its block holds it. -/
structure Stored (cfg : Config) (mem : Memory) (name : Name cfg) (obj : Object) : Prop where
  pointer_eq : obj.pointer = block_header.value (obj.header cfg)
  geometry : Geometry cfg obj.T obj.num name.chars.length obj.info
  block_size : obj.block.2 = total_size cfg obj.T obj.info name.chars.length
  read_eq : block_header.read mem (obj.header cfg) = obj.info
  length_eq : mem.load (obj.header cfg + obj.info.name_length_offset) 2 = name.chars.length % 2 ^ 16
  chars_eq : mem.loadList (obj.header cfg + obj.info.name_offset cfg.CharT.alignment)
    cfg.CharT.sizeof (name.chars.length + 1) = name.chars ++ [0]

theorem Stored.block_end {cfg : Config} {mem : Memory} {name : Name cfg} {obj : Object}
    (h : Stored cfg mem name obj) : obj.block.1 + obj.block.2 = obj.header cfg +
      obj.info.name_offset cfg.CharT.alignment + (name.chars.length + 1) * cfg.CharT.sizeof := by
  rw [h.block_size, h.geometry.total, Object.header_eq]
  omega

/-- Only the header and what follows the value matter. -/
theorem Stored.congr {cfg : Config} {mem mem' : Memory} {name : Name cfg} {obj : Object}
    (h : Stored cfg mem name obj)
    (hheader : SameOn mem' mem (obj.header cfg) (obj.header cfg + sizeof_block_header))
    (hname : SameOn mem' mem (obj.header cfg + obj.info.name_length_offset)
      (obj.block.1 + obj.block.2)) : Stored cfg mem' name obj := by
  have hend := h.block_end
  have hge := h.geometry.name_ge
  refine ⟨h.pointer_eq, h.geometry, h.block_size, ?_, ?_, ?_⟩
  · rw [← h.read_eq]
    exact read_congr hheader
  · rw [← h.length_eq]
    exact load_congr (hname.mono (Nat.le_refl _) (by omega))
  · rw [← h.chars_eq]
    exact loadList_congr (hname.mono (by omega) (by omega))

/-- A block is not touched by writes outside it. -/
theorem Stored.frame {cfg : Config} {mem mem' : Memory} {name : Name cfg} {obj : Object}
    (h : Stored cfg mem name obj)
    (hsame : SameOn mem' mem obj.block.1 (obj.block.1 + obj.block.2)) : Stored cfg mem' name obj := by
  have hend := h.block_end
  have hge := h.geometry.name_ge
  have hvalue := h.geometry.name_length_ge
  have hheader := obj.header_eq cfg
  exact h.congr (hsame.mono (by omega) (by omega)) (hsame.mono (by omega) (Nat.le_refl _))

theorem read_place (m : Memory) (hdr : Nat) (val_bytes : Nat) (al_type : instance_type) :
    block_header.read (block_header.place m hdr (block_header.construct val_bytes al_type)) hdr =
      block_header.construct val_bytes al_type := by
  unfold block_header.read block_header.place block_header.encode block_header.construct
  rw [load_store]
  simp only [block_header.mk.injEq]
  have hsmall := Nat.mod_lt val_bytes (Nat.two_pow_pos 62)
  omega

/-- What a construction writes is read back, and it writes nothing between the
    header and the length of the name. -/
theorem write_block_reads {cfg : Config} (mem : Memory) (hdr val_bytes : Nat) (al_type : instance_type)
    (name : Name cfg) {b : block_header} (hb : b = block_header.construct val_bytes al_type)
    (hvalue : sizeof_block_header ≤ b.name_length_offset)
    (hname : b.name_length_offset + 2 ≤ b.name_offset cfg.CharT.alignment) :
    block_header.read (write_block cfg mem hdr b name.chars) hdr = b ∧
    (write_block cfg mem hdr b name.chars).load (hdr + b.name_length_offset) 2 =
      name.chars.length % 2 ^ 16 ∧
    (write_block cfg mem hdr b name.chars).loadList (hdr + b.name_offset cfg.CharT.alignment)
      cfg.CharT.sizeof (name.chars.length + 1) = name.chars ++ [0] ∧
    ∀ lo hi, hi ≤ hdr ∨ hdr + b.name_offset cfg.CharT.alignment +
        (name.chars.length + 1) * cfg.CharT.sizeof ≤ lo →
      SameOn (write_block cfg mem hdr b name.chars) mem lo hi := by
  unfold sizeof_block_header at hvalue
  generalize hm1 : block_header.place mem hdr b = m1
  generalize hm2 : block_header.store_name_length m1 hdr name.chars.length = m2
  have hread1 : block_header.read m1 hdr = b := by
    rw [← hm1, hb]
    exact read_place _ _ _ _
  have hstore2 : m2 = m1.store (hdr + b.name_length_offset) 2 (name.chars.length % 2 ^ 16) := by
    rw [← hm2, block_header.store_name_length, hread1]
    rfl
  have hread2 : block_header.read m2 hdr = b := by
    rw [← hread1, hstore2]
    exact read_congr (store_sameOn m1 _ (Or.inl (by unfold sizeof_block_header; omega)))
  have hwrite : write_block cfg mem hdr b name.chars =
      m2.storeList (hdr + b.name_offset cfg.CharT.alignment) cfg.CharT.sizeof (name.chars ++ [0]) := by
    unfold write_block
    simp only [hm1, hm2, block_header.name, hread2]
  have hlist : (name.chars ++ [0]).length = name.chars.length + 1 := by simp
  have hsame2 : ∀ lo hi, hi ≤ hdr + b.name_offset cfg.CharT.alignment ∨
      hdr + b.name_offset cfg.CharT.alignment + (name.chars.length + 1) * cfg.CharT.sizeof ≤ lo →
      SameOn (write_block cfg mem hdr b name.chars) m2 lo hi := by
    intro lo hi h
    rw [hwrite]
    exact storeList_sameOn m2 (name.chars ++ [0]) (by rw [hlist]; omega)
  refine ⟨?_, ?_, ?_, ?_⟩
  · exact (read_congr (hsame2 _ _ (Or.inl (by unfold sizeof_block_header; omega)))).trans hread2
  · rw [load_congr (hsame2 _ _ (Or.inl (by omega))), hstore2, load_store]
    have hsmall := Nat.mod_lt name.chars.length (Nat.two_pow_pos 16)
    omega
  · rw [hwrite, ← hlist]
    refine loadList_storeList m2 _ _ _ ?_
    intro c hc
    rw [List.mem_append, List.mem_singleton] at hc
    cases hc with
    | inl hc => exact (name.valid c hc).2
    | inr hc =>
      rw [hc]
      exact Nat.pow_pos (by decide)
  · intro lo hi h
    refine (hsame2 lo hi (by omega)).trans ?_
    rw [hstore2, ← hm1]
    refine (store_sameOn _ _ (by omega)).trans ?_
    exact store_sameOn _ _ (by omega)

/-- The writes of a construction make the object, and change nothing outside the
    control part of its block. -/
theorem write_block_spec {cfg : Config} (mem : Memory) (name : Name cfg) (obj : Object)
    (hpointer : obj.pointer = block_header.value (obj.header cfg))
    (hgeometry : Geometry cfg obj.T obj.num name.chars.length obj.info)
    (hsize : obj.block.2 = total_size cfg obj.T obj.info name.chars.length) :
    Stored cfg (write_block cfg mem (obj.header cfg) obj.info name.chars) name obj ∧
      ∀ lo hi, hi ≤ obj.block.1 ∨ obj.block.1 + obj.block.2 ≤ lo →
        SameOn (write_block cfg mem (obj.header cfg) obj.info name.chars) mem lo hi := by
  have hheader := obj.header_eq cfg
  have hend : obj.block.1 + obj.block.2 = obj.header cfg +
      obj.info.name_offset cfg.CharT.alignment + (name.chars.length + 1) * cfg.CharT.sizeof := by
    rw [hsize, hgeometry.total, hheader]
    omega
  have hvalue := hgeometry.name_length_ge
  obtain ⟨hread, hlength, hchars, hsame⟩ := write_block_reads mem (obj.header cfg) _ _ name
    (b := obj.info) rfl (by omega) hgeometry.name_ge
  refine ⟨⟨hpointer, hgeometry, hsize, hread, hlength, hchars⟩, ?_⟩
  intro lo hi h
  exact hsame lo hi (by omega)

end interprocess.segment_manager
