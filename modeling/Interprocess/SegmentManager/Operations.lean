import Interprocess.SegmentManager.Index

namespace interprocess.segment_manager

open ipcdetail

/-- The named part of a segment manager: the bytes of the segment, the blocks of
    named objects that the memory algorithm has given out, as address and size,
    and the index. -/
structure Segment where
  mem : Memory
  size : Nat
  blocks : List (Nat × Nat)
  index : List IndexValue

/-- A null-terminated string of the character type. -/
structure Name (cfg : Config) where
  chars : List Nat
  valid : ∀ c ∈ chars, 0 < c ∧ c < 256 ^ cfg.CharT.sizeof
  deriving DecidableEq

/-- A buffer given back to the memory algorithm. -/
def deallocate (s : Segment) (buffer : Nat) : Segment :=
  { s with blocks := s.blocks.filter fun block => block.1 ≠ buffer }

/-- The lookup of a key in the index. -/
def index_find (cfg : Config) (s : Segment) (key : List Nat) : Option IndexValue :=
  s.index.find? (equivalent cfg s.mem key)

/-- The address and the element count, or nothing. -/
def priv_generic_find (cfg : Config) (s : Segment) (T : CType) (name : List Nat) :
    Option (Nat × Nat) :=
  (index_find cfg s name).map fun it =>
    (block_header.value it.block_header,
      (block_header.read s.mem it.block_header).m_value_bytes / T.sizeof)

/-- The bytes to allocate for a named object. -/
def total_size (cfg : Config) (T : CType) (b : block_header) (namelen : Nat) : Nat :=
  if cfg.has_header then
    b.total_named_size_with_header T cfg.CharT.toCType cfg.index_data_t namelen
  else b.total_named_size T cfg.CharT.toCType namelen

/-- Where the block header stands in a new buffer. -/
def header_in_buffer (cfg : Config) (T : CType) (buffer : Nat) : Nat :=
  if cfg.has_header then
    block_header.from_first_header cfg.index_data_t
      (buffer + sg_offsets_with_header.front_space T.alignment cfg.index_data_t)
  else buffer + sg_offsets_without_header.front_space T.alignment

/-- The buffer that holds the block with its header at `hdr`. -/
def buffer_of_header (cfg : Config) (T : CType) (hdr : Nat) : Nat :=
  if cfg.has_header then
    block_header.to_first_header cfg.index_data_t hdr -
      sg_offsets_with_header.front_space T.alignment cfg.index_data_t
  else hdr - sg_offsets_without_header.front_space T.alignment

/-- The index element of a new block. -/
def new_index_value (cfg : Config) (m : Memory) (hdr namelen : Nat) : IndexValue :=
  if cfg.index_type.is_intrusive_index then .intrusive hdr
  else .pair (block_header.name m hdr cfg.CharT.toCType) namelen hdr

/-- The writes that make a named block: the header, the length of the name and
    the characters with their terminator. -/
def write_block (cfg : Config) (m : Memory) (hdr : Nat) (block_info : block_header)
    (name : List Nat) : Memory :=
  let m := block_header.place m hdr block_info
  let m := block_header.store_name_length m hdr name.length
  m.storeList (block_header.name m hdr cfg.CharT.toCType) cfg.CharT.sizeof (name ++ [0])

/-- `priv_generic_named_construct`. The memory algorithm answers with a buffer or
    with null, and the constructor of the object may throw, which erases the
    element and gives the buffer back. -/
def priv_generic_named_construct (cfg : Config) (s : Segment) (T : CType) (num : Nat)
    (name : List Nat) (try2find : Bool) (allocated : Option Nat) (throws : Bool) :
    Segment × Option Nat :=
  let block_info := block_header.construct (T.sizeof * num % 2 ^ 64) .named_type
  match index_find cfg s name with
  | some existing_it =>
    (s, if try2find then some (block_header.value existing_it.block_header) else none)
  | none =>
    match allocated with
    | none => (s, none)
    | some buffer_ptr =>
      let hdr := header_in_buffer cfg T buffer_ptr
      let mem := write_block cfg s.mem hdr block_info name
      let it := new_index_value cfg mem hdr name.length
      let s := { s with
        mem := mem
        blocks := (buffer_ptr, total_size cfg T block_info name.length) :: s.blocks
        index := it :: s.index }
      if throws then (deallocate { s with index := s.index.erase it } buffer_ptr, none)
      else (s, some (block_header.value hdr))

/-- `priv_generic_named_destroy_impl`. -/
def priv_generic_named_destroy_impl (cfg : Config) (s : Segment) (T : CType) (it : IndexValue) :
    Segment :=
  deallocate { s with index := s.index.erase it } (buffer_of_header cfg T it.block_header)

/-- `priv_generic_named_destroy` by name. -/
def priv_generic_named_destroy (cfg : Config) (s : Segment) (T : CType) (name : List Nat) :
    Segment × Bool :=
  match index_find cfg s name with
  | none => (s, false)
  | some it => (priv_generic_named_destroy_impl cfg s T it, true)

/-- `priv_generic_named_destroy` by block header. A node index finds its iterator
    in front of the block, the others look up the name read from the block. -/
def priv_generic_named_destroy_header (cfg : Config) (s : Segment) (T : CType) (hdr : Nat) :
    Segment :=
  if cfg.index_type.is_node_index then
    match s.index.find? fun it => it.block_header = hdr with
    | none => s
    | some it => priv_generic_named_destroy_impl cfg s T it
  else
    let name := block_header.name s.mem hdr cfg.CharT.toCType
    let length := cfg.CharT.length s.mem name s.size
    (priv_generic_named_destroy cfg s T (s.mem.loadList name cfg.CharT.sizeof length)).1

/-- `priv_destroy_ptr`; anonymous and unique instances are not in the named index. -/
def priv_destroy_ptr (cfg : Config) (s : Segment) (T : CType) (ptr : Nat) : Segment :=
  let ctrl_data := block_header.block_header_from_value ptr
  if (block_header.read s.mem ctrl_data).m_alloc_type = instance_type.named_type.toNat then
    priv_generic_named_destroy_header cfg s T ctrl_data
  else s

/-- A call on the segment manager, or writes of somebody else to the segment. -/
inductive Label (cfg : Config) where
  | construct (T : CType) (num : Nat) (name : Name cfg) (allocated : Option Nat) (throws : Bool)
  | find_or_construct (T : CType) (num : Nat) (name : Name cfg) (allocated : Option Nat)
      (throws : Bool)
  | find (T : CType) (name : Name cfg)
  | destroy (T : CType) (name : Name cfg)
  | destroy_ptr (T : CType) (ptr : Nat)
  | write (mem : Memory)

/-- The state after a call, with the pointer it returned. -/
def call (cfg : Config) (s : Segment) : Label cfg → Segment × Option Nat
  | .construct T num name allocated throws =>
    priv_generic_named_construct cfg s T num name.chars false allocated throws
  | .find_or_construct T num name allocated throws =>
    priv_generic_named_construct cfg s T num name.chars true allocated throws
  | .find T name => (s, (priv_generic_find cfg s T name.chars).map Prod.fst)
  | .destroy T name => ((priv_generic_named_destroy cfg s T name.chars).1, none)
  | .destroy_ptr T ptr => (priv_destroy_ptr cfg s T ptr, none)
  | .write mem => ({ s with mem }, none)

end interprocess.segment_manager
