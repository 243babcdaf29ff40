import Interprocess.Base.Memory
import Interprocess.Detail.Utilities

namespace interprocess.ipcdetail

/-- What the layout of a block needs to know of a C++ type. -/
structure CType where
  sizeof : Nat
  alignment : Nat
  sizeof_pos : 0 < sizeof
  alignment_pos : 0 < alignment
  deriving DecidableEq

inductive instance_type where
  | anonymous_type
  | named_type
  | unique_type
  deriving DecidableEq

def instance_type.toNat : instance_type → Nat
  | .anonymous_type => 0
  | .named_type => 1
  | .unique_type => 2

/-- The word in front of a value: two bits say how it was allocated, the others
    how many bytes it has. -/
structure block_header where
  m_alloc_type : Nat
  m_value_bytes : Nat
  deriving DecidableEq

def sizeof_block_header : Nat :=
  8

/-- The bytes from the index header in front of a block to its `block_header`. -/
def sm_between_headers (Header : CType) : Nat :=
  Header.sizeof + ct_rounded_size sizeof_block_header Header.alignment - sizeof_block_header

namespace sg_offsets_with_header

def both_headers (Header : CType) : Nat :=
  sm_between_headers Header + sizeof_block_header

def total_prefix (TypeAlignment : Nat) (Header : CType) : Nat :=
  ct_rounded_size (both_headers Header) TypeAlignment

def block_header_prefix (TypeAlignment : Nat) (Header : CType) : Nat :=
  total_prefix TypeAlignment Header - sizeof_block_header

def front_space (TypeAlignment : Nat) (Header : CType) : Nat :=
  total_prefix TypeAlignment Header - both_headers Header

/-- The static assertions, with the one of `ct_rounded_size`. -/
structure StaticAsserts (TypeAlignment : Nat) (Header : CType) : Prop where
  total_prefix_lt : total_prefix TypeAlignment Header < 2 ^ 64
  total_prefix_mod : total_prefix TypeAlignment Header % TypeAlignment = 0
  front_space_mod : front_space TypeAlignment Header % Header.alignment = 0
  block_header_prefix_mod : block_header_prefix TypeAlignment Header % sizeof_block_header = 0
  total_prefix_eq : total_prefix TypeAlignment Header = sizeof_block_header + Header.sizeof +
    front_space TypeAlignment Header + (sm_between_headers Header - Header.sizeof)

end sg_offsets_with_header

namespace sg_offsets_without_header

def block_header_prefix (TypeAlignment : Nat) : Nat :=
  ct_rounded_size sizeof_block_header TypeAlignment - sizeof_block_header

def front_space (TypeAlignment : Nat) : Nat :=
  block_header_prefix TypeAlignment

end sg_offsets_without_header

namespace block_header

/-- The size of `name_len_t`, and its alignment. -/
def sizeof_name_len_t : Nat :=
  2

/-- The constructor cuts the value bytes to 62 bits. -/
def construct (val_bytes : Nat) (al_type : instance_type) : block_header where
  m_alloc_type := al_type.toNat % 4
  m_value_bytes := val_bytes % 2 ^ 62

def encode (b : block_header) : Nat :=
  b.m_alloc_type + 4 * b.m_value_bytes

/-- The header at an address of the segment. -/
def read (m : Memory) (hdr : Nat) : block_header where
  m_alloc_type := m.load hdr 8 % 4
  m_value_bytes := m.load hdr 8 / 4

def place (m : Memory) (hdr : Nat) (b : block_header) : Memory :=
  m.store hdr 8 b.encode

def value_offset : Nat :=
  sizeof_block_header

def name_length_offset (b : block_header) : Nat :=
  value_offset + get_rounded_size b.m_value_bytes sizeof_name_len_t

def name_offset (b : block_header) (CharAlign : Nat) : Nat :=
  get_rounded_size (b.name_length_offset + sizeof_name_len_t) CharAlign

/-- The bytes to allocate for an anonymous object. -/
def total_anonymous_size (b : block_header) (T : CType) : Nat :=
  (sg_offsets_without_header.block_header_prefix T.alignment + value_offset + b.m_value_bytes) % 2 ^ 64

/-- The bytes to allocate for a named object when nothing stands in front of its
    header. -/
def total_named_size (b : block_header) (T CharT : CType) (namelen : Nat) : Nat :=
  (sg_offsets_without_header.block_header_prefix T.alignment + b.name_offset CharT.alignment +
    (namelen + 1) * CharT.sizeof) % 2 ^ 64

/-- The bytes to allocate for a named object with an index header in front. -/
def total_named_size_with_header (b : block_header) (T CharT Header : CType) (namelen : Nat) : Nat :=
  (sg_offsets_with_header.block_header_prefix T.alignment Header + b.name_offset CharT.alignment +
    (namelen + 1) * CharT.sizeof) % 2 ^ 64

/-- The address of the name of the block with its header at `hdr`. -/
def name (m : Memory) (hdr : Nat) (CharT : CType) : Nat :=
  hdr + (read m hdr).name_offset CharT.alignment

def name_length (m : Memory) (hdr : Nat) : Nat :=
  if (read m hdr).m_alloc_type = instance_type.anonymous_type.toNat then 0
  else m.load (hdr + (read m hdr).name_length_offset) sizeof_name_len_t

def value (hdr : Nat) : Nat :=
  hdr + value_offset

def block_header_from_value (value : Nat) : Nat :=
  value - value_offset

def from_first_header (Header : CType) (header : Nat) : Nat :=
  header + sm_between_headers Header

def to_first_header (Header : CType) (hdr : Nat) : Nat :=
  hdr - sm_between_headers Header

/-- The length is stored in an `unsigned short`. -/
def store_name_length (m : Memory) (hdr namelen : Nat) : Memory :=
  m.store (hdr + (read m hdr).name_length_offset) sizeof_name_len_t (namelen % 2 ^ 16)

end block_header

end interprocess.ipcdetail
