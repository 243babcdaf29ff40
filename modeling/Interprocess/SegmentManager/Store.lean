import Interprocess.SegmentManager.Operations

namespace interprocess.segment_manager

open ipcdetail Memory

/-- A live named object: where it is, what it is, and the block it lives in. -/
structure Object where
  pointer : Nat
  T : CType
  num : Nat
  block : Nat × Nat

/-- What the named objects are for: a finite map from names to live objects. -/
abbrev Store (cfg : Config) : Type :=
  Name cfg → Option Object

/-- The header the code writes for an object. -/
def Object.info (obj : Object) : block_header :=
  block_header.construct (obj.T.sizeof * obj.num % 2 ^ 64) .named_type

def Object.header (cfg : Config) (obj : Object) : Nat :=
  header_in_buffer cfg obj.T obj.block.1

/-- The object a constructing call makes in a buffer, at the pointer it returned. -/
def Object.made (cfg : Config) (T : CType) (num namelen buffer pointer : Nat) : Object where
  pointer := pointer
  T := T
  num := num
  block := (buffer, total_size cfg T
    (block_header.construct (T.sizeof * num % 2 ^ 64) .named_type) namelen)

/-- A constructing call that returns a pointer under a new name adds an object. -/
def Store.construct {cfg : Config} (m : Store cfg) (T : CType) (num : Nat) (name : Name cfg)
    (allocated returned : Option Nat) : Store cfg :=
  match m name, allocated, returned with
  | none, some buffer, some pointer =>
    Function.update m name (some (Object.made cfg T num name.chars.length buffer pointer))
  | _, _, _ => m

/-- How the calls change the map. -/
def Store.after {cfg : Config} (m : Store cfg) (returned : Option Nat) : Label cfg → Store cfg
  | .construct T num name allocated _ | .find_or_construct T num name allocated _ =>
    m.construct T num name allocated returned
  | .find _ _ | .write _ => m
  | .destroy _ name => Function.update m name none
  | .destroy_ptr _ ptr => fun name => (m name).filter fun obj => obj.pointer ≠ ptr

/-- The segment manager beside the map. -/
def step (cfg : Config) (s : Segment × Store cfg) (label : Label cfg) :
    Option (Segment × Store cfg) :=
  let result := call cfg s.1 label
  some (result.1, s.2.after result.2 label)

/-- A buffer in the segment that overlaps no block of a named object. -/
def Fresh (s : Segment) (buffer size : Nat) : Prop :=
  buffer + size ≤ s.size ∧
    ∀ block ∈ s.blocks, buffer + size ≤ block.1 ∨ block.1 + block.2 ≤ buffer

/-- What callers and the memory algorithm promise: buffers are fresh, objects are
    destroyed with their own type and through their own pointer, and nobody
    writes to the header and the name of a live block. -/
def Promised {cfg : Config} (s : Segment × Store cfg) : Label cfg → Prop
  | .construct T num name allocated _ | .find_or_construct T num name allocated _ =>
    ∀ buffer, allocated = some buffer → Fresh s.1 buffer (total_size cfg T
      (block_header.construct (T.sizeof * num % 2 ^ 64) .named_type) name.chars.length)
  | .find _ _ => True
  | .destroy T name => ∀ obj, s.2 name = some obj → obj.T = T
  | .destroy_ptr T ptr => ∃ name obj, s.2 name = some obj ∧ obj.T = T ∧ obj.pointer = ptr
  | .write mem => ∀ name obj, s.2 name = some obj →
      SameOn mem s.1.mem (obj.header cfg) (obj.header cfg + sizeof_block_header) ∧
      SameOn mem s.1.mem (obj.header cfg + obj.info.name_length_offset)
        (obj.block.1 + obj.block.2)

/-- The sizes a block can have: the value fits the 62 bits of the header, and the
    whole block fits `size_type`. -/
structure Fits (cfg : Config) (T : CType) (num namelen : Nat) : Prop where
  value_bytes_lt : T.sizeof * num < 2 ^ 62
  size_lt : header_in_buffer cfg T 0 + sizeof_block_header + T.sizeof * num + 3 +
    cfg.CharT.alignment + (namelen + 1) * cfg.CharT.sizeof < 2 ^ 64

/-- The sizes an object can have: the length of its name also fits `name_len_t`
    where an intrusive index reads it. -/
structure Representable (cfg : Config) (T : CType) (num namelen : Nat) : Prop
    extends Fits cfg T num namelen where
  namelen_lt : cfg.index_type.is_intrusive_index = true → namelen < 2 ^ 16

/-- Every constructed object is representable. A call under a name that is taken, or
    without a buffer, has any sizes; one whose constructor throws has a block that fits. -/
def Sized {cfg : Config} (s : Segment × Store cfg) : Label cfg → Prop
  | .construct T num name allocated throws | .find_or_construct T num name allocated throws =>
    s.2 name = none → allocated ≠ none →
      if throws then Fits cfg T num name.chars.length
      else Representable cfg T num name.chars.length
  | .find _ _ | .destroy _ _ | .destroy_ptr _ _ | .write _ => True

def start (cfg : Config) (mem : Memory) (size : Nat) : Segment × Store cfg :=
  ({ mem := mem, size := size, blocks := [], index := [] }, fun _ => none)

end interprocess.segment_manager
