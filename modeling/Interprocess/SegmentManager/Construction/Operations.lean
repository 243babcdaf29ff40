import Mathlib.Data.Finset.Basic
import Mathlib.Order.Defs.LinearOrder

/-! Constructions whose element constructors throw and call the segment manager
again. -/

namespace interprocess.segment_manager.construction

/-- The index types that `interprocess_fwd.hpp` declares. The class `unordered_map_index`
    was removed and only its declaration is left; like the other indexes of nodes, it would
    have the node of a block as its iterator. -/
inductive Index where
  | flat_map_index
  | map_index
  | unordered_map_index
  | iset_index
  | iunordered_set_index
  | null_index
  deriving DecidableEq

/-- An iterator of a flat map is a position in its current buffer, one of the
    other indexes is the node of a block. -/
inductive Iterator where
  | position (buffer position : Nat)
  | node (block : Nat)
  deriving DecidableEq

/-- A construction in progress: what it will erase and give back if an element
    throws, and how many elements it has counted as constructed. -/
structure Frame (ν : Type) where
  name : Option ν
  block : Nat
  num : Nat
  constructed : Nat
  it : Iterator
  deriving DecidableEq

/-- The index with the buffer it stands in, the blocks given out by the memory
    algorithm, how often the constructor and the destructor of each element of
    each block ran, the element counts in the block headers, and the constructions
    in progress, the innermost first. -/
structure State (ν : Type) where
  index : List (ν × Nat)
  buffer : Nat
  blocks : Finset Nat
  next : Nat
  num : Nat → Nat
  constructed : Nat → Nat → Nat
  destroyed : Nat → Nat → Nat
  frames : List (Frame ν)
  undefined : Bool

/-- How the allocation and the insertion of a construction end. A flat map may
    move to a new buffer. -/
inductive Insertion where
  | no_memory
  | insert_throws
  | inserted (reallocates : Bool)
  deriving DecidableEq

/-- A call of `construct` or `find_or_construct` (without a name it is anonymous) or
    of `destroy`, made from outside or by the constructor of the current element;
    or what becomes of that element. -/
inductive Label (ν : Type) where
  | construct (name : Option ν) (num : Nat) (insertion : Insertion)
  | element_constructed
  | element_throws
  | increment_throws
  | finish
  | destroy (name : ν)

variable {ν : Type} [LinearOrder ν]

def find (index : List (ν × Nat)) (name : ν) : Option Nat :=
  (index.find? fun entry => entry.1 = name).map Prod.snd

namespace State

/-- `insert_commit`, with the iterator it returns. -/
def insert_commit (kind : Index) (s : State ν) (name : ν) (block : Nat) (reallocates : Bool) :
    State ν × Iterator :=
  if kind = .flat_map_index then
    let position := s.index.countP fun entry => entry.1 < name
    let buffer := if reallocates then s.buffer + 1 else s.buffer
    ({ s with
        index := s.index.insertIdx position (name, block)
        buffer := buffer }, .position buffer position)
  else ({ s with index := (name, block) :: s.index }, .node block)

/-- `erase` by iterator. A position in a buffer that is gone, or a node that is not
    in the index, has no defined meaning. -/
def erase (s : State ν) : Iterator → State ν
  | .position buffer position =>
    if buffer = s.buffer ∧ position < s.index.length then
      { s with index := s.index.eraseIdx position }
    else { s with undefined := true }
  | .node block =>
    if s.index.any fun entry => entry.2 = block then
      { s with index := s.index.filter fun entry => entry.2 ≠ block }
    else { s with undefined := true }

/-- `named_construct_placement_destroy` and `priv_destroy_n`. -/
def destroy_n (s : State ν) (block num : Nat) : State ν :=
  { s with destroyed := fun b j => if b = block ∧ j < num then s.destroyed b j + 1 else s.destroyed b j }

def deallocate (s : State ν) (block : Nat) : State ν :=
  { s with blocks := s.blocks.erase block }

/-- The constructor of an element has run to its end. -/
def count_element (s : State ν) (block element : Nat) : State ν :=
  { s with
    constructed := fun b j =>
      if b = block ∧ j = element then s.constructed b j + 1 else s.constructed b j }

/-- A new block with a construction in progress in it. -/
def begin_construction (s : State ν) (name : Option ν) (num : Nat) (it : Iterator) : State ν :=
  { s with
    blocks := insert s.next s.blocks
    next := s.next + 1
    num := Function.update s.num s.next num
    frames := ⟨name, s.next, num, 0, it⟩ :: s.frames }

/-- The exception of an element: `construct_n` destroys the elements it has
    counted, `value_eraser` erases the entry, and the block goes back. -/
def roll_back (s : State ν) (frame : Frame ν) (rest : List (Frame ν)) : State ν :=
  let s := s.destroy_n frame.block frame.constructed
  let s := match frame.name with
    | some _ => s.erase frame.it
    | none => s
  { s.deallocate frame.block with frames := rest }

end State

/-- `priv_generic_named_construct` and `priv_anonymous_construct` up to the first
    element. A null index has no names. -/
def construct (kind : Index) (s : State ν) (name : Option ν) (num : Nat) (insertion : Insertion) :
    Option (State ν) :=
  match name with
  | none =>
    some (if insertion = .no_memory then s else s.begin_construction none num (.node s.next))
  | some name =>
    if kind = .null_index then none
    else if (find s.index name).isSome then some s
    else
      match insertion with
      | .no_memory => some s
      | .insert_throws => some { s with next := s.next + 1 }
      | .inserted reallocates =>
        let (s', it) := s.insert_commit kind name s.next reallocates
        some (s'.begin_construction (some name) num it)

/-- `priv_generic_named_destroy` by name. -/
def destroy (s : State ν) (name : ν) : State ν :=
  match find s.index name with
  | none => s
  | some block =>
    (({ s with index := s.index.filter fun entry => entry.1 ≠ name }).destroy_n block (s.num block)).deallocate
      block

/-- One step: a call, or what becomes of the current element of the innermost
    construction. An increment that throws finds the element constructed but not
    counted. -/
def step (kind : Index) (s : State ν) : Label ν → Option (State ν)
  | .construct name num insertion => construct kind s name num insertion
  | .destroy name => some (destroy s name)
  | .element_constructed =>
    match s.frames with
    | [] => none
    | frame :: rest =>
      if frame.constructed < frame.num then
        some { s.count_element frame.block frame.constructed with
          frames := { frame with constructed := frame.constructed + 1 } :: rest }
      else none
  | .element_throws =>
    match s.frames with
    | [] => none
    | frame :: rest => if frame.constructed < frame.num then some (s.roll_back frame rest) else none
  | .increment_throws =>
    match s.frames with
    | [] => none
    | frame :: rest =>
      if frame.constructed < frame.num then
        some ((s.count_element frame.block frame.constructed).roll_back frame rest)
      else none
  | .finish =>
    match s.frames with
    | [] => none
    | frame :: rest => if frame.constructed = frame.num then some { s with frames := rest } else none

/-- What names are for: a map from names to blocks. -/
abbrev Names (ν : Type) : Type :=
  ν → Option Nat

/-- What each step is to do to the names. -/
def Names.after (kind : Index) (m : Names ν) (s : State ν) : Label ν → Names ν
  | .construct (some name) _ (.inserted _) =>
    if kind ≠ .null_index ∧ m name = none then Function.update m name (some s.next) else m
  | .construct _ _ _ => m
  | .element_throws | .increment_throws =>
    match s.frames.head?.bind Frame.name with
    | none => m
    | some name => Function.update m name none
  | .destroy name => Function.update m name none
  | .element_constructed | .finish => m

def start : State ν × Names ν :=
  ({ index := []
     buffer := 0
     blocks := ∅
     next := 0
     num := fun _ => 0
     constructed := fun _ _ => 0
     destroyed := fun _ _ => 0
     frames := []
     undefined := false }, fun _ => none)

end interprocess.segment_manager.construction
