import Mathlib.Logic.Function.Basic

namespace interprocess.ipcdetail.managed_open_or_create_impl

inductive create_enum_t where
  | DoCreate
  | DoOpen
  | DoOpenOrCreate
  deriving DecidableEq

/-- The values of the word at the beginning of the segment. -/
inductive SegmentState where
  | UninitializedSegment
  | InitializingSegment
  | InitializedSegment
  | CorruptedSegment
  deriving DecidableEq

/-- `BOOST_INTERPROCESS_MANAGED_OPEN_OR_CREATE_INITIALIZE_MAX_TRIES`. -/
def MaxCreateOrOpenTries : Nat :=
  20

/-- The backing object of a segment, with a record of the functor calls that
    creators made on it and of how the finished ones ended. -/
structure Backing where
  size : Nat
  word : SegmentState
  runs : Nat
  results : List Bool
  deriving DecidableEq

/-- A new backing object is zero-filled. -/
def Backing.fresh (size : Nat) : Backing where
  size := size
  word := .UninitializedSegment
  runs := 0
  results := []

/-- Where a process stands. -/
inductive Place where
  | idle
  | create_device (type : create_enum_t) (size tries : Nat)
  | open_device (type : create_enum_t) (size tries : Nat)
  | truncate_device (o size : Nat)
  | map_after_create (o : Nat)
  | atomic_cas (o : Nat)
  | construct_func (o : Nat)
  | write_initialized (o : Nat)
  | write_corrupted (o : Nat)
  | truncate_to_one (o : Nat)
  | get_file_size (o : Nat)
  | map_after_open (o : Nat)
  | read_word (o : Nat)
  | spin (o : Nat)
  | remap (o : Nat)
  | open_func (o : Nat)
  | created (o : Nat)
  | opened (o : Nat)
  | failed
  deriving DecidableEq

/-- How the environment lets the next step of a process end: the call made in
    it succeeds, is a functor that returns `false`, or throws. -/
inductive Outcome where
  | ok
  | returns_false
  | throws
  deriving DecidableEq

/-- The directory entry of the id, the backing objects created so far, and the
    processes. -/
structure State (τ : Type) where
  entry : Option Nat
  next : Nat
  backing : Nat → Backing
  place : τ → Place

/-- The parameters of the instantiation: whether the device is file based, and
    the smallest size `priv_open_or_create` accepts. -/
structure Config where
  FileBased : Bool
  min_size : Nat

inductive Label (τ : Type) where
  | start (p : τ) (type : create_enum_t) (size : Nat)
  | advance (p : τ) (outcome : Outcome)
  | remove

namespace State

variable {τ : Type} [DecidableEq τ]

def goto (s : State τ) (p : τ) (place : Place) : State τ :=
  { s with place := Function.update s.place p place }

def set_backing (s : State τ) (o : Nat) (b : Backing) : State τ :=
  { s with backing := Function.update s.backing o b }

/-- The exclusive creation of the backing object. -/
def create (s : State τ) (p : τ) (FileBased : Bool) (size : Nat) : State τ :=
  { s with
    entry := some s.next
    next := s.next + 1
    backing := Function.update s.backing s.next (Backing.fresh (if FileBased then 0 else size))
    place := Function.update s.place p (.truncate_device s.next size) }

end State

section Step

variable {τ : Type} [DecidableEq τ]

/-- `create_device` in `priv_open_or_create` and in `do_create_else_open`. An
    existing object sends `DoOpenOrCreate` to the opening, with a bounded number
    of tries. -/
def create_device_step (c : Config) (s : State τ) (p : τ) (type : create_enum_t) (size tries : Nat) :
    Outcome → State τ
  | .throws => s.goto p .failed
  | _ =>
    match s.entry with
    | none => s.create p c.FileBased size
    | some _ =>
      if type = .DoCreate then s.goto p .failed
      else if tries + 1 = MaxCreateOrOpenTries then s.goto p .failed
      else s.goto p (.open_device type size (tries + 1))

/-- The opening of the existing object; `do_create_else_open` tries to create
    again when it is gone. -/
def open_device_step (s : State τ) (p : τ) (type : create_enum_t) (size tries : Nat) :
    Outcome → State τ
  | .throws => s.goto p .failed
  | _ =>
    match s.entry with
    | some o => s.goto p (.get_file_size o)
    | none =>
      if type = .DoOpen then s.goto p .failed else s.goto p (.create_device type size tries)

/-- `do_map_after_create` up to the functor call. Its outer handler truncates the
    device to one byte. -/
def truncate_device_step (c : Config) (s : State τ) (p : τ) (o size : Nat) : Outcome → State τ
  | .throws => s.goto p (.truncate_to_one o)
  | _ =>
    (if c.FileBased then s.set_backing o { s.backing o with size := size } else s).goto p
      (.map_after_create o)

def atomic_cas_step (s : State τ) (p : τ) (o : Nat) : State τ :=
  if (s.backing o).word = .UninitializedSegment then
    (s.set_backing o { s.backing o with
      word := .InitializingSegment, runs := (s.backing o).runs + 1 }).goto p (.construct_func o)
  else s.goto p (.write_corrupted o)

/-- The functor call of a creator. Whether it returned `true` or `false` is not
    looked at. -/
def construct_func_step (s : State τ) (p : τ) (o : Nat) : Outcome → State τ
  | .ok => (s.set_backing o { s.backing o with results := true :: (s.backing o).results }).goto p
      (.write_initialized o)
  | .returns_false => (s.set_backing o { s.backing o with results := false :: (s.backing o).results }).goto p
      (.write_initialized o)
  | .throws => (s.set_backing o { s.backing o with results := false :: (s.backing o).results }).goto p
      (.write_corrupted o)

/-- The wait of an opener until the file has a size; size one is the creator's
    report of an error. -/
def get_file_size_step (c : Config) (s : State τ) (p : τ) (o : Nat) : Outcome → State τ
  | .throws => s.goto p .failed
  | _ =>
    if c.FileBased then
      if (s.backing o).size = 0 then s
      else if (s.backing o).size = 1 then s.goto p .failed
      else s.goto p (.map_after_open o)
    else s.goto p (.map_after_open o)

/-- The wait of an opener until the word says that the segment is initialised. -/
def spin_step (s : State τ) (p : τ) (o : Nat) : Outcome → State τ
  | .throws => s.goto p .failed
  | _ =>
    if (s.backing o).word = .InitializedSegment then s.goto p (.remap o)
    else if (s.backing o).word = .CorruptedSegment then s.goto p .failed
    else s

/-- The next step of a process. -/
def advance (c : Config) (s : State τ) (p : τ) (outcome : Outcome) : Option (State τ) :=
  match s.place p with
  | .idle | .created _ | .opened _ | .failed => none
  | .create_device type size tries => some (create_device_step c s p type size tries outcome)
  | .open_device type size tries => some (open_device_step s p type size tries outcome)
  | .truncate_device o size => some (truncate_device_step c s p o size outcome)
  | .map_after_create o =>
    some (if outcome = .throws then s.goto p (.truncate_to_one o) else s.goto p (.atomic_cas o))
  | .atomic_cas o => some (atomic_cas_step s p o)
  | .construct_func o => some (construct_func_step s p o outcome)
  | .write_initialized o =>
    some ((s.set_backing o { s.backing o with word := .InitializedSegment }).goto p (.created o))
  | .write_corrupted o =>
    some ((s.set_backing o { s.backing o with word := .CorruptedSegment }).goto p
      (.truncate_to_one o))
  | .truncate_to_one o =>
    some ((if c.FileBased ∧ outcome ≠ .throws then s.set_backing o { s.backing o with size := 1 }
      else s).goto p .failed)
  | .get_file_size o => some (get_file_size_step c s p o outcome)
  | .map_after_open o =>
    some (if outcome = .throws then s.goto p .failed else s.goto p (.read_word o))
  | .read_word o =>
    some (if (s.backing o).word = .InitializedSegment then s.goto p (.open_func o)
      else s.goto p (.spin o))
  | .spin o => some (spin_step s p o outcome)
  | .remap o => some (if outcome = .throws then s.goto p .failed else s.goto p (.open_func o))
  | .open_func o => some (if outcome = .throws then s.goto p .failed else s.goto p (.opened o))

/-- A process starts `priv_open_or_create`, which first checks the size, takes
    its next step, or somebody removes the id. -/
def step (c : Config) (s : State τ) : Label τ → Option (State τ)
  | .start p type size =>
    match s.place p with
    | .idle =>
      if type ≠ .DoOpen ∧ size < c.min_size then some (s.goto p .failed)
      else if type = .DoOpen then some (s.goto p (.open_device type size 0))
      else some (s.goto p (.create_device type size 0))
    | _ => none
  | .advance p outcome => advance c s p outcome
  | .remove => some { s with entry := none }

end Step

/-- No backing object and nobody at work. -/
def start {τ : Type} : State τ where
  entry := none
  next := 0
  backing := fun _ => Backing.fresh 0
  place := fun _ => .idle

end interprocess.ipcdetail.managed_open_or_create_impl
