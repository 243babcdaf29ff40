import Mathlib.Algebra.Group.Int.Defs
import Mathlib.Algebra.Group.Nat.Defs
import Mathlib.Logic.Function.Basic

namespace interprocess.ipcdetail.condition_algorithm_8a

/-- `integer_type` of the condition members, by its `(std::numeric_limits<integer_type>::max)()`. -/
structure IntegerType where
  max : Int
  half_pos : 0 < max / 2

/-- The counters are integers here: they are never negative, and as many threads as leave
    half of an `integer_type` free cannot make one leave its type. The semaphores are their
    counts, and the mutex is locked or not. -/
structure ConditionMembers where
  nwaiters_blocked : Int
  nwaiters_gone : Int
  nwaiters_to_unblock : Int
  sem_block_queue : Nat
  sem_block_lock : Nat
  mtx_unblock_lock : Bool
  deriving DecidableEq

/-- The operation a thread performs next: `entering` to `leaving` belong to
    `wait`, the others to `signal`. The external mutex is not part of the
    algorithm. -/
inductive Pc where
  | idle (result : Option Bool)
  | entering (timed : Bool)
  | registering (timed : Bool)
  | registered (timed : Bool)
  | queued (timed : Bool)
  | awake (bTimedOut : Bool)
  | unblocking (bTimedOut : Bool)
  | opening (bTimedOut : Bool)
  | adjusting (bTimedOut : Bool)
  | subtracting (bTimedOut : Bool)
  | reopening (bTimedOut : Bool)
  | resetting (bTimedOut : Bool)
  | unlocking (nsignals_was_left nwaiters_was_gone : Int) (bTimedOut : Bool)
  | draining (nwaiters_was_gone : Int) (bTimedOut : Bool)
  | leaving (bTimedOut : Bool)
  | signalling (broadcast : Bool)
  | deciding (broadcast : Bool)
  | closing (broadcast : Bool)
  | issuing (broadcast : Bool)
  | issued (nsignals_to_issue : Option Int)
  | posting (nsignals_to_issue : Int)
  deriving DecidableEq

/-- The section of `wait` under `mtx_unblock_lock`, up to its next semaphore
    operation. -/
def unblock (I : IntegerType) (data : ConditionMembers) (bTimedOut : Bool) : ConditionMembers × Pc :=
  let nsignals_was_left := data.nwaiters_to_unblock
  if nsignals_was_left ≠ 0 then
    let data :=
      if bTimedOut then
        if data.nwaiters_blocked ≠ 0 then { data with nwaiters_blocked := data.nwaiters_blocked - 1 }
        else { data with nwaiters_gone := data.nwaiters_gone + 1 }
      else data
    let data := { data with nwaiters_to_unblock := data.nwaiters_to_unblock - 1 }
    if data.nwaiters_to_unblock = 0 then
      if data.nwaiters_blocked ≠ 0 then (data, .opening bTimedOut)
      else
        ({ data with nwaiters_gone := 0 }, .unlocking nsignals_was_left data.nwaiters_gone bTimedOut)
    else (data, .unlocking nsignals_was_left 0 bTimedOut)
  else
    let data := { data with nwaiters_gone := data.nwaiters_gone + 1 }
    if I.max / 2 = data.nwaiters_gone then (data, .adjusting bTimedOut)
    else (data, .unlocking 0 0 bTimedOut)

/-- The section of `signal` under `mtx_unblock_lock`, up to the closing of the
    gate. -/
def decide_signals (data : ConditionMembers) (broadcast : Bool) : ConditionMembers × Pc :=
  if data.nwaiters_to_unblock ≠ 0 then
    if data.nwaiters_blocked = 0 then (data, .issued none)
    else if broadcast then
      ({ data with
          nwaiters_to_unblock := data.nwaiters_to_unblock + data.nwaiters_blocked
          nwaiters_blocked := 0 },
        .issued (some data.nwaiters_blocked))
    else
      ({ data with
          nwaiters_to_unblock := data.nwaiters_to_unblock + 1
          nwaiters_blocked := data.nwaiters_blocked - 1 },
        .issued (some 1))
  else if data.nwaiters_blocked > data.nwaiters_gone then (data, .closing broadcast)
  else (data, .issued none)

/-- The rest of that section, with the gate closed. -/
def issue_signals (data : ConditionMembers) (broadcast : Bool) : ConditionMembers × Pc :=
  let data :=
    if data.nwaiters_gone ≠ 0 then
      { data with nwaiters_blocked := data.nwaiters_blocked - data.nwaiters_gone, nwaiters_gone := 0 }
    else data
  if broadcast then
    ({ data with nwaiters_to_unblock := data.nwaiters_blocked, nwaiters_blocked := 0 },
      .issued (some data.nwaiters_blocked))
  else
    ({ data with nwaiters_to_unblock := 1, nwaiters_blocked := data.nwaiters_blocked - 1 },
      .issued (some 1))

/-- The next operation of a thread. Waiting for a semaphore or for the mutex takes
    no step. -/
def operate (I : IntegerType) (data : ConditionMembers) : Pc → Option (ConditionMembers × Pc)
  | .idle _ => none
  | .entering timed =>
    if data.sem_block_lock = 0 then none
    else some ({ data with sem_block_lock := data.sem_block_lock - 1 }, .registering timed)
  | .registering timed =>
    some ({ data with nwaiters_blocked := data.nwaiters_blocked + 1 }, .registered timed)
  | .registered timed => some ({ data with sem_block_lock := data.sem_block_lock + 1 }, .queued timed)
  | .queued _ =>
    if data.sem_block_queue = 0 then none
    else some ({ data with sem_block_queue := data.sem_block_queue - 1 }, .awake false)
  | .awake bTimedOut =>
    if data.mtx_unblock_lock then none
    else some ({ data with mtx_unblock_lock := true }, .unblocking bTimedOut)
  | .unblocking bTimedOut => some (unblock I data bTimedOut)
  | .opening bTimedOut =>
    some ({ data with sem_block_lock := data.sem_block_lock + 1 }, .unlocking 0 0 bTimedOut)
  | .adjusting bTimedOut =>
    if data.sem_block_lock = 0 then none
    else some ({ data with sem_block_lock := data.sem_block_lock - 1 }, .subtracting bTimedOut)
  | .subtracting bTimedOut =>
    some ({ data with nwaiters_blocked := data.nwaiters_blocked - data.nwaiters_gone },
      .reopening bTimedOut)
  | .reopening bTimedOut =>
    some ({ data with sem_block_lock := data.sem_block_lock + 1 }, .resetting bTimedOut)
  | .resetting bTimedOut => some ({ data with nwaiters_gone := 0 }, .unlocking 0 0 bTimedOut)
  | .unlocking nsignals_was_left nwaiters_was_gone bTimedOut =>
    some ({ data with mtx_unblock_lock := false },
      if nsignals_was_left = 1 then .draining nwaiters_was_gone bTimedOut else .leaving bTimedOut)
  | .draining nwaiters_was_gone bTimedOut =>
    if nwaiters_was_gone = 0 then
      some ({ data with sem_block_lock := data.sem_block_lock + 1 }, .leaving bTimedOut)
    else if data.sem_block_queue = 0 then none
    else
      some ({ data with sem_block_queue := data.sem_block_queue - 1 },
        .draining (nwaiters_was_gone - 1) bTimedOut)
  | .leaving bTimedOut => some (data, .idle (some !bTimedOut))
  | .signalling broadcast =>
    if data.mtx_unblock_lock then none
    else some ({ data with mtx_unblock_lock := true }, .deciding broadcast)
  | .deciding broadcast => some (decide_signals data broadcast)
  | .closing broadcast =>
    if data.sem_block_lock = 0 then none
    else some ({ data with sem_block_lock := data.sem_block_lock - 1 }, .issuing broadcast)
  | .issuing broadcast => some (issue_signals data broadcast)
  | .issued nsignals_to_issue =>
    some ({ data with mtx_unblock_lock := false },
      match nsignals_to_issue with
      | none => .idle none
      | some n => .posting n)
  | .posting nsignals_to_issue =>
    some ({ data with sem_block_queue := data.sem_block_queue + nsignals_to_issue.toNat }, .idle none)

/-- The condition variable and its threads. -/
structure State (τ : Type) where
  data : ConditionMembers
  pc : τ → Pc

inductive Label (τ : Type) where
  | wait (t : τ) (timed : Bool)
  | signal (t : τ) (broadcast : Bool)
  | next (t : τ)
  | time_out (t : τ)

section Steps

variable {τ : Type} [DecidableEq τ]

/-- One step of a thread: it calls a function, performs its next operation, or
    its wait in the block queue times out. -/
def step (I : IntegerType) (s : State τ) : Label τ → Option (State τ)
  | .wait t timed =>
    match s.pc t with
    | .idle _ => some { s with pc := Function.update s.pc t (.entering timed) }
    | _ => none
  | .signal t broadcast =>
    match s.pc t with
    | .idle _ => some { s with pc := Function.update s.pc t (.signalling broadcast) }
    | _ => none
  | .next t =>
    (operate I s.data (s.pc t)).map fun r => { data := r.1, pc := Function.update s.pc t r.2 }
  | .time_out t =>
    match s.pc t with
    | .queued true => some { s with pc := Function.update s.pc t (.awake true) }
    | _ => none

/-- The members as they must be initialized, and no thread in the algorithm. -/
def start : State τ where
  data :=
    { nwaiters_blocked := 0
      nwaiters_gone := 0
      nwaiters_to_unblock := 0
      sem_block_queue := 0
      sem_block_lock := 1
      mtx_unblock_lock := false }
  pc := fun _ => .idle none

end Steps

end interprocess.ipcdetail.condition_algorithm_8a
