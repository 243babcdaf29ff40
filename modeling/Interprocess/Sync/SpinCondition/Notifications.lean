import Interprocess.Base.Transition
import Interprocess.Sync.SpinCondition.Steps

open Count Transition

namespace interprocess.ipcdetail.spin_condition

/-- How far a thread is from ending the notification under way. -/
def Pc.weight : Pc → Nat
  | .yielding _ => 8
  | .sleeping _ => 7
  | .checking _ => 6
  | .notified_one | .notified_all => 5
  | .last_notified => 2
  | .unlocking _ | .no_waiters => 1
  | .notifying _ => 3
  | .posting _ => 2
  | _ => 0

section Progress

variable {τ : Type} [Fintype τ]

def weight (s : State τ) : Nat :=
  total (fun th => th.pc.weight) s.threads

variable [DecidableEq τ]

end Progress

end interprocess.ipcdetail.spin_condition
