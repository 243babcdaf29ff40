import Interprocess.Base.Transition
import Interprocess.ManagedMemory.Operations
import Interprocess.MemAlgo.SimpleSeqFit.ResizingRuns

open Transition

namespace interprocess.ipcdetail.basic_managed_memory_impl

variable {A : MemoryAlgorithm} {Offset : Nat} {s t : Devices A} {filename : String} {f : Device A}

theorem Kept.refl (s : Devices A) : Kept s s :=
  fun _ d segment hd hsegment => ⟨d, segment, hd, hsegment, A.intact_refl segment⟩

theorem step_eq {op : Op} {r : Result} (hcall : call Offset s op = some (t, r)) :
    step Offset s op = t := by
  simp only [step, hcall]

end interprocess.ipcdetail.basic_managed_memory_impl
