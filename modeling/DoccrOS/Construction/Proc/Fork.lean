import DoccrOS.Construction.Mem.Kernel
import DoccrOS.Construction.Proc.Process

namespace DoccrOS.Proc
open Lib Mem

/-- The process manager and the memory manager with the record of the kernel space. -/
structure System where
  sched : Sched
  kernel : Kernel
  kernelSpace : Space

def System.space (s : System) : SpacePtr → Option Space
  | .kernel => some s.kernelSpace
  | .user ptr => s.kernel.spaces ptr

/-- The machine and the record of a space after a call. -/
def System.putSpace (s : System) (m : Machine) (space : Space) : SpacePtr → System
  | .kernel => { s with kernel := ⟨m, s.kernel.spaces⟩, kernelSpace := space }
  | .user ptr => { s with kernel := s.kernel.put ptr m (some space) }

/-- The call `vmm_clone_space(src)`, where `ptr` is the result of the `kmalloc` for the new record. -/
def System.cloneSpace (s : System) (src : Option SpacePtr) (ptr : Option HeapPtr) (nodes : Nat → Bool) :
    Result (Option HeapPtr × System) :=
  match src with
  | none => .ok (none, s)
  | some src =>
    if !s.kernel.isNew ptr then .error .invalid
    else
      match s.space src with
      | none => .error .invalid
      | some space => do
        let (clone, m, space) ← vmmCloneSpace s.kernel.machine space ptr.isSome nodes
        let s := s.putSpace m space src
        match ptr, clone with
        | some ptr, some clone => return (some ptr, { s with kernel := s.kernel.put ptr m (some clone) })
        | _, _ => return (none, s)

/-- The branches of `process_fork` that give up, with the space that they destroy. -/
def System.forkUndo (s : System) (child : HeapPtr) (space : Option HeapPtr) : Result (Option HeapPtr × System) := do
  let kernel ←
    match space with
    | none => .ok s.kernel
    | some ptr => s.kernel.step (.destroy ptr)
  let (result, sched) ← Proc.forkUndo s.sched child space
  return (result, { s with sched := sched, kernel := kernel })

/-- The arguments `new`, `space`, `thread` and `stack` are the results of `kcalloc` for the process, of `kmalloc` for the
record of the space, of `kcalloc` for the thread and of `kmalloc` for its stack, and `nodes` those of `region_alloc`. -/
def System.processFork (s : System) (new space thread : Option HeapPtr) (nodes : Nat → Bool) (stack : Bool) :
    Result (Option HeapPtr × System) := do
  let caller ← s.sched.thread s.sched.current
  match caller.owner with
  | none => return (none, s)
  | some parent =>
    let proc ← s.sched.proc parent
    match ← procAlloc s.sched new with
    | (none, sched) => return (none, { s with sched := sched })
    | (some child, sched) =>
      match ← System.cloneSpace { s with sched := sched } proc.space space nodes with
      | (none, s) => s.forkUndo child none
      | (some ptr, s) =>
        let sched ← newSpace s.sched ptr
        let sched ← setSpace sched child (.user ptr)
        let s := { s with sched := sched }
        match thread with
        | none => s.forkUndo child (some ptr)
        | some thread =>
          if (s.sched.threads (.heap thread)).isSome then .error .invalid
          else if !stack then s.forkUndo child (some ptr)
          else
            let (result, sched) ← forkThread s.sched child thread
            return (result, { s with sched := sched })

/-- The space of the process that calls `process_fork`. -/
def System.parentSpace (s : System) : Option Space := do
  let caller ← s.sched.threads s.sched.current
  let parent ← caller.owner
  let proc ← s.sched.procs parent
  let ptr ← proc.space
  s.space ptr

end DoccrOS.Proc
