import DoccrOS.Construction.Proc.Scheduler

namespace DoccrOS.Proc
open Lib Mem

/-- The state after `process_init` and `sched_init`. -/
def schedBoot : Sched where
  threads ptr := if ptr = .bootstrap then some ⟨0, .running, none, false⟩ else none
  procs _ := none
  spaces _ := false
  readyQ := ⟨fun _ => none, 0, 0, 0⟩
  current := .bootstrap
  idleThread := none
  zombies := []
  enabled := false
  ticks := 0
  switchCount := 0
  head := []
  procZombies := []
  nextPid := 1
  nextTid := 1
  activeSpace := .kernel

/-- The argument `new` is the result of `kcalloc`, which returns no pointer that is in use. -/
def procAlloc (s : Sched) (new : Option HeapPtr) : Result (Option HeapPtr × Sched) :=
  match new with
  | none => .ok (none, s)
  | some p =>
    if (s.procs p).isSome then .error .invalid
    else
      let s := s.setProc p ⟨s.nextPid, .alive, 0, none, [], 0, 0⟩
      .ok (some p, { s with nextPid := s.nextPid + 1, head := p :: s.head })

/-- A store to `p->space`. -/
def setSpace (s : Sched) (p : HeapPtr) (space : SpacePtr) : Result Sched := do
  let proc ← s.proc p
  return s.setProc p { proc with space := some space }

def processCreate (s : Sched) (new : Option HeapPtr) : Result (Option HeapPtr × Sched) := do
  match ← procAlloc s new with
  | (none, s) => return (none, s)
  | (some p, s) =>
    let s ← setSpace s p .kernel
    return (some p, s)

/-- `vmm_space_create` and `vmm_clone_space` return no space that is in use. -/
def newSpace (s : Sched) (space : HeapPtr) : Result Sched :=
  if s.spaces space then .error .invalid
  else .ok { s with spaces := Function.update s.spaces space true }

/-- The argument `space` is the result of `vmm_space_create`. -/
def processCreateUser (s : Sched) (new space : Option HeapPtr) : Result (Option HeapPtr × Sched) := do
  match ← procAlloc s new with
  | (none, s) => return (none, s)
  | (some p, s) =>
    match space with
    | none => return (none, { s.freeProc p with head := s.head.tail })
    | some space =>
      let s ← newSpace s space
      let s ← setSpace s p (.user space)
      return (some p, s)

/-- The loop that takes a process out of the list `head`. -/
def unlinkProc (s : Sched) (p : HeapPtr) : Sched := { s with head := s.head.erase p }

def processExit (s : Sched) (p : HeapPtr) (exitCode : Int) : Result Sched := do
  let proc ← s.proc p
  if proc.state ≠ .alive then return s
  else
    let s := unlinkProc (s.setProc p { proc with exitCode := exitCode, state := .zombie }) p
    return { s with procZombies := p :: s.procZombies }

/-- This is `(u64)-1`. -/
def minusOne : Nat := 2 ^ 64 - 1

/-- The loop of `process_waitpid`; it returns the first process that matches, its exit code and the rest of the list. -/
def waitpidSearch (s : Sched) (target : Nat) : List HeapPtr → Result (Option (HeapPtr × Process) × List HeapPtr)
  | [] => .ok (none, [])
  | cur :: next => do
    let proc ← s.proc cur
    if target = minusOne ∨ target = proc.pid then return (some (cur, proc), next)
    else
      let (found, rest) ← waitpidSearch s target next
      return (found, cur :: rest)

/-- The call returns the exit code on success. The target `-1` stands for any process. -/
def processWaitpid (s : Sched) (target : Nat) : Result (Option Int × Sched) := do
  match ← waitpidSearch s target s.procZombies with
  | (none, _) => return (none, s)
  | (some (cur, proc), rest) =>
    let s ← destroySpace { s with procZombies := rest } proc.space
    return (some proc.exitCode, s.freeProc cur)

/-- The loop of `process_destroy` over the threads of a process. -/
def destroyThreads (s : Sched) : List ThreadPtr → Result Sched
  | [] => .ok s
  | t :: next => do
    let s ← threadDestroy s t
    destroyThreads s next

def processDestroy (s : Sched) (p : HeapPtr) : Result Sched := do
  let proc ← s.proc p
  let s ← destroyThreads s proc.threads
  let s ← destroySpace s proc.space
  if p ∈ s.head then return (unlinkProc s p).freeProc p
  else return s

/-- The part of `thread_create`, `thread_create_user` and `process_fork` that links a new thread to its owner. -/
def linkThread (s : Sched) (t : ThreadPtr) (owner : HeapPtr) : Result Sched := do
  let proc ← s.proc owner
  return s.setProc owner
    { proc with
      threads := t :: proc.threads
      threadCount := proc.threadCount + 1
      aliveCount := proc.aliveCount + 1 }

/-- The part of `thread_create` and `thread_create_user` behind the null tests. The arguments `new` and `stack` are the
results of `kcalloc` and `kmalloc`. -/
def threadNew (s : Sched) (owner : Option HeapPtr) (isUser : Bool) (new : Option HeapPtr) (stack : Bool) :
    Result (Option ThreadPtr × Sched) :=
  match new with
  | none => .ok (none, s)
  | some ptr =>
    if (s.threads (.heap ptr)).isSome then .error .invalid
    else if !stack then .ok (none, s)
    else do
      let s := s.setThread (.heap ptr) ⟨s.nextTid, .ready, owner, isUser⟩
      let s := { s with nextTid := s.nextTid + 1 }
      let s ←
        match owner with
        | none => .ok s
        | some p => linkThread s (.heap ptr) p
      let s ← schedAdd s (.heap ptr)
      return (some (.heap ptr), s)

def threadCreate (s : Sched) (owner : Option HeapPtr) (entry : Nat) (new : Option HeapPtr) (stack : Bool) :
    Result (Option ThreadPtr × Sched) :=
  if entry = 0 then .ok (none, s) else threadNew s owner false new stack

def threadCreateUser (s : Sched) (owner : Option HeapPtr) (entry : Nat) (new : Option HeapPtr) (stack : Bool) :
    Result (Option ThreadPtr × Sched) :=
  if entry = 0 ∨ owner = none then .ok (none, s) else threadNew s owner true new stack

/-- The branches of `process_fork` that give up: they destroy the space if there is one, take the child out of the list
and free it. -/
def forkUndo (s : Sched) (child : HeapPtr) (space : Option HeapPtr) : Result (Option HeapPtr × Sched) := do
  let s ←
    match space with
    | none => .ok s
    | some space => vmmSpaceDestroy s (.user space)
  return (none, (unlinkProc s child).freeProc child)

/-- The part of `process_fork` that starts the thread of the child. -/
def forkThread (s : Sched) (child : HeapPtr) (ptr : HeapPtr) : Result (Option HeapPtr × Sched) := do
  let s := s.setThread (.heap ptr) ⟨s.nextTid, .ready, some child, true⟩
  let s := { s with nextTid := s.nextTid + 1 }
  let s ← linkThread s (.heap ptr) child
  let s ← schedAdd s (.heap ptr)
  return (some child, s)

/-- The arguments `new`, `space`, `thread` and `stack` are the results of `kcalloc` for the process, of `vmm_clone_space`,
of `kcalloc` for the thread and of `kmalloc`. -/
def processFork (s : Sched) (new space thread : Option HeapPtr) (stack : Bool) : Result (Option HeapPtr × Sched) := do
  let caller ← s.thread s.current
  match caller.owner with
  | none => return (none, s)
  | some parent =>
    let _ ← s.proc parent
    match ← procAlloc s new with
    | (none, s) => return (none, s)
    | (some child, s) =>
      match space with
      | none => forkUndo s child none
      | some space =>
        let s ← newSpace s space
        let s ← setSpace s child (.user space)
        match thread with
        | none => forkUndo s child (some space)
        | some ptr =>
          if (s.threads (.heap ptr)).isSome then .error .invalid
          else if !stack then forkUndo s child (some space)
          else forkThread s child ptr

def threadExit (s : Sched) : Result Sched := do
  let self ← s.thread s.current
  let s := s.setThread s.current { self with state := .dead }
  let s ←
    match self.owner with
    | none => .ok s
    | some owner => do
      let proc ← s.proc owner
      let s := s.setProc owner { proc with aliveCount := proc.aliveCount - 1 }
      if proc.aliveCount - 1 ≤ 0 ∧ proc.state = .alive then processExit s owner 0 else .ok s
  schedYield s

/-- A call of the process manager or the scheduler with the outcomes of its allocations. -/
inductive ProcOp where
  | processCreate (new : Option HeapPtr)
  | processCreateUser (new space : Option HeapPtr)
  | processDestroy (p : HeapPtr)
  | threadCreate (owner : Option HeapPtr) (entry : Nat) (new : Option HeapPtr) (stack : Bool)
  | threadCreateUser (owner : Option HeapPtr) (entry : Nat) (new : Option HeapPtr) (stack : Bool)
  | processFork (new space thread : Option HeapPtr) (stack : Bool)
  | schedSetIdle (idle : Option ThreadPtr)
  | schedStart
  | schedYield
  | schedTick
  | threadExit
  | processWaitpid (target : Nat)

/-- The call with the test whether it returned null or `-1`. -/
def Sched.call (s : Sched) : ProcOp → Result (Bool × Sched)
  | .processCreate new => return (← processCreate s new).map Option.isNone id
  | .processCreateUser new space => return (← processCreateUser s new space).map Option.isNone id
  | .processDestroy p => return (false, ← processDestroy s p)
  | .threadCreate owner entry new stack => return (← threadCreate s owner entry new stack).map Option.isNone id
  | .threadCreateUser owner entry new stack => return (← threadCreateUser s owner entry new stack).map Option.isNone id
  | .processFork new space thread stack => return (← processFork s new space thread stack).map Option.isNone id
  | .schedSetIdle idle => return (false, ← Proc.schedSetIdle s idle)
  | .schedStart => return (false, ← Proc.schedStart s)
  | .schedYield => return (false, ← Proc.schedYield s)
  | .schedTick => return (false, ← Proc.schedTick s)
  | .threadExit => return (false, ← Proc.threadExit s)
  | .processWaitpid target => return (← processWaitpid s target).map Option.isNone id

def Sched.step (s : Sched) (op : ProcOp) : Result Sched := (s.call op).map Prod.snd

/-- The current thread has not called `thread_exit`. -/
def Sched.runs (s : Sched) : Bool := (s.threads s.current).any fun thread => thread.state != .dead

/-- A process that a call may be given: it exists. -/
def Sched.hasProc (s : Sched) (p : HeapPtr) : Bool := (s.procs p).isSome

/-- The calls that the kernel makes. Allocations are fresh, a thread is created for no process or for one that exists,
`process_destroy` gets a process without threads, the idle thread is set once and never exits, `sched_start` is called once
by the bootstrap thread, which does not exit either, and after its exit a thread is only interrupted by the timer. -/
def Sched.allowed (s : Sched) : ProcOp → Bool
  | .processCreate new => s.runs && new.all fun p => !s.hasProc p
  | .processCreateUser new space => s.runs && (new.all fun p => !s.hasProc p) && space.all fun sp => !s.spaces sp
  | .processDestroy p => s.runs && (s.procs p).any fun proc => proc.state == .alive && proc.threads.isEmpty
  | .threadCreate owner _ new _ => s.runs && owner.all s.hasProc && new.all fun t => (s.threads (.heap t)).isNone
  | .threadCreateUser owner _ new _ => s.runs && owner.all s.hasProc && new.all fun t => (s.threads (.heap t)).isNone
  | .processFork new space thread _ => s.runs && (new.all fun p => !s.hasProc p) && (space.all fun sp => !s.spaces sp) &&
      thread.all fun t => (s.threads (.heap t)).isNone
  | .schedSetIdle idle => s.runs && s.idleThread.isNone && idle.all fun t =>
      t != s.current && t != .bootstrap && (s.threads t).any fun thread => thread.state != .dead
  | .schedStart => s.runs && !s.enabled && s.current == .bootstrap
  | .schedYield => s.runs
  | .schedTick => true
  | .threadExit => s.runs && s.current != .bootstrap && some s.current != s.idleThread
  | .processWaitpid _ => s.runs

end DoccrOS.Proc
