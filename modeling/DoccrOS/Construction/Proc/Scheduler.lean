import DoccrOS.Construction.Mem.Kheap
import DoccrOS.Lib.Ring

namespace DoccrOS.Proc
open Lib Mem

/-- This is `thread_state_t`. -/
inductive ThreadState where
  | ready
  | running
  | blocked
  | dead
deriving DecidableEq, Repr

/-- This is `proc_state_t`. -/
inductive ProcState where
  | alive
  | zombie
  | dead
deriving DecidableEq, Repr

/-- A `thread_t *` that is not null. The bootstrap thread is a static variable. -/
inductive ThreadPtr where
  | bootstrap
  | heap (ptr : HeapPtr)
deriving DecidableEq

/-- A `vmm_space_t *` that is not null. -/
inductive SpacePtr where
  | kernel
  | user (ptr : HeapPtr)
deriving DecidableEq

/-- This is `thread_t` without its name, its stack and its saved registers. -/
structure Thread where
  tid : Nat
  state : ThreadState
  owner : Option HeapPtr
  isUser : Bool

/-- This is `proc_t` with the list that starts at `threads`. -/
structure Process where
  pid : Nat
  state : ProcState
  exitCode : Int
  space : Option SpacePtr
  threads : List ThreadPtr
  threadCount : Int
  aliveCount : Int

/-- This is `SCHED_MAX_THREADS`. -/
def schedMaxThreads : Nat := 64

/-- This is `QUANTUM`. -/
def quantum : Nat := 10

/-- This is `rq_t`. -/
structure ReadyQueue where
  queue : Nat → Option ThreadPtr
  head : Nat
  tail : Nat
  cnt : Nat

/-- The static variables of the scheduler and the process manager with the objects that they own. The lists are the ones
that start at `zombies`, `head` and `proc_zombies`. -/
structure Sched where
  threads : ThreadPtr → Option Thread
  procs : HeapPtr → Option Process
  spaces : HeapPtr → Bool
  readyQ : ReadyQueue
  current : ThreadPtr
  idleThread : Option ThreadPtr
  zombies : List ThreadPtr
  enabled : Bool
  ticks : Nat
  switchCount : Nat
  head : List HeapPtr
  procZombies : List HeapPtr
  nextPid : Nat
  nextTid : Nat
  activeSpace : SpacePtr

def Sched.setThread (s : Sched) (ptr : ThreadPtr) (thread : Thread) : Sched :=
  { s with threads := Function.update s.threads ptr (some thread) }

def Sched.setProc (s : Sched) (ptr : HeapPtr) (proc : Process) : Sched :=
  { s with procs := Function.update s.procs ptr (some proc) }

/-- `kfree` of a process. -/
def Sched.freeProc (s : Sched) (ptr : HeapPtr) : Sched :=
  { s with procs := Function.update s.procs ptr none }

/-- `kfree` of a thread. It ignores the static bootstrap thread, which has no block header. -/
def Sched.freeThread (s : Sched) : ThreadPtr → Sched
  | .bootstrap => s
  | .heap ptr => { s with threads := Function.update s.threads (.heap ptr) none }

/-- A read of a thread; a pointer to a freed thread is not valid. -/
def Sched.thread (s : Sched) (ptr : ThreadPtr) : Result Thread :=
  match s.threads ptr with
  | none => .error .invalid
  | some thread => .ok thread

/-- A read of a process; a pointer to a freed process is not valid. -/
def Sched.proc (s : Sched) (ptr : HeapPtr) : Result Process :=
  match s.procs ptr with
  | none => .error .invalid
  | some proc => .ok proc

def qInit (q : ReadyQueue) : ReadyQueue := { q with head := 0, tail := 0, cnt := 0 }

def qEmpty (q : ReadyQueue) : Bool := q.cnt == 0

def qPush (q : ReadyQueue) (t : ThreadPtr) : ReadyQueue :=
  if q.cnt ≥ schedMaxThreads then q
  else
    { q with
      queue := Function.update q.queue q.tail (some t)
      tail := (q.tail + 1) % schedMaxThreads
      cnt := q.cnt + 1 }

def qPop (q : ReadyQueue) : Option ThreadPtr × ReadyQueue :=
  if qEmpty q then (none, q)
  else (q.queue q.head, { q with head := (q.head + 1) % schedMaxThreads, cnt := q.cnt - 1 })

/-- The loop of `sched_remove`. -/
def qRemove (q : ReadyQueue) (t : ThreadPtr) : ReadyQueue :=
  match (List.range q.cnt).find? fun i => q.queue ((q.head + i) % schedMaxThreads) == some t with
  | none => q
  | some i =>
    { q with
      queue := shiftDown schedMaxThreads q.head q.queue i (q.cnt - 1 - i)
      cnt := q.cnt - 1
      tail := (q.tail + schedMaxThreads - 1) % schedMaxThreads }

def schedRemove (s : Sched) (t : ThreadPtr) : Sched := { s with readyQ := qRemove s.readyQ t }

def schedAdd (s : Sched) (t : ThreadPtr) : Result Sched := do
  let thread ← s.thread t
  let s := s.setThread t { thread with state := .ready }
  return { s with readyQ := qPush s.readyQ t }

def schedSetIdle (s : Sched) (idle : Option ThreadPtr) : Result Sched :=
  match idle with
  | none => .ok s
  | some t => do
    let s := schedRemove s t
    let thread ← s.thread t
    let s := s.setThread t { thread with state := .ready }
    return { s with idleThread := some t }

/-- `vmm_space_destroy` on a space of a process; it ignores the kernel space. -/
def vmmSpaceDestroy (s : Sched) : SpacePtr → Result Sched
  | .kernel => .ok s
  | .user ptr =>
    if s.spaces ptr then .ok { s with spaces := Function.update s.spaces ptr false }
    else .error .invalid

def vmmSpaceActivate (s : Sched) : SpacePtr → Result Sched
  | .kernel => .ok { s with activeSpace := .kernel }
  | .user ptr => if s.spaces ptr then .ok { s with activeSpace := .user ptr } else .error .invalid

/-- The call `vmm_space_destroy(p->space)` behind the test for the kernel space. -/
def destroySpace (s : Sched) (space : Option SpacePtr) : Result Sched :=
  match space with
  | none => .ok s
  | some .kernel => .ok s
  | some (.user ptr) => vmmSpaceDestroy s (.user ptr)

/-- The loop of `thread_destroy` that takes a thread out of the list of its owner. -/
def unlinkThread (s : Sched) (t : ThreadPtr) (owner : HeapPtr) : Result Sched := do
  let proc ← s.proc owner
  if t ∈ proc.threads then
    return s.setProc owner { proc with threads := proc.threads.erase t, threadCount := proc.threadCount - 1 }
  else return s

def threadDestroy (s : Sched) (t : ThreadPtr) : Result Sched := do
  let s := schedRemove s t
  let thread ← s.thread t
  let s ←
    match thread.owner with
    | none => .ok s
    | some owner => unlinkThread s t owner
  return s.freeThread t

/-- The loop of `reap_zombies` over the list `zombies`. -/
def reapThreads (s : Sched) : List ThreadPtr → Result Sched
  | [] => .ok s
  | z :: zombies => do
    let s ← threadDestroy { s with zombies := zombies } z
    reapThreads s zombies

def reapZombies (s : Sched) : Result Sched := reapThreads s s.zombies

/-- The loop of `process_reap_zombies`; it returns the processes that stay in the list. -/
def reapProcs (s : Sched) : List HeapPtr → Result (List HeapPtr × Sched)
  | [] => .ok ([], s)
  | cur :: next => do
    let proc ← s.proc cur
    if proc.threadCount = 0 then
      let s ← destroySpace s proc.space
      reapProcs (s.freeProc cur) next
    else
      let (kept, s) ← reapProcs s next
      return (cur :: kept, s)

def processReapZombies (s : Sched) : Result Sched := do
  let (kept, s) ← reapProcs s s.procZombies
  return { s with procZombies := kept }

/-- The end of `sched_yield` that switches to another thread. -/
def switchTo (s : Sched) (next : ThreadPtr) : Result Sched := do
  let thread ← s.thread next
  let s := s.setThread next { thread with state := .running }
  if next = s.current then return s
  else
    let s := { s with switchCount := wrap64 (s.switchCount + 1), current := next }
    match thread.owner with
    | none => return s
    | some owner =>
      let proc ← s.proc owner
      match proc.space with
      | none => return s
      | some space => vmmSpaceActivate s space

/-- The part of `sched_yield` that picks the next thread. -/
def pickNext (s : Sched) (prev : Thread) : Result Sched :=
  match qPop s.readyQ with
  | (some next, readyQ) => switchTo { s with readyQ := readyQ } next
  | (none, readyQ) =>
    if some s.current = s.idleThread ∧ prev.state = .running then .ok { s with readyQ := readyQ }
    else
      match s.idleThread with
      | none => .ok { s with readyQ := readyQ }
      | some idle => switchTo { s with readyQ := readyQ } idle

def schedYield (s : Sched) : Result Sched :=
  if !s.enabled then .ok s
  else do
    let s ← reapZombies s
    let s ← processReapZombies s
    let prev ← s.thread s.current
    if prev.state = .dead then pickNext { s with zombies := s.current :: s.zombies } prev
    else if prev.state = .running ∧ some s.current ≠ s.idleThread then
      if qEmpty s.readyQ then return s
      else
        let s := s.setThread s.current { prev with state := .ready }
        pickNext { s with readyQ := qPush s.readyQ s.current } { prev with state := .ready }
    else pickNext s prev

def schedTick (s : Sched) : Result Sched :=
  if !s.enabled then .ok s
  else
    let s := { s with ticks := wrap64 (s.ticks + 1) }
    if s.ticks % quantum = 0 then schedYield s else .ok s

def schedStart (s : Sched) : Result Sched := do
  let s := { s with enabled := true }
  let bootstrap ← s.thread .bootstrap
  schedYield (s.setThread .bootstrap { bootstrap with state := .blocked })

end DoccrOS.Proc
