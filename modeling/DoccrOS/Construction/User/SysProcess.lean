import DoccrOS.Construction.Proc.Process

namespace DoccrOS.User
open Lib Mem Proc

/-- The registers of `cpu_state_t` that the system calls use. -/
structure CpuState where
  rax : Nat
  rdi : Nat
  rsi : Nat
  rdx : Nat
  r10 : Nat
deriving DecidableEq, Repr

/-- The last address of the user half. -/
def userTop : Nat := 0x00007FFFFFFFFFFF

def processGetCurrent (s : Sched) : Result (Option HeapPtr) := do
  let t ← s.thread s.current
  return t.owner

/-- The call ignores the exit code in its argument. -/
def sysExit (s : Sched) (_ : CpuState) : Result Sched := threadExit s

/-- This is `(exit_code & 0xFF) << 8`. -/
def waitStatus (exitCode : Int) : Int := exitCode % 256 * 256

/-- The call returns the registers and the store to `wstatus_ptr`, if there is one. -/
def sysWaitpid (s : Sched) (state : CpuState) : Result (CpuState × Option (Nat × Int) × Sched) := do
  match ← processGetCurrent s with
  | none => return ({ state with rax := minusOne }, none, s)
  | some _ =>
    match ← processWaitpid s state.rdi with
    | (none, s) => return ({ state with rax := minusOne }, none, s)
    | (some exitCode, s) =>
      let stored := if state.rsi ≠ 0 ∧ state.rsi ≤ userTop then some (state.rsi, waitStatus exitCode) else none
      return ({ state with rax := state.rdi }, stored, s)

end DoccrOS.User
