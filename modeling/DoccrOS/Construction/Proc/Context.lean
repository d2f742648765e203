import DoccrOS.Construction.Types
import DoccrOS.Lib.Cpu
import Mathlib.Order.CompletePartialOrder

namespace DoccrOS.Proc
open Lib

/-- The addresses of the code and the data that the assembly files name, with the addresses behind their calls. -/
structure Symbols where
  threadTrampoline : Word
  trampolineBack : Word
  threadExit : Word
  exitBack : Word
  userThreadTrampoline : Word
  userBack : Word
  archEnterUsermode : Word
  syscallScratch : Word
  syscallDispatch : Word
  syscallBack : Word
  forkChildReturn : Word
  irqHandler : Word
  irqBack : Word
  isrHandler : Word
  isrBack : Word
  syscallEntry : Word

def contextSwitch : List Instr :=
  [.pushfq, .cli, .push (.reg .rbp), .push (.reg .rbx), .push (.reg .r12), .push (.reg .r13), .push (.reg .r14),
    .push (.reg .r15),
    .mov (.based .rdi 0) (.reg .rsp), .mov (.reg .rsp) (.reg .rsi),
    .pop .r15, .pop .r14, .pop .r13, .pop .r12, .pop .rbx, .pop .rbp, .popfq, .ret]

/-- The code up to the call of the thread function. -/
def threadTrampoline (symbols : Symbols) : List Instr :=
  [.sti, .mov (.reg .rdi) (.reg .r13), .call (.reg .r12) symbols.trampolineBack]

/-- The code behind the thread function. The loop `.hang` behind `thread_exit` is not reached. -/
def threadTrampolineEnd (symbols : Symbols) : List Instr := [.call (.imm symbols.threadExit) symbols.exitBack]

def userThreadTrampoline (symbols : Symbols) : List Instr :=
  [.mov (.reg .rdi) (.reg .r12), .mov (.reg .rsi) (.reg .r14), .mov (.reg .rdx) (.reg .r13),
    .call (.imm symbols.archEnterUsermode) symbols.userBack]

def archEnterUsermode : List Instr :=
  [.cli, .mov (.reg .rax) (.reg .rdi), .mov (.reg .rcx) (.reg .rsi), .mov (.reg .rdi) (.reg .rdx),
    .mov (.reg .r11) (.imm 0x1B),
    .push (.imm 0x1B), .push (.reg .rcx), .pushfq, .pop .r11, .or .r11 0x200, .push (.reg .r11), .push (.imm 0x23),
    .push (.reg .rax), .iretq]

/-- The registers in the order in which the stubs push them. -/
def stubRegs : List Reg := [.rax, .rbx, .rcx, .rdx, .rsi, .rdi, .rbp, .r8, .r9, .r10, .r11, .r12, .r13, .r14, .r15]

def pushStubRegs : List Instr := stubRegs.map fun r => .push (.reg r)

def popStubRegs : List Instr := stubRegs.reverse.map .pop

/-- The call of a handler with the frame. -/
def callHandler (handler back : Word) : List Instr := [.mov (.reg .rdi) (.reg .rsp), .call (.imm handler) back]

/-- The numbers of the frame that `syscall_entry` pushes in the place of the processor. -/
def pushSyscallNumbers (symbols : Symbols) : List Instr :=
  [.push (.imm 0x1b), .push (.absolute (symbols.syscallScratch + 0)), .push (.reg .r11), .push (.imm 0x23),
    .push (.reg .rcx), .push (.imm 0), .push (.imm 57)]

/-- The code of `syscall_entry` up to the call of `syscall_dispatch`. -/
def syscallEntry (symbols : Symbols) : List Instr :=
  [.mov (.absolute (symbols.syscallScratch + 0)) (.reg .rsp), .mov (.reg .rsp) (.absolute (symbols.syscallScratch + 8))] ++
  pushSyscallNumbers symbols ++ pushStubRegs ++ callHandler symbols.syscallDispatch symbols.syscallBack

/-- The code of `syscall_entry` behind the call of `syscall_dispatch`. -/
def syscallReturn : List Instr :=
  popStubRegs ++ [.add .rsp 16, .pop .rcx, .add .rsp 8, .pop .r11, .cli, .mov (.reg .rsp) (.based .rsp 0), .sysret]

/-- The machine registers that `syscall_enable` writes. -/
def syscallEnable (symbols : Symbols) : SyscallMsrs where
  star := (0x08 <<< 32) ||| (((0x18 - 8) ||| 3) <<< 48)
  lstar := symbols.syscallEntry
  sfmask := 1 <<< 9

/-- A stub with the code common to its family, up to the call of the handler. The processor has pushed the error code of some
exceptions. -/
def trapStub (hasError : Bool) (vector handler back : Word) : List Instr :=
  (if hasError then [] else [.push (.imm 0)]) ++ [.push (.imm vector)] ++ pushStubRegs ++ callHandler handler back

/-- The stubs `ISR_ERRCODE`. -/
def isrHasError (vector : Nat) : Bool := [8, 10, 11, 12, 13, 14, 17, 30].contains vector

def isrStub (symbols : Symbols) (vector : Nat) : List Instr :=
  trapStub (isrHasError vector) (BitVec.ofNat 64 vector) symbols.isrHandler symbols.isrBack

def irqStub (symbols : Symbols) (vector : Nat) : List Instr :=
  trapStub false (BitVec.ofNat 64 vector) symbols.irqHandler symbols.irqBack

def isr128 (symbols : Symbols) : List Instr := trapStub false 128 symbols.syscallDispatch symbols.syscallBack

/-- The code behind the call of the handler, which `isr_common_stub`, `irq_common_stub` and `syscall_common_stub` share. -/
def trapReturn : List Instr := popStubRegs ++ [.add .rsp 16, .iretq]

/-- A saved register of the user in `cpu_state_t` and in the fields `fork_user_*` of `thread_t`. -/
inductive UserReg where
  | gpr (r : Reg)
  | rip
  | rflags
deriving DecidableEq

/-- The fields of `thread_t` with the size and the alignment of each. The saved registers of a fork stand in one list. -/
inductive ThreadField where
  | tid | name | state | rsp | stackBase | stackSize | isUser | kstackTop
  | forkUser (r : UserReg)
  | owner | procNext | schedNext
deriving DecidableEq

/-- The fields `fork_user_*` in the order of `thread_t`. -/
def forkUserRegs : List UserReg :=
  [.gpr .r15, .gpr .r14, .gpr .r13, .gpr .r12, .gpr .r11, .gpr .r10, .gpr .r9, .gpr .r8, .gpr .rbp, .gpr .rdi, .gpr .rsi,
    .gpr .rdx, .gpr .rcx, .gpr .rbx, .gpr .rax, .rip, .rflags, .gpr .rsp]

def threadFields : List (ThreadField × Nat × Nat) :=
  [(.tid, 8, 8), (.name, 32, 1), (.state, 4, 4), (.rsp, 8, 8), (.stackBase, 8, 8), (.stackSize, 8, 8), (.isUser, 4, 4),
    (.kstackTop, 8, 8)] ++
  forkUserRegs.map (fun r => (.forkUser r, 8, 8)) ++ [(.owner, 8, 8), (.procNext, 8, 8), (.schedNext, 8, 8)]

/-- The offset of a field by the layout rule of C: each field stands at the next multiple of its alignment. -/
def fieldOffset (field : ThreadField) : List (ThreadField × Nat × Nat) → Nat → Nat
  | [], offset => offset
  | (other, size, align) :: fields, offset =>
    let here := (offset + align - 1) / align * align
    if other = field then here else fieldOffset field fields (here + size)

/-- The address of a field of the thread at an address. -/
def threadField (thread : Word) (field : ThreadField) : Word := thread + BitVec.ofNat 64 (fieldOffset field threadFields 0)

/-- The constants `FORK_*` of `syscall.asm`. -/
def forkOffset : UserReg → Word
  | .gpr .r15 => 88
  | .gpr .r14 => 96
  | .gpr .r13 => 104
  | .gpr .r12 => 112
  | .gpr .r11 => 120
  | .gpr .r10 => 128
  | .gpr .r9 => 136
  | .gpr .r8 => 144
  | .gpr .rbp => 152
  | .gpr .rdi => 160
  | .gpr .rsi => 168
  | .gpr .rdx => 176
  | .gpr .rcx => 184
  | .gpr .rbx => 192
  | .gpr .rax => 200
  | .rip => 208
  | .rflags => 216
  | .gpr .rsp => 224

/-- A load of a saved register of the child, whose `thread_t` is in `r15`. -/
def forkLoad (dst : Reg) (r : UserReg) : Instr := .mov (.reg dst) (.based .r15 (forkOffset r))

def forkChildReturn : List Instr :=
  [forkLoad .rcx .rip, forkLoad .r11 .rflags, forkLoad .rsp (.gpr .rsp), forkLoad .rax (.gpr .rax), forkLoad .rbx (.gpr .rbx),
    forkLoad .rdx (.gpr .rdx), forkLoad .rsi (.gpr .rsi), forkLoad .rdi (.gpr .rdi), forkLoad .rbp (.gpr .rbp),
    forkLoad .r8 (.gpr .r8), forkLoad .r9 (.gpr .r9), forkLoad .r10 (.gpr .r10), forkLoad .r12 (.gpr .r12),
    forkLoad .r13 (.gpr .r13), forkLoad .r14 (.gpr .r14), forkLoad .r15 (.gpr .r15), .sysret]

/-- The offset of a register in `cpu_state_t`, which is packed. -/
def stateOffset : UserReg → Word
  | .gpr .r15 => 0
  | .gpr .r14 => 8
  | .gpr .r13 => 16
  | .gpr .r12 => 24
  | .gpr .r11 => 32
  | .gpr .r10 => 40
  | .gpr .r9 => 48
  | .gpr .r8 => 56
  | .gpr .rbp => 64
  | .gpr .rdi => 72
  | .gpr .rsi => 80
  | .gpr .rdx => 88
  | .gpr .rcx => 96
  | .gpr .rbx => 104
  | .gpr .rax => 112
  | .rip => 136
  | .rflags => 152
  | .gpr .rsp => 160

/-- This is `INITIAL_RFLAGS`. -/
def initialRflags : Word := 0x2

/-- The stores `*(--sp) = value`, which return the last `sp`. -/
def storeDown (mem : Word → Word) (sp : Word) : List Word → Word × (Word → Word)
  | [] => (sp, mem)
  | value :: values => storeDown (Function.update mem (sp - 8) value) (sp - 8) values

/-- The stack of a new thread of the kernel, of a user thread and of a forked child. -/
inductive NewThread where
  | kernel (entry arg : Word)
  | user (entry arg userStackTop : Word)
  | forked (frame : Word)

/-- The values that `thread_create`, `thread_create_user` and `process_fork` store on the new stack. -/
def NewThread.values (symbols : Symbols) (thread : Word) : NewThread → List Word
  | .kernel entry arg => [symbols.threadTrampoline, initialRflags, 0, 0, entry, arg, 0, 0]
  | .user entry arg userStackTop => [symbols.userThreadTrampoline, initialRflags, 0, 0, entry, arg, userStackTop, 0]
  | .forked _ => [symbols.forkChildReturn, 0x202, 0, 0, 0, 0, 0, thread]

/-- The loads of `process_fork` from the frame of the parent and its stores to the thread of the child. -/
def forkStores (mem : Word → Word) (thread frame : Word) : Word → Word :=
  forkUserRegs.foldl (fun mem' r => Function.update mem' (threadField thread (.forkUser r))
    (if r = .gpr .rax then 0 else mem' (frame + stateOffset r))) mem

/-- The stores of the creation of a thread with the stack that ends at `top`. -/
def NewThread.create (symbols : Symbols) (mem : Word → Word) (thread top : Word) (new : NewThread) : Word → Word :=
  let mem :=
    match new with
    | .forked frame => forkStores mem thread frame
    | _ => mem
  let (sp, mem) := storeDown mem top (new.values symbols thread)
  Function.update mem (threadField thread .rsp) sp

/-- Where the threads have their stacks and their `thread_t`. -/
structure StackLayout (T : Type) where
  base : T → Nat
  top : T → Nat
  thread : T → Word

variable {T : Type}

/-- The cell of `t->rsp`. -/
def StackLayout.slot (layout : StackLayout T) (t : T) : Word := threadField (layout.thread t) .rsp

/-- The cell lies in the stack of the thread. -/
def StackLayout.inStack (layout : StackLayout T) (t : T) (address : Word) : Prop :=
  layout.base t ≤ address.toNat ∧ address.toNat < layout.top t

/-- The cells that only the thread itself, its creation and `context_switch` write: its stack and its saved registers. -/
def StackLayout.own (layout : StackLayout T) (t : T) : Set Word :=
  {address | layout.inStack t address ∨ address = layout.slot t ∨
    ∃ r ∈ forkUserRegs, address = threadField (layout.thread t) (.forkUser r)}

/-- The processor with the thread that runs, and what each of the others will see when it goes on. -/
structure Contexts (T : Type) where
  cpu : Cpu
  current : T
  saved : T → Option Cpu

/-- What happens between two switches: code of the current thread, the creation and the end of other threads. -/
inductive ContextOp (T : Type) where
  | work (cpu : Cpu)
  | create (t : T) (new : NewThread)
  | destroy (t : T)
  | switch (next : T) (back : Word)

/-- What a new thread sees when it starts: the values of its stack in the registers. -/
def NewThread.context (symbols : Symbols) (thread top : Word) (cpu : Cpu) (new : NewThread) : Cpu :=
  let values := new.values symbols thread
  { cpu with
    reg := fun r =>
      match r with
      | .rbp => values.getD 2 0
      | .rbx => values.getD 3 0
      | .r12 => values.getD 4 0
      | .r13 => values.getD 5 0
      | .r14 => values.getD 6 0
      | .r15 => values.getD 7 0
      | .rsp => top
      | other => cpu.reg other
    rip := values.getD 0 0
    rflags := values.getD 1 0
    mem := new.create symbols cpu.mem thread top }

variable [DecidableEq T]

/-- A switch is the call of `context_switch`, which returns to `back`. -/
def Contexts.step (layout : StackLayout T) (symbols : Symbols) (msrs : SyscallMsrs) (status : Word → Word) (s : Contexts T) :
    ContextOp T → Except Unit (Contexts T)
  | .work cpu => .ok { s with cpu := cpu }
  | .create t new =>
    let top := BitVec.ofNat 64 (layout.top t)
    .ok { s with
      cpu := { s.cpu with mem := new.create symbols s.cpu.mem (layout.thread t) top }
      saved := Function.update s.saved t (some (new.context symbols (layout.thread t) top s.cpu)) }
  | .destroy t => .ok { s with saved := Function.update s.saved t none }
  | .switch next back => .ok
    { cpu := Cpu.exec msrs status contextSwitch (s.cpu.push back)
      current := next
      saved := Function.update (Function.update s.saved s.current (some { s.cpu with rip := back })) next none }

/-- The thread runs, or it is switched out. -/
def Contexts.lives (s : Contexts T) (t : T) : Prop := t = s.current ∨ (s.saved t).isSome = true

/-- The code of a thread leaves the cells of the others alone. A thread is created on cells that belong to no other one, a
running thread is not destroyed, and `sched_yield` calls `context_switch(&prev->rsp, next->rsp)` on the stack of the current
thread. -/
def Contexts.allowed (layout : StackLayout T) (s : Contexts T) : ContextOp T → Prop
  | .work cpu => ∀ t, (s.saved t).isSome = true → ∀ address ∈ layout.own t, cpu.mem address = s.cpu.mem address
  | .create t _ => ¬s.lives t ∧ ∀ u, s.lives u → Disjoint (layout.own t) (layout.own u)
  | .destroy t => t ≠ s.current
  | .switch next _ => next ≠ s.current ∧ (s.saved next).isSome = true ∧ s.cpu.reg .rdi = layout.slot s.current ∧
      s.cpu.reg .rsi = s.cpu.mem (layout.slot next) ∧ s.cpu.rsp.toNat % 8 = 0 ∧
      layout.base s.current + 64 ≤ s.cpu.rsp.toNat ∧ s.cpu.rsp.toNat ≤ layout.top s.current

end DoccrOS.Proc
