import Mathlib.Tactic

namespace DoccrOS.Lib

inductive Reg where
  | rax | rbx | rcx | rdx | rsi | rdi | rbp | rsp | r8 | r9 | r10 | r11 | r12 | r13 | r14 | r15
deriving DecidableEq, Repr

/-- A processor of the x86-64 family in long mode. The memory is a map of cells of eight bytes, which stand at aligned
addresses. -/
structure Cpu where
  reg : Reg → BitVec 64
  rip : BitVec 64
  rflags : BitVec 64
  cs : BitVec 64
  ss : BitVec 64
  mem : BitVec 64 → BitVec 64

inductive Operand where
  | reg (r : Reg)
  | imm (value : BitVec 64)
  | based (r : Reg) (offset : BitVec 64)
  | absolute (address : BitVec 64)

/-- A call names the address behind it. -/
inductive Instr where
  | push (src : Operand)
  | pop (dst : Reg)
  | mov (dst src : Operand)
  | add (dst : Reg) (value : BitVec 64)
  | or (dst : Reg) (value : BitVec 64)
  | pushfq
  | popfq
  | cli
  | sti
  | call (target : Operand) (back : BitVec 64)
  | ret
  | iretq
  | sysret

/-- The registers of the machine that a system call reads. -/
structure SyscallMsrs where
  star : BitVec 64
  lstar : BitVec 64
  sfmask : BitVec 64

/-- The interrupt flag. -/
def flagIf : BitVec 64 := 0x200

/-- The carry, parity, adjust, zero, sign and overflow flags. -/
def statusFlags : BitVec 64 := 0x8D5

/-- The flags that `sysret` loads. -/
def sysretFlags : BitVec 64 := 0x3C7FD7

namespace Cpu

def rsp (c : Cpu) : BitVec 64 := c.reg .rsp

def set (c : Cpu) (r : Reg) (value : BitVec 64) : Cpu := { c with reg := Function.update c.reg r value }

def store (c : Cpu) (address value : BitVec 64) : Cpu := { c with mem := Function.update c.mem address value }

def load (c : Cpu) : Operand → BitVec 64
  | .reg r => c.reg r
  | .imm value => value
  | .based r offset => c.mem (c.reg r + offset)
  | .absolute address => c.mem address

def assign (c : Cpu) (value : BitVec 64) : Operand → Cpu
  | .reg r => c.set r value
  | .imm _ => c
  | .based r offset => c.store (c.reg r + offset) value
  | .absolute address => c.store address value

def push (c : Cpu) (value : BitVec 64) : Cpu := (c.store (c.rsp - 8) value).set .rsp (c.rsp - 8)

def drop (c : Cpu) : Cpu := c.set .rsp (c.rsp + 8)

def top (c : Cpu) : BitVec 64 := c.mem c.rsp

/-- The status flags of a result are a parameter, of which the code reads none. -/
def withStatus (c : Cpu) (status : BitVec 64) : Cpu :=
  { c with rflags := (c.rflags &&& ~~~statusFlags) ||| (status &&& statusFlags) }

def step (msrs : SyscallMsrs) (status : BitVec 64 → BitVec 64) (c : Cpu) : Instr → Cpu
  | .push src => c.push (c.load src)
  | .pop dst => c.drop.set dst c.top
  | .mov dst src => c.assign (c.load src) dst
  | .add dst value => (c.set dst (c.reg dst + value)).withStatus (status (c.reg dst + value))
  | .or dst value => (c.set dst (c.reg dst ||| value)).withStatus (status (c.reg dst ||| value))
  | .pushfq => c.push c.rflags
  | .popfq => { c.drop with rflags := c.top }
  | .cli => { c with rflags := c.rflags &&& ~~~flagIf }
  | .sti => { c with rflags := c.rflags ||| flagIf }
  | .call target back => { c.push back with rip := c.load target }
  | .ret => { c.drop with rip := c.top }
  | .iretq =>
    { c with
      rip := c.mem c.rsp
      cs := c.mem (c.rsp + 8)
      rflags := c.mem (c.rsp + 16)
      reg := Function.update c.reg .rsp (c.mem (c.rsp + 24))
      ss := c.mem (c.rsp + 32) }
  | .sysret =>
    { c with
      rip := c.reg .rcx
      rflags := (c.reg .r11 &&& sysretFlags) ||| 2
      cs := ((msrs.star >>> 48) + 16) ||| 3
      ss := ((msrs.star >>> 48) + 8) ||| 3 }

/-- A straight line of code; only its last instruction may be a jump. -/
def exec (msrs : SyscallMsrs) (status : BitVec 64 → BitVec 64) (code : List Instr) (c : Cpu) : Cpu :=
  code.foldl (step msrs status) c

/-- The instruction `syscall`, behind which the code goes on at `next`. -/
def syscall (msrs : SyscallMsrs) (next : BitVec 64) (c : Cpu) : Cpu :=
  { c with
    reg := Function.update (Function.update c.reg .rcx next) .r11 c.rflags
    rip := msrs.lstar
    rflags := c.rflags &&& ~~~msrs.sfmask
    cs := (msrs.star >>> 32) &&& 0xFFFC
    ss := ((msrs.star >>> 32) &&& 0xFFFF) + 8 }

/-- The entry of an interrupt gate: the stack of the kernel for an interrupt of the user, five cells on an aligned stack and the
error code of some exceptions. -/
def interrupt (stackTop kernelCs gate : BitVec 64) (error : Option (BitVec 64)) (c : Cpu) : Cpu :=
  let fromUser := c.cs &&& 3 = 3
  let stack := if fromUser then stackTop else c.rsp
  let pushed := ((((c.set .rsp (stack &&& ~~~15)).push c.ss).push c.rsp).push c.rflags).push c.cs |>.push c.rip
  let pushed :=
    match error with
    | some error => pushed.push error
    | none => pushed
  { pushed with
    rip := gate
    rflags := c.rflags &&& ~~~flagIf
    cs := kernelCs
    ss := if fromUser then 0 else c.ss }

end Cpu

/-- The cells from an address on hold the values. -/
def FrameAt (mem : BitVec 64 → BitVec 64) : BitVec 64 → List (BitVec 64) → Prop
  | _, [] => True
  | sp, value :: values => mem sp = value ∧ FrameAt mem (sp + 8) values

/-- The address lies in the cells from an address on. -/
def Within (sp : BitVec 64) (count : Nat) (address : BitVec 64) : Prop :=
  sp.toNat ≤ address.toNat ∧ address.toNat < sp.toNat + 8 * count

/-- The values were pushed, the last one on top. -/
structure Pushed (c c' : Cpu) (values : List (BitVec 64)) : Prop where
  regs : ∀ r, r ≠ .rsp → c'.reg r = c.reg r
  rsp : c'.rsp = c.rsp - BitVec.ofNat 64 (8 * values.length)
  frame : FrameAt c'.mem c'.rsp values
  kept : ∀ address, ¬Within c'.rsp values.length address → c'.mem address = c.mem address

section
variable {mem mem' : BitVec 64 → BitVec 64} {sp address value : BitVec 64} {values more : List (BitVec 64)} {c c' c'' : Cpu}
  {msrs : SyscallMsrs} {status : BitVec 64 → BitVec 64} {rs : List Reg}

theorem FrameAt.congr (frame : FrameAt mem sp values) (fits : sp.toNat + 8 * values.length ≤ 2 ^ 64)
    (same : ∀ address, Within sp values.length address → mem' address = mem address) : FrameAt mem' sp values := by
  induction values generalizing sp with
  | nil => trivial
  | cons value values inductionHypothesis =>
      rw [List.length_cons] at fits same
      constructor
      · rw [← frame.1]
        apply same
        unfold Within
        omega
      · cases values with
        | nil => trivial
        | cons second rest =>
            rw [List.length_cons] at fits same
            have next : (sp + 8).toNat = sp.toNat + 8 := by bv_omega
            apply inductionHypothesis frame.2
            · rw [List.length_cons, next]
              omega
            · intro address inside
              apply same
              unfold Within at *
              rw [List.length_cons, next] at inside
              omega

theorem FrameAt.append (frame : FrameAt mem sp (values ++ more)) :
    FrameAt mem sp values ∧ FrameAt mem (sp + BitVec.ofNat 64 (8 * values.length)) more := by
  induction values generalizing sp with
  | nil =>
      change True ∧ FrameAt mem (sp + 0#64) more
      rw [BitVec.add_zero]
      exact ⟨trivial, frame⟩
  | cons value values inductionHypothesis =>
      obtain ⟨first, rest⟩ := inductionHypothesis frame.2
      refine ⟨⟨frame.1, first⟩, ?_⟩
      have same : sp + BitVec.ofNat 64 (8 * (value :: values).length) = sp + 8 + BitVec.ofNat 64 (8 * values.length) := by
        rw [List.length_cons]
        bv_omega
      rw [same]
      exact rest

theorem FrameAt.join (frame : FrameAt mem sp values) (rest : FrameAt mem (sp + BitVec.ofNat 64 (8 * values.length)) more) :
    FrameAt mem sp (values ++ more) := by
  induction values generalizing sp with
  | nil =>
      change FrameAt mem (sp + 0#64) more at rest
      rw [BitVec.add_zero] at rest
      exact rest
  | cons value values inductionHypothesis =>
      refine ⟨frame.1, inductionHypothesis frame.2 ?_⟩
      have same : sp + BitVec.ofNat 64 (8 * (value :: values).length) = sp + 8 + BitVec.ofNat 64 (8 * values.length) := by
        rw [List.length_cons]
        bv_omega
      rw [← same]
      exact rest

/-- A cell of a frame. -/
theorem FrameAt.cell (frame : FrameAt mem sp values) (i : Nat) (here : values[i]? = some value) :
    mem (sp + BitVec.ofNat 64 (8 * i)) = value := by
  induction values generalizing sp i with
  | nil => cases here
  | cons first values inductionHypothesis =>
      cases i with
      | zero =>
          change mem (sp + 0#64) = value
          rw [BitVec.add_zero, frame.1]
          exact Option.some.inj here
      | succ i =>
          have same : sp + BitVec.ofNat 64 (8 * (i + 1)) = sp + 8 + BitVec.ofNat 64 (8 * i) := by bv_omega
          rw [same]
          exact inductionHypothesis frame.2 i here

/-- One cell of a frame changes. -/
theorem FrameAt.replace {old : BitVec 64} (frame : FrameAt mem sp (values ++ old :: more))
    (fits : sp.toNat + 8 * (values.length + 1 + more.length) ≤ 2 ^ 64)
    (here : mem' (sp + BitVec.ofNat 64 (8 * values.length)) = value)
    (same : ∀ address, Within sp (values.length + 1 + more.length) address →
      address ≠ sp + BitVec.ofNat 64 (8 * values.length) → mem' address = mem address) :
    FrameAt mem' sp (values ++ value :: more) := by
  obtain ⟨below, _, above⟩ := frame.append
  apply FrameAt.join
  · apply below.congr
    · omega
    · intro address inside
      apply same
      · unfold Within at *
        omega
      · rintro rfl
        unfold Within at inside
        bv_omega
  · refine ⟨here, ?_⟩
    cases more with
    | nil => trivial
    | cons next rest =>
        rw [List.length_cons] at fits same
        apply above.congr
        · rw [List.length_cons]
          bv_omega
        · intro address inside
          unfold Within at inside
          rw [List.length_cons] at inside
          apply same
          · unfold Within
            bv_omega
          · rintro rfl
            bv_omega

@[simp] theorem set_rsp (c : Cpu) (value : BitVec 64) : (c.set .rsp value).rsp = value := by
  simp [Cpu.rsp, Cpu.set]

@[simp] theorem push_rsp (c : Cpu) (value : BitVec 64) : (c.push value).rsp = c.rsp - 8 := by
  simp [Cpu.push, Cpu.rsp, Cpu.set]

@[simp] theorem push_mem (c : Cpu) (value : BitVec 64) :
    (c.push value).mem = Function.update c.mem (c.rsp - 8) value := rfl

theorem push_reg (c : Cpu) (value : BitVec 64) {r : Reg} (other : r ≠ .rsp) : (c.push value).reg r = c.reg r :=
  Function.update_of_ne other _ _

theorem exec_append (msrs : SyscallMsrs) (status : BitVec 64 → BitVec 64) (first second : List Instr) (c : Cpu) :
    Cpu.exec msrs status (first ++ second) c = Cpu.exec msrs status second (Cpu.exec msrs status first c) :=
  List.foldl_append

/-- The facts about pushes speak of the registers and the memory. -/
theorem Pushed.of_same (pushed : Pushed c c' values) (sameReg : c''.reg = c'.reg) (sameMem : c''.mem = c'.mem) :
    Pushed c c'' values := by
  have sameSp : c''.rsp = c'.rsp := congrFun sameReg .rsp
  refine ⟨?_, sameSp.trans pushed.rsp, ?_, ?_⟩
  · intro r other
    rw [sameReg]
    exact pushed.regs r other
  · rw [sameMem, sameSp]
    exact pushed.frame
  · intro address outside
    rw [sameSp] at outside
    rw [sameMem]
    exact pushed.kept address outside

/-- A store below a frame leaves it alone. -/
theorem FrameAt.store (frame : FrameAt mem sp values) (fits : sp.toNat + 8 * values.length ≤ 2 ^ 64)
    (outside : ¬Within sp values.length address) : FrameAt (Function.update mem address value) sp values := by
  apply frame.congr fits
  intro other inside
  apply Function.update_of_ne
  rintro rfl
  exact outside inside

/-- A push puts a value on top of a frame. -/
theorem FrameAt.push (frame : FrameAt c.mem c.rsp values) (room : 8 ≤ c.rsp.toNat)
    (fits : c.rsp.toNat + 8 * values.length ≤ 2 ^ 64) : FrameAt (c.push value).mem (c.push value).rsp (value :: values) := by
  rw [push_rsp, push_mem]
  refine ⟨Function.update_self _ _ _, ?_⟩
  have back : c.rsp - 8 + 8 = c.rsp := BitVec.sub_add_cancel _ _
  rw [back]
  apply frame.store fits
  unfold Within
  bv_omega

/-- The return of an interrupt takes five cells from the stack. -/
theorem iretq_frame {rip cs rflags rsp ss : BitVec 64} (frame : FrameAt c.mem c.rsp [rip, cs, rflags, rsp, ss]) :
    Cpu.step msrs status c .iretq = { c with
      reg := Function.update c.reg .rsp rsp
      rip := rip
      rflags := rflags
      cs := cs
      ss := ss } := by
  obtain ⟨first, second, third, fourth, fifth, _⟩ := frame
  have at16 : c.rsp + 8 + 8 = c.rsp + 16 := by bv_omega
  have at24 : c.rsp + 8 + 8 + 8 = c.rsp + 24 := by bv_omega
  have at32 : c.rsp + 8 + 8 + 8 + 8 = c.rsp + 32 := by bv_omega
  rw [at16] at third
  rw [at24] at fourth
  rw [at32] at fifth
  rw [Cpu.step, first, second, third, fourth, fifth]

theorem Pushed.nil (c : Cpu) : Pushed c c [] := by
  refine ⟨fun _ _ => rfl, ?_, trivial, fun _ _ => rfl⟩
  change c.rsp = c.rsp - 0#64
  rw [BitVec.sub_zero]

/-- A push on top of others. -/
theorem Pushed.push (pushed : Pushed c c' values) (room : 8 * (values.length + 1) ≤ c.rsp.toNat) (value : BitVec 64) :
    Pushed c (c'.push value) (value :: values) := by
  have here := pushed.rsp
  refine ⟨?_, ?_, ?_, ?_⟩
  · intro r other
    rw [← pushed.regs r other]
    exact push_reg c' value other
  · rw [push_rsp, here, List.length_cons]
    bv_omega
  · apply pushed.frame.push
    · rw [here]
      bv_omega
    · rw [here]
      bv_omega
  · intro address outside
    rw [push_rsp, List.length_cons] at outside
    rw [push_mem, Function.update_of_ne, pushed.kept]
    · intro inside
      apply outside
      unfold Within at *
      rw [here] at inside ⊢
      bv_omega
    · rintro rfl
      apply outside
      unfold Within
      omega

/-- The registers are pushed in the order of the list. -/
theorem Pushed.regs_pushed (pushed : Pushed c c' values) (notSp : .rsp ∉ rs)
    (room : 8 * (values.length + rs.length) ≤ c.rsp.toNat) :
    Pushed c (Cpu.exec msrs status (rs.map fun r => .push (.reg r)) c') ((rs.map c.reg).reverse ++ values) := by
  induction rs generalizing c' values with
  | nil => exact pushed
  | cons r rs inductionHypothesis =>
      rw [List.length_cons] at room
      have notFirst : r ≠ .rsp := fun same => notSp (same ▸ List.mem_cons_self)
      have next := pushed.push (by omega) (c.reg r)
      have sameValue : c'.reg r = c.reg r := pushed.regs r notFirst
      rw [← sameValue] at next
      have rest := inductionHypothesis next (fun member => notSp (List.mem_cons_of_mem r member)) (by
        rw [List.length_cons]
        omega)
      rw [sameValue] at rest
      rw [List.map_cons, List.map_cons, List.reverse_cons, List.append_assoc, ← sameValue]
      rw [← sameValue] at rest
      exact rest

/-- The registers that a list of pops takes from the stack. -/
def popped (rs : List Reg) (f : Reg → BitVec 64) (c : Cpu) : Cpu :=
  { c with reg := fun r => if r ∈ rs then f r else if r = .rsp then c.rsp + BitVec.ofNat 64 (8 * rs.length) else c.reg r }

/-- The registers are popped from the cells that hold their values. -/
theorem exec_pops {f : Reg → BitVec 64} (frame : FrameAt c.mem c.rsp (rs.map f)) (notSp : .rsp ∉ rs) :
    Cpu.exec msrs status (rs.map .pop) c = popped rs f c := by
  induction rs generalizing c with
  | nil =>
      unfold popped
      have same (r : Reg) : c.reg r =
          if r ∈ ([] : List Reg) then f r
          else if r = .rsp then c.rsp + BitVec.ofNat 64 (8 * ([] : List Reg).length) else c.reg r := by
        rw [if_neg List.not_mem_nil]
        split
        · rename_i isSp
          rw [isSp]
          exact (BitVec.add_zero c.rsp).symm
        · rfl
      rw [← funext same]
      rfl
  | cons r rs inductionHypothesis =>
      obtain ⟨first, rest⟩ := frame
      have notFirst : r ≠ .rsp := fun same => notSp (same ▸ List.mem_cons_self)
      have behind : (c.drop.set r c.top).rsp = c.rsp + 8 := by
        simp [Cpu.drop, Cpu.set, Cpu.rsp, Function.update_of_ne (Ne.symm notFirst)]
      have isTop : c.top = f r := first
      have later : Cpu.exec msrs status (rs.map .pop) (c.drop.set r c.top) = popped rs f (c.drop.set r c.top) := by
        apply inductionHypothesis _ fun member => notSp (List.mem_cons_of_mem r member)
        rw [behind]
        exact rest
      change Cpu.exec msrs status (rs.map .pop) (c.drop.set r c.top) = _
      rw [later]
      unfold popped
      rw [behind]
      congr 1
      funext other
      have moved : c.rsp + 8 + BitVec.ofNat 64 (8 * rs.length) = c.rsp + BitVec.ofNat 64 (8 * (r :: rs).length) := by
        rw [List.length_cons]
        bv_omega
      rw [moved]
      by_cases isFirst : other = r
      · rw [isFirst, if_pos List.mem_cons_self, if_neg notFirst]
        split
        · rfl
        · simp [Cpu.set, isTop]
      · have same : other ∈ r :: rs ↔ other ∈ rs := by simp [isFirst]
        by_cases member : other ∈ rs
        · rw [if_pos member, if_pos (same.mpr member)]
        · rw [if_neg member, if_neg fun inside => member (same.mp inside)]
          split
          · rfl
          · rename_i notSp'
            simp [Cpu.set, Cpu.drop, Function.update_of_ne isFirst, Function.update_of_ne notSp']

end

end DoccrOS.Lib
