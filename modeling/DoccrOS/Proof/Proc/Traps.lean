import DoccrOS.Proof.Proc.NewThreads

namespace DoccrOS.Proc
open Lib

/-- The cells of `cpu_state_t`, from the lowest address on. -/
def trapFrame (regs : Reg → Word) (vector error rip cs rflags rsp ss : Word) : List Word :=
  stubRegs.reverse.map regs ++ [vector, error, rip, cs, rflags, rsp, ss]

/-- The frame of the interrupted code. -/
def cpuState (k : Cpu) (vector error : Word) : List Word := trapFrame k.reg vector error k.rip k.cs k.rflags k.rsp k.ss

/-- The stack on which an interrupt pushes. -/
def trapStack (stackTop : Word) (k : Cpu) : Word := (if k.cs &&& 3 = 3 then stackTop else k.rsp) &&& ~~~15

section
variable {c c' k : Cpu} {symbols : Symbols} {msrs : SyscallMsrs} {status : Word → Word} {hasError : Bool}
  {vector handler back stackTop kernelCs gate rip cs rflags rsp ss v e : Word} {error : Option Word} {values : List Word}
  {regs : Reg → Word}

theorem mem_stubRegs {r : Reg} (other : r ≠ .rsp) : r ∈ stubRegs.reverse := by
  revert other
  cases r <;> decide

/-- The processor pushes the state of the interrupted code. -/
theorem interrupt_pushes (room : 48 ≤ (trapStack stackTop k).toNat) :
    Pushed (k.set .rsp (trapStack stackTop k)) (k.interrupt stackTop kernelCs gate error)
      (error.toList ++ [k.rip, k.cs, k.rflags, k.rsp, k.ss]) := by
  obtain ⟨c, isBase⟩ : ∃ c, c = k.set .rsp (trapStack stackTop k) := ⟨_, rfl⟩
  have isSp : c.rsp = trapStack stackTop k := by
    rw [isBase]
    exact set_rsp k _
  rw [← isSp] at room
  have five := ((((Pushed.nil c).push (by change 8 * 1 ≤ _; omega) k.ss).push (by change 8 * 2 ≤ _; omega) k.rsp).push
    (by change 8 * 3 ≤ _; omega) k.rflags).push (by change 8 * 4 ≤ _; omega) k.cs |>.push (by change 8 * 5 ≤ _; omega) k.rip
  rw [← isBase]
  cases error with
  | none =>
      apply five.of_same
      · rw [isBase]
        rfl
      · rw [isBase]
        rfl
  | some error =>
      apply (five.push (by change 8 * 6 ≤ _; omega) error).of_same
      · rw [isBase]
        rfl
      · rw [isBase]
        rfl

/-- The registers of a stub are pushed on what stands there. -/
theorem pushStubRegs_pushes (pushed : Pushed c c' values) (room : 8 * (values.length + 15) ≤ c.rsp.toNat) :
    Pushed c (c'.exec msrs status pushStubRegs) (stubRegs.reverse.map c.reg ++ values) := by
  rw [List.map_reverse]
  exact pushed.regs_pushed (by decide) room

/-- The last two instructions of a stub give the handler the frame. -/
theorem callHandler_pushes (pushed : Pushed c c' values) (room : 8 * (values.length + 1) ≤ c.rsp.toNat) :
    let c'' := c'.exec msrs status (callHandler handler back)
    FrameAt c''.mem c''.rsp (back :: values) ∧ c''.rsp = c.rsp - BitVec.ofNat 64 (8 * (values.length + 1)) ∧
      (∀ address, ¬Within c''.rsp (values.length + 1) address → c''.mem address = c.mem address) ∧
      c''.rip = handler ∧ c''.reg .rdi = c''.rsp + 8 := by
  have called := pushed.push room back
  intro c''
  have sameMem : c''.mem = (c'.push back).mem := rfl
  have sameSp : c''.rsp = (c'.push back).rsp := rfl
  rw [sameMem, sameSp]
  refine ⟨called.frame, called.rsp, called.kept, rfl, ?_⟩
  rw [push_rsp]
  exact (BitVec.sub_add_cancel c'.rsp 8).symm

/-- A trap pushes the frame of the interrupted code. -/
theorem trapStub_pushes (isError : error.isSome = hasError) (room : 184 ≤ (trapStack stackTop k).toNat) :
    let c := (k.interrupt stackTop kernelCs gate error).exec msrs status (trapStub hasError vector handler back)
    FrameAt c.mem c.rsp (back :: cpuState k vector (error.getD 0)) ∧ c.rsp = trapStack stackTop k - 184 ∧
      (∀ address, ¬Within c.rsp 23 address → c.mem address = k.mem address) ∧ c.rip = handler ∧ c.reg .rdi = c.rsp + 8 := by
  have pushed : Pushed (k.set .rsp (trapStack stackTop k)) (k.interrupt stackTop kernelCs gate error) _ :=
    interrupt_pushes (by omega)
  obtain ⟨sp, isStack⟩ : ∃ sp, sp = trapStack stackTop k := ⟨_, rfl⟩
  rw [← isStack] at pushed room ⊢
  have isSp := set_rsp k sp
  have numbered : Pushed (k.set .rsp (sp))
      ((k.interrupt stackTop kernelCs gate error).exec msrs status
        ((if hasError then [] else [.push (.imm 0)]) ++ [.push (.imm vector)]))
      ([vector, error.getD 0, k.rip, k.cs, k.rflags, k.rsp, k.ss]) := by
    subst hasError
    cases error with
    | none =>
        apply ((pushed.push _ 0).push _ vector).of_same rfl rfl
        · rw [isSp]
          change 8 * 6 ≤ _
          omega
        · rw [isSp]
          change 8 * 7 ≤ _
          omega
    | some error =>
        apply (pushed.push _ vector).of_same rfl rfl
        rw [isSp]
        change 8 * 7 ≤ _
        omega
  have saved : Pushed (k.set .rsp (sp)) _ _ := @pushStubRegs_pushes _ _ msrs status _ numbered (by
    rw [isSp]
    change 8 * 22 ≤ _
    omega)
  rw [← exec_append] at saved
  intro c
  have isState : c = _ := exec_append msrs status _ (callHandler handler back) _
  obtain ⟨frame, moved, kept, jump, arg⟩ := @callHandler_pushes _ _ msrs status handler back _ saved (by
    rw [isSp]
    change 8 * 23 ≤ _
    omega)
  rw [isState]
  rw [isSp] at moved
  exact ⟨frame, moved, kept, jump, arg⟩

/-- The common code of the traps restores the whole state of the interrupted code. -/
theorem trapReturn_restores (frame : FrameAt c.mem c.rsp (cpuState k v e)) :
    c.exec msrs status trapReturn = { k with mem := c.mem } := by
  obtain ⟨saved, numbers⟩ := frame.append
  have pops : c.exec msrs status popStubRegs = popped stubRegs.reverse k.reg c := exec_pops saved (by decide)
  rw [trapReturn, exec_append, pops]
  obtain ⟨c₁, isPopped⟩ : ∃ c₁, c₁ = (popped stubRegs.reverse k.reg c).exec msrs status [.add .rsp 16] := ⟨_, rfl⟩
  have sameMem : c₁.mem = c.mem := by
    rw [isPopped]
    rfl
  have regs₁ (r : Reg) (other : r ≠ .rsp) : c₁.reg r = k.reg r := by
    have kept : c₁.reg r = (popped stubRegs.reverse k.reg c).reg r := by
      rw [isPopped]
      exact Function.update_of_ne other _ _
    rw [kept]
    exact if_pos (mem_stubRegs other)
  have atFrame : c₁.rsp = c.rsp + BitVec.ofNat 64 (8 * 15) + 8 + 8 := by
    have moved : c₁.rsp = c.rsp + BitVec.ofNat 64 (8 * 15) + 16 := by
      rw [isPopped]
      rfl
    rw [moved]
    bv_omega
  have frame' : FrameAt c₁.mem c₁.rsp [k.rip, k.cs, k.rflags, k.rsp, k.ss] := by
    rw [sameMem, atFrame]
    exact numbers.2.2
  have sameRegs : Function.update c₁.reg .rsp k.rsp = k.reg := by
    funext r
    by_cases isSp : r = .rsp
    · rw [isSp]
      exact Function.update_self Reg.rsp k.rsp c₁.reg
    · rw [Function.update_of_ne isSp]
      exact regs₁ r isSp
  have split : (popped stubRegs.reverse k.reg c).exec msrs status [.add .rsp 16, .iretq] = c₁.step msrs status .iretq := by
    rw [isPopped]
    rfl
  rw [split, iretq_frame frame', sameRegs, sameMem]

/-- The frame of a system call: `syscall` has put the address behind it in `rcx` and the flags in `r11`. -/
def syscallFrame (k : Cpu) (next : Word) : List Word :=
  trapFrame (fun r => if r = .rcx then next else if r = .r11 then k.rflags else k.reg r) 57 0 next 0x23 k.rflags k.rsp 0x1B

/-- The code of `syscall_entry` pushes the frame on the stack of the kernel. -/
theorem syscallEntry_pushes {next : Word} (top : k.mem (symbols.syscallScratch + 8) = stackTop) (room : 184 ≤ stackTop.toNat)
    (outside : ¬Within (stackTop - 184) 23 symbols.syscallScratch) :
    let c := (k.syscall msrs next).exec msrs status (syscallEntry symbols)
    FrameAt c.mem c.rsp (symbols.syscallBack :: syscallFrame k next) ∧ c.rsp = stackTop - 184 ∧
      (∀ address, ¬Within c.rsp 23 address → address ≠ symbols.syscallScratch → c.mem address = k.mem address) ∧
      c.rip = symbols.syscallDispatch ∧ c.reg .rdi = c.rsp + 8 := by
  have sameScratch : symbols.syscallScratch + 0 = symbols.syscallScratch := BitVec.add_zero _
  obtain ⟨c₁, isSwitched⟩ : ∃ c₁, c₁ = ((k.syscall msrs next).store (symbols.syscallScratch + 0) k.rsp).set .rsp stackTop := ⟨_, rfl⟩
  have switched : (k.syscall msrs next).exec msrs status
      [.mov (.absolute (symbols.syscallScratch + 0)) (.reg .rsp),
        .mov (.reg .rsp) (.absolute (symbols.syscallScratch + 8))] = c₁ := by
    have other : symbols.syscallScratch + 8 ≠ symbols.syscallScratch + 0 := by bv_omega
    have isTop : ((k.syscall msrs next).store (symbols.syscallScratch + 0) k.rsp).mem (symbols.syscallScratch + 8) = stackTop :=
      (Function.update_of_ne other _ _).trans top
    rw [isSwitched, ← isTop]
    rfl
  have isSp : c₁.rsp = stackTop := by
    rw [isSwitched]
    exact set_rsp _ _
  have isMem : c₁.mem = Function.update k.mem symbols.syscallScratch k.rsp := by
    rw [isSwitched, sameScratch]
    rfl
  rw [← isSp] at room outside ⊢
  have first := (Pushed.nil c₁).push (by change 8 * 1 ≤ _; omega) 0x1B
  have isUserSp : (c₁.push 0x1B).mem (symbols.syscallScratch + 0) = k.rsp := by
    rw [sameScratch, first.kept, isMem]
    · exact Function.update_self _ _ _
    · intro inside
      apply outside
      rw [push_rsp] at inside
      unfold Within at *
      simp only [List.length_cons, List.length_nil] at inside
      bv_omega
  have seven := (((((first.push (by change 8 * 2 ≤ _; omega) k.rsp).push (by change 8 * 3 ≤ _; omega) (c₁.reg .r11)).push
    (by change 8 * 4 ≤ _; omega) 0x23).push (by change 8 * 5 ≤ _; omega) (c₁.reg .rcx)).push (by change 8 * 6 ≤ _; omega) 0).push
    (by change 8 * 7 ≤ _; omega) 57
  have numbered : c₁.exec msrs status (pushSyscallNumbers symbols) =
      ((((((c₁.push 0x1B).push k.rsp).push (c₁.reg .r11)).push 0x23).push (c₁.reg .rcx)).push 0).push 57 := by
    rw [← isUserSp]
    rfl
  rw [← numbered] at seven
  have saved : Pushed c₁ _ _ := @pushStubRegs_pushes _ _ msrs status _ seven (by change 8 * 22 ≤ _; omega)
  have values : stubRegs.reverse.map c₁.reg ++ [57, 0, c₁.reg .rcx, 0x23, c₁.reg .r11, k.rsp, 0x1B] = syscallFrame k next := by
    rw [isSwitched]
    rfl
  rw [values] at saved
  obtain ⟨frame, moved, kept, jump, arg⟩ := @callHandler_pushes _ _ msrs status symbols.syscallDispatch symbols.syscallBack _ saved
    (by change 8 * 23 ≤ _; omega)
  intro c
  have isState : c = ((c₁.exec msrs status (pushSyscallNumbers symbols)).exec msrs status pushStubRegs).exec msrs status
      (callHandler symbols.syscallDispatch symbols.syscallBack) := by
    change (k.syscall msrs next).exec msrs status (syscallEntry symbols) = _
    rw [syscallEntry, exec_append, exec_append, exec_append, switched]
  rw [isState]
  refine ⟨frame, moved, ?_, jump, arg⟩
  intro address away notScratch
  rw [kept address away, isMem]
  exact Function.update_of_ne notScratch _ _

/-- The way back of a system call takes the registers from the frame; `sysret` uses `rcx` and `r11`. -/
theorem syscallReturn_restores {user : Reg → Word} (frame : FrameAt c.mem c.rsp (trapFrame user v e rip cs rflags rsp ss)) :
    let u := c.exec msrs status syscallReturn
    u.rip = rip ∧ u.rflags = (rflags &&& sysretFlags) ||| 2 ∧ u.rsp = rsp ∧ u.reg .rcx = rip ∧ u.reg .r11 = rflags ∧
      (∀ r, r ≠ .rcx → r ≠ .r11 → r ≠ .rsp → u.reg r = user r) ∧ u.cs = ((msrs.star >>> 48) + 16) ||| 3 ∧
      u.ss = ((msrs.star >>> 48) + 8) ||| 3 ∧ u.mem = c.mem := by
  obtain ⟨saved, numbers⟩ := frame.append
  have pops : c.exec msrs status popStubRegs = popped stubRegs.reverse user c := exec_pops saved (by decide)
  obtain ⟨c₁, isPopped⟩ : ∃ c₁, c₁ = popped stubRegs.reverse user c := ⟨_, rfl⟩
  have sameMem : c₁.mem = c.mem := by
    rw [isPopped]
    rfl
  have atNumbers : c₁.reg .rsp = c.rsp + BitVec.ofNat 64 (8 * (stubRegs.reverse.map user).length) := by
    rw [isPopped]
    rfl
  have regs₁ (r : Reg) (other : r ≠ .rsp) : c₁.reg r = user r := by
    rw [isPopped]
    exact if_pos (mem_stubRegs other)
  obtain ⟨_, _, atRip, _, atRflags, atRsp, _⟩ := numbers
  rw [← atNumbers] at atRip atRflags atRsp
  have isState : c.exec msrs status syscallReturn = c₁.exec msrs status
      [.add .rsp 16, .pop .rcx, .add .rsp 8, .pop .r11, .cli, .mov (.reg .rsp) (.based .rsp 0), .sysret] := by
    rw [syscallReturn, exec_append, pops, ← isPopped]
  have at136 : c₁.reg .rsp + 16 = c₁.reg .rsp + 8 + 8 := by bv_omega
  have at160 : c₁.reg .rsp + 8 + 8 + 8 + 8 + 8 + 0 = c₁.reg .rsp + 8 + 8 + 8 + 8 + 8 := BitVec.add_zero _
  have rcx : c₁.mem (c₁.reg .rsp + 16) = rip := by
    rw [sameMem, at136]
    exact atRip
  have r11 : c₁.mem (c₁.reg .rsp + 16 + 8 + 8) = rflags := by
    rw [sameMem, at136]
    exact atRflags
  have sp : c₁.mem (c₁.reg .rsp + 16 + 8 + 8 + 8 + 0) = rsp := by
    rw [sameMem, at136, at160]
    exact atRsp
  rw [isState]
  refine ⟨rcx, ?_, sp, rcx, r11, ?_, rfl, rfl, sameMem⟩
  · rw [← r11]
    rfl
  · intro r notRcx notR11 notRsp
    rw [← regs₁ r notRsp]
    simp [Cpu.exec, Cpu.step, Cpu.set, Cpu.drop, Cpu.assign, Cpu.withStatus, Function.update_of_ne, notRcx, notR11, notRsp]

end

end DoccrOS.Proc
