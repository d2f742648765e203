import DoccrOS.Construction.Proc.Context
import DoccrOS.Lib.Run

namespace DoccrOS.Proc
open Lib

/-- The registers that `context_switch` saves, the last one pushed first. -/
def savedRegs : List Reg := [.r15, .r14, .r13, .r12, .rbx, .rbp]

/-- The cells that `context_switch` pushes, from the top. -/
def switchFrame (k : Cpu) : List Word := savedRegs.map k.reg ++ [k.rflags, k.rip]

/-- The thread goes on as it was: with the registers that a call keeps, the flags and the stack pointer. -/
structure Resumed (k c : Cpu) : Prop where
  regs : ∀ r ∈ savedRegs, c.reg r = k.reg r
  rsp : c.rsp = k.rsp
  rflags : c.rflags = k.rflags
  rip : c.rip = k.rip

section
variable {c k : Cpu} {back : Word} {msrs : SyscallMsrs} {status : Word → Word}

/-- The first half of `context_switch` pushes the state of the thread. -/
theorem contextSwitch_saves (room : 64 ≤ c.rsp.toNat) :
    Pushed c (Cpu.exec msrs status (contextSwitch.take 8) (c.push back)) (switchFrame { c with rip := back }) := by
  have called := (Pushed.nil c).push (by change 8 * (0 + 1) ≤ c.rsp.toNat; omega) back
  have flags := called.push (by change 8 * (1 + 1) ≤ c.rsp.toNat; omega) c.rflags
  have off : Pushed c (Cpu.exec msrs status [.pushfq, .cli] (c.push back)) [c.rflags, back] := flags.of_same rfl rfl
  have split : contextSwitch.take 8 = [.pushfq, .cli] ++ savedRegs.reverse.map fun r => .push (.reg r) := rfl
  rw [split, exec_append]
  have values : switchFrame { c with rip := back } = (savedRegs.reverse.map c.reg).reverse ++ [c.rflags, back] := rfl
  rw [values]
  apply off.regs_pushed (by decide)
  change 8 * (2 + 6) ≤ c.rsp.toNat
  omega

/-- The second half of `context_switch` takes the state of the next thread from its stack. -/
theorem contextSwitch_restores (frame : FrameAt c.mem c.rsp (switchFrame k)) :
    let c' := Cpu.exec msrs status (contextSwitch.drop 10) c
    c'.mem = c.mem ∧ c'.rip = k.rip ∧ c'.rflags = k.rflags ∧ c'.cs = c.cs ∧ c'.ss = c.ss ∧ c'.rsp = c.rsp + 64 ∧
      ∀ r ∈ savedRegs, c'.reg r = k.reg r := by
  intro c'
  obtain ⟨regs, flags, rip, _⟩ := frame.append
  have split : contextSwitch.drop 10 = savedRegs.map .pop ++ [.popfq, .ret] := rfl
  have isState : c' = Cpu.exec msrs status [.popfq, .ret] (popped savedRegs k.reg c) := by
    rw [← exec_pops regs (by decide), ← exec_append, ← split]
  have moved : c.rsp + 48 + 8 = c.rsp + 56 := by bv_omega
  rw [isState]
  refine ⟨rfl, ?_, flags, rfl, rfl, ?_, ?_⟩
  · change c.mem (c.rsp + 48 + 8) = k.rip
    exact rip
  · change c.rsp + 48 + 8 + 8 = c.rsp + 64
    bv_omega
  · intro r member
    have notSp : r ≠ .rsp := by
      rintro rfl
      exact absurd member (by decide)
    have kept : (Cpu.exec msrs status [.popfq, .ret] (popped savedRegs k.reg c)).reg r = (popped savedRegs k.reg c).reg r := by
      simp [Cpu.exec, Cpu.step, Cpu.drop, Cpu.set, Function.update_of_ne notSp]
    rw [kept, popped]
    exact if_pos member

/-- A switch saves the state of the thread on its stack and takes that of the next one. -/
theorem contextSwitch_spec (room : 64 ≤ c.rsp.toNat) (frame : FrameAt c.mem (c.reg .rsi) (switchFrame k))
    (fits : (c.reg .rsi).toNat + 64 ≤ 2 ^ 64)
    (apart : ∀ address, Within (c.reg .rsi) 8 address → ¬Within (c.rsp - 64) 8 address ∧ address ≠ c.reg .rdi)
    (slot : ¬Within (c.rsp - 64) 8 (c.reg .rdi)) :
    let c' := Cpu.exec msrs status contextSwitch (c.push back)
    FrameAt c'.mem (c.rsp - 64) (switchFrame { c with rip := back }) ∧ c'.mem (c.reg .rdi) = c.rsp - 64 ∧
      (∀ address, ¬Within (c.rsp - 64) 8 address → address ≠ c.reg .rdi → c'.mem address = c.mem address) ∧
      c'.rip = k.rip ∧ c'.rflags = k.rflags ∧ c'.cs = c.cs ∧ c'.ss = c.ss ∧ c'.rsp = c.reg .rsi + 64 ∧
      ∀ r ∈ savedRegs, c'.reg r = k.reg r := by
  intro c'
  have split : contextSwitch = contextSwitch.take 8 ++
    ([.mov (.based .rdi 0) (.reg .rsp), .mov (.reg .rsp) (.reg .rsi)] ++ contextSwitch.drop 10) := rfl
  have saves : Pushed c (Cpu.exec msrs status (contextSwitch.take 8) (c.push back)) (switchFrame { c with rip := back }) :=
    contextSwitch_saves room
  obtain ⟨c₂, isSaved⟩ : ∃ c₂, c₂ = Cpu.exec msrs status (contextSwitch.take 8) (c.push back) := ⟨_, rfl⟩
  rw [← isSaved] at saves
  have sameSp : c₂.rsp = c.rsp - 64 := saves.rsp
  have sameSlot : c₂.reg .rdi + 0 = c.reg .rdi := by
    rw [saves.regs .rdi (by decide)]
    exact BitVec.add_zero _
  have sameNext : c₂.reg .rsi = c.reg .rsi := saves.regs .rsi (by decide)
  obtain ⟨c₃, isSwitched⟩ : ∃ c₃, c₃ = (c₂.store (c.reg .rdi) (c.rsp - 64)).set .rsp (c.reg .rsi) := ⟨_, rfl⟩
  have switched : Cpu.exec msrs status [.mov (.based .rdi 0) (.reg .rsp), .mov (.reg .rsp) (.reg .rsi)] c₂ = c₃ := by
    change (c₂.store (c₂.reg .rdi + 0) c₂.rsp).set .rsp (c₂.reg .rsi) = c₃
    rw [sameSlot, sameSp, sameNext, isSwitched]
  have isState : c' = Cpu.exec msrs status (contextSwitch.drop 10) c₃ := by
    have parts : c' = Cpu.exec msrs status _ (c.push back) :=
      congrArg (fun code => Cpu.exec msrs status code (c.push back)) split
    rw [parts, exec_append, exec_append, ← isSaved, switched]
  have atNext : c₃.rsp = c.reg .rsi := by
    rw [isSwitched]
    exact Function.update_self Reg.rsp (c.reg .rsi) c₂.reg
  have isMem : c₃.mem = Function.update c₂.mem (c.reg .rdi) (c.rsp - 64) := by
    rw [isSwitched]
    rfl
  have saved (address : Word) (outside : ¬Within (c.rsp - 64) 8 address) (notSlot : address ≠ c.reg .rdi) :
      c₃.mem address = c.mem address := by
    rw [isMem, Function.update_of_ne notSlot]
    apply saves.kept
    rw [sameSp]
    exact outside
  have frame' : FrameAt c₃.mem c₃.rsp (switchFrame k) := by
    rw [atNext]
    apply frame.congr fits
    intro address inside
    exact saved address (apart address inside).1 (apart address inside).2
  obtain ⟨sameMem, rip, rflags, cs, ss, rsp, regs⟩ := @contextSwitch_restores c₃ k msrs status frame'
  rw [isState]
  refine ⟨?_, ?_, ?_, rip, rflags, ?_, ?_, ?_, regs⟩
  · rw [sameMem, isMem]
    have saved' := saves.frame
    rw [sameSp] at saved'
    apply saved'.congr
    · change (c.rsp - 64).toNat + 64 ≤ 2 ^ 64
      bv_omega
    · intro address inside
      apply Function.update_of_ne
      rintro rfl
      exact slot inside
  · rw [sameMem, isMem]
    exact Function.update_self _ _ _
  · intro address outside notSlot
    rw [sameMem]
    exact saved address outside notSlot
  · rw [cs, isSwitched, isSaved]
    rfl
  · rw [ss, isSwitched, isSaved]
    rfl
  · rw [rsp, atNext]

end

end DoccrOS.Proc
