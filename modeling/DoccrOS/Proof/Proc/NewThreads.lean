import DoccrOS.Proof.Proc.ContextRuns

namespace DoccrOS.Proc
open Lib

/-- The kernel thread calls its function with the argument on an empty stack. The trampoline turns the interrupts on. -/
structure StartsKernel (symbols : Symbols) (msrs : SyscallMsrs) (status : Word → Word) (top entry arg : Word) (c : Cpu) :
    Prop where
  rip : c.rip = symbols.threadTrampoline
  off : c.rflags &&& flagIf = 0
  entry : (c.exec msrs status (threadTrampoline symbols)).rip = entry
  arg : (c.exec msrs status (threadTrampoline symbols)).reg .rdi = arg
  on : (c.exec msrs status (threadTrampoline symbols)).rflags &&& flagIf = flagIf
  stack : (c.exec msrs status (threadTrampoline symbols)).rsp = top - 8
  back : (c.exec msrs status (threadTrampoline symbols)).top = symbols.trampolineBack

/-- The code that takes a user thread from its trampoline to the user. -/
def enterUser (symbols : Symbols) (msrs : SyscallMsrs) (status : Word → Word) (c : Cpu) : Cpu :=
  (c.exec msrs status (userThreadTrampoline symbols)).exec msrs status archEnterUsermode

/-- The user thread enters ring 3 at its function with the argument on the stack of the user. The kernel part runs with the
interrupts off, and the user part with the interrupts on. -/
structure StartsUser (symbols : Symbols) (msrs : SyscallMsrs) (status : Word → Word) (entry arg userStackTop : Word) (c : Cpu) :
    Prop where
  rip : c.rip = symbols.userThreadTrampoline
  off : c.rflags &&& flagIf = 0
  jump : (c.exec msrs status (userThreadTrampoline symbols)).rip = symbols.archEnterUsermode
  entry : (enterUser symbols msrs status c).rip = entry
  arg : (enterUser symbols msrs status c).reg .rdi = arg
  stack : (enterUser symbols msrs status c).rsp = userStackTop
  on : (enterUser symbols msrs status c).rflags = initialRflags ||| flagIf
  cs : (enterUser symbols msrs status c).cs = 0x23
  ss : (enterUser symbols msrs status c).ss = 0x1B

/-- The register of the parent that a register of the child is loaded from: `rcx` and `r11` carry what `sysret` takes. -/
def forkSource : Reg → UserReg
  | .rcx => .rip
  | .r11 => .rflags
  | other => .gpr other

/-- The child of a fork comes to the user behind the system call of the parent, with its registers and the result 0. It passes
`fork_child_return` with the interrupts on. -/
structure StartsForked (symbols : Symbols) (msrs : SyscallMsrs) (status : Word → Word) (user : UserReg → Word) (c : Cpu) :
    Prop where
  rip : c.rip = symbols.forkChildReturn
  on : c.rflags &&& flagIf = flagIf
  entry : (c.exec msrs status forkChildReturn).rip = user .rip
  rflags : (c.exec msrs status forkChildReturn).rflags = (user .rflags &&& sysretFlags) ||| 2
  zero : (c.exec msrs status forkChildReturn).reg .rax = 0
  regs : ∀ r ≠ .rax, (c.exec msrs status forkChildReturn).reg r = user (forkSource r)
  cs : (c.exec msrs status forkChildReturn).cs = ((msrs.star >>> 48) + 16) ||| 3
  ss : (c.exec msrs status forkChildReturn).ss = ((msrs.star >>> 48) + 8) ||| 3

/-- What a new thread does at first; the stack of the kernel ends at `top`. The frame of a fork is read in the memory of its
parent. -/
def NewThread.Starts (symbols : Symbols) (msrs : SyscallMsrs) (status : Word → Word) (top : Word) (mem : Word → Word) (c : Cpu) :
    NewThread → Prop
  | .kernel entry arg => StartsKernel symbols msrs status top entry arg c
  | .user entry arg userStackTop => StartsUser symbols msrs status entry arg userStackTop c
  | .forked frame => StartsForked symbols msrs status (fun r => mem (frame + stateOffset r)) c

section
variable {c : Cpu} {symbols : Symbols} {msrs : SyscallMsrs} {status : Word → Word} {top entry arg userStackTop : Word}

theorem startsKernel (rip : c.rip = symbols.threadTrampoline) (rflags : c.rflags = initialRflags) (rsp : c.rsp = top)
    (r12 : c.reg .r12 = entry) (r13 : c.reg .r13 = arg) : StartsKernel symbols msrs status top entry arg c := by
  subst rsp r12 r13
  refine ⟨rip, by rw [rflags]; decide, rfl, ?_, ?_, ?_, ?_⟩
  · simp [Cpu.exec, Cpu.step, threadTrampoline, Cpu.push, Cpu.assign, Cpu.set, Cpu.load, Cpu.store]
  · change (c.rflags ||| flagIf) &&& flagIf = flagIf
    rw [rflags]
    decide
  · simp [Cpu.exec, Cpu.step, threadTrampoline, Cpu.push, Cpu.assign, Cpu.set, Cpu.load, Cpu.store, Cpu.rsp]
  · simp [Cpu.exec, Cpu.step, threadTrampoline, Cpu.push, Cpu.assign, Cpu.set, Cpu.load, Cpu.store, Cpu.rsp, Cpu.top]

/-- The frame that `arch_enter_usermode` builds for `iretq`. -/
theorem archEnterUsermode_frame (room : 40 ≤ c.rsp.toNat) :
    let c' := c.exec msrs status (archEnterUsermode.take 13)
    FrameAt c'.mem c'.rsp
      [c.reg .rdi, 0x23, (c.rflags &&& ~~~flagIf) ||| 0x200, c.reg .rsi, 0x1B] ∧ c'.reg .rdi = c.reg .rdx := by
  obtain ⟨c₂, isMoved⟩ : ∃ c₂, c₂ = c.exec msrs status (archEnterUsermode.take 5) := ⟨_, rfl⟩
  have rsp : c₂.rsp = c.rsp := by
    rw [isMoved]
    rfl
  have frame := (((Pushed.nil c₂).push (by rw [rsp]; change 8 * 1 ≤ _; omega) 0x1B).push (by rw [rsp]; change 8 * 2 ≤ _; omega)
    (c₂.reg .rcx)).frame
  obtain ⟨c₄, isPushed⟩ : ∃ c₄, c₄ = (c₂.push 0x1B).push (c₂.reg .rcx) := ⟨_, rfl⟩
  rw [← isPushed] at frame
  have rsp₄ : c₄.rsp = c.rsp - 16 := by
    rw [isPushed, push_rsp, push_rsp, rsp]
    bv_omega
  obtain ⟨c₅, isFlagged⟩ : ∃ c₅, c₅ = c₄.exec msrs status [.pushfq, .pop .r11, .or .r11 0x200] := ⟨_, rfl⟩
  have mem₅ : c₅.mem = Function.update c₄.mem (c₄.rsp - 8) c₄.rflags := by
    rw [isFlagged]
    rfl
  have rsp₅ : c₅.rsp = c₄.rsp := by
    rw [isFlagged]
    change c₄.rsp - 8 + 8 = c₄.rsp
    exact BitVec.sub_add_cancel _ _
  have r11 : c₅.reg .r11 = (c.rflags &&& ~~~flagIf) ||| 0x200 := by
    rw [isFlagged, isPushed, isMoved]
    simp [Cpu.exec, Cpu.step, archEnterUsermode, Cpu.push, Cpu.assign, Cpu.set, Cpu.load, Cpu.store, Cpu.top, Cpu.drop,
      Cpu.withStatus, Cpu.rsp]
  have rax : c₅.reg .rax = c.reg .rdi := by
    rw [isFlagged, isPushed, isMoved]
    rfl
  have rdi : c₅.reg .rdi = c.reg .rdx := by
    rw [isFlagged, isPushed, isMoved]
    rfl
  have rcx : c₂.reg .rcx = c.reg .rsi := by
    rw [isMoved]
    rfl
  have kept : FrameAt c₅.mem c₅.rsp [c.reg .rsi, 0x1B] := by
    rw [mem₅, rsp₅, ← rcx]
    apply frame.store
    · rw [rsp₄]
      change (c.rsp - 16).toNat + 16 ≤ 2 ^ 64
      bv_omega
    · rw [rsp₄]
      unfold Within
      bv_omega
  have split : c.exec msrs status (archEnterUsermode.take 13) =
      ((c₅.push (c₅.reg .r11)).push 0x23).push (c₅.reg .rax) := by
    rw [isFlagged, isPushed, isMoved]
    rfl
  intro c'
  have isState : c' = ((c₅.push (c₅.reg .r11)).push 0x23).push (c₅.reg .rax) := split
  rw [isState, ← r11, ← rax]
  constructor
  · apply FrameAt.push
    · apply FrameAt.push
      · apply kept.push
        · rw [rsp₅, rsp₄]
          bv_omega
        · rw [rsp₅, rsp₄]
          change (c.rsp - 16).toNat + 16 ≤ 2 ^ 64
          bv_omega
      · rw [push_rsp, rsp₅, rsp₄]
        bv_omega
      · rw [push_rsp, rsp₅, rsp₄]
        change (c.rsp - 16 - 8).toNat + 24 ≤ 2 ^ 64
        bv_omega
    · rw [push_rsp, push_rsp, rsp₅, rsp₄]
      bv_omega
    · rw [push_rsp, push_rsp, rsp₅, rsp₄]
      change (c.rsp - 16 - 8 - 8).toNat + 32 ≤ 2 ^ 64
      bv_omega
  · rw [push_reg _ _ (by decide), push_reg _ _ (by decide), push_reg _ _ (by decide)]
    exact rdi

/-- The trampoline of a user thread reaches the user with what `arch_enter_usermode` pushes. -/
theorem enterUser_state (room : 48 ≤ c.rsp.toNat) : ∃ c' : Cpu, enterUser symbols msrs status c =
      { c' with
        reg := Function.update c'.reg .rsp (c.reg .r14)
        rip := c.reg .r12
        rflags := (c.rflags &&& ~~~flagIf) ||| 0x200
        cs := 0x23
        ss := 0x1B } ∧
    c'.reg .rdi = c.reg .r13 := by
  obtain ⟨c₁, isCalled⟩ : ∃ c₁, c₁ = c.exec msrs status (userThreadTrampoline symbols) := ⟨_, rfl⟩
  have rsp₁ : c₁.rsp = c.rsp - 8 := by
    rw [isCalled]
    rfl
  have atEntry : c₁.reg .rdi = c.reg .r12 := by
    rw [isCalled]
    rfl
  have atStack : c₁.reg .rsi = c.reg .r14 := by
    rw [isCalled]
    rfl
  have atArg : c₁.reg .rdx = c.reg .r13 := by
    rw [isCalled]
    rfl
  have flags : c₁.rflags = c.rflags := by
    rw [isCalled]
    rfl
  obtain ⟨frame, rdi⟩ := @archEnterUsermode_frame c₁ msrs status (by rw [rsp₁]; bv_omega)
  have split : archEnterUsermode = archEnterUsermode.take 13 ++ [.iretq] := rfl
  refine ⟨c₁.exec msrs status (archEnterUsermode.take 13), ?_, rdi.trans atArg⟩
  rw [enterUser, ← isCalled, split, exec_append, ← atEntry, ← atStack, ← flags]
  exact @iretq_frame _ msrs status _ _ _ _ _ frame

theorem startsUser (rip : c.rip = symbols.userThreadTrampoline) (rflags : c.rflags = initialRflags)
    (room : 48 ≤ c.rsp.toNat) (r12 : c.reg .r12 = entry) (r13 : c.reg .r13 = arg) (r14 : c.reg .r14 = userStackTop) :
    StartsUser symbols msrs status entry arg userStackTop c := by
  subst r12 r13 r14
  obtain ⟨c', enters, rdi⟩ := @enterUser_state c symbols msrs status room
  refine ⟨rip, by rw [rflags]; decide, rfl, ?_, ?_, ?_, ?_, ?_, ?_⟩
  · rw [enters]
  · rw [enters, ← rdi]
    have other : Reg.rdi ≠ .rsp := by decide
    exact Function.update_of_ne other (c.reg .r14) c'.reg
  · rw [enters]
    exact Function.update_self Reg.rsp (c.reg .r14) c'.reg
  · rw [enters, rflags]
    rfl
  · rw [enters]
  · rw [enters]

theorem mem_forkUserRegs (r : UserReg) : r ∈ forkUserRegs := by
  cases r with
  | gpr r => cases r <;> decide
  | rip => decide
  | rflags => decide

/-- The constants of `syscall.asm` agree with the layout of `thread_t`. -/
theorem threadField_forkUser (thread : Word) (r : UserReg) : threadField thread (.forkUser r) = thread + forkOffset r := by
  have same : BitVec.ofNat 64 (fieldOffset (.forkUser r) threadFields 0) = forkOffset r := by
    cases r with
    | gpr r => cases r <;> rfl
    | rip => rfl
    | rflags => rfl
  rw [threadField, same]

theorem forkOffset_injective {r r' : UserReg} (same : forkOffset r = forkOffset r') : r = r' := by
  have apart : ∀ r ∈ forkUserRegs, ∀ r' ∈ forkUserRegs, forkOffset r = forkOffset r' → r = r' := by decide
  exact apart r (mem_forkUserRegs r) r' (mem_forkUserRegs r') same

theorem threadField_injective {thread : Word} {r r' : UserReg}
    (same : threadField thread (.forkUser r) = threadField thread (.forkUser r')) : r = r' := by
  rw [threadField_forkUser, threadField_forkUser] at same
  exact forkOffset_injective ((BitVec.add_right_inj thread).mp same)

theorem forkUser_ne_slot (thread : Word) (r : UserReg) : threadField thread (.forkUser r) ≠ threadField thread .rsp := by
  rw [threadField_forkUser]
  intro same
  have isOffset : forkOffset r = 48 := (BitVec.add_right_inj thread).mp same
  have apart : ∀ r ∈ forkUserRegs, forkOffset r ≠ 48 := by decide
  exact apart r (mem_forkUserRegs r) isOffset

/-- A fork stores the registers of the frame in the thread of the child, with 0 in place of `rax`. -/
theorem forkStores_spec {mem : Word → Word} {thread frame : Word}
    (apart : ∀ r r', frame + stateOffset r ≠ threadField thread (.forkUser r')) (r : UserReg) :
    forkStores mem thread frame (threadField thread (.forkUser r)) =
      if r = .gpr .rax then 0 else mem (frame + stateOffset r) := by
  have distinct : forkUserRegs.Nodup := by decide
  have member := mem_forkUserRegs r
  unfold forkStores
  generalize forkUserRegs = regs at distinct member
  induction regs generalizing mem with
  | nil => cases member
  | cons first regs inductionHypothesis =>
      obtain ⟨notLater, distinct'⟩ := List.nodup_cons.mp distinct
      rw [List.foldl_cons]
      rcases List.mem_cons.mp member with isFirst | later
      · have kept (mem' : Word → Word) (others : List UserReg) (notHere : r ∉ others) :
            others.foldl (fun mem' r => Function.update mem' (threadField thread (.forkUser r))
              (if r = .gpr .rax then 0 else mem' (frame + stateOffset r))) mem' (threadField thread (.forkUser r)) =
            mem' (threadField thread (.forkUser r)) := by
          induction others generalizing mem' with
          | nil => rfl
          | cons other others inductionHypothesis =>
              rw [List.mem_cons, not_or] at notHere
              rw [List.foldl_cons, inductionHypothesis _ notHere.2]
              exact Function.update_of_ne (fun same => notHere.1 (threadField_injective same)) _ _
        rw [← isFirst] at notLater ⊢
        rw [kept _ regs notLater]
        exact Function.update_self _ _ _
      · rw [inductionHypothesis distinct' later, Function.update_of_ne (apart r first)]

/-- The code of the child loads every register from the thread in `r15`. -/
theorem forkChildReturn_regs (r : Reg) :
    (c.exec msrs status forkChildReturn).reg r = c.mem (c.reg .r15 + forkOffset (forkSource r)) := by
  cases r <;> rfl

theorem startsForked {thread : Word} {user : UserReg → Word} (rip : c.rip = symbols.forkChildReturn) (rflags : c.rflags = 0x202)
    (r15 : c.reg .r15 = thread)
    (stored : ∀ r, c.mem (threadField thread (.forkUser r)) = if r = .gpr .rax then 0 else user r) :
    StartsForked symbols msrs status user c := by
  subst r15
  have loaded (r : UserReg) : c.mem (c.reg .r15 + forkOffset r) = if r = .gpr .rax then 0 else user r := by
    rw [← threadField_forkUser]
    exact stored r
  have atRip : c.mem (c.reg .r15 + forkOffset .rip) = user .rip := loaded .rip
  have atRflags : c.mem (c.reg .r15 + forkOffset .rflags) = user .rflags := loaded .rflags
  refine ⟨rip, by rw [rflags]; decide, ?_, ?_, ?_, ?_, rfl, rfl⟩
  · rw [← atRip]
    rfl
  · rw [← atRflags]
    rfl
  · rw [forkChildReturn_regs]
    exact loaded (.gpr .rax)
  · intro r notRax
    rw [forkChildReturn_regs, loaded, if_neg]
    cases r <;> first | exact absurd rfl notRax | decide

variable {T : Type} {layout : StackLayout T} {t : T}

/-- The saved registers are among the cells that a thread finds unchanged. -/
theorem StackLayout.Fits.forkUser_keeps (fits : layout.Fits) (k : Cpu) (r : UserReg) :
    threadField (layout.thread t) (.forkUser r) ∈ layout.keeps t k := by
  refine ⟨Or.inr (Or.inr ⟨r, mem_forkUserRegs r, rfl⟩), forkUser_ne_slot _ r, ?_⟩
  intro inside
  exact absurd inside (fits.fork t r (mem_forkUserRegs r))

/-- The stores of a creation behind those of a fork leave the saved registers alone. -/
theorem NewThread.create_forkUser (fits : layout.Fits) (mem : Word → Word) (new : NewThread) (r : UserReg) :
    new.create symbols mem (layout.thread t) (BitVec.ofNat 64 (layout.top t)) (threadField (layout.thread t) (.forkUser r)) =
      new.prepared mem (layout.thread t) (threadField (layout.thread t) (.forkUser r)) := by
  have bound := fits.bound t
  have low := fits.room t
  have count := (@NewThread.values_frame symbols (layout.thread t) 0 ⟨fun _ => 0, 0, 0, 0, 0, mem⟩ new).2
  have isTop : (BitVec.ofNat 64 (layout.top t)).toNat = layout.top t := by
    rw [BitVec.toNat_ofNat]
    exact Nat.mod_eq_of_lt bound
  have kept := (@storeDown_spec (new.prepared mem (layout.thread t)) (BitVec.ofNat 64 (layout.top t))
    (new.values symbols (layout.thread t)) (by rw [count, isTop]; omega)).2.2
  rw [count] at kept
  rw [NewThread.create_eq, Function.update_of_ne (forkUser_ne_slot _ r), kept]
  intro inside
  apply fits.fork t r (mem_forkUserRegs r)
  unfold Within at inside
  unfold StackLayout.inStack
  bv_omega

variable [DecidableEq T]

section
variable {between : List (ContextOp T)} {s₁ s₂ s₃ s₄ : Contexts T} {back : Word} {new : NewThread}

/-- A new thread goes on with the context that its creator stored for it. -/
theorem Contexts.Inv.new_resumes (fits : layout.Fits) (inv : s₁.Inv layout) (creates : s₁.allowed layout (.create t new))
    (created : s₁.step layout symbols msrs status (.create t new) = .ok s₂)
    (away : Run (Contexts.step layout symbols msrs status) (fun s op => s.allowed layout op) s₂ between s₃)
    (untouched : ∀ op ∈ between, ¬op.touches t) (starts : s₃.allowed layout (.switch t back))
    (started : s₃.step layout symbols msrs status (.switch t back) = .ok s₄) :
    let k := new.context symbols (layout.thread t) (BitVec.ofNat 64 (layout.top t)) s₁.cpu
    Resumed k s₄.cpu ∧ ∀ address ∈ layout.keeps t k, s₄.cpu.mem address = k.mem address := by
  intro k
  have inv₂ := inv.step fits creates created
  have isSaved : s₂.saved t = some k := by
    cases created
    exact Function.update_self _ _ _
  exact inv₂.resume fits isSaved away untouched starts started

/-- A child starts with the registers in the frame of its parent. -/
theorem Contexts.Inv.starts_forked {state : Word} (fits : layout.Fits) (inv : s₁.Inv layout)
    (frame : ∀ r, layout.inStack s₁.current (state + stateOffset r)) (creates : s₁.allowed layout (.create t (.forked state)))
    (created : s₁.step layout symbols msrs status (.create t (.forked state)) = .ok s₂)
    (away : Run (Contexts.step layout symbols msrs status) (fun s op => s.allowed layout op) s₂ between s₃)
    (untouched : ∀ op ∈ between, ¬op.touches t) (starts : s₃.allowed layout (.switch t back))
    (started : s₃.step layout symbols msrs status (.switch t back) = .ok s₄) :
    StartsForked symbols msrs status (fun r => s₁.cpu.mem (state + stateOffset r)) s₄.cpu := by
  obtain ⟨⟨regs, _, rflags, rip⟩, kept⟩ := inv.new_resumes fits creates created away untouched starts started
  have apart := creates.2 s₁.current (Or.inl rfl)
  have r15 : s₄.cpu.reg .r15 = layout.thread t := regs .r15 (by decide)
  apply startsForked rip rflags r15
  intro r
  rw [kept _ (fits.forkUser_keeps _ r)]
  change (NewThread.forked state).create symbols s₁.cpu.mem (layout.thread t) (BitVec.ofNat 64 (layout.top t)) _ = _
  rw [NewThread.create_forkUser fits]
  apply forkStores_spec
  intro r r' same
  exact Set.disjoint_left.mp apart (Or.inr (Or.inr ⟨r', mem_forkUserRegs r', rfl⟩))
    (same ▸ StackLayout.stack_own (frame r))

end

/-- A new thread starts as its creator asked, whatever the other threads do between its creation and the first switch to it. -/
theorem new_thread_starts {cpu : Cpu} {boot : T} {ops between : List (ContextOp T)} {s₁ s₂ s₃ s₄ : Contexts T} {back : Word}
    {new : NewThread} (fits : layout.Fits)
    (reached : Run (Contexts.step layout symbols msrs status) (fun s op => s.allowed layout op) (.start cpu boot) ops s₁)
    (frame : ∀ state, new = .forked state → ∀ r, layout.inStack s₁.current (state + stateOffset r))
    (creates : s₁.allowed layout (.create t new)) (created : s₁.step layout symbols msrs status (.create t new) = .ok s₂)
    (away : Run (Contexts.step layout symbols msrs status) (fun s op => s.allowed layout op) s₂ between s₃)
    (untouched : ∀ op ∈ between, ¬op.touches t) (starts : s₃.allowed layout (.switch t back))
    (started : s₃.step layout symbols msrs status (.switch t back) = .ok s₄) :
    new.Starts symbols msrs status (BitVec.ofNat 64 (layout.top t)) s₁.cpu.mem s₄.cpu := by
  have inv₁ := contexts_inv fits reached
  cases new with
  | kernel entry arg =>
      obtain ⟨⟨regs, rsp, rflags, rip⟩, _⟩ := inv₁.new_resumes fits creates created away untouched starts started
      exact startsKernel rip rflags rsp (regs .r12 (by decide)) (regs .r13 (by decide))
  | user entry arg userStackTop =>
      obtain ⟨⟨regs, rsp, rflags, rip⟩, _⟩ := inv₁.new_resumes fits creates created away untouched starts started
      apply startsUser rip rflags _ (regs .r12 (by decide)) (regs .r13 (by decide)) (regs .r14 (by decide))
      have low := fits.room t
      have bound := fits.bound t
      rw [rsp]
      change 48 ≤ (BitVec.ofNat 64 (layout.top t)).toNat
      rw [BitVec.toNat_ofNat, Nat.mod_eq_of_lt bound]
      omega
  | forked state => exact inv₁.starts_forked fits (frame state rfl) creates created away untouched starts started

/-- The boot thread behind the fork of a child and before its call of `context_switch`. -/
def twoForked : Contexts Bool :=
  let s := twoBoot.after twoThreads twoSymbols (.create true (.forked 0x1e00))
  s.after twoThreads twoSymbols (s.calls twoThreads true)

theorem new_thread_starts_two :
    (NewThread.forked 0x1e00).Starts twoSymbols (syscallEnable twoSymbols) id 0x4000 twoBoot.cpu.mem
      (twoForked.after twoThreads twoSymbols (.switch true 0x60)).cpu :=
  @new_thread_starts twoSymbols (syscallEnable twoSymbols) id Bool twoThreads true _ twoBoot.cpu false _ _ twoBoot _ twoForked _
    0x60 (.forked 0x1e00) twoThreads_fits (.nil _)
    (by
      intro state same r
      rw [← NewThread.forked.inj same]
      have inside : ∀ r ∈ forkUserRegs,
          0x1000 ≤ (0x1e00 + stateOffset r : Word).toNat ∧ (0x1e00 + stateOffset r : Word).toNat < 0x2000 := by decide
      exact inside r (mem_forkUserRegs r))
    (twoBoot_create _) (Contexts.after_step _ _) (.cons (Contexts.allowed_calls _ _) (Contexts.after_step _ _) (.nil _))
    (by
      intro op member touched
      rw [List.mem_singleton.mp member] at touched
      exact touched)
    (Contexts.allowed_switch _ _ _ (by decide) rfl (by decide +kernel) (by decide +kernel) (by decide +kernel))
    (Contexts.after_step _ _)

end

end DoccrOS.Proc
