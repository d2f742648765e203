import DoccrOS.Proof.Proc.Traps

namespace DoccrOS.Proc
open Lib

variable {T : Type}

/-- The thread is not destroyed, its code leaves the cells alone, and it is switched out below them. -/
def Contexts.leavesCells (t : T) (cells : Set Word) (s : Contexts T) : ContextOp T → Prop
  | .work cpu => s.current = t → ∀ address ∈ cells, cpu.mem address = s.cpu.mem address
  | .create _ _ => True
  | .destroy u => u ≠ t
  | .switch _ _ => s.current = t → ∀ address ∈ cells, s.cpu.rsp.toNat ≤ address.toNat

/-- The value of a register in a frame. -/
def userValue (user : Reg → Word) (rip rflags rsp : Word) : UserReg → Word
  | .gpr .rsp => rsp
  | .gpr r => user r
  | .rip => rip
  | .rflags => rflags

/-- The place of the frame of a system call. -/
def StackLayout.syscallFrame (layout : StackLayout T) (t : T) : Word := BitVec.ofNat 64 (layout.top t) - 176

/-- The cells of the frame that the handlers leave alone: all but `rax`. -/
def StackLayout.syscallCells (layout : StackLayout T) (t : T) : Set Word :=
  {address | Within (layout.syscallFrame t) 22 address ∧ address ≠ layout.syscallFrame t + stateOffset (.gpr .rax)}

/-- The registers of the user in the frame of a system call with a value in `rax`. -/
def syscallUser (k : Cpu) (next value : Word) : Reg → Word :=
  Function.update (fun r => if r = .rcx then next else if r = .r11 then k.rflags else k.reg r) .rax value

section
variable {layout : StackLayout T} {t : T} {cells : Set Word} {s s' : Contexts T} {op : ContextOp T}
  {ops : List (ContextOp T)} {symbols : Symbols} {msrs : SyscallMsrs} {status : Word → Word} {mem mem' : Word → Word}
  {sp top value vector error rip cs rflags rsp ss : Word} {user : Reg → Word}

/-- The order of the pushes is the order of `cpu_state_t`. -/
theorem trapFrame_reads (frame : FrameAt mem sp (trapFrame user vector error rip cs rflags rsp ss)) (r : UserReg) :
    mem (sp + stateOffset r) = userValue user rip rflags rsp r := by
  have cell (i : Nat) (value : Word) (here : (trapFrame user vector error rip cs rflags rsp ss)[i]? = some value) :
      mem (sp + BitVec.ofNat 64 (8 * i)) = value := frame.cell i here
  have found : (trapFrame user vector error rip cs rflags rsp ss)[(stateOffset r).toNat / 8]? =
      some (userValue user rip rflags rsp r) := by
    cases r with
    | gpr r => cases r <;> rfl
    | rip => rfl
    | rflags => rfl
  have same : BitVec.ofNat 64 (8 * ((stateOffset r).toNat / 8)) = stateOffset r := by
    cases r with
    | gpr r => cases r <;> rfl
    | rip => rfl
    | rflags => rfl
  rw [← same]
  exact cell _ _ found

theorem userValue_forkSource {r : Reg} (notRcx : r ≠ .rcx) (notR11 : r ≠ .r11) (notRsp : r ≠ .rsp) :
    userValue user rip rflags rsp (forkSource r) = user r := by
  cases r <;> first | rfl | contradiction

theorem syscallEnable_star (symbols : Symbols) : (syscallEnable symbols).star = 0x0013000800000000 := by
  simp only [syscallEnable]
  decide

/-- A handler may change `rax` in the frame. -/
theorem trapFrame_rax (frame : FrameAt mem sp (trapFrame user vector error rip cs rflags rsp ss)) (fits : sp.toNat + 176 ≤ 2 ^ 64)
    (same : ∀ address, Within sp 22 address → address ≠ sp + stateOffset (.gpr .rax) → mem' address = mem address) :
    FrameAt mem' sp (trapFrame (Function.update user .rax (mem' (sp + stateOffset (.gpr .rax)))) vector error rip cs rflags rsp
      ss) := by
  have replaced := @FrameAt.replace mem mem' sp _ (stubRegs.tail.reverse.map user) [vector, error, rip, cs, rflags, rsp, ss]
    (user .rax) frame fits rfl same
  exact replaced

variable [DecidableEq T]

/-- The current thread executes `syscall` and comes to the call of `syscall_dispatch`; `syscall_update_kstack` has stored the end of
its stack. -/
structure EntersSyscall (layout : StackLayout T) (symbols : Symbols) (msrs : SyscallMsrs) (status : Word → Word) (s₁ : Contexts T)
    (next : Word) (s₂ : Contexts T) : Prop where
  top : s₁.cpu.mem (symbols.syscallScratch + 8) = BitVec.ofNat 64 (layout.top s₁.current)
  scratch : ¬layout.inStack s₁.current symbols.syscallScratch
  enters : s₁.allowed layout (.work ((s₁.cpu.syscall msrs next).exec msrs status (syscallEntry symbols)))
  entered : s₁.step layout symbols msrs status (.work ((s₁.cpu.syscall msrs next).exec msrs status (syscallEntry symbols))) = .ok s₂

/-- A step keeps the cells of a stack. -/
theorem cells_kept_step (fits : layout.Fits) (inv : s.Inv layout) (lives : s.lives t)
    (inside : ∀ address ∈ cells, layout.inStack t address) (permitted : s.allowed layout op) (leaves : s.leavesCells t cells op)
    (returned : s.step layout symbols msrs status op = .ok s') :
    s'.lives t ∧ ∀ address ∈ cells, s'.cpu.mem address = s.cpu.mem address := by
  cases op with
  | work cpu =>
      cases returned
      refine ⟨lives, ?_⟩
      intro address member
      by_cases here : s.current = t
      · exact leaves here address member
      · have isSaved : (s.saved t).isSome = true := lives.resolve_left (Ne.symm here)
        exact permitted t isSaved address (StackLayout.stack_own (inside address member))
  | create u new =>
      cases returned
      have different : t ≠ u := by
        rintro rfl
        exact permitted.1 lives
      constructor
      · rcases lives with isCurrent | isSaved
        · exact Or.inl isCurrent
        · right
          change (Function.update s.saved u _ t).isSome = true
          rw [Function.update_of_ne different]
          exact isSaved
      · intro address member
        apply (@NewThread.create_spec T layout u symbols new fits s.cpu).1
        exact Set.disjoint_right.mp (permitted.2 t lives) (StackLayout.stack_own (inside address member))
  | destroy u =>
      cases returned
      refine ⟨?_, fun _ _ => rfl⟩
      rcases lives with isCurrent | isSaved
      · exact Or.inl isCurrent
      · right
        change (Function.update s.saved u none t).isSome = true
        rw [Function.update_of_ne (Ne.symm leaves)]
        exact isSaved
  | switch next back =>
      cases returned
      obtain ⟨different, isSaved, own, atNext, _, low, high⟩ := permitted
      obtain ⟨k, saved⟩ := Option.isSome_iff_exists.mp isSaved
      have apart := inv.apart next s.current (Or.inr isSaved) (Or.inl rfl) different
      obtain ⟨_, away, kept⟩ := @switch_spec T layout next s.current k s.cpu msrs status back fits apart
        (inv.suspended next k saved).2 own atNext low high
      constructor
      · by_cases isNext : t = next
        · exact Or.inl isNext
        · right
          change (Function.update (Function.update s.saved s.current _) next none t).isSome = true
          rw [Function.update_of_ne isNext, Function.update_apply]
          split
          · rfl
          · rename_i notCurrent
            exact lives.resolve_left notCurrent
      · intro address member
        by_cases here : s.current = t
        · subst here
          apply away.above address
          refine ⟨StackLayout.stack_own (inside address member), ?_, fun _ => leaves rfl address member⟩
          rintro rfl
          exact fits.slot s.current (inside _ member)
        · apply kept
          exact Set.disjoint_left.mp (inv.apart t s.current lives (Or.inl rfl) (Ne.symm here))
            (StackLayout.stack_own (inside address member))

/-- A run keeps the cells of a stack that the thread itself leaves alone, through any number of switches. -/
theorem cells_kept (fits : layout.Fits) (inv : s.Inv layout) (lives : s.lives t)
    (inside : ∀ address ∈ cells, layout.inStack t address)
    (run : Run (Contexts.step layout symbols msrs status) (fun s op => s.allowed layout op ∧ s.leavesCells t cells op) s ops s') :
    s'.Inv layout ∧ s'.lives t ∧ ∀ address ∈ cells, s'.cpu.mem address = s.cpu.mem address := by
  apply run.invariant fun s' => s'.Inv layout ∧ s'.lives t ∧ ∀ address ∈ cells, s'.cpu.mem address = s.cpu.mem address
  · rintro before op after ⟨inv', lives', same⟩ ⟨permitted, leaves⟩ returned
    obtain ⟨lives'', kept⟩ := cells_kept_step fits inv' lives' inside permitted leaves returned
    refine ⟨inv'.step fits permitted returned, lives'', ?_⟩
    intro address member
    rw [kept address member]
    exact same address member
  · exact ⟨inv, lives, fun _ _ => rfl⟩

/-- A trap goes back to the interrupted code with its whole state, whatever its handler and the other threads do, if the handler
keeps the frame. -/
theorem trap_returns {cpu : Cpu} {boot : T} {before : List (ContextOp T)} {s₁ s₂ s₃ : Contexts T} {hasError : Bool}
    {handler back stackTop kernelCs gate : Word} {exception : Option Word} (fits : layout.Fits)
    (reached : Run (Contexts.step layout symbols msrs status) (fun s op => s.allowed layout op) (.start cpu boot) before s₁)
    (isError : exception.isSome = hasError) (low : layout.base s₁.current + 184 ≤ (trapStack stackTop s₁.cpu).toNat)
    (high : (trapStack stackTop s₁.cpu).toNat ≤ layout.top s₁.current)
    (enters : s₁.allowed layout (.work ((s₁.cpu.interrupt stackTop kernelCs gate exception).exec msrs status
      (trapStub hasError vector handler back))))
    (entered : s₁.step layout symbols msrs status (.work ((s₁.cpu.interrupt stackTop kernelCs gate exception).exec msrs status
      (trapStub hasError vector handler back))) = .ok s₂)
    (run : Run (Contexts.step layout symbols msrs status)
      (fun s op => s.allowed layout op ∧
        s.leavesCells s₁.current {address | Within (trapStack stackTop s₁.cpu - 176) 22 address} op) s₂ ops s₃)
    (returned : s₃.cpu.rsp = trapStack stackTop s₁.cpu - 176) :
    s₃.cpu.exec msrs status trapReturn = { s₁.cpu with mem := s₃.cpu.mem } := by
  have inv₂ := (contexts_inv fits reached).step fits enters entered
  obtain ⟨frame, atSp, _⟩ := @trapStub_pushes s₁.cpu msrs status hasError vector handler back stackTop kernelCs gate exception
    isError (by omega)
  cases entered
  obtain ⟨top, isTop⟩ : ∃ top, top = trapStack stackTop s₁.cpu := ⟨_, rfl⟩
  rw [← isTop] at low high run returned atSp
  have inside : ∀ address ∈ {address | Within (top - 176) 22 address}, layout.inStack s₁.current address := by
    intro address within
    change Within (top - 176) 22 address at within
    unfold Within at within
    unfold StackLayout.inStack
    bv_omega
  obtain ⟨_, _, kept⟩ := cells_kept fits inv₂ (Or.inl rfl) inside run
  have saved := frame.2
  rw [atSp] at saved
  have behind : top - 184 + 8 = top - 176 := by bv_omega
  rw [behind] at saved
  apply @trapReturn_restores _ _ _ _ vector (exception.getD 0)
  rw [returned]
  apply saved.congr
  · change (top - 176).toNat + 176 ≤ 2 ^ 64
    bv_omega
  · exact kept

omit [DecidableEq T] in
/-- A return from the handler moves the stack pointer alone. -/
theorem Contexts.allowed_ret (t : T) (cells : Set Word) (s : Contexts T) (value : Word) :
    s.allowed layout (.work (s.cpu.set .rsp value)) ∧ s.leavesCells t cells (.work (s.cpu.set .rsp value)) :=
  ⟨fun _ _ _ _ => rfl, fun _ _ _ => rfl⟩

/-- The boot thread takes the interrupt of the timer. -/
def twoInterrupted : Contexts Bool :=
  twoBoot.after twoThreads twoSymbols (.work ((twoBoot.cpu.interrupt 0 8 0x32 none).exec (syscallEnable twoSymbols) id
    (irqStub twoSymbols 32)))

/-- The handler comes back. -/
def twoHandled : Contexts Bool :=
  twoInterrupted.after twoThreads twoSymbols (.work (twoInterrupted.cpu.set .rsp (0x2000 - 176)))

theorem trap_returns_two :
    twoHandled.cpu.exec (syscallEnable twoSymbols) id trapReturn = { twoBoot.cpu with mem := twoHandled.cpu.mem } :=
  @trap_returns Bool twoThreads _ twoSymbols (syscallEnable twoSymbols) id 32 _ twoBoot.cpu false [] twoBoot twoInterrupted
    twoHandled false twoSymbols.irqHandler twoSymbols.irqBack 0 8 0x32 none twoThreads_fits (.nil _) rfl (by decide +kernel)
    (by decide +kernel)
    (by
      intro t saved
      cases saved)
    (Contexts.after_step _ _)
    (.cons (Contexts.allowed_ret _ _ _ _) (Contexts.after_step _ _) (.nil _))
    (set_rsp _ _)

section
variable {s₁ s₂ s₃ : Contexts T} {next : Word}

omit [DecidableEq T] in
theorem StackLayout.Fits.syscallFrame_toNat (fits : layout.Fits) (t : T) :
    (layout.syscallFrame t).toNat = layout.top t - 176 ∧ (BitVec.ofNat 64 (layout.top t)).toNat = layout.top t := by
  have bound := fits.bound t
  have room := fits.room t
  have isTop : (BitVec.ofNat 64 (layout.top t)).toNat = layout.top t := by
    rw [BitVec.toNat_ofNat]
    exact Nat.mod_eq_of_lt bound
  refine ⟨?_, isTop⟩
  unfold StackLayout.syscallFrame
  bv_omega

omit [DecidableEq T] in
theorem StackLayout.Fits.syscallFrame_inStack (fits : layout.Fits) {address : Word}
    (within : Within (layout.syscallFrame t) 22 address) : layout.inStack t address := by
  have room := fits.room t
  have atFrame := (fits.syscallFrame_toNat t).1
  unfold Within at within
  unfold StackLayout.inStack
  omega

/-- The frame of the system call stands on the stack while the thread is in the kernel. -/
theorem EntersSyscall.frame (fits : layout.Fits) (inv : s₁.Inv layout)
    (syscall : EntersSyscall layout symbols msrs status s₁ next s₂)
    (run : Run (Contexts.step layout symbols msrs status)
      (fun s op => s.allowed layout op ∧ s.leavesCells s₁.current (layout.syscallCells s₁.current) op) s₂ ops s₃) :
    s₃.Inv layout ∧ FrameAt s₃.cpu.mem (layout.syscallFrame s₁.current)
      (trapFrame (syscallUser s₁.cpu next
        (s₃.cpu.mem (layout.syscallFrame s₁.current + stateOffset (.gpr .rax)))) 57 0 next 0x23 s₁.cpu.rflags s₁.cpu.rsp 0x1B) := by
  obtain ⟨top, scratch, enters, entered⟩ := syscall
  have inv₂ := inv.step fits enters entered
  have room := fits.room s₁.current
  obtain ⟨atFrame, isTop⟩ := fits.syscallFrame_toNat s₁.current
  obtain ⟨pushed, atSp, _⟩ := @syscallEntry_pushes s₁.cpu symbols msrs status _ next top (by omega) (by
    intro inside
    apply scratch
    unfold Within at inside
    unfold StackLayout.inStack
    bv_omega)
  cases entered
  have inside : ∀ address ∈ layout.syscallCells s₁.current, layout.inStack s₁.current address :=
    fun _ member => fits.syscallFrame_inStack member.1
  obtain ⟨inv₃, _, kept⟩ := cells_kept fits inv₂ (Or.inl rfl) inside run
  have saved := pushed.2
  rw [atSp] at saved
  have behind : BitVec.ofNat 64 (layout.top s₁.current) - 184 + 8 = layout.syscallFrame s₁.current := by
    unfold StackLayout.syscallFrame
    bv_omega
  rw [behind] at saved
  refine ⟨inv₃, trapFrame_rax saved ?_ ?_⟩
  · have bound := fits.bound s₁.current
    omega
  · intro address within notRax
    exact kept address ⟨within, notRax⟩

/-- A system call goes back to the user behind `syscall` with the result of its handler in `rax`. -/
theorem syscall_returns {cpu : Cpu} {boot : T} {before : List (ContextOp T)} (fits : layout.Fits)
    (enabled : msrs = syscallEnable symbols)
    (reached : Run (Contexts.step layout symbols msrs status) (fun s op => s.allowed layout op) (.start cpu boot) before s₁)
    (syscall : EntersSyscall layout symbols msrs status s₁ next s₂)
    (run : Run (Contexts.step layout symbols msrs status)
      (fun s op => s.allowed layout op ∧ s.leavesCells s₁.current (layout.syscallCells s₁.current) op) s₂ ops s₃)
    (returned : s₃.cpu.rsp = layout.syscallFrame s₁.current) :
    let u := s₃.cpu.exec msrs status syscallReturn
    u.rip = next ∧ u.rsp = s₁.cpu.rsp ∧ u.rflags = (s₁.cpu.rflags &&& sysretFlags) ||| 2 ∧ u.cs = 0x23 ∧ u.ss = 0x1B ∧
      u.reg .rax = s₃.cpu.mem (layout.syscallFrame s₁.current + stateOffset (.gpr .rax)) ∧ u.reg .rcx = next ∧
      u.reg .r11 = s₁.cpu.rflags ∧ ∀ r, r ≠ .rax → r ≠ .rcx → r ≠ .r11 → u.reg r = s₁.cpu.reg r := by
  obtain ⟨_, frame⟩ := syscall.frame fits (contexts_inv fits reached) run
  rw [← returned] at frame
  obtain ⟨rip, rflags, rsp, rcx, r11, others, cs, ss, _⟩ := @syscallReturn_restores s₃.cpu msrs status _ _ _ _ _ _ _ _ frame
  intro u
  refine ⟨rip, rsp, rflags, ?_, ?_, ?_, rcx, r11, ?_⟩
  · rw [cs, enabled, syscallEnable_star]
    decide
  · rw [ss, enabled, syscallEnable_star]
    decide
  · rw [others .rax (by decide) (by decide) (by decide), syscallUser, Function.update_self, returned]
  · intro r notRax notRcx notR11
    by_cases isSp : r = .rsp
    · rw [isSp]
      exact rsp
    · rw [others r notRcx notR11 isSp, syscallUser, Function.update_of_ne notRax, if_neg notRcx, if_neg notR11]

/-- The boot thread executes `syscall`. -/
def twoCalled : Contexts Bool :=
  twoBoot.after twoThreads twoSymbols (.work ((twoBoot.cpu.syscall (syscallEnable twoSymbols) 0x58).exec (syscallEnable twoSymbols)
    id (syscallEntry twoSymbols)))

/-- The dispatcher comes back. -/
def Contexts.dispatched (s : Contexts Bool) : Contexts Bool :=
  s.after twoThreads twoSymbols (.work (s.cpu.set .rsp (twoThreads.syscallFrame false)))

theorem twoCalled_enters : EntersSyscall twoThreads twoSymbols (syscallEnable twoSymbols) id twoBoot 0x58 twoCalled := by
  refine ⟨rfl, ?_, ?_, Contexts.after_step _ _⟩
  · unfold StackLayout.inStack
    decide
  · intro t saved
    cases saved

theorem syscall_returns_two :
    let u := twoCalled.dispatched.cpu.exec (syscallEnable twoSymbols) id syscallReturn
    u.rip = 0x58 ∧ u.rsp = twoBoot.cpu.rsp ∧ u.rflags = (twoBoot.cpu.rflags &&& sysretFlags) ||| 2 ∧ u.cs = 0x23 ∧
      u.ss = 0x1B ∧ u.reg .rax = twoCalled.dispatched.cpu.mem (twoThreads.syscallFrame false + stateOffset (.gpr .rax)) ∧
      u.reg .rcx = 0x58 ∧ u.reg .r11 = twoBoot.cpu.rflags ∧
      ∀ r, r ≠ .rax → r ≠ .rcx → r ≠ .r11 → u.reg r = twoBoot.cpu.reg r :=
  @syscall_returns Bool twoThreads _ twoSymbols (syscallEnable twoSymbols) id _ twoBoot twoCalled twoCalled.dispatched 0x58
    twoBoot.cpu false [] twoThreads_fits rfl (.nil _) twoCalled_enters
    (.cons (Contexts.allowed_ret _ _ _ _) (Contexts.after_step _ _) (.nil _))
    (set_rsp _ _)

/-- A fork comes back twice: the child starts in the state in which the parent goes on, but for the result 0. -/
theorem fork_returns_twice {cpu : Cpu} {boot child : T} {before inKernel onward away : List (ContextOp T)}
    {s₄ s₅ s₆ s₇ : Contexts T} {back : Word} (fits : layout.Fits)
    (reached : Run (Contexts.step layout symbols msrs status) (fun s op => s.allowed layout op) (.start cpu boot) before s₁)
    (syscall : EntersSyscall layout symbols msrs status s₁ next s₂)
    (run : Run (Contexts.step layout symbols msrs status)
      (fun s op => s.allowed layout op ∧ s.leavesCells s₁.current (layout.syscallCells s₁.current) op) s₂ inKernel s₃)
    (parent : s₃.current = s₁.current)
    (forks : s₃.allowed layout (.create child (.forked (layout.syscallFrame s₁.current))))
    (forked : s₃.step layout symbols msrs status (.create child (.forked (layout.syscallFrame s₁.current))) = .ok s₄)
    (runParent : Run (Contexts.step layout symbols msrs status)
      (fun s op => s.allowed layout op ∧ s.leavesCells s₁.current (layout.syscallCells s₁.current) op) s₄ onward s₅)
    (returned : s₅.cpu.rsp = layout.syscallFrame s₁.current)
    (runChild : Run (Contexts.step layout symbols msrs status) (fun s op => s.allowed layout op) s₄ away s₆)
    (untouched : ∀ op ∈ away, ¬op.touches child) (starts : s₆.allowed layout (.switch child back))
    (started : s₆.step layout symbols msrs status (.switch child back) = .ok s₇) :
    let u := s₅.cpu.exec msrs status syscallReturn
    let v := s₇.cpu.exec msrs status forkChildReturn
    v.reg .rax = 0 ∧ (∀ r ≠ .rax, v.reg r = u.reg r) ∧ v.rip = u.rip ∧ v.rflags = u.rflags ∧ v.cs = u.cs ∧ v.ss = u.ss := by
  have inv₁ := contexts_inv fits reached
  obtain ⟨inv₃, frame₃⟩ := syscall.frame fits inv₁ run
  have whole := run.append (Run.cons ⟨forks, trivial⟩ forked runParent)
  obtain ⟨_, frame₅⟩ := syscall.frame fits inv₁ whole
  rw [← returned] at frame₅
  obtain ⟨rip, rflags, rsp, rcx, r11, others, cs, ss, _⟩ := @syscallReturn_restores s₅.cpu msrs status _ _ _ _ _ _ _ _ frame₅
  have inside (r : UserReg) : layout.inStack s₃.current (layout.syscallFrame s₁.current + stateOffset r) := by
    rw [parent]
    apply fits.syscallFrame_inStack
    have atFrame := (fits.syscallFrame_toNat s₁.current).1
    have bound := fits.bound s₁.current
    have room := fits.room s₁.current
    have small : ∀ r ∈ forkUserRegs, (stateOffset r).toNat < 176 := by decide
    have isSmall := small r (mem_forkUserRegs r)
    unfold Within
    bv_omega
  have begins := inv₃.starts_forked fits inside forks forked runChild untouched starts started
  have stored (r : UserReg) : s₃.cpu.mem (layout.syscallFrame s₁.current + stateOffset r) = _ := trapFrame_reads frame₃ r
  obtain ⟨_, _, entry, flags, zero, regs, cs', ss'⟩ := begins
  intro u v
  refine ⟨zero, ?_, ?_, ?_, cs'.trans cs.symm, ss'.trans ss.symm⟩
  · intro r notRax
    have loaded : v.reg r = _ := (regs r notRax).trans (stored (forkSource r))
    rw [loaded]
    by_cases isSp : r = .rsp
    · rw [isSp]
      exact rsp.symm
    · by_cases isRcx : r = .rcx
      · rw [isRcx]
        exact rcx.symm
      · by_cases isR11 : r = .r11
        · rw [isR11]
          exact r11.symm
        · rw [others r isRcx isR11 isSp, userValue_forkSource isRcx isR11 isSp, syscallUser, syscallUser,
            Function.update_of_ne notRax, Function.update_of_ne notRax]
  · exact entry.trans ((stored .rip).trans rip.symm)
  · rw [flags, stored .rflags]
    exact rflags.symm

/-- The system call forks a child. -/
def twoForks : Contexts Bool :=
  twoCalled.after twoThreads twoSymbols (.create true (.forked (twoThreads.syscallFrame false)))

/-- The parent before its call of `context_switch`. -/
def twoParent : Contexts Bool := twoForks.after twoThreads twoSymbols (twoForks.calls twoThreads true)

theorem twoCalled_forks :
    twoCalled.allowed twoThreads (.create true (.forked (twoThreads.syscallFrame false))) := by
  have only {u : Bool} (lives : twoCalled.lives u) : u = false := lives.resolve_right (by
    intro saved
    cases saved)
  refine ⟨fun lives => Bool.noConfusion (only lives), ?_⟩
  intro u lives
  rw [only lives]
  exact twoThreads_apart

theorem twoParent_switches : twoParent.allowed twoThreads (.switch true 0x60) :=
  Contexts.allowed_switch _ _ _ (by decide) rfl (by decide +kernel) (by decide +kernel) (by decide +kernel)

theorem dispatched_rsp (s : Contexts Bool) : s.dispatched.cpu.rsp = twoThreads.syscallFrame false := set_rsp _ _

theorem fork_returns_twice_two :
    let u := twoForks.dispatched.cpu.exec (syscallEnable twoSymbols) id syscallReturn
    let v := (twoParent.after twoThreads twoSymbols (.switch true 0x60)).cpu.exec (syscallEnable twoSymbols) id forkChildReturn
    v.reg .rax = 0 ∧ (∀ r ≠ .rax, v.reg r = u.reg r) ∧ v.rip = u.rip ∧ v.rflags = u.rflags ∧ v.cs = u.cs ∧ v.ss = u.ss :=
  @fork_returns_twice Bool twoThreads twoSymbols (syscallEnable twoSymbols) id _ twoBoot twoCalled twoCalled 0x58 twoBoot.cpu
    false true [] [] _ _ twoForks twoForks.dispatched twoParent _ 0x60 twoThreads_fits (.nil _) twoCalled_enters (.nil _) rfl
    twoCalled_forks (Contexts.after_step _ _)
    (.cons (Contexts.allowed_ret _ _ _ _) (Contexts.after_step _ _) (.nil _))
    (dispatched_rsp _)
    (.cons (Contexts.allowed_calls _ _) (Contexts.after_step _ _) (.nil _))
    (by
      intro op member touched
      rw [List.mem_singleton.mp member] at touched
      exact touched)
    twoParent_switches (Contexts.after_step _ _)

end

end

end DoccrOS.Proc
