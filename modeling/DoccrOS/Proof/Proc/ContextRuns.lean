import DoccrOS.Proof.Proc.Context

namespace DoccrOS.Proc
open Lib

variable {T : Type}

/-- The stacks have room for the largest frame, and the saved registers of a thread stand outside of its stack. -/
structure StackLayout.Fits (layout : StackLayout T) : Prop where
  bound : ∀ t, layout.top t < 2 ^ 64
  aligned : ∀ t, layout.top t % 8 = 0
  room : ∀ t, layout.base t + 184 ≤ layout.top t
  slot : ∀ t, ¬layout.inStack t (layout.slot t)
  fork : ∀ t, ∀ r ∈ forkUserRegs, ¬layout.inStack t (threadField (layout.thread t) (.forkUser r))

/-- The cells that a suspended thread finds unchanged: those of its stack above the stack pointer and its saved registers. -/
def StackLayout.keeps (layout : StackLayout T) (t : T) (k : Cpu) : Set Word :=
  {address | address ∈ layout.own t ∧ address ≠ layout.slot t ∧ (layout.inStack t address → k.rsp.toNat ≤ address.toNat)}

/-- The thread is switched out: its stack holds its state, and `t->rsp` points to it. -/
structure Suspended (layout : StackLayout T) (t : T) (k : Cpu) (mem : Word → Word) : Prop where
  slot : mem (layout.slot t) = k.rsp - 64
  low : layout.base t + 64 ≤ k.rsp.toNat
  high : k.rsp.toNat ≤ layout.top t
  frame : FrameAt mem (k.rsp - 64) (switchFrame k)
  above : ∀ address ∈ layout.keeps t k, mem address = k.mem address

/-- Every thread that does not run is switched out, and no two threads share a cell. -/
structure Contexts.Inv (layout : StackLayout T) (s : Contexts T) : Prop where
  suspended : ∀ t k, s.saved t = some k → t ≠ s.current ∧ Suspended layout t k s.cpu.mem
  apart : ∀ t u, s.lives t → s.lives u → t ≠ u → Disjoint (layout.own t) (layout.own u)

section
variable {layout : StackLayout T} {t u : T} {k c : Cpu} {mem mem' : Word → Word} {address sp : Word} {values : List Word}
  {symbols : Symbols} {new : NewThread}

theorem StackLayout.slot_own (layout : StackLayout T) (t : T) : layout.slot t ∈ layout.own t := Or.inr (Or.inl rfl)

theorem StackLayout.stack_own (inside : layout.inStack t address) : address ∈ layout.own t := Or.inl inside

/-- The cells of the frame lie in the stack. -/
theorem frame_inStack (low : layout.base t + 64 ≤ k.rsp.toNat) (high : k.rsp.toNat ≤ layout.top t)
    (inside : Within (k.rsp - 64) 8 address) : layout.inStack t address := by
  unfold Within at inside
  unfold StackLayout.inStack
  bv_omega

/-- A thread stays switched out while nobody writes to its cells. -/
theorem Suspended.congr (suspended : Suspended layout t k mem) (same : ∀ address ∈ layout.own t, mem' address = mem address) :
    Suspended layout t k mem' := by
  obtain ⟨slot, low, high, frame, above⟩ := suspended
  refine ⟨?_, low, high, ?_, ?_⟩
  · rw [same _ (layout.slot_own t)]
    exact slot
  · apply frame.congr
    · change (k.rsp - 64).toNat + 64 ≤ 2 ^ 64
      bv_omega
    · intro address inside
      exact same address (StackLayout.stack_own (frame_inStack low high inside))
  · intro address inside
    rw [same address inside.1]
    exact above address inside

/-- The stores of a creation push their values. -/
theorem storeDown_pushed {before : List Word} {c' : Cpu} (pushed : Pushed c c' before)
    (room : 8 * (before.length + values.length) ≤ c.rsp.toNat) :
    ∃ last, storeDown c'.mem c'.rsp values = (last.rsp, last.mem) ∧ Pushed c last (values.reverse ++ before) := by
  induction values generalizing c' before with
  | nil => exact ⟨c', rfl, pushed⟩
  | cons value values inductionHypothesis =>
      rw [List.length_cons] at room
      have next := pushed.push (by omega) value
      obtain ⟨last, stored, rest⟩ := inductionHypothesis next (by
        rw [List.length_cons]
        omega)
      refine ⟨last, ?_, ?_⟩
      · rw [← stored, push_rsp, push_mem]
        rfl
      · rw [List.reverse_cons, List.append_assoc]
        exact rest

/-- The values of a creation stand on the new stack in the order of the pops. -/
theorem storeDown_spec (room : 8 * values.length ≤ sp.toNat) :
    (storeDown mem sp values).1 = sp - BitVec.ofNat 64 (8 * values.length) ∧
      FrameAt (storeDown mem sp values).2 (sp - BitVec.ofNat 64 (8 * values.length)) values.reverse ∧
      ∀ address, ¬Within (sp - BitVec.ofNat 64 (8 * values.length)) values.length address →
        (storeDown mem sp values).2 address = mem address := by
  have room' : 8 * (([] : List Word).length + values.length) ≤ (Cpu.mk (fun _ => sp) 0 0 0 0 mem).rsp.toNat := by
    rw [List.length_nil, Nat.zero_add]
    exact room
  obtain ⟨last, stored, pushed⟩ := storeDown_pushed (Pushed.nil (Cpu.mk (fun _ => sp) 0 0 0 0 mem)) room'
  change storeDown mem sp values = _ at stored
  rw [List.append_nil] at pushed
  have isSp := pushed.rsp
  have kept := pushed.kept
  have frame := pushed.frame
  rw [List.length_reverse] at isSp kept
  change last.rsp = sp - _ at isSp
  rw [isSp] at kept frame
  rw [stored]
  exact ⟨isSp, frame, kept⟩

/-- The values of a creation, from the last one on. -/
theorem NewThread.values_frame (thread top : Word) (cpu : Cpu) (new : NewThread) :
    (new.values symbols thread).reverse = switchFrame (new.context symbols thread top cpu) ∧
      (new.values symbols thread).length = 8 := by
  cases new with
  | kernel entry arg => exact ⟨rfl, rfl⟩
  | user entry arg userStackTop => exact ⟨rfl, rfl⟩
  | forked frame => exact ⟨rfl, rfl⟩

/-- The stores to the saved registers of the child write nothing else. -/
theorem forkStores_kept {thread frame : Word} (outside : ∀ r ∈ forkUserRegs, address ≠ threadField thread (.forkUser r)) :
    forkStores mem thread frame address = mem address := by
  unfold forkStores
  generalize forkUserRegs = regs at outside ⊢
  induction regs generalizing mem with
  | nil => rfl
  | cons r regs inductionHypothesis =>
      rw [List.foldl_cons, inductionHypothesis fun r' member => outside r' (List.mem_cons_of_mem r member),
        Function.update_of_ne (outside r List.mem_cons_self)]

/-- The memory before the pushes of a creation. -/
def NewThread.prepared (mem : Word → Word) (thread : Word) : NewThread → Word → Word
  | .forked frame => forkStores mem thread frame
  | _ => mem

theorem NewThread.create_eq (thread top : Word) (new : NewThread) :
    new.create symbols mem thread top = Function.update (storeDown (new.prepared mem thread) top (new.values symbols thread)).2
      (threadField thread .rsp) (storeDown (new.prepared mem thread) top (new.values symbols thread)).1 := by
  cases new <;> rfl

/-- A creation writes to the cells of the new thread alone, and it leaves the thread switched out. -/
theorem NewThread.create_spec (fits : layout.Fits) (cpu : Cpu) :
    (∀ address ∉ layout.own t,
      new.create symbols cpu.mem (layout.thread t) (BitVec.ofNat 64 (layout.top t)) address = cpu.mem address) ∧
    Suspended layout t (new.context symbols (layout.thread t) (BitVec.ofNat 64 (layout.top t)) cpu)
      (new.create symbols cpu.mem (layout.thread t) (BitVec.ofNat 64 (layout.top t))) := by
  obtain ⟨isFrame, count⟩ :=
    @NewThread.values_frame symbols (layout.thread t) (BitVec.ofNat 64 (layout.top t)) cpu new
  have bound := fits.bound t
  have low := fits.room t
  have isTop : (BitVec.ofNat 64 (layout.top t)).toNat = layout.top t := by
    rw [BitVec.toNat_ofNat]
    exact Nat.mod_eq_of_lt bound
  obtain ⟨isSp, frame, kept⟩ := @storeDown_spec (new.prepared cpu.mem (layout.thread t)) (BitVec.ofNat 64 (layout.top t))
    (new.values symbols (layout.thread t)) (by rw [count, isTop]; omega)
  rw [count] at isSp frame kept
  rw [isFrame] at frame
  have cells {address : Word} (inside : Within (BitVec.ofNat 64 (layout.top t) - BitVec.ofNat 64 (8 * 8)) 8 address) :
      layout.inStack t address := by
    unfold Within at inside
    unfold StackLayout.inStack
    bv_omega
  have isSlot : threadField (layout.thread t) .rsp = layout.slot t := rfl
  have atSp : (new.context symbols (layout.thread t) (BitVec.ofNat 64 (layout.top t)) cpu).rsp =
      BitVec.ofNat 64 (layout.top t) := rfl
  constructor
  · intro address outside
    have notSlot : address ≠ layout.slot t := fun same => outside (same ▸ layout.slot_own t)
    rw [NewThread.create_eq, isSlot, Function.update_of_ne notSlot, kept]
    · cases new with
      | kernel entry arg => rfl
      | user entry arg userStackTop => rfl
      | forked frame =>
          apply forkStores_kept
          rintro r member rfl
          exact outside (Or.inr (Or.inr ⟨r, member, rfl⟩))
    · intro inside
      exact outside (StackLayout.stack_own (cells inside))
  · refine ⟨?_, ?_, ?_, ?_, ?_⟩
    · rw [NewThread.create_eq, isSlot, Function.update_self, isSp, atSp]
      rfl
    · rw [atSp, isTop]
      exact Nat.le_trans (Nat.add_le_add_left (by decide) _) low
    · rw [atSp, isTop]
    · rw [atSp, NewThread.create_eq]
      apply frame.congr
      · change (BitVec.ofNat 64 (layout.top t) - 64).toNat + 64 ≤ 2 ^ 64
        bv_omega
      · intro address inside
        apply Function.update_of_ne
        rintro rfl
        exact fits.slot t (cells inside)
    · intro address _
      rfl

/-- A switch between two threads, of which the next one is switched out. -/
theorem switch_spec {msrs : SyscallMsrs} {status : Word → Word} {back : Word} (fits : layout.Fits)
    (apart : Disjoint (layout.own t) (layout.own u)) (suspended : Suspended layout t k c.mem)
    (own : c.reg .rdi = layout.slot u) (next : c.reg .rsi = c.mem (layout.slot t))
    (low : layout.base u + 64 ≤ c.rsp.toNat) (high : c.rsp.toNat ≤ layout.top u) :
    let c' := Cpu.exec msrs status contextSwitch (c.push back)
    Resumed k c' ∧ Suspended layout u { c with rip := back } c'.mem ∧
      ∀ address ∉ layout.own u, c'.mem address = c.mem address := by
  intro c'
  have atNext : c.reg .rsi = k.rsp - 64 := next.trans suspended.slot
  have lowNext := suspended.low
  have highNext := suspended.high
  have mine {address : Word} (inside : Within (c.rsp - 64) 8 address) : layout.inStack u address :=
    @frame_inStack T layout u c address low high inside
  have others {address : Word} (inside : Within (c.reg .rsi) 8 address) : address ∉ layout.own u := by
    rw [atNext] at inside
    exact Set.disjoint_left.mp apart (StackLayout.stack_own (frame_inStack lowNext highNext inside))
  have notFrame : ∀ address, Within (c.reg .rsi) 8 address → ¬Within (c.rsp - 64) 8 address ∧ address ≠ c.reg .rdi := by
    intro address inside
    constructor
    · exact fun within => others inside (StackLayout.stack_own (mine within))
    · rintro rfl
      rw [own] at inside
      exact others inside (layout.slot_own u)
  have isSlot : ¬Within (c.rsp - 64) 8 (c.reg .rdi) := by
    intro inside
    rw [own] at inside
    exact fits.slot u (mine inside)
  obtain ⟨frame, stored, kept, rip, rflags, _, _, rsp, regs⟩ := @contextSwitch_spec c k back msrs status (by omega)
    (atNext ▸ suspended.frame) (by rw [atNext]; bv_omega) notFrame isSlot
  refine ⟨⟨regs, ?_, rflags, rip⟩, ⟨?_, low, high, frame, ?_⟩, ?_⟩
  · rw [rsp, atNext]
    exact BitVec.sub_add_cancel _ _
  · rw [← own]
    exact stored
  · rintro address ⟨inside, notSlot, above⟩
    apply kept
    · intro within
      have least : c.rsp.toNat ≤ address.toNat := above (mine within)
      unfold Within at within
      bv_omega
    · rw [own]
      exact notSlot
  · intro address outside
    apply kept
    · exact fun inside => outside (StackLayout.stack_own (mine inside))
    · rintro rfl
      rw [own] at outside
      exact outside (layout.slot_own u)

theorem Contexts.lives_of_saved {s : Contexts T} (saved : s.saved t = some k) : s.lives t := Or.inr (by rw [saved]; rfl)

variable [DecidableEq T] {msrs : SyscallMsrs} {status : Word → Word} {s s' : Contexts T} {op : ContextOp T}

/-- Every step keeps the other threads switched out. -/
theorem Contexts.Inv.step (fits : layout.Fits) (inv : s.Inv layout) (permitted : s.allowed layout op)
    (returned : s.step layout symbols msrs status op = .ok s') : s'.Inv layout := by
  cases op with
  | work cpu =>
      cases returned
      refine ⟨?_, inv.apart⟩
      intro t k saved
      obtain ⟨away, suspended⟩ := inv.suspended t k saved
      exact ⟨away, suspended.congr (permitted t (by rw [saved]; rfl))⟩
  | create t new =>
      cases returned
      obtain ⟨isNew, isFree⟩ := permitted
      obtain ⟨elsewhere, created⟩ := @NewThread.create_spec T layout t symbols new fits s.cpu
      have old {u : T} (lives : Contexts.lives { s with
          saved := Function.update s.saved t (some (new.context symbols (layout.thread t) (BitVec.ofNat 64 (layout.top t)) s.cpu)) }
          u) (other : u ≠ t) : s.lives u := by
        rcases lives with isCurrent | isSaved
        · exact Or.inl isCurrent
        · right
          change (Function.update s.saved t _ u).isSome = true at isSaved
          rw [Function.update_of_ne other] at isSaved
          exact isSaved
      constructor
      · intro u k saved
        change Function.update s.saved t _ u = some k at saved
        by_cases here : u = t
        · subst here
          rw [Function.update_self] at saved
          rw [← Option.some.inj saved]
          exact ⟨fun isCurrent => isNew (Or.inl isCurrent), created⟩
        · rw [Function.update_of_ne here] at saved
          obtain ⟨away, suspended⟩ := inv.suspended u k saved
          refine ⟨away, suspended.congr ?_⟩
          intro address inside
          exact elsewhere address (Set.disjoint_right.mp (isFree u (Contexts.lives_of_saved saved)) inside)
      · intro u v lives lives' different
        by_cases here : u = t
        · subst here
          exact isFree v (old lives' (Ne.symm different))
        · by_cases here' : v = t
          · subst here'
            exact (isFree u (old lives here)).symm
          · exact inv.apart u v (old lives here) (old lives' here') different
  | destroy t =>
      cases returned
      have old {u : T} (lives : Contexts.lives { s with saved := Function.update s.saved t none } u) : s.lives u := by
        rcases lives with isCurrent | isSaved
        · exact Or.inl isCurrent
        · right
          change (Function.update s.saved t none u).isSome = true at isSaved
          rw [Function.update_apply] at isSaved
          split at isSaved
          · cases isSaved
          · exact isSaved
      refine ⟨?_, fun u v lives lives' => inv.apart u v (old lives) (old lives')⟩
      intro u k saved
      change Function.update s.saved t none u = some k at saved
      rw [Function.update_apply] at saved
      split at saved
      · cases saved
      · exact inv.suspended u k saved
  | switch next back =>
      cases returned
      obtain ⟨different, isSaved, own, atNext, _, low, high⟩ := permitted
      obtain ⟨k, saved⟩ := Option.isSome_iff_exists.mp isSaved
      have apart := inv.apart next s.current (Or.inr isSaved) (Or.inl rfl) different
      obtain ⟨_, away, kept⟩ := @switch_spec T layout next s.current k s.cpu msrs status back fits apart
        (inv.suspended next k saved).2 own atNext low high
      have saves (u : T) : (Function.update (Function.update s.saved s.current (some { s.cpu with rip := back })) next none) u =
          if u = next then none else if u = s.current then some { s.cpu with rip := back } else s.saved u := by
        rw [Function.update_apply, Function.update_apply]
      constructor
      · intro u k' saved'
        change Function.update (Function.update s.saved s.current _) next none u = some k' at saved'
        rw [saves] at saved'
        split at saved'
        · cases saved'
        · rename_i notNext
          refine ⟨notNext, ?_⟩
          split at saved'
          · rename_i isCurrent
            rw [isCurrent, ← Option.some.inj saved']
            exact away
          · rename_i notCurrent
            refine (inv.suspended u k' saved').2.congr ?_
            intro address inside
            have apart' := inv.apart u s.current (Contexts.lives_of_saved saved') (Or.inl rfl) notCurrent
            exact kept address (Set.disjoint_left.mp apart' inside)
      · have old {u : T} (lives : Contexts.lives ⟨Cpu.exec msrs status contextSwitch (s.cpu.push back), next,
            Function.update (Function.update s.saved s.current (some { s.cpu with rip := back })) next none⟩ u) : s.lives u := by
          rcases lives with isNext | isSaved'
          · rw [isNext]
            exact Or.inr isSaved
          · change (Function.update (Function.update s.saved s.current _) next none u).isSome = true at isSaved'
            rw [saves] at isSaved'
            split at isSaved'
            · cases isSaved'
            · split at isSaved'
              · rename_i isCurrent
                exact Or.inl isCurrent
              · exact Or.inr isSaved'
        exact fun u v lives lives' => inv.apart u v (old lives) (old lives')

/-- The step ends the time of a thread away from the processor. -/
def ContextOp.touches (t : T) : ContextOp T → Prop
  | .work _ | .create _ _ => False
  | .destroy u => u = t
  | .switch next _ => next = t

/-- A thread that no step touches stays switched out. -/
theorem saved_kept {ops : List (ContextOp T)} {saved : Cpu} (away : t ≠ s.current) (isSaved : s.saved t = some saved)
    (run : Run (Contexts.step layout symbols msrs status) (fun s op => s.allowed layout op) s ops s')
    (untouched : ∀ op ∈ ops, ¬op.touches t) : s'.saved t = some saved := by
  induction run with
  | nil s => exact isSaved
  | @cons s middle s' op ops permitted returned rest inductionHypothesis =>
      have notHere := untouched op List.mem_cons_self
      have later := fun op member => untouched op (List.mem_cons_of_mem _ member)
      cases op with
      | work cpu =>
          cases returned
          exact inductionHypothesis away isSaved later
      | create u new =>
          cases returned
          have different : t ≠ u := by
            rintro rfl
            exact permitted.1 (Contexts.lives_of_saved isSaved)
          exact inductionHypothesis away ((Function.update_of_ne different _ _).trans isSaved) later
      | destroy u =>
          cases returned
          exact inductionHypothesis away ((Function.update_of_ne (Ne.symm notHere) _ _).trans isSaved) later
      | switch next back =>
          cases returned
          apply inductionHypothesis (Ne.symm notHere) _ later
          change Function.update (Function.update s.saved s.current _) next none t = some saved
          rw [Function.update_of_ne (Ne.symm notHere), Function.update_of_ne away]
          exact isSaved

/-- The processor starts with one thread. -/
def Contexts.start (cpu : Cpu) (current : T) : Contexts T := ⟨cpu, current, fun _ => none⟩

theorem Contexts.Inv.run {ops : List (ContextOp T)} (fits : layout.Fits) (inv : s.Inv layout)
    (run : Run (Contexts.step layout symbols msrs status) (fun s op => s.allowed layout op) s ops s') : s'.Inv layout :=
  run.invariant (Contexts.Inv layout) (fun _ _ _ inv permitted returned => inv.step fits permitted returned) inv

theorem contexts_inv {cpu : Cpu} {boot : T} {ops : List (ContextOp T)} (fits : layout.Fits)
    (run : Run (Contexts.step layout symbols msrs status) (fun s op => s.allowed layout op) (.start cpu boot) ops s) :
    s.Inv layout := by
  apply Contexts.Inv.run fits _ run
  constructor
  · intro t k saved
    cases saved
  · intro t u lives lives' different
    have here {v : T} (lives : (Contexts.start cpu boot).lives v) : v = boot := lives.resolve_right (by
      intro saved
      cases saved)
    exact absurd ((here lives).trans (here lives').symm) different

/-- What a thread sees when it goes on behind any steps of the others. -/
theorem Contexts.Inv.resume {ops : List (ContextOp T)} {s₁ s₂ : Contexts T} {back : Word} (fits : layout.Fits)
    (inv : s.Inv layout) (isSaved : s.saved t = some k)
    (run : Run (Contexts.step layout symbols msrs status) (fun s op => s.allowed layout op) s ops s₁)
    (untouched : ∀ op ∈ ops, ¬op.touches t) (permitted : s₁.allowed layout (.switch t back))
    (returned : s₁.step layout symbols msrs status (.switch t back) = .ok s₂) :
    Resumed k s₂.cpu ∧ ∀ address ∈ layout.keeps t k, s₂.cpu.mem address = k.mem address := by
  have saved₁ := saved_kept (inv.suspended t k isSaved).1 isSaved run untouched
  have inv₁ := inv.run fits run
  have suspended := (inv₁.suspended t k saved₁).2
  obtain ⟨different, lives, own, atNext, _, low, high⟩ := permitted
  have apart := inv₁.apart t s₁.current (Or.inr lives) (Or.inl rfl) different
  cases returned
  obtain ⟨resumed, _, kept⟩ := @switch_spec T layout t s₁.current k s₁.cpu msrs status back fits apart suspended own
    atNext low high
  refine ⟨resumed, ?_⟩
  intro address inside
  rw [← suspended.above address inside]
  exact kept address (Set.disjoint_left.mp apart inside.1)

/-- A thread that calls `context_switch` goes on behind the call with its registers, its flags and its stack, whatever the other
threads do in between. -/
theorem context_switch_resumes {cpu : Cpu} {boot next : T} {ops between : List (ContextOp T)} {s₁ s₂ s₃ s₄ : Contexts T}
    {back back' : Word} (fits : layout.Fits)
    (reached : Run (Contexts.step layout symbols msrs status) (fun s op => s.allowed layout op) (.start cpu boot) ops s₁)
    (leaves : s₁.allowed layout (.switch next back))
    (left : s₁.step layout symbols msrs status (.switch next back) = .ok s₂)
    (away : Run (Contexts.step layout symbols msrs status) (fun s op => s.allowed layout op) s₂ between s₃)
    (untouched : ∀ op ∈ between, ¬op.touches s₁.current) (returns : s₃.allowed layout (.switch s₁.current back'))
    (resumed : s₃.step layout symbols msrs status (.switch s₁.current back') = .ok s₄) :
    Resumed { s₁.cpu with rip := back } s₄.cpu ∧
      ∀ address ∈ layout.keeps s₁.current s₁.cpu, s₄.cpu.mem address = s₁.cpu.mem address := by
  have inv₂ := (contexts_inv fits reached).step fits leaves left
  have isSaved : s₂.saved s₁.current = some { s₁.cpu with rip := back } := by
    cases left
    change Function.update (Function.update s₁.saved s₁.current _) next none s₁.current = _
    rw [Function.update_of_ne (Ne.symm leaves.1), Function.update_self]
  exact inv₂.resume fits isSaved away untouched returns resumed

/-- The state behind a step. -/
def Contexts.after (layout : StackLayout T) (symbols : Symbols) (s : Contexts T) (op : ContextOp T) : Contexts T :=
  (s.step layout symbols (syscallEnable symbols) id op).toOption.getD s

/-- The current thread loads the arguments of `context_switch`. -/
def Contexts.calls (layout : StackLayout T) (s : Contexts T) (next : T) : ContextOp T :=
  .work { s.cpu with
    reg := Function.update (Function.update s.cpu.reg .rdi (layout.slot s.current)) .rsi (s.cpu.mem (layout.slot next)) }

theorem Contexts.after_step (s : Contexts T) (op : ContextOp T) :
    s.step layout symbols (syscallEnable symbols) id op = .ok (s.after layout symbols op) := by
  cases op <;> rfl

omit [DecidableEq T] in
theorem Contexts.allowed_calls (s : Contexts T) (next : T) : s.allowed layout (s.calls layout next) := by
  intro t _ address _
  rfl

/-- The call of `context_switch` is allowed with the arguments in the registers. -/
theorem Contexts.allowed_switch (s : Contexts T) (next : T) (back : Word) (different : next ≠ s.current)
    (isSaved : (s.saved next).isSome = true) (aligned : s.cpu.rsp.toNat % 8 = 0)
    (low : layout.base s.current + 64 ≤ s.cpu.rsp.toNat) (high : s.cpu.rsp.toNat ≤ layout.top s.current) :
    (s.after layout symbols (s.calls layout next)).allowed layout (.switch next back) :=
  ⟨different, isSaved, rfl, rfl, aligned, low, high⟩

/-- Two threads, of which the first one boots. -/
def twoThreads : StackLayout Bool where
  base t := if t then 0x3000 else 0x1000
  top t := if t then 0x4000 else 0x2000
  thread t := if t then 0x9000 else 0x8000

def twoSymbols : Symbols := ⟨0x100, 0x108, 0x200, 0x110, 0x300, 0x308, 0x400, 0x500, 0x600, 0x608, 0x700, 0x800, 0x808,
  0x900, 0x908, 0xA00⟩

def twoBoot : Contexts Bool := .start ⟨Function.update (fun _ => 7) .rsp 0x2000, 0x50, 0x202, 8, 16,
  Function.update (fun _ => 3) 0x508 0x2000⟩ false

theorem twoThreads_fits : twoThreads.Fits := by
  refine ⟨by decide, by decide, by decide, ?_, ?_⟩
  · unfold StackLayout.inStack
    decide
  · unfold StackLayout.inStack
    decide

theorem twoThreads_apart : Disjoint (twoThreads.own true) (twoThreads.own false) := by
  have bounds {t : Bool} {address : Word} (inside : address ∈ twoThreads.own t) :
      twoThreads.inStack t address ∨
        ((twoThreads.thread t).toNat ≤ address.toNat ∧ address.toNat < (twoThreads.thread t).toNat + 0x100) := by
    rcases inside with inStack | isSlot | ⟨r, member, isField⟩
    · exact Or.inl inStack
    · right
      rw [isSlot]
      have all : ∀ t, (twoThreads.thread t).toNat ≤ (twoThreads.slot t).toNat ∧
          (twoThreads.slot t).toNat < (twoThreads.thread t).toNat + 0x100 := by decide
      exact all t
    · right
      rw [isField]
      have all : ∀ t, ∀ r ∈ forkUserRegs,
          (twoThreads.thread t).toNat ≤ (threadField (twoThreads.thread t) (.forkUser r)).toNat ∧
            (threadField (twoThreads.thread t) (.forkUser r)).toNat < (twoThreads.thread t).toNat + 0x100 := by decide
      exact all t r member
  rw [Set.disjoint_left]
  intro address inside inside'
  have here := bounds inside
  have here' := bounds inside'
  change (0x3000 ≤ address.toNat ∧ address.toNat < 0x4000) ∨ (0x9000 ≤ address.toNat ∧ address.toNat < 0x9100) at here
  change (0x1000 ≤ address.toNat ∧ address.toNat < 0x2000) ∨ (0x8000 ≤ address.toNat ∧ address.toNat < 0x8100) at here'
  omega

theorem twoBoot_create (new : NewThread) : twoBoot.allowed twoThreads (.create true new) := by
  have only {u : Bool} (lives : twoBoot.lives u) : u = false := lives.resolve_right (by
    intro saved
    cases saved)
  refine ⟨fun lives => Bool.noConfusion (only lives), ?_⟩
  intro u lives
  rw [only lives]
  exact twoThreads_apart

/-- The boot thread before its call of `context_switch`. -/
def twoLeaves : Contexts Bool :=
  let s := twoBoot.after twoThreads twoSymbols (.create true (.kernel 0x5000 9))
  s.after twoThreads twoSymbols (s.calls twoThreads true)

/-- The other thread before its call of `context_switch`. -/
def twoReturns : Contexts Bool :=
  let s := twoLeaves.after twoThreads twoSymbols (.switch true 0x60)
  s.after twoThreads twoSymbols (s.calls twoThreads false)

theorem context_switch_resumes_two :
    Resumed { twoLeaves.cpu with rip := 0x60 } (twoReturns.after twoThreads twoSymbols (.switch false 0x70)).cpu ∧
      ∀ address ∈ twoThreads.keeps false twoLeaves.cpu,
        (twoReturns.after twoThreads twoSymbols (.switch false 0x70)).cpu.mem address = twoLeaves.cpu.mem address :=
  @context_switch_resumes Bool twoThreads twoSymbols _ (syscallEnable twoSymbols) id twoBoot.cpu false true _ _ twoLeaves _ twoReturns
    _ 0x60 0x70 twoThreads_fits
    (.cons (twoBoot_create _) (Contexts.after_step _ _) (.cons (Contexts.allowed_calls _ _) (Contexts.after_step _ _) (.nil _)))
    (Contexts.allowed_switch _ _ _ (by decide) rfl (by decide +kernel) (by decide +kernel) (by decide +kernel))
    (Contexts.after_step _ _)
    (.cons (Contexts.allowed_calls _ _) (Contexts.after_step _ _) (.nil _))
    (by
      intro op member touched
      rw [List.mem_singleton.mp member] at touched
      exact touched)
    (Contexts.allowed_switch _ _ _ (by decide) rfl (by decide +kernel) (by decide +kernel) (by decide +kernel))
    (Contexts.after_step _ _)

end

end DoccrOS.Proc
