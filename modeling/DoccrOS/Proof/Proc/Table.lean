import DoccrOS.Construction.Proc.Process

namespace DoccrOS.Proc
open Lib Mem

/-- The process table: the owner of each thread with the test whether the thread is alive, the processes and the lists. -/
structure Table where
  owners : ThreadPtr → Option (Option HeapPtr × Bool)
  procs : HeapPtr → Option Process
  spaces : HeapPtr → Bool
  head : List HeapPtr
  zombies : List HeapPtr
  nextPid : Nat

def ownersOf (threads : ThreadPtr → Option Thread) (t : ThreadPtr) : Option (Option HeapPtr × Bool) :=
  (threads t).map fun thread => (thread.owner, thread.state != .dead)

def Sched.table (s : Sched) : Table := ⟨ownersOf s.threads, s.procs, s.spaces, s.head, s.procZombies, s.nextPid⟩

def liveIn (owners : ThreadPtr → Option (Option HeapPtr × Bool)) (t : ThreadPtr) : Bool := (owners t).any Prod.snd

/-- The list of a process holds its threads, and the counters are exact. -/
structure ProcOk (owners : ThreadPtr → Option (Option HeapPtr × Bool)) (p : HeapPtr) (proc : Process) : Prop where
  listed : ∀ t ∈ proc.threads, ∃ live, owners t = some (some p, live)
  nodup : proc.threads.Nodup
  count : proc.threadCount = proc.threads.length
  alive : proc.aliveCount = proc.threads.countP (liveIn owners)

/-- The process table is consistent. In the strict form also a dead thread has an owner that exists; else only a live one
has, and its owner is alive. -/
structure TableInv (strict : Prop) (table : Table) : Prop where
  owned : ∀ t p live, table.owners t = some (some p, live) → (strict ∨ live = true) →
    ∃ proc, table.procs p = some proc ∧ t ∈ proc.threads ∧ (strict ∨ proc.state = .alive)
  ok : ∀ p proc, table.procs p = some proc → ProcOk table.owners p proc
  headNodup : table.head.Nodup
  head : ∀ p, p ∈ table.head ↔ ∃ proc, table.procs p = some proc ∧ proc.state = .alive
  zombieNodup : table.zombies.Nodup
  zombie : ∀ p, p ∈ table.zombies ↔ ∃ proc, table.procs p = some proc ∧ proc.state = .zombie
  status : ∀ p proc, table.procs p = some proc → proc.state ≠ .dead
  pid : ∀ p proc, table.procs p = some proc → proc.pid < table.nextPid
  pidInj : ∀ p q proc other, table.procs p = some proc → table.procs q = some other → proc.pid = other.pid → p = q
  space : ∀ p proc ptr, table.procs p = some proc → proc.space = some (.user ptr) → table.spaces ptr = true
  spaceInj : ∀ p q proc other ptr, table.procs p = some proc → table.procs q = some other →
    proc.space = some (.user ptr) → other.space = some (.user ptr) → p = q

section
variable {strict : Prop} {table : Table} {t : ThreadPtr} {p : HeapPtr} {proc : Process}

/-- A fact about the threads of a process stays when none of its threads changes. -/
theorem ProcOk.congr {owners owners' : ThreadPtr → Option (Option HeapPtr × Bool)} (ok : ProcOk owners p proc)
    (same : ∀ t ∈ proc.threads, owners' t = owners t) : ProcOk owners' p proc := by
  refine ⟨?_, ok.nodup, ok.count, ?_⟩
  · intro t member
    rw [same t member]
    exact ok.listed t member
  · rw [ok.alive]
    congr 1
    apply List.countP_congr
    intro t member
    simp only [liveIn, same t member]

/-- A new process without threads. -/
theorem TableInv.addProc (inv : TableInv strict table) (fresh : table.procs p = none) (spaces : HeapPtr → Bool)
    (space : Option SpacePtr) (kept : ∀ ptr, table.spaces ptr = true → spaces ptr = true)
    (own : ∀ ptr, space = some (.user ptr) → table.spaces ptr = false ∧ spaces ptr = true) :
    TableInv strict { table with
      procs := Function.update table.procs p (some ⟨table.nextPid, .alive, 0, space, [], 0, 0⟩)
      spaces := spaces
      head := p :: table.head
      nextPid := table.nextPid + 1 } := by
  have others (q : HeapPtr) (other : Process) (existing : table.procs q = some other) : q ≠ p := by
    intro same
    rw [same, fresh] at existing
    cases existing
  refine ⟨?_, ?_, ?_, ?_, inv.zombieNodup, ?_, ?_, ?_, ?_, ?_, ?_⟩
  · intro t q live isOwner awake
    obtain ⟨other, existing, member, alive⟩ := inv.owned t q live isOwner awake
    refine ⟨other, ?_, member, alive⟩
    simp only [Function.update_of_ne (others q other existing), existing]
  · intro q other existing
    simp only [Function.update_apply] at existing
    split at existing
    · injection existing with existing
      subst existing
      exact ⟨nofun, List.nodup_nil, rfl, rfl⟩
    · exact inv.ok q other existing
  · refine List.nodup_cons.mpr ⟨?_, inv.headNodup⟩
    intro member
    obtain ⟨other, existing, _⟩ := (inv.head p).mp member
    exact others p other existing rfl
  · intro q
    have old := inv.head q
    simp only [Function.update_apply, List.mem_cons]
    by_cases same : q = p
    · simp [same]
    · simp [same, old]
  · intro q
    have old := inv.zombie q
    simp only [Function.update_apply]
    by_cases same : q = p
    · rw [same] at old
      simp [same, old, fresh]
    · simp [same, old]
  · intro q other existing
    simp only [Function.update_apply] at existing
    split at existing
    · injection existing with existing
      rw [← existing]
      exact nofun
    · exact inv.status q other existing
  · intro q other existing
    simp only [Function.update_apply] at existing
    split at existing
    · injection existing with existing
      rw [← existing]
      exact Nat.lt_succ_self _
    · exact Nat.lt_succ_of_lt (inv.pid q other existing)
  · intro q r other third existing existing' same
    have bound := inv.pid
    have inj := inv.pidInj
    simp only [Function.update_apply] at existing existing'
    grind
  · intro q other ptr existing isSpace
    simp only [Function.update_apply] at existing
    split at existing
    · injection existing with existing
      rw [← existing] at isSpace
      exact (own ptr isSpace).2
    · exact kept ptr (inv.space q other ptr existing isSpace)
  · intro q r other third ptr existing existing' isSpace isSpace'
    have used := inv.space
    have inj := inv.spaceInj
    simp only [Function.update_apply] at existing existing'
    grind

/-- A process without threads has none that needs it. -/
theorem TableInv.unowned_of_alone (inv : TableInv strict table) (here : table.procs p = some proc)
    (alone : proc.threads = []) : ∀ t live, table.owners t = some (some p, live) → ¬(strict ∨ live = true) := by
  intro t live isOwner awake
  obtain ⟨other, existing, member, _⟩ := inv.owned t p live isOwner awake
  rw [here] at existing
  rw [← Option.some.inj existing, alone] at member
  cases member

/-- A process is freed with its space when no thread needs it. -/
theorem TableInv.freeProc (inv : TableInv strict table) (here : table.procs p = some proc)
    (unowned : ∀ t live, table.owners t = some (some p, live) → ¬(strict ∨ live = true))
    (spaces : HeapPtr → Bool)
    (kept : ∀ ptr, proc.space ≠ some (.user ptr) → spaces ptr = table.spaces ptr) :
    TableInv strict { table with
      procs := Function.update table.procs p none
      spaces := spaces
      head := table.head.erase p
      zombies := table.zombies.erase p } := by
  have others (q : HeapPtr) (other : Process) (existing : Function.update table.procs p none q = some other) :
      q ≠ p ∧ table.procs q = some other := by
    rw [Function.update_apply] at existing
    split at existing
    · cases existing
    · rename_i different
      exact ⟨different, existing⟩
  refine ⟨?_, ?_, inv.headNodup.erase p, ?_, inv.zombieNodup.erase p, ?_, ?_, ?_, ?_, ?_, ?_⟩
  · intro t q live isOwner awake
    obtain ⟨other, existing, member, alive⟩ := inv.owned t q live isOwner awake
    refine ⟨other, ?_, member, alive⟩
    have different : q ≠ p := by
      intro same
      rw [same] at isOwner
      exact unowned t live isOwner awake
    simp only [Function.update_of_ne different, existing]
  · intro q other existing
    exact inv.ok q other (others q other existing).2
  · intro q
    have old := inv.head q
    simp only [inv.headNodup.mem_erase_iff, Function.update_apply, old]
    by_cases same : q = p
    · simp [same]
    · simp [same]
  · intro q
    have old := inv.zombie q
    simp only [inv.zombieNodup.mem_erase_iff, Function.update_apply, old]
    by_cases same : q = p
    · simp [same]
    · simp [same]
  · intro q other existing
    exact inv.status q other (others q other existing).2
  · intro q other existing
    exact inv.pid q other (others q other existing).2
  · intro q r other third existing existing'
    exact inv.pidInj q r other third (others q other existing).2 (others r third existing').2
  · intro q other ptr existing isSpace
    obtain ⟨different, existing⟩ := others q other existing
    have notHere : proc.space ≠ some (.user ptr) := by
      intro same
      exact different (inv.spaceInj q p other proc ptr existing here isSpace same)
    exact (kept ptr notHere).trans (inv.space q other ptr existing isSpace)
  · intro q r other third ptr existing existing'
    exact inv.spaceInj q r other third ptr (others q other existing).2 (others r third existing').2

/-- The facts about processes that do not depend on their threads, when one process changes. -/
theorem TableInv.setProc (inv : TableInv strict table) (here : table.procs p = some proc) {proc' : Process}
    (samePid : proc'.pid = proc.pid) (sameState : proc'.state = proc.state) (sameSpace : proc'.space = proc.space)
    {owners : ThreadPtr → Option (Option HeapPtr × Bool)}
    (owned : ∀ t q live, owners t = some (some q, live) → (strict ∨ live = true) →
      ∃ other, Function.update table.procs p (some proc') q = some other ∧ t ∈ other.threads ∧
        (strict ∨ other.state = .alive))
    (ok : ProcOk owners p proc')
    (others : ∀ q other, q ≠ p → table.procs q = some other → ∀ t ∈ other.threads, owners t = table.owners t) :
    TableInv strict { table with owners := owners, procs := Function.update table.procs p (some proc') } := by
  have old (q : HeapPtr) (other : Process) (existing : Function.update table.procs p (some proc') q = some other) :
      ∃ before, table.procs q = some before ∧ other.pid = before.pid ∧ other.state = before.state ∧
        other.space = before.space := by
    rw [Function.update_apply] at existing
    split at existing
    · rename_i same
      injection existing with existing
      rw [← existing, same]
      exact ⟨proc, here, samePid, sameState, sameSpace⟩
    · exact ⟨other, existing, rfl, rfl, rfl⟩
  have states (q : HeapPtr) (state : ProcState) :
      (∃ other, Function.update table.procs p (some proc') q = some other ∧ other.state = state) ↔
        ∃ other, table.procs q = some other ∧ other.state = state := by
    by_cases same : q = p
    · rw [same, Function.update_self, here]
      simp [sameState]
    · rw [Function.update_of_ne same]
  refine ⟨owned, ?_, inv.headNodup, ?_, inv.zombieNodup, ?_, ?_, ?_, ?_, ?_, ?_⟩
  · intro q other existing
    simp only [Function.update_apply] at existing
    split at existing
    · rename_i same
      injection existing with existing
      rw [← existing, same]
      exact ok
    · rename_i different
      exact (inv.ok q other existing).congr (others q other different existing)
  · intro q
    rw [states]
    exact inv.head q
  · intro q
    rw [states]
    exact inv.zombie q
  · intro q other existing
    obtain ⟨before, existed, _, state, _⟩ := old q other existing
    rw [state]
    exact inv.status q before existed
  · intro q other existing
    obtain ⟨before, existed, pid, _⟩ := old q other existing
    rw [pid]
    exact inv.pid q before existed
  · intro q r other third existing existing' same
    obtain ⟨before, existed, pid, _⟩ := old q other existing
    obtain ⟨before', existed', pid', _⟩ := old r third existing'
    rw [pid, pid'] at same
    exact inv.pidInj q r before before' existed existed' same
  · intro q other ptr existing isSpace
    obtain ⟨before, existed, _, _, space⟩ := old q other existing
    rw [space] at isSpace
    exact inv.space q before ptr existed isSpace
  · intro q r other third ptr existing existing' isSpace isSpace'
    obtain ⟨before, existed, _, _, space⟩ := old q other existing
    obtain ⟨before', existed', _, _, space'⟩ := old r third existing'
    rw [space] at isSpace
    rw [space'] at isSpace'
    exact inv.spaceInj q r before before' ptr existed existed' isSpace isSpace'

/-- A thread is in the list of its owner only. -/
theorem TableInv.notListed (inv : TableInv strict table) {owner : Option HeapPtr} {live : Bool}
    (isOwner : table.owners t = some (owner, live)) {q : HeapPtr} {other : Process} (existing : table.procs q = some other)
    (different : owner ≠ some q) : t ∉ other.threads := by
  intro member
  obtain ⟨live', isOther⟩ := (inv.ok q other existing).listed t member
  rw [isOwner] at isOther
  injection isOther with isOther
  exact different (Prod.mk.inj isOther).1

/-- A pointer that is not in use is in no list. -/
theorem TableInv.fresh_notListed (inv : TableInv strict table) (fresh : table.owners t = none) {q : HeapPtr}
    {other : Process} (existing : table.procs q = some other) : t ∉ other.threads := by
  intro member
  obtain ⟨live, isOther⟩ := (inv.ok q other existing).listed t member
  rw [fresh] at isOther
  cases isOther

theorem liveIn_update (owners : ThreadPtr → Option (Option HeapPtr × Bool)) (entry : Option (Option HeapPtr × Bool))
    (u : ThreadPtr) : liveIn (Function.update owners t entry) u = if u = t then entry.any Prod.snd else liveIn owners u := by
  rw [liveIn, Function.update_apply]
  split <;> rfl

/-- A thread without owner changes. -/
theorem TableInv.setOrphan (inv : TableInv strict table) {entry : Option (Option HeapPtr × Bool)}
    (unlisted : ∀ q other, table.procs q = some other → t ∉ other.threads)
    (orphan : ∀ q live, entry ≠ some (some q, live)) :
    TableInv strict { table with owners := Function.update table.owners t entry } := by
  refine ⟨?_, ?_, inv.headNodup, inv.head, inv.zombieNodup, inv.zombie, inv.status, inv.pid, inv.pidInj, inv.space,
    inv.spaceInj⟩
  · intro u q live isOwner awake
    simp only [Function.update_apply] at isOwner
    split at isOwner
    · exact absurd isOwner (orphan q live)
    · exact inv.owned u q live isOwner awake
  · intro q other existing
    refine (inv.ok q other existing).congr ?_
    intro u member
    refine Function.update_of_ne ?_ _ _
    intro same
    rw [same] at member
    exact unlisted q other existing member

/-- A new thread is linked to its owner. -/
theorem TableInv.linkThread (inv : TableInv strict table) (fresh : table.owners t = none)
    (here : table.procs p = some proc) (permitted : strict ∨ proc.state = .alive) :
    TableInv strict { table with
      owners := Function.update table.owners t (some (some p, true))
      procs := Function.update table.procs p (some { proc with
        threads := t :: proc.threads
        threadCount := proc.threadCount + 1
        aliveCount := proc.aliveCount + 1 }) } := by
  have unlisted := inv.fresh_notListed fresh here
  obtain ⟨listed, nodup, count, alive⟩ := inv.ok p proc here
  apply inv.setProc here
  · rfl
  · rfl
  · rfl
  · intro u q live isOwner awake
    rw [Function.update_apply] at isOwner
    split at isOwner
    · rename_i isNew
      have isHere : p = q := by
        injection isOwner with isOwner
        exact Option.some.inj (Prod.mk.inj isOwner).1
      rw [← isHere, Function.update_self, isNew]
      exact ⟨_, rfl, List.mem_cons_self, permitted⟩
    · obtain ⟨other, existing, member, isAlive⟩ := inv.owned u q live isOwner awake
      by_cases isHere : q = p
      · rw [isHere, here] at existing
        injection existing with existing
        rw [isHere, Function.update_self]
        exact ⟨_, rfl, List.mem_cons_of_mem _ (existing ▸ member), permitted⟩
      · rw [Function.update_of_ne isHere]
        exact ⟨other, existing, member, isAlive⟩
  · refine ⟨?_, List.nodup_cons.mpr ⟨unlisted, nodup⟩, ?_, ?_⟩
    · intro u member
      rw [Function.update_apply]
      split
      · exact ⟨true, rfl⟩
      · rename_i isOld
        exact listed u ((List.mem_cons.mp member).resolve_left isOld)
    · rw [count, List.length_cons]
      rfl
    · have same : proc.threads.countP (liveIn (Function.update table.owners t (some (some p, true)))) =
          proc.threads.countP (liveIn table.owners) := by
        apply List.countP_congr
        intro u member
        rw [liveIn_update, if_neg]
        intro isNew
        rw [isNew] at member
        exact unlisted member
      rw [List.countP_cons_of_pos (by simp [liveIn_update]), same, alive]
      rfl
  · intro q other different existing u member
    rw [Function.update_of_ne]
    intro isNew
    rw [isNew] at member
    exact inv.fresh_notListed fresh existing member

/-- A dead thread is taken out of the list of its owner and freed. -/
theorem TableInv.unlinkThread (inv : TableInv strict table) (isOwner : table.owners t = some (some p, false))
    (here : table.procs p = some proc) (member : t ∈ proc.threads) :
    TableInv strict { table with
      owners := Function.update table.owners t none
      procs := Function.update table.procs p (some { proc with
        threads := proc.threads.erase t
        threadCount := proc.threadCount - 1 }) } := by
  obtain ⟨listed, nodup, count, alive⟩ := inv.ok p proc here
  have different (u : ThreadPtr) (inside : u ∈ proc.threads.erase t) : u ≠ t := ((nodup.mem_erase_iff).mp inside).1
  apply inv.setProc here
  · rfl
  · rfl
  · rfl
  · intro u q live isOwner' awake
    rw [Function.update_apply] at isOwner'
    split at isOwner'
    · cases isOwner'
    · rename_i other
      obtain ⟨proc', existing, inside, isAlive⟩ := inv.owned u q live isOwner' awake
      by_cases isHere : q = p
      · rw [isHere, here] at existing
        injection existing with existing
        rw [isHere, Function.update_self]
        refine ⟨_, rfl, ?_, existing ▸ isAlive⟩
        exact nodup.mem_erase_iff.mpr ⟨other, existing ▸ inside⟩
      · rw [Function.update_of_ne isHere]
        exact ⟨proc', existing, inside, isAlive⟩
  · refine ⟨?_, nodup.erase t, ?_, ?_⟩
    · intro u inside
      rw [Function.update_of_ne (different u inside)]
      exact listed u (List.mem_of_mem_erase inside)
    · have positive := List.length_pos_of_mem member
      rw [count, List.length_erase_of_mem member]
      simp only
      omega
    · have dead : liveIn table.owners t = false := by simp [liveIn, isOwner]
      have same : (proc.threads.erase t).countP (liveIn (Function.update table.owners t none)) =
          (proc.threads.erase t).countP (liveIn table.owners) := by
        apply List.countP_congr
        intro u inside
        rw [liveIn_update, if_neg (different u inside)]
      rw [same, List.countP_erase, if_neg (by simp [dead]), alive]
      rfl
  · intro q other isOther existing u inside
    rw [Function.update_of_ne]
    intro same
    rw [same] at inside
    refine inv.notListed isOwner existing ?_ inside
    intro isHere
    exact isOther (Option.some.inj isHere).symm

/-- A thread of a process dies. -/
theorem TableInv.kill (inv : TableInv strict table) (isOwner : table.owners t = some (some p, true))
    (here : table.procs p = some proc) :
    TableInv strict { table with
      owners := Function.update table.owners t (some (some p, false))
      procs := Function.update table.procs p (some { proc with aliveCount := proc.aliveCount - 1 }) } := by
  obtain ⟨listed, nodup, count, alive⟩ := inv.ok p proc here
  have member : t ∈ proc.threads := by
    obtain ⟨other, existing, inside, _⟩ := inv.owned t p true isOwner (Or.inr rfl)
    rw [here] at existing
    injection existing with existing
    rw [existing]
    exact inside
  apply inv.setProc here
  · rfl
  · rfl
  · rfl
  · intro u q live isOwner' awake
    have old : ∃ live', table.owners u = some (some q, live') ∧ (strict ∨ live' = true) := by
      rw [Function.update_apply] at isOwner'
      split at isOwner'
      · rename_i same
        injection isOwner' with isOwner'
        rw [same, ← (Prod.mk.inj isOwner').1]
        exact ⟨true, isOwner, Or.inr rfl⟩
      · exact ⟨live, isOwner', awake⟩
    obtain ⟨live', isOld, awake'⟩ := old
    obtain ⟨proc', existing, inside, isAlive⟩ := inv.owned u q live' isOld awake'
    by_cases isHere : q = p
    · rw [isHere, here] at existing
      injection existing with existing
      rw [isHere, Function.update_self]
      exact ⟨_, rfl, existing ▸ inside, existing ▸ isAlive⟩
    · rw [Function.update_of_ne isHere]
      exact ⟨proc', existing, inside, isAlive⟩
  · refine ⟨?_, nodup, count, ?_⟩
    · intro u inside
      rw [Function.update_apply]
      split
      · exact ⟨false, rfl⟩
      · exact listed u inside
    · have live : liveIn table.owners t = true := by simp [liveIn, isOwner]
      have split : proc.threads.countP (liveIn (Function.update table.owners t (some (some p, false)))) =
          (proc.threads.erase t).countP (liveIn table.owners) := by
        have perm := List.perm_cons_erase member
        rw [perm.countP_eq, List.countP_cons_of_neg (by simp [liveIn_update])]
        apply List.countP_congr
        intro u inside
        rw [liveIn_update, if_neg ((nodup.mem_erase_iff).mp inside).1]
      have positive : 0 < proc.threads.countP (liveIn table.owners) := List.countP_pos_iff.mpr ⟨t, member, live⟩
      rw [split, List.countP_erase, if_pos ⟨member, live⟩, alive]
      simp only
      omega
  · intro q other isOther existing u inside
    rw [Function.update_of_ne]
    intro same
    rw [same] at inside
    refine inv.notListed isOwner existing ?_ inside
    intro isHere
    exact isOther (Option.some.inj isHere).symm

/-- A process whose threads are dead becomes a zombie. -/
theorem TableInv.exit (inv : TableInv strict table) (here : table.procs p = some proc) (isAlive : proc.state = .alive)
    (exitCode : Int) (allDead : proc.aliveCount ≤ 0) :
    TableInv strict { table with
      procs := Function.update table.procs p (some { proc with exitCode := exitCode, state := .zombie })
      head := table.head.erase p
      zombies := p :: table.zombies } := by
  have old (q : HeapPtr) (other : Process)
      (existing : Function.update table.procs p (some { proc with exitCode := exitCode, state := .zombie }) q = some other) :
      ∃ before, table.procs q = some before ∧ other.pid = before.pid ∧ other.space = before.space ∧
        other.state ≠ .dead := by
    rw [Function.update_apply] at existing
    split at existing
    · rename_i same
      injection existing with existing
      rw [← existing, same]
      exact ⟨proc, here, rfl, rfl, nofun⟩
    · exact ⟨other, existing, rfl, rfl, inv.status q other existing⟩
  have noneLive (t : ThreadPtr) (member : t ∈ proc.threads) : liveIn table.owners t = false := by
    have none : proc.threads.countP (liveIn table.owners) = 0 := by
      have exact := (inv.ok p proc here).alive
      omega
    simpa using List.countP_eq_zero.mp none t member
  refine ⟨?_, ?_, inv.headNodup.erase p, ?_, ?_, ?_, ?_, ?_, ?_, ?_, ?_⟩
  · intro u q live isOwner awake
    obtain ⟨other, existing, inside, alive⟩ := inv.owned u q live isOwner awake
    simp only
    by_cases isHere : q = p
    · rw [isHere, here] at existing
      injection existing with existing
      rw [← existing] at inside
      rw [isHere, Function.update_self]
      refine ⟨_, rfl, inside, ?_⟩
      rcases awake with isStrict | isLive
      · exact Or.inl isStrict
      · have isDead := noneLive u inside
        rw [liveIn, isOwner, isLive] at isDead
        cases isDead
    · rw [Function.update_of_ne isHere]
      exact ⟨other, existing, inside, alive⟩
  · intro q other existing
    simp only [Function.update_apply] at existing
    split at existing
    · rename_i same
      injection existing with existing
      obtain ⟨listed, nodup, count, alive⟩ := inv.ok p proc here
      rw [← existing, same]
      exact ⟨listed, nodup, count, alive⟩
    · exact inv.ok q other existing
  · intro q
    simp only [inv.headNodup.mem_erase_iff, Function.update_apply, inv.head q]
    by_cases same : q = p
    · simp [same]
    · simp [same]
  · refine List.nodup_cons.mpr ⟨?_, inv.zombieNodup⟩
    intro member
    obtain ⟨other, existing, state⟩ := (inv.zombie p).mp member
    rw [here] at existing
    injection existing with existing
    rw [← existing, isAlive] at state
    cases state
  · intro q
    simp only [List.mem_cons, Function.update_apply, inv.zombie q]
    by_cases same : q = p
    · simp [same]
    · simp [same]
  · intro q other existing
    obtain ⟨_, _, _, _, status⟩ := old q other existing
    exact status
  · intro q other existing
    obtain ⟨before, existed, pid, _⟩ := old q other existing
    rw [pid]
    exact inv.pid q before existed
  · intro q r other third existing existing' same
    obtain ⟨before, existed, pid, _⟩ := old q other existing
    obtain ⟨before', existed', pid', _⟩ := old r third existing'
    rw [pid, pid'] at same
    exact inv.pidInj q r before before' existed existed' same
  · intro q other ptr existing isSpace
    obtain ⟨before, existed, _, space, _⟩ := old q other existing
    rw [space] at isSpace
    exact inv.space q before ptr existed isSpace
  · intro q r other third ptr existing existing' isSpace isSpace'
    obtain ⟨before, existed, _, space, _⟩ := old q other existing
    obtain ⟨before', existed', _, space', _⟩ := old r third existing'
    rw [space] at isSpace
    rw [space'] at isSpace'
    exact inv.spaceInj q r before before' ptr existed existed' isSpace isSpace'

end

end DoccrOS.Proc
