import DoccrOS.Construction.Devices.Registry
import DoccrOS.Proof.Fs.CleanCreations

namespace DoccrOS.Devices
open Lib Fs

/-- The registered handlers in the order of the array. -/
def DeviceRegistry.registered (s : DeviceRegistry) : List Nat := (List.range s.deviceCount).filterMap s.devices

/-- A registered handler has its mount at the names. -/
def DeviceRegistry.taken (handlers : Nat → DeviceHandler) (s : DeviceRegistry) (names : List (List Char)) : Bool :=
  s.registered.any fun device => (handlers device).mount.any fun mount => tokens mount == names

/-- The path of the `vfs_create_device` call in `device_register`, if it comes to the call. -/
def DeviceRegistry.mounting (handlers : Nat → DeviceHandler) (s : DeviceRegistry) (device : Option Nat) (initRet : Int) :
    Option (List Char) :=
  device.bind fun device =>
    if s.deviceCount ≥ devicesMaxAmount ∨ s.has device = true ∨ ((handlers device).init ∧ initRet ≠ 0) then none
    else (handlers device).mount

/-- No unlinked path is the mount of a registered handler, and every creation is clean and takes the node of no registered
handler. -/
def DeviceRegistry.permits (handlers : Nat → DeviceHandler) (s : DeviceRegistry) : DeviceOp → Bool
  | .register device initRet kmallocs kmalloc =>
    (s.mounting handlers device initRet).all fun mount => s.vfs.cleanAt mount .device kmallocs kmalloc (s.taken handlers)
  | .unregister _ => true
  | .unlink path => !s.taken handlers (tokens path)
  | .mkdir _ _ => true

/-- The array holds every registered handler once, and every mount has its node. -/
structure RegistryInv (handlers : Nat → DeviceHandler) (s : DeviceRegistry) : Prop where
  vfs : VfsInv s.vfs
  slots : RingHolds devicesMaxAmount s.devices 0 s.registered
  count : s.registered.length = s.deviceCount
  once : s.registered.Nodup
  mounted : ∀ device ∈ s.registered, ∀ mount, (handlers device).mount = some mount → MountedAt s.vfs mount device

section
variable {handlers : Nat → DeviceHandler} {s s' : DeviceRegistry} {vfs : Vfs} {device i : Nat} {names : List (List Char)}
  {initRet : Int} {kmallocs : List (Option NodePtr)} {kmalloc : Option NodePtr}

theorem has_iff : s.has device = true ↔ device ∈ s.registered := by
  simp [DeviceRegistry.has, DeviceRegistry.registered, List.mem_filterMap]

/-- Names that are not taken are no mount of a registered handler. -/
theorem apart_of_free (free : s.taken handlers names = false) {other : Nat} (member : other ∈ s.registered) {mount : List Char}
    (isMount : (handlers other).mount = some mount) : tokens mount ≠ names := by
  intro same
  have none := List.any_eq_false.mp free other member
  rw [isMount, Option.any_some, same, beq_self_eq_true] at none
  exact none rfl

/-- The node of one list of names is the device of one handler. -/
theorem mountedAt_inj {v : Vfs} {path path' : List Char} {other : Nat} (inv : VfsInv v) (same : tokens path = tokens path')
    (mounted : MountedAt v path device) (mounted' : MountedAt v path' other) : device = other := by
  obtain ⟨n, node, found, live, _, isDevice⟩ := mounted
  obtain ⟨n', node', found', live', _, isDevice'⟩ := mounted'
  rw [inv.find, same, ← inv.find, found'] at found
  cases found
  cases live.symm.trans live'
  exact Option.some.inj (isDevice.symm.trans isDevice')

/-- A found name belongs to the handler in the slot. -/
theorem findName_spec {name : List Char} (found : s.findName handlers name = some (i, device)) :
    i < s.deviceCount ∧ s.devices i = some device := by
  obtain ⟨j, member, isFound⟩ := List.exists_of_findSome?_eq_some found
  obtain ⟨other, slot, rest⟩ := Option.bind_eq_some_iff.mp isFound
  split at rest
  · cases rest
    exact ⟨List.mem_range.mp member, slot⟩
  · cases rest

/-- A registration is turned away, or it adds the handler, with a call of `vfs_create_device` when the handler has a mount. -/
theorem deviceRegister_cases {wanted : Option Nat} {code : Int}
    (returned : deviceRegister handlers s wanted initRet kmallocs kmalloc = .ok (code, s')) :
    (code = -1 ∧ s' = s) ∨ ∃ device, wanted = some device ∧ s.deviceCount < devicesMaxAmount ∧ device ∉ s.registered ∧
      s.mounting handlers wanted initRet = (handlers device).mount ∧
      (((handlers device).mount = none ∧ code = 0 ∧ s' = s.add device) ∨
        ∃ mount node vfs, (handlers device).mount = some mount ∧
          vfsCreateDevice s.vfs mount (some device) kmallocs kmalloc = .ok (node, vfs) ∧
          ((node = none ∧ code = -1 ∧ s' = { s with vfs := vfs }) ∨
            (node ≠ none ∧ code = 0 ∧ s' = { s with vfs := vfs }.add device))) := by
  have failed : Except.ok ((-1 : Int), s) = (.ok (code, s') : Result (Int × DeviceRegistry)) → code = -1 ∧ s' = s := by
    intro same
    cases same
    exact ⟨rfl, rfl⟩
  cases wanted with
  | none => exact Or.inl (failed returned)
  | some device =>
      unfold deviceRegister at returned
      by_cases full : s.deviceCount ≥ devicesMaxAmount
      · simp only [if_pos full] at returned
        exact Or.inl (failed returned)
      by_cases known : s.has device = true
      · simp only [if_neg full, if_pos known] at returned
        exact Or.inl (failed returned)
      by_cases refused : (handlers device).init ∧ initRet ≠ 0
      · simp only [if_neg full, if_neg known, if_pos refused] at returned
        exact Or.inl (failed returned)
      simp only [if_neg full, if_neg known, if_neg refused] at returned
      have mounting : s.mounting handlers (some device) initRet = (handlers device).mount :=
        if_neg (not_or.mpr ⟨full, not_or.mpr ⟨known, refused⟩⟩)
      refine Or.inr ⟨device, rfl, Nat.lt_of_not_le full, fun member => known (has_iff.mpr member), mounting, ?_⟩
      cases isMount : (handlers device).mount with
      | none =>
          rw [isMount] at returned
          cases returned
          exact Or.inl ⟨rfl, rfl, rfl⟩
      | some mount =>
          simp only [isMount] at returned
          obtain ⟨⟨node, vfs⟩, created, rest⟩ := Result.bind_ok returned
          refine Or.inr ⟨mount, node, vfs, rfl, created, ?_⟩
          cases node with
          | none =>
              cases rest
              exact Or.inl ⟨rfl, rfl, rfl⟩
          | some n =>
              cases rest
              exact Or.inr ⟨Option.some_ne_none n, rfl, rfl⟩

/-- A change of the file system that keeps the nodes of the mounts keeps the invariant. -/
theorem RegistryInv.setVfs (inv : RegistryInv handlers s) (vfsInv : VfsInv vfs)
    (keeps : ∀ device ∈ s.registered, ∀ mount, (handlers device).mount = some mount → KeepsNode s.vfs vfs (tokens mount)) :
    RegistryInv handlers { s with vfs := vfs } := by
  refine ⟨vfsInv, inv.slots, inv.count, inv.once, ?_⟩
  intro device member mount isMount
  exact (inv.mounted device member mount isMount).kept inv.vfs vfsInv (keeps device member mount isMount)

/-- The invariant from a list that the array holds. -/
theorem RegistryInv.of_list {list : List Nat} (vfs : VfsInv s.vfs) (slots : RingHolds devicesMaxAmount s.devices 0 list)
    (length : list.length = s.deviceCount) (once : list.Nodup)
    (mounted : ∀ device ∈ list, ∀ mount, (handlers device).mount = some mount → MountedAt s.vfs mount device) :
    RegistryInv handlers s := by
  have entries : s.registered = list := slots.first_entries length
  rw [← entries] at slots length once mounted
  exact ⟨vfs, slots, length, once, mounted⟩

/-- A new handler that is mounted keeps the invariant. -/
theorem RegistryInv.add (inv : RegistryInv handlers s) (room : s.deviceCount < devicesMaxAmount) (new : device ∉ s.registered)
    (mounted : ∀ mount, (handlers device).mount = some mount → MountedAt s.vfs mount device) :
    RegistryInv handlers (s.add device) := by
  have slots := inv.slots.push (by rw [inv.count]; exact room) device
  rw [inv.count, Nat.zero_add, Nat.mod_eq_of_lt room] at slots
  have length : (s.registered ++ [device]).length = s.deviceCount + 1 := by
    rw [List.length_append, inv.count]
    rfl
  have once : (s.registered ++ [device]).Nodup := by
    rw [← List.concat_eq_append]
    exact inv.once.concat new
  refine RegistryInv.of_list inv.vfs slots length once ?_
  intro other member mount isMount
  rw [List.mem_append, List.mem_singleton] at member
  rcases member with old | rfl
  · exact inv.mounted other old mount isMount
  · exact mounted mount isMount

/-- A clean registration keeps the invariant, and it changes nothing when it fails. -/
theorem RegistryInv.register {wanted : Option Nat} {code : Int} (inv : RegistryInv handlers s)
    (permitted : s.permits handlers (.register wanted initRet kmallocs kmalloc) = true)
    (returned : deviceRegister handlers s wanted initRet kmallocs kmalloc = .ok (code, s')) :
    RegistryInv handlers s' ∧
      (code = -1 → s'.devices = s.devices ∧ s'.deviceCount = s.deviceCount ∧ SameTree s.vfs s'.vfs) := by
  rcases deviceRegister_cases returned with ⟨_, rfl⟩ | ⟨device, rfl, room, new, mounting, plain | created⟩
  · exact ⟨inv, fun _ => ⟨rfl, rfl, SameTree.refl _⟩⟩
  · obtain ⟨noMount, rfl, rfl⟩ := plain
    refine ⟨inv.add room new fun mount isMount => ?_, fun failed => absurd failed (by decide)⟩
    rw [noMount] at isMount
    cases isMount
  · obtain ⟨mount, node, vfs, isMount, created, outcome⟩ := created
    rw [DeviceRegistry.permits, mounting, isMount, Option.all_some] at permitted
    obtain ⟨vfsInv, result⟩ := inv.vfs.createDevice_clean permitted created
    rcases outcome with ⟨rfl, _, rfl⟩ | ⟨some, rfl, rfl⟩
    · rcases result with ⟨_, same⟩ | ⟨some, _⟩
      · exact ⟨inv.setVfs vfsInv fun _ _ _ _ => same.keeps _, fun _ => ⟨rfl, rfl, same⟩⟩
      · exact absurd rfl some
    · rcases result with ⟨none, _⟩ | ⟨_, mounted, free, keeps⟩
      · exact absurd none some
      · -- no registered handler has its node at the path
        have apart {other : Nat} (member : other ∈ s.registered) {path : List Char}
            (isPath : (handlers other).mount = .some path) : tokens path ≠ tokens mount := by
          rcases free with absent | free
          · intro same
            obtain ⟨n, _, found, _⟩ := inv.mounted other member path isPath
            rw [inv.vfs.find, Except.ok.injEq] at found
            rw [← same] at absent
            cases absent.symm.trans found
          · exact apart_of_free free member isPath
        have kept := inv.setVfs vfsInv fun other member path isPath => keeps _ (apart member isPath)
        refine ⟨kept.add room new fun path isPath => ?_, fun failed => absurd failed (by decide)⟩
        cases isMount.symm.trans isPath
        exact mounted

/-- The handlers that stay after an unregistration. -/
theorem RegistryInv.erased (inv : RegistryInv handlers s) (inside : i < s.deviceCount) :
    RingHolds devicesMaxAmount (Function.update (moveDown s.devices i (s.deviceCount - 1 - i)) (s.deviceCount - 1) none) 0
      (s.registered.eraseIdx i) ∧ (s.registered.eraseIdx i).length = s.deviceCount - 1 := by
  have bound := inv.slots.1
  rw [inv.count] at bound
  have length : (s.registered.eraseIdx i).length = s.deviceCount - 1 := by
    rw [List.length_eraseIdx_of_lt (inv.count.symm ▸ inside), inv.count]
  have shifted := inv.slots.shift (inv.count.symm ▸ inside)
  rw [inv.count, ← moveDown_eq s.devices (by omega)] at shifted
  have cleared := shifted.behind (Nat.le_of_eq length) (by omega) none
  rw [Nat.zero_add, Nat.mod_eq_of_lt (by omega)] at cleared
  exact ⟨cleared, length⟩

theorem RegistryInv.unregister {name : Option (List Char)} (inv : RegistryInv handlers s)
    (returned : deviceUnregister handlers s name = .ok s') : RegistryInv handlers s' := by
  unfold deviceUnregister at returned
  cases search : name.bind (s.findName handlers) with
  | none =>
      rw [search] at returned
      cases returned
      exact inv
  | some found =>
      obtain ⟨i, device⟩ := found
      simp only [search] at returned
      obtain ⟨vfs, removed, rest⟩ := Result.bind_ok returned
      cases rest
      obtain ⟨_, _, search⟩ := Option.bind_eq_some_iff.mp search
      obtain ⟨inside, slot⟩ := findName_spec search
      obtain ⟨slots, length⟩ := inv.erased inside
      have inside' : i < s.registered.length := inv.count.symm ▸ inside
      have here : s.registered[i] = device := by
        have held := inv.slots.2 i _ (List.getElem?_eq_getElem inside')
        rw [Nat.zero_add, Nat.mod_eq_of_lt (Nat.lt_of_lt_of_le inside' inv.slots.1), slot] at held
        exact (Option.some.inj held).symm
      have stays {other : Nat} (member : other ∈ s.registered.eraseIdx i) : other ∈ s.registered ∧ other ≠ device := by
        refine ⟨List.mem_of_mem_eraseIdx member, ?_⟩
        rintro rfl
        obtain ⟨j, different, atIndex⟩ := List.mem_eraseIdx_iff_getElem?.mp member
        obtain ⟨inside'', atIndex⟩ := List.getElem?_eq_some_iff.mp atIndex
        exact different (inv.once.getElem_inj_iff.mp (atIndex.trans here.symm))
      have after : VfsInv vfs ∧ ∀ other ∈ s.registered.eraseIdx i, ∀ mount, (handlers other).mount = some mount →
          MountedAt vfs mount other := by
        have before {other : Nat} (member : other ∈ s.registered.eraseIdx i) := inv.mounted other (stays member).1
        cases isMount : (handlers device).mount with
        | none =>
            rw [isMount] at removed
            cases removed
            exact ⟨inv.vfs, fun other member => before member⟩
        | some mount =>
            rw [isMount] at removed
            obtain ⟨⟨code, vfs'⟩, called, rfl⟩ := Result.map_ok removed
            obtain ⟨vfsInv, keeps⟩ := inv.vfs.remove_keeps called
            refine ⟨vfsInv, ?_⟩
            intro other member path isPath
            refine (before member path isPath).kept inv.vfs vfsInv (keeps _ ?_)
            -- one node is the device of one handler
            intro same
            have mounted := inv.mounted device (here ▸ List.getElem_mem inside') mount isMount
            exact (stays member).2 (mountedAt_inj inv.vfs same (before member path isPath) mounted)
      obtain ⟨vfsInv, mounted⟩ := after
      exact RegistryInv.of_list vfsInv slots length (inv.once.eraseIdx i) mounted

/-- Every permitted step keeps the invariant. -/
theorem RegistryInv.step {op : DeviceOp} (inv : RegistryInv handlers s) (permitted : s.permits handlers op = true)
    (returned : s.step handlers op = .ok s') : RegistryInv handlers s' := by
  cases op with
  | register wanted initRet kmallocs kmalloc =>
      obtain ⟨⟨code, after⟩, called, rfl⟩ := Result.map_ok returned
      exact (inv.register permitted called).1
  | unregister name => exact inv.unregister returned
  | unlink path =>
      obtain ⟨⟨code, vfs⟩, called, rfl⟩ := Result.map_ok returned
      obtain ⟨vfsInv, keeps⟩ := inv.vfs.remove_keeps called
      apply inv.setVfs vfsInv
      intro device member mount isMount
      exact keeps _ (apart_of_free (Bool.not_eq_true' _ ▸ permitted) member isMount)
  | mkdir path kmallocs =>
      obtain ⟨⟨result, vfs⟩, called, rfl⟩ := Result.map_ok returned
      exact inv.setVfs (inv.vfs.mkdir called).1 fun _ _ _ _ => inv.vfs.mkdir_keeps called _

theorem devicesInit_inv (inv : VfsInv s.vfs) : RegistryInv handlers (devicesInit s) :=
  ⟨inv, RingHolds.nil, rfl, List.nodup_nil, nofun⟩

end

section
variable {bytes : Bytes} {archive : Block} {kmalloc : Option NodePtr} {booted : Vfs} {earlier : List VfsOp}
  {s final : DeviceRegistry} {ops : List DeviceOp}

/-- When nobody unlinks a mount and every creation is clean, every registered handler with a mount has its device node there, no
handler is registered twice, and a registration that fails leaves the array and the tree alone. -/
theorem registry_agrees (handlers : Nat → DeviceHandler) (boots : vfsInit (Vfs.boot bytes archive) kmalloc = .ok booted)
    (before : Run Vfs.step (fun _ _ => True) booted earlier s.vfs)
    (run : Run (DeviceRegistry.step handlers) (fun s op => s.permits handlers op = true) (devicesInit s) ops final) :
    (∀ device ∈ final.registered, ∀ mount, (handlers device).mount = some mount → MountedAt final.vfs mount device) ∧
      final.registered.Nodup ∧
      ∀ device initRet kmallocs kmalloc s', final.permits handlers (.register device initRet kmallocs kmalloc) = true →
        deviceRegister handlers final device initRet kmallocs kmalloc = .ok (-1, s') →
        s'.devices = final.devices ∧ s'.deviceCount = final.deviceCount ∧ SameTree final.vfs s'.vfs := by
  have initial : VfsInv s.vfs := before.invariant VfsInv (fun _ _ _ inv _ returned => inv.step returned) (vfsInit_inv boots).1
  have reached := run.invariant (RegistryInv handlers) (fun _ _ _ inv permitted returned => inv.step permitted returned)
    (devicesInit_inv initial)
  refine ⟨reached.mounted, reached.once, ?_⟩
  intro device initRet kmallocs kmalloc s' permitted returned
  exact (reached.register permitted returned).2 rfl

/-- A handler at `/k` with an `init` function, and one below a directory that is made for it. -/
def twoHandlers : Nat → DeviceHandler
  | 7 => ⟨some ['k'], some ['/', 'k'], true⟩
  | 8 => ⟨some ['m'], some ['/', 'd', '/', 'm'], false⟩
  | _ => ⟨none, none, false⟩

/-- Two registrations, of which the first one is undone. -/
def registerBoth : List DeviceOp :=
  [.register (some 7) 0 [] (some 2), .register (some 8) 0 [some 3] (some 4), .unlink ['/', 'z'], .unregister (some ['k'])]

theorem registry_agrees_both : ∃ booted final, vfsInit (Vfs.boot (fun _ => 0) ⟨0x1000, 16⟩) (some 1) = .ok booted ∧
    Run (DeviceRegistry.step twoHandlers) (fun s op => s.permits twoHandlers op = true) (devicesInit ⟨fun _ => none, 0, booted⟩)
      registerBoth final ∧ final.registered = [8] ∧ MountedAt final.vfs ['/', 'd', '/', 'm'] 8 := by
  cases boots : vfsInit (Vfs.boot (fun _ => 0) ⟨0x1000, 16⟩) (some 1) with
  | error halt => cases boots
  | ok booted =>
      have checked : (exec (DeviceRegistry.step twoHandlers) (fun s op => s.permits twoHandlers op) registerBoth
          (devicesInit ⟨fun _ => none, 0, booted⟩)).any (fun s => s.registered == [8]) = true := by
        cases boots
        decide +kernel
      obtain ⟨final, run, only⟩ := Run.exists_of_check checked
      rw [beq_iff_eq] at only
      have agrees := registry_agrees (s := ⟨fun _ => none, 0, booted⟩) twoHandlers boots (Run.nil booted) run
      exact ⟨booted, final, rfl, run, only, agrees.1 8 (by rw [only]; exact List.mem_singleton_self 8) _ rfl⟩

/-- A user unlinks the node of a registered device, and the handler stays in the array. -/
theorem registry_torn : ¬∀ (bytes : Bytes) (archive : Block) (kmalloc : Option NodePtr) (booted : Vfs) (earlier : List VfsOp)
    (s final : DeviceRegistry) (ops : List DeviceOp) (handlers : Nat → DeviceHandler),
    vfsInit (Vfs.boot bytes archive) kmalloc = .ok booted → Run Vfs.step (fun _ _ => True) booted earlier s.vfs →
    Run (DeviceRegistry.step handlers) (fun _ _ => True) (devicesInit s) ops final →
    ∀ device ∈ final.registered, ∀ mount, (handlers device).mount = some mount → MountedAt final.vfs mount device := by
  intro claim
  cases boots : vfsInit (Vfs.boot (fun _ => 0) ⟨0x1000, 16⟩) (some 1) with
  | error halt => cases boots
  | ok booted =>
      have checked : (exec (DeviceRegistry.step twoHandlers) (fun _ _ => true)
          [.register (some 7) 0 [] (some 2), .unlink ['/', 'k']] (devicesInit ⟨fun _ => none, 0, booted⟩)).any
          (fun s => s.registered == [7] && (vfsFind s.vfs ['/', 'k']).toOption == some none) = true := by
        cases boots
        decide +kernel
      obtain ⟨final, run, torn⟩ := Run.exists_of_check checked
      simp only [Bool.and_eq_true, beq_iff_eq] at torn
      have mounted := claim _ _ _ booted [] ⟨fun _ => none, 0, booted⟩ final _ twoHandlers boots (Run.nil booted)
        (run.mono fun _ _ _ => trivial) 7 (by rw [torn.1]; exact List.mem_singleton_self 7) _ rfl
      obtain ⟨n, _, found, _⟩ := mounted
      have absent := torn.2
      rw [found] at absent
      cases absent

end

end DoccrOS.Devices
