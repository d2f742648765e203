import DoccrOS.Construction.Fs.Vfs

namespace DoccrOS.Devices
open Fs

/-- This is `DEVICES_MAX_AMOUNT`. -/
def devicesMaxAmount : Nat := 256

/-- This is `device_handler`, as far as the registry reads it. The flag `init` says that the pointer is set. -/
structure DeviceHandler where
  name : Option (List Char)
  mount : Option (List Char)
  init : Bool

/-- The static variables `devices` and `device_count`, and the file system. A handler is named by its address. -/
structure DeviceRegistry where
  devices : Nat → Option Nat
  deviceCount : Nat
  vfs : Vfs

def devicesInit (s : DeviceRegistry) : DeviceRegistry := { s with devices := fun _ => none, deviceCount := 0 }

/-- The loop that looks for a handler. -/
def DeviceRegistry.has (s : DeviceRegistry) (device : Nat) : Bool :=
  (List.range s.deviceCount).any fun i => s.devices i == some device

/-- The statement `devices[device_count++] = device`. -/
def DeviceRegistry.add (s : DeviceRegistry) (device : Nat) : DeviceRegistry :=
  { s with devices := Function.update s.devices s.deviceCount (some device), deviceCount := s.deviceCount + 1 }

/-- The argument `initRet` is the result of `device->init`. The others are for `vfs_create_device`. -/
def deviceRegister (handlers : Nat → DeviceHandler) (s : DeviceRegistry) (device : Option Nat) (initRet : Int)
    (kmallocs : List (Option NodePtr)) (kmalloc : Option NodePtr) : Result (Int × DeviceRegistry) :=
  match device with
  | none => .ok (-1, s)
  | some device =>
    if s.deviceCount ≥ devicesMaxAmount then .ok (-1, s)
    else if s.has device then .ok (-1, s)
    else if (handlers device).init ∧ initRet ≠ 0 then .ok (-1, s)
    else
      match (handlers device).mount with
      | none => .ok (0, s.add device)
      | some mount => do
        let (node, vfs) ← vfsCreateDevice s.vfs mount (some device) kmallocs kmalloc
        match node with
        | none => return (-1, { s with vfs := vfs })
        | some _ => return (0, { s with vfs := vfs }.add device)

/-- The loop that looks for a handler with a name. It returns the index and the handler. -/
def DeviceRegistry.findName (handlers : Nat → DeviceHandler) (s : DeviceRegistry) (name : List Char) : Option (Nat × Nat) :=
  (List.range s.deviceCount).findSome? fun i =>
    (s.devices i).bind fun device => if (handlers device).name = some name then some (i, device) else none

/-- The statement `if (devices[i]->mount) vfs_remove(devices[i]->mount)`. -/
def removeMount (v : Vfs) : (mount : Option (List Char)) → Result Vfs
  | none => .ok v
  | some mount => (vfsRemove v mount).map Prod.snd

def deviceUnregister (handlers : Nat → DeviceHandler) (s : DeviceRegistry) (name : Option (List Char)) : Result DeviceRegistry :=
  match name.bind (s.findName handlers) with
  | none => .ok s
  | some (i, device) => do
    let vfs ← removeMount s.vfs (handlers device).mount
    return {
      devices := Function.update (moveDown s.devices i (s.deviceCount - 1 - i)) (s.deviceCount - 1) none
      deviceCount := s.deviceCount - 1
      vfs := vfs }

/-- A call to the registry, or a system call `sys_unlink` or `sys_mkdir` with a path that `user_ptr_ok` accepts. -/
inductive DeviceOp where
  | register (device : Option Nat) (initRet : Int) (kmallocs : List (Option NodePtr)) (kmalloc : Option NodePtr)
  | unregister (name : Option (List Char))
  | unlink (path : List Char)
  | mkdir (path : List Char) (kmallocs : List (Option NodePtr))

def DeviceRegistry.step (handlers : Nat → DeviceHandler) (s : DeviceRegistry) : DeviceOp → Result DeviceRegistry
  | .register device initRet kmallocs kmalloc => (deviceRegister handlers s device initRet kmallocs kmalloc).map Prod.snd
  | .unregister name => deviceUnregister handlers s name
  | .unlink path => (vfsRemove s.vfs path).map fun (_, vfs) => { s with vfs := vfs }
  | .mkdir path kmallocs => (vfsMkdir s.vfs path kmallocs).map fun (_, vfs) => { s with vfs := vfs }

end DoccrOS.Devices
