import DoccrOS.Construction.Devices.Fb0
import DoccrOS.Construction.User.SysMem

namespace DoccrOS.Devices
open Mem Screen User

/-- A process and its open handles of `/dev/fb0` in the order of their opens. The process owns every handle. -/
structure FbProcess where
  mem : UserMem
  handles : List FbHandle

/-- What a call through a handle works on. -/
def FbProcess.view (s : FbProcess) (handle : FbHandle) : FbState := ⟨s.mem.machine, handle, s.mem.space⟩

/-- The memory of the process after a call through a handle. -/
def FbProcess.memory (s : FbProcess) (after : FbState) : UserMem :=
  match after.space with
  | some space => s.mem.put after.machine space
  | none => { s.mem with machine := after.machine }

/-- The part of `fb0_close` before the handle is freed. -/
def fb0Close (s : FbState) : FbState :=
  if s.handle.mapped then
    match s.space with
    | some space =>
      let (m, space) := vmmUnmapPhys s.machine space s.handle.vaddr
      ⟨m, s.handle, some space⟩
    | none => s
  else s

/-- A call of the process. A handle is named by its place among the open ones. -/
inductive FbCall where
  | openDevice (capable kmallocOk : Bool)
  | close (i : Nat)
  | map (i arg : Nat) (nodeOk : Bool)
  | unmap (i : Nat)
  | munmap (addr : Word)

/-- A call through a handle that is not open does not reach the device. -/
def FbProcess.step (g : Graphics) (bs : Screens) (s : FbProcess) : FbCall → Result FbProcess
  | .openDevice capable kmallocOk =>
    match fb0Open bs capable kmallocOk with
    | some handle => .ok { s with handles := s.handles ++ [handle] }
    | none => .ok s
  | .close i =>
    match s.handles[i]? with
    | some handle => .ok ⟨s.memory (fb0Close (s.view handle)), s.handles.eraseIdx i⟩
    | none => .ok s
  | .map i arg nodeOk =>
    match s.handles[i]? with
    | some handle => do
      let (_, after) ← fb0IoctlMap g bs (s.view handle) arg nodeOk
      return ⟨s.memory after, s.handles.set i after.handle⟩
    | none => .ok s
  | .unmap i =>
    match s.handles[i]? with
    | some handle =>
      let after := (fb0IoctlUnmap (s.view handle)).2
      .ok ⟨s.memory after, s.handles.set i after.handle⟩
    | none => .ok s
  | .munmap addr => .ok { s with mem := (sysMunmap s.mem addr).2 }

/-- A memory call of the process, or a call of the device. -/
inductive SpaceCall where
  | mem (call : MemCall)
  | fb (call : FbCall)

def FbProcess.serve (g : Graphics) (bs : Screens) (s : FbProcess) : SpaceCall → Result FbProcess
  | .mem call => (s.mem.step call).map fun mem => { s with mem := mem }
  | .fb call => s.step g bs call

end DoccrOS.Devices
