import DoccrOS.Construction.Fs.Vfs

namespace DoccrOS.Devices
open Fs

/-- This is `input_event_type_t`. -/
inductive InputEventType where
  | key
  | rel
  | abs
deriving DecidableEq, Repr

/-- This is `input_event_t`. -/
structure InputEvent where
  type : InputEventType
  code : Nat
  value : Int
  modifiers : BitVec 8
deriving DecidableEq, Repr

/-- This is `sizeof(input_event_t)`. -/
def sizeofInputEvent : Nat := 16

/-- This is `kbd_queue_t` and `mouse_queue_t`. -/
structure EventQueue where
  buf : Nat → InputEvent
  head : Nat
  tail : Nat

/-- The queue of a device: its size, and the cast of the number of bytes that a read returns. -/
structure InputDevice where
  queueSize : Nat
  result : Nat → Int

/-- The queue of the keyboard with the result of `kbd_read_events`. -/
def kbdDevice : InputDevice := ⟨64, fun written => written⟩

/-- The queue of the mouse with the result of `mouse_read`. -/
def mouseDevice : InputDevice := ⟨128, castInt⟩

/-- The shared body of `kbd_push_event` and `mouse_push_event`. -/
def pushEvent (queueSize : Nat) (queue : EventQueue) (ev : InputEvent) : EventQueue :=
  let next := (queue.head + 1) % queueSize
  if next = queue.tail then queue
  else { queue with buf := Function.update queue.buf queue.head ev, head := next }

def kbdPushEvent : EventQueue → InputEvent → EventQueue := pushEvent kbdDevice.queueSize

def mousePushEvent : EventQueue → InputEvent → EventQueue := pushEvent mouseDevice.queueSize

/-- The next statement of a read with a buffer of `size` bytes, of which `written` are written, and the events that it stored. -/
inductive Reader where
  | idle
  | test (size written : Nat) (stored : List InputEvent)
  | hasEvent (size written : Nat) (stored : List InputEvent)
  | copy (size written : Nat) (stored : List InputEvent)
  | advance (size written : Nat) (stored : List InputEvent) (ev : InputEvent)
  | store (size written : Nat) (stored : List InputEvent) (ev : InputEvent)
  | count (size written : Nat) (stored : List InputEvent)

/-- A read that has returned. -/
structure ReadCall where
  size : Nat
  result : Int
  stored : List InputEvent

/-- The queue, the read that is going on, and what has happened: the pushes that were accepted, the events that were taken out of
the queue and the reads that returned. -/
structure InputState where
  queue : EventQueue
  reader : Reader
  accepted : List InputEvent
  delivered : List InputEvent
  returned : List ReadCall

/-- The state after `kbd_module_init` and `mouse_module_init`. -/
def InputState.init (buf : Nat → InputEvent) : InputState := ⟨⟨buf, 0, 0⟩, .idle, [], [], []⟩

/-- A push from the interrupt. -/
def InputState.push (d : InputDevice) (s : InputState) (ev : InputEvent) : InputState :=
  if (s.queue.head + 1) % d.queueSize = s.queue.tail then s
  else { s with queue := pushEvent d.queueSize s.queue ev, accepted := s.accepted ++ [ev] }

/-- The end of a read. -/
def InputState.finish (d : InputDevice) (s : InputState) (size written : Nat) (stored : List InputEvent) : InputState :=
  { s with reader := .idle, returned := s.returned ++ [⟨size, d.result written, stored⟩] }

/-- The next statement of `kbd_read_events` with `kbd_read_event`, or of `mouse_read`. -/
def InputState.statement (d : InputDevice) (s : InputState) : InputState :=
  match s.reader with
  | .idle => s
  | .test size written stored =>
    if wrap64 (written + sizeofInputEvent) ≤ size then { s with reader := .hasEvent size written stored }
    else s.finish d size written stored
  | .hasEvent size written stored =>
    if s.queue.head = s.queue.tail then s.finish d size written stored
    else { s with reader := .copy size written stored }
  | .copy size written stored => { s with reader := .advance size written stored (s.queue.buf s.queue.tail) }
  | .advance size written stored ev =>
    { s with
      queue := { s.queue with tail := (s.queue.tail + 1) % d.queueSize }
      reader := .store size written stored ev
      delivered := s.delivered ++ [ev] }
  | .store size written stored ev => { s with reader := .count size written (stored ++ [ev]) }
  | .count size written stored => { s with reader := .test size (wrap64 (written + sizeofInputEvent)) stored }

/-- What happens next: a push, the start of a read, or a statement of the read. -/
inductive InputAction where
  | push (ev : InputEvent)
  | call (size : Nat)
  | statement

def InputState.step (d : InputDevice) (s : InputState) : InputAction → InputState
  | .push ev => s.push d ev
  | .call size =>
    match s.reader with
    | .idle => { s with reader := .test size 0 [] }
    | _ => s
  | .statement => s.statement d

def inputRelX : Nat := 0

def inputRelY : Nat := 1

def inputBtnLeft : Nat := 0x110

def inputBtnRight : Nat := 0x111

def inputBtnMiddle : Nat := 0x112

def inputModShift : BitVec 8 := 1

def inputModCtrl : BitVec 8 := 2

def inputModAlt : BitVec 8 := 4

def inputModCaps : BitVec 8 := 8

/-- The event that `input_report_key` dispatches. -/
def inputReportKey (code : Nat) (pressed : Bool) (modifiers : BitVec 8) : InputEvent :=
  ⟨.key, code, if pressed then 1 else 0, modifiers⟩

/-- The event that `input_report_rel` dispatches. -/
def inputReportRel (axis : Nat) (value : Int) : InputEvent := ⟨.rel, axis, value, 0⟩

/-- The two queues. -/
structure InputQueues where
  kbd : EventQueue
  mouse : EventQueue

def inputDispatch (queues : InputQueues) (ev : InputEvent) : InputQueues :=
  match ev.type with
  | .key =>
    if inputBtnLeft ≤ ev.code ∧ ev.code ≤ inputBtnMiddle then { queues with mouse := mousePushEvent queues.mouse ev }
    else { queues with kbd := kbdPushEvent queues.kbd ev }
  | .rel => { queues with mouse := mousePushEvent queues.mouse ev }
  | .abs => queues

end DoccrOS.Devices
