import DoccrOS.Construction.Devices.Input

namespace DoccrOS.Devices

/-- This is `keycode_t`, a key of the qwerty layout. -/
inductive Keycode where
  | none | esc | key1 | key2 | key3 | key4 | key5 | key6 | key7 | key8 | key9 | key0 | minus | equal | backspace
  | tab | q | w | e | r | t | y | u | i | o | p | lbracket | rbracket | enter | lctrl | a | s | d | f | g | h | j
  | k | l | semicolon | apostrophe | grave | lshift | backslash | z | x | c | v | b | n | m | comma | dot | slash
  | rshift | kpAsterisk | lalt | space | capslock | delete | up | down | left | right | home | endKey | pageup
  | pagedown | insert | rctrl | ralt | kpEnter | kpSlash | f1 | f2 | f3 | f4 | f5 | f6 | f7 | f8 | f9 | f10 | f11
  | f12
deriving DecidableEq, Repr

/-- This is `sc_to_key`. -/
def scToKey (make : BitVec 8) : Keycode :=
  match make.toNat with
  | 0x01 => .esc | 0x02 => .key1 | 0x03 => .key2 | 0x04 => .key3 | 0x05 => .key4 | 0x06 => .key5 | 0x07 => .key6
  | 0x08 => .key7 | 0x09 => .key8 | 0x0A => .key9 | 0x0B => .key0 | 0x0C => .minus | 0x0D => .equal
  | 0x0E => .backspace | 0x0F => .tab | 0x10 => .q | 0x11 => .w | 0x12 => .e | 0x13 => .r | 0x14 => .t
  | 0x15 => .y | 0x16 => .u | 0x17 => .i | 0x18 => .o | 0x19 => .p | 0x1A => .lbracket | 0x1B => .rbracket
  | 0x1C => .enter | 0x1D => .lctrl | 0x1E => .a | 0x1F => .s | 0x20 => .d | 0x21 => .f | 0x22 => .g | 0x23 => .h
  | 0x24 => .j | 0x25 => .k | 0x26 => .l | 0x27 => .semicolon | 0x28 => .apostrophe | 0x29 => .grave
  | 0x2A => .lshift | 0x2B => .backslash | 0x2C => .z | 0x2D => .x | 0x2E => .c | 0x2F => .v | 0x30 => .b
  | 0x31 => .n | 0x32 => .m | 0x33 => .comma | 0x34 => .dot | 0x35 => .slash | 0x36 => .rshift
  | 0x37 => .kpAsterisk | 0x38 => .lalt | 0x39 => .space | 0x3A => .capslock | 0x3B => .f1 | 0x3C => .f2
  | 0x3D => .f3 | 0x3E => .f4 | 0x3F => .f5 | 0x40 => .f6 | 0x41 => .f7 | 0x42 => .f8 | 0x43 => .f9 | 0x44 => .f10
  | 0x57 => .f11 | 0x58 => .f12
  | _ => .none

def extendedToKey (make : BitVec 8) : Keycode :=
  match make.toNat with
  | 0x1C => .kpEnter | 0x1D => .rctrl | 0x35 => .kpSlash | 0x38 => .ralt | 0x47 => .home | 0x48 => .up
  | 0x49 => .pageup | 0x4B => .left | 0x4D => .right | 0x4F => .endKey | 0x50 => .down | 0x51 => .pagedown
  | 0x52 => .insert | 0x53 => .delete
  | _ => .none

def scLshift : BitVec 8 := 0x2A

def scRshift : BitVec 8 := 0x36

def scCaps : BitVec 8 := 0x3A

def scLctrl : BitVec 8 := 0x1D

def scLalt : BitVec 8 := 0x38

def scRelease : BitVec 8 := 0x80

def scExtended : BitVec 8 := 0xE0

/-- The flags of the keyboard driver. -/
structure Ps2Keyboard where
  shiftHeld : Bool
  ctrlHeld : Bool
  altHeld : Bool
  capsLock : Bool
  extendedKey : Bool

/-- The state that `keyboard_init` leaves. -/
def keyboardInit : Ps2Keyboard := ⟨false, false, false, false, false⟩

def buildModifiers (keyboard : Ps2Keyboard) : BitVec 8 :=
  (if keyboard.shiftHeld then inputModShift else 0) ||| (if keyboard.ctrlHeld then inputModCtrl else 0) |||
    (if keyboard.altHeld then inputModAlt else 0) ||| (if keyboard.capsLock then inputModCaps else 0)

/-- The report of a key; `KEY_NONE` is not reported. -/
def reportKey (keyboard : Ps2Keyboard) (code : Keycode) (pressed : Bool) : List InputEvent :=
  if code ≠ .none then [inputReportKey code.ctorIdx pressed (buildModifiers keyboard)] else []

/-- The flags after a scan code that follows `SC_EXTENDED`. -/
def Ps2Keyboard.extended (keyboard : Ps2Keyboard) (code : Keycode) (pressed : Bool) : Ps2Keyboard :=
  let keyboard := { keyboard with extendedKey := false }
  let keyboard := if code = .rctrl then { keyboard with ctrlHeld := pressed } else keyboard
  if code = .ralt then { keyboard with altHeld := pressed } else keyboard

/-- The flags after a plain scan code. -/
def Ps2Keyboard.plain (keyboard : Ps2Keyboard) (make : BitVec 8) (pressed : Bool) : Ps2Keyboard :=
  if make = scLshift ∨ make = scRshift then { keyboard with shiftHeld := pressed }
  else if make = scLctrl then { keyboard with ctrlHeld := pressed }
  else if make = scLalt then { keyboard with altHeld := pressed }
  else if make = scCaps ∧ pressed then { keyboard with capsLock := !keyboard.capsLock }
  else keyboard

/-- This is `keyboard_irq_handler`, with the bytes that the two ports give. -/
def keyboardIrqHandler (keyboard : Ps2Keyboard) (status sc : BitVec 8) : Ps2Keyboard × List InputEvent :=
  if status &&& 1 = 0 then (keyboard, [])
  else if sc = scExtended then ({ keyboard with extendedKey := true }, [])
  else
    let pressed : Bool := sc &&& scRelease = 0
    let make := sc &&& ~~~scRelease
    if keyboard.extendedKey then
      let code := extendedToKey make
      let next := keyboard.extended code pressed
      (next, reportKey next code pressed)
    else
      let next := keyboard.plain make pressed
      (next, reportKey next (scToKey make) pressed)

/-- The `packet`, the `packet_index` and the `buttons` of the mouse driver. -/
structure Ps2Mouse where
  packet : Nat → BitVec 8
  packetIndex : Nat
  buttons : BitVec 8

/-- The state that `ps2_mouse_init` leaves. -/
def ps2MouseInit (packet : Nat → BitVec 8) : Ps2Mouse := ⟨packet, 0, 0⟩

def reportButton (buttons changed bit : BitVec 8) (code : Nat) : List InputEvent :=
  if changed &&& bit ≠ 0 then [inputReportKey code (buttons &&& bit != 0) 0] else []

/-- The reports of a motion; a motion of zero is not reported. -/
def reportMotion (axis : Nat) (value : Int) : List InputEvent :=
  if value ≠ 0 then [inputReportRel axis value] else []

/-- The reports of the buttons that differ from the `old` ones. -/
def reportButtons (old buttons : BitVec 8) : List InputEvent :=
  let changed := old ^^^ buttons
  reportButton buttons changed 0x01 inputBtnLeft ++ reportButton buttons changed 0x02 inputBtnRight ++
    reportButton buttons changed 0x04 inputBtnMiddle

/-- The part of `mouse_irq_handler` after the third byte of a packet, with the events in the order in which they are reported. -/
def Ps2Mouse.decode (mouse : Ps2Mouse) : Ps2Mouse × List InputEvent :=
  if mouse.packet 0 &&& 0xC0 ≠ 0 then (mouse, [])
  else
    let dx := (mouse.packet 1).toInt
    let dy := -(mouse.packet 2).toInt
    let buttons := mouse.packet 0 &&& 0x07
    ({ mouse with buttons },
      reportMotion inputRelX dx ++ reportMotion inputRelY dy ++ reportButtons mouse.buttons buttons)

/-- This is `mouse_irq_handler`, with the bytes that the two ports give. -/
def mouseIrqHandler (mouse : Ps2Mouse) (status data : BitVec 8) : Ps2Mouse × List InputEvent :=
  if status &&& 0x01 = 0 ∨ status &&& 0x20 = 0 then (mouse, [])
  else if mouse.packetIndex = 0 ∧ data &&& 0x08 = 0 then (mouse, [])
  else
    let packet := Function.update mouse.packet mouse.packetIndex data
    if mouse.packetIndex + 1 ≠ 3 then ({ mouse with packet, packetIndex := mouse.packetIndex + 1 }, [])
    else Ps2Mouse.decode { mouse with packet, packetIndex := 0 }

/-- The status with a byte of the mouse in the output buffer. -/
def mouseByteReady : BitVec 8 := 0x21

/-- The bytes arrive one by one; the second component has the events that are reported. -/
def Ps2Mouse.feed (mouse : Ps2Mouse) : List (BitVec 8) → Ps2Mouse × List InputEvent
  | [] => (mouse, [])
  | data :: rest =>
    let (next, events) := mouseIrqHandler mouse mouseByteReady data
    let (last, later) := next.feed rest
    (last, events ++ later)

end DoccrOS.Devices
