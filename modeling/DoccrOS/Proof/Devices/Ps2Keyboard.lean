import DoccrOS.Construction.Devices.Ps2
import Mathlib.Algebra.Group.Nat.Even

namespace DoccrOS.Devices

/-- A key of the keyboard, by its make code in scan code set 1. -/
structure PhysicalKey where
  extended : Bool
  make : BitVec 8
deriving DecidableEq

inductive Modifier where
  | shift
  | ctrl
  | alt
deriving DecidableEq

def Modifier.left : Modifier → PhysicalKey
  | .shift => ⟨false, 0x2A⟩
  | .ctrl => ⟨false, 0x1D⟩
  | .alt => ⟨false, 0x38⟩

def Modifier.right : Modifier → PhysicalKey
  | .shift => ⟨false, 0x36⟩
  | .ctrl => ⟨true, 0x1D⟩
  | .alt => ⟨true, 0x38⟩

def Modifier.mask : Modifier → BitVec 8
  | .shift => inputModShift
  | .ctrl => inputModCtrl
  | .alt => inputModAlt

def capsLockKey : PhysicalKey := ⟨false, 0x3A⟩

/-- What the bytes so far say: whether a prefix waits for its key, the keys that are held and how often caps lock was pressed. -/
structure KeyLine where
  prefixed : Bool
  held : PhysicalKey → Bool
  capsPresses : Nat

def KeyLine.start : KeyLine := ⟨false, fun _ => false, 0⟩

/-- The key of a byte that is no prefix. -/
def KeyLine.key (line : KeyLine) (data : BitVec 8) : PhysicalKey := ⟨line.prefixed, data &&& 0x7F⟩

/-- A byte is a prefix, a make, or a break when its top bit is set. -/
def KeyLine.next (line : KeyLine) (data : BitVec 8) : KeyLine :=
  if data = 0xE0 then { line with prefixed := true }
  else
    { prefixed := false
      held := Function.update line.held (line.key data) !data.msb
      capsPresses := if line.key data = capsLockKey ∧ !data.msb then line.capsPresses + 1 else line.capsPresses }

/-- The modifiers of an event are those of the held keys. -/
structure KeyLine.Carried (line : KeyLine) (ev : InputEvent) : Prop where
  held : ∀ modifier : Modifier, ev.modifiers &&& modifier.mask ≠ 0 ↔
    line.held modifier.left = true ∨ line.held modifier.right = true
  caps : ev.modifiers &&& inputModCaps ≠ 0 ↔ Odd line.capsPresses

/-- The status with a byte in the output buffer. -/
def keyByteReady : BitVec 8 := 0x01

/-- The events that are reported for the bytes carry the modifiers of the keys that are held after their byte. -/
def ModifiersFollow (keyboard : Ps2Keyboard) (line : KeyLine) : List (BitVec 8) → Prop
  | [] => True
  | data :: rest =>
    (∀ ev ∈ (keyboardIrqHandler keyboard keyByteReady data).2, (line.next data).Carried ev) ∧
      ModifiersFollow (keyboardIrqHandler keyboard keyByteReady data).1 (line.next data) rest

/-- The two keys of a modifier, in either order. -/
def Modifier.Pair (modifier : Modifier) (key other : PhysicalKey) : Prop :=
  (key = modifier.left ∧ other = modifier.right) ∨ (key = modifier.right ∧ other = modifier.left)

/-- A byte is no break of a modifier key while the other key of its pair is held. -/
def KeyLine.Single (line : KeyLine) (data : BitVec 8) : Prop :=
  data ≠ 0xE0 → data.msb = true → ∀ modifier other, Modifier.Pair modifier (line.key data) other → line.held other = false

/-- No byte is a break of a modifier key while the other key of its pair is held. -/
def KeyLine.SingleReleases (line : KeyLine) : List (BitVec 8) → Prop
  | [] => True
  | data :: rest => line.Single data ∧ (line.next data).SingleReleases rest

/-- The flag of the driver for a modifier. -/
def Ps2Keyboard.flag (keyboard : Ps2Keyboard) : Modifier → Bool
  | .shift => keyboard.shiftHeld
  | .ctrl => keyboard.ctrlHeld
  | .alt => keyboard.altHeld

/-- The driver follows the keys: each flag is set exactly when a key of its pair is held. -/
structure Ps2Keyboard.Follows (keyboard : Ps2Keyboard) (line : KeyLine) : Prop where
  prefixed : keyboard.extendedKey = line.prefixed
  held : ∀ modifier, keyboard.flag modifier = (line.held modifier.left || line.held modifier.right)
  caps : keyboard.capsLock = decide (Odd line.capsPresses)

/-- The step of the handler with a key. -/
structure KeyStep (keyboard : Ps2Keyboard) (key : PhysicalKey) (pressed : Bool) (next : Ps2Keyboard) (code : Keycode) : Prop where
  flag : ∀ modifier : Modifier,
    next.flag modifier = if key = modifier.left ∨ key = modifier.right then pressed else keyboard.flag modifier
  caps : next.capsLock = if key = capsLockKey ∧ pressed then !keyboard.capsLock else keyboard.capsLock
  prefixed : next.extendedKey = false
  named : ∀ modifier : Modifier, key = modifier.left ∨ key = modifier.right → code ≠ .none

section
variable {keyboard : Ps2Keyboard} {line : KeyLine} {data : BitVec 8} {ev : InputEvent}

/-- The bits of the modifiers are the flags. -/
theorem buildModifiers_mask (keyboard : Ps2Keyboard) (modifier : Modifier) :
    buildModifiers keyboard &&& modifier.mask ≠ 0 ↔ keyboard.flag modifier = true := by
  obtain ⟨shift, ctrl, alt, caps, extended⟩ := keyboard
  revert shift ctrl alt caps extended
  cases modifier <;> decide

theorem buildModifiers_caps (keyboard : Ps2Keyboard) :
    buildModifiers keyboard &&& inputModCaps ≠ 0 ↔ keyboard.capsLock = true := by
  obtain ⟨shift, ctrl, alt, caps, extended⟩ := keyboard
  revert shift ctrl alt caps extended
  decide

/-- The flag of a modifier after a plain scan code. -/
theorem plain_flag (keyboard : Ps2Keyboard) (make : BitVec 8) (pressed : Bool) (modifier : Modifier) :
    (keyboard.plain make pressed).flag modifier =
      if ⟨false, make⟩ = modifier.left ∨ ⟨false, make⟩ = modifier.right then pressed else keyboard.flag modifier := by
  cases modifier <;>
    grind [Ps2Keyboard.plain, Ps2Keyboard.flag, Modifier.left, Modifier.right, scLshift, scRshift, scLctrl, scLalt]

/-- The codes of the extended control key and alt key in the table. -/
theorem extendedToKey_modifier : ∀ make : BitVec 8, (extendedToKey make = .rctrl ↔ make = 0x1D) ∧
    (extendedToKey make = .ralt ↔ make = 0x38) := by
  decide +kernel

/-- The flag of a modifier after an extended scan code. -/
theorem extended_flag (keyboard : Ps2Keyboard) (make : BitVec 8) (pressed : Bool) (modifier : Modifier) :
    (keyboard.extended (extendedToKey make) pressed).flag modifier =
      if ⟨true, make⟩ = modifier.left ∨ ⟨true, make⟩ = modifier.right then pressed else keyboard.flag modifier := by
  obtain ⟨ctrl, alt⟩ := extendedToKey_modifier make
  cases modifier <;> grind [Ps2Keyboard.extended, Ps2Keyboard.flag, Modifier.left, Modifier.right]

/-- The lock and the prefix after a plain scan code. -/
theorem plain_rest (keyboard : Ps2Keyboard) (make : BitVec 8) (pressed : Bool) :
    (keyboard.plain make pressed).capsLock =
        (if ⟨false, make⟩ = capsLockKey ∧ pressed then !keyboard.capsLock else keyboard.capsLock) ∧
      (keyboard.plain make pressed).extendedKey = keyboard.extendedKey := by
  grind [Ps2Keyboard.plain, capsLockKey, scLshift, scRshift, scLctrl, scLalt, scCaps]

/-- The lock and the prefix after an extended scan code. -/
theorem extended_rest (keyboard : Ps2Keyboard) (code : Keycode) (make : BitVec 8) (pressed : Bool) :
    (keyboard.extended code pressed).capsLock =
        (if ⟨true, make⟩ = capsLockKey ∧ pressed then !keyboard.capsLock else keyboard.capsLock) ∧
      (keyboard.extended code pressed).extendedKey = false := by
  grind [Ps2Keyboard.extended, capsLockKey]

/-- The mask of the breaks is the top bit. -/
theorem released_msb : ∀ data : BitVec 8, decide (data &&& scRelease = 0) = !data.msb := by
  decide +kernel

/-- The two keys of a modifier have a code in the tables. -/
theorem modifier_code (modifier : Modifier) (key : PhysicalKey) (paired : key = modifier.left ∨ key = modifier.right) :
    (if key.extended then extendedToKey key.make else scToKey key.make) ≠ .none := by
  rcases paired with rfl | rfl <;> cases modifier <;> decide

/-- What the handler does with a byte that is no prefix: the key changes its flag, and its event carries the new flags. -/
theorem irq_key (prefixed : keyboard.extendedKey = line.prefixed) (notPrefix : data ≠ 0xE0) :
    ∃ next code, keyboardIrqHandler keyboard keyByteReady data = (next, reportKey next code !data.msb) ∧
      KeyStep keyboard (line.key data) (!data.msb) next code := by
  have ready : ¬keyByteReady &&& 1 = 0 := by decide
  have other : ¬data = scExtended := notPrefix
  rw [keyboardIrqHandler, if_neg ready, if_neg other, released_msb, KeyLine.key, ← prefixed]
  cases before : keyboard.extendedKey
  · obtain ⟨caps, rest⟩ := plain_rest keyboard (data &&& 0x7F) !data.msb
    refine ⟨_, _, rfl, plain_flag keyboard _ _, caps, rest.trans before, ?_⟩
    exact fun modifier paired => modifier_code modifier _ paired
  · obtain ⟨caps, rest⟩ := extended_rest keyboard (extendedToKey (data &&& 0x7F)) (data &&& 0x7F) !data.msb
    refine ⟨_, _, rfl, extended_flag keyboard _ _, caps, rest, ?_⟩
    exact fun modifier paired => modifier_code modifier _ paired

/-- A prefix is remembered, and nothing is reported. -/
theorem irq_prefixByte : keyboardIrqHandler keyboard keyByteReady 0xE0 = ({ keyboard with extendedKey := true }, []) := by
  have ready : ¬keyByteReady &&& 1 = 0 := by decide
  rw [keyboardIrqHandler, if_neg ready]
  rfl

theorem next_prefixByte : line.next 0xE0 = { line with prefixed := true } := rfl

/-- What the bytes say after a byte that is no prefix. -/
theorem next_key (notPrefix : data ≠ 0xE0) : line.next data =
    { prefixed := false
      held := Function.update line.held (line.key data) !data.msb
      capsPresses := if line.key data = capsLockKey ∧ !data.msb then line.capsPresses + 1 else line.capsPresses } :=
  if_neg notPrefix

theorem Modifier.left_ne_right (modifier : Modifier) : modifier.left ≠ modifier.right := by
  cases modifier <;> decide

/-- The driver follows the keys after a prefix, and after a key that is no second release. -/
theorem Ps2Keyboard.Follows.next (follows : keyboard.Follows line) (single : line.Single data) :
    (keyboardIrqHandler keyboard keyByteReady data).1.Follows (line.next data) := by
  by_cases isPrefix : data = 0xE0
  · subst isPrefix
    rw [irq_prefixByte, next_prefixByte]
    refine ⟨rfl, fun modifier => ?_, follows.caps⟩
    rw [← follows.held]
    cases modifier <;> rfl
  · obtain ⟨next, code, handled, step⟩ := irq_key follows.prefixed isPrefix
    rw [handled, next_key isPrefix]
    refine ⟨step.prefixed, fun modifier => ?_, ?_⟩
    · have clear := single isPrefix
      have distinct := modifier.left_ne_right
      rw [step.flag, follows.held]
      dsimp only
      by_cases left : line.key data = modifier.left
      · rw [if_pos (Or.inl left), left, Function.update_self, Function.update_of_ne distinct.symm]
        cases released : data.msb with
        | false => rfl
        | true => rw [clear released modifier _ (Or.inl ⟨left, rfl⟩)]; rfl
      · by_cases right : line.key data = modifier.right
        · rw [if_pos (Or.inr right), right, Function.update_self, Function.update_of_ne distinct]
          cases released : data.msb with
          | false => rw [Bool.not_false, Bool.or_true]
          | true => rw [clear released modifier _ (Or.inr ⟨right, rfl⟩)]; rfl
        · rw [if_neg (not_or_intro left right), Function.update_of_ne (Ne.symm left), Function.update_of_ne (Ne.symm right)]
    · rw [step.caps, follows.caps]
      split_ifs
      · rw [← decide_not, decide_eq_decide]
        exact Nat.odd_add_one.symm
      · rfl

/-- Every event carries the flags that the driver has after its byte. -/
theorem irq_modifiers (follows : keyboard.Follows line) (member : ev ∈ (keyboardIrqHandler keyboard keyByteReady data).2) :
    ev.modifiers = buildModifiers (keyboardIrqHandler keyboard keyByteReady data).1 := by
  by_cases isPrefix : data = 0xE0
  · subst isPrefix
    rw [irq_prefixByte] at member
    cases member
  · obtain ⟨next, code, handled, step⟩ := irq_key follows.prefixed isPrefix
    rw [handled] at member ⊢
    rw [reportKey] at member
    split at member
    · cases List.mem_singleton.mp member
      rfl
    · cases member

/-- A driver that follows the keys gives the modifiers of the held keys. -/
theorem Ps2Keyboard.Follows.carried (follows : keyboard.Follows line) (modifiers : ev.modifiers = buildModifiers keyboard) :
    line.Carried ev := by
  refine ⟨fun modifier => ?_, ?_⟩
  · rw [modifiers, buildModifiers_mask, follows.held, Bool.or_eq_true]
  · rw [modifiers, buildModifiers_caps, follows.caps, decide_eq_true_iff]

/-- The events of a byte carry the modifiers of the held keys exactly when the byte is no second release. -/
theorem carried_iff (follows : keyboard.Follows line) :
    (∀ ev ∈ (keyboardIrqHandler keyboard keyByteReady data).2, (line.next data).Carried ev) ↔ line.Single data := by
  constructor
  · intro carried isKey released modifier other pair
    obtain ⟨next, code, handled, step⟩ := irq_key follows.prefixed isKey
    have paired : line.key data = modifier.left ∨ line.key data = modifier.right := pair.imp And.left And.left
    -- The event of the break says that no key of the pair is held.
    have reported : reportKey next code (!data.msb) = [inputReportKey code.ctorIdx (!data.msb) (buildModifiers next)] :=
      if_pos (step.named modifier paired)
    rw [handled, reported, next_key isKey] at carried
    have held := ((carried _ (List.mem_singleton_self _)).held modifier).not.mp
    change ¬(buildModifiers next &&& modifier.mask ≠ 0) → _ at held
    rw [buildModifiers_mask, step.flag, if_pos paired, released] at held
    dsimp only at held
    have free := not_or.mp (held Bool.false_ne_true)
    have distinct := modifier.left_ne_right
    rcases pair with ⟨left, rfl⟩ | ⟨right, rfl⟩
    · have none := free.2
      rw [left, Function.update_of_ne distinct.symm] at none
      exact Bool.eq_false_of_not_eq_true none
    · have none := free.1
      rw [right, Function.update_of_ne distinct] at none
      exact Bool.eq_false_of_not_eq_true none
  · exact fun single ev member => (follows.next single).carried (irq_modifiers follows member)

/-- The events of a stream carry the modifiers of the held keys exactly when no modifier key is released while the other key of
its pair is held. -/
theorem modifiersFollow_iff (follows : keyboard.Follows line) (stream : List (BitVec 8)) :
    ModifiersFollow keyboard line stream ↔ line.SingleReleases stream := by
  induction stream generalizing keyboard line with
  | nil => exact Iff.rfl
  | cons data rest inductionHypothesis =>
      rw [ModifiersFollow, KeyLine.SingleReleases, carried_iff follows]
      exact and_congr_right fun single => inductionHypothesis (follows.next single)

theorem follows_start : keyboardInit.Follows KeyLine.start := by
  refine ⟨rfl, fun modifier => ?_, ?_⟩
  · cases modifier <;> rfl
  · decide

/-- After `keyboard_init` the events of a stream carry the modifiers of the held keys exactly when no modifier key is released
while the other key of its pair is held. -/
theorem keyboard_modifiers (stream : List (BitVec 8)) :
    ModifiersFollow keyboardInit KeyLine.start stream ↔ KeyLine.start.SingleReleases stream :=
  modifiersFollow_iff follows_start stream

/-- Left shift is released while right shift is held. -/
theorem keyboard_modifiers_lost : ¬ModifiersFollow keyboardInit KeyLine.start [0x2A, 0x36, 0xAA] := by
  rintro ⟨-, -, last, -⟩
  have carried := last (inputReportKey Keycode.lshift.ctorIdx false 0) (by decide)
  have flag := (carried.held .shift).mpr (Or.inr (by decide))
  exact flag (by decide)

/-- The codes of the keys are below those of the buttons. -/
theorem ctorIdx_lt (code : Keycode) : code.ctorIdx < inputBtnLeft := by
  cases code <;> decide

/-- The interrupt of the keyboard reports keys, and the controller gives them to the queue of the keyboard. -/
theorem keyboardIrqHandler_dispatch {status sc : BitVec 8} (member : ev ∈ (keyboardIrqHandler keyboard status sc).2)
    (queues : InputQueues) : inputDispatch queues ev = { queues with kbd := kbdPushEvent queues.kbd ev } := by
  have reported (keyboard : Ps2Keyboard) (code : Keycode) (pressed : Bool) (among : ev ∈ reportKey keyboard code pressed) :
      ev.type = .key ∧ ev.code < inputBtnLeft := by
    rw [reportKey] at among
    split at among
    · cases List.mem_singleton.mp among
      exact ⟨rfl, ctorIdx_lt code⟩
    · cases among
  have key : ev.type = .key ∧ ev.code < inputBtnLeft := by
    simp only [keyboardIrqHandler] at member
    split_ifs at member
    · cases member
    · cases member
    · exact reported _ _ _ member
    · exact reported _ _ _ member
  rw [inputDispatch, key.1]
  exact if_neg fun button => Nat.not_le_of_lt key.2 button.1

end

end DoccrOS.Devices
