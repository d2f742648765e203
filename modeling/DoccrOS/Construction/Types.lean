import Mathlib.Tactic

namespace DoccrOS

/-- A `u64` memory word. -/
abbrev Word := BitVec 64

/-- Unsigned 64-bit arithmetic wraps. -/
def wrap64 (n : Nat) : Nat := n % 2 ^ 64

/-- Unsigned 64-bit subtraction wraps. -/
def sub64 (a b : Nat) : Nat := (a + 2 ^ 64 - b) % 2 ^ 64

/-- Unsigned 32-bit arithmetic wraps. -/
def wrap32 (n : Nat) : Nat := n % 2 ^ 32

/-- This is `PAGE_SIZE`. -/
def pageSize : Nat := 4096

/-- `PAGE_ALIGN_DOWN(x)` clears the low twelve bits. -/
def pageAlignDown (x : Nat) : Nat := x - x % pageSize

/-- `PAGE_ALIGN_UP(x)` adds `0xFFF` and clears the low twelve bits. -/
def pageAlignUp (x : Nat) : Nat := pageAlignDown (wrap64 (x + 0xFFF))

/-- A call that does not return stops in a panic, loops for ever or uses a pointer that is not valid. -/
inductive Halt where
  | panic (message : String)
  | hang
  | invalid
deriving DecidableEq, Repr

/-- A kernel function returns its value or never returns. -/
abbrev Result (A : Type) := Except Halt A

theorem Result.ok_bind {A B : Type} (value : A) (rest : A → Result B) : (Except.ok value : Result A) >>= rest = rest value :=
  rfl

/-- A bind returns exactly when both of its parts return. -/
theorem Result.bind_ok {A B : Type} {call : Result A} {rest : A → Result B} {value : B}
    (returned : call >>= rest = .ok value) : ∃ middle, call = .ok middle ∧ rest middle = .ok value := by
  cases call with
  | error halt => cases returned
  | ok middle => exact ⟨middle, rfl, returned⟩

/-- A map returns exactly when its call does. -/
theorem Result.map_ok {A B : Type} {call : Result A} {f : A → B} {value : B} (returned : call.map f = .ok value) :
    ∃ middle, call = .ok middle ∧ f middle = value := by
  cases call with
  | error halt => cases returned
  | ok middle => exact ⟨middle, rfl, Except.ok.inj returned⟩

end DoccrOS
