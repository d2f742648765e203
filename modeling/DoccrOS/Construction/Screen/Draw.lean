import DoccrOS.Construction.Screen.Console
import DoccrOS.Lib.Logged

namespace DoccrOS.Screen
open Lib

/-- A line stops when a signed number overflows, or it goes on for ever. -/
inductive LineHalt where
  | overflow
  | hang
deriving DecidableEq, Repr

/-- The coordinates of a pixel. -/
abbrev Point := BitVec 32 × BitVec 32

/-- A computation with the points that it plots. -/
abbrev Plotted (A : Type) := Logged Point LineHalt A

/-- The value of a signed operation, if an `int` holds it. -/
def checkedInt (n : Int) : Except LineHalt Int := if -2 ^ 31 ≤ n ∧ n < 2 ^ 31 then .ok n else .error .overflow

/-- The distance of two coordinates. The difference of unsigned numbers is stored as an `int`. -/
def distance (start stop : BitVec 32) : Except LineHalt Int :=
  let d := (stop - start).toInt
  if d < 0 then checkedInt (-d) else .ok d

/-- The direction of the steps from a coordinate to another. -/
def direction (start stop : BitVec 32) : Int := if start < stop then 1 else -1

/-- The end of a round of `draw_line`. It returns the next point and the next error term. -/
def lineStep (dx dy sx sy : Int) (x0 y0 : BitVec 32) (err : Int) : Except LineHalt (BitVec 32 × BitVec 32 × Int) := do
  let e2 ← checkedInt (2 * err)
  let negated ← checkedInt (-dy)
  let (x0, err) ←
    if e2 > negated then do
      let err ← checkedInt (err - dy)
      pure (x0 + BitVec.ofInt 32 sx, err)
    else pure (x0, err)
  let (y0, err) ←
    if e2 < dx then do
      let err ← checkedInt (err + dx)
      pure (y0 + BitVec.ofInt 32 sy, err)
    else pure (y0, err)
  return (x0, y0, err)

/-- The loop of `draw_line`. -/
def lineLoop (x1 y1 color : BitVec 32) (dx dy sx sy : Int) :
    (fuel : Nat) → (d : Display) → (x0 y0 : BitVec 32) → (err : Int) → Plotted Display
  | 0, _, _, _, _ => .lift (.error .hang)
  | fuel + 1, d, x0, y0, err => do
    let d ← .access [(x0, y0)] (putpixel d x0.toNat y0.toNat color)
    if x0 = x1 ∧ y0 = y1 then pure d
    else
      let (x0, y0, err) ← .lift (lineStep dx dy sx sy x0 y0 err)
      lineLoop x1 y1 color dx dy sx sy fuel d x0 y0 err

/-- The loop runs for `fuel` rounds at most. -/
def drawLine (fuel : Nat) (d : Display) (x0 y0 x1 y1 color : BitVec 32) : Plotted Display := do
  let dx ← .lift (distance x0 x1)
  let dy ← .lift (distance y0 y1)
  let sx := direction x0 x1
  let sy := direction y0 y1
  let err ← .lift (checkedInt (dx - dy))
  lineLoop x1 y1 color dx dy sx sy fuel d x0 y0 err

end DoccrOS.Screen
