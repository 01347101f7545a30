import SimpleOs.Kernel.DescriptorTables
import SimpleOs.Kernel.MemoryManager

/-!
# `screen.c` and `putchar`

The text screen through the video segment in ES. `limit` is the last offset its
descriptor makes accessible; an access beyond it is a general protection fault.
`SCREEN_WIDE` is 80 and `SCREEN_HIGH` is 25.
-/

namespace SimpleOs.Kernel

open SimpleOs.Lib.ByteMemory (Byte)
open SimpleOs.Lib.Loops (forLoop)

structure ScreenCursor where
  x : U8int
  y : U8int
deriving DecidableEq

structure Screen where
  /-- Bytes of the video segment by their offset. -/
  video : Nat → Byte
  screenCursor : ScreenCursor
  /-- Cursor registers 14 and 15 of the VGA board. -/
  cursorHighByte : U8int
  cursorLowByte : U8int
  backgroundColor : BitVec 4
  foregroundColor : BitVec 4

structure VgaSymbolParameter where
  symbol : U8int
  foregroundColor : BitVec 4
  backgroundColor : BitVec 4

/-- The second byte of the packed parameter. -/
def VgaSymbolParameter.colorByte (output : VgaSymbolParameter) : U8int :=
  output.backgroundColor ++ output.foregroundColor

def esMovw (limit i : Nat) (output : VgaSymbolParameter) (s : Screen) : Except Trap Screen :=
  if i + 1 ≤ limit then
    .ok { s with video := fun off =>
      if off = i then output.symbol else if off = i+1 then output.colorByte else s.video off }
  else .error .generalProtection

def esMovb (limit i : Nat) (v : Byte) (s : Screen) : Except Trap Screen :=
  if i ≤ limit then .ok { s with video := fun off => if off = i then v else s.video off }
  else .error .generalProtection

/-- `mov %es:(i), %eax` and `mov %eax, %es:(j)`. -/
def esCopyDword (limit i j : Nat) (s : Screen) : Except Trap Screen :=
  if i + 3 ≤ limit ∧ j + 3 ≤ limit then
    .ok { s with video := fun off =>
      if j ≤ off ∧ off < j + 4 then s.video (i + (off - j)) else s.video off }
  else .error .generalProtection

def setCursorPosition (x y : U8int) (s : Screen) : Screen :=
  let cursor : ScreenCursor := ⟨x % 80, y % 25⟩
  let cursorLocation : BitVec 16 := cursor.y.setWidth 16 * 80 + cursor.x.setWidth 16
  { s with
    screenCursor := cursor
    cursorHighByte := (cursorLocation >>> 8).setWidth 8
    cursorLowByte := cursorLocation.setWidth 8 }

def scrollUp (limit : Nat) (s : Screen) : Except Trap Screen := do
  let s ← forLoop .diverged (fun i : U32int => decide (i < 4000)) 2
    (fun i => esCopyDword limit i.toNat (i - 160).toNat) loopFuel 160 s
  let s ← forLoop .diverged (fun i : U32int => decide (i < 4000)) 2
    (fun i => esMovb limit i.toNat 0) loopFuel 3840 s
  .ok (setCursorPosition s.screenCursor.x
    (if s.screenCursor.y = 0 then 0 else s.screenCursor.y - 1) s)

def newLine (limit : Nat) (s : Screen) : Except Trap Screen := do
  let s ← if s.screenCursor.y.toNat + 1 = 25 then scrollUp limit s else .ok s
  .ok (setCursorPosition 0 (s.screenCursor.y + 1) s)

def moveNextCursorPosition (limit : Nat) (s : Screen) : Except Trap Screen := do
  let s ← if 80 ≤ s.screenCursor.x.toNat + 1 ∧ s.screenCursor.y.toNat + 1 = 25
    then scrollUp limit s else .ok s
  .ok (setCursorPosition (s.screenCursor.x + 1)
    (if 80 ≤ s.screenCursor.x.toNat + 1 then s.screenCursor.y + 1 else s.screenCursor.y) s)

def moveBackCursorPosition (s : Screen) : Screen :=
  setCursorPosition (if s.screenCursor.x = 0 then 79 else s.screenCursor.x - 1)
    (if s.screenCursor.x = 0 then s.screenCursor.y - 1 else s.screenCursor.y) s

def printSymbol (limit : Nat) (c : U8int) (s : Screen) : Except Trap Screen :=
  esMovw limit ((s.screenCursor.y.toNat * 80 + s.screenCursor.x.toNat) * 2)
    ⟨c, s.foregroundColor, s.backgroundColor⟩ s

def clearScreen (limit : Nat) (s : Screen) : Except Trap Screen := do
  let s ← forLoop .diverged (fun i : U32int => decide (i < 4000)) 2
    (fun i s => esMovw limit i.toNat ⟨0x20, s.foregroundColor, s.backgroundColor⟩ s) loopFuel 0 s
  .ok (setCursorPosition 0 0 s)

/-- `putchar` takes an `int` and prints its low byte. -/
def putchar (limit : Nat) (c : U32int) (s : Screen) : Except Trap Screen :=
  if c = 10 then newLine limit s
  else if c = 13 then .ok (moveBackCursorPosition s)
  else do
    let s ← printSymbol limit (c.setWidth 8) s
    moveNextCursorPosition limit s

/-- A `char` argument is sign-extended. -/
def putchars (limit : Nat) (text : List Byte) (s : Screen) : Except Trap Screen :=
  text.foldlM (fun s ch => putchar limit (ch.signExtend 32) s) s

def videoLimit : Nat :=
  (setGlobalDescriptor videoBaseAddr (screenWide * screenHigh * 2) 0x92 0x40).lastOffset

end SimpleOs.Kernel
