import SimpleOs.Kernel.State
import Mathlib.Logic.Function.Basic

/-!
# `common.c`

The byte and string functions over a flat byte memory, and the formatted output. Where
it matters which bytes a function reads, their indices come back with its result.
`printf` keeps its `buf` apart from the memory its pointers lead to, and the calls of
`putchar` are the list of their arguments.
-/

namespace SimpleOs.Kernel

open SimpleOs.Lib.ByteMemory
open Function (update)

/-- `while (p != end) *q++ = *p++` -/
def copyUp (m : Memory) (p q stop : U32int) : Memory :=
  if p = stop then m else copyUp (write8 m q (m p)) (p + 1) (q + 1) stop
termination_by (stop - p).toNat
decreasing_by bv_omega

/-- `while (p != src) *--q = *--p` -/
def copyDown (m : Memory) (p q src : U32int) : Memory :=
  if p = src then m else copyDown (write8 m (q - 1) (m (p - 1))) (p - 1) (q - 1) src
termination_by (p - src).toNat
decreasing_by bv_omega

def memmove (m : Memory) (dst src n : U32int) : Memory :=
  let stop := src + n
  if dst > src ∧ dst < stop then copyDown m stop (dst + n) src else copyUp m src dst stop

/-- A result with the indices the buffers were read at, in order. -/
structure Compared where
  value : Int
  reads : List Nat

/-- The loop of `memcmp` at index `i` with `n` bytes to go: the bytes are compared before
the count, and read again for the result. -/
def memcmpFrom (m : Memory) (s1 s2 : U32int) (i : Nat) : Nat → Compared
  | 0 => ⟨0, [i]⟩
  | n + 1 =>
    let byte1 := m (s1 + BitVec.ofNat 32 i)
    let byte2 := m (s2 + BitVec.ofNat 32 i)
    if byte1 = byte2 then
      let rest := memcmpFrom m s1 s2 (i+1) n
      ⟨rest.value, i :: rest.reads⟩
    else ⟨byte1.toNat - byte2.toNat, [i, i]⟩

def memcmp (m : Memory) (s1 s2 n : U32int) : Compared := memcmpFrom m s1 s2 0 n.toNat

/-- Rounds after which a pointer that still runs is back where it began. -/
abbrev stringFuel : Nat := 2^32

/-- `s` is the pointer behind the byte last read. -/
def strlenFrom (m : Memory) (str s : U32int) : Nat → Option U32int
  | 0 => none
  | fuel + 1 => if m s ≠ 0 then strlenFrom m str (s + 1) fuel else some (s + 1 - str - 1)

def strlen (m : Memory) (str : U32int) : Option U32int := strlenFrom m str str stringFuel

/-- The characters are signed. -/
def strcmpFrom (m : Memory) (s1 s2 : U32int) : Nat → Option Int
  | 0 => none
  | fuel + 1 =>
    if m s1 = m s2 then
      if m s1 = 0 then some 0 else strcmpFrom m (s1 + 1) (s2 + 1) fuel
    else some ((m s1).toInt - (m s2).toInt)

def strcmp (m : Memory) (s1 s2 : U32int) : Option Int := strcmpFrom m s1 s2 stringFuel

/-- `(remainder < 10) ? remainder + '0' : remainder + 'a' - 10` -/
def digitChar (remainder : U32int) : Byte :=
  if remainder < 10 then (remainder + 0x30).setWidth 8 else (remainder + 0x61 - 10).setWidth 8

/-- The divisors `itoa` uses are larger than 1. -/
abbrev Divisor := {divisor : U32int // 1 < divisor}

/-- The `do` loop, with the index behind the last digit. -/
def itoaDigits (divisor : Divisor) (buf : Nat → Byte) (p : Nat)
    (ud : U32int) : (Nat → Byte) × Nat :=
  let buf := update buf p (digitChar (ud % divisor.1))
  if h : ud / divisor.1 = 0 then (buf, p + 1) else itoaDigits divisor buf (p + 1) (ud / divisor.1)
termination_by ud.toNat
decreasing_by
  have hud : ud.toNat ≠ 0 := by
    intro hzero
    apply h
    apply BitVec.eq_of_toNat_eq
    rw [BitVec.toNat_udiv, hzero, Nat.zero_div]
    rfl
  rw [BitVec.toNat_udiv]
  exact Nat.div_lt_self (Nat.pos_of_ne_zero hud) divisor.2

/-- The loop that swaps from both ends. -/
def swapEnds (buf : Nat → Byte) (p1 p2 : Nat) : Nat → Byte :=
  if p1 < p2 then swapEnds (update (update buf p1 (buf p2)) p2 (buf p1)) (p1 + 1) (p2 - 1) else buf
termination_by p2 - p1

/-- The characters `%`, `d`, `u`, `x` and `s`. -/
abbrev percentChar : Byte := 0x25
abbrev dChar : Byte := 0x64
abbrev uChar : Byte := 0x75
abbrev xChar : Byte := 0x78
abbrev sChar : Byte := 0x73

/-- `start` is the index `buf` points to once the sign is written. -/
def itoa (buf : Nat → Byte) (base d : U32int) : Nat → Byte :=
  let negative := base = dChar.signExtend 32 ∧ d.toInt < 0
  let start := if negative then 1 else 0
  let buf := if negative then update buf 0 0x2D else buf
  let ud := if negative then -d else d
  let divisor : Divisor :=
    if ¬ negative ∧ base = xChar.signExtend 32 then ⟨16, by decide⟩ else ⟨10, by decide⟩
  let (buf, p) := itoaDigits divisor buf start ud
  swapEnds (update buf p 0) start (p - 1)

/-- `while (*p) putchar(*p++)` from index `i` on. -/
def putString (p : Nat → Byte) (i : Nat) : Nat → Option (List U32int)
  | 0 => none
  | fuel + 1 =>
    if p i ≠ 0 then do
      let rest ← putString p (i+1) fuel
      return (p i).signExtend 32 :: rest
    else some []

def nullText : List Byte := bytesOf "(null)"

/-- One round of the `switch`: what is printed for the conversion `c` of the argument `arg`,
and `buf` afterwards. -/
def convert (m : Memory) (buf : Nat → Byte) (c : Byte) (arg : U32int) (fuel : Nat) :
    Option (List U32int × (Nat → Byte)) :=
  if c = dChar ∨ c = uChar ∨ c = xChar then do
    let buf := itoa buf (c.signExtend 32) arg
    let text ← putString buf 0 fuel
    return (text, buf)
  else if c = sChar then do
    let p : Nat → Byte :=
      if arg = null then fun i => nullText.getD i 0 else fun i => m (arg + BitVec.ofNat 32 i)
    let text ← putString p 0 fuel
    return (text, buf)
  else some ([arg], buf)

/-- What `putchar` was called with, and where the format was read. -/
structure Printed where
  out : List U32int
  reads : List Nat

/-- The loop of `printf` at index `i` of the format, with `arg` at the next argument. -/
def printfFrom (m : Memory) (format : U32int) : Nat → Nat → U32int → (Nat → Byte) → Option Printed
  | 0, _, _, _ => none
  | fuel + 1, i, arg, buf =>
    let c := m (format + BitVec.ofNat 32 i)
    if c ≠ 0 then
      if c ≠ percentChar then do
        let rest ← printfFrom m format fuel (i+1) arg buf
        return ⟨c.signExtend 32 :: rest.out, i :: rest.reads⟩
      else do
        let c := m (format + BitVec.ofNat 32 (i+1))
        let (text, buf) ← convert m buf c (read32 m arg) fuel
        let rest ← printfFrom m format fuel (i+2) (arg + 4) buf
        return ⟨text ++ rest.out, i :: (i+1) :: rest.reads⟩
    else some ⟨[], [i]⟩

/-- `arg` is the address of the argument behind the format, `buf` what the array holds on
entry. -/
def printf (m : Memory) (format arg : U32int) (buf : Nat → Byte) (fuel : Nat) : Option Printed :=
  printfFrom m format fuel 0 arg buf

end SimpleOs.Kernel
