import SimpleOs.Kernel.Mutex
import SimpleOs.Kernel.State

/-!
# `keyboard.c`

The key buffer between the interrupt handler and its one reader. The handler runs
in one piece; the reader's `get_keyboard_key` is cut wherever an interrupt can
come in. `ch` stands in the byte behind `key_loc_mtx`, where the exchanges of
`mutex.c` write, so both are bytes of one memory. The state also records what was
stored, taken and returned, which elements of `keycache` were touched and how often
the port was read; no step looks at that.
-/

namespace SimpleOs.Kernel

open SimpleOs.Lib.ByteMemory

/-- `key_loc_mtx` in the linked image. -/
def keyLocMtx : Addr := 0xDB8

/-- Where the compiler puts the static `ch`. -/
def chAt : Addr := keyLocMtx + 1

def keyCacheSize : Int := 256

/-- A string constant indexed up to its NUL. -/
def charAt (row : String) (i : Nat) : Byte := (bytesOf row).getD i 0

/-- `keyboard_to_ascii`. Key `0x1B` reads one byte behind the NUL of
`"qwertyuiop"`; `past` is what stands there. -/
def keyboardToAscii (past : Byte) (key : U8int) : U8int :=
  if key = 0x1C then 0x0A
  else if key = 0x39 then 0x20
  else if key = 0x0E then 0x0D
  else if key = 0x34 then 0x2E
  else if key = 0x35 then 0x2F
  else if key = 0x0B then 0x30
  else if 0x02 ≤ key ∧ key ≤ 0x0B then charAt "123456789" (key - 0x02).toNat
  else if 0x10 ≤ key ∧ key ≤ 0x1C then
    if key = 0x1B then past else charAt "qwertyuiop" (key - 0x10).toNat
  else if 0x1E ≤ key ∧ key ≤ 0x26 then charAt "asdfghjkl" (key - 0x1E).toNat
  else if 0x2C ≤ key ∧ key ≤ 0x32 then charAt "zxcvbnm" (key - 0x2C).toNat
  else 0

/-- Where the reader is in `get_keyboard_key`. -/
inductive KeyReader where
  | test
  | lock
  | take
  | loopTest (i : Int)
  | load (i : Int)
  | store (i : Int) (v : Byte)
  | decLoad
  | decStore (v : Int)
  | unlock
  | ret
deriving DecidableEq

structure Keyboard where
  keycache : Int → Byte
  keyLoc : Int
  data : Memory
  reader : KeyReader
  stored : List Byte
  taken : List Byte
  returned : List Byte
  touched : List Int
  portReads : Nat

namespace Keyboard

/-- After `init_keyboard`, whatever the allocated buffer holds. -/
def init (keycache : Int → Byte) : Keyboard where
  keycache := keycache
  keyLoc := 0
  data := fun _ => 0
  reader := .test
  stored := []
  taken := []
  returned := []
  touched := []
  portReads := 0

def ch (s : Keyboard) : Byte := s.data chAt

/-- The lock byte. -/
def mutex (s : Keyboard) : Byte := s.data keyLocMtx

def touch (i : Int) (s : Keyboard) : Keyboard := { s with touched := s.touched ++ [i] }

/-- `keycache[key_loc++] = c`, the port having been read for `c`. -/
def storeKey (c : Byte) (s : Keyboard) : Keyboard :=
  { s.touch s.keyLoc with
    keycache := fun i => if i = s.keyLoc then c else s.keycache i
    keyLoc := s.keyLoc + 1
    stored := s.stored ++ [c]
    portReads := s.portReads + 1 }

/-- The handler under the lock, with `key` waiting at port 0x60. -/
def storeIfRoom (past : Byte) (key : U8int) (s : Keyboard) : Keyboard :=
  if s.keyLoc < keyCacheSize - 1 then s.storeKey (keyboardToAscii past key) else s

/-- `mutex_trylock`, with what its exchange leaves in memory. -/
def trylock (s : Keyboard) : Bool × Keyboard :=
  ((mutexTrylock s.data keyLocMtx).1, { s with data := (mutexTrylock s.data keyLocMtx).2 })

def unlock (s : Keyboard) : Keyboard := { s with data := mutexUnlock s.data keyLocMtx }

def keyboardCallback (past : Byte) (key : U8int) (s : Keyboard) : Keyboard :=
  if s.trylock.1 then (s.trylock.2.storeIfRoom past key).unlock else s.trylock.2

/-- One step of `get_keyboard_key`, called again when it returns. -/
def getKeyboardKey (s : Keyboard) : Keyboard :=
  match s.reader with
  | .test => { s with data := write8 s.data chAt 0, reader := if s.keyLoc ≠ 0 then .lock else .ret }
  | .lock =>
    { s with
      data := (mutexLock s.data keyLocMtx).2
      reader := if (mutexLock s.data keyLocMtx).1 then .take else .lock }
  | .take =>
    let v := s.keycache 0
    { s.touch 0 with data := write8 s.data chAt v, taken := s.taken ++ [v], reader := .loopTest 0 }
  | .loopTest i => { s with reader := if i < s.keyLoc then .load i else .decLoad }
  | .load i => { s.touch (i+1) with reader := .store i (s.keycache (i+1)) }
  | .store i v =>
    { s.touch i with
      keycache := fun j => if j = i then v else s.keycache j
      reader := .loopTest (i+1) }
  | .decLoad => { s with reader := .decStore (s.keyLoc - 1) }
  | .decStore v => { s with keyLoc := v, reader := .unlock }
  | .unlock => { s.unlock with reader := .ret }
  | .ret => { s with returned := s.returned ++ [s.ch], reader := .test }

end Keyboard

inductive KeyEvent where
  | interrupt (key : U8int)
  | read

def Keyboard.step (past : Byte) (s : Keyboard) : KeyEvent → Keyboard
  | .interrupt key => s.keyboardCallback past key
  | .read => s.getKeyboardKey

/-- The state after `n` events of a schedule. -/
def Keyboard.after (past : Byte) (cache : Int → Byte) (events : Nat → KeyEvent) : Nat → Keyboard
  | 0 => Keyboard.init cache
  | n + 1 => (Keyboard.after past cache events n).step past (events n)

end SimpleOs.Kernel
