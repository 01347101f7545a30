import SimpleOs.Kernel.Access
import SimpleOs.Kernel.Mutex

/-!
# `alloc.c`

The heap entry points and their lock. `klmalloc` and `klfree` are parameters: they work
on the heap alone and take no lock. What a call does to `mem_lock` is recorded, also for
a call that never comes back. One context runs.
-/

namespace SimpleOs.Kernel

open SimpleOs.Lib.ByteMemory

/-- What happens to `mem_lock`: `mutex_lock` is entered, left with the lock, and the lock
is released. -/
inductive LockEvent where
  | attempt
  | acquired
  | released
deriving DecidableEq

structure HeapState where
  /-- Static data around `mem_lock`. -/
  statics : Memory
  state : State

structure Outcome (α : Type) where
  events : List LockEvent
  result : Except Trap (α × HeapState)

/-- A computation that may use the lock. -/
def Locking (α : Type) : Type := HeapState → Outcome α

namespace Locking

instance : Monad Locking where
  pure a := fun s => ⟨[], .ok (a, s)⟩
  bind x f := fun s =>
    match (x s).result with
    | .ok (a, s') => ⟨(x s).events ++ (f a s').events, (f a s').result⟩
    | .error e => ⟨(x s).events, .error e⟩

/-- Work on the heap. -/
def onHeap {α : Type} (f : State → Except Trap (α × State)) : Locking α := fun s =>
  match f s.state with
  | .ok (a, state) => ⟨[], .ok (a, { s with state := state })⟩
  | .error e => ⟨[], .error e⟩

def read32 (rel : U32int) : Locking U32int := onHeap fun s => do
  let v ← s.load32 rel
  return (v, s)

def check (b : Bool) : Locking Unit := onHeap fun s => do
  assert b
  return ((), s)

/-- `mutex_lock`. If the first pass does not leave the loop, no later one does. -/
def lock (mutex : Addr) : Locking Unit := fun s =>
  if (mutexLock s.statics mutex).1 then
    ⟨[.attempt, .acquired], .ok ((), { s with statics := (mutexLock s.statics mutex).2 })⟩
  else ⟨[.attempt], .error .diverged⟩

def unlock (mutex : Addr) : Locking Unit := fun s =>
  ⟨[.released], .ok ((), { s with statics := mutexUnlock s.statics mutex })⟩

end Locking

/-- The allocator proper. -/
structure Core where
  klmalloc : U32int → State → Except Trap (U32int × State)
  klfree : U32int → State → Except Trap (Unit × State)

def State.memcpy (s : State) (dst src : U32int) : Nat → Except Trap State
  | 0 => .ok s
  | n + 1 => do
    let b ← s.load8 src
    let s ← s.store8 dst b
    s.memcpy (dst + 1) (src + 1) n

def binMagic : U32int := 0xDEFAD00D
def pageMask : U32int := pageSize - 1
def bigBin : U32int := 10
def smallestBinLog : U32int := 2

/-- `sizeof(klmalloc_big_bin_header)` -/
def bigBinHeaderSize : U32int := 48

section

variable (core : Core) (memLock : Addr)

/-- The wrappers around the `kl` functions. -/
def underLock {α : Type} (body : Locking α) : Locking α := do
  Locking.lock memLock
  let ret ← body
  Locking.unlock memLock
  return ret

def malloc (size : U32int) : Locking U32int := underLock memLock (.onHeap (core.klmalloc size))

def free (ptr : U32int) : Locking Unit := underLock memLock (.onHeap (core.klfree ptr))

def klvalloc (size : U32int) : Locking U32int := do
  let trueSize := size + pageSize - bigBinHeaderSize
  let result ← .onHeap (core.klmalloc trueSize)
  let out := result + (pageSize - bigBinHeaderSize)
  Locking.check (out % pageSize == 0)
  return out

def klcalloc (nmemb size : U32int) : Locking U32int := do
  let ptr ← .onHeap (core.klmalloc (nmemb * size))
  if ptr ≠ null then .onHeap fun s => do
    let s ← s.memset ptr 0x0 (nmemb * size).toNat
    return ((), s)
  return ptr

/-- The two first cases call the locked functions, not the `kl` ones. -/
def klrealloc (ptr size : U32int) : Locking U32int :=
  if ptr = null then malloc core memLock size
  else if size = 0 then do
    free core memLock ptr
    return null
  else do
    let headerOld := ptr &&& ~~~pageMask
    let magic ← Locking.read32 (headerOld + 12)
    Locking.check (magic == binMagic)
    let oldSize ← Locking.read32 (headerOld + 8)
    let oldSize := if oldSize < bigBin then (1 : U32int) <<< (smallestBinLog + oldSize) else oldSize
    if size ≤ oldSize then return ptr
    else do
      let newptr ← .onHeap (core.klmalloc size)
      if newptr ≠ null then do
        .onHeap fun s => do
          let s ← s.memcpy newptr ptr oldSize.toNat
          return ((), s)
        .onHeap (core.klfree ptr)
        return newptr
      else return null

def realloc (ptr size : U32int) : Locking U32int :=
    underLock memLock (klrealloc core memLock ptr size)

def calloc (nmemb size : U32int) : Locking U32int := underLock memLock (klcalloc core nmemb size)

def valloc (size : U32int) : Locking U32int := underLock memLock (klvalloc core size)

end

/-- After a pass that stays in the loop the double word is 1, so that every pass stays. -/
theorem mutexLock_spins (m : Memory) (mutex : Addr) :
    (mutexLock (mutexLock m mutex).2 mutex).1 = false := by
  rw [mutexLock, mutexLock, xchgLocked, xchgLocked, read32_write32_same]
  rfl

end SimpleOs.Kernel
