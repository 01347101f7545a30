import SimpleOs.Lib.ByteMemory
import SimpleOs.Lib.Loops
import Mathlib.Tactic.IntervalCases

/-!
# Machine state, address translation and kernel memory accesses

One record holds the physical memory, the two control registers the kernel
touches and the C globals of the memory subsystem. A kernel pointer is an
offset in a segment: every access checks the segment limit, adds the base and,
once paging is on, walks the page directory found through CR3. No access bypasses
the tables.
-/

namespace SimpleOs.Kernel

open SimpleOs.Lib SimpleOs.Lib.ByteMemory

abbrev U8int := BitVec 8
abbrev U32int := BitVec 32

abbrev pageSize : U32int := 0x1000
abbrev null : U32int := 0x0

structure Segment where
  base : U32int
  len : U32int
deriving DecidableEq

/-- Largest offset of a 4 KiB granular descriptor whose limit field is
`len >> 12`, as `init_gdt` installs it: the limit is inclusive. -/
def Segment.limit (seg : Segment) : U32int := (seg.len >>> 12) * pageSize + 0xFFF

structure SegmentsInfo where
  codeSegment : Segment
  dataSegment : Segment
  videoSegment : Segment
  moduleSegment : Segment
deriving DecidableEq

structure MemoryBitmap where
  codeBitmap : U32int
  dataBitmap : U32int
  codeSize : U32int
  dataSize : U32int

structure ModuleInfo where
  running : Bool
  initialized : Bool
  loaded : Bool
  codeOffset : U32int
  codeSize : U32int
  dataOffset : U32int
  dataSize : U32int
  entryPoint : U32int
deriving DecidableEq

structure State where
  memory : Memory
  /-- Bit 31 of CR0. -/
  pagingEnabled : Bool
  cr3 : U32int
  segmentsInfo : SegmentsInfo
  memoryBitmap : MemoryBitmap
  memoryBitmapInitialized : Bool
  dataTopAddress : U32int
  kernelPageDirectory : U32int
  pageTablesRelVirtAddr : U32int
  heapStartRelVirtAddr : U32int
  heapBrk : U32int
  heapSize : U32int
  moduleInfo : ModuleInfo

/-- The ways a kernel routine does not come back to its caller. `ASSERT` and
`PANIC` loop forever, a `#GP` has no handler and panics, and `exit_module`
returns to the context saved before the module was started. -/
inductive Trap where
  | pageFault (linAddress : U32int)
  | generalProtection
  | assertion
  | panic
  | diverged
  | moduleExit
deriving DecidableEq

def assert (b : Bool) : Except Trap Unit := if b then .ok () else .error .assertion

/-- Rounds after which a loop over a 32-bit index has certainly not ended. -/
def loopFuel : Nat := 2^32 + 1

structure PagingEntry where
  present : Bool
  rw : Bool
  user : Bool
  writeThrough : Bool
  cacheDisabled : Bool
  accessed : Bool
  dirty : Bool
  size : Bool
  global : Bool
  unused : BitVec 3
  address : BitVec 20
deriving DecidableEq

namespace PagingEntry

def bit (b : Bool) (k : Nat) : U32int := (BitVec.ofBool b).setWidth 32 <<< k

/-- The bit-fields in their order, lowest first. -/
def toWord (e : PagingEntry) : U32int :=
  bit e.present 0 ||| bit e.rw 1 ||| bit e.user 2 ||| bit e.writeThrough 3 |||
    bit e.cacheDisabled 4 ||| bit e.accessed 5 ||| bit e.dirty 6 ||| bit e.size 7 |||
    bit e.global 8 ||| e.unused.setWidth 32 <<< 9 ||| e.address.setWidth 32 <<< 12

def ofWord (w : U32int) : PagingEntry where
  present := w.getLsbD 0
  rw := w.getLsbD 1
  user := w.getLsbD 2
  writeThrough := w.getLsbD 3
  cacheDisabled := w.getLsbD 4
  accessed := w.getLsbD 5
  dirty := w.getLsbD 6
  size := w.getLsbD 7
  global := w.getLsbD 8
  unused := w.extractLsb' 9 3
  address := w.extractLsb' 12 20

theorem getLsbD_bit (b : Bool) (k : Nat) {i : Nat} (hi : i < 32) :
    (bit b k).getLsbD i = (decide (i = k) && b) := by
  rcases Nat.lt_trichotomy i k with h | h | h
  · simp [bit, h, hi, show i ≠ k by omega]
  · subst h
    simp [bit, hi]
  · simp [bit, Nat.not_lt.mpr h.le, hi, show i - k ≠ 0 by omega, show i ≠ k by omega]

theorem getLsbD_toWord (e : PagingEntry) {i : Nat} (hi : i < 32) : e.toWord.getLsbD i =
    if i < 9 then [e.present, e.rw, e.user, e.writeThrough, e.cacheDisabled, e.accessed,
      e.dirty, e.size, e.global].getD i false
    else if i < 12 then e.unused.getLsbD (i-9) else e.address.getLsbD (i-12) := by
  simp only [toWord, BitVec.getLsbD_or, BitVec.getLsbD_shiftLeft, BitVec.getLsbD_setWidth,
    getLsbD_bit _ _ hi]
  split_ifs with h9 h12
  · interval_cases i <;> simp
  all_goals
    have hflag : ∀ k < 9, (decide (i = k)) = false := fun k hk => decide_eq_false (by omega)
    simp only [hflag 0, hflag 1, hflag 2, hflag 3, hflag 4, hflag 5, hflag 6, hflag 7, hflag 8,
      Nat.reduceLT]
  · simp [h9, hi, h12, show i - 9 < 32 by omega]
  · simp [h9, hi, h12, show i - 9 < 32 by omega, show i - 12 < 32 by omega,
      BitVec.getLsbD_of_ge e.unused (i-9) (by omega)]

/-- What is stored in the eleven bit-fields is read back from them. -/
@[simp] theorem ofWord_toWord (e : PagingEntry) : ofWord e.toWord = e := by
  obtain ⟨p, r, u, wt, cd, a, d, s, g, un, ad⟩ := e
  simp only [ofWord, PagingEntry.mk.injEq]
  refine ⟨?_, ?_, ?_, ?_, ?_, ?_, ?_, ?_, ?_, ?_, ?_⟩
  iterate 9 rw [getLsbD_toWord _ (by decide)]; rfl
  · ext i hi
    rw [BitVec.getElem_extractLsb', getLsbD_toWord _ (by omega), if_neg (by omega),
      if_pos (by omega)]
    simp [hi]
  · ext i hi
    rw [BitVec.getElem_extractLsb', getLsbD_toWord _ (by omega), if_neg (by omega),
      if_neg (by omega)]
    simp [hi]

@[simp] theorem present_zero : (ofWord 0).present = false := rfl

/-- Physical address of the page the entry names. -/
def frame (e : PagingEntry) : U32int := e.address.setWidth 32 * pageSize

theorem frame_toNat (e : PagingEntry) : e.frame.toNat = e.address.toNat * 4096 := by
  simp only [frame, pageSize, bitvec_to_nat, Nat.reducePow, Nat.reduceMod]
  omega

end PagingEntry

/-- The two-level walk of the processor from the directory `root` names. -/
def walk (m : Memory) (root lin : U32int) : Option PagingEntry :=
  let pde := PagingEntry.ofWord (read32 m (root / pageSize * pageSize + 4 * (lin / 0x400000)))
  let pte := PagingEntry.ofWord (read32 m (pde.frame + 4 * (lin / pageSize % 1024)))
  if pde.present && pte.present then some pte else none

namespace State

def withMemory (s : State) (m : Memory) : State := { s with memory := m }

/-- Linear to physical. `switch_page_directory` leaves CR0.WP clear, so the rw
bit does not stop the supervisor. -/
def translate (s : State) (lin : U32int) : Except Trap U32int :=
  if s.pagingEnabled then
    match walk s.memory s.cr3 lin with
    | some pte => .ok (pte.frame + lin % pageSize)
    | none => .error (.pageFault lin)
  else .ok lin

/-- Physical address behind an offset of a segment. -/
def segAddr (s : State) (seg : Segment) (rel : U32int) : Except Trap U32int :=
  if rel ≤ seg.limit then s.translate (rel + seg.base) else .error .generalProtection

/-- Physical address behind a pointer of the kernel's C code. -/
def dataAddr (s : State) (rel : U32int) : Except Trap U32int :=
  s.segAddr s.segmentsInfo.dataSegment rel

/-- `for (index = start; cond; index += step)`. -/
def forLoop (cond : U32int → Bool) (step : U32int) (start : U32int)
    (body : U32int → State → Except Trap State) (s : State) : Except Trap State :=
  Loops.forLoop .diverged cond step body loopFuel start s

def load8 (s : State) (rel : U32int) : Except Trap U8int := do
  let a ← s.dataAddr rel
  return s.memory a

def store8 (s : State) (rel : U32int) (v : U8int) : Except Trap State := do
  let a ← s.dataAddr rel
  return s.withMemory (write8 s.memory a v)

def load32 (s : State) (rel : U32int) : Except Trap U32int := do
  let a0 ← s.dataAddr rel
  let a1 ← s.dataAddr (rel + 1)
  let a2 ← s.dataAddr (rel + 2)
  let a3 ← s.dataAddr (rel + 3)
  return s.memory a3 ++ s.memory a2 ++ s.memory a1 ++ s.memory a0

/-- The four bytes of a double word go through one translation, made before
any of them is written. -/
def store32 (s : State) (rel v : U32int) : Except Trap State := do
  let a0 ← s.dataAddr rel
  let a1 ← s.dataAddr (rel + 1)
  let a2 ← s.dataAddr (rel + 2)
  let a3 ← s.dataAddr (rel + 3)
  return s.withMemory (write8 (write8 (write8 (write8 s.memory a0 (v.extractLsb' 0 8))
    a1 (v.extractLsb' 8 8)) a2 (v.extractLsb' 16 8)) a3 (v.extractLsb' 24 8))

/-- `while (p != end) *p++ = c`, with `end = p + n`. -/
def memset (s : State) (p : U32int) (c : U8int) : Nat → Except Trap State
  | 0 => .ok s
  | n + 1 => do
    let s ← s.store8 p c
    memset s (p + 1) c n

end State

end SimpleOs.Kernel
