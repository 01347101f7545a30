import SimpleOs.Kernel.Alloc
import SimpleOs.Kernel.Heap
import SimpleOs.Lib.WordProgram

/-!
# `alloc.c`, the slab allocator

`klmalloc` and `klfree` with the stacks, the lists and the skip list under them, as programs
over the words of the data segment. Static variables are words, too: where the linker puts
them is a parameter.
-/

namespace SimpleOs.Kernel

open SimpleOs.Lib.WordProgram

abbrev SlabProgram := Program U32int Trap

/-- Addresses of the static variables. -/
structure SlabStatics where
  /-- `klmalloc_bin_head`, ten words. -/
  binHead : U32int
  /-- `klmalloc_big_bins`, a header and the level. -/
  bigBins : U32int
  newestBig : U32int
  /-- The variables of `klmalloc_skip_rand`. -/
  x : U32int
  y : U32int
  z : U32int
  w : U32int

def numBins : U32int := 11
def skipMaxLevel : Nat := 6
def skipP : U32int := 2147483647
/-- `sizeof(klmalloc_bin_header)` -/
def binHeaderSize : U32int := 16

-- Fields of a header.
namespace BinHeader

def next (header : U32int) : U32int := header
def head (header : U32int) : U32int := header + 4
def size (header : U32int) : U32int := header + 8
def magic (header : U32int) : U32int := header + 12
def prev (header : U32int) : U32int := header + 16
def forward (header : U32int) (i : Nat) : U32int := header + BitVec.ofNat 32 (20 + 4 * i)

end BinHeader

namespace SlabStatics

variable (g : SlabStatics)

def bin (i : U32int) : U32int := g.binHead + 4 * i
/-- `klmalloc_big_bins.level` -/
def level : U32int := g.bigBins + bigBinHeaderSize

end SlabStatics

namespace Slab

abbrev assert (b : Bool) : SlabProgram Unit := check .assertion b

def adjustBin (bin : U32int) : U32int :=
  if bin ≤ smallestBinLog then 0
  else if bin - (smallestBinLog + 1) > bigBin then bigBin
  else bin - (smallestBinLog + 1)

/-- The bin for a size, which is not zero. -/
def binSize (size : U32int) : U32int :=
  adjustBin (32 - size.clz + if size &&& (size - 1) = 0 then 0 else 1)

def listDecouple (head node : U32int) : SlabProgram Unit := do
  let next ← load (BinHeader.next node)
  store head next
  store (BinHeader.next node) null

def listInsert (head node : U32int) : SlabProgram Unit := do
  let first ← load head
  store (BinHeader.next node) first
  store head node

section

variable (g : SlabStatics)

def skipRand : SlabProgram U32int := do
  let x ← load g.x
  let t := x ^^^ (x <<< 11)
  let y ← load g.y
  store g.x y
  let z ← load g.z
  store g.y z
  let w ← load g.w
  store g.z w
  let w := w ^^^ (w >>> 19) ^^^ t ^^^ (t >>> 8)
  store g.w w
  return w

/-- At most `n` rounds; seven are enough. -/
def randomLevelFrom : Nat → Nat → SlabProgram Nat
  | 0, level => return level
  | n + 1, level => do
    let r ← skipRand g
    if r < skipP ∧ level < skipMaxLevel then randomLevelFrom n (level + 1) else return level

def randomLevel : SlabProgram Nat := randomLevelFrom g (skipMaxLevel + 1) 0

end

/-- `(node->size + sizeof(klmalloc_big_bin_header)) % PAGE_SIZE == 0` -/
def sizeWhole (size : U32int) : Bool := (size + bigBinHeaderSize) % pageSize == 0

/-- The inner loop of a search: on level `i` as long as the next block is too small. -/
def skipAdvance (size : U32int) (i : Nat) : Nat → U32int → SlabProgram U32int
  | 0, _ => fail .diverged
  | fuel + 1, node => do
    let next ← load (BinHeader.forward node i)
    if next ≠ null then do
      let nextSize ← load (BinHeader.size next)
      if nextSize < size then do
        assert (sizeWhole nextSize)
        skipAdvance size i fuel next
      else return node
    else return node

/-- `for (i = level; i >= 0; --i)`, with the node reached on each level in `update[i]`.
`klmalloc_skip_list_findbest` has the same loop without the array. -/
def skipDescend (size : U32int) :
    Nat → U32int → (Nat → U32int) → SlabProgram (U32int × (Nat → U32int))
  | 0, node, update => return (node, update)
  | i + 1, node, update => do
    let node ← skipAdvance size i loopFuel node
    skipDescend size i node (Function.update update i node)

/-- Rounds of a loop from an `int` down to 0. -/
def roundsDown (level : U32int) : Nat := (level.toInt + 1).toNat

/-- The entries of `update` that are not set are never read. -/
def skipSearch (g : SlabStatics) (size : U32int) : SlabProgram (U32int × (Nat → U32int)) := do
  let level ← load g.level
  skipDescend size (roundsDown level) g.bigBins fun _ => null

def skipListFindbest (g : SlabStatics) (searchSize : U32int) : SlabProgram U32int := do
  let (node, _) ← skipSearch g searchSize
  let node ← load (BinHeader.forward node 0)
  if node ≠ null then do
    assert (node % pageSize == 0)
    let size ← load (BinHeader.size node)
    assert (sizeWhole size)
  return node

/-- What `klmalloc_skip_list_insert` and `klmalloc_skip_list_delete` demand of the head. -/
def checkHead (value head size : U32int) : SlabProgram Unit := do
  assert (value ≠ null)
  assert (head ≠ null)
  assert (head > value)
  if size > numBins then assert (head < value + size) else assert (head < value + pageSize)

/-- One level of an insertion. -/
def skipLink (node : U32int) (update : Nat → U32int) (i : Nat) : SlabProgram Unit := do
  let next ← load (BinHeader.forward (update i) i)
  store (BinHeader.forward node i) next
  if next ≠ null then do
    let size ← load (BinHeader.size next)
    assert (sizeWhole size)
  store (BinHeader.forward (update i) i) node

def skipLinks (node : U32int) (update : Nat → U32int) : Nat → SlabProgram Unit
  | 0 => return ()
  | n + 1 => do
    skipLinks node update n
    skipLink node update n

def skipListInsert (g : SlabStatics) (value : U32int) : SlabProgram Unit := do
  let head ← load (BinHeader.head value)
  let size ← load (BinHeader.size value)
  checkHead value head size
  assert (value % pageSize == 0)
  assert (sizeWhole size)
  assert (size ≠ 0)
  let (node, update) ← skipSearch g size
  let node ← load (BinHeader.forward node 0)
  if node ≠ value then do
    let level ← randomLevel g
    let top ← load g.level
    let update := fun i : Nat => if top.toInt < i ∧ i ≤ level then g.bigBins else update i
    if top.toInt < level then store g.level (BitVec.ofNat 32 level)
    skipLinks value update (level + 1)

/-- `while (node != value) node = node->forward[0];` -/
def skipWalkTo (value : U32int) : Nat → U32int → SlabProgram U32int
  | 0, _ => fail .diverged
  | fuel + 1, node =>
    if node ≠ value then do
      let next ← load (BinHeader.forward node 0)
      skipWalkTo value fuel next
    else return node

/-- Levels from `i` on, until one does not have the node. -/
def skipUnlink (node : U32int) (update : Nat → U32int) : Nat → Nat → SlabProgram Unit
  | 0, _ => return ()
  | n + 1, i => do
    let at' ← load (BinHeader.forward (update i) i)
    if at' ≠ node then return ()
    else do
      let next ← load (BinHeader.forward node i)
      store (BinHeader.forward (update i) i) next
      if next ≠ null then do
        assert (next % pageSize == 0)
        let size ← load (BinHeader.size next)
        assert (sizeWhole size)
      skipUnlink node update n (i + 1)

/-- `while (level > 0 && head.forward[level] == NULL) --level;` -/
def skipLower (g : SlabStatics) : Nat → SlabProgram Unit
  | 0 => return ()
  | level + 1 => do
    let first ← load (BinHeader.forward g.bigBins (level + 1))
    if first = null then do
      store g.level (BitVec.ofNat 32 level)
      skipLower g level
    else return ()

/-- The block is there when the walk ends, so the branches that look for it again are never
entered. -/
def skipListDelete (g : SlabStatics) (value : U32int) : SlabProgram Unit := do
  let head ← load (BinHeader.head value)
  let size ← load (BinHeader.size value)
  checkHead value head size
  let (node, update) ← skipSearch g size
  let node ← load (BinHeader.forward node 0)
  let node ← skipWalkTo value loopFuel node
  let level ← load g.level
  skipUnlink node update (roundsDown level) 0
  let level ← load g.level
  skipLower g level.toInt.toNat

def stackPop (header : U32int) : SlabProgram U32int := do
  assert (header ≠ null)
  let head ← load (BinHeader.head header)
  assert (head ≠ null)
  assert (head > header)
  let size ← load (BinHeader.size header)
  if size > numBins then assert (head < header + size)
  else do
    assert (head < header + pageSize)
    assert (head > header + binHeaderSize - 1)
  let next ← load head
  store (BinHeader.head header) next
  return head

def stackPush (header ptr : U32int) : SlabProgram Unit := do
  assert (ptr ≠ null)
  assert (ptr > header)
  let size ← load (BinHeader.size header)
  if size > numBins then assert (ptr < header + size) else assert (ptr < header + pageSize)
  let head ← load (BinHeader.head header)
  store ptr head
  store (BinHeader.head header) ptr

def stackEmpty (header : U32int) : SlabProgram Bool := do
  let head ← load (BinHeader.head header)
  return head = null

/-- The number of cells in a page, less one. -/
def available (bucketId : U32int) : U32int :=
  ((pageSize - binHeaderSize) >>> (smallestBinLog + bucketId)) - 1

/-- `&base[i << bucket_id]` -/
def cellAt (base bucketId : U32int) (i : Nat) : U32int :=
    base + 4 * (BitVec.ofNat 32 i <<< bucketId)

/-- The first `n` entries of the stack in a new page, each the address of the next one. -/
def chainCells (base bucketId : U32int) : Nat → SlabProgram Unit
  | 0 => return ()
  | n + 1 => do
    chainCells base bucketId n
    store (cellAt base bucketId n) (cellAt base bucketId (n + 1))

section

variable (g : SlabStatics)

/-- A new page of cells. -/
def newBin (bucketId : U32int) : SlabProgram U32int := do
  let header ← grow pageSize
  store (BinHeader.magic header) binMagic
  assert (header % pageSize == 0)
  store (BinHeader.head header) (header + binHeaderSize)
  listInsert (g.bin bucketId) header
  let base ← load (BinHeader.head header)
  chainCells base bucketId (available bucketId).toNat
  store (cellAt base bucketId (available bucketId).toNat) null
  store (BinHeader.size header) bucketId
  return header

def mallocSmall (bucketId : U32int) : SlabProgram U32int := do
  let first ← load (g.bin bucketId)
  let header ← if first = null then newBin g bucketId else pure first
  let item ← stackPop header
  let empty ← stackEmpty header
  if empty then listDecouple (g.bin bucketId) header
  return item

/-- A new block, not on the skip list. -/
def newBigBin (size : U32int) : SlabProgram U32int := do
  let pages := (size + bigBinHeaderSize) / pageSize + 1
  let header ← grow (pageSize * pages)
  store (BinHeader.magic header) binMagic
  assert (header % pageSize == 0)
  let size := pages * pageSize - bigBinHeaderSize
  store (BinHeader.size header) size
  assert (sizeWhole size)
  let newest ← load g.newestBig
  store (BinHeader.prev header) newest
  if newest ≠ null then store (BinHeader.next newest) header
  store g.newestBig header
  store (BinHeader.next header) null
  store (BinHeader.head header) null
  return header + bigBinHeaderSize

def mallocBig (size : U32int) : SlabProgram U32int := do
  let header ← skipListFindbest g size
  if header ≠ null then do
    let headerSize ← load (BinHeader.size header)
    assert (headerSize ≥ size)
    skipListDelete g header
    stackPop header
  else newBigBin g size

def klmalloc (size : U32int) : SlabProgram U32int :=
  if size = 0 then return null
  else if binSize size < bigBin then mallocSmall g (binSize size)
  else mallocBig g size

def freeBig (header size : U32int) : SlabProgram Unit := do
  assert (header ≠ null)
  let head ← load (BinHeader.head header)
  assert (head = null)
  assert (sizeWhole size)
  stackPush header (header + bigBinHeaderSize)
  let head ← load (BinHeader.head header)
  assert (head ≠ null)
  skipListInsert g header

def freeSmall (header bucketId ptr : U32int) : SlabProgram Unit := do
  let empty ← stackEmpty header
  if empty then listInsert (g.bin bucketId) header
  stackPush header ptr

def klfree (ptr : U32int) : SlabProgram Unit :=
  if ptr = null then return ()
  else do
    -- a page-aligned pointer is one of `klvalloc`
    let ptr := if ptr % pageSize = 0 then ptr - 1 else ptr
    let header := ptr &&& ~~~pageMask
    assert (header % pageSize == 0)
    let magic ← load (BinHeader.magic header)
    if magic ≠ binMagic then return ()
    else do
      let bucketId ← load (BinHeader.size header)
      if bucketId > numBins then freeBig g header bucketId
      else freeSmall g header bucketId ptr

end

end Slab

/-- Words of the data segment, through segmentation and paging; more of them from `sbrk`. -/
def kernelMachine : Machine State U32int Trap where
  load := fun p s => s.load32 p
  store := fun p v s => s.store32 p v
  grow := fun n s => s.sbrk n

def slabCore (g : SlabStatics) : Core where
  klmalloc := fun size s => (Slab.klmalloc g size).run kernelMachine s
  klfree := fun ptr s => (Slab.klfree g ptr).run kernelMachine s

end SimpleOs.Kernel
