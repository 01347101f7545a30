import SimpleOs.Kernel.Module
import SimpleOs.Kernel.Paging

/-!
# `module_loader.c`

Mapping and filling the pages of an accepted module. FS is the module segment,
GS the code segment seen as data; what follows the loading (the switch to user
mode) is not part of the state.
-/

namespace SimpleOs.Kernel

open SimpleOs.Lib SimpleOs.Lib.ByteMemory

/-- `(offset + index) < (offset + size)` -/
def copyCond (offset size index : U32int) : Bool := offset + index < offset + size

namespace State

/-- `movb $0, %gs:(rel)`, with GS on the code segment. -/
def codeStore8 (s : State) (rel : U32int) (v : U8int) : Except Trap State := do
  let a ← s.segAddr s.segmentsInfo.codeSegment rel
  return s.withMemory (write8 s.memory a v)

def loadCodePage (index : U32int) (s : State) : Except Trap State := do
  let (physRelAddr, s) ← s.allocCodePage
  let virtRelAddr := moduleCodeLoadAddr + index * pageSize
  assert (physRelAddr ≠ null)
  mmapUnchecked s.segmentsInfo.codeSegment virtRelAddr physRelAddr false true s

/-- The cleaning loop stops three bytes before the end of the last page. -/
def cleanCodePages (codePageCount : U32int) (s : State) : Except Trap State :=
  s.forLoop (· < moduleCodeLoadAddr + codePageCount * pageSize - 3) 1 moduleCodeLoadAddr
    fun index s => s.codeStore8 index 0x0

def copyCode (codeOffset codeSize : U32int) (s : State) : Except Trap State :=
  s.forLoop (copyCond codeOffset codeSize) 1 0 fun index s => do
    let b ← s.moduleLoad8 (codeOffset + index)
    s.codeStore8 (moduleCodeLoadAddr + index) b

def loadDataPage (index : U32int) (s : State) : Except Trap State := do
  let (physRelAddr, s) ← s.allocDataPage
  let virtRelAddr := moduleDataLoadAddr + index * pageSize
  assert (physRelAddr ≠ null)
  let s ← mmapUnchecked s.segmentsInfo.dataSegment virtRelAddr physRelAddr true true s
  s.memset virtRelAddr 0x0 4096

def copyData (dataOffset dataSize : U32int) (s : State) : Except Trap State :=
  s.forLoop (copyCond dataOffset dataSize) 1 0 fun index s => do
    let b ← s.moduleLoad8 (dataOffset + index)
    s.store8 (moduleDataLoadAddr + index) b

def loadStackPage (s : State) : Except Trap State := do
  let (physRelAddr, s) ← s.allocDataPage
  let virtRelAddr := s.segmentsInfo.dataSegment.len - pageSize * 2
  assert (physRelAddr ≠ null)
  mmapUnchecked s.segmentsInfo.dataSegment virtRelAddr physRelAddr true true s

def loadModuleCodeAndData (s : State) (codeOffset codeSize dataOffset dataSize : U32int) :
    Except Trap State := do
  let codePageCount := pageCountOf codeSize
  let s ← s.forLoop (· < codePageCount) 1 0 loadCodePage
  let s ← s.cleanCodePages codePageCount
  let s ← s.copyCode codeOffset codeSize
  let s ← if dataSize > 0 then do
      let s ← s.forLoop (· < pageCountOf dataSize) 1 0 loadDataPage
      s.copyData dataOffset dataSize
    else pure s
  s.loadStackPage

/-- `start_module` up to the jump: the entry point it would jump to, if any. -/
def startModule (s : State) : Except Trap (Option U32int × State) := do
  if s.segmentsInfo.moduleSegment.len > 0 then
    let (ok, s) ← s.initModule
    if ok then
      let s ← if !s.moduleInfo.loaded then do
          let i := s.moduleInfo
          let s ← s.loadModuleCodeAndData i.codeOffset i.codeSize i.dataOffset i.dataSize
          pure { s with moduleInfo := { s.moduleInfo with loaded := true } }
        else pure s
      return (some s.moduleInfo.entryPoint,
        { s with moduleInfo := { s.moduleInfo with running := true } })
    else return (none, s)
  else return (none, s)

end State

/-- Index values of a copy loop, in their order. -/
def copyIndices (offset size : U32int) : List U32int :=
  Loops.indices (copyCond offset size) 1 loopFuel 0

/-- A range that does not wrap is copied byte by byte. -/
theorem copyIndices_of_fits {offset size : U32int} (h : offset.toNat + size.toNat < 2^32) :
    copyIndices offset size = (List.range size.toNat).map (BitVec.ofNat 32) := by
  have hsize := size.isLt
  have hcond : ∀ k, k ≤ size.toNat →
      copyCond offset size (0 + BitVec.ofNat 32 k * 1) = decide (k < size.toNat) := by
    intro k hk
    have hkn : (BitVec.ofNat 32 k).toNat = k := by
      rw [BitVec.toNat_ofNat, Nat.mod_eq_of_lt (by omega)]
    rw [copyCond, decide_eq_decide, BitVec.lt_def, mul_one, zero_add]
    rw [BitVec.toNat_add, BitVec.toNat_add, hkn, Nat.mod_eq_of_lt (by omega),
      Nat.mod_eq_of_lt h]
    omega
  rw [copyIndices, Loops.indices_eq (n := size.toNat) (by unfold loopFuel; omega)
    (fun k hk => by rw [hcond k hk.le]; exact decide_eq_true hk)
    (by rw [hcond _ le_rfl]; exact decide_eq_false (lt_irrefl _))]
  exact List.map_congr_left fun k _ => by rw [mul_one, zero_add]

/-- A range that wraps is not copied at all. -/
theorem copyIndices_of_wraps {offset size : U32int} (h : 2^32 ≤ offset.toNat + size.toNat) :
    copyIndices offset size = [] := by
  have hsize := size.isLt
  have hcond : copyCond offset size (0 + BitVec.ofNat 32 0 * 1) = false := by
    have hge : ¬ offset < offset + size := by bv_omega
    simp [copyCond, hge]
  exact Loops.indices_eq (n := 0) (by unfold loopFuel; omega)
    (fun k hk => absurd hk (Nat.not_lt_zero k)) hcond

/-- Copy loops end, whatever the offset and the size. -/
theorem copyIndices_length_lt (offset size : U32int) :
    (copyIndices offset size).length < loopFuel := by
  have hsize := size.isLt
  by_cases h : offset.toNat + size.toNat < 2^32
  · rw [copyIndices_of_fits h, List.length_map, List.length_range]
    unfold loopFuel
    omega
  · rw [copyIndices_of_wraps (Nat.not_lt.mp h)]
    exact Nat.succ_pos _

namespace State

theorem copyCode_eq (codeOffset codeSize : U32int) (s : State) :
    s.copyCode codeOffset codeSize = (copyIndices codeOffset codeSize).foldlM (fun s index => do
      let b ← s.moduleLoad8 (codeOffset + index)
      s.codeStore8 (moduleCodeLoadAddr + index) b) s := by
  unfold copyCode forLoop
  exact Loops.forLoop_eq_foldlM _ _ (copyIndices_length_lt codeOffset codeSize) s

theorem copyData_eq (dataOffset dataSize : U32int) (s : State) :
    s.copyData dataOffset dataSize = (copyIndices dataOffset dataSize).foldlM (fun s index => do
      let b ← s.moduleLoad8 (dataOffset + index)
      s.store8 (moduleDataLoadAddr + index) b) s := by
  unfold copyData forLoop
  exact Loops.forLoop_eq_foldlM _ _ (copyIndices_length_lt dataOffset dataSize) s

end State

end SimpleOs.Kernel
