import SimpleOs.Kernel.Interrupt

/-!
# `init_gdt` and `init_idt`

What the two functions write into the pages they were given and into the task state segment,
and what the processor marks there when `init_gdt` loads the selectors.
-/

namespace SimpleOs.Kernel

open SimpleOs.Lib.ByteMemory

/-- `sizeof(tss_entry_t)` -/
abbrev tssEntrySize : U32int := 104

/-- `set_task_descriptor`, with `tssEntry` the offset of the structure. -/
def setTaskDescriptor (info : SegmentsInfo) (tssEntry entry : U32int) (ss0 : BitVec 16)
    (esp0 : U32int) (m : Memory) : Memory :=
  let m := setGlobalDescriptorAt m entry (tssEntry + info.dataSegment.base) tssEntrySize 0xE9 0x00
  let m := fill m tssEntry 104 0x0
  let m := write32 m (tssEntry + 8) (ss0.setWidth 32)
  write32 m (tssEntry + 4) esp0

def setKernelStackInTss (tssEntry stack : U32int) (m : Memory) : Memory :=
    write32 m (tssEntry + 4) stack

/-- Which descriptor a selector names. -/
def descriptorIndex (selector : BitVec 16) : Nat := (selector >>> 3).toNat

/-- A selector is loaded: the access byte of its descriptor gets its mark. -/
def loadSelector (gdt : U32int) (selector : BitVec 16) (m : Memory) : Memory :=
  let entry := gdt + 8 * BitVec.ofNat 32 (descriptorIndex selector)
  write8 m (entry + 5) (gdtEntryAt m entry).marked.access

def loadSelectors (gdt : U32int) (selectors : List (BitVec 16)) (m : Memory) : Memory :=
  selectors.foldl (fun m selector => loadSelector gdt selector m) m

/-- What `init_gdt` loads: DS, GS and SS, then FS, ES, CS and the task register. -/
def initGdtLoads : List (BitVec 16) := [0x10, 0x10, 0x10, 0x30, 0x28, 0x8, 0x40]

/-- What `jump_to_module_code` loads: FS, GS, DS and ES, then CS and SS by `iret`. -/
def jumpToModuleCodeLoads : List (BitVec 16) := [0x23, 0x23, 0x23, 0x23, 0x1B, 0x23]

/-- `init_gdt`, with the page it was given. -/
def initGdtAt (info : SegmentsInfo) (tssEntry gdt : U32int) (m : Memory) : Memory :=
  let m := fill m gdt 160 0x0
  let m := setGlobalDescriptorAt m gdt 0 0 0 0
  let m := setGlobalDescriptorAt m (gdt + 8) info.codeSegment.base
    (info.codeSegment.len >>> 12) 0x9A 0xC0
  let m := setGlobalDescriptorAt m (gdt + 16) info.dataSegment.base
    (info.dataSegment.len >>> 12) 0x92 0xC0
  let m := setGlobalDescriptorAt m (gdt + 24) info.codeSegment.base
    (info.codeSegment.len >>> 12) 0xFA 0xC0
  let m := setGlobalDescriptorAt m (gdt + 32) info.dataSegment.base
    (info.dataSegment.len >>> 12) 0xF2 0xC0
  let m := setGlobalDescriptorAt m (gdt + 40) info.videoSegment.base info.videoSegment.len 0x92 0x40
  let m := setGlobalDescriptorAt m (gdt + 48) info.moduleSegment.base
    (info.moduleSegment.len >>> 12) 0x92 0xC0
  let m := setGlobalDescriptorAt m (gdt + 56) info.codeSegment.base
    (info.codeSegment.len >>> 12) 0x92 0xC0
  let m := setTaskDescriptor info tssEntry (gdt + 64) 0x10 0x0 m
  loadSelectors gdt initGdtLoads m

/-- Where the linker put `isr0` to `isr31`, `irq0` to `irq15` and `isr128`, by vector. -/
abbrev StubSymbols := U8int → U32int

/-- The gates below `n`. -/
def setGates (symbols : StubSymbols) (idt : U32int) : Nat → Memory → Memory
  | 0, m => m
  | n + 1, m => setInterruptGateAt (setGates symbols idt n m) (idt + 8 * BitVec.ofNat 32 n)
      (symbols (BitVec.ofNat 8 n)) 0x08 0x8E

/-- `init_idt`, with the page it was given. -/
def initIdtAt (symbols : StubSymbols) (idt : U32int) (m : Memory) : Memory :=
  let m := fill m idt 2048 0x0
  let m := setGates symbols idt 48 m
  setInterruptGateAt m (idt + 8 * 128) (symbols 128) 0x08 0xEF

/-- `init_descriptor_tables` on memory. -/
def initDescriptorTablesAt (info : SegmentsInfo) (symbols : StubSymbols)
    (t : Tables) (m : Memory) : Memory :=
  initIdtAt symbols t.idt (initGdtAt info t.tssEntry t.gdt m)

abbrev pageFaultVector : U8int := 14

/-- `IRQ1` -/
abbrev keyboardVector : U8int := 33

variable {σ : Type}

/-- `(isr_t)keyboard_callback`, which looks at nothing of its argument. -/
def keyboardIsr (callback : σ → σ) : IsrT σ := fun regs s => .returns regs (callback s)

/-- `interrupt_handlers` when `start_kernel` enables interrupts, with what is behind the array. -/
def bootHandlers (behind : InterruptHandlers σ) (pageFault : IsrT σ) (callback : σ → σ)
    (f : Services σ) : InterruptHandlers σ :=
  initializeSyscalls f <| registerInterruptHandler keyboardVector (keyboardIsr callback) <|
    registerInterruptHandler pageFaultVector pageFault fun n => if n < 256 then none else behind n

end SimpleOs.Kernel
