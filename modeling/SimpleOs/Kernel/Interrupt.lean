import SimpleOs.Kernel.DescriptorTables
import SimpleOs.Lib.WordStack
import Mathlib.Logic.Function.Basic

/-!
# `interrupt.s`, `isr.c` and `syscall.c`

The stubs are lists of instructions over the registers and the memory of the data segment,
which the stack is part of. The processor's own share, the way through a gate and back with
`iret`, stands beside them. A C function is what it does to the `registers_t` it is handed
and to a state `σ` of the rest of the kernel; its compiled code is a parameter.
-/

namespace SimpleOs.Kernel

open SimpleOs.Lib.ByteMemory
open Function (update)

structure Cpu where
  eax : U32int
  ebx : U32int
  ecx : U32int
  edx : U32int
  esi : U32int
  edi : U32int
  ebp : U32int
  esp : U32int
  eip : U32int
  eflags : U32int
  cs : BitVec 16
  ss : BitVec 16
  ds : BitVec 16
  es : BitVec 16
  fs : BitVec 16
  gs : BitVec 16
  mem : Memory

/-- The segment registers a stub moves. -/
inductive SegReg where
  | ds
  | es
  | fs
  | gs
deriving DecidableEq

/-- Offsets of the tables in the data segment. -/
structure Tables where
  gdt : U32int
  idt : U32int
  tssEntry : U32int

/-- Bit 9. -/
abbrev interruptFlag : U32int := 0x200

/-- TF, NT, RF and VM, which every gate clears. -/
abbrev gateCleared : U32int := 0x34100

/-- The upper half of the first with the lower half of the second. -/
def withLow (x : U32int) (v : BitVec 16) : U32int := x.extractLsb' 16 16 ++ v

/-- The requested level of a selector; of CS it is the current one. -/
def ring (selector : BitVec 16) : BitVec 2 := selector.setWidth 2

namespace Cpu

def seg (c : Cpu) : SegReg → BitVec 16
  | .ds => c.ds
  | .es => c.es
  | .fs => c.fs
  | .gs => c.gs

def setSeg (c : Cpu) (v : BitVec 16) : SegReg → Cpu
  | .ds => { c with ds := v }
  | .es => { c with es := v }
  | .fs => { c with fs := v }
  | .gs => { c with gs := v }

def push (c : Cpu) (v : U32int) : Cpu :=
  { c with esp := c.esp - 4, mem := write32 c.mem (c.esp - 4) v }

def pusha (c : Cpu) : Cpu :=
  ((((((((c.push c.eax).push c.ecx).push c.edx).push c.ebx).push c.esp).push c.ebp).push c.esi).push
    c.edi)

/-- The stored ESP is skipped. -/
def popa (c : Cpu) : Cpu :=
  { c with
    edi := read32 c.mem c.esp
    esi := read32 c.mem (c.esp + 4)
    ebp := read32 c.mem (c.esp + 8)
    ebx := read32 c.mem (c.esp + 16)
    edx := read32 c.mem (c.esp + 20)
    ecx := read32 c.mem (c.esp + 24)
    eax := read32 c.mem (c.esp + 28)
    esp := c.esp + 32 }

end Cpu

namespace GdtEntry

def dpl (e : GdtEntry) : BitVec 2 := e.access.extractLsb' 5 2

/-- A conforming code segment. -/
def conforming (e : GdtEntry) : Bool := e.access.getLsbD 3 && e.access.getLsbD 2

/-- A code or data segment, and not a task. -/
def segment (e : GdtEntry) : Bool := e.access.getLsbD 4

/-- The bit the processor sets when the selector is loaded: accessed, or busy for a task. -/
def mark (e : GdtEntry) : U8int := if e.segment then 0x01 else 0x02

def marked (e : GdtEntry) : GdtEntry := { e with access := e.access ||| e.mark }

/-- Before any load. -/
def unmarked (e : GdtEntry) : GdtEntry := { e with access := e.access &&& ~~~e.mark }

end GdtEntry

namespace IdtEntry

def base (e : IdtEntry) : U32int := e.baseHigh ++ e.baseLow

def present (e : IdtEntry) : Bool := e.flags.getLsbD 7

def dpl (e : IdtEntry) : BitVec 2 := e.flags.extractLsb' 5 2

/-- An interrupt gate and not a trap gate. -/
def masks (e : IdtEntry) : Bool := e.flags.extractLsb' 0 4 = 0xE

end IdtEntry

namespace Cpu

variable (t : Tables) (c : Cpu)

def gate (vector : U8int) : IdtEntry := idtEntryAt c.mem (t.idt + 8 * vector.setWidth 32)

/-- `int n` gets through the gate only from a level the gate admits. -/
def mayCall (vector : U8int) : Bool :=
  (c.gate t vector).present && decide (ring c.cs ≤ (c.gate t vector).dpl)

/-- The interrupted context on the stack that the way through a gate ends on; `pad` fills the
upper halves of the selectors. -/
def saveContext (pad : BitVec 16) : Cpu :=
  let inner := if ring c.cs = 0 then c else
    ({ c with ss := read16 c.mem (t.tssEntry + 8), esp := read32 c.mem (t.tssEntry + 4) }.push
      (pad ++ c.ss)).push c.esp
  ((inner.push c.eflags).push (pad ++ c.cs)).push c.eip

/-- The way through a gate to level 0, with the error code of the exceptions that have one. -/
def deliver (pad : BitVec 16) (vector : U8int) (errCode : Option U32int) : Cpu :=
  let gate := c.gate t vector
  let saved := c.saveContext t pad
  let saved := errCode.elim saved saved.push
  { saved with
    cs := gate.selector
    eip := gate.base
    eflags := saved.eflags &&& ~~~(if gate.masks then gateCleared |||
      interruptFlag else gateCleared) }

/-- What is left of a segment register when `iret` goes out to `level`. -/
def checked (level : BitVec 2) (selector : BitVec 16) : BitVec 16 :=
  let e := gdtEntryAt c.mem (t.gdt + (selector &&& 0xFFF8).setWidth 32)
  if e.conforming ∨ level ≤ e.dpl then selector else 0

/-- From level 0. -/
def iret : Cpu :=
  let cs := (read32 c.mem (c.esp + 4)).setWidth 16
  let back := { c with eip := read32 c.mem c.esp, cs := cs, eflags := read32 c.mem (c.esp + 8) }
  if ring cs = 0 then { back with esp := c.esp + 12 }
  else { back with
    esp := read32 c.mem (c.esp + 12)
    ss := (read32 c.mem (c.esp + 16)).setWidth 16
    ds := c.checked t (ring cs) c.ds
    es := c.checked t (ring cs) c.es
    fs := c.checked t (ring cs) c.fs
    gs := c.checked t (ring cs) c.gs }

end Cpu

/-- The functions the stubs call. -/
inductive Handler where
  | isrHandler
  | irqHandler
deriving DecidableEq

inductive Instr where
  | cli
  | pushByte (v : U8int)
  | pusha
  | movAxSeg (r : SegReg)
  | movAx (v : BitVec 16)
  | movSegAx (r : SegReg)
  | pushEax
  | call (f : Handler)
  | popEax
  | popa
  | addEsp (v : U32int)
  | iret

/-- `compiled` is the state a call comes back with, if it does. -/
def Instr.exec (t : Tables) (compiled : Handler → Cpu → Option Cpu) (c : Cpu) : Instr → Option Cpu
  | .cli => some { c with eflags := c.eflags &&& ~~~interruptFlag }
  | .pushByte v => some (c.push (v.signExtend 32))
  | .pusha => some c.pusha
  | .movAxSeg r => some { c with eax := withLow c.eax (c.seg r) }
  | .movAx v => some { c with eax := withLow c.eax v }
  | .movSegAx r => some (c.setSeg (c.eax.setWidth 16) r)
  | .pushEax => some (c.push c.eax)
  | .call f => compiled f c
  | .popEax => some { c with eax := read32 c.mem c.esp, esp := c.esp + 4 }
  | .popa => some c.popa
  | .addEsp v => some { c with esp := c.esp + v }
  | .iret => some (c.iret t)

def execAll (t : Tables) (compiled : Handler → Cpu → Option Cpu) : List Instr → Cpu → Option Cpu
  | [], c => some c
  | i :: code, c => (i.exec t compiled c).bind (execAll t compiled code)

/-- Up to the call. -/
def commonEntry : List Instr :=
  [.pusha,
    .movAxSeg .ds, .pushEax, .movAx 0x10, .movSegAx .ds, .movSegAx .gs,
    .movAxSeg .es, .pushEax, .movAx 0x28, .movSegAx .es,
    .movAxSeg .fs, .pushEax, .movAx 0x30, .movSegAx .fs]

/-- From the call on. -/
def commonReturn : List Instr :=
  [.popEax, .movSegAx .fs, .popEax, .movSegAx .es, .popEax, .movSegAx .ds, .movSegAx .gs,
    .popa, .addEsp 8, .iret]

def isrCommonStub : List Instr := commonEntry ++ .call .isrHandler :: commonReturn

def irqCommonStub : List Instr := commonEntry ++ .call .irqHandler :: commonReturn

def isrNoErrCode (n : U8int) : List Instr := [.cli, .pushByte 0, .pushByte n]

def isrErrCode (n : U8int) : List Instr := [.cli, .pushByte n]

def irqEntry (vector : U8int) : List Instr := [.cli, .pushByte 0, .pushByte vector]

/-- The stubs that leave room for the processor's error code. -/
def hasErrCode (n : U8int) : Bool := n ∈ ([8, 10, 11, 12, 13, 14] : List U8int)

/-- `isr0` to `isr31` and `isr128`. -/
def isr (n : U8int) : List Instr :=
    (if hasErrCode n then isrErrCode n else isrNoErrCode n) ++ isrCommonStub

/-- `irq0` to `irq15`. -/
def irq (n : U8int) : List Instr := irqEntry (32 + n) ++ irqCommonStub

/-- The stub `init_idt` puts behind a gate. -/
def stub (vector : U8int) : Option (List Instr) :=
  if vector < 32 ∨ vector = 0x80 then some (isr vector)
  else if vector < 48 then some (irq (vector - 32))
  else none

def target (vector : U8int) : Handler :=
    if 32 ≤ vector ∧ vector < 48 then .irqHandler else .isrHandler

/-- From the interrupted context to the end of the stub that `fetch` finds behind the gate. -/
def Cpu.interrupt (t : Tables) (fetch : U32int → Option (List Instr))
    (compiled : Handler → Cpu → Option Cpu)
    (pad : BitVec 16) (vector : U8int) (errCode : Option U32int) (c : Cpu) : Option Cpu :=
  let c := c.deliver t pad vector errCode
  (fetch c.eip).bind fun stub => execAll t compiled stub c

/-- The error code a closed gate is reported with, and the vector it is reported at. -/
def gateErrCode (vector : U8int) : U32int := 8 * vector.setWidth 32 + 2

abbrev protectionVector : U8int := 13

/-- `int n`, two bytes long. -/
def Cpu.int (t : Tables) (fetch : U32int → Option (List Instr))
    (compiled : Handler → Cpu → Option Cpu)
    (pad : BitVec 16) (vector : U8int) (c : Cpu) : Option Cpu :=
  if c.mayCall t vector then { c with eip := c.eip + 2 }.interrupt t fetch compiled pad vector none
  else c.interrupt t fetch compiled pad protectionVector (some (gateErrCode vector))

structure RegistersT where
  fs : U32int
  es : U32int
  ds : U32int
  edi : U32int
  esi : U32int
  ebp : U32int
  esp : U32int
  ebx : U32int
  edx : U32int
  ecx : U32int
  eax : U32int
  intNo : U32int
  errCode : U32int
  eip : U32int
  cs : U32int
  eflags : U32int
  useresp : U32int
  ss : U32int
deriving DecidableEq

/-- The structure at `p`. -/
def registersAt (m : Memory) (p : U32int) : RegistersT where
  fs := read32 m p
  es := read32 m (p + 4)
  ds := read32 m (p + 8)
  edi := read32 m (p + 12)
  esi := read32 m (p + 16)
  ebp := read32 m (p + 20)
  esp := read32 m (p + 24)
  ebx := read32 m (p + 28)
  edx := read32 m (p + 32)
  ecx := read32 m (p + 36)
  eax := read32 m (p + 40)
  intNo := read32 m (p + 44)
  errCode := read32 m (p + 48)
  eip := read32 m (p + 52)
  cs := read32 m (p + 56)
  eflags := read32 m (p + 60)
  useresp := read32 m (p + 64)
  ss := read32 m (p + 68)

def exceptionMessages : List String :=
  ["Divide-by-zero error", "Debug", "Non-maskable interrupt", "Breakpoint", "Overflow",
    "Bound range exceeded", "Invalid opcode", "Device not available", "Double fault",
    "Coprocessor segment overrun", "Invalid TSS", "Segment not present", "Stack-segment fault",
    "General protection fault", "Page fault", "Unknown interrupt", "Floating-point exception",
    "Alignment check", "Machine check", "SIMD floating-point exception",
      "Virtualization exception"] ++
    List.replicate 9 "Unknown interrupt" ++ ["Security exception", "Unknown interrupt"]

/-- What is printed of an interrupt without a handler. The message is the array's, if the
number is one of its indices. -/
structure Report where
  intNo : U8int
  message : Option String
  place : String
  cs : U32int
  eip : U32int
  ss : U32int
  esp : U32int
  eflags : U32int
deriving DecidableEq

/-- How a handler ends. `exit_module` and `PANIC` do not come back, and neither does a function
that an exception ends. -/
inductive IsrOutcome (σ : Type) where
  | returns (regs : RegistersT) (s : σ)
  | exitModule (report : Option Report) (s : σ)
  | panics (report : Report)
  | faults

/-- `isr_t`, with what it leaves in its `registers_t`. -/
abbrev IsrT (σ : Type) := RegistersT → σ → IsrOutcome σ

/-- `interrupt_handlers`; an index of 256 or more is whatever lies behind the array. -/
abbrev InterruptHandlers (σ : Type) := Nat → Option (IsrT σ)

variable {σ : Type}

def registerInterruptHandler (n : U8int) (handler : IsrT σ)
    (table : InterruptHandlers σ) : InterruptHandlers σ :=
  update table n.toNat (some handler)

/-- `running` is the flag of `module_info`. -/
def isrHandler (table : InterruptHandlers σ) (running : σ → Bool) : IsrT σ := fun regs s =>
  let intNo := (regs.intNo &&& 0xFF).setWidth 8
  match table intNo.toNat with
  | some handler => handler regs s
  | none =>
    let report : Report :=
      { intNo := intNo
        message := exceptionMessages[intNo.toNat]?
        place := if running s then "module" else "kernel"
        cs := regs.cs
        eip := regs.eip
        ss := regs.ss
        esp := regs.esp
        eflags := regs.eflags }
    if running s then .exitModule (some report) s else .panics report

/-- `irq_handler` after its port writes. -/
def irqHandler (table : InterruptHandlers σ) : IsrT σ := fun regs s =>
  match table regs.intNo.toNat with
  | some handler => handler regs s
  | none => .returns regs s

/-- What the function a stub calls does, its port writes apart. -/
def Handler.effect (table : InterruptHandlers σ) (running : σ → Bool) : Handler → IsrT σ
  | .isrHandler => Kernel.isrHandler table running
  | .irqHandler => Kernel.irqHandler table

/-- The five arguments on the stack of a system call, the first one nearest. -/
structure SyscallArgs where
  ebx : U32int
  ecx : U32int
  edx : U32int
  esi : U32int
  edi : U32int

/-- How the called function ends: with a word in EAX, in `exit_module`, or in an exception. -/
inductive SyscallOutcome (σ : Type) where
  | returns (eax : U32int) (s : σ)
  | exitModule (s : σ)
  | faults

abbrev Syscall (σ : Type) := SyscallArgs → σ → SyscallOutcome σ

/-- The functions of the table, undefined where an exception ends them. `upper` is what a
function whose result is a `char` or a `bool` leaves in the rest of EAX. -/
structure Services (σ : Type) where
  putchar : U32int → σ → Option (U32int × σ)
  getKeyboardKey : σ → Option (U8int × σ)
  upper : σ → BitVec 24

/-- What a call leaves, if it comes back. -/
def SyscallOutcome.ofCall (called : Option (U32int × σ)) : SyscallOutcome σ :=
  match called with
  | some (eax, s) => .returns eax s
  | none => .faults

def syscalls (f : Services σ) : List (Syscall σ) :=
  [fun args s => .ofCall (f.putchar args.ebx s),
    fun _ s => .ofCall ((f.getKeyboardKey s).map fun r => (f.upper s ++ r.1, r.2)),
    fun _ s => .returns null s,
    fun _ s => .returns (f.upper s ++ (0 : U8int)) s,
    fun _ s => .exitModule s]

def syscallHandler (f : Services σ) : IsrT σ := fun regs s =>
  match (syscalls f)[regs.eax.toNat]? with
  | some syscall =>
    match syscall ⟨regs.ebx, regs.ecx, regs.edx, regs.esi, regs.edi⟩ s with
    | .returns ret s => .returns { regs with eax := ret } s
    | .exitModule s => .exitModule none s
    | .faults => .faults
  | none => .returns regs s

abbrev syscallVector : U8int := 0x80

def initializeSyscalls (f : Services σ) (table : InterruptHandlers σ) : InterruptHandlers σ :=
  registerInterruptHandler syscallVector (syscallHandler f) table

end SimpleOs.Kernel
