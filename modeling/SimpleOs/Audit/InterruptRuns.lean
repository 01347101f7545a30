import SimpleOs.Audit.InterruptFrame
import SimpleOs.Audit.InterruptTables
import SimpleOs.Audit.ScreenPage
import SimpleOs.Lib.Refinement

/-!
# A module under hardware interrupts

The tables are those of the boot, the handlers those registered when interrupts are enabled.
A program at user level that is interrupted by any lines at any of its steps computes what
it computes undisturbed, and the kernel sees its key strokes.
-/

namespace SimpleOs.Audit.InterruptRuns

open SimpleOs.Kernel SimpleOs.Lib.ByteMemory SimpleOs.Lib.Refinement
open InterruptFrame InterruptTables

variable {σ : Type} {t : Tables} {info : SegmentsInfo} {symbols : StubSymbols} {esp0 : U32int}
  {K : Layout σ} {c d : Cpu} {vector : U8int}

theorem installed_base (h : Installed info symbols t esp0 c.mem) (hstub : (stub vector).isSome) :
    (c.gate t vector).base = symbols vector := by
  rw [Cpu.gate, h.gate, installedGate, if_pos hstub, IdtEntry.base]
  exact PackedDescriptors.halves_joined _

/-- The one gate open to user code is the one for system calls; the kernel itself may call
whatever has a stub. -/
theorem mayCall_iff (h : Installed info symbols t esp0 c.mem) :
    c.mayCall t vector ↔ (stub vector).isSome ∧ (ring c.cs = 0 ∨ vector = syscallVector) := by
  have hlow : ∀ level : BitVec 2, level ≤ (0x8E : U8int).extractLsb' 5 2 ↔ level = 0 := by decide
  have hgate : (0x8E : U8int).getLsbD 7 = true := by decide
  have htrap : (0xEF : U8int).getLsbD 7 = true := by decide
  have hhigh : ∀ level : BitVec 2, level ≤ (0xEF : U8int).extractLsb' 5 2 := by decide
  rw [Cpu.mayCall, Cpu.gate, h.gate, installedGate, Bool.and_eq_true, decide_eq_true_eq,
    IdtEntry.present, IdtEntry.dpl]
  by_cases hstub : (stub vector).isSome
  · rw [if_pos hstub]
    by_cases hsyscall : vector = syscallVector
    · rw [if_pos hsyscall]
      exact ⟨fun _ => ⟨hstub, .inr hsyscall⟩, fun _ => ⟨htrap, hhigh _⟩⟩
    · rw [if_neg hsyscall, hlow]
      exact ⟨fun hcall => ⟨hstub, .inl hcall.2⟩,
        fun hring => ⟨hgate, hring.2.resolve_right hsyscall⟩⟩
  · rw [if_neg hstub]
    exact ⟨fun hcall => absurd hcall.1 (by decide), fun hring => absurd hring.1 hstub⟩

/-- Whatever the pages held before. -/
theorem tables_installed (h : Apart t) (m : Memory) (stack : U32int) {m' : Memory}
    (hm : m' = setKernelStackInTss t.tssEntry stack (initDescriptorTablesAt info symbols t m)) :
    (∀ vector : U8int, PackedDescriptors.gateDescriptor m' (t.idt + 8 * vector.setWidth 32) =
      if (stub vector).isSome then
        { offset := symbols vector, selector := 0x08,
          flags := if vector = 0x80 then 0xEF else 0x8E }
      else { offset := 0, selector := 0, flags := 0 }) ∧
    (∀ i < 20, gdtEntryAt m' (t.gdt + 8 * BitVec.ofNat 32 i) = loadedDescriptor info t.tssEntry i) ∧
    read32 m' (t.tssEntry + 4) = stack ∧ read16 m' (t.tssEntry + 8) = 0x10 ∧
    ∀ (c : Cpu) (vector : U8int), c.mem = m' →
      (c.mayCall t vector ↔ (stub vector).isSome ∧ (ring c.cs = 0 ∨ vector = syscallVector)) := by
  have hinstalled : Installed info symbols t stack m' :=
    hm ▸ installed_setKernelStack (initDescriptorTablesAt_installed h m) h stack
  have hdescriptor : ∀ i < 20,
      gdtEntryAt m' (t.gdt + 8 * BitVec.ofNat 32 i) = loadedDescriptor info t.tssEntry i := by
    have := h.tss_gdt
    have := h.gdt_tss
    intro i hi
    rw [hm, setKernelStackInTss, gdtEntryAt_write32 _ (by bv_omega) (by bv_omega)]
    exact initDescriptorTablesAt_descriptor h hi
  refine ⟨fun vector => ?_, hdescriptor, hinstalled.esp0, hinstalled.ss0, fun c vector hc =>
    mayCall_iff (hc ▸ hinstalled)⟩
  rw [PackedDescriptors.gateDescriptor_eq, hinstalled.gate, installedGate]
  by_cases hstub : (stub vector).isSome
  · rw [if_pos hstub, if_pos hstub, PackedDescriptors.halves_joined]
  · rw [if_neg hstub, if_neg hstub]
    rfl

/-- One of the two user segments. -/
def UserSelector (seg : BitVec 16) : Prop := seg &&& 0xFFF8 = 0x18 ∨ seg &&& 0xFFF8 = 0x20

/-- As `jump_to_module_code` starts it. -/
structure UserContext (c : Cpu) : Prop where
  level : ring c.cs = 3
  selectors : ∀ seg ∈ [c.ds, c.es, c.fs], UserSelector seg
  gs : c.gs = c.ds

theorem user_checked (h : Installed info symbols t esp0 c.mem) {seg : BitVec 16}
    (hseg : UserSelector seg) : c.checked t 3 seg = seg := by
  have hcode : (0x18 : BitVec 16).setWidth 32 = (8 : U32int) * BitVec.ofNat 32 3 := by decide
  have hdata : (0x20 : BitVec 16).setWidth 32 = (8 : U32int) * BitVec.ofNat 32 4 := by decide
  rw [Cpu.checked]
  refine if_pos (.inr ?_)
  rcases hseg with hseg | hseg
  · rw [hseg, hcode, ← unmarked_dpl, h.descriptor 3 (by decide)]
    exact (by decide : (3 : BitVec 2) ≤ (0xFA : U8int).extractLsb' 5 2)
  · rw [hseg, hdata, ← unmarked_dpl, h.descriptor 4 (by decide)]
    exact (by decide : (3 : BitVec 2) ≤ (0xF2 : U8int).extractLsb' 5 2)

/-- Every byte of the tables is kept. -/
def KeepsTables (t : Tables) (K : Layout σ) : Prop := ∀ x, InTables t x → K.kept x

theorem user_selectors (h : Installed info symbols t esp0 c.mem) (hkeeps : KeepsTables t K)
    (huser : UserContext c) : Selectors t K c where
  checked seg hseg := huser.level ▸ user_checked h (huser.selectors seg hseg)
  kept seg hseg := by
    refine hkeeps _ (.inl ?_)
    rcases huser.selectors seg hseg with hsel | hsel
    · rw [hsel]
      bv_omega
    · rw [hsel]
      bv_omega

/-- One of the sixteen hardware interrupts. -/
structure LineInterrupt where
  line : U8int
  pad : BitVec 16
  line_lt : line < 16

/-- What the kernel gets of one. -/
def lineEffect (callback : σ → σ) (e : LineInterrupt) (s : σ) : σ :=
    if e.line = 1 then callback s else s

theorem line_stub (e : LineInterrupt) : stub (32 + e.line) = some (irq e.line) := by
  have hlt := e.line_lt
  have hback : (32 : U8int) + e.line - 32 = e.line := add_sub_cancel_left ..
  unfold stub
  rw [if_neg (by bv_omega), if_pos (by bv_omega), hback]

theorem line_target (e : LineInterrupt) : target (32 + e.line) = .irqHandler := by
  have hlt := e.line_lt
  exact if_pos (by bv_omega)

variable {behind : InterruptHandlers σ} {pageFault : IsrT σ}
  {callback : σ → σ} {services : Services σ}

/-- The keyboard's handler is the only one a line has. -/
theorem line_handler (e : LineInterrupt) :
    bootHandlers behind pageFault callback services (32 + e.line).toNat =
      if e.line = 1 then some (keyboardIsr callback) else none := by
  have hlt := e.line_lt
  have hsyscall : (32 + e.line).toNat ≠ syscallVector.toNat := by bv_omega
  have hfault : (32 + e.line).toNat ≠ pageFaultVector.toNat := by bv_omega
  have hkey : (32 + e.line).toNat = keyboardVector.toNat ↔ e.line = 1 := by bv_omega
  have hin : (32 + e.line).toNat < 256 := (32 + e.line).isLt
  simp only [bootHandlers, initializeSyscalls, registerInterruptHandler, Function.update_apply,
    hsyscall, hfault, hkey, hin, if_true, if_false]

/-- What the kernel's `irq_handler` does on a line. -/
theorem line_quiet (e : LineInterrupt) {running : σ → Bool} {errCode : U32int} {s : σ} :
    (target (32 + e.line)).effect (bootHandlers behind pageFault callback services) running
      (frame t e.pad (32 + e.line) errCode c) s =
    .returns (frame t e.pad (32 + e.line) errCode c) (lineEffect callback e s) := by
  have hhandler : bootHandlers behind pageFault callback services (32 + e.line).toNat =
      if e.line = 1 then some (keyboardIsr callback) else none := line_handler e
  unfold lineEffect
  split_ifs with hline
  · rw [if_pos hline] at hhandler
    exact effect_frame hhandler
  · rw [if_neg hline] at hhandler
    exact effect_unhandled (line_target e) hhandler

theorem line_code (e : LineInterrupt) : CodeMatches (32 + e.line) none := by
  have hlt := e.line_lt
  refine (decide_eq_false ?_).symm
  simp only [List.mem_cons, List.not_mem_nil, or_false]
  bv_omega

/-- The same registers, and the same memory where it is kept. -/
structure Agree (K : Layout σ) (c d : Cpu) : Prop where
  registers : c = { d with mem := c.mem }
  mem : ∀ x, K.kept x → c.mem x = d.mem x

theorem Agree.eax (h : Agree K c d) : c.eax = d.eax := by rw [h.registers]

/-- A program that works on its registers and on the memory that is kept for it. -/
structure UserProgram (t : Tables) (K : Layout σ) (own : Cpu → Cpu) : Prop where
  user : ∀ c, UserContext c → UserContext (own c)
  spares : ∀ c x, InTables t x ∨ K.own x → (own c).mem x = c.mem x
  reads : ∀ c d, Agree K c d → Agree K (own c) (own d)

/-- The processor's tables, the linked stubs and the compiled handlers. -/
structure System (info : SegmentsInfo) (symbols : StubSymbols) (t : Tables) (esp0 : U32int)
    (K : Layout σ) (table : InterruptHandlers σ) (running : σ → Bool) where
  fetch : U32int → Option (List Instr)
  compiled : Handler → Cpu → Option Cpu
  fetch_stub : ∀ vector code, stub vector = some code → fetch (symbols vector) = some code
  implements : ∀ f, Implements K (compiled f) (f.effect table running)
  keeps : KeepsTables t K
  room : K.Room esp0

/-- Ready for the next interrupt. -/
structure Ready (info : SegmentsInfo) (symbols : StubSymbols) (t : Tables)
    (esp0 : U32int) (c : Cpu) : Prop where
  user : UserContext c
  installed : Installed info symbols t esp0 c.mem

theorem ready_room {table : InterruptHandlers σ} {running : σ → Bool}
    (S : System info symbols t esp0 K table running) (h : Ready info symbols t esp0 c) :
    K.Room (stackTop t c) := by
  have hring : ring c.cs ≠ 0 := by
    rw [h.user.level]
    decide
  rw [stackTop, if_neg hring, h.installed.esp0]
  exact S.room

section

variable {running : σ → Bool} {own : Cpu → Cpu}
  (S : System info symbols t esp0 K (bootHandlers behind pageFault callback services) running)

/-- The gate's stub, and an answer in EAX. -/
theorem ready_answers (h : Ready info symbols t esp0 c) {pad : BitVec 16}
    {errCode : Option U32int} {code : List Instr}
    {eax : U32int} {s' : σ} (hstub : stub vector = some code) (herr : CodeMatches vector errCode)
    (hreturn : (target vector).effect (bootHandlers behind pageFault callback services) running
      (frame t pad vector (errCode.getD 0) c) (K.state c.mem) =
        .returns { frame t pad vector (errCode.getD 0) c with eax := eax } s') :
    ∃ m', c.interrupt t S.fetch S.compiled pad vector errCode =
      some { c with eax := eax, mem := m' } ∧
      (∀ x, K.kept x → m' x = c.mem x) ∧ K.state m' = s' := by
  have hbase := installed_base (t := t) (c := c) h.installed (congrArg Option.isSome hstub)
  obtain ⟨m', hm', hkept, hstate⟩ :=
    interrupt_answers hstub (hbase ▸ S.fetch_stub _ _ hstub) herr (ready_room S h)
    (fun _ => user_selectors h.installed S.keeps h.user) (S.implements (target vector)) hreturn
  exact ⟨m', hm'.trans (congrArg (fun gs => some { c with eax := eax, gs := gs, mem := m' })
    h.user.gs.symm), hkept, hstate⟩

theorem ready_leaves (h : Ready info symbols t esp0 c) {pad : BitVec 16} {errCode : Option U32int}
    {code : List Instr} (hstub : stub vector = some code) (herr : CodeMatches vector errCode)
    (hleave : ∀ r s', (target vector).effect
    (bootHandlers behind pageFault callback services) running
      (frame t pad vector (errCode.getD 0) c) (K.state c.mem) ≠ .returns r s') :
    c.interrupt t S.fetch S.compiled pad vector errCode = none :=
  interrupt_leaves hstub (installed_base (t := t) (c := c) h.installed
    (congrArg Option.isSome hstub) ▸
    S.fetch_stub _ _ hstub) herr (ready_room S h) (S.implements (target vector)) hleave

end

/-- What happens to a module: a step of its own, `int n`, or a line. -/
inductive UserEvent where
  | own
  | int (vector : U8int) (pad : BitVec 16)
  | line (e : LineInterrupt)

/-- A module and the kernel behind its system calls. -/
structure Task (σ : Type) where
  cpu : Cpu
  kernel : σ

def syscallArgs (c : Cpu) : SyscallArgs := ⟨c.ebx, c.ecx, c.edx, c.esi, c.edi⟩

/-- A system call as one step; a number that is too large is no call at all. -/
def Task.syscall (services : Services σ) (a : Task σ) : Option (Task σ) :=
  match (syscalls services)[a.cpu.eax.toNat]? with
  | some f =>
    match f (syscallArgs a.cpu) a.kernel with
    | .returns ret s => some ⟨{ a.cpu with eax := ret }, s⟩
    | .exitModule _ => none
    | .faults => none
  | none => some a

theorem Task.syscall_putchar {services : Services σ} {a : Task σ} (h : a.cpu.eax = 0) :
    a.syscall services =
      (services.putchar a.cpu.ebx a.kernel).map fun r =>
          { a with cpu := { a.cpu with eax := r.1 }, kernel := r.2 } := by
  have hcall : (syscalls services)[a.cpu.eax.toNat]? = some fun args s =>
      .ofCall (services.putchar args.ebx s) := by
    rw [h]
    rfl
  simp only [Task.syscall, hcall]
  show (match SyscallOutcome.ofCall (services.putchar a.cpu.ebx a.kernel) with
    | .returns ret s => some _
    | .exitModule _ => none
    | .faults => none) = _
  cases services.putchar a.cpu.ebx a.kernel <;> rfl

/-- The machine a module is to see: no stubs, no tables, no stack but its own. -/
def Task.step (own : Cpu → Cpu) (callback : σ → σ) (services : Services σ) :
    UserEvent → Task σ → Option (Task σ)
  | .own, a => some { a with cpu := own a.cpu }
  | .int vector _, a =>
    if vector = syscallVector then ({ a with cpu := { a.cpu with eip := a.cpu.eip + 2 } } : Task
      σ).syscall services
    else none
  | .line e, a => some { a with kernel := lineEffect callback e a.kernel }

/-- The machine there is. -/
def System.step {table : InterruptHandlers σ} {running : σ → Bool}
    (S : System info symbols t esp0 K table running)
    (own : Cpu → Cpu) : UserEvent → Cpu → Option Cpu
  | .own, c => some (own c)
  | .int vector pad, c => c.int t S.fetch S.compiled pad vector
  | .line e, c => c.interrupt t S.fetch S.compiled e.pad (32 + e.line) none

/-- A module in memory, and what it stands for. -/
structure Shows (info : SegmentsInfo) (symbols : StubSymbols) (t : Tables) (esp0 : U32int)
    (K : Layout σ) (c : Cpu) (a : Task σ) : Prop where
  ready : Ready info symbols t esp0 c
  agree : Agree K c a.cpu
  kernel : K.state c.mem = a.kernel

section

variable {running : σ → Bool} {own : Cpu → Cpu} {a : Task σ}
  (S : System info symbols t esp0 K (bootHandlers behind pageFault callback services) running)

theorem ready_congr (h : Ready info symbols t esp0 c) (huser : UserContext d)
    (hm : ∀ x, InTables t x → d.mem x = c.mem x) : Ready info symbols t esp0 d :=
  ⟨huser, installed_congr h.installed hm⟩

/-- Back from the kernel. -/
theorem Shows.answered (h : Shows info symbols t esp0 K c a) (hkeeps : KeepsTables t K)
    {eax : U32int} {m' : Memory}
    {s' : σ} (hkept : ∀ x, K.kept x → m' x = c.mem x) (hstate : K.state m' = s') :
    Shows info symbols t esp0 K { c with eax := eax, mem := m' }
    ⟨{ a.cpu with eax := eax }, s'⟩ where
  ready := ready_congr h.ready ⟨h.ready.user.level, h.ready.user.selectors,
      h.ready.user.gs⟩ fun x hx =>
    hkept x (hkeeps x hx)
  agree := by
    refine ⟨?_, fun x hx => (hkept x hx).trans (h.agree.mem x hx)⟩
    exact congrArg (fun d : Cpu => { d with eax := eax, mem := m' }) h.agree.registers
  kernel := hstate

theorem Shows.unanswered (h : Shows info symbols t esp0 K c a) (hkeeps : KeepsTables t K)
    {m' : Memory} {s' : σ} (hkept : ∀ x, K.kept x → m' x = c.mem x) (hstate : K.state m' = s') :
    Shows info symbols t esp0 K { c with mem := m' } { a with kernel := s' } := by
  have hshows : Shows info symbols t esp0 K { c with eax := c.eax, mem := m' }
      ⟨{ a.cpu with eax := c.eax }, s'⟩ :=
    h.answered hkeeps hkept hstate
  rw [h.agree.eax] at hshows
  exact h.agree.eax ▸ hshows

theorem Shows.stepped (h : Shows info symbols t esp0 K c a) (hown : UserProgram t K own) :
    Shows info symbols t esp0 K (own c) { a with cpu := own a.cpu } where
  ready := ready_congr h.ready (hown.user c h.ready.user) fun x hx => hown.spares c x (.inl hx)
  agree := hown.reads c a.cpu h.agree
  kernel := (K.state_congr _ _ fun x hx => hown.spares c x (.inr hx)).trans h.kernel

theorem line_shows (h : Shows info symbols t esp0 K c a) (e : LineInterrupt) :
    Option.Rel (Shows info symbols t esp0 K) (S.step own (.line e) c)
    (a.step own callback services (.line e)) := by
  obtain ⟨m', hm', hkept, hstate⟩ :=
    ready_answers S h.ready (line_stub e) (line_code e) (line_quiet e)
  rw [System.step, hm', Task.step, ← h.kernel]
  exact .some (h.unanswered S.keeps hkept hstate)

/-- The table the kernel looks a system call up in. -/
theorem syscall_handler : bootHandlers behind pageFault callback services syscallVector.toNat =
    some (syscallHandler services) := by
  rw [bootHandlers, initializeSyscalls, registerInterruptHandler, Function.update_self]

theorem protection_handler :
    bootHandlers behind pageFault callback services protectionVector.toNat = none := by
  simp only [bootHandlers, initializeSyscalls, registerInterruptHandler]
  rfl

theorem syscall_shows (h : Shows info symbols t esp0 K c a) (pad : BitVec 16) :
    Option.Rel (Shows info symbols t esp0 K)
    (c.interrupt t S.fetch S.compiled pad syscallVector none)
      (a.syscall services) := by
  have hstub : stub syscallVector = some (isr syscallVector) := rfl
  have hcode : CodeMatches syscallVector none := rfl
  have hargs : syscallArgs c = syscallArgs a.cpu := by
    rw [h.agree.registers]
    rfl
  have heax : c.eax = a.cpu.eax := h.agree.eax
  have heffect : (target syscallVector).effect (bootHandlers behind pageFault callback services)
      running (frame t pad syscallVector 0 c) (K.state c.mem) =
      syscallHandler services (frame t pad syscallVector 0 c) (K.state c.mem) :=
        effect_frame syscall_handler
  have hframe : (frame t pad syscallVector 0 c).eax = a.cpu.eax := heax
  have hframeArgs : (⟨(frame t pad syscallVector 0 c).ebx, (frame t pad syscallVector 0 c).ecx,
      (frame t pad syscallVector 0 c).edx, (frame t pad syscallVector 0 c).esi,
      (frame t pad syscallVector 0 c).edi⟩ : SyscallArgs) = syscallArgs a.cpu := hargs
  rw [syscallHandler, hframe, hframeArgs, h.kernel] at heffect
  unfold Task.syscall
  rcases hcall : (syscalls services)[a.cpu.eax.toNat]? with _ | f
  · simp only [hcall] at heffect ⊢
    obtain ⟨m', hm', hkept, hstate⟩ := ready_answers S h.ready hstub hcode (h.kernel.symm ▸ heffect)
    rw [hm']
    exact .some (h.unanswered S.keeps hkept (hstate.trans h.kernel))
  · have hleaves : ∀ outcome : IsrOutcome σ, (∀ r s', outcome ≠ .returns r s') →
        (target syscallVector).effect (bootHandlers behind pageFault callback services) running
          (frame t pad syscallVector 0 c) a.kernel = outcome →
        c.interrupt t S.fetch S.compiled pad syscallVector none = none := fun outcome hnot h' =>
      ready_leaves S h.ready hstub hcode fun r s' hr => hnot r s' (h'.symm.trans (h.kernel ▸ hr))
    cases hresult : f (syscallArgs a.cpu) a.kernel with
    | returns ret s' =>
      simp only [hcall, hresult] at heffect ⊢
      obtain ⟨m', hm', hkept, hstate⟩ :=
        ready_answers S h.ready hstub hcode (h.kernel.symm ▸ heffect)
      rw [hm']
      exact .some (h.answered S.keeps hkept hstate)
    | exitModule s' =>
      simp only [hcall, hresult] at heffect ⊢
      rw [hleaves _ (by simp) heffect]
      exact .none
    | faults =>
      simp only [hcall, hresult] at heffect ⊢
      rw [hleaves _ (by simp) heffect]
      exact .none

/-- A closed gate ends the module. -/
theorem closed_gate (h : Ready info symbols t esp0 c) (pad : BitVec 16) (errCode : U32int) :
    c.interrupt t S.fetch S.compiled pad protectionVector (some errCode) = none := by
  refine ready_leaves S h rfl rfl fun r s' => ?_
  have htable : bootHandlers behind pageFault callback services protectionVector.toNat = none :=
    protection_handler
  show isrHandler _ running _ _ ≠ _
  simp only [isrHandler, frame, number_low, htable]
  split_ifs <;>
  · intro h
    cases h

theorem int_shows (h : Shows info symbols t esp0 K c a) (vector : U8int) (pad : BitVec 16) :
    Option.Rel (Shows info symbols t esp0 K) (S.step own (.int vector pad) c)
      (a.step own callback services (.int vector pad)) := by
  have hring : ring c.cs ≠ 0 := by
    rw [h.ready.user.level]
    decide
  rw [System.step, Cpu.int, Task.step]
  by_cases hvector : vector = syscallVector
  · have hcall : c.mayCall t vector :=
      (mayCall_iff h.ready.installed).mpr ⟨hvector ▸ rfl, .inr hvector⟩
    have hnext : Shows info symbols t esp0 K { c with eip := c.eip + 2 }
        { a with cpu := { a.cpu with eip := a.cpu.eip + 2 } } := by
      refine ⟨ready_congr h.ready ⟨h.ready.user.level, h.ready.user.selectors, h.ready.user.gs⟩
        fun _ _ => rfl, ⟨?_, h.agree.mem⟩, h.kernel⟩
      exact congrArg (fun d : Cpu => { d with eip := d.eip + 2, mem := c.mem }) h.agree.registers
    rw [if_pos hcall, if_pos hvector, hvector]
    exact syscall_shows S hnext pad
  · have hclosed : ¬ c.mayCall t vector := fun hcall =>
      ((mayCall_iff h.ready.installed).mp hcall).2.elim hring hvector
    rw [if_neg hclosed, if_neg hvector, closed_gate S h.ready]
    exact .none

end

def machineInfo : SegmentsInfo where
  codeSegment := ⟨0x400000, 0x200000⟩
  dataSegment := ⟨0x200000, 0x200000⟩
  videoSegment := ⟨0xB8000, 4000⟩
  moduleSegment := ⟨0x100000, 0x1000⟩

def machineTables : Tables := ⟨0x1000, 0x2000, 0x3000⟩

def machineSymbols : StubSymbols := fun vector => vector.setWidth 32

/-- The cursor starts on the last row but one. -/
@[irreducible] def machineMemory : Memory :=
  loadSelectors 0x1000 jumpToModuleCodeLoads (setKernelStackInTss 0x3000 0x8000
    (initDescriptorTablesAt machineInfo machineSymbols machineTables fun x =>
      if x = 0x9002 then 23 else 0))

theorem machineTables_apart : Apart machineTables :=
    ⟨by decide, by decide, by decide, by decide, by decide, by decide⟩

theorem machineMemory_installed :
    Installed machineInfo machineSymbols machineTables 0x8000 machineMemory := by
  rw [machineMemory]
  exact installed_loadSelectors
    (installed_setKernelStack (initDescriptorTablesAt_installed machineTables_apart _)
    machineTables_apart _) machineTables_apart (by decide)

theorem tables_installed_machine :
    let m := setKernelStackInTss 0x3000 0x8000
      (initDescriptorTablesAt machineInfo machineSymbols machineTables fun _ => 0xFF)
    PackedDescriptors.gateDescriptor m (0x2000 + 8 * 0x80) =
      { offset := 0x80, selector := 0x08, flags := 0xEF } ∧
    gdtEntryAt m (0x1000 + 8 * BitVec.ofNat 32 4) = gdtEntry machineInfo .userData ∧
    gdtEntryAt m (0x1000 + 8 * BitVec.ofNat 32 2) =
      { gdtEntry machineInfo .kernelData with access := 0x93 } ∧
    (gdtEntryAt m (0x1000 + 8 * BitVec.ofNat 32 8)).access = 0xEB := by
  intro m
  have hm : m = setKernelStackInTss machineTables.tssEntry 0x8000
      (initDescriptorTablesAt machineInfo machineSymbols machineTables fun _ => 0xFF) := rfl
  have h := tables_installed machineTables_apart (fun _ => 0xFF) 0x8000 hm
  exact ⟨h.1 0x80, h.2.1 4 (by decide), h.2.1 2 (by decide),
    congrArg GdtEntry.access (h.2.1 8 (by decide))⟩

structure MachineKernel where
  keys : U8int
  cursor : ScreenCursor

/-- The kernel's state is the number of keys and the cursor, from 0x9000 on; the module's
memory is one page. -/
def machineLayout : Layout MachineKernel where
  kept x := InTables machineTables x ∨ (x - 0x10000).toNat < 0x1000
  own x := (x - 0x9000).toNat < 3
  state m := ⟨m 0x9000, ⟨m 0x9001, m 0x9002⟩⟩
  state_congr m m' h := by
    have h0 : m' 0x9000 = m 0x9000 := h _ (by decide)
    have h1 : m' 0x9001 = m 0x9001 := h _ (by decide)
    have h2 : m' 0x9002 = m 0x9002 := h _ (by decide)
    rw [h0, h1, h2]

def machineStore (m : Memory) (s : MachineKernel) : Memory :=
  write8 (write8 (write8 m 0x9000 s.keys) 0x9001 s.cursor.x) 0x9002 s.cursor.y

/-- On a blank screen; no cell is read. -/
def MachineKernel.screen (s : MachineKernel) : Screen := ⟨fun _ => 0, s.cursor, 0, 0, 0, 15⟩

def machineServices : Services MachineKernel where
  putchar c s := (putchar videoLimit c s.screen).toOption.map fun screen =>
    (c, { s with cursor := screen.screenCursor })
  getKeyboardKey s := some (s.keys, { s with keys := 0 })
  upper _ := 0

def machineCallback (s : MachineKernel) : MachineKernel := { s with keys := s.keys + 1 }

def machineHandlers : InterruptHandlers MachineKernel :=
  bootHandlers (fun _ => none) (fun regs s => .returns regs s) machineCallback machineServices

/-- Compiled code that writes back EAX and the kernel's state. -/
def machineCompiled (f : Handler) (c : Cpu) : Option Cpu :=
  match f.effect machineHandlers (fun _ => true) (registersAt c.mem c.esp)
      (machineLayout.state c.mem) with
  | .returns r s => some { c with mem := machineStore (write32 c.mem (c.esp + 40) r.eax) s }
  | _ => none

theorem machineMemory_state : machineLayout.state machineMemory = ⟨0, ⟨0, 23⟩⟩ := by
  have h0 : machineMemory 0x9000 = 0 := by decide +kernel
  have h1 : machineMemory 0x9001 = 0 := by decide +kernel
  have h2 : machineMemory 0x9002 = 23 := by decide +kernel
  show MachineKernel.mk (machineMemory 0x9000) ⟨machineMemory 0x9001, machineMemory 0x9002⟩ = _
  rw [h0, h1, h2]

theorem registersAt_write32_eax (m : Memory) (p v : U32int) :
    registersAt (write32 m (p + 40) v) p = { registersAt m p with eax := v } := by
  have hfar : ∀ k : U32int, 4 ≤ (k - 40).toNat → 4 ≤ (40 - k).toNat →
      read32 (write32 m (p + 40) v) (p + k) = read32 m (p + k) :=
    fun k h h' => read32_congr fun j hj => write32_of_far m v (by bv_omega)
  have h0 : read32 (write32 m (p + 40) v) p = read32 m p := by
    simpa using hfar 0 (by decide) (by decide)
  simp (disch := decide) only [registersAt, hfar, h0, read32_write32_same]

theorem registersAt_write8 (m : Memory) {p x : U32int} (v : U8int) (h : 72 ≤ (x - p).toNat) :
    registersAt (write8 m x v) p = registersAt m p := by
  simp (disch := bv_omega) only [registersAt, read32_write8_of_ne]

/-- No handler of the machine writes more than EAX. -/
theorem machine_eax {n : Nat} {handler : IsrT MachineKernel} (hn : machineHandlers n = some handler)
    {regs r : RegistersT}
    {s s' : MachineKernel} (h : handler regs s = .returns r s') :
    { regs with eax := r.eax } = r := by
  simp only [machineHandlers, bootHandlers, initializeSyscalls, registerInterruptHandler,
    Function.update_apply] at hn
  split_ifs at hn <;> cases hn
  · unfold syscallHandler at h
    split at h
    · split at h <;> cases h
      rfl
    · cases h
      rfl
  · cases h
    rfl
  · cases h
    rfl

theorem machine_effect (f : Handler) {regs r : RegistersT} {s s' : MachineKernel}
    (h : f.effect machineHandlers (fun _ => true) regs s = .returns r s') :
    { regs with eax := r.eax } = r := by
  cases f with
  | isrHandler =>
    simp only [Handler.effect, isrHandler] at h
    split at h
    · exact machine_eax ‹_› h
    · simp only [if_true] at h
      cases h
  | irqHandler =>
    simp only [Handler.effect, irqHandler] at h
    split at h
    · exact machine_eax ‹_› h
    · cases h
      rfl

theorem machineStore_of_far (m : Memory) (s : MachineKernel) {x : U32int}
    (hx : 3 ≤ (x - 0x9000).toNat) : machineStore m s x = m x := by
  rw [machineStore, write8_of_ne _ _ (by bv_omega), write8_of_ne _ _ (by bv_omega),
    write8_of_ne _ _ (by bv_omega)]

theorem machineStore_state (m : Memory) (s : MachineKernel) :
    machineLayout.state (machineStore m s) = s := by
  have hy : machineStore m s 0x9002 = s.cursor.y := write8_same ..
  have hx : machineStore m s 0x9001 = s.cursor.x :=
    (write8_of_ne _ _ (by decide)).trans (write8_same ..)
  have hkeys : machineStore m s 0x9000 = s.keys :=
    (write8_of_ne _ _ (by decide)).trans ((write8_of_ne _ _ (by decide)).trans (write8_same ..))
  show MachineKernel.mk (machineStore m s 0x9000) ⟨machineStore m s 0x9001,
    machineStore m s 0x9002⟩ = s
  rw [hy, hx, hkeys]

theorem registersAt_machineStore (m : Memory) {p : U32int} (s : MachineKernel)
    (h : ∀ x, machineLayout.own x → 72 ≤ (x - p).toNat) :
    registersAt (machineStore m s) p = registersAt m p := by
  rw [machineStore, registersAt_write8 _ _ (h 0x9002 (by simp [machineLayout])),
    registersAt_write8 _ _ (h 0x9001 (by simp [machineLayout])),
    registersAt_write8 _ _ (h 0x9000 (by simp [machineLayout]))]

theorem machine_apart : (∀ x, machineLayout.kept x → 3 ≤ (x - 0x9000).toNat) ∧
    ∀ x, InTables machineTables x ∨ machineLayout.own x → x ≠ 0x10000 := by
  refine ⟨fun x hx => ?_, fun x hx => ?_⟩
  · simp only [machineLayout, InTables, machineTables] at hx
    bv_omega
  · simp only [machineLayout, InTables, machineTables] at hx
    bv_omega

theorem machine_implements (f : Handler) :
    Implements machineLayout (machineCompiled f) (f.effect machineHandlers fun _ => true) where
  returns c r s' hclear h := by
    refine ⟨{ c with mem := machineStore (write32 c.mem (c.esp + 40) r.eax) s' }, ?_, rfl, rfl, ?_,
      fun x hx => ?_, machineStore_state _ s'⟩
    · rw [machineCompiled, h]
    · rw [registersAt_machineStore _ _ hclear.own, registersAt_write32_eax]
      exact machine_effect f h
    · have hfar := hclear.kept x hx
      exact (machineStore_of_far _ _ (machine_apart.1 x hx)).trans
        (write32_of_far _ _ (by bv_omega))
  leaves c hclear h := by
    rw [machineCompiled]
    split
    · exact absurd ‹_› (h _ _)
    · rfl

def machineSystem : System machineInfo machineSymbols machineTables 0x8000 machineLayout
    machineHandlers fun _ => true where
  fetch a := stub (a.setWidth 8)
  compiled := machineCompiled
  fetch_stub vector code h := by
    have hback : (machineSymbols vector).setWidth 8 = vector := by
      simp [machineSymbols]
    rw [hback, h]
  implements := machine_implements
  keeps _ hx := .inl hx
  room := by
    refine ⟨fun x hx => ?_, fun x hx => ?_⟩
    · simp only [machineLayout, InTables, machineTables] at hx
      bv_omega
    · simp only [machineLayout] at hx
      bv_omega

/-- The module counts in its memory. It asks for a key first, and prints new lines then. -/
def machineStep (c : Cpu) : Cpu :=
  { c with
    eax := if c.mem 0x10000 = 0 then 1 else 0
    ebx := 10
    mem := write8 c.mem 0x10000 (c.mem 0x10000 + 1) }

theorem machineStep_program : UserProgram machineTables machineLayout machineStep where
  user c h := ⟨h.level, h.selectors, h.gs⟩
  spares c x hx := by
    exact write8_of_ne _ _ (machine_apart.2 x hx)
  reads c d h := by
    have hbyte : c.mem 0x10000 = d.mem 0x10000 := h.mem _ (.inr (by decide))
    refine ⟨?_, fun x hx => ?_⟩
    · have hregisters : machineStep { d with mem := c.mem } =
          { machineStep d with mem := (machineStep c).mem } := by
        simp only [machineStep, hbyte]
      exact (congrArg machineStep h.registers).trans hregisters
    · simp only [machineStep, write8, hbyte, h.mem x hx]

def machineCpu : Cpu where
  eax := 0
  ebx := 0x61
  ecx := 0
  edx := 0
  esi := 0
  edi := 0
  ebp := 0
  esp := 0x10FFF
  eip := 0x80000018
  eflags := 0x202
  cs := 0x1B
  ss := 0x23
  ds := 0x23
  es := 0x23
  fs := 0x23
  gs := 0x23
  mem := machineMemory

theorem machineCpu_shows : Shows machineInfo machineSymbols machineTables 0x8000 machineLayout
    machineCpu ⟨machineCpu, ⟨0, ⟨0, 23⟩⟩⟩ where
  ready := by
    refine ⟨⟨rfl, fun seg hseg => ?_, rfl⟩, machineMemory_installed⟩
    have hdata : seg = 0x23 := by simpa [machineCpu] using hseg
    rw [hdata]
    exact .inr rfl
  agree := ⟨rfl, fun _ _ => rfl⟩
  kernel := machineMemory_state

theorem machineMemory_count : machineMemory 0x10000 = 0 := by decide +kernel

theorem machineServices_putchar (c : U32int) (s : MachineKernel) : machineServices.putchar c s =
    (putchar videoLimit c s.screen).toOption.map fun screen =>
    (c, { s with cursor := screen.screenCursor }) := rfl

theorem machine_newLine (keys : U8int) :
    machineServices.putchar 10 ⟨keys, ⟨0, 23⟩⟩ = some (10, ⟨keys, ⟨0, 24⟩⟩) := rfl

/-- There is no row behind the last one. -/
theorem machine_newLine_faults (keys : U8int) :
    machineServices.putchar 10 ⟨keys, ⟨0, 24⟩⟩ = none := by
  have hrow : (MachineKernel.mk keys ⟨0, 24⟩).screen.screenCursor.y.toNat + 1 = 25 := rfl
  have hfault : putchar videoLimit 10 (MachineKernel.mk keys ⟨0, 24⟩).screen =
      .error .generalProtection := by
    rw [putchar, if_pos rfl, newLine, if_pos hrow,
      ScreenPage.scrollUp_faults (by decide) (by decide)]
    exact error_bind _ _
  rw [machineServices_putchar, hfault]
  rfl

/-- The module after `n` of its steps. -/
def machineTask (n : U8int) (eax eip : U32int) (s : MachineKernel) : Task MachineKernel :=
  ⟨{ machineCpu with eax := eax, ebx := 10, eip := eip, mem := write8 machineMemory 0x10000 n }, s⟩

theorem machineTask_step (n : U8int) (eax eip : U32int) (s : MachineKernel) :
    (machineTask n eax eip s).step machineStep machineCallback machineServices .own =
      some (machineTask (n + 1) (if n = 0 then 1 else 0) eip s) := by
  have hbyte : write8 machineMemory 0x10000 n 0x10000 = n := write8_same ..
  have hwrite : write8 (write8 machineMemory 0x10000 n) 0x10000 (n + 1) =
      write8 machineMemory 0x10000 (n + 1) := by
    funext x
    simp only [write8]
    split_ifs <;> rfl
  simp only [Task.step, machineTask, machineStep, hbyte, hwrite]

theorem machineCpu_step (s : MachineKernel) :
    Task.step machineStep machineCallback machineServices .own ⟨machineCpu, s⟩ =
      some (machineTask 1 1 0x80000018 s) := by
  have hbyte : machineCpu.mem 0x10000 = 0 := machineMemory_count
  simp only [Task.step, machineTask, machineStep, hbyte]
  rfl

theorem machineTask_key (n : U8int) (eip : U32int) (s : MachineKernel) (pad : BitVec 16) :
    (machineTask n 1 eip s).step machineStep machineCallback machineServices (.int 0x80 pad) =
      some (machineTask n ((0 : BitVec 24) ++ s.keys) (eip + 2) { s with keys := 0 }) := by
  rw [Task.step, if_pos rfl, Task.syscall]
  rfl

theorem machineTask_print (n : U8int) (eip : U32int) (s : MachineKernel) (pad : BitVec 16) :
    (machineTask n 0 eip s).step machineStep machineCallback machineServices (.int 0x80 pad) =
      (machineServices.putchar 10 s).map fun r => machineTask n r.1 (eip + 2) r.2 := by
  rw [Task.step, if_pos rfl, Task.syscall_putchar rfl]
  rfl

end SimpleOs.Audit.InterruptRuns
