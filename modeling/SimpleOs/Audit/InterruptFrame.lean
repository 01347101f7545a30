import SimpleOs.Kernel.Interrupt

/-!
# What an interrupt does to the context it interrupts

A stub hands its C function the interrupted context as a `registers_t` and goes back with
what the function leaves there. Everything of the context is in it but GS, which comes back
as a copy of DS.
-/

namespace SimpleOs.Audit.InterruptFrame

open SimpleOs.Kernel SimpleOs.Lib.ByteMemory SimpleOs.Lib.WordStack

variable {t : Tables} {compiled : Handler → Cpu → Option Cpu} {pad : BitVec 16} {v : U8int}
  {c c' : Cpu} {code : List Instr}

def words (r : RegistersT) : List U32int :=
  [r.fs, r.es, r.ds, r.edi, r.esi, r.ebp, r.esp, r.ebx, r.edx, r.ecx, r.eax, r.intNo, r.errCode,
    r.eip, r.cs, r.eflags, r.useresp, r.ss]

theorem registersAt_of_words {m : Memory} {p : U32int} {r : RegistersT} (h : Words m p (words r)) :
    registersAt m p = r := by
  simp only [words, words_cons, words_nil, and_true, add_assoc, BitVec.reduceAdd] at h
  cases r
  simp only [registersAt, RegistersT.mk.injEq]
  exact h

theorem withLow_withLow (x : U32int) (v w : BitVec 16) : withLow (withLow x v) w = withLow x w := by
  have h : (withLow x v).extractLsb' 16 16 = x.extractLsb' 16 16 :=
    BitVec.extractLsb'_append_eq_left
  rw [withLow, h, withLow]

@[simp] theorem withLow_low (x : U32int) (v : BitVec 16) : (withLow x v).setWidth 16 = v :=
  BitVec.setWidth_append_eq_right

/-- Where the processor starts to push. -/
def stackTop (t : Tables) (c : Cpu) : U32int :=
  if ring c.cs = 0 then c.esp else read32 c.mem (t.tssEntry + 4)

/-- ESP and SS, pushed on a change of stacks only. -/
def outer (pad : BitVec 16) (c : Cpu) : List U32int :=
    if ring c.cs = 0 then [] else [c.esp, pad ++ c.ss]

/-- The last two words of the structure. -/
def outerWords (pad : BitVec 16) (c : Cpu) : U32int × U32int :=
  if ring c.cs = 0 then (read32 c.mem c.esp, read32 c.mem (c.esp + 4)) else (c.esp, pad ++ c.ss)

theorem saveContext_pushed :
    Pushed c.mem (stackTop t c) (c.saveContext t pad).mem (c.saveContext t pad).esp
      (c.eip :: (pad ++ c.cs) :: c.eflags :: outer pad c) := by
  unfold Cpu.saveContext stackTop outer
  split_ifs with h
  · exact (((Pushed.nil ..).push (by simp) _).push (by simp) _).push (by simp) _
  · exact (((((Pushed.nil ..).push (by simp) _).push (by simp) _).push (by simp) _).push
      (by simp) _).push (by simp) _

theorem execAll_cons (i : Instr) :
    execAll t compiled (i :: code) c = (i.exec t compiled c).bind (execAll t compiled code) :=
  rfl

theorem execAll_append (first : List Instr) :
    execAll t compiled (first ++ code) c = (execAll t compiled first c).bind
    (execAll t compiled code) := by
  induction first generalizing c with
  | nil => rfl
  | cons i first ih =>
    rw [List.cons_append, execAll_cons, execAll_cons, Option.bind_assoc]
    exact congrArg _ (funext fun c' => ih)

/-- Behind the gate, once the number is pushed. -/
def headed (t : Tables) (pad : BitVec 16) (v : U8int) (errCode : U32int) (c : Cpu) : Cpu :=
  { ((c.saveContext t pad).push errCode).push (v.signExtend 32) with
    cs := (c.gate t v).selector
    eip := (c.gate t v).base
    eflags := (c.deliver t pad v none).eflags &&& ~~~interruptFlag }

theorem isrNoErrCode_exec :
    execAll t compiled (isrNoErrCode v) (c.deliver t pad v none) = some (headed t pad v 0 c) := by
  have hzero : (0 : U8int).signExtend 32 = 0 := by decide
  simp only [isrNoErrCode, execAll, Instr.exec, Option.bind_some, hzero, headed, Cpu.deliver,
    Cpu.push, Option.elim_none]

theorem isrErrCode_exec (errCode : U32int) :
    execAll t compiled (isrErrCode v) (c.deliver t pad v (some errCode)) =
      some (headed t pad v errCode c) := by
  simp only [isrErrCode, execAll, Instr.exec, Option.bind_some, headed, Cpu.deliver, Cpu.push,
    Option.elim_none, Option.elim_some]

/-- As the C function finds it. -/
def entered (c : Cpu) : Cpu :=
  { ((c.pusha.push (withLow c.eax c.ds)).push (withLow c.eax c.es)).push (withLow c.eax c.fs) with
    eax := withLow c.eax 0x30
    ds := 0x10
    es := 0x28
    fs := 0x30
    gs := 0x10 }

theorem commonEntry_exec : execAll t compiled commonEntry c = some (entered c) := by
  simp only [commonEntry, execAll, Instr.exec, Option.bind_some, Cpu.seg, Cpu.setSeg, Cpu.push,
    Cpu.pusha, withLow_withLow, withLow_low, entered]

/-- The structure a C function is handed. -/
def frame (t : Tables) (pad : BitVec 16) (v : U8int) (errCode : U32int) (c : Cpu) : RegistersT where
  fs := withLow c.eax c.fs
  es := withLow c.eax c.es
  ds := withLow c.eax c.ds
  edi := c.edi
  esi := c.esi
  ebp := c.ebp
  esp := stackTop t c - if ring c.cs = 0 then 20 else 28
  ebx := c.ebx
  edx := c.edx
  ecx := c.ecx
  eax := c.eax
  intNo := v.signExtend 32
  errCode := errCode
  eip := c.eip
  cs := pad ++ c.cs
  eflags := c.eflags
  useresp := (outerWords pad c).1
  ss := (outerWords pad c).2

/-- The registers a gate and the head of a stub leave alone. -/
theorem headed_keeps (t : Tables) (pad : BitVec 16) (v : U8int) (c : Cpu) (errCode : U32int) :
    (headed t pad v errCode c).eax = c.eax ∧ (headed t pad v errCode c).ebx = c.ebx ∧
    (headed t pad v errCode c).ecx = c.ecx ∧ (headed t pad v errCode c).edx = c.edx ∧
    (headed t pad v errCode c).esi = c.esi ∧ (headed t pad v errCode c).edi = c.edi ∧
    (headed t pad v errCode c).ebp = c.ebp ∧ (headed t pad v errCode c).ds = c.ds ∧
    (headed t pad v errCode c).es = c.es ∧ (headed t pad v errCode c).fs = c.fs := by
  unfold headed Cpu.saveContext Cpu.push
  split_ifs <;> exact ⟨rfl, rfl, rfl, rfl, rfl, rfl, rfl, rfl, rfl, rfl⟩

theorem outer_length (pad : BitVec 16) (c : Cpu) : (outer pad c).length ≤ 2 := by
  unfold outer
  split_ifs <;> simp

theorem headed_pushed (t : Tables) (pad : BitVec 16) (v : U8int) (c : Cpu) (errCode : U32int) :
    Pushed c.mem (stackTop t c) (headed t pad v errCode c).mem (headed t pad v errCode c).esp
      (v.signExtend 32 :: errCode :: c.eip :: (pad ++ c.cs) :: c.eflags :: outer pad c) := by
  have hlen := outer_length pad c
  exact (saveContext_pushed.push (by simp; omega) errCode).push (by simp; omega) _

theorem headed_esp (errCode : U32int) :
    (headed t pad v errCode c).esp = stackTop t c - if ring c.cs = 0 then 20 else 28 := by
  unfold headed Cpu.saveContext Cpu.push stackTop
  split_ifs <;> bv_omega

theorem entered_pushed {m : Memory} {top : U32int} {l : List U32int}
    (h : Pushed m top c.mem c.esp l) (hl : l.length ≤ 7) :
    Pushed m top (entered c).mem (entered c).esp
    (withLow c.eax c.fs :: withLow c.eax c.es :: withLow c.eax c.ds ::
      c.edi :: c.esi :: c.ebp :: c.esp :: c.ebx :: c.edx :: c.ecx :: c.eax :: l) := by
  have hgeneral := (((((((h.push (by simp; omega) c.eax).push (by simp; omega) c.ecx).push
    (by simp; omega) c.edx).push
    (by simp; omega) c.ebx).push (by simp; omega) c.esp).push (by simp; omega) c.ebp).push
      (by simp; omega) c.esi).push
    (by simp; omega) c.edi
  exact ((hgeneral.push (by simp; omega) (withLow c.eax c.ds)).push (by simp; omega)
    (withLow c.eax c.es)).push (by simp; omega) (withLow c.eax c.fs)

/-- Sixteen words, and two more that are pushed or there. -/
theorem entered_headed_pushed (t : Tables) (pad : BitVec 16) (v : U8int)
    (c : Cpu) (errCode : U32int) :
    Pushed c.mem (stackTop t c) (entered (headed t pad v errCode c)).mem
    (entered (headed t pad v errCode c)).esp
      ((words (frame t pad v errCode c)).take 16 ++ outer pad c) := by
  have hlen := outer_length pad c
  obtain ⟨heax, hebx, hecx, hedx, hesi, hedi, hebp, hds, hes, hfs⟩ :=
    headed_keeps t pad v c errCode
  have h := entered_pushed (headed_pushed t pad v c errCode) (by simp; omega)
  rw [heax, hebx, hecx, hedx, hesi, hedi, hebp, hds, hes, hfs, headed_esp] at h
  exact h

theorem entered_frame (errCode : U32int) :
    registersAt (entered (headed t pad v errCode c)).mem (entered (headed t pad v errCode c)).esp =
      frame t pad v errCode c := by
  have h := entered_headed_pushed t pad v c errCode
  refine registersAt_of_words ?_
  by_cases hring : ring c.cs = 0
  · have hrest : Words c.mem (stackTop t c) [(outerWords pad c).1, (outerWords pad c).2] := by
      rw [stackTop, outerWords, if_pos hring, if_pos hring]
      exact ⟨rfl, rfl, trivial⟩
    rw [outer, if_pos hring, List.append_nil] at h
    exact h.append hrest (by simp [words])
  · have hpushed : outer pad c = [(outerWords pad c).1, (outerWords pad c).2] := by
      rw [outer, outerWords, if_neg hring, if_neg hring]
    rw [hpushed] at h
    exact h.words

/-- The context a stub goes back to, given what the function left. -/
def resumed (t : Tables) (r : RegistersT) (c : Cpu) : Cpu :=
  let level := ring (r.cs.setWidth 16)
  let back : Cpu := { c with
    eax := r.eax
    ebx := r.ebx
    ecx := r.ecx
    edx := r.edx
    esi := r.esi
    edi := r.edi
    ebp := r.ebp
    eip := r.eip
    eflags := r.eflags
    cs := r.cs.setWidth 16 }
  if level = 0 then { back with
    esp := c.esp + 64
    ds := r.ds.setWidth 16
    es := r.es.setWidth 16
    fs := r.fs.setWidth 16
    gs := r.ds.setWidth 16 }
  else { back with
    esp := r.useresp
    ss := r.ss.setWidth 16
    ds := c.checked t level (r.ds.setWidth 16)
    es := c.checked t level (r.es.setWidth 16)
    fs := c.checked t level (r.fs.setWidth 16)
    gs := c.checked t level (r.ds.setWidth 16) }

theorem commonReturn_exec :
    execAll t compiled commonReturn c = some (resumed t (registersAt c.mem c.esp) c) := by
  simp only [commonReturn, execAll, Instr.exec, Option.bind_some, Cpu.setSeg, Cpu.popa, Cpu.iret,
    add_assoc, registersAt, resumed, BitVec.ofNat_eq_ofNat, BitVec.reduceAdd]
  by_cases hring : ring ((read32 c.mem (c.esp + 56#32)).setWidth 16) = 0#2
  · simp only [hring, if_true]
  · simp only [hring, if_false, Cpu.checked]

section

variable {σ : Type} {r : RegistersT}

/-- Where the kernel keeps what, as seen from a stub: `kept` is not written by any C function
of its own, and the state `σ` is read from `own`. -/
structure Layout (σ : Type) where
  kept : U32int → Prop
  own : U32int → Prop
  state : Memory → σ
  state_congr : ∀ m m', (∀ x, own x → m' x = m x) → state m' = state m

variable {K : Layout σ}

/-- Room for the structure at `p`. Its last two words may be part of what is kept. -/
structure Layout.Clear (K : Layout σ) (p : U32int) : Prop where
  kept : ∀ x, K.kept x → 64 ≤ (x - p).toNat
  own : ∀ x, K.own x → 72 ≤ (x - p).toNat

/-- A call came back with `r` in its parameter and the kernel in `s'`. -/
structure Returned (K : Layout σ) (c c' : Cpu) (r : RegistersT) (s' : σ) : Prop where
  esp : c'.esp = c.esp
  ss : c'.ss = c.ss
  regs : registersAt c'.mem c'.esp = r
  kept : ∀ x, K.kept x → c'.mem x = c.mem x
  state : K.state c'.mem = s'

/-- Compiled code that does what the C function does with its parameter and the kernel. -/
structure Implements (K : Layout σ) (call : Cpu → Option Cpu) (f : IsrT σ) : Prop where
  returns : ∀ c r s', K.Clear c.esp → f (registersAt c.mem c.esp) (K.state c.mem) = .returns r s' →
    ∃ c', call c = some c' ∧ Returned K c c' r s'
  leaves : ∀ c, K.Clear c.esp →
    (∀ r s', f (registersAt c.mem c.esp) (K.state c.mem) ≠ .returns r s') → call c = none

/-- The processor pushes an error code exactly where the stub expects one. -/
def CodeMatches (v : U8int) (errCode : Option U32int) : Prop := errCode.isSome = hasErrCode v

theorem commonStub_exec (f : Handler) :
    execAll t compiled (commonEntry ++ .call f :: commonReturn) c =
      (compiled f (entered c)).bind (execAll t compiled commonReturn) := by
  rw [execAll_append, commonEntry_exec, Option.bind_some, execAll_cons]
  rfl

theorem isr_exec {errCode : Option U32int} (herr : CodeMatches v errCode) :
    execAll t compiled (isr v) (c.deliver t pad v errCode) =
      (compiled .isrHandler (entered (headed t pad v (errCode.getD 0) c))).bind
          (execAll t compiled commonReturn) := by
  have hhead : execAll t compiled (if hasErrCode v then isrErrCode v else isrNoErrCode v)
      (c.deliver t pad v errCode) = some (headed t pad v (errCode.getD 0) c) := by
    cases errCode with
    | none => rw [← show false = hasErrCode v from herr, if_neg Bool.false_ne_true,
      isrNoErrCode_exec, Option.getD_none]
    | some code => rw [← show true = hasErrCode v from herr, if_pos rfl,
      isrErrCode_exec, Option.getD_some]
  rw [isr, isrCommonStub, execAll_append, hhead, Option.bind_some, commonStub_exec]

theorem irq_exec {n : U8int} (hn : 32 + n = v) :
    execAll t compiled (irq n) (c.deliver t pad v none) =
      (compiled .irqHandler (entered (headed t pad v 0 c))).bind
    (execAll t compiled commonReturn) := by
  rw [irq, hn, irqCommonStub, execAll_append, irqEntry, ← isrNoErrCode, isrNoErrCode_exec,
    Option.bind_some, commonStub_exec]

theorem stub_exec {errCode : Option U32int} (hstub : stub v = some code)
    (herr : CodeMatches v errCode) : execAll t compiled code (c.deliver t pad v errCode) =
      (compiled (target v) (entered (headed t pad v (errCode.getD 0) c))).bind
          (execAll t compiled commonReturn) := by
  unfold stub at hstub
  split_ifs at hstub with hisr hirq
  · have htarget : target v = .isrHandler := if_neg (by bv_omega)
    rw [htarget, ← Option.some.inj hstub]
    exact isr_exec herr
  · have htarget : target v = .irqHandler := if_pos (by bv_omega)
    have hnone : errCode = none := by
      have hnot : hasErrCode v = false := by
        rw [hasErrCode, decide_eq_false_iff_not]
        simp only [List.mem_cons, List.not_mem_nil, or_false]
        bv_omega
      exact Option.not_isSome_iff_eq_none.mp (by rw [herr, hnot]; exact Bool.false_ne_true)
    rw [htarget, ← Option.some.inj hstub, hnone]
    exact irq_exec (add_sub_cancel ..)

/-- Room for the context below `top`. -/
structure Layout.Room (K : Layout σ) (top : U32int) : Prop where
  kept : ∀ x, K.kept x → 72 ≤ (x - (top - 72)).toNat
  own : ∀ x, K.own x → 80 ≤ (x - (top - 72)).toNat

/-- The state a function is called in. -/
def called (t : Tables) (pad : BitVec 16) (v : U8int) (errCode : Option U32int) (c : Cpu) : Cpu :=
  entered (headed t pad v (errCode.getD 0) c)

theorem called_esp (t : Tables) (pad : BitVec 16) (v : U8int) (errCode : Option U32int) (c : Cpu) :
    (called t pad v errCode c).esp = stackTop t c - if ring c.cs = 0 then 64 else 72 := by
  have hbase := (entered_headed_pushed t pad v c (errCode.getD 0)).base
  rw [eq_sub_iff_add_eq, ← hbase, called, outer]
  split_ifs <;> rfl

theorem Layout.Room.clear {errCode : Option U32int} (h : K.Room (stackTop t c)) :
    K.Clear (called t pad v errCode c).esp where
  kept x hx := by
    have hroom := h.kept x hx
    rw [called_esp]
    split_ifs <;> bv_omega
  own x hx := by
    have hroom := h.own x hx
    rw [called_esp]
    split_ifs <;> bv_omega

theorem Layout.Room.unchanged {errCode : Option U32int} (h : K.Room (stackTop t c)) {x : U32int}
    (hx : K.kept x ∨ K.own x) : (called t pad v errCode c).mem x = c.mem x := by
  have hlow : 72 ≤ (x - (stackTop t c - 72)).toNat :=
    hx.elim (h.kept x) fun hx => (by decide : 72 ≤ 80).trans (h.own x hx)
  have hesp := called_esp t pad v errCode c
  rw [called] at hesp ⊢
  refine (entered_headed_pushed t pad v c _).rest x ?_
  rw [hesp, outer]
  split_ifs
  · simp only [words, List.take, List.append_nil, List.length_cons, List.length_nil]
    bv_omega
  · simp only [words, List.take, List.length_append, List.length_cons, List.length_nil]
    bv_omega

theorem Layout.Room.state {errCode : Option U32int} (h : K.Room (stackTop t c)) :
    K.state (called t pad v errCode c).mem = K.state c.mem :=
  K.state_congr _ _ fun _ hx => h.unchanged (.inr hx)

theorem called_ss {errCode : Option U32int} (hring : ring c.cs = 0) :
    (called t pad v errCode c).ss = c.ss := by
  simp only [called, entered, headed, Cpu.pusha, Cpu.push, Cpu.saveContext, if_pos hring]

theorem interrupt_eq {fetch : U32int → Option (List Instr)} {errCode : Option U32int}
    (hstub : stub v = some code)
    (hfetch : fetch (c.gate t v).base = some code) (herr : CodeMatches v errCode) :
    c.interrupt t fetch compiled pad v errCode =
      (compiled (target v) (called t pad v errCode c)).bind (execAll t compiled commonReturn) := by
  have heip : (c.deliver t pad v errCode).eip = (c.gate t v).base := rfl
  rw [Cpu.interrupt, heip, hfetch, Option.bind_some, stub_exec hstub herr, called]

/-- The context comes back as the handler leaves it. -/
theorem interrupt_returns {fetch : U32int → Option (List Instr)}
    {errCode : Option U32int} {f : IsrT σ} {s' : σ}
    (hstub : stub v = some code) (hfetch : fetch (c.gate t v).base = some code)
    (herr : CodeMatches v errCode)
    (hroom : K.Room (stackTop t c)) (hcompiled : Implements K (compiled (target v)) f)
    (hreturn : f (frame t pad v (errCode.getD 0) c) (K.state c.mem) = .returns r s') :
    ∃ c', c.interrupt t fetch compiled pad v errCode = some (resumed t r c') ∧
      Returned K (called t pad v errCode c) c' r s' := by
  have hcall : f (registersAt (called t pad v errCode c).mem (called t pad v errCode c).esp)
      (K.state (called t pad v errCode c).mem) = .returns r s' := by
    rw [hroom.state, called, entered_frame]
    exact hreturn
  obtain ⟨c', hc', hreturned⟩ := hcompiled.returns _ r s' hroom.clear hcall
  refine ⟨c', ?_, hreturned⟩
  rw [interrupt_eq hstub hfetch herr, hc', Option.bind_some, commonReturn_exec, hreturned.regs]

/-- A context whose handler does not come back is not gone back to. -/
theorem interrupt_leaves {fetch : U32int → Option (List Instr)}
    {errCode : Option U32int} {f : IsrT σ}
    (hstub : stub v = some code) (hfetch : fetch (c.gate t v).base = some code)
    (herr : CodeMatches v errCode)
    (hroom : K.Room (stackTop t c)) (hcompiled : Implements K (compiled (target v)) f)
    (hleave : ∀ r s', f (frame t pad v (errCode.getD 0) c) (K.state c.mem) ≠ .returns r s') :
    c.interrupt t fetch compiled pad v errCode = none := by
  have hcall : ∀ r s', f (registersAt (called t pad v errCode c).mem (called t pad v errCode c).esp)
      (K.state (called t pad v errCode c).mem) ≠ .returns r s' := by
    rw [hroom.state, called, entered_frame]
    exact hleave
  rw [interrupt_eq hstub hfetch herr, hcompiled.leaves _ hroom.clear hcall]
  rfl

theorem number_low (v : U8int) : ((v.signExtend 32 &&& 0xFF).setWidth 8 : U8int) = v := by
  rw [setWidth_byte]
  refine BitVec.eq_of_getLsbD_eq fun i hi => ?_
  have hi' : i < 32 := by omega
  simp only [BitVec.getLsbD_setWidth, BitVec.getLsbD_signExtend, hi, hi',
    decide_true, Bool.true_and, if_true]

theorem irq_number (h : 32 ≤ v ∧ v < 48) : (v.signExtend 32).toNat = v.toNat := by
  have hpositive : v.msb = false := by
    rw [BitVec.msb_eq_false_iff_two_mul_lt]
    bv_omega
  rw [BitVec.signExtend_eq_setWidth_of_msb_false hpositive]
  exact BitVec.toNat_setWidth_of_le (by decide)

section

variable {table : InterruptHandlers σ} {running : σ → Bool} {errCode : U32int} {s : σ}

/-- Whichever function looks it up. -/
theorem effect_frame {handler : IsrT σ} (htable : table v.toNat = some handler) :
    (target v).effect table running (frame t pad v errCode c) s =
      handler (frame t pad v errCode c) s := by
  unfold target
  split_ifs with h
  · simp only [Handler.effect, irqHandler, frame, irq_number h, htable]
  · simp only [Handler.effect, isrHandler, frame, number_low, htable]

/-- A line without a handler is acknowledged and forgotten. -/
theorem effect_unhandled (htarget : target v = .irqHandler) (htable : table v.toNat = none) :
    (target v).effect table running (frame t pad v errCode c) s =
      .returns (frame t pad v errCode c) s := by
  have h : 32 ≤ v ∧ v < 48 := by
    by_contra hnot
    rw [target, if_neg hnot] at htarget
    cases htarget
  simp only [htarget, Handler.effect, irqHandler, frame, irq_number h, htable]

end

/-- The selectors that stay when the context is gone back to. -/
structure Selectors (t : Tables) (K : Layout σ) (c : Cpu) : Prop where
  checked : ∀ seg ∈ [c.ds, c.es, c.fs], c.checked t (ring c.cs) seg = seg
  kept : ∀ seg ∈ [c.ds, c.es, c.fs], K.kept (t.gdt + (seg &&& 0xFFF8).setWidth 32 + 5)

theorem checked_congr {level : BitVec 2} {seg : BitVec 16}
    (h : c'.mem (t.gdt + (seg &&& 0xFFF8).setWidth 32 + 5) =
      c.mem (t.gdt + (seg &&& 0xFFF8).setWidth 32 + 5)) :
    c'.checked t level seg = c.checked t level seg := by
  simp only [Cpu.checked, GdtEntry.conforming, GdtEntry.dpl, gdtEntryAt, h]
  rfl

theorem resumed_frame {errCode : Option U32int} {eax : U32int} {s' : σ}
    (hroom : K.Room (stackTop t c)) (hlevel : ring c.cs ≠ 0 → Selectors t K c)
    (h : Returned K (called t pad v errCode c) c' { frame t pad v (errCode.getD 0) c with eax :=
    eax } s') : resumed t { frame t pad v (errCode.getD 0) c with eax := eax } c' =
      { c with eax := eax, gs := c.ds, mem := c'.mem } := by
  have hcs : ((pad ++ c.cs : BitVec (16 + 16)).setWidth 16 : BitVec 16) = c.cs :=
    BitVec.setWidth_append_eq_right
  by_cases hring : ring c.cs = 0
  · have hesp : c'.esp + 64 = c.esp := by
      rw [h.esp, called_esp, if_pos hring, stackTop, if_pos hring, sub_add_cancel]
    have hss : c'.ss = c.ss := h.ss.trans (called_ss hring)
    simp only [resumed, frame, withLow_low, hcs, if_pos hring, hesp, hss]
  · have hss : ((pad ++ c.ss : BitVec (16 + 16)).setWidth 16 : BitVec 16) = c.ss :=
      BitVec.setWidth_append_eq_right
    have hseg : ∀ seg ∈ [c.ds, c.es, c.fs], c'.checked t (ring c.cs) seg = seg := fun seg hseg =>
      (checked_congr ((h.kept _ ((hlevel hring).kept seg hseg)).trans
        (hroom.unchanged (.inl ((hlevel hring).kept seg hseg))))).trans
          ((hlevel hring).checked seg hseg)
    simp only [resumed, frame, withLow_low, hcs, if_neg hring, outerWords, hss, hseg c.ds (by simp),
      hseg c.es (by simp), hseg c.fs (by simp)]

/-- A handler that answers in EAX and leaves the rest of its structure alone answers in EAX.
The context it interrupts sees nothing else, GS apart. -/
theorem interrupt_answers {fetch : U32int → Option (List Instr)}
    {errCode : Option U32int} {f : IsrT σ} {s' : σ}
    {eax : U32int} (hstub : stub v = some code) (hfetch : fetch (c.gate t v).base = some code)
    (herr : CodeMatches v errCode) (hroom : K.Room (stackTop t c)) (hlevel : ring c.cs ≠ 0 →
    Selectors t K c) (hcompiled : Implements K (compiled (target v)) f)
    (hreturn : f (frame t pad v (errCode.getD 0) c) (K.state c.mem) =
      .returns { frame t pad v (errCode.getD 0) c with eax := eax } s') :
    ∃ m', c.interrupt t fetch compiled pad v errCode =
      some { c with eax := eax, gs := c.ds, mem := m' } ∧
      (∀ x, K.kept x → m' x = c.mem x) ∧ K.state m' = s' := by
  obtain ⟨c', hc', hreturned⟩ := interrupt_returns hstub hfetch herr hroom hcompiled hreturn
  refine ⟨c'.mem, hc'.trans (congrArg some (resumed_frame hroom hlevel hreturned)),
    fun x hx => ?_, hreturned.state⟩
  exact (hreturned.kept x hx).trans (hroom.unchanged (.inl hx))

end

end SimpleOs.Audit.InterruptFrame
