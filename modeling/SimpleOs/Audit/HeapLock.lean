import Mathlib.Logic.Relation
import SimpleOs.Audit.HeapBreak
import SimpleOs.Kernel.Alloc

/-!
# One lock, one acquire

A heap call takes `mem_lock` once and gives it back, whatever the allocator does, unless
`klrealloc` goes back through a locked entry: `malloc` for a null pointer, `free` for a
size of zero. That call then waits for itself.
-/

namespace SimpleOs.Audit.HeapLock

open Relation
open SimpleOs.Lib.ByteMemory
open SimpleOs.Kernel

/-- The locked entry points. -/
inductive HeapCall
  | malloc (size : U32int)
  | realloc (ptr size : U32int)
  | calloc (nmemb size : U32int)
  | valloc (size : U32int)
  | free (ptr : U32int)

/-- An outcome without the value it returns. -/
def unvalued {α : Type} (o : Outcome α) : Outcome Unit :=
  ⟨o.events, o.result.map fun r => ((), r.2)⟩

def HeapCall.run (core : Core) (memLock : Addr) (s : HeapState) : HeapCall → Outcome Unit
  | .malloc size => unvalued (Kernel.malloc core memLock size s)
  | .realloc ptr size => unvalued (Kernel.realloc core memLock ptr size s)
  | .calloc nmemb size => unvalued (Kernel.calloc core memLock nmemb size s)
  | .valloc size => unvalued (Kernel.valloc core memLock size s)
  | .free ptr => unvalued (Kernel.free core memLock ptr s)

/-- Whether `mutex_lock` is entered while the lock is held. -/
def relocks : Bool → List LockEvent → Bool
  | _, [] => false
  | held, .attempt :: es => held || relocks held es
  | _, .acquired :: es => relocks true es
  | _, .released :: es => relocks false es

/-- A release at the end changes nothing. -/
theorem relocks_released (es : List LockEvent) :
    ∀ held, relocks held (es ++ [.released]) = relocks held es := by
  induction es with
  | nil => exact fun held => rfl
  | cons e es ih =>
    intro held
    cases e with
    | attempt => exact congrArg (held || ·) (ih held)
    | acquired => exact ih true
    | released => exact ih false

/-- The lock is never entered while held, and a call that comes back leaves it free. -/
structure OnceLocked {α : Type} (memLock : Addr) (o : Outcome α) : Prop where
  once : relocks false o.events = false
  free : ∀ a s', o.result = .ok (a, s') → s'.statics memLock = unlocked

/-- The calls whose inner call is a locked one. -/
def HeapCall.Reenters : HeapCall → Prop
  | .realloc ptr size => ptr = null ∨ size = 0
  | _ => False

/-- A computation that leaves the lock alone. -/
def Silent {α : Type} (x : Locking α) : Prop := ∀ s, (x s).events = []

section

variable {α β : Type}

theorem bind_ok {x : Locking α} {f : α → Locking β} {s s' : HeapState} {a : α}
    (h : (x s).result = .ok (a, s')) :
    (x >>= f) s = ⟨(x s).events ++ (f a s').events, (f a s').result⟩ := by
  simp only [bind, h]

theorem bind_error {x : Locking α} {f : α → Locking β} {s : HeapState} {e : Trap}
    (h : (x s).result = .error e) : (x >>= f) s = ⟨(x s).events, .error e⟩ := by
  simp only [bind, h]

theorem silent_pure (a : α) : Silent (pure a : Locking α) := fun _ => rfl

theorem silent_onHeap (f : State → Except Trap (α × State)) : Silent (Locking.onHeap f) := by
  intro s
  rw [Locking.onHeap]
  split <;> rfl

theorem silent_check (b : Bool) : Silent (Locking.check b) := silent_onHeap _

theorem silent_read32 (rel : U32int) : Silent (Locking.read32 rel) := silent_onHeap _

theorem Silent.bind {x : Locking α} {f : α → Locking β} (hx : Silent x)
    (hf : ∀ a, Silent (f a)) : Silent (x >>= f) := by
  intro s
  cases h : (x s).result with
  | ok r =>
    rw [bind_ok h, hx s, hf r.1 r.2]
    rfl
  | error e =>
    rw [bind_error h]
    exact hx s

theorem Silent.ite {x y : Locking α} {c : Prop} [Decidable c] (hx : c → Silent x)
    (hy : ¬ c → Silent y) : Silent (if c then x else y) := by
  split_ifs with h
  · exact hx h
  · exact hy h

end

section

variable {core : Core} {memLock : Addr}

theorem silent_klvalloc (size : U32int) : Silent (klvalloc core size) := by
  refine (silent_onHeap _).bind fun result => ?_
  exact (silent_check _).bind fun _ => silent_pure _

theorem silent_klcalloc (nmemb size : U32int) : Silent (klcalloc core nmemb size) := by
  refine (silent_onHeap _).bind fun ptr => ?_
  refine Silent.ite (fun _ => ?_) (fun _ => silent_pure _)
  exact (silent_onHeap _).bind fun _ => silent_pure _

/-- Past the two first cases only the allocator itself is called. -/
theorem silent_klrealloc {ptr size : U32int} (hptr : ptr ≠ null) (hsize : size ≠ 0) :
    Silent (klrealloc core memLock ptr size) := by
  rw [klrealloc, if_neg hptr, if_neg hsize]
  refine (silent_read32 _).bind fun magic => ?_
  refine (silent_check _).bind fun _ => ?_
  refine (silent_read32 _).bind fun oldSize => ?_
  refine Silent.ite (fun _ => silent_pure _) (fun _ => ?_)
  refine (silent_onHeap _).bind fun newptr => ?_
  refine Silent.ite (fun _ => ?_) (fun _ => silent_pure _)
  refine (silent_onHeap _).bind fun _ => ?_
  exact (silent_onHeap _).bind fun _ => silent_pure _

end

section

variable {α : Type} {memLock : Addr} {body : Locking α} {s : HeapState}

/-- The state in which the body of a wrapper runs. -/
def taken (s : HeapState) (memLock : Addr) : HeapState :=
  { s with statics := (mutexLock s.statics memLock).2 }

theorem underLock_spins (h : (mutexLock s.statics memLock).1 = false) :
    underLock memLock body s = ⟨[.attempt], .error .diverged⟩ := by
  have hlock : Locking.lock memLock s = ⟨[.attempt], .error .diverged⟩ := by
    rw [Locking.lock, h]
    rfl
  rw [underLock, bind_error (congrArg Outcome.result hlock), hlock]

/-- The exchange answers zero only if all four bytes were. -/
theorem clear_of_acquires (h : (mutexLock s.statics memLock).1 = true) :
    ClearBehind s.statics memLock := by
  have hword : read32 s.statics memLock = 0 := eq_of_beq h
  have hbit : ∀ i, (read32 s.statics memLock).getLsbD i = false := by
    intro i
    rw [hword]
    exact BitVec.getLsbD_zero
  simp only [read32, BitVec.getLsbD_append] at hbit
  refine ⟨?_, ?_, ?_⟩ <;> refine BitVec.eq_of_getLsbD_eq fun i hi => ?_
  · have := hbit (i + 8)
    simpa [hi] using this
  · have := hbit (i + 16)
    simpa [hi] using this
  · have := hbit (i + 24)
    simpa [hi] using this

theorem lock_takes (h : (mutexLock s.statics memLock).1 = true) :
    Locking.lock memLock s = ⟨[.attempt, .acquired], .ok ((), taken s memLock)⟩ := by
  rw [Locking.lock, h]
  rfl

/-- A body that comes back is followed by the release. -/
theorem underLock_returns (h : (mutexLock s.statics memLock).1 = true) {a : α} {s' : HeapState}
    (hbody : (body (taken s memLock)).result = .ok (a, s')) :
    underLock memLock body s =
      ⟨[.attempt, .acquired] ++ ((body (taken s memLock)).events ++ [.released]),
        .ok (a, { s' with statics := mutexUnlock s'.statics memLock })⟩ := by
  have hlock := lock_takes (s := s) h
  rw [underLock, bind_ok (congrArg Outcome.result hlock), hlock, bind_ok hbody]
  rfl

theorem underLock_stuck (h : (mutexLock s.statics memLock).1 = true) {e : Trap}
    (hbody : (body (taken s memLock)).result = .error e) :
    underLock memLock body s =
      ⟨[.attempt, .acquired] ++ (body (taken s memLock)).events, .error e⟩ := by
  have hlock := lock_takes (s := s) h
  rw [underLock, bind_ok (congrArg Outcome.result hlock), hlock, bind_error hbody]

/-- Whatever the body did, the wrapper's last write frees the lock. -/
theorem underLock_leaves_free {a : α} {s' : HeapState}
    (hret : (underLock memLock body s).result = .ok (a, s')) : s'.statics memLock = unlocked := by
  cases hacq : (mutexLock s.statics memLock).1 with
  | false =>
    rw [underLock_spins hacq] at hret
    cases hret
  | true =>
    cases hbody : (body (taken s memLock)).result with
    | ok r =>
      obtain ⟨a', s''⟩ := r
      rw [underLock_returns hacq hbody] at hret
      cases hret
      exact write8_same _ _ _
    | error e =>
      rw [underLock_stuck hacq hbody] at hret
      cases hret

/-- What the body does with the lock already taken decides. -/
theorem underLock_once_iff (h : (mutexLock s.statics memLock).1 = true) :
    relocks false (underLock memLock body s).events = false ↔
      relocks true (body (taken s memLock)).events = false := by
  cases hbody : (body (taken s memLock)).result with
  | ok r =>
    obtain ⟨a, s'⟩ := r
    rw [underLock_returns h hbody]
    change relocks true (_ ++ [LockEvent.released]) = false ↔ _
    rw [relocks_released]
  | error e =>
    rw [underLock_stuck h hbody]
    rfl

theorem unlocked_body_once (h : (mutexLock s.statics memLock).1 = true) (hsil : Silent body) :
    OnceLocked memLock (underLock memLock body s) := by
  refine ⟨(underLock_once_iff h).mpr ?_, fun _ _ => underLock_leaves_free⟩
  rw [hsil]
  rfl

theorem spinning_once (h : (mutexLock s.statics memLock).1 = false) :
    OnceLocked memLock (underLock memLock body s) := by
  refine ⟨?_, fun _ _ => underLock_leaves_free⟩
  rw [underLock_spins h]
  rfl

/-- A body that begins with a locked call gets no further than its `mutex_lock`. -/
theorem nested_relocks (h : (mutexLock s.statics memLock).1 = true)
    (hbody : (body (taken s memLock)).events = [.attempt]) :
    relocks false (underLock memLock body s).events = true := by
  rw [← Bool.not_eq_false, underLock_once_iff h, hbody]
  decide

/-- `klrealloc` in its two first cases. -/
theorem klrealloc_attempts {core : Core} {ptr size : U32int} (hre : ptr = null ∨ size = 0) :
    (klrealloc core memLock ptr size (taken s memLock)).events = [.attempt] := by
  have hspin : (mutexLock (taken s memLock).statics memLock).1 = false :=
    mutexLock_spins s.statics memLock
  by_cases hptr : ptr = null
  · rw [klrealloc, if_pos hptr, malloc, underLock_spins hspin]
  · have hfree : free core memLock ptr (taken s memLock) = ⟨[.attempt], .error .diverged⟩ :=
      underLock_spins hspin
    rw [klrealloc, if_neg hptr, if_pos (hre.resolve_left hptr),
      bind_error (congrArg Outcome.result hfree), hfree]

theorem unvalued_result {o : Outcome α} {s' : HeapState} :
    (unvalued o).result = .ok ((), s') ↔ ∃ a, o.result = .ok (a, s') := by
  obtain ⟨es, result⟩ := o
  cases result with
  | ok r =>
    refine ⟨fun h => ?_, fun ⟨a, h⟩ => ?_⟩
    · cases h
      exact ⟨r.1, rfl⟩
    · cases h
      rfl
  | error e =>
    refine ⟨fun h => ?_, fun ⟨a, h⟩ => ?_⟩
    · cases h
    · cases h

theorem onceLocked_unvalued {o : Outcome α} :
    OnceLocked memLock (unvalued o) ↔ OnceLocked memLock o := by
  refine ⟨fun h => ⟨h.once, fun a s' ho => ?_⟩, fun h => ⟨h.once, fun _ s' ho => ?_⟩⟩
  · exact h.free () s' (unvalued_result.mpr ⟨a, ho⟩)
  · obtain ⟨a, ha⟩ := unvalued_result.mp ho
    exact h.free a s' ha

end

section

variable {core : Core} {memLock : Addr} {s s' : HeapState}

/-- A call that came back. -/
def Returned (core : Core) (memLock : Addr) (s s' : HeapState) : Prop :=
  ∃ c : HeapCall, (c.run core memLock s).result = .ok ((), s')

/-- Every call is a wrapper around some body, silent unless it goes back through a
locked entry. -/
theorem run_once_iff (c : HeapCall) (hfree : s.statics memLock = unlocked) :
    OnceLocked memLock (c.run core memLock s) ↔
      ¬ c.Reenters ∨ ¬ ClearBehind s.statics memLock := by
  cases hacq : (mutexLock s.statics memLock).1 with
  | false =>
    have hclear : ¬ ClearBehind s.statics memLock := fun h => by
      rw [h.lock_acquires.mpr hfree] at hacq
      cases hacq
    refine iff_of_true ?_ (Or.inr hclear)
    cases c <;> exact onceLocked_unvalued.mpr (spinning_once hacq)
  | true =>
    have hclear : ClearBehind s.statics memLock := clear_of_acquires hacq
    rw [or_iff_left (not_not_intro hclear)]
    cases c with
    | malloc size =>
      refine iff_of_true ?_ id
      exact onceLocked_unvalued.mpr (unlocked_body_once hacq (silent_onHeap _))
    | calloc nmemb size =>
      refine iff_of_true ?_ id
      exact onceLocked_unvalued.mpr (unlocked_body_once hacq (silent_klcalloc nmemb size))
    | valloc size =>
      refine iff_of_true ?_ id
      exact onceLocked_unvalued.mpr (unlocked_body_once hacq (silent_klvalloc size))
    | free ptr =>
      refine iff_of_true ?_ id
      exact onceLocked_unvalued.mpr (unlocked_body_once hacq (silent_onHeap _))
    | realloc ptr size =>
      refine onceLocked_unvalued.trans ⟨fun h hre => ?_, fun h => ?_⟩
      · have hrelocks := nested_relocks hacq (@klrealloc_attempts memLock s core ptr size hre)
        exact absurd (hrelocks.symm.trans h.once) (by decide)
      · exact unlocked_body_once hacq
          (silent_klrealloc (fun hp => h (.inl hp)) (fun hz => h (.inr hz)))

theorem returned_free (h : Returned core memLock s s') : s'.statics memLock = unlocked := by
  obtain ⟨c, hc⟩ := h
  cases c
  all_goals
    obtain ⟨a, ha⟩ := unvalued_result.mp hc
    exact underLock_leaves_free ha

/-- After any calls that came back the lock is free, and the next call enters it once
if and only if it does not reallocate a null pointer or to size zero, or finds a nonzero
byte behind the lock, on which it waits before it holds anything. -/
theorem once_locked_iff {s₀ : HeapState} (hfree : s₀.statics memLock = unlocked)
    (h : ReflTransGen (Returned core memLock) s₀ s) : s.statics memLock = unlocked ∧
      ∀ c : HeapCall, OnceLocked memLock (c.run core memLock s) ↔
        ¬ c.Reenters ∨ ¬ ClearBehind s.statics memLock := by
  have hnow : s.statics memLock = unlocked := by
    cases h with
    | refl => exact hfree
    | tail _ hlast => exact returned_free hlast
  exact ⟨hnow, fun c => run_once_iff c hnow⟩

end

/-- The allocator where the calls below reach it: nothing for size zero, nothing to free
at a null pointer. -/
def emptyCore : Core where
  klmalloc _ s := .ok (null, s)
  klfree _ s := .ok ((), s)

def freshHeap : HeapState where
  statics := fun _ => 0
  state := HeapBreak.onePage

/-- `realloc(NULL, 16)` enters `mutex_lock` with the lock held, whatever the allocator,
and so does `realloc(p, 0)`. -/
theorem null_realloc_relocks :
    ¬ (∀ (core : Core) (memLock : Addr) (s₀ s : HeapState), s₀.statics memLock = unlocked →
      ReflTransGen (Returned core memLock) s₀ s →
      ∀ c : HeapCall, OnceLocked memLock (c.run core memLock s)) ∧
    ∀ core : Core, relocks false (Kernel.realloc core 0x1000 null 16 freshHeap).events = true ∧
      relocks false (Kernel.realloc core 0x1000 0x800010 0 freshHeap).events = true := by
  have hacq : (mutexLock freshHeap.statics 0x1000).1 = true := by decide
  have hrelocks : ∀ core : Core,
      relocks false (Kernel.realloc core 0x1000 null 16 freshHeap).events = true ∧
      relocks false (Kernel.realloc core 0x1000 0x800010 0 freshHeap).events = true := fun core =>
    ⟨nested_relocks hacq (klrealloc_attempts (.inl rfl)),
      nested_relocks hacq (klrealloc_attempts (.inr rfl))⟩
  refine ⟨fun hall => ?_, hrelocks⟩
  have honce := (hall emptyCore 0x1000 freshHeap freshHeap rfl .refl (.realloc null 16)).once
  exact absurd ((hrelocks emptyCore).1.symm.trans honce) (by decide)

end SimpleOs.Audit.HeapLock
