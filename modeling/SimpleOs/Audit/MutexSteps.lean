import Mathlib.Data.Set.Subsingleton
import Mathlib.Logic.Function.Basic
import Mathlib.Logic.Relation
import SimpleOs.Kernel.Mutex

/-!
# Mutexes under interleaving

Any number of contexts step through `mutex_lock`, `mutex_trylock` and
`mutex_unlock` on a set of lock bytes; each exchange is one step and a spinning
context simply steps again. Holders are recorded beside the memory, which never
names them. A mutex is released by a holder.
-/

namespace SimpleOs.Audit.MutexSteps

open Relation
open SimpleOs.Lib.ByteMemory
open SimpleOs.Kernel

variable {ι : Type}

structure World (ι : Type) where
  memory : Memory
  holders : Addr → Set ι

inductive Op
  | lock
  | trylock
  | unlock

structure Event (ι : Type) where
  context : ι
  mutex : Addr
  op : Op

/-- What the operation answers and leaves in memory; a release acquires nothing. -/
def Op.perform (m : Memory) (mutex : Addr) : Op → Bool × Memory
  | .lock => mutexLock m mutex
  | .trylock => mutexTrylock m mutex
  | .unlock => (false, mutexUnlock m mutex)

/-- Who holds the mutex after the operation. -/
def Op.settle (context : ι) (acquired : Bool) (held : Set ι) : Op → Set ι
  | .unlock => held \ {context}
  | _ => if acquired then insert context held else held

def World.step (w : World ι) (e : Event ι) : World ι where
  memory := (e.op.perform w.memory e.mutex).2
  holders := Function.update w.holders e.mutex
    (e.op.settle e.context (e.op.perform w.memory e.mutex).1 (w.holders e.mutex))

def World.Enabled (w : World ι) (e : Event ι) : Prop :=
  e.op = .unlock → e.context ∈ w.holders e.mutex

/-- One step on a mutex of `M`, where exchanges are confined by `allowed`. -/
def Step (M : Set Addr) (allowed : Memory → Addr → Prop) (w w' : World ι) : Prop :=
  ∃ e : Event ι, e.mutex ∈ M ∧ w.Enabled e ∧ (e.op ≠ .unlock → allowed w.memory e.mutex) ∧
    w' = w.step e

/-- Each mutex is free and unheld, or locked and held once. -/
def Consistent (M : Set Addr) (w : World ι) : Prop :=
  ∀ a ∈ M, (w.memory a = unlocked ∧ w.holders a = ∅) ∨
    (w.memory a = locked ∧ ∃ c, w.holders a = {c})

/-- What each operation promises on the mutex in the memory it finds. -/
structure Sound (m : Memory) (mutex : Addr) : Prop where
  lock_acquires : (mutexLock m mutex).1 = true ↔ m mutex = unlocked
  trylock_acquires : (mutexTrylock m mutex).1 = true ↔ m mutex = unlocked
  agree : (mutexLock m mutex).1 = (mutexTrylock m mutex).1
  frame : ∀ (op : Op) (x : Addr), x ≠ mutex → (op.perform m mutex).2 x = m x

section

variable {m : Memory} {mutex : Addr}

theorem unlocked_ne_locked : unlocked ≠ locked := by decide

/-- The low byte tells a free mutex from a taken one, whatever lies behind it. -/
theorem trylock_acquires (hbyte : m mutex = unlocked ∨ m mutex = locked) :
    (mutexTrylock m mutex).1 = true ↔ m mutex = unlocked := by
  rw [mutexTrylock_acquires]
  rcases hbyte with h | h
  · rw [h]
    exact iff_of_true unlocked_ne_locked rfl
  · rw [h]
    exact iff_of_false (fun hne => hne rfl) unlocked_ne_locked.symm

theorem sound_iff (hbyte : m mutex = unlocked ∨ m mutex = locked) :
    Sound m mutex ↔ ClearBehind m mutex := by
  constructor
  · intro h
    exact (xchg_frame_iff m mutex).mp fun x hx => h.frame .lock x hx
  · intro h
    have hlock := h.lock_acquires
    have htry := trylock_acquires hbyte
    refine ⟨hlock, htry, Bool.eq_iff_iff.mpr (hlock.trans htry.symm), fun op x hx => ?_⟩
    cases op with
    | lock => exact (xchg_frame_iff m mutex).mpr h x hx
    | trylock => exact (xchg_frame_iff m mutex).mpr h x hx
    | unlock => exact write8_of_ne m unlocked hx

/-- An exchange leaves the mutex locked. -/
theorem perform_exchange_locked {op : Op} (h : op ≠ .unlock) :
    (op.perform m mutex).2 mutex = locked := by
  cases op with
  | lock => exact write_locked_self m mutex
  | trylock => exact write_locked_self m mutex
  | unlock => exact absurd rfl h

theorem Sound.acquires (h : Sound m mutex) {op : Op} (hop : op ≠ .unlock) :
    (op.perform m mutex).1 = true ↔ m mutex = unlocked := by
  cases op with
  | lock => exact h.lock_acquires
  | trylock => exact h.trylock_acquires
  | unlock => exact absurd rfl hop

theorem settle_exchange {op : Op} (hop : op ≠ .unlock) (c : ι) (acquired : Bool) (held : Set ι) :
    op.settle c acquired held = if acquired then insert c held else held := by
  cases op with
  | unlock => exact absurd rfl hop
  | _ => rfl

end

section

variable {M : Set Addr} {w w' : World ι} {e : Event ι}

theorem Consistent.byte (h : Consistent M w) {a : Addr} (ha : a ∈ M) :
    w.memory a = unlocked ∨ w.memory a = locked := (h a ha).imp And.left And.left

theorem Consistent.subsingleton (h : Consistent M w) {a : Addr} (ha : a ∈ M) :
    (w.holders a).Subsingleton := by
  rcases h a ha with ⟨-, hh⟩ | ⟨-, c, hh⟩
  · rw [hh]
    exact Set.subsingleton_empty
  · rw [hh]
    exact Set.subsingleton_singleton

theorem Consistent.unlocked_iff (h : Consistent M w) {a : Addr} (ha : a ∈ M) :
    w.memory a = unlocked ↔ w.holders a = ∅ := by
  rcases h a ha with ⟨hm, hh⟩ | ⟨hm, c, hh⟩
  · exact iff_of_true hm hh
  · refine iff_of_false ?_ ?_
    · rw [hm]
      exact unlocked_ne_locked.symm
    · rw [hh]
      exact Set.singleton_ne_empty c

theorem step_holders_self : (w.step e).holders e.mutex =
    e.op.settle e.context (e.op.perform w.memory e.mutex).1 (w.holders e.mutex) :=
  Function.update_self ..

theorem step_holders_of_ne {a : Addr} (ha : a ≠ e.mutex) : (w.step e).holders a = w.holders a :=
  Function.update_of_ne ha ..

theorem acquired_holders (w : World ι) (c : ι) {a : Addr} {op : Op} (hop : op ≠ .unlock)
    (hacq : (op.perform w.memory a).1 = true) :
    (w.step ⟨c, a, op⟩).holders a = insert c (w.holders a) := by
  have hself : (w.step ⟨c, a, op⟩).holders a = _ := step_holders_self
  rw [hself, settle_exchange hop]
  exact if_pos hacq

/-- A holder's release empties the mutex. -/
theorem release_consistent (h : Consistent M w) (hm : e.mutex ∈ M) (hen : w.Enabled e)
    (hop : e.op = .unlock) :
    (w.step e).memory e.mutex = unlocked ∧ (w.step e).holders e.mutex = ∅ := by
  have hheld := hen hop
  constructor
  · rw [World.step, hop]
    exact write8_same _ _ _
  · rw [step_holders_self, hop]
    exact Set.sdiff_eq_empty.mpr fun c hc => h.subsingleton hm hc hheld

/-- An exchange leaves the one holder it found, or makes the caller it. -/
theorem exchange_consistent (h : Consistent M w) (hm : e.mutex ∈ M) (hop : e.op ≠ .unlock)
    (hs : Sound w.memory e.mutex) :
    (w.step e).memory e.mutex = locked ∧ ∃ c, (w.step e).holders e.mutex = {c} := by
  refine ⟨perform_exchange_locked hop, ?_⟩
  rw [step_holders_self, settle_exchange hop]
  rcases h e.mutex hm with ⟨hfree, hh⟩ | ⟨htaken, c, hh⟩
  · refine ⟨e.context, ?_⟩
    rw [(hs.acquires hop).mpr hfree, if_pos rfl, hh]
    exact insert_empty_eq e.context
  · refine ⟨c, ?_⟩
    have hfail : ¬ (e.op.perform w.memory e.mutex).1 = true := by
      rw [hs.acquires hop, htaken]
      exact unlocked_ne_locked.symm
    rw [if_neg hfail, hh]

theorem step_consistent (h : Consistent M w) (hstep : Step M ClearBehind w w') :
    Consistent M w' ∧ ∀ x ∉ M, w'.memory x = w.memory x := by
  obtain ⟨e, hm, hen, hclear, rfl⟩ := hstep
  have hframe : ∀ x, x ≠ e.mutex → (w.step e).memory x = w.memory x := by
    intro x hx
    by_cases hop : e.op = .unlock
    · rw [World.step, hop]
      exact write8_of_ne _ _ hx
    · exact ((sound_iff (h.byte hm)).mpr (hclear hop)).frame e.op x hx
  refine ⟨fun a ha => ?_, fun x hx => hframe x fun he => hx (he ▸ hm)⟩
  by_cases hae : a = e.mutex
  · rw [hae]
    by_cases hop : e.op = .unlock
    · exact .inl (release_consistent h hm hen hop)
    · exact .inr (exchange_consistent h hm hop ((sound_iff (h.byte hm)).mpr (hclear hop)))
  · rw [hframe a hae, step_holders_of_ne hae]
    exact h a ha

theorem run_consistent (h : Consistent M w) (hrun : ReflTransGen (Step M ClearBehind) w w') :
    Consistent M w' ∧ ∀ x ∉ M, w'.memory x = w.memory x := by
  induction hrun with
  | refl => exact ⟨h, fun _ _ => rfl⟩
  | tail _ hstep ih =>
    have hnext := step_consistent ih.1 hstep
    exact ⟨hnext.1, fun x hx => (hnext.2 x hx).trans (ih.2 x hx)⟩

end

/-- In every run whose exchanges find zeros in the three bytes behind the lock byte
no mutex has two holders, no byte but the lock bytes changes and a mutex is free
exactly when unheld; the next exchange keeps its promises if and only if it
finds such zeros too. -/
theorem exclusive_while_clear {M : Set Addr} {w₀ w : World ι} (h₀ : Consistent M w₀)
    (hrun : ReflTransGen (Step M ClearBehind) w₀ w) :
    (∀ x ∉ M, w.memory x = w₀.memory x) ∧
    ∀ a ∈ M, (w.holders a).Subsingleton ∧ (w.memory a = unlocked ↔ w.holders a = ∅) ∧
      (Sound w.memory a ↔ ClearBehind w.memory a) ∧
      (w.holders a = ∅ → ClearBehind w.memory a → ∀ c : ι, ∀ op ≠ Op.unlock,
        (w.step ⟨c, a, op⟩).holders a = {c}) := by
  obtain ⟨h, hframe⟩ := run_consistent h₀ hrun
  refine ⟨hframe, fun a ha => ⟨h.subsingleton ha, h.unlocked_iff ha, sound_iff (h.byte ha), ?_⟩⟩
  intro hfree hclear c op hop
  have hs := (sound_iff (h.byte ha)).mpr hclear
  have hacq : (op.perform w.memory a).1 = true :=
    (hs.acquires hop).mpr ((h.unlocked_iff ha).mpr hfree)
  rw [acquired_holders w c hop hacq, hfree]
  exact insert_empty_eq c

/-- Eight zero bytes for two mutexes, among bytes that are not zero. -/
def spaced : World Bool := ⟨fun x => if (x - 0x1000).toNat < 8 then 0 else 0xFF, fun _ => ∅⟩

theorem spaced_consistent : Consistent {0x1000, 0x1004} spaced := by
  rintro a (rfl | rfl) <;> exact .inl ⟨rfl, rfl⟩

/-- The second context takes the upper mutex, fails at the lower one, and has it when the
first context is done. -/
def contended : List (Event Bool) :=
  [⟨true, 0x1000, .lock⟩, ⟨false, 0x1004, .trylock⟩, ⟨false, 0x1000, .trylock⟩,
    ⟨true, 0x1000, .unlock⟩, ⟨false, 0x1000, .lock⟩]

theorem contended_run : ReflTransGen (Step {0x1000, 0x1004} ClearBehind) spaced
    (contended.foldl World.step spaced) := by
  have hexchange : ∀ (w : World Bool) (e : Event Bool), e.mutex ∈ ({0x1000, 0x1004} : Set Addr) →
      e.op ≠ .unlock →
      ClearBehind w.memory e.mutex → Step {0x1000, 0x1004} ClearBehind w (w.step e) :=
    fun w e hmem hop hclear => ⟨e, hmem, fun h => absurd h hop, fun _ => hclear, rfl⟩
  have hheld : true ∈ ((contended.take 3).foldl World.step spaced).holders 0x1000 :=
    Set.mem_insert true ∅
  have hfirst := ReflTransGen.single
    (hexchange spaced ⟨true, 0x1000, .lock⟩ (.inl rfl) Op.noConfusion ⟨rfl, rfl, rfl⟩)
  have hsecond := hfirst.tail (hexchange _ ⟨false, 0x1004, .trylock⟩
    (.inr rfl) Op.noConfusion ⟨rfl, rfl, rfl⟩)
  have hthird := hsecond.tail (hexchange _ ⟨false, 0x1000, .trylock⟩
    (.inl rfl) Op.noConfusion ⟨rfl, rfl, rfl⟩)
  have hfourth := hthird.tail (c := (contended.take 4).foldl World.step spaced)
    ⟨⟨true, 0x1000, .unlock⟩, .inl rfl, fun _ => hheld, fun h => absurd rfl h, rfl⟩
  exact hfourth.tail (hexchange _ ⟨false, 0x1000, .lock⟩ (.inl rfl) Op.noConfusion ⟨rfl, rfl, rfl⟩)

theorem exclusive_while_clear_contended :
    let w := contended.foldl World.step spaced
    w.memory 0x0FFF = 0xFF ∧ w.memory 0x1008 = 0xFF ∧ (w.holders 0x1000).Subsingleton ∧
    (w.holders 0x1004).Subsingleton ∧
      false ∈ w.holders 0x1000 ∧ false ∈ w.holders 0x1004 ∧ w.memory 0x1000 ≠ unlocked := by
  intro w
  obtain ⟨hframe, hmutex⟩ := exclusive_while_clear spaced_consistent contended_run
  have hlower := hmutex 0x1000 (.inl rfl)
  have hupper := hmutex 0x1004 (.inr rfl)
  have hheld : false ∈ w.holders 0x1000 := Set.mem_insert false _
  refine ⟨hframe 0x0FFF (by decide), hframe 0x1008 (by decide), hlower.1, hupper.1, hheld,
    Set.mem_insert false _, ?_⟩
  intro hfree
  exact Set.notMem_empty false (hlower.2.1.mp hfree ▸ hheld)

/-- Memory all zero and nothing held. -/
def quiet : World Bool := ⟨fun _ => 0, fun _ => ∅⟩

theorem quiet_consistent (M : Set Addr) : Consistent M quiet := fun _ _ => .inl ⟨rfl, rfl⟩

/-- Two lock bytes side by side: taking the lower one frees the upper one, which a
second context then takes too. -/
def stolen : World Bool :=
  ((quiet.step ⟨true, 0x1001, .trylock⟩).step ⟨false, 0x1000, .trylock⟩).step
    ⟨false, 0x1001, .trylock⟩

theorem stolen_reached : ReflTransGen (Step {0x1000, 0x1001} fun _ _ => True) quiet stolen := by
  have hstep : ∀ (w : World Bool) (c : Bool) (a : Addr), a ∈ ({0x1000, 0x1001} : Set Addr) →
      Step {0x1000, 0x1001} (fun _ _ => True) w (w.step ⟨c, a, .trylock⟩) :=
    fun _ c a ha => ⟨⟨c, a, .trylock⟩, ha, fun hop => Op.noConfusion hop, fun _ => trivial, rfl⟩
  have hfirst := ReflTransGen.single (hstep quiet true 0x1001 (.inr rfl))
  have hsecond := hfirst.tail (hstep _ false 0x1000 (.inl rfl))
  exact hsecond.tail (hstep _ false 0x1001 (.inr rfl))

theorem trylock_holders (w : World ι) (c : ι) {a : Addr} (h : w.memory a ≠ locked) :
    (w.step ⟨c, a, .trylock⟩).holders a = insert c (w.holders a) :=
  acquired_holders w c Op.noConfusion ((mutexTrylock_acquires w.memory a).mpr h)

theorem stolen_holders : stolen.holders 0x1001 = {false, true} := by
  have hfirst : (quiet.step ⟨true, 0x1001, .trylock⟩).holders 0x1001 = insert true ∅ :=
    trylock_holders quiet true (by decide)
  rw [stolen, trylock_holders _ false (by decide), step_holders_of_ne (by decide), hfirst,
    insert_empty_eq]

/-- A free mutex with a nonzero byte behind it. -/
def crowded : Memory := fun x => if x = 0x1001 then 0xFF else 0

theorem neighbours_not_preserved :
    (crowded 0x1000 = unlocked ∧ (mutexLock crowded 0x1000).1 = false ∧
      (mutexTrylock crowded 0x1000).1 = true ∧ (mutexTrylock crowded 0x1000).2 0x1001 = 0) ∧
    ¬ (∀ (M : Set Addr) (w₀ w : World Bool), Consistent M w₀ →
      ReflTransGen (Step M fun _ _ => True) w₀ w →
      ∀ a ∈ M, (w.holders a).Subsingleton ∧ Sound w.memory a) := by
  refine ⟨by decide, fun hall => ?_⟩
  have h := (hall _ quiet stolen (quiet_consistent _) stolen_reached 0x1001 (.inr rfl)).1
  rw [stolen_holders] at h
  exact absurd (h (.inl rfl) (.inr rfl)) (by decide)

end SimpleOs.Audit.MutexSteps
