import Mathlib.Order.Notation

/-!
# Programs over a memory of words

A program loads and stores words, asks for more memory and may give up. What that means
is up to the machine it runs on. A machine that refines another one runs every program
the other one completes, to the same result.
-/

namespace SimpleOs.Lib.WordProgram

variable {W ε α β σ τ : Type}

inductive Program (W ε : Type) (α : Type) where
  | ret (a : α)
  | load (p : W) (next : W → Program W ε α)
  | store (p v : W) (next : Program W ε α)
  | grow (n : W) (next : W → Program W ε α)
  | fail (e : ε)

namespace Program

def bind (x : Program W ε α) (f : α → Program W ε β) : Program W ε β :=
  match x with
  | .ret a => f a
  | .load p next => .load p fun v => (next v).bind f
  | .store p v next => .store p v (next.bind f)
  | .grow n next => .grow n fun p => (next p).bind f
  | .fail e => .fail e

instance : Monad (Program W ε) where
  pure := .ret
  bind := bind

end Program

/-- Load a word. -/
def load (p : W) : Program W ε W := .load p .ret

def store (p v : W) : Program W ε Unit := .store p v (.ret ())

/-- Ask for `n` more, and get where it begins. -/
def grow (n : W) : Program W ε W := .grow n .ret

def fail (e : ε) : Program W ε α := .fail e

def check (e : ε) (b : Bool) : Program W ε Unit := if b then .ret () else .fail e

structure Machine (σ W ε : Type) where
  load : W → σ → Except ε W
  store : W → W → σ → Except ε σ
  grow : W → σ → Except ε (W × σ)

namespace Program

def run (M : Machine σ W ε) : Program W ε α → σ → Except ε (α × σ)
  | .ret a, s => .ok (a, s)
  | .load p next, s => do
    let v ← M.load p s
    (next v).run M s
  | .store p v next, s => do
    let s ← M.store p v s
    next.run M s
  | .grow n next, s => do
    let (p, s) ← M.grow n s
    (next p).run M s
  | .fail e, _ => .error e

end Program

section

variable (M : Machine σ W ε)

@[simp] theorem run_pure (a : α) (s : σ) : (pure a : Program W ε α).run M s = .ok (a, s) := rfl

@[simp] theorem run_fail (e : ε) (s : σ) : (fail e : Program W ε α).run M s = .error e := rfl

theorem run_bind (x : Program W ε α) (f : α → Program W ε β) (s : σ) :
    (x >>= f).run M s = x.run M s >>= fun r => (f r.1).run M r.2 := by
  change (x.bind f).run M s = _
  induction x generalizing s with
  | ret a => rfl
  | load p next ih =>
    simp only [Program.bind, Program.run, ih]
    cases M.load p s <;> rfl
  | store p v next ih =>
    simp only [Program.bind, Program.run, ih]
    cases M.store p v s <;> rfl
  | grow n next ih =>
    simp only [Program.bind, Program.run, ih]
    cases M.grow n s <;> rfl
  | fail e => rfl

variable {M} {s s' : σ}

/-- A completed program is followed by what comes after it. -/
theorem run_bind_of_ok {x : Program W ε α} {a : α} (h : x.run M s = .ok (a, s'))
    (f : α → Program W ε β) : (x >>= f).run M s = (f a).run M s' := by
  rw [run_bind, h]
  rfl

theorem run_load {p v : W} (h : M.load p s = .ok v) :
    (load p : Program W ε W).run M s = .ok (v, s) := by
  change (M.load p s >>= fun v => .ok (v, s)) = _
  rw [h]
  rfl

theorem run_store {p v : W} (h : M.store p v s = .ok s') :
    (store p v : Program W ε Unit).run M s = .ok ((), s') := by
  change (M.store p v s >>= fun s => .ok ((), s)) = _
  rw [h]
  rfl

theorem run_grow {n p : W} (h : M.grow n s = .ok (p, s')) :
    (grow n : Program W ε W).run M s = .ok (p, s') := by
  change (M.grow n s >>= fun r => .ok (r.1, r.2)) = _
  rw [h]
  rfl

theorem run_check {e : ε} {b : Bool} (h : b = true) (s : σ) :
    (check e b : Program W ε Unit).run M s = .ok ((), s) := by
  rw [check, if_pos h]
  rfl

end

/-- The program completes, with `Q` of its result. -/
def Yields (M : Machine σ W ε) (x : Program W ε α) (s : σ) (Q : α → σ → Prop) : Prop :=
  ∃ a s', x.run M s = .ok (a, s') ∧ Q a s'

section

variable {M : Machine σ W ε} {x : Program W ε α} {f : α → Program W ε β} {s s' : σ}
  {P Q : α → σ → Prop} {R : β → σ → Prop}

theorem Yields.ret {a : α} (h : Q a s) : Yields M (pure a) s Q := ⟨a, s, rfl, h⟩

theorem Yields.mono (h : Yields M x s P) (hPQ : ∀ a s', P a s' → Q a s') : Yields M x s Q := by
  obtain ⟨a, s', hrun, hP⟩ := h
  exact ⟨a, s', hrun, hPQ a s' hP⟩

theorem Yields.bind (h : Yields M x s P) (hf : ∀ a s', P a s' → Yields M (f a) s' R) :
    Yields M (x >>= f) s R := by
  obtain ⟨a, s', hrun, hP⟩ := h
  obtain ⟨b, s'', hrun', hR⟩ := hf a s' hP
  refine ⟨b, s'', ?_, hR⟩
  rw [run_bind_of_ok hrun]
  exact hrun'

/-- A first part that is known to complete. -/
theorem Yields.run {a : α} (h : x.run M s = .ok (a, s')) (hf : Yields M (f a) s' R) :
    Yields M (x >>= f) s R := by
  obtain ⟨b, s'', hrun, hR⟩ := hf
  exact ⟨b, s'', (run_bind_of_ok h f).trans hrun, hR⟩

theorem Yields.load {p v : W} {f : W → Program W ε β} (h : M.load p s = .ok v)
    (hf : Yields M (f v) s R) : Yields M (load p >>= f) s R := .run (run_load h) hf

theorem Yields.store {p v : W} {f : Unit → Program W ε β} (h : M.store p v s = .ok s')
    (hf : Yields M (f ()) s' R) : Yields M (store p v >>= f) s R := .run (run_store h) hf

theorem Yields.store_last {p v : W} {Q : Unit → σ → Prop} (h : M.store p v s = .ok s')
    (hQ : Q () s') : Yields M (WordProgram.store p v) s Q := ⟨(), s', run_store h, hQ⟩

theorem Yields.grow {n p : W} {f : W → Program W ε β} (h : M.grow n s = .ok (p, s'))
    (hf : Yields M (f p) s' R) : Yields M (grow n >>= f) s R := .run (run_grow h) hf

theorem Yields.check {e : ε} {b : Bool} {f : Unit → Program W ε β} (h : b = true)
    (hf : Yields M (f ()) s R) : Yields M (check e b >>= f) s R := .run (run_check h s) hf

end

/-- What the machine `N` does, `M` does as well, and their states stay related. -/
structure Refines (M : Machine σ W ε) (N : Machine τ W ε) (R : σ → τ → Prop) : Prop where
  load : ∀ {s t p v}, R s t → N.load p t = .ok v → M.load p s = .ok v
  store : ∀ {s t p v t'}, R s t → N.store p v t = .ok t' → ∃ s', M.store p v s = .ok s' ∧ R s' t'
  grow : ∀ {s t n p t'}, R s t → N.grow n t = .ok (p, t') → ∃ s', M.grow n s = .ok (p, s') ∧ R s' t'

section

variable {M : Machine σ W ε} {N : Machine τ W ε} {R : σ → τ → Prop}

/-- A completed step has a first part that completes. -/
theorem ok_of_bind {x : Except ε α} {f : α → Except ε β} {b : β} (h : (x >>= f) = .ok b) :
    ∃ a, x = .ok a ∧ f a = .ok b := by
  cases x with
  | error e => cases h
  | ok a => exact ⟨a, rfl, h⟩

theorem Refines.run (h : Refines M N R) (x : Program W ε α) {s : σ} {t t' : τ} {a : α} (hr : R s t)
    (hrun : x.run N t = .ok (a, t')) : ∃ s', x.run M s = .ok (a, s') ∧ R s' t' := by
  induction x generalizing s t with
  | ret b =>
    cases hrun
    exact ⟨s, rfl, hr⟩
  | load p next ih =>
    obtain ⟨v, hload, hrest⟩ := ok_of_bind hrun
    obtain ⟨s', hs', hr'⟩ := ih v hr hrest
    refine ⟨s', ?_, hr'⟩
    rw [Program.run, h.load hr hload]
    exact hs'
  | store p v next ih =>
    obtain ⟨t1, hstore, hrest⟩ := ok_of_bind hrun
    obtain ⟨s1, hs1, hr1⟩ := h.store hr hstore
    obtain ⟨s', hs', hr'⟩ := ih hr1 hrest
    refine ⟨s', ?_, hr'⟩
    rw [Program.run, hs1]
    exact hs'
  | grow n next ih =>
    obtain ⟨⟨p, t1⟩, hgrow, hrest⟩ := ok_of_bind hrun
    obtain ⟨s1, hs1, hr1⟩ := h.grow hr hgrow
    obtain ⟨s', hs', hr'⟩ := ih p hr1 hrest
    refine ⟨s', ?_, hr'⟩
    rw [Program.run, hs1]
    exact hs'
  | fail e => cases hrun

theorem Refines.yields (h : Refines M N R) {x : Program W ε α} {s : σ} {t : τ} {Q : α → τ → Prop}
    (hr : R s t) (hx : Yields N x t Q) : Yields M x s fun a s' => ∃ t', R s' t' ∧ Q a t' := by
  obtain ⟨a, t', hrun, hQ⟩ := hx
  obtain ⟨s', hrun', hr'⟩ := h.run x hr hrun
  exact ⟨a, s', hrun', t', hr', hQ⟩

end

end SimpleOs.Lib.WordProgram
