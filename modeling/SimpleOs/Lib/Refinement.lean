import Mathlib.Logic.Basic

/-!
# Calls against a specification

A fallible implementation next to the total machine it stands for. A run is any
finite history of permitted calls; the abstract machine moves along whatever the
implementation answered, so that a simulation has to say what the answer was.
-/

namespace SimpleOs.Lib.Refinement

variable {σ α ι ω ε : Type}

structure Interface (σ α ι ω ε : Type) where
  call : ι → σ → Except ε (ω × σ)
  spec : ι → α → ω × α
  permitted : ι → σ → α → Prop

inductive Run (I : Interface σ α ι ω ε) (start : σ → α → Prop) : σ → α → Prop
  | start {s : σ} {a : α} : start s a → Run I start s a
  | call {s s' : σ} {a : α} {i : ι} {w : ω} : Run I start s a → I.permitted i s a →
      I.call i s = .ok (w, s') → Run I start s' (I.spec i a).2

/-- Related states answer a permitted call as specified and stay related. -/
structure Simulation (I : Interface σ α ι ω ε) (start R : σ → α → Prop) : Prop where
  start : ∀ s a, start s a → R s a
  step : ∀ i s a, R s a → I.permitted i s a →
    ∃ s', I.call i s = .ok ((I.spec i a).1, s') ∧ R s' (I.spec i a).2

variable {I : Interface σ α ι ω ε} {start R : σ → α → Prop}

theorem Simulation.run (h : Simulation I start R) {s : σ} {a : α} (hr : Run I start s a) :
    R s a := by
  induction hr with
  | start hs => exact h.start _ _ hs
  | call _ hp hc ih =>
    obtain ⟨s', hs', hR⟩ := h.step _ _ _ ih hp
    rw [hc] at hs'
    cases hs'
    exact hR

/-- The next permitted call of a run is answered as specified. -/
theorem Simulation.next (h : Simulation I start R) {s : σ} {a : α} (hr : Run I start s a)
    {i : ι} (hp : I.permitted i s a) :
    ∃ s', I.call i s = .ok ((I.spec i a).1, s') ∧ Run I start s' (I.spec i a).2 := by
  obtain ⟨s', hs', -⟩ := h.step i s a (h.run hr) hp
  exact ⟨s', hs', hr.call hp hs'⟩

/-- A run stays one when more calls are allowed. -/
theorem Run.weaken {permitted : ι → σ → α → Prop} (h : ∀ i s a, I.permitted i s a → permitted i s a)
    {s : σ} {a : α} (hr : Run I start s a) : Run { I with permitted := permitted } start s a := by
  induction hr with
  | start hs => exact .start hs
  | call _ hp hc ih => exact Run.call (I := { I with permitted := permitted }) ih (h _ _ _ hp) hc

/-- A specification that admits several answers and goes on from the one it is given. -/
structure OpenInterface (σ α ι ω ε : Type) where
  call : ι → σ → Except ε (ω × σ)
  admits : ι → α → ω → Prop
  next : ι → α → ω → α
  permitted : ι → σ → α → Prop

inductive OpenRun (I : OpenInterface σ α ι ω ε) (start : σ → α → Prop) : σ → α → Prop
  | start {s : σ} {a : α} : start s a → OpenRun I start s a
  | call {s s' : σ} {a : α} {i : ι} {w : ω} : OpenRun I start s a → I.permitted i s a →
      I.call i s = .ok (w, s') → OpenRun I start s' (I.next i a w)

/-- Related states give a permitted call an answer that is admitted, and stay related. -/
structure OpenSimulation (I : OpenInterface σ α ι ω ε) (start R : σ → α → Prop) : Prop where
  start : ∀ s a, start s a → R s a
  step : ∀ i s a, R s a → I.permitted i s a →
    ∃ w s', I.call i s = .ok (w, s') ∧ I.admits i a w ∧ R s' (I.next i a w)

theorem OpenSimulation.run {I : OpenInterface σ α ι ω ε} {start R : σ → α → Prop}
    (h : OpenSimulation I start R) {s : σ} {a : α} (hr : OpenRun I start s a) : R s a := by
  induction hr with
  | start hs => exact h.start _ _ hs
  | call _ hp hc ih =>
    obtain ⟨w, s', hs', -, hR⟩ := h.step _ _ _ ih hp
    rw [hc] at hs'
    cases hs'
    exact hR

section

variable {β : Type} {step : ι → α → Option α} {step' : ι → β → Option β}

def runAll (step : ι → α → Option α) : List ι → α → Option α
  | [], a => some a
  | i :: is, a => (step i a).bind (runAll step is)

theorem runAll_append (step : ι → α → Option α) (is js : List ι) (a : α) :
    runAll step (is ++ js) a = (runAll step is a).bind (runAll step js) := by
  induction is generalizing a with
  | nil => rfl
  | cons i is ih =>
    rw [List.cons_append, runAll, runAll, Option.bind_assoc]
    exact congrArg _ (funext ih)

/-- Related machines stop together or stay related. -/
theorem runAll_rel {R : α → β → Prop}
    (h : ∀ i a b, R a b → Option.Rel R (step i a) (step' i b)) {a : α} {b : β}
    (hab : R a b) (is : List ι) : Option.Rel R (runAll step is a) (runAll step' is b) := by
  induction is generalizing a b with
  | nil => exact .some hab
  | cons i is ih =>
    have hstep := h i a b hab
    rw [runAll, runAll]
    generalize step i a = next at hstep ⊢
    generalize step' i b = next' at hstep ⊢
    cases hstep with
    | none => exact .none
    | some hab' => exact ih hab'

theorem stopped {R : α → β → Prop} {x : Option α} (h : Option.Rel R x none) : x = none := by
  cases h
  rfl

theorem going {R : α → β → Prop} {x : Option α} {b : β} (h : Option.Rel R x (some b)) :
    ∃ a, x = some a ∧ R a b := by
  cases h with
  | some hab => exact ⟨_, rfl, hab⟩

end

end SimpleOs.Lib.Refinement
