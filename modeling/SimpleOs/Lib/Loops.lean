import Mathlib.Data.BitVec
import Mathlib.Data.List.Basic
import Mathlib.Tactic.Ring

/-!
# Counting loops over a machine word

`for (i = start; cond i; i += step) body` with the index modulo `2^w`. After
`2^w` rounds the index repeats, so a loop that is still running then never ends.
-/

namespace SimpleOs.Lib.Loops

variable {σ ε : Type} {w : Nat}

/-- `fuel` bounds the rounds; running out of it is `diverged`. -/
def forLoop (diverged : ε) (cond : BitVec w → Bool) (step : BitVec w)
    (body : BitVec w → σ → Except ε σ) : Nat → BitVec w → σ → Except ε σ
  | 0, _, _ => .error diverged
  | fuel + 1, i, s =>
    if cond i then do
      let s ← body i s
      forLoop diverged cond step body fuel (i + step) s
    else .ok s

/-- The values the index takes inside the body. -/
def indices (cond : BitVec w → Bool) (step : BitVec w) : Nat → BitVec w → List (BitVec w)
  | 0, _ => []
  | fuel + 1, i => if cond i then i :: indices cond step fuel (i + step) else []

variable {cond : BitVec w → Bool} {step : BitVec w}

/-- A loop that ends is a fold over its index values. -/
theorem forLoop_eq_foldlM (diverged : ε) (body : BitVec w → σ → Except ε σ) {fuel : Nat} :
    ∀ {i : BitVec w}, (indices cond step fuel i).length < fuel → ∀ s,
      forLoop diverged cond step body fuel i s =
        (indices cond step fuel i).foldlM (fun s i => body i s) s := by
  induction fuel with
  | zero => intro i h; omega
  | succ fuel ih =>
    intro i h s
    simp only [indices] at h
    simp only [forLoop, indices]
    split_ifs at h ⊢ with hc
    · simp only [List.length_cons] at h
      rw [List.foldlM_cons]
      congr 1
      funext s'
      exact ih (by omega) s'
    · rfl

/-- When the condition first fails in round `n`, the index has taken `n` values. -/
theorem indices_eq {n : Nat} : ∀ {fuel : Nat} {i : BitVec w}, n < fuel →
    (∀ k < n, cond (i + BitVec.ofNat w k * step) = true) →
    cond (i + BitVec.ofNat w n * step) = false →
    indices cond step fuel i = (List.range n).map fun k => i + BitVec.ofNat w k * step := by
  induction n with
  | zero =>
    intro fuel i hfuel _ he
    obtain ⟨fuel, rfl⟩ := Nat.exists_eq_succ_of_ne_zero (by omega : fuel ≠ 0)
    have he' : cond i = false := by simpa using he
    simp [indices, he']
  | succ n ih =>
    intro fuel i hfuel hc he
    obtain ⟨fuel, rfl⟩ := Nat.exists_eq_succ_of_ne_zero (by omega : fuel ≠ 0)
    have h0 : cond i = true := by simpa using hc 0 (by omega)
    have hshift : ∀ k : Nat, i + step + BitVec.ofNat w k * step =
        i + BitVec.ofNat w (k+1) * step := by
      intro k
      rw [BitVec.ofNat_add, show BitVec.ofNat w 1 = 1 from rfl]
      ring
    have hrest := ih (by omega : n < fuel)
      (fun k hk => by rw [hshift]; exact hc (k+1) (by omega)) (by rw [hshift]; exact he)
    simp only [indices, h0, if_true, hrest, List.range_succ_eq_map, List.map_cons, List.map_map,
      hshift, Function.comp_def, Nat.succ_eq_add_one]
    simp

/-- A loop whose condition first fails in round `n` is a fold over its rounds. -/
theorem forLoop_eq_range (diverged : ε) (body : BitVec w → σ → Except ε σ) {fuel n : Nat}
    {i : BitVec w} (hn : n < fuel) (hc : ∀ k < n, cond (i + BitVec.ofNat w k * step) = true)
    (he : cond (i + BitVec.ofNat w n * step) = false) (s : σ) :
    forLoop diverged cond step body fuel i s =
      (List.range n).foldlM (fun s k => body (i + BitVec.ofNat w k * step) s) s := by
  have hindices := indices_eq hn hc he
  rw [forLoop_eq_foldlM diverged body
    (by rw [hindices, List.length_map, List.length_range]; exact hn), hindices, List.foldlM_map]

theorem foldlM_range_succ (f : σ → Nat → Except ε σ) (n : Nat) (s : σ) :
    (List.range (n+1)).foldlM f s = (List.range n).foldlM f s >>= fun s' => f s' n := by
  rw [List.range_succ, List.foldlM_append]
  congr 1
  funext s'
  rw [List.foldlM_cons]
  cases f s' n <;> rfl

/-- Rounds that all come back make a loop that comes back. -/
theorem foldlM_range_ok {P : Nat → σ → Prop} {f : σ → Nat → Except ε σ} {n : Nat}
    (hstep : ∀ k < n, ∀ s, P k s → ∃ s', f s k = .ok s' ∧ P (k+1) s') {s : σ} (h0 : P 0 s) :
    ∃ s', (List.range n).foldlM f s = .ok s' ∧ P n s' := by
  induction n with
  | zero => exact ⟨s, rfl, h0⟩
  | succ n ih =>
    obtain ⟨t, ht, hp⟩ := ih fun k hk => hstep k (by omega)
    obtain ⟨s', hs', hp'⟩ := hstep n (by omega) t hp
    exact ⟨s', by rw [foldlM_range_succ, ht]; exact hs', hp'⟩

/-- What every round that comes back keeps, a loop that comes back keeps. -/
theorem foldlM_range_keeps {P : Nat → σ → Prop} {f : σ → Nat → Except ε σ} {n : Nat}
    (hstep : ∀ k < n, ∀ s s', P k s → f s k = .ok s' → P (k+1) s') {s s' : σ} (h0 : P 0 s)
    (h : (List.range n).foldlM f s = .ok s') : P n s' := by
  induction n generalizing s' with
  | zero =>
    cases h
    exact h0
  | succ n ih =>
    rw [foldlM_range_succ] at h
    cases ht : (List.range n).foldlM f s with
    | error e =>
      rw [ht] at h
      cases h
    | ok t =>
      rw [ht] at h
      exact hstep n (by omega) t s' (ih (fun k hk => hstep k (by omega)) ht) h

end SimpleOs.Lib.Loops
