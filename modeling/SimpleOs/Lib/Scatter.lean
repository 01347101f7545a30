import SimpleOs.Lib.ByteMemory

/-!
# Bytes written one after the other

A loop that stores one byte a round leaves memory with its values at the places it
wrote, if these are different, and as it was elsewhere.
-/

namespace SimpleOs.Lib.Scatter

open SimpleOs.Lib.ByteMemory

/-- Memory after `v 0, …, v (n-1)` are written at `f 0, …, f (n-1)`. -/
def scatter (m : Memory) (f : Nat → Addr) (v : Nat → Byte) : Nat → Memory
  | 0 => m
  | n + 1 => write8 (scatter m f v n) (f n) (v n)

section

variable {m : Memory} {f : Nat → Addr} {v : Nat → Byte} {n : Nat}

theorem scatter_of_ne {x : Addr} (h : ∀ k < n, x ≠ f k) : scatter m f v n x = m x := by
  induction n with
  | zero => rfl
  | succ n ih =>
    rw [scatter, write8_of_ne _ _ (h n (Nat.lt_succ_self n))]
    exact ih fun k hk => h k (Nat.lt_succ_of_lt hk)

/-- Places that are all different keep their values. -/
theorem scatter_at (hinj : ∀ j < n, ∀ k < n, f j = f k → j = k) {k : Nat} (hk : k < n) :
    scatter m f v n (f k) = v k := by
  induction n with
  | zero => exact absurd hk (Nat.not_lt_zero k)
  | succ n ih =>
    rcases Nat.lt_or_eq_of_le (Nat.le_of_lt_succ hk) with hlt | rfl
    · have hne : f k ≠ f n := fun he => hlt.ne (hinj k hk n (Nat.lt_succ_self n) he)
      rw [scatter, write8_of_ne _ _ hne]
      exact ih (fun i hi j hj => hinj i (Nat.lt_succ_of_lt hi) j (Nat.lt_succ_of_lt hj)) hlt
    · exact write8_same ..

end

end SimpleOs.Lib.Scatter
