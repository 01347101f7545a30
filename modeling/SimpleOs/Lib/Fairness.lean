import Mathlib.Data.Nat.Init
import Mathlib.Order.Nat

/-!
# Progress under a fair schedule

A rank that no step raises and that the helpful steps lower: if helpful steps keep
coming, the goal is reached.
-/

namespace SimpleOs.Lib.Fairness

variable {helpful : Nat → Prop}

theorem rank_le {rank : Nat → Nat} {goal : Nat → Prop} (keeps : ∀ n, ¬ goal n → rank (n+1) ≤ rank n)
    {n m : Nat} (hle : n ≤ m) (hnot : ∀ k, n ≤ k → ¬ goal k) : rank m ≤ rank n := by
  induction m, hle using Nat.le_induction with
  | base => exact le_rfl
  | succ m hle ih => exact (keeps m (hnot m hle)).trans ih

theorem eventually_goal (rank : Nat → Nat) (goal : Nat → Prop) (fair : ∀ n, ∃ m, n ≤ m ∧ helpful m)
    (keeps : ∀ n, ¬ goal n → rank (n+1) ≤ rank n)
    (lowers : ∀ n, helpful n → ¬ goal n → rank (n+1) < rank n) (n : Nat) : ∃ m, n ≤ m ∧ goal m := by
  by_contra hnone
  have hnot : ∀ k, n ≤ k → ¬ goal k := fun k hk hg => hnone ⟨k, hk, hg⟩
  -- from any later moment the rank would fall for ever
  have hfalls : ∀ r k, n ≤ k → rank k = r → False := by
    intro r
    induction r using Nat.strongRecOn with
    | ind r ih =>
      intro k hk hr
      obtain ⟨m, hm, hhelps⟩ := fair k
      have hle := rank_le keeps hm fun j hj => hnot j (hk.trans hj)
      have hlt := lowers m hhelps (hnot m (hk.trans hm))
      exact ih (rank (m+1)) (hr ▸ hlt.trans_le hle) (m+1) (by omega) rfl
  exact hfalls (rank n) n (Nat.le_refl n) rfl

end SimpleOs.Lib.Fairness
