import Mathlib.Data.List.GetD
import Mathlib.Logic.Function.Basic

/-!
# Lists in arrays

An array seen by its indices, with the elements of a list from one index on.
-/

namespace SimpleOs.Lib.Splice

variable {α : Type} {buf : Nat → α} {p : Nat} {l : List α}

def splice (buf : Nat → α) (p : Nat) (l : List α) : Nat → α := fun i =>
  if i < p then buf i else l.getD (i - p) (buf i)

theorem splice_getElem {i : Nat} (hi : i < l.length) : splice buf p l (p + i) = l[i] := by
  rw [splice, if_neg (by omega), Nat.add_sub_cancel_left, List.getD_eq_getElem _ _ hi]

theorem splice_before {i : Nat} (hi : i < p) : splice buf p l i = buf i := if_pos hi

theorem splice_behind {i : Nat} (hi : p + l.length ≤ i) : splice buf p l i = buf i := by
  rw [splice, if_neg (by omega), List.getD_eq_default _ _ (by omega)]

@[simp] theorem splice_nil (buf : Nat → α) (p : Nat) : splice buf p [] = buf := by
  funext i
  rw [splice, List.getD_nil, ite_self]

/-- An array with these elements, and the old ones elsewhere. -/
theorem eq_splice {buf' : Nat → α} (hin : ∀ i (h : i < l.length), buf' (p + i) = l[i])
    (hbefore : ∀ i < p, buf' i = buf i) (hbehind : ∀ i, p + l.length ≤ i → buf' i = buf i) :
    buf' = splice buf p l := by
  funext i
  by_cases hlow : i < p
  · rw [splice_before hlow, hbefore i hlow]
  · by_cases hhigh : p + l.length ≤ i
    · rw [splice_behind hhigh, hbehind i hhigh]
    · obtain ⟨k, rfl⟩ := Nat.exists_eq_add_of_le (Nat.not_lt.mp hlow)
      have hk : k < l.length := by omega
      rw [splice_getElem hk, hin k hk]

theorem splice_cons (buf : Nat → α) (p : Nat) (c : α) (l : List α) :
    splice (Function.update buf p c) (p + 1) l = splice buf p (c :: l) := by
  refine eq_splice (fun i hi => ?_) (fun i hi => ?_) fun i hi => ?_
  · cases i with
    | zero => rw [splice_before (by omega), Nat.add_zero,
      Function.update_self, List.getElem_cons_zero]
    | succ i =>
      have hi' : i < l.length := by
        rw [List.length_cons] at hi
        omega
      rw [show p + (i + 1) = p + 1 + i by omega, splice_getElem hi', List.getElem_cons_succ]
  · rw [splice_before (by omega), Function.update_of_ne (by omega)]
  · rw [List.length_cons] at hi
    rw [splice_behind (by omega), Function.update_of_ne (by omega)]

theorem splice_append (buf : Nat → α) (p : Nat) (l l' : List α) :
    splice (splice buf p l) (p + l.length) l' = splice buf p (l ++ l') := by
  induction l generalizing buf p with
  | nil => rw [splice_nil, List.length_nil, Nat.add_zero, List.nil_append]
  | cons c l ih =>
    rw [← splice_cons, List.length_cons, show p + (l.length + 1) = p + 1 + l.length by omega, ih,
      splice_cons, List.cons_append]

theorem splice_singleton (buf : Nat → α) (p : Nat) (c : α) :
    Function.update buf p c = splice buf p [c] := by
  rw [← splice_cons, splice_nil]

end SimpleOs.Lib.Splice
