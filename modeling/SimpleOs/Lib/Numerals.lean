import Mathlib.Data.Nat.Digits.Lemmas

/-!
# Numerals

The digits of a number with one digit for zero, written as characters and read back. The
characters are those of any alphabet that has one for each digit.
-/

namespace SimpleOs.Lib.Numerals

section

variable {radix n : Nat}

/-- The digits of `n`, the last one first; zero has one. -/
def digits (radix n : Nat) : List Nat := if n = 0 then [0] else Nat.digits radix n

theorem digits_of_lt (hn : n < radix) : digits radix n = [n] := by
  rw [digits]
  split_ifs with hzero
  · rw [hzero]
  · exact Nat.digits_of_lt radix n hzero hn

theorem digits_step (hradix : 1 < radix) (hn : radix ≤ n) :
    digits radix n = n % radix :: digits radix (n / radix) := by
  have hquot : n / radix ≠ 0 := (Nat.div_pos hn (by omega)).ne'
  rw [digits, digits, if_neg (by omega), if_neg hquot, Nat.digits_def' hradix (by omega)]

theorem digits_ne_nil : digits radix n ≠ [] := by
  rw [digits]
  split_ifs with hzero
  · exact List.cons_ne_nil _ _
  · exact Nat.digits_ne_nil_iff_ne_zero.mpr hzero

theorem digits_lt (hradix : 1 < radix) {d : Nat} (hd : d ∈ digits radix n) : d < radix := by
  rw [digits] at hd
  split_ifs at hd with hzero
  · rw [List.mem_singleton] at hd
    omega
  · exact Nat.digits_lt_base hradix hd

theorem ofDigits_digits (radix n : Nat) : Nat.ofDigits radix (digits radix n) = n := by
  rw [digits]
  split_ifs with hzero
  · rw [hzero, Nat.ofDigits_singleton]
  · exact Nat.ofDigits_digits radix n

theorem digits_length_le (hradix : 1 < radix) {k : Nat} (hk : 0 < k) (hn : n < radix ^ k) :
    (digits radix n).length ≤ k := by
  rw [digits]
  split_ifs
  · exact hk
  · exact (Nat.digits_length_le_iff hradix n).mpr hn

/-- Only zero has a leading zero. -/
theorem eq_zero_of_leading (hlead : (digits radix n).reverse.head? = some 0) : n = 0 := by
  by_contra hn
  rw [List.head?_reverse, digits, if_neg hn,
    List.getLast?_eq_getLast_of_ne_nil (Nat.digits_ne_nil_iff_ne_zero.mpr hn)] at hlead
  exact Nat.getLast_digit_ne_zero radix hn (Option.some.inj hlead)

end

section

variable {α : Type} {radix : Nat}

/-- The number a text spells, unless a character is no digit. -/
def readFrom (value : α → Option Nat) (radix : Nat) : Nat → List α → Option Nat
  | acc, [] => some acc
  | acc, c :: text =>
    match value c with
    | none => none
    | some d => readFrom value radix (acc * radix + d) text

variable {value : α → Option Nat} {char : Nat → α}

theorem readFrom_map (hchar : ∀ d < radix, value (char d) = some d) {l : List Nat}
    (hl : ∀ d ∈ l, d < radix) (acc : Nat) :
    readFrom value radix acc (l.map char) = some (l.foldl (fun acc d => acc * radix + d) acc) := by
  induction l generalizing acc with
  | nil => rfl
  | cons d l ih =>
    rw [List.map_cons, readFrom, hchar d (hl d List.mem_cons_self)]
    exact ih (fun d' hd' => hl d' (List.mem_cons_of_mem _ hd')) _

/-- A numeral is read back as the number it was made of. -/
theorem readFrom_digits (hradix : 1 < radix) (hchar : ∀ d < radix, value (char d) = some d)
    (n : Nat) : readFrom value radix 0 ((digits radix n).reverse.map char) = some n := by
  have hl : ∀ d ∈ (digits radix n).reverse, d < radix := fun d hd =>
    digits_lt hradix (List.mem_reverse.mp hd)
  have hfold : (fun d acc => acc * radix + d) = fun (d acc : Nat) => d + radix * acc := by
    funext d acc
    rw [Nat.mul_comm, Nat.add_comm]
  have hvalue := ofDigits_digits radix n
  rw [Nat.ofDigits_eq_foldr] at hvalue
  rw [readFrom_map hchar hl, List.foldl_reverse, hfold]
  exact congrArg some hvalue

end

end SimpleOs.Lib.Numerals
