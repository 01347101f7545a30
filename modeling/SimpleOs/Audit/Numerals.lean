import SimpleOs.Kernel.Common
import SimpleOs.Lib.Numerals
import SimpleOs.Lib.Splice

/-!
# `itoa`

The digits come out last first and are turned round in place, without the sign in front
of them. What stands in the buffer then is the numeral of the argument and a NUL.
-/

namespace SimpleOs.Audit.Numerals

open SimpleOs.Kernel SimpleOs.Lib.ByteMemory SimpleOs.Lib.Numerals SimpleOs.Lib.Splice

/-- The characters from index `lo` to index `hi` are turned round. -/
theorem swapEnds_apply (buf : Nat → Byte) (lo hi i : Nat) :
    swapEnds buf lo hi i = if lo ≤ i ∧ i ≤ hi then buf (lo + hi - i) else buf i := by
  induction buf, lo, hi using swapEnds.induct with
  | case1 buf lo hi hlt ih =>
    rw [swapEnds, if_pos hlt, ih]
    by_cases hin : lo + 1 ≤ i ∧ i ≤ hi - 1
    · have hother : lo + 1 + (hi - 1) - i = lo + hi - i := by omega
      rw [if_pos hin, if_pos (by omega), hother, Function.update_of_ne (by omega),
        Function.update_of_ne (by omega)]
    · rw [if_neg hin]
      by_cases hhi : i = hi
      · rw [hhi, Function.update_self, if_pos (by omega), Nat.add_sub_cancel]
      · rw [Function.update_of_ne hhi]
        by_cases hlo : i = lo
        · rw [hlo, Function.update_self, if_pos (by omega), Nat.add_sub_cancel_left]
        · rw [Function.update_of_ne hlo, if_neg (by omega)]
  | case2 buf lo hi hge =>
    rw [swapEnds, if_neg hge]
    split_ifs with hin
    · rw [show lo + hi - i = i by omega]
    · rfl

/-- A text in front of its terminator is turned round. -/
theorem swapEnds_splice (buf : Nat → Byte) (p : Nat) {l : List Byte} (hl : l ≠ []) (c : Byte) :
    swapEnds (splice buf p (l ++ [c])) p (p + l.length - 1) = splice buf p (l.reverse ++ [c]) := by
  have hpos := List.length_pos_iff.mpr hl
  refine eq_splice (fun i hi => ?_) (fun i hi => ?_) fun i hi => ?_
  · rw [List.length_append, List.length_reverse, List.length_singleton] at hi
    rw [swapEnds_apply]
    by_cases hin : i < l.length
    · have hback : p + (p + l.length - 1) - (p + i) = p + (l.length - 1 - i) := by omega
      rw [if_pos (by omega), hback, splice_getElem (by rw [List.length_append]; omega),
        List.getElem_append_left (by omega),
          List.getElem_append_left (by rwa [List.length_reverse]),
        List.getElem_reverse]
    · obtain rfl : i = l.length := by omega
      rw [if_neg (by omega), splice_getElem
        (by rw [List.length_append, List.length_singleton]; omega),
        List.getElem_append_right le_rfl, List.getElem_append_right (by rw [List.length_reverse])]
      simp
  · rw [swapEnds_apply, if_neg (by omega), splice_before hi]
  · rw [List.length_append, List.length_reverse, List.length_singleton] at hi
    rw [swapEnds_apply, if_neg (by omega),
      splice_behind (by rw [List.length_append, List.length_singleton]; omega)]

/-- The character of a digit. -/
def digitByte (d : Nat) : Byte := digitChar (BitVec.ofNat 32 d)

theorem itoaDigits_eq (divisor : Divisor) (buf : Nat → Byte) (p : Nat) (ud : U32int) :
    itoaDigits divisor buf p ud =
      (splice buf p ((digits divisor.1.toNat ud.toNat).map digitByte),
        p + (digits divisor.1.toNat ud.toNat).length) := by
  have hdivisor : 1 < divisor.1.toNat := divisor.2
  induction buf, p, ud using itoaDigits.induct divisor with
  | case1 buf p ud hquot =>
    have hlt : ud.toNat < divisor.1.toNat := by
      have hzero := congrArg BitVec.toNat hquot
      rw [BitVec.toNat_udiv] at hzero
      exact (Nat.div_eq_zero_iff_lt (by omega)).mp hzero
    have hsame : ud % divisor.1 = BitVec.ofNat 32 ud.toNat := by
      apply BitVec.eq_of_toNat_eq
      rw [BitVec.toNat_umod, BitVec.toNat_ofNat, Nat.mod_eq_of_lt hlt, Nat.mod_eq_of_lt ud.isLt]
    rw [itoaDigits, dif_pos hquot, digits_of_lt hlt, hsame, splice_singleton]
    rfl
  | case2 buf p ud buf' hquot ih =>
    have hle : divisor.1.toNat ≤ ud.toNat := by
      by_contra hlt
      apply hquot
      apply BitVec.eq_of_toNat_eq
      rw [BitVec.toNat_udiv, Nat.div_eq_of_lt (Nat.not_le.mp hlt)]
      rfl
    have hsame : ud % divisor.1 = BitVec.ofNat 32 (ud.toNat % divisor.1.toNat) := by
      rw [← BitVec.toNat_umod, BitVec.ofNat_toNat, BitVec.setWidth_eq]
    rw [itoaDigits, dif_neg hquot, ih, BitVec.toNat_udiv, digits_step hdivisor hle, List.map_cons,
      ← splice_cons, List.length_cons, digitByte, ← hsame, Nat.add_assoc, Nat.add_comm 1]

/-- The conversions `itoa` is called for. -/
inductive Base where
  | d
  | u
  | x
deriving DecidableEq

namespace Base

def char : Base → Byte
  | d => dChar
  | u => uChar
  | x => xChar

def radix : Base → Nat
  | d | u => 10
  | x => 16

/-- What the argument means. -/
def meaning (b : Base) (n : U32int) : Int := if b = d then n.toInt else n.toNat

/-- The value of a digit of the base. -/
def value (b : Base) (c : Byte) : Option Nat :=
  if 0x30 ≤ c ∧ c ≤ 0x39 then some (c.toNat - 0x30)
  else if b = x ∧ 0x61 ≤ c ∧ c ≤ 0x66 then some (c.toNat - 0x61 + 10)
  else none

theorem one_lt_radix (b : Base) : 1 < b.radix := by cases b <;> decide

theorem value_digitByte (b : Base) : ∀ k < b.radix, b.value (digitByte k) = some k := by
  cases b <;> decide

end Base

/-- The part of a numeral behind its sign. -/
def body (text : List Byte) : List Byte := if text.head? = some 0x2D then text.tail else text

/-- Digits of the base only, no leading zero but that of zero, and a sign exactly for a
negative `d`. -/
structure Canonical (b : Base) (n : U32int) (text : List Byte) : Prop where
  sign : text.head? = some 0x2D ↔ b.meaning n < 0
  nonempty : body text ≠ []
  digits : ∀ c ∈ body text, (b.value c).isSome
  leading : (body text).head? = some 0x30 → body text = [0x30]

/-- A numeral as a reader of the base takes it. -/
def readBack (b : Base) (text : List Byte) : Option Int :=
  (readFrom b.value b.radix 0 (body text)).map fun k : Nat =>
    if text.head? = some 0x2D then -(k : Int) else (k : Int)

/-- The distance from zero. -/
def magnitude (b : Base) (n : U32int) : U32int := if b.meaning n < 0 then -n else n

def digitText (b : Base) (n : U32int) : List Byte :=
  (digits b.radix (magnitude b n).toNat).reverse.map digitByte

def numeral (b : Base) (n : U32int) : List Byte :=
  if b.meaning n < 0 then 0x2D :: digitText b n else digitText b n

section

variable (b : Base) (n : U32int)

theorem digitText_ne_nil : digitText b n ≠ [] := by
  rw [digitText, ne_eq, List.map_eq_nil_iff, List.reverse_eq_nil_iff]
  exact digits_ne_nil

theorem meaning_neg_iff : b.meaning n < 0 ↔ b = .d ∧ n.toInt < 0 := by
  rw [Base.meaning]
  split_ifs with hb
  · exact ⟨fun h => ⟨hb, h⟩, fun h => h.2⟩
  · exact iff_of_false (by omega) fun h => hb h.1

theorem char_eq_iff (b b' : Base) : b.char.signExtend 32 = b'.char.signExtend 32 ↔ b = b' := by
  cases b <;> cases b' <;> decide

/-- The digits with their NUL, from index `p` on. -/
theorem swapped_digits (divisor : Divisor) (buf : Nat → Byte) (p : Nat) (ud : U32int) :
    swapEnds (Function.update (itoaDigits divisor buf p ud).1 (itoaDigits divisor buf p ud).2 0) p
        ((itoaDigits divisor buf p ud).2 - 1) =
      splice buf p ((digits divisor.1.toNat ud.toNat).reverse.map digitByte ++ [0]) := by
  have hne : (digits divisor.1.toNat ud.toNat).map digitByte ≠ [] := fun h =>
    digits_ne_nil (List.map_eq_nil_iff.mp h)
  have hswap := swapEnds_splice buf p hne 0
  rw [List.length_map, ← List.map_reverse, ← splice_append,
    ← splice_singleton, List.length_map] at hswap
  rw [itoaDigits_eq]
  exact hswap

theorem itoa_eq (buf : Nat → Byte) :
    itoa buf (b.char.signExtend 32) n = splice buf 0 (numeral b n ++ [0]) := by
  have hd : (b.char.signExtend 32 = dChar.signExtend 32 ∧ n.toInt < 0) ↔ b.meaning n < 0 := by
    rw [meaning_neg_iff, ← char_eq_iff b .d]
    rfl
  have hx : b.char.signExtend 32 = xChar.signExtend 32 ↔ b = .x := char_eq_iff b .x
  rw [itoa]
  simp only [hd, hx]
  by_cases hneg : b.meaning n < 0
  · have hb := ((meaning_neg_iff b n).mp hneg).1
    subst hb
    simp only [hneg, if_true, not_true, false_and, if_false]
    rw [swapped_digits, numeral, if_pos hneg, List.cons_append, ← splice_cons,
      digitText, magnitude, if_pos hneg]
    rfl
  · simp only [hneg, if_false, not_false_eq_true, true_and]
    rw [swapped_digits, numeral, if_neg hneg, digitText, magnitude, if_neg hneg]
    cases b <;> rfl

theorem value_sign : b.value 0x2D = none := by cases b <;> decide

theorem digitText_value {c : Byte} (hc : c ∈ digitText b n) :
    ∃ k < b.radix, c = digitByte k ∧ b.value c = some k := by
  obtain ⟨k, hk, rfl⟩ := List.mem_map.mp hc
  have hlt := digits_lt b.one_lt_radix (List.mem_reverse.mp hk)
  exact ⟨k, hlt, rfl, b.value_digitByte k hlt⟩

/-- A digit is no sign. -/
theorem digitText_head : (digitText b n).head? ≠ some 0x2D := by
  intro hhead
  obtain ⟨k, -, -, hvalue⟩ := digitText_value b n (List.mem_of_mem_head? hhead)
  rw [value_sign] at hvalue
  cases hvalue

theorem numeral_head : (numeral b n).head? = some 0x2D ↔ b.meaning n < 0 := by
  rw [numeral]
  split_ifs with hneg
  · exact iff_of_true rfl hneg
  · exact iff_of_false (digitText_head b n) hneg

theorem body_numeral : body (numeral b n) = digitText b n := by
  rw [body, numeral]
  split_ifs with hneg hhead hhead
  · rfl
  · exact absurd rfl hhead
  · exact absurd hhead (digitText_head b n)
  · rfl

/-- Only zero is spelled with a leading zero, and by it alone. -/
theorem digitText_leading (hlead : (digitText b n).head? = some 0x30) : digitText b n = [0x30] := by
  rw [digitText, List.head?_map, Option.map_eq_some_iff] at hlead
  obtain ⟨k, hhead, hk⟩ := hlead
  have hmem := List.mem_reverse.mp (List.mem_of_mem_head? hhead)
  have hvalue := b.value_digitByte k (digits_lt b.one_lt_radix hmem)
  have hzero : b.value 0x30 = some 0 := by cases b <;> decide
  rw [hk, hzero] at hvalue
  cases hvalue
  have hmagnitude := eq_zero_of_leading hhead
  rw [digitText, hmagnitude]
  rfl

theorem numeral_canonical : Canonical b n (numeral b n) where
  sign := numeral_head b n
  nonempty := by
    rw [body_numeral]
    exact digitText_ne_nil b n
  digits := by
    intro c hc
    rw [body_numeral] at hc
    obtain ⟨k, -, -, hvalue⟩ := digitText_value b n hc
    rw [hvalue]
    rfl
  leading := by
    rw [body_numeral]
    exact digitText_leading b n

/-- The negation of the most negative integer is itself, and its distance from zero. -/
theorem magnitude_toNat : ((magnitude b n).toNat : Int) = if b.meaning n <
    0 then -b.meaning n else b.meaning n := by
  have hlt := n.isLt
  have hneg := meaning_neg_iff b n
  have hsigned := BitVec.toInt_eq_toNat_cond n
  rw [magnitude]
  split_ifs with h
  · obtain ⟨hb, hn⟩ := hneg.mp h
    rw [Base.meaning, if_pos hb, BitVec.toNat_neg, hsigned]
    rw [hsigned] at hn
    split_ifs at hn ⊢ <;> omega
  · rw [Base.meaning] at h ⊢
    split_ifs at h ⊢ with hb
    · rw [hsigned] at h ⊢
      split_ifs at h ⊢ <;> omega
    · rfl

theorem readBack_numeral : readBack b (numeral b n) = some (b.meaning n) := by
  have hmagnitude := magnitude_toNat b n
  rw [readBack, body_numeral, digitText, readFrom_digits b.one_lt_radix b.value_digitByte,
    Option.map_some, hmagnitude]
  simp only [numeral_head]
  split_ifs with hneg
  · rw [neg_neg]
  · rfl

theorem numeral_length : (numeral b n).length + 1 ≤ 12 := by
  have hlt : (magnitude b n).toNat < b.radix ^ 10 := by
    have hword := (magnitude b n).isLt
    have hradix : 2^32 < b.radix ^ 10 := by cases b <;> decide
    omega
  have hdigits : (digitText b n).length ≤ 10 := by
    rw [digitText, List.length_map, List.length_reverse]
    exact digits_length_le b.one_lt_radix (by decide) hlt
  rw [numeral]
  split_ifs
  · rw [List.length_cons]
    omega
  · omega

/-- For every argument `itoa` writes a canonical numeral and its NUL, at most twelve bytes
in all, and the numeral reads back as the argument. -/
theorem itoa_numeral (buf : Nat → Byte) : ∃ text : List Byte,
    (∀ i (h : i < text.length), itoa buf (b.char.signExtend 32) n i = text[i]) ∧
      itoa buf (b.char.signExtend 32) n text.length = 0 ∧
      (∀ i, text.length < i → itoa buf (b.char.signExtend 32) n i = buf i) ∧
      text.length + 1 ≤ 12 ∧ Canonical b n text ∧ readBack b text = some (b.meaning n) := by
  have hlen : (numeral b n ++ [0]).length = (numeral b n).length + 1 := List.length_append
  rw [itoa_eq]
  refine ⟨numeral b n, fun i hi => ?_, ?_, fun i hi => ?_, numeral_length b n,
    numeral_canonical b n, readBack_numeral b n⟩
  · have hin : splice buf 0 (numeral b n ++ [0]) (0 + i) = _ := splice_getElem (by omega)
    rwa [Nat.zero_add, List.getElem_append_left hi] at hin
  · have hin : splice buf 0 (numeral b n ++ [0]) (0 + (numeral b n).length) = _ :=
      splice_getElem (by omega)
    rw [Nat.zero_add, List.getElem_append_right le_rfl, List.getElem_singleton] at hin
    exact hin
  · exact splice_behind (by omega)

example : numeral .d 0x80000000 = bytesOf "-2147483648" := by decide

end

end SimpleOs.Audit.Numerals
