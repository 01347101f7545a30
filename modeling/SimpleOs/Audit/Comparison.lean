import SimpleOs.Kernel.Common
import SimpleOs.Lib.CStrings

/-!
# `memcmp` and `strcmp`

`memcmp` compares a byte before it looks at the count, so it reads one byte too far exactly
when the buffers are equal. `strcmp` subtracts signed characters, so the two order strings
alike exactly if the first bytes that differ lie in the same half of the byte values.
-/

namespace SimpleOs.Audit.Comparison

open SimpleOs.Kernel SimpleOs.Lib.ByteMemory SimpleOs.Lib.CStrings

section

variable {m : Memory} {s1 s2 : U32int}

/-- The buffers agree at index `i`. -/
def SameAt (m : Memory) (s1 s2 : U32int) (i : Nat) : Prop :=
  m (s1 + BitVec.ofNat 32 i) = m (s2 + BitVec.ofNat 32 i)

/-- The difference of the bytes at index `i`, as unsigned. -/
def byteDifference (m : Memory) (s1 s2 : U32int) (i : Nat) : Int :=
  (m (s1 + BitVec.ofNat 32 i)).toNat - (m (s2 + BitVec.ofNat 32 i)).toNat

theorem byteDifference_eq_zero {i : Nat} : byteDifference m s1 s2 i = 0 ↔ SameAt m s1 s2 i := by
  rw [byteDifference, SameAt, ← BitVec.toNat_inj]
  omega

theorem memcmpFrom_same {i n : Nat} (h : ∀ j, i ≤ j → j < i + n → SameAt m s1 s2 j) :
    memcmpFrom m s1 s2 i n = ⟨0, List.range' i (n + 1)⟩ := by
  induction n generalizing i with
  | zero => rfl
  | succ n ih =>
    have hrest := ih (i := i + 1) fun j hj hlt => h j (by omega) (by omega)
    have hsame : m (s1 + BitVec.ofNat 32 i) = m (s2 + BitVec.ofNat 32 i) := h i le_rfl (by omega)
    rw [memcmpFrom]
    simp only [hsame, if_true, hrest]
    rw [← List.range'_succ]

/-- The bytes are read again at the first difference. -/
theorem memcmpFrom_differ {i n k : Nat} (hk : i + k < i + n)
    (hbefore : ∀ j, i ≤ j → j < i + k → SameAt m s1 s2 j) (hdiffer : ¬ SameAt m s1 s2 (i + k)) :
    memcmpFrom m s1 s2 i n = ⟨byteDifference m s1 s2 (i + k),
    List.range' i (k + 1) ++ [i + k]⟩ := by
  induction k generalizing i n with
  | zero =>
    obtain ⟨n, rfl⟩ := Nat.exists_eq_succ_of_ne_zero (by omega : n ≠ 0)
    have hne : m (s1 + BitVec.ofNat 32 i) ≠ m (s2 + BitVec.ofNat 32 i) := hdiffer
    rw [memcmpFrom]
    simp only [hne, if_false]
    rfl
  | succ k ih =>
    obtain ⟨n, rfl⟩ := Nat.exists_eq_succ_of_ne_zero (by omega : n ≠ 0)
    have hshift : i + 1 + k = i + (k + 1) := by omega
    have hrest := ih (i := i + 1) (n := n) (by omega)
      (fun j hj hlt => hbefore j (by omega) (by omega)) (by rwa [hshift])
    have hsame : m (s1 + BitVec.ofNat 32 i) = m (s2 + BitVec.ofNat 32 i) :=
      hbefore i le_rfl (by omega)
    rw [memcmpFrom]
    simp only [hsame, if_true, hrest, hshift]
    rw [List.range'_succ (s := i), List.cons_append]

end

/-- Only the buffers are read, and the result is zero if they are equal and has the sign of
the first difference otherwise. -/
structure Exact (m : Memory) (s1 s2 n : U32int) : Prop where
  inside : ∀ i ∈ (memcmp m s1 s2 n).reads, i < n.toNat
  zero : (memcmp m s1 s2 n).value = 0 ↔ ∀ i < n.toNat, SameAt m s1 s2 i
  sign : ∀ k < n.toNat, (∀ j < k, SameAt m s1 s2 j) → ¬ SameAt m s1 s2 k →
    (memcmp m s1 s2 n).value.sign = (byteDifference m s1 s2 k).sign

section

variable {m : Memory} {s1 s2 n : U32int}

theorem memcmp_same (h : ∀ i < n.toNat, SameAt m s1 s2 i) :
    memcmp m s1 s2 n = ⟨0, List.range' 0 (n.toNat + 1)⟩ :=
  memcmpFrom_same fun j _ hj => h j (by omega)

theorem memcmp_differ {k : Nat} (hk : k < n.toNat) (hbefore : ∀ j < k, SameAt m s1 s2 j)
    (hdiffer : ¬ SameAt m s1 s2 k) :
    memcmp m s1 s2 n = ⟨byteDifference m s1 s2 k, List.range' 0 (k + 1) ++ [k]⟩ := by
  have h := memcmpFrom_differ (i := 0) (n := n.toNat) (k := k) (by omega)
    (fun j _ hj => hbefore j (by omega)) (by rwa [Nat.zero_add])
  rwa [Nat.zero_add] at h

theorem first_differing {k : Nat} (hk : k < n.toNat) (hdiffer : ¬ SameAt m s1 s2 k) :
    ∃ k < n.toNat, (∀ j < k, SameAt m s1 s2 j) ∧ ¬ SameAt m s1 s2 k := by
  classical
  have hex : ∃ k, ¬ SameAt m s1 s2 k := ⟨k, hdiffer⟩
  have hle := Nat.find_min' hex hdiffer
  exact ⟨Nat.find hex, by omega, fun j hj => not_not.mp (Nat.find_min hex hj), Nat.find_spec hex⟩

/-- `memcmp` keeps to buffers that differ; on equal ones it reads a byte behind both. -/
theorem memcmp_exact_iff (m : Memory) (s1 s2 n : U32int) :
    Exact m s1 s2 n ↔ ∃ i < n.toNat, ¬ SameAt m s1 s2 i := by
  constructor
  · intro h
    by_contra hall
    push Not at hall
    have hlast := h.inside n.toNat (by
      rw [memcmp_same hall, List.mem_range'_1]
      omega)
    exact Nat.lt_irrefl _ hlast
  · intro h
    obtain ⟨i, hi, hne⟩ := h
    obtain ⟨k, hk, hbefore, hdiffer⟩ := first_differing hi hne
    have hresult := memcmp_differ hk hbefore hdiffer
    refine ⟨fun j hj => ?_, ?_, fun k' hk' hbefore' hdiffer' => ?_⟩
    · rw [hresult, List.mem_append, List.mem_range'_1, List.mem_singleton] at hj
      omega
    · rw [hresult, byteDifference_eq_zero]
      exact ⟨fun hsame => absurd hsame hdiffer, fun hall => hall k hk⟩
    · rw [hresult, first_unique hbefore' hdiffer' hbefore hdiffer]

/-- Four equal bytes: the fifth is read. -/
theorem memcmp_overread : 4 ∈ (memcmp (fun _ => 0) 0x1000 0x2000 4).reads ∧
    ¬ Exact (fun _ => 0) 0x1000 0x2000 4 := by
  have hread : 4 ∈ (memcmp (fun _ => 0) 0x1000 0x2000 4).reads := by decide
  exact ⟨hread, fun h => absurd (h.inside 4 hread) (by decide)⟩

end

section

variable {m : Memory} {s1 s2 : U32int} {a b : List Byte}

theorem strlenFrom_eq {str s : U32int} {text : List Byte} (h : StringAt m s text) {fuel : Nat}
    (hfuel : text.length < fuel) :
    strlenFrom m str s fuel = some (s + BitVec.ofNat 32 text.length - str) := by
  induction text generalizing s fuel with
  | nil =>
    obtain ⟨fuel, rfl⟩ := Nat.exists_eq_succ_of_ne_zero (by omega : fuel ≠ 0)
    have hnul : m s = 0 := h
    rw [strlenFrom, if_neg (not_not.mpr hnul), List.length_nil, BitVec.add_zero]
    congr 1
    bv_omega
  | cons c text ih =>
    obtain ⟨hc, hs, hrest⟩ := h
    obtain ⟨fuel, rfl⟩ := Nat.exists_eq_succ_of_ne_zero (by omega : fuel ≠ 0)
    rw [List.length_cons] at hfuel
    rw [strlenFrom, if_pos (by rwa [hs]), ih hrest (by omega), List.length_cons, add_succ_ofNat]

theorem strlen_eq {str : U32int} {text : List Byte} (h : StringAt m str text) :
    strlen m str = some (BitVec.ofNat 32 text.length) := by
  rw [strlen, strlenFrom_eq h h.length_lt, add_sub_cancel_left]

theorem strcmpFrom_same (ha : StringAt m s1 a) (hb : StringAt m s2 a) {fuel : Nat}
    (hfuel : a.length < fuel) : strcmpFrom m s1 s2 fuel = some 0 := by
  induction a generalizing s1 s2 fuel with
  | nil =>
    obtain ⟨fuel, rfl⟩ := Nat.exists_eq_succ_of_ne_zero (by omega : fuel ≠ 0)
    have ha' : m s1 = 0 := ha
    have hb' : m s2 = 0 := hb
    rw [strcmpFrom, ha', hb', if_pos rfl, if_pos rfl]
  | cons c a ih =>
    obtain ⟨hc, ha1, harest⟩ := ha
    obtain ⟨-, hb1, hbrest⟩ := hb
    obtain ⟨fuel, rfl⟩ := Nat.exists_eq_succ_of_ne_zero (by omega : fuel ≠ 0)
    rw [List.length_cons] at hfuel
    rw [strcmpFrom, ha1, hb1, if_pos rfl, if_neg hc]
    exact ih harest hbrest (by omega)

/-- The characters at the first difference are subtracted as signed. -/
theorem strcmpFrom_differ {k : Nat} {fuel : Nat} (hfuel : k < fuel)
    (hbefore : ∀ j < k, SameAt m s1 s2 j ∧ m (s1 + BitVec.ofNat 32 j) ≠ 0)
    (hdiffer : ¬ SameAt m s1 s2 k) : strcmpFrom m s1 s2 fuel =
      some ((m (s1 + BitVec.ofNat 32 k)).toInt - (m (s2 + BitVec.ofNat 32 k)).toInt) := by
  induction k generalizing s1 s2 fuel with
  | zero =>
    obtain ⟨fuel, rfl⟩ := Nat.exists_eq_succ_of_ne_zero (by omega : fuel ≠ 0)
    rw [SameAt, BitVec.add_zero, BitVec.add_zero] at hdiffer
    rw [strcmpFrom, if_neg hdiffer, BitVec.add_zero, BitVec.add_zero]
  | succ k ih =>
    obtain ⟨fuel, rfl⟩ := Nat.exists_eq_succ_of_ne_zero (by omega : fuel ≠ 0)
    obtain ⟨hsame, hchar⟩ := hbefore 0 (Nat.succ_pos k)
    rw [SameAt, BitVec.add_zero, BitVec.add_zero] at hsame
    rw [BitVec.add_zero] at hchar
    have hrest : ∀ j < k, SameAt m (s1 + 1) (s2 + 1) j ∧ m (s1 + 1 + BitVec.ofNat 32 j) ≠ 0 := by
      intro j hj
      have hnext := hbefore (j+1) (by omega)
      rwa [SameAt, add_succ_ofNat, add_succ_ofNat] at hnext
    rw [SameAt, add_succ_ofNat, add_succ_ofNat] at hdiffer
    rw [strcmpFrom, if_pos hsame, if_neg hchar, ih (by omega) hrest hdiffer,
      add_succ_ofNat, add_succ_ofNat]

theorem sign_eq_sign_iff {i j : Int} (hi : i ≠ 0) (hj : j ≠ 0) :
    i.sign = j.sign ↔ (0 < i ↔ 0 < j) := by
  rcases lt_or_gt_of_ne hi with hi | hi <;> rcases lt_or_gt_of_ne hj with hj | hj
  · rw [Int.sign_eq_neg_one_of_neg hi, Int.sign_eq_neg_one_of_neg hj]
    exact iff_of_true rfl (by omega)
  · rw [Int.sign_eq_neg_one_of_neg hi, Int.sign_eq_one_of_pos hj]
    exact iff_of_false (by decide) (by omega)
  · rw [Int.sign_eq_one_of_pos hi, Int.sign_eq_neg_one_of_neg hj]
    exact iff_of_false (by decide) (by omega)
  · rw [Int.sign_eq_one_of_pos hi, Int.sign_eq_one_of_pos hj]
    exact iff_of_true rfl (by omega)

/-- Two different bytes are ordered alike as signed and as unsigned if they lie in the same
half. -/
theorem byte_order_iff {x y : Byte} (h : x ≠ y) :
    (x.toInt - y.toInt).sign = ((x.toNat : Int) - y.toNat).sign ↔ x.msb = y.msb := by
  have hx := x.isLt
  have hy := y.isLt
  have hne : x.toNat ≠ y.toNat := fun he => h (BitVec.eq_of_toNat_eq he)
  have hsigned : x.toInt ≠ y.toInt := fun he => h (BitVec.eq_of_toInt_eq he)
  rw [sign_eq_sign_iff (by omega) (by omega), BitVec.msb_eq_decide, BitVec.msb_eq_decide,
    decide_eq_decide, BitVec.toInt_eq_toNat_cond, BitVec.toInt_eq_toNat_cond]
  split_ifs <;> omega

def minLen (n1 n2 : U32int) : U32int := if n1 < n2 then n1 else n2

/-- `strcmp` and `memcmp` over the shorter string and its NUL come back with the same sign,
and with zero exactly for equal strings. -/
def Agree (m : Memory) (s1 s2 : U32int) (a b : List Byte) : Prop :=
  ∃ n1 n2 r, strlen m s1 = some n1 ∧ strlen m s2 = some n2 ∧ strcmp m s1 s2 = some r ∧
    r.sign = (memcmp m s1 s2 (minLen n1 n2 + 1)).value.sign ∧ (r = 0 ↔ a = b) ∧
    ((memcmp m s1 s2 (minLen n1 n2 + 1)).value = 0 ↔ a = b)

/-- The first characters that differ, the NUL included, are both ASCII or both not. -/
def SameHalf (a b : List Byte) : Prop :=
  ∀ k, FirstDifference a b k → (charOf a k).msb = (charOf b k).msb

/-- There is one place for the NUL of a string that fills the memory. -/
theorem same_of_full (ha : StringAt m s1 a) (hb : StringAt m s2 b) (hla : a.length = 2^32 - 1)
    (hlb : b.length = 2^32 - 1) : a = b := by
  have hnul := ha.char le_rfl
  have hat : s1 + BitVec.ofNat 32 a.length =
      s2 + BitVec.ofNat 32 (s1 + BitVec.ofNat 32 a.length - s2).toNat := by
    rw [BitVec.ofNat_toNat, BitVec.setWidth_eq]
    bv_omega
  have hle := (s1 + BitVec.ofNat 32 a.length - s2).isLt
  rw [charOf_length, hat, hb.char (by omega)] at hnul
  have hend : ¬ (s1 + BitVec.ofNat 32 a.length - s2).toNat < b.length :=
    fun hlt => hb.char_ne_zero hlt hnul
  have hsame : s1 = s2 := by
    rw [hla] at hend
    bv_omega
  subst hsame
  exact ha.unique hb

theorem agree_self (ha : StringAt m s1 a) (hb : StringAt m s2 a) : Agree m s1 s2 a a := by
  have hlen := ha.length_lt
  have hcmp : strcmp m s1 s2 = some 0 := strcmpFrom_same ha hb ha.length_lt
  refine ⟨_, _, _, strlen_eq ha, strlen_eq hb, hcmp, ?_⟩
  have hmin : minLen (BitVec.ofNat 32 a.length) (BitVec.ofNat 32 a.length) =
    BitVec.ofNat 32 a.length := ite_self _
  rw [hmin]
  have hsame : ∀ i < (BitVec.ofNat 32 a.length + 1).toNat, SameAt m s1 s2 i := by
    intro i hi
    have hle : i ≤ a.length := by
      rw [BitVec.toNat_add, BitVec.toNat_ofNat, show (1 : U32int).toNat = 1 from rfl] at hi
      omega
    exact (ha.char hle).trans (hb.char hle).symm
  rw [memcmp_same hsame]
  exact ⟨rfl, iff_of_true rfl rfl, iff_of_true rfl rfl⟩

/-- What both make of different strings depends on the first characters that differ. -/
theorem compared_at {k : Nat} (ha : StringAt m s1 a) (hb : StringAt m s2 b)
    (h : FirstDifference a b k) : strcmp m s1 s2 = some ((charOf a k).toInt - (charOf b k).toInt) ∧
      (memcmp m s1 s2 (minLen (BitVec.ofNat 32 a.length) (BitVec.ofNat 32 b.length) + 1)).value =
        (charOf a k).toNat - (charOf b k).toNat := by
  have hla := ha.length_lt
  have hlb := hb.length_lt
  have hka := h.le_length hb
  have hkb := h.symm.le_length ha
  have hbefore : ∀ j < k, SameAt m s1 s2 j := by
    intro j hj
    rw [SameAt, ha.char (by omega), hb.char (by omega)]
    exact h.before j hj
  have hdiffer : ¬ SameAt m s1 s2 k := by
    rw [SameAt, ha.char hka, hb.char hkb]
    exact h.differs
  constructor
  · have hchars : ∀ j < k, SameAt m s1 s2 j ∧ m (s1 + BitVec.ofNat 32 j) ≠ 0 := by
      intro j hj
      refine ⟨hbefore j hj, ?_⟩
      rw [ha.char (by omega)]
      exact ha.char_ne_zero (by omega)
    rw [strcmp, strcmpFrom_differ (Nat.lt_of_le_of_lt hka hla) hchars hdiffer,
      ha.char hka, hb.char hkb]
  · have hfull : ¬ (a.length = 2^32 - 1 ∧ b.length = 2^32 - 1) := by
      intro hfull
      have hsame := same_of_full ha hb hfull.1 hfull.2
      subst hsame
      exact h.differs rfl
    have hmin : k < (minLen (BitVec.ofNat 32 a.length) (BitVec.ofNat 32 b.length) + 1).toNat := by
      have hone : (1 : U32int).toNat = 1 := rfl
      rw [minLen]
      split_ifs with hlt
      · rw [BitVec.lt_def, BitVec.toNat_ofNat, BitVec.toNat_ofNat] at hlt
        rw [BitVec.toNat_add, BitVec.toNat_ofNat, hone]
        omega
      · rw [BitVec.lt_def, BitVec.toNat_ofNat, BitVec.toNat_ofNat] at hlt
        rw [BitVec.toNat_add, BitVec.toNat_ofNat, hone]
        omega
    rw [memcmp_differ hmin hbefore hdiffer, byteDifference, ha.char hka, hb.char hkb]

/-- `strcmp` and `memcmp` order two strings alike exactly if the first characters that
differ are in the same half of the byte values. -/
theorem strcmp_memcmp_iff (ha : StringAt m s1 a) (hb : StringAt m s2 b) :
    Agree m s1 s2 a b ↔ SameHalf a b := by
  by_cases hab : a = b
  · subst hab
    exact iff_of_true (agree_self ha hb) fun k hk => absurd rfl hk.differs
  · obtain ⟨k, hk⟩ := exists_firstDifference ha hb hab
    obtain ⟨hstr, hmem⟩ := compared_at ha hb hk
    have hhalf : SameHalf a b ↔ (charOf a k).msb = (charOf b k).msb := by
      refine ⟨fun h => h k hk, fun h k' hk' => ?_⟩
      rwa [hk'.unique hk]
    rw [hhalf, ← byte_order_iff hk.differs]
    constructor
    · intro h
      obtain ⟨n1, n2, r, hn1, hn2, hr, hsign, -⟩ := h
      cases hn1.symm.trans (strlen_eq ha)
      cases hn2.symm.trans (strlen_eq hb)
      cases hr.symm.trans hstr
      rwa [hmem] at hsign
    · intro hsign
      have hsigned : (charOf a k).toInt - (charOf b k).toInt ≠ 0 := fun he =>
        hk.differs (BitVec.eq_of_toInt_eq (by omega))
      have hunsigned : ((charOf a k).toNat : Int) - (charOf b k).toNat ≠ 0 := fun he =>
        hk.differs (BitVec.eq_of_toNat_eq (by omega))
      refine ⟨_, _, _, strlen_eq ha, strlen_eq hb, hstr, ?_⟩
      rw [hmem]
      exact ⟨hsign, iff_of_false hsigned hab, iff_of_false hunsigned hab⟩

end

/-- `halt` at 0x1000 and `half` at 0x2000. -/
def twoWords : Memory := fun x =>
  if x.toNat < 0x2000 then [0x68, 0x61, 0x6C, 0x74].getD (x.toNat - 0x1000) 0
  else [0x68, 0x61, 0x6C, 0x66].getD (x.toNat - 0x2000) 0

theorem strcmp_memcmp_words :
    Agree twoWords 0x1000 0x2000 [0x68, 0x61, 0x6C, 0x74] [0x68, 0x61, 0x6C, 0x66] := by
  have ha : StringAt twoWords 0x1000 [0x68, 0x61, 0x6C, 0x74] := by simp [StringAt, twoWords]
  have hb : StringAt twoWords 0x2000 [0x68, 0x61, 0x6C, 0x66] := by simp [StringAt, twoWords]
  have hlast : FirstDifference [0x68, 0x61, 0x6C, 0x74] [0x68, 0x61, 0x6C, 0x66] 3 := by
    refine ⟨fun j hj => ?_, by decide⟩
    interval_cases j <;> rfl
  refine (strcmp_memcmp_iff ha hb).mpr fun k hk => ?_
  rw [hk.unique hlast]
  decide

/-- One character at each of two addresses. -/
def twoCharacters (c1 c2 : Byte) : Memory :=
    fun x => if x = 0x1000 then c1 else if x = 0x2000 then c2 else 0

theorem twoCharacters_strings {c1 c2 : Byte} (h1 : c1 ≠ 0) (h2 : c2 ≠ 0) :
    StringAt (twoCharacters c1 c2) 0x1000 [c1] ∧ StringAt (twoCharacters c1 c2) 0x2000 [c2] :=
  ⟨⟨h1, rfl, rfl⟩, ⟨h2, rfl, rfl⟩⟩

theorem firstDifference_head {c1 c2 : Byte} (h : c1 ≠ c2) : FirstDifference [c1] [c2] 0 :=
  ⟨fun j hj => absurd hj (Nat.not_lt_zero j), h⟩

/-- `strcmp` puts the byte 0x80 before `a`, `memcmp` behind it. -/
theorem highByte_disagree : StringAt (twoCharacters 0x80 0x61) 0x1000 [0x80] ∧
    StringAt (twoCharacters 0x80 0x61) 0x2000 [0x61] ∧
    strcmp (twoCharacters 0x80 0x61) 0x1000 0x2000 = some (-225) ∧
    (memcmp (twoCharacters 0x80 0x61) 0x1000 0x2000 2).value = 31 ∧
    ¬ Agree (twoCharacters 0x80 0x61) 0x1000 0x2000 [0x80] [0x61] := by
  obtain ⟨ha, hb⟩ := twoCharacters_strings (by decide : (0x80 : Byte) ≠ 0)
    (by decide : (0x61 : Byte) ≠ 0)
  obtain ⟨hstr, hmem⟩ := compared_at ha hb (firstDifference_head (by decide))
  refine ⟨ha, hb, hstr, hmem, fun h => ?_⟩
  obtain ⟨n1, n2, r, hn1, hn2, hr, hsign, -⟩ := h
  cases hn1.symm.trans (strlen_eq ha)
  cases hn2.symm.trans (strlen_eq hb)
  cases hr.symm.trans hstr
  rw [hmem] at hsign
  exact absurd hsign (by decide)

end SimpleOs.Audit.Comparison
