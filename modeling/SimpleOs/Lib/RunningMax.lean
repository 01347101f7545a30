import Mathlib.Data.List.Basic

/-!
# A running maximum that forgets

One pass keeps an element when its key is above what is remembered of the key of
the element kept so far. Where less than the whole key is remembered, a smaller
element may take the place of a bigger one.
-/

namespace SimpleOs.Lib.RunningMax

variable {α : Type} (key : α → Nat) (cut : Nat → Nat)

/-- What is remembered of the element kept, with 0 at the start. -/
def remembered : Option α → Nat
  | none => 0
  | some b => cut (key b)

def keep (best : Option α) (e : α) : Option α :=
  if remembered key cut best < key e then some e else best

def lastKept (l : List α) (best : Option α) : Option α := l.foldl (keep key cut) best

variable {key cut} {l : List α} {best : Option α}

@[simp] theorem lastKept_nil : lastKept key cut [] best = best := rfl

@[simp] theorem lastKept_cons (e : α) :
    lastKept key cut (e :: l) best = lastKept key cut l (keep key cut best e) := rfl

theorem lastKept_append (l' : List α) :
    lastKept key cut (l ++ l') best = lastKept key cut l' (lastKept key cut l best) :=
  List.foldl_append

/-- Elements that do not pass leave the one kept alone. -/
theorem lastKept_of_le (h : ∀ e ∈ l, key e ≤ remembered key cut best) :
    lastKept key cut l best = best := by
  induction l with
  | nil => rfl
  | cons e l ih =>
    have he : keep key cut best e = best := if_neg (Nat.not_lt.mpr (h e List.mem_cons_self))
    rw [lastKept_cons, he]
    exact ih fun e' he' => h e' (List.mem_cons_of_mem e he')

/-- The result was there from the start, or it is in the list and nothing behind it passes. -/
theorem lastKept_cases (key : α → Nat) (cut : Nat → Nat) (l : List α) (best : Option α) :
    (lastKept key cut l best = best ∧ ∀ e ∈ l, key e ≤ remembered key cut best) ∨
    ∃ l₁ r l₂, l = l₁ ++ r :: l₂ ∧ lastKept key cut l best = some r ∧ 0 < key r ∧
      ∀ e ∈ l₂, key e ≤ cut (key r) := by
  induction l generalizing best with
  | nil => exact .inl ⟨rfl, fun e he => absurd he List.not_mem_nil⟩
  | cons e l ih =>
    rw [lastKept_cons]
    by_cases hpass : remembered key cut best < key e
    · have hkeep : keep key cut best e = some e := if_pos hpass
      rw [hkeep]
      rcases ih (some e) with ⟨hres, hle⟩ | ⟨l₁, r, l₂, rfl, hres, hpos, hle⟩
      · exact .inr ⟨[], e, l, rfl, hres, by omega, hle⟩
      · exact .inr ⟨e :: l₁, r, l₂, rfl, hres, hpos, hle⟩
    · have hkeep : keep key cut best e = best := if_neg hpass
      rw [hkeep]
      rcases ih best with ⟨hres, hle⟩ | ⟨l₁, r, l₂, rfl, hres, hpos, hle⟩
      · refine .inl ⟨hres, fun e' he' => ?_⟩
        rcases List.mem_cons.mp he' with rfl | he'
        · exact Nat.le_of_not_lt hpass
        · exact hle e' he'
      · exact .inr ⟨e :: l₁, r, l₂, rfl, hres, hpos, hle⟩

theorem lastKept_none_iff : lastKept key cut l none = none ↔ ∀ e ∈ l, key e = 0 := by
  constructor
  · intro h
    rcases lastKept_cases key cut l none with ⟨-, hle⟩ | ⟨l₁, r, l₂, -, hres, -, -⟩
    · exact fun e he => Nat.eq_zero_of_le_zero (hle e he)
    · rw [hres] at h
      cases h
  · intro h
    exact lastKept_of_le fun e he => Nat.le_of_eq (h e he)

/-- A maximum that nothing behind it passes determines the key of the result. -/
theorem lastKept_of_maximum (hcut : ∀ n, cut n ≤ n) {l₁ l₂ : List α} {f : α} (hpos : 0 < key f)
    (hmax : ∀ e ∈ l₁, key e ≤ key f) (hbehind : ∀ e ∈ l₂, key e ≤ cut (key f)) :
    ∃ r ∈ l₁ ++ f :: l₂, lastKept key cut (l₁ ++ f :: l₂) none = some r ∧ key r = key f := by
  rw [lastKept_append, lastKept_cons]
  by_cases hpass : remembered key cut (lastKept key cut l₁ none) < key f
  · have hkeep : keep key cut (lastKept key cut l₁ none) f = some f := if_pos hpass
    rw [hkeep, lastKept_of_le hbehind]
    exact ⟨f, by simp, rfl, rfl⟩
  · -- an element before it has the same key, and all of that key is remembered
    have hkeep : keep key cut (lastKept key cut l₁ none) f = lastKept key cut l₁ none :=
      if_neg hpass
    rw [hkeep]
    rcases lastKept_cases key cut l₁ none with ⟨hres, -⟩ | ⟨l₃, r, l₄, rfl, hres, -, -⟩
    · rw [hres] at hpass
      exact absurd hpos hpass
    · rw [hres] at hpass ⊢
      have hr : key r ≤ key f := hmax r (by simp)
      have hcutr : cut (key r) ≤ key r := hcut _
      have heq : key r = key f := by
        have hle : key f ≤ cut (key r) := Nat.le_of_not_lt hpass
        omega
      have hrest : ∀ e ∈ l₂, key e ≤ remembered key cut (some r) := fun e he => by
        rw [remembered, heq]
        exact hbehind e he
      rw [lastKept_of_le hrest]
      exact ⟨r, by simp, rfl, heq⟩

/-- The result is a maximum of `all`, from which the elements `l` were let through. -/
def Biggest (key : α → Nat) (all : List α) (result : Option α) : Prop :=
  (result = none → ∀ e ∈ all, key e = 0) ∧
  ∀ r, result = some r → r ∈ all ∧ ∀ e ∈ all, key e ≤ key r

theorem biggest_lastKept_iff (hcut : ∀ n, cut n ≤ n) {all : List α} (hl : ∀ e ∈ l, e ∈ all) :
    Biggest key all (lastKept key cut l none) ↔
      (∀ e ∈ all, key e = 0) ∨ ∃ l₁ f l₂, l = l₁ ++ f :: l₂ ∧ (∀ e ∈ all, key e ≤ key f) ∧
        ∀ e ∈ l₂, key e ≤ cut (key f) := by
  constructor
  · intro h
    obtain ⟨hnone, hsome⟩ := h
    rcases lastKept_cases key cut l none with ⟨hres, -⟩ | ⟨l₁, r, l₂, heq, hres, -, hle⟩
    · exact .inl (hnone hres)
    · exact .inr ⟨l₁, r, l₂, heq, (hsome r hres).2, hle⟩
  · intro h
    rcases h with hzero | ⟨l₁, f, l₂, rfl, hmax, hle⟩
    · have hres : lastKept key cut l none = none :=
        lastKept_none_iff.mpr fun e he => hzero e (hl e he)
      refine ⟨fun _ => hzero, fun r hr => ?_⟩
      rw [hres] at hr
      cases hr
    · rcases Nat.eq_zero_or_pos (key f) with h0 | hpos
      · have hzero : ∀ e ∈ all, key e = 0 := fun e he =>
          Nat.eq_zero_of_le_zero (h0 ▸ hmax e he)
        have hres : lastKept key cut (l₁ ++ f :: l₂) none = none :=
          lastKept_none_iff.mpr fun e he => hzero e (hl e he)
        refine ⟨fun _ => hzero, fun r hr => ?_⟩
        rw [hres] at hr
        cases hr
      · obtain ⟨r, hr, hres, hkey⟩ := lastKept_of_maximum hcut hpos
          (fun e he => hmax e (hl e (List.mem_append_left _ he))) hle
        rw [hres]
        refine ⟨fun h => absurd h (Option.some_ne_none r), ?_⟩
        rintro r' ⟨⟩
        exact ⟨hl r hr, fun e he => by rw [hkey]; exact hmax e he⟩

end SimpleOs.Lib.RunningMax
