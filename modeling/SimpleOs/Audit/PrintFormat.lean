import SimpleOs.Audit.Numerals
import SimpleOs.Lib.CStrings

/-!
# `printf`

The output as the format and the arguments prescribe it, and the one case in which the
loop leaves the format: after a `%` at its end the NUL is taken for a conversion.
-/

namespace SimpleOs.Audit.PrintFormat

open SimpleOs.Kernel SimpleOs.Lib.ByteMemory SimpleOs.Lib.CStrings SimpleOs.Lib.Splice
open SimpleOs.Audit.Numerals (Base numeral itoa_eq digitText digitText_value)

/-- The conversion characters of a format, in order. -/
def conversions : List Byte → List Byte
  | [] => []
  | [_] => []
  | c :: k :: format => if c = percentChar then k :: conversions
    format else conversions (k :: format)

/-- No `%` is left without its conversion character. -/
def Complete : List Byte → Prop
  | [] => True
  | [c] => c ≠ percentChar
  | c :: k :: format => if c = percentChar then Complete format else Complete (k :: format)

def asInts (text : List Byte) : List U32int := text.map fun c => c.signExtend 32

/-- What one conversion of `arg` prints. -/
inductive Conversion (m : Memory) : Byte → U32int → List U32int → Prop
  | number (b : Base) (arg : U32int) : Conversion m b.char arg (asInts (numeral b arg))
  | null : Conversion m sChar null (asInts nullText)
  | string {arg : U32int} {text : List Byte} : arg ≠ null → StringAt m arg text →
      Conversion m sChar arg (asInts text)
  | other {k : Byte} (arg : U32int) : k ∉ [dChar, uChar, xChar, sChar] → Conversion m k arg [arg]

/-- The ordinary characters in order, each conversion replaced by what it prints. -/
inductive Renders (m : Memory) : List Byte → List U32int → List U32int → Prop
  | done (args : List U32int) : Renders m [] args []
  | char {c : Byte} {format : List Byte} {args out : List U32int} : c ≠ percentChar →
      Renders m format args out → Renders m (c :: format) args (c.signExtend 32 :: out)
  | conversion {k : Byte} {format : List Byte} {arg : U32int} {args text out : List U32int} :
      Conversion m k arg text → Renders m format args out →
      Renders m (percentChar :: k :: format) (arg :: args) (text ++ out)

/-- The arguments stand from `p` on. -/
def ArgsAt (m : Memory) : U32int → List U32int → Prop
  | _, [] => True
  | p, arg :: args => read32 m p = arg ∧ ArgsAt m (p + 4) args

/-- An argument for each conversion, those of `%s` null or strings. -/
def Supplied (m : Memory) : List Byte → List U32int → Prop
  | [], _ => True
  | _ :: _, [] => False
  | k :: ks, arg :: args => (k = sChar → arg = null ∨ ∃ text, StringAt m arg text) ∧
    Supplied m ks args

/-- `printf` comes back, having read the format up to its NUL at most, and has printed what
is prescribed. -/
def Prints (m : Memory) (format arg : U32int) (buf : Nat → Byte) (text : List Byte)
    (args : List U32int) : Prop :=
  ∃ fuel r, printf m format arg buf fuel = some r ∧
    (∀ i ∈ r.reads, i ≤ text.length) ∧ Renders m text args r.out

section

variable {m : Memory}

theorem putString_eq {p : Nat → Byte} {text : List Byte} {i fuel : Nat} (hfuel : text.length < fuel)
    (hchars : ∀ j (h : j < text.length), p (i + j) = text[j]) (htext : 0 ∉ text)
    (hend : p (i + text.length) = 0) : putString p i fuel = some (asInts text) := by
  induction text generalizing i fuel with
  | nil =>
    obtain ⟨fuel, rfl⟩ := Nat.exists_eq_succ_of_ne_zero (by omega : fuel ≠ 0)
    have hnul : p i = 0 := hend
    rw [putString, if_neg (not_not.mpr hnul)]
    rfl
  | cons c text ih =>
    obtain ⟨fuel, rfl⟩ := Nat.exists_eq_succ_of_ne_zero (by omega : fuel ≠ 0)
    rw [List.length_cons] at hfuel hend
    have hc : p i = c := hchars 0 (Nat.succ_pos _)
    have hne : p i ≠ 0 := by
      rw [hc]
      exact fun he => htext (he ▸ List.mem_cons_self)
    have hrest := @ih (i + 1) fuel (by omega)
      (fun j hj => by
        have hj' := hchars (j + 1) (Nat.succ_lt_succ hj)
        rwa [List.getElem_cons_succ, Nat.add_comm j 1, ← Nat.add_assoc] at hj')
      (fun h => htext (List.mem_cons_of_mem _ h))
      (by rwa [Nat.add_assoc, Nat.add_comm 1])
    rw [putString, if_pos hne, hrest, hc]
    rfl

theorem numeral_noNul (b : Base) (arg : U32int) : 0 ∉ numeral b arg := by
  have hdigits : 0 ∉ digitText b arg := by
    intro hmem
    obtain ⟨k, -, -, hvalue⟩ := digitText_value b arg hmem
    have hnul : b.value 0 = none := by cases b <;> decide
    rw [hnul] at hvalue
    cases hvalue
  rw [numeral]
  split_ifs
  · intro hmem
    rcases List.mem_cons.mp hmem with h | h
    · exact absurd h (by decide)
    · exact hdigits h
  · exact hdigits

theorem putString_numeral (buf : Nat → Byte) (b : Base) (arg : U32int) {fuel : Nat}
    (hfuel : (numeral b arg).length < fuel) :
    putString (itoa buf (b.char.signExtend 32) arg) 0 fuel = some (asInts (numeral b arg)) := by
  rw [itoa_eq]
  refine putString_eq hfuel (fun j hj => ?_) (numeral_noNul b arg) ?_
  · rw [splice_getElem (by rw [List.length_append]; omega), List.getElem_append_left hj]
  · rw [splice_getElem (by rw [List.length_append, List.length_singleton]; omega),
      List.getElem_append_right le_rfl, List.getElem_singleton]

theorem putString_memory {p : U32int} {text : List Byte} (h : StringAt m p text) {fuel : Nat}
    (hfuel : text.length < fuel) :
    putString (fun i => m (p + BitVec.ofNat 32 i)) 0 fuel = some (asInts text) := by
  refine putString_eq hfuel (fun j hj => ?_) h.noNul ?_
  · rw [Nat.zero_add, h.getElem hj]
  · rw [Nat.zero_add, h.char le_rfl, charOf_length]

theorem putString_null {fuel : Nat} (hfuel : 6 < fuel) :
    putString (fun i => nullText.getD i 0) 0 fuel = some (asInts nullText) := by
  refine putString_eq hfuel (fun j hj => ?_) (by decide) rfl
  rw [Nat.zero_add, List.getD_eq_getElem _ _ hj]

/-- With enough rounds for its text, every conversion prints what it stands for. -/
theorem convert_eq {k : Byte} {arg : U32int}
    (harg : k = sChar → arg = null ∨ ∃ text, StringAt m arg text) :
    ∃ text N, Conversion m k arg text ∧
      ∀ fuel, N ≤ fuel → ∀ buf, ∃ buf', convert m buf k arg fuel = some (text, buf') := by
  by_cases hnumber : k = dChar ∨ k = uChar ∨ k = xChar
  · obtain ⟨b, rfl⟩ : ∃ b : Base, k = b.char := by
      rcases hnumber with hk | hk | hk
      · exact ⟨.d, hk⟩
      · exact ⟨.u, hk⟩
      · exact ⟨.x, hk⟩
    refine ⟨_, (numeral b arg).length + 1, .number b arg, fun fuel hfuel buf =>
      ⟨itoa buf (b.char.signExtend 32) arg, ?_⟩⟩
    rw [convert, if_pos hnumber]
    simp only [putString_numeral buf b arg (by omega : (numeral b arg).length < fuel)]
    rfl
  · by_cases hs : k = sChar
    · subst hs
      by_cases hnull : arg = null
      · subst hnull
        refine ⟨_, 7, .null, fun fuel hfuel buf => ⟨buf, ?_⟩⟩
        rw [convert, if_neg hnumber, if_pos rfl]
        simp only [if_true, putString_null (by omega : 6 < fuel)]
        rfl
      · obtain ⟨text, htext⟩ := (harg rfl).resolve_left hnull
        refine ⟨_, text.length + 1, .string hnull htext, fun fuel hfuel buf => ⟨buf, ?_⟩⟩
        rw [convert, if_neg hnumber, if_pos rfl]
        simp only [hnull, if_false, putString_memory htext (by omega : text.length < fuel)]
        rfl
    · refine ⟨_, 0, .other arg ?_, fun fuel _ buf => ⟨buf, ?_⟩⟩
      · simp only [List.mem_cons, List.not_mem_nil, or_false]
        tauto
      · rw [convert, if_neg hnumber, if_neg hs]

end

section

variable {m : Memory} {format : U32int}

theorem printfFrom_nul {i : Nat} {arg : U32int} {buf : Nat → Byte} {fuel : Nat}
    (hc : m (format + BitVec.ofNat 32 i) = 0) :
    printfFrom m format (fuel+1) i arg buf = some ⟨[], [i]⟩ := by
  rw [printfFrom]
  simp only [hc, ne_eq, not_true, if_false]

theorem printfFrom_char {i : Nat} {c : Byte} {arg : U32int} {buf : Nat → Byte} {fuel : Nat}
    (hc : m (format + BitVec.ofNat 32 i) = c) (hnul : c ≠ 0) (hpercent : c ≠ percentChar) :
    printfFrom m format (fuel+1) i arg buf =
      (printfFrom m format fuel (i+1) arg buf).map fun rest =>
      ⟨c.signExtend 32 :: rest.out, i :: rest.reads⟩ := by
  rw [printfFrom]
  simp only [hc, hnul, hpercent, ne_eq, not_false_eq_true, if_true]
  exact bind_pure_comp _ _

theorem printfFrom_conversion {i : Nat} {k : Byte} {arg : U32int} {buf : Nat → Byte} {fuel : Nat}
    (hc : m (format + BitVec.ofNat 32 i) = percentChar)
    (hk : m (format + BitVec.ofNat 32 (i+1)) = k) : printfFrom m format (fuel+1) i arg buf =
      (convert m buf k (read32 m arg) fuel).bind fun printed =>
        (printfFrom m format fuel (i+2) (arg + 4) printed.2).map fun rest =>
          ⟨printed.1 ++ rest.out, i :: (i+1) :: rest.reads⟩ := by
  rw [printfFrom]
  simp only [hc, hk, ne_eq, show ¬ percentChar = 0 by decide, not_false_eq_true,
    if_true, not_true, if_false]
  exact bind_congr fun printed => bind_pure_comp _ _

/-- A run that comes back has read the character it began with. -/
theorem start_read {i : Nat} {arg : U32int} {buf : Nat → Byte} {fuel : Nat} {r : Printed}
    (h : printfFrom m format fuel i arg buf = some r) : i ∈ r.reads := by
  cases fuel with
  | zero => cases h
  | succ fuel =>
    by_cases hnul : m (format + BitVec.ofNat 32 i) = 0
    · rw [printfFrom_nul hnul] at h
      cases h
      exact List.mem_cons_self
    · by_cases hpercent : m (format + BitVec.ofNat 32 i) = percentChar
      · rw [printfFrom_conversion hpercent rfl, Option.bind_eq_some_iff] at h
        obtain ⟨printed, -, h⟩ := h
        obtain ⟨rest, -, rfl⟩ := Option.map_eq_some_iff.mp h
        exact List.mem_cons_self
      · rw [printfFrom_char rfl hnul hpercent] at h
        obtain ⟨rest, -, rfl⟩ := Option.map_eq_some_iff.mp h
        exact List.mem_cons_self

/-- Enough rounds from index `i` on print `text`, and read no more than its NUL. -/
def Runs (m : Memory) (format : U32int) (i : Nat) (arg : U32int) (text : List Byte)
    (args : List U32int) : Prop :=
  ∃ N, ∀ fuel, N ≤ fuel → ∀ buf, ∃ r, printfFrom m format fuel i arg buf = some r ∧
    (∀ j ∈ r.reads, j ≤ i + text.length) ∧ Renders m text args r.out

variable {i : Nat} {arg : U32int} {text : List Byte} {args : List U32int}

theorem runs_nul (htext : StringAt m (format + BitVec.ofNat 32 i) []) :
    Runs m format i arg [] args := by
  refine ⟨1, fun fuel hfuel buf => ?_⟩
  obtain ⟨fuel, rfl⟩ := Nat.exists_eq_succ_of_ne_zero (by omega : fuel ≠ 0)
  refine ⟨_, printfFrom_nul htext, fun j hj => ?_, .done args⟩
  rw [List.mem_singleton] at hj
  omega

theorem Runs.char {c : Byte} (h : Runs m format (i+1) arg text args) (hc : c ≠ percentChar)
    (htext : StringAt m (format + BitVec.ofNat 32 i) (c :: text)) :
    Runs m format i arg (c :: text) args := by
  obtain ⟨hnul, hat, -⟩ := htext
  obtain ⟨N, hN⟩ := h
  refine ⟨N + 1, fun fuel hfuel buf => ?_⟩
  obtain ⟨fuel, rfl⟩ := Nat.exists_eq_succ_of_ne_zero (by omega : fuel ≠ 0)
  obtain ⟨r, hr, hreads, hout⟩ := hN fuel (by omega) buf
  refine ⟨_, by rw [printfFrom_char hat hnul hc, hr]; rfl, fun j hj => ?_, .char hc hout⟩
  rw [List.length_cons]
  rcases List.mem_cons.mp hj with rfl | hj
  · omega
  · have hle := hreads j hj
    omega

theorem Runs.conversion {k : Byte} (h : Runs m format (i+2) (arg + 4) text args)
    (harg : k = sChar → read32 m arg = null ∨ ∃ text, StringAt m (read32 m arg) text)
    (htext : StringAt m (format + BitVec.ofNat 32 i) (percentChar :: k :: text)) :
    Runs m format i arg (percentChar :: k :: text) (read32 m arg :: args) := by
  have hat : m (format + BitVec.ofNat 32 i) = percentChar := htext.2.1
  have hk : m (format + BitVec.ofNat 32 (i+1)) = k := htext.tail.2.1
  obtain ⟨printed, N1, hconversion, hN1⟩ := convert_eq harg
  obtain ⟨N2, hN2⟩ := h
  refine ⟨max N1 N2 + 1, fun fuel hfuel buf => ?_⟩
  obtain ⟨fuel, rfl⟩ := Nat.exists_eq_succ_of_ne_zero (by omega : fuel ≠ 0)
  obtain ⟨buf', hconvert⟩ := hN1 fuel (by omega) buf
  obtain ⟨r, hr, hreads, hout⟩ := hN2 fuel (by omega) buf'
  refine ⟨_, by rw [printfFrom_conversion hat hk, hconvert, Option.bind_some, hr]; rfl,
    fun j hj => ?_, .conversion hconversion hout⟩
  rw [List.length_cons, List.length_cons]
  rcases List.mem_cons.mp hj with rfl | hj
  · omega
  · rcases List.mem_cons.mp hj with rfl | hj
    · omega
    · have hle := hreads j hj
      omega

theorem runs_of_complete (hcomplete : Complete text)
    (htext : StringAt m (format + BitVec.ofNat 32 i) text)
    (hargs : ArgsAt m arg args) (hsupplied : Supplied m (conversions text) args) :
    Runs m format i arg text args := by
  induction text using conversions.induct generalizing args i arg with
  | case1 => exact runs_nul htext
  | case2 c => exact (runs_nul htext.tail).char hcomplete htext
  | case3 k text ih =>
    rw [Complete, if_pos rfl] at hcomplete
    rw [conversions, if_pos rfl] at hsupplied
    cases args with
    | nil => cases hsupplied
    | cons a args =>
      obtain ⟨rfl, hrest⟩ := hargs
      obtain ⟨harg, hsupplied⟩ := hsupplied
      exact (ih hcomplete htext.tail.tail hrest hsupplied).conversion harg htext
  | case4 c k text hc ih =>
    rw [Complete, if_neg hc] at hcomplete
    rw [conversions, if_neg hc] at hsupplied
    exact (ih hcomplete htext.tail hargs hsupplied).char hc htext

/-- After a `%` at the end of the format its NUL is taken for a conversion, and the
character behind it is read. -/
theorem cutOff_overread {buf : Nat → Byte} {fuel : Nat} {r : Printed} (hcut : ¬ Complete text)
    (htext : StringAt m (format + BitVec.ofNat 32 i) text)
    (hr : printfFrom m format fuel i arg buf = some r) : i + text.length + 1 ∈ r.reads := by
  induction text using conversions.induct generalizing i arg buf fuel r with
  | case1 => exact absurd trivial hcut
  | case2 c =>
    obtain rfl : c = percentChar := not_not.mp hcut
    have hnul : m (format + BitVec.ofNat 32 (i+1)) = 0 := htext.tail
    cases fuel with
    | zero => cases hr
    | succ fuel =>
      rw [printfFrom_conversion htext.2.1 hnul, Option.bind_eq_some_iff] at hr
      obtain ⟨printed, -, hr⟩ := hr
      obtain ⟨rest, hrest, rfl⟩ := Option.map_eq_some_iff.mp hr
      exact List.mem_cons_of_mem _ (List.mem_cons_of_mem _ (start_read hrest))
  | case3 k text ih =>
    rw [Complete, if_pos rfl] at hcut
    cases fuel with
    | zero => cases hr
    | succ fuel =>
      rw [printfFrom_conversion htext.2.1 htext.tail.2.1, Option.bind_eq_some_iff] at hr
      obtain ⟨printed, -, hr⟩ := hr
      obtain ⟨rest, hrest, rfl⟩ := Option.map_eq_some_iff.mp hr
      have hread := ih hcut htext.tail.tail hrest
      rw [show i + 2 + text.length + 1 = i + (percentChar :: k :: text).length + 1 by
        rw [List.length_cons, List.length_cons]; omega] at hread
      exact List.mem_cons_of_mem _ (List.mem_cons_of_mem _ hread)
  | case4 c k text hc ih =>
    rw [Complete, if_neg hc] at hcut
    cases fuel with
    | zero => cases hr
    | succ fuel =>
      rw [printfFrom_char htext.2.1 htext.1 hc] at hr
      obtain ⟨rest, hrest, rfl⟩ := Option.map_eq_some_iff.mp hr
      have hread := ih hcut htext.tail hrest
      rw [show i + 1 + (k :: text).length + 1 = i + (c :: k :: text).length + 1 by
        simp only [List.length_cons]; omega] at hread
      exact List.mem_cons_of_mem _ hread

end

/-- `printf` prints what is prescribed exactly if the format does not end in a `%` without
its conversion character. -/
theorem printf_prints_iff {m : Memory} {format arg : U32int} {text : List Byte} {args : List U32int}
    (buf : Nat → Byte) (htext : StringAt m format text) (hargs : ArgsAt m arg args)
    (hsupplied : Supplied m (conversions text) args) :
    Prints m format arg buf text args ↔ Complete text := by
  rw [← BitVec.add_zero format] at htext
  constructor
  · intro h
    by_contra hcut
    obtain ⟨fuel, r, hr, hreads, -⟩ := h
    have hread := hreads _ (cutOff_overread hcut htext hr)
    omega
  · intro hcomplete
    obtain ⟨N, hN⟩ := runs_of_complete hcomplete htext hargs hsupplied
    obtain ⟨r, hr, hreads, hout⟩ := hN N le_rfl buf
    exact ⟨N, r, hr, fun j hj => by have hle := hreads j hj; omega, hout⟩

/-- The bytes from 0x1000 on, zeroes elsewhere. -/
def formatAt (bytes : List Byte) : Memory := fun x => bytes.getD (x.toNat - 0x1000) 0

theorem printf_prints_number :
    Prints (formatAt (bytesOf "a%d")) 0x1000 0x2000 (fun _ => 0) (bytesOf "a%d") [0] := by
  refine (printf_prints_iff _ ?_ ?_ ?_).mpr ?_
  · exact ⟨by decide, rfl, by decide, rfl, by decide, rfl, rfl⟩
  · exact ⟨by decide, trivial⟩
  · exact ⟨fun h => absurd h (by decide), trivial⟩
  · trivial

/-- The NUL behind `100%` takes an argument, and the text behind it is printed too. -/
theorem cutOff_text : StringAt (formatAt (bytesOf "100%" ++ 0 :: bytesOf "ab")) 0x1000
    (bytesOf "100%") ∧ conversions (bytesOf "100%") = [] ∧
    (printf (formatAt (bytesOf "100%" ++ 0 :: bytesOf "ab")) 0x1000 0x2000 (fun _ => 0) 10).map
    Printed.out =
      some [0x31, 0x30, 0x30, 0, 0x61, 0x62] ∧
    ∀ buf, ¬ Prints (formatAt (bytesOf "100%" ++ 0 :: bytesOf "ab")) 0x1000 0x2000
    buf (bytesOf "100%") [] := by
  have htext : StringAt (formatAt (bytesOf "100%" ++ 0 :: bytesOf "ab"))
      (0x1000 + BitVec.ofNat 32 0)
      (bytesOf "100%") := ⟨by decide, rfl, by decide, rfl, by decide, rfl, by decide, rfl, rfl⟩
  have hcut : ¬ Complete (bytesOf "100%") := fun h => h rfl
  refine ⟨htext, by decide, by decide, fun buf h => ?_⟩
  obtain ⟨fuel, r, hr, hreads, -⟩ := h
  have hread := hreads _ (cutOff_overread hcut htext hr)
  omega

end SimpleOs.Audit.PrintFormat
