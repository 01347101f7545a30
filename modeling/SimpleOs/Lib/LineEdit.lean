import Mathlib.Data.List.Induction

/-!
# Editing a line

A line typed key by key, where one key erases the last character that is left.
`typed` forgets the erasing keys instead.
-/

namespace SimpleOs.Lib.LineEdit

variable {α : Type} [DecidableEq α] (erase : α)

def edit (line : List α) (key : α) : List α :=
  if key = erase then line.dropLast else line ++ [key]

def edited (keys : List α) : List α := keys.foldl (edit erase) []

def typed (keys : List α) : List α := keys.filter fun key => key ≠ erase

variable {erase}

theorem edited_append (keys : List α) (key : α) :
    edited erase (keys ++ [key]) = edit erase (edited erase keys) key := by
  rw [edited, List.foldl_append]
  rfl

@[simp] theorem typed_erase : typed erase [erase] = [] := by simp [typed]

theorem typed_key {key : α} (h : key ≠ erase) : typed erase [key] = [key] := by simp [typed, h]

theorem typed_append_erase (keys : List α) : typed erase (keys ++ [erase]) = typed erase keys := by
  simp [typed]

theorem typed_append (keys : List α) {key : α} (h : key ≠ erase) :
    typed erase (keys ++ [key]) = typed erase keys ++ [key] := by
  simp [typed, h]

theorem typed_cons (keys : List α) (key : α) :
    typed erase (key :: keys) = typed erase [key] ++ typed erase keys :=
  List.filter_append [key] keys

theorem edit_erase (line : List α) : edit erase line erase = line.dropLast := if_pos rfl

theorem edit_key (line : List α) {key : α} (h : key ≠ erase) :
    edit erase line key = line ++ [key] :=
  if_neg h

/-- Erasing only shortens the line. -/
theorem edited_length_le (keys : List α) :
    (edited erase keys).length ≤ (typed erase keys).length := by
  induction keys using List.reverseRecOn with
  | nil => exact Nat.le_refl 0
  | append_singleton keys key ih =>
    rw [edited_append]
    by_cases h : key = erase
    · rw [h, edit_erase, typed_append_erase, List.length_dropLast]
      omega
    · rw [edit_key _ h, typed_append _ h, List.length_append, List.length_append]
      omega

theorem mem_of_mem_edited {keys : List α} {key : α} (h : key ∈ edited erase keys) : key ∈ keys := by
  induction keys using List.reverseRecOn with
  | nil => exact h
  | append_singleton keys last ih =>
    rw [edited_append, edit] at h
    rw [List.mem_append]
    split_ifs at h
    · exact .inl (ih (List.dropLast_subset _ h))
    · exact (List.mem_append.mp h).imp ih id

theorem typed_eq_nil {keys : List α} (h : typed erase keys = []) :
    keys = List.replicate keys.length erase := by
  refine List.eq_replicate_of_mem fun key hkey => ?_
  have hdrop := List.filter_eq_nil_iff.mp h key hkey
  simpa using hdrop

theorem foldl_edit (line : List α) {keys : List α} (h : erase ∉ keys) :
    keys.foldl (edit erase) line = line ++ keys := by
  induction keys generalizing line with
  | nil => simp
  | cons key keys ih =>
    obtain ⟨hkey, hkeys⟩ := not_or.mp (mt List.mem_cons.mpr h)
    rw [List.foldl_cons, edit_key _ (Ne.symm hkey), ih _ hkeys, List.append_assoc]
    rfl

theorem edited_leading (k : Nat) {keys : List α} (h : erase ∉ keys) :
    edited erase (List.replicate k erase ++ keys) = keys := by
  have hleading : (List.replicate k erase).foldl (edit erase) [] = [] := by
    induction k with
    | zero => rfl
    | succ k ih =>
      rw [List.replicate_succ, List.foldl_cons, edit_erase]
      exact ih
  rw [edited, List.foldl_append, hleading, foldl_edit [] h]
  rfl

theorem typed_leading (k : Nat) {keys : List α} (h : erase ∉ keys) :
    typed erase (List.replicate k erase ++ keys) = keys := by
  have hkeys : typed erase keys = keys :=
    List.filter_eq_self.mpr fun key hkey => decide_eq_true fun he => h (he ▸ hkey)
  rw [typed, List.filter_append, List.filter_replicate]
  simpa [typed] using hkeys

/-- Nothing is lost by forgetting the erasing keys if and only if they all come
first. -/
theorem edited_eq_typed_iff (keys : List α) : edited erase keys = typed erase keys ↔
    ∃ k rest, keys = List.replicate k erase ++ rest ∧ erase ∉ rest := by
  constructor
  · induction keys using List.reverseRecOn with
    | nil => exact fun _ => ⟨0, [], rfl, List.not_mem_nil⟩
    | append_singleton keys key ih =>
      intro h
      rw [edited_append] at h
      by_cases hkey : key = erase
      · rw [hkey, edit_erase, typed_append_erase] at h
        have hlen := congrArg List.length h
        have hle : (edited erase keys).length ≤ (typed erase keys).length := edited_length_le keys
        rw [List.length_dropLast] at hlen
        have hnil : typed erase keys = [] := List.eq_nil_of_length_eq_zero (by omega)
        refine ⟨keys.length + 1, [], ?_, List.not_mem_nil⟩
        rw [hkey, List.append_nil, List.replicate_succ', ← typed_eq_nil hnil]
      · rw [edit_key _ hkey, typed_append _ hkey] at h
        obtain ⟨k, rest, hkeys, hrest⟩ := ih (List.append_cancel_right h)
        refine ⟨k, rest ++ [key], by rw [hkeys, List.append_assoc], fun hmem => ?_⟩
        rcases List.mem_append.mp hmem with hmem | hmem
        · exact hrest hmem
        · exact hkey (List.mem_singleton.mp hmem).symm
  · intro h
    obtain ⟨k, rest, rfl, hrest⟩ := h
    rw [edited_leading k hrest, typed_leading k hrest]

end SimpleOs.Lib.LineEdit
