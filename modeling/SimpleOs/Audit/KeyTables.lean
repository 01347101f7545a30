import SimpleOs.Audit.KeyBuffer

/-!
# The key tables

What `keyboard_to_ascii` reads from its four strings, and what arrives at the reader.
The range of the first letter row is three keys too long. One of the three is the enter
key, tested before; `0x1A` finds the NUL of the string and `0x1B` the byte behind it.
-/

namespace SimpleOs.Audit.KeyTables

open SimpleOs.Kernel
open SimpleOs.Kernel.Keyboard (after)
open SimpleOs.Audit.KeyBuffer
open SimpleOs.Lib.ByteMemory

/-- The string `keyboard_to_ascii` indexes for a key, and the index. -/
def lookupOf (key : U8int) : Option (String × Nat) :=
  if key = 0x1C ∨ key = 0x39 ∨ key = 0x0E ∨ key = 0x34 ∨ key = 0x35 ∨ key = 0x0B then none
  else if 0x02 ≤ key ∧ key ≤ 0x0B then some ("123456789", (key - 0x02).toNat)
  else if 0x10 ≤ key ∧ key ≤ 0x1C then some ("qwertyuiop", (key - 0x10).toNat)
  else if 0x1E ≤ key ∧ key ≤ 0x26 then some ("asdfghjkl", (key - 0x1E).toNat)
  else if 0x2C ≤ key ∧ key ≤ 0x32 then some ("zxcvbnm", (key - 0x2C).toNat)
  else none

def specialKeys : List (U8int × Byte) :=
  [(0x1C, 0x0A), (0x39, 0x20), (0x0E, 0x0D), (0x34, 0x2E), (0x35, 0x2F), (0x0B, 0x30)]

/-- The strings, each with the key of its first character. -/
def rows : List (U8int × String) :=
  [(0x02, "123456789"), (0x10, "qwertyuiop"), (0x1E, "asdfghjkl"), (0x2C, "zxcvbnm")]

/-- The character of a key: its own, or the one at its place in a string, or 0. -/
def tableChar (key : U8int) : Byte :=
  (specialKeys.lookup key).getD
    ((rows.findSome? fun row => (bytesOf row.2)[(key - row.1).toNat]?).getD 0)

section

variable {key : U8int}

/-- A lookup is an array access: up to the NUL the string, `past` behind it. -/
theorem keyboardToAscii_of_lookup {row : String} {i : Nat} (past : Byte)
    (h : lookupOf key = some (row, i)) :
    keyboardToAscii past key = if i ≤ (bytesOf row).length then charAt row i else past := by
  rw [lookupOf] at h
  split_ifs at h with hspecial hdigit hupper hmiddle hlower
  all_goals
    cases h
    simp only [not_or] at hspecial
    obtain ⟨h1, h2, h3, h4, h5, h6⟩ := hspecial
    rw [keyboardToAscii, if_neg h1, if_neg h2, if_neg h3, if_neg h4, if_neg h5, if_neg h6]
  · have hin : (key - 0x02).toNat ≤ 9 := by bv_omega
    rw [if_pos hdigit]
    exact (if_pos hin).symm
  · rw [if_neg hdigit, if_pos hupper]
    by_cases hpast : key = 0x1B
    · subst hpast
      rfl
    · have hin : (key - 0x10).toNat ≤ 10 := by bv_omega
      rw [if_neg hpast]
      exact (if_pos hin).symm
  · have hin : (key - 0x1E).toNat ≤ 9 := by bv_omega
    rw [if_neg hdigit, if_neg hupper, if_pos hmiddle]
    exact (if_pos hin).symm
  · have hin : (key - 0x2C).toNat ≤ 7 := by bv_omega
    rw [if_neg hdigit, if_neg hupper, if_neg hmiddle, if_pos hlower]
    exact (if_pos hin).symm

/-- Two keys are looked up behind the characters of their row. -/
theorem lookup_inside {row : String} {i : Nat} (h : lookupOf key = some (row, i))
    (hnul : key ≠ 0x1A) (hpast : key ≠ 0x1B) : i < (bytesOf row).length := by
  rw [lookupOf] at h
  split_ifs at h with hspecial hdigit hupper hmiddle hlower
  all_goals
    cases h
    simp only [not_or] at hspecial
  · exact show (key - 0x02).toNat < 9 by bv_omega
  · exact show (key - 0x10).toNat < 10 by bv_omega
  · exact show (key - 0x1E).toNat < 9 by bv_omega
  · exact show (key - 0x2C).toNat < 7 by bv_omega

theorem keyboardToAscii_past (past : Byte) (h : key ≠ 0x1B) :
    keyboardToAscii past key = keyboardToAscii 0 key := by
  simp only [keyboardToAscii, h, if_false]

theorem tableChar_of_ne (past : Byte) (h : key ≠ 0x1B) :
    keyboardToAscii past key = tableChar key := by
  have hall : ∀ key : U8int, key ≠ 0x1B → keyboardToAscii 0 key = tableChar key := by decide +kernel
  rw [keyboardToAscii_past past h, hall key h]

theorem tableChar_released (h : 0x80 ≤ key) : tableChar key = 0 := by
  have hall : ∀ key : U8int, 0x80 ≤ key → tableChar key = 0 := by decide +kernel
  exact hall key h

end

/-- An interrupt now gets to the port and into the buffer. -/
def Accepts (s : Keyboard) : Prop := s.mutex = unlocked ∧ s.keyLoc < keyCacheSize - 1

instance (s : Keyboard) : Decidable (Accepts s) := inferInstanceAs (Decidable (_ ∧ _))

section

variable (past : Byte) (cache : Int → Byte) (events : Nat → KeyEvent)

/-- The scan codes `keyboard_to_ascii` was called with in the first `n` events. -/
def scanned : Nat → List U8int
  | 0 => []
  | n + 1 =>
    scanned n ++ match events n with
      | .interrupt key => if Accepts (after past cache events n) then [key] else []
      | .read => []

/-- Lookups inside the strings; what was taken comes from the tables, and what is returned
is 0 or the head taken for it; a released key counts as none. -/
structure Tabled (n : Nat) : Prop where
  lookups : ∀ key ∈ scanned past cache events n, ∀ row i, lookupOf key = some (row, i) →
    i < (bytesOf row).length
  delivered : (after past cache events n).taken =
    ((scanned past cache events n).take (after past cache events n).taken.length).map tableChar
  current : (after past cache events n).ch = 0 ∨
    (after past cache events n).taken.getLast? = some (after past cache events n).ch
  returned : ((after past cache events n).returned.filter (· ≠ 0)).Sublist
    (after past cache events n).taken
  released : ∀ key ∈ scanned past cache events n, 0x80 ≤ key → keyboardToAscii past key = 0

/-- No interrupt that gets to the port finds `[` or `]` there. -/
def NoBracket : Prop :=
  ∀ n key, events n = .interrupt key → Accepts (after past cache events n) → key ≠ 0x1A ∧ key ≠ 0x1B

theorem stored_scanned (n : Nat) : (after past cache events n).stored =
    (scanned past cache events n).map (keyboardToAscii past) := by
  induction n with
  | zero => rfl
  | succ n ih =>
    rw [after, scanned]
    cases events n with
    | read => rw [Keyboard.step, read_stored, List.append_nil, ih]
    | interrupt key =>
      simp only [Keyboard.step]
      have hword := (after_good past cache events n).word
      split_ifs with haccepts
      · have hstored : ((clearCh (after past cache events n)).storeKey
            (keyboardToAscii past key)).stored =
            (after past cache events n).stored ++ [keyboardToAscii past key] := rfl
        rw [callback_of_room hword haccepts.1 haccepts.2, hstored, ih,
          List.map_append, List.map_singleton]
      · have hkeeps : (after past cache events n).keyboardCallback past key =
            clearCh (after past cache events n) := by
          by_cases hheld : (after past cache events n).mutex = locked
          · exact callback_of_held hword hheld
          · exact callback_of_full hword fun hroom => haccepts ⟨hword.free_of_not_held hheld, hroom⟩
        rw [hkeeps, List.append_nil]
        exact ih

/-- What `get_keyboard_key` has in `ch` is 0 or the head it took. -/
theorem ch_taken (n : Nat) : (after past cache events n).ch = 0 ∨
    (after past cache events n).taken.getLast? = some (after past cache events n).ch := by
  induction n with
  | zero => exact .inl rfl
  | succ n ih =>
    have hgood := after_good past cache events n
    rw [after]
    set s := after past cache events n
    cases events n with
    | interrupt key => exact .inl (callback_ch hgood.word key)
    | read =>
      simp only [Keyboard.step, Keyboard.getKeyboardKey]
      cases s.reader with
      | test => exact .inl (write8_same s.data chAt 0)
      | lock => exact .inl (xchg_clears s.data keyLocMtx).first
      | take =>
        refine .inr ?_
        have hch : write8 s.data chAt (s.keycache 0) chAt = s.keycache 0 := write8_same ..
        simp only [Keyboard.ch, hch, List.getLast?_concat]
      | _ => exact ih

/-- The answers of the calls so far, the running one with what it has in `ch`. -/
def answers (s : Keyboard) : List Byte :=
  if s.reader = .test then s.returned else s.returned ++ [s.ch]

theorem filter_snoc_zero (l : List Byte) : (l ++ [0]).filter (· ≠ 0) = l.filter (· ≠ 0) := by
  rw [List.filter_append]
  exact List.append_nil _

theorem returned_answers (s : Keyboard) :
    (s.returned.filter (· ≠ 0)).Sublist ((answers s).filter (· ≠ 0)) := by
  rw [answers]
  split_ifs with hr
  · exact List.Sublist.refl _
  · exact (List.sublist_append_left ..).filter _

/-- A zero among the answers says nothing about what was taken. -/
theorem answers_of_zero {s : Keyboard} (hch : s.ch = 0) :
    (answers s).filter (· ≠ 0) = s.returned.filter (· ≠ 0) := by
  rw [answers, hch]
  split_ifs with hr
  · rfl
  · exact filter_snoc_zero _

theorem answers_read {s : Keyboard} (h : ((answers s).filter (· ≠ 0)).Sublist s.taken) :
    ((answers s.getKeyboardKey).filter (· ≠ 0)).Sublist s.getKeyboardKey.taken := by
  have hreturned := (returned_answers s).trans h
  cases hr : s.reader with
  | test =>
    have hch : s.getKeyboardKey.ch = 0 := by
      rw [Keyboard.getKeyboardKey, hr]
      exact write8_same s.data chAt 0
    rw [answers_of_zero hch, Keyboard.getKeyboardKey, hr]
    exact hreturned
  | lock =>
    have hch : s.getKeyboardKey.ch = 0 := by
      rw [Keyboard.getKeyboardKey, hr]
      exact (xchg_clears s.data keyLocMtx).first
    rw [answers_of_zero hch, Keyboard.getKeyboardKey, hr]
    exact hreturned
  | take =>
    have hch : s.getKeyboardKey.ch = s.keycache 0 := by
      rw [Keyboard.getKeyboardKey, hr]
      exact write8_same s.data chAt _
    have hanswers : answers s.getKeyboardKey = s.returned ++ [s.keycache 0] := by
      rw [answers, hch, Keyboard.getKeyboardKey, hr]
      rfl
    have htaken : s.getKeyboardKey.taken = s.taken ++ [s.keycache 0] := by
      rw [Keyboard.getKeyboardKey, hr]
    rw [hanswers, htaken, List.filter_append]
    exact hreturned.append List.filter_sublist
  | ret =>
    have hanswers : answers s.getKeyboardKey = answers s := by
      rw [answers, answers, Keyboard.getKeyboardKey, hr]
      rfl
    rw [hanswers, Keyboard.getKeyboardKey, hr]
    exact h
  | loopTest i =>
    have hnext : s.getKeyboardKey.reader ≠ .test := by
      rw [Keyboard.getKeyboardKey, hr]
      by_cases hi : i < s.keyLoc
      · simp only [hi, if_true, ne_eq, reduceCtorEq, not_false_eq_true]
      · simp only [hi, if_false, ne_eq, reduceCtorEq, not_false_eq_true]
    have hanswers : answers s.getKeyboardKey = answers s := by
      rw [answers, answers, if_neg hnext, Keyboard.getKeyboardKey, hr]
      rfl
    rw [hanswers, Keyboard.getKeyboardKey, hr]
    exact h
  | _ =>
    have hanswers : answers s.getKeyboardKey = answers s := by
      rw [answers, answers, Keyboard.getKeyboardKey, hr]
      rfl
    rw [hanswers, Keyboard.getKeyboardKey, hr]
    exact h

/-- Read without its zeros, what the calls return is taken from the buffer, each key at
most once and in order. -/
theorem answers_taken (n : Nat) : ((answers (after past cache events n)).filter (· ≠ 0)).Sublist
    (after past cache events n).taken := by
  induction n with
  | zero => exact List.Sublist.refl _
  | succ n ih =>
    have hword := (after_good past cache events n).word
    rw [after]
    cases events n with
    | read => exact answers_read ih
    | interrupt key =>
      have hreturned := (returned_answers _).trans ih
      rw [Keyboard.step, answers_of_zero (callback_ch hword key)]
      rcases callback_clears hword key with hc | ⟨c, hc⟩
      · rw [hc]
        exact hreturned
      · rw [hc]
        exact hreturned

variable {past cache events}

theorem scanned_noBracket (h : NoBracket past cache events) {n : Nat} {key : U8int}
    (hkey : key ∈ scanned past cache events n) : key ≠ 0x1A ∧ key ≠ 0x1B := by
  induction n with
  | zero => cases hkey
  | succ n ih =>
    rw [scanned, List.mem_append] at hkey
    rcases hkey with hkey | hkey
    · exact ih hkey
    · cases hevent : events n with
      | read => rw [hevent] at hkey; cases hkey
      | interrupt k =>
        rw [hevent] at hkey
        split_ifs at hkey with haccepts
        · rw [List.mem_singleton.mp hkey]
          exact h n k hevent haccepts
        · cases hkey

theorem scanned_of_accepted {n : Nat} {key : U8int} (hkey : events n = .interrupt key)
    (h : Accepts (after past cache events n)) : key ∈ scanned past cache events (n+1) := by
  rw [scanned, hkey]
  refine List.mem_append_right _ ?_
  simp only [h, if_true]
  exact List.mem_singleton_self key

end

/-- The lookups stay inside the strings, and the reader gets table characters, exactly if
no scan code read is `0x1A` or `0x1B`. -/
theorem tabled_iff (past : Byte) (cache : Int → Byte) (events : Nat → KeyEvent) :
    (∀ n, Tabled past cache events n) ↔ NoBracket past cache events := by
  constructor
  · intro h n key hkey haccepts
    have hlookups := (h (n+1)).lookups key (scanned_of_accepted hkey haccepts)
    constructor
    · intro he
      subst he
      exact absurd (hlookups "qwertyuiop" 10 rfl) (by decide)
    · intro he
      subst he
      exact absurd (hlookups "qwertyuiop" 11 rfl) (by decide)
  · intro h n
    have hkeys : ∀ key ∈ scanned past cache events n, keyboardToAscii past key = tableChar key :=
      fun key hkey => tableChar_of_ne past (scanned_noBracket h hkey).2
    have hfifo := (after_good past cache events n).fifo
    rw [stored_scanned, List.map_congr_left hkeys] at hfifo
    refine ⟨fun key hkey row i hlookup => ?_, ?_, ch_taken past cache events n,
      (returned_answers _).trans (answers_taken past cache events n), fun key hkey hreleased => ?_⟩
    · obtain ⟨hnul, hpast⟩ := scanned_noBracket h hkey
      exact lookup_inside hlookup hnul hpast
    · rw [List.map_take, hfifo, List.take_left]
    · rw [hkeys key hkey, tableChar_released hreleased]

/-- The key of `]`, then the reader. -/
def bracketKey : Nat → KeyEvent := fun n => if n = 0 then .interrupt 0x1B else .read

/-- With `asdfghjkl` behind `qwertyuiop`, `]` arrives as `a`. -/
theorem bracket_delivered : lookupOf 0x1A = some ("qwertyuiop", 10) ∧
    lookupOf 0x1B = some ("qwertyuiop", 11) ∧ tableChar 0x1B = 0 ∧
    (∀ past, keyboardToAscii past 0x1B = past) ∧
    (after 0x61 (fun _ => 0) bracketKey 4).taken = [0x61] ∧
    ¬ Tabled 0x61 (fun _ => 0) bracketKey 4 := by
  have hlookup : lookupOf 0x1B = some ("qwertyuiop", 11) := rfl
  refine ⟨rfl, hlookup, by decide,
    fun past => keyboardToAscii_of_lookup past hlookup, by decide, fun h => ?_⟩
  exact absurd (h.lookups 0x1B (by decide) "qwertyuiop" 11 hlookup) (by decide)

end SimpleOs.Audit.KeyTables
