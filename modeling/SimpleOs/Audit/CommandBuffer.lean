import SimpleOs.Audit.CommandLine

/-!
# The string in the command buffer

From `init_buf` on the buffer follows the characters of the current line, whatever
lines came before. Its terminating NUL is a byte that was cleared and not typed over.
-/

namespace SimpleOs.Audit.CommandBuffer

open SimpleOs.Lib.ByteMemory (Byte)
open SimpleOs.Kernel
open SimpleOs.Audit.ScreenPage SimpleOs.Audit.CommandLine

/-- A newline starts a new line; NULs and carriage returns leave no character. -/
def lineStep (line : List Byte) (c : Byte) : List Byte :=
  if c = 10 then [] else if c = 0 ∨ c = 13 then line else line ++ [c]

/-- The characters received since the last newline. -/
def lineOf (keys : List Byte) : List Byte := keys.foldl lineStep []

theorem zero_not_mem_lineStep {line : List Byte} (h : (0 : Byte) ∉ line) (c : Byte) :
    (0 : Byte) ∉ lineStep line c := by
  rw [lineStep]
  split_ifs with hnl hskip
  · exact List.not_mem_nil
  · exact h
  · intro hmem
    rcases List.mem_append.mp hmem with hmem | hmem
    · exact h hmem
    · exact hskip (.inl (List.mem_singleton.mp hmem).symm)

theorem zero_not_mem_lineOf (keys : List Byte) : (0 : Byte) ∉ lineOf keys := by
  have hfold : ∀ (keys line : List Byte), (0 : Byte) ∉ line →
      (0 : Byte) ∉ keys.foldl lineStep line := by
    intro keys
    induction keys with
    | nil => exact fun _ h => h
    | cons c keys ih => exact fun line h => ih _ (zero_not_mem_lineStep h c)
  exact hfold keys [] List.not_mem_nil

section

variable {limit : Nat} {t t' : Terminal} {heap : Nat → Byte} {line : List Byte}

theorem Holds.handleKey (h : Holds t heap line) {c : Byte} (hrun : t.handleKey limit c = .ok t') :
    Holds t' heap (lineStep line c) := by
  rw [lineStep]
  by_cases hnl : c = 10
  · rw [hnl] at hrun
    rw [if_pos hnl]
    exact h.newline hrun
  · rw [if_neg hnl]
    by_cases h0 : c = 0
    · rw [h0, handleKey_zero] at hrun
      cases hrun
      rwa [if_pos (.inl h0)]
    · obtain ⟨s, -, rfl⟩ := handleKey_press h0 hnl hrun
      have hpress := h.press hnl s
      by_cases hcr : c = 13
      · rw [if_pos (.inr hcr)]
        rwa [hcr, SimpleOs.Lib.LineEdit.typed_erase, List.append_nil, ← hcr] at hpress
      · rw [if_neg (not_or.mpr ⟨h0, hcr⟩)]
        rwa [SimpleOs.Lib.LineEdit.typed_key hcr] at hpress

theorem Holds.handleKeys (h : Holds t heap line) {keys : List Byte}
    (hrun : t.handleKeys limit keys = .ok t') : Holds t' heap (keys.foldl lineStep line) := by
  induction keys generalizing t line with
  | nil =>
    cases hrun
    exact h
  | cons c keys ih =>
    rw [Terminal.handleKeys, List.foldlM_cons] at hrun
    obtain ⟨t1, ht1, hrest⟩ := bind_ok hrun
    exact ih (Holds.handleKey h ht1) hrest

end

section

variable {m m' : Nat → Byte} {n : Nat}

/-- `strcmp` with a string constant stops at the NUL at the latest. -/
theorem strcmpEq_congr (hend : m n = 0) (hagree : ∀ j ≤ n, m' j = m j) {s : List Byte}
    (hs : (0 : Byte) ∉ s) {i : Nat} (hi : i ≤ n) : strcmpEq s m' i = strcmpEq s m i := by
  induction s generalizing i with
  | nil => rw [strcmpEq, strcmpEq, hagree i hi]
  | cons c s ih =>
    obtain ⟨hc, hs⟩ := not_or.mp (mt List.mem_cons.mpr hs)
    rw [strcmpEq, strcmpEq, hagree i hi]
    rcases Nat.lt_or_eq_of_le hi with hlt | rfl
    · rw [ih hs hlt]
    · have hdiff : (m i == c) = false := by rw [hend]; exact beq_false_of_ne hc
      rw [hdiff, Bool.false_and, Bool.false_and]

theorem printString_congr (hend : m n = 0) (hagree : ∀ j ≤ n, m' j = m j) {limit fuel i : Nat}
    (hi : i ≤ n) (s : Screen) : printString limit m' fuel i s = printString limit m fuel i s := by
  induction fuel generalizing i s with
  | zero => rfl
  | succ fuel ih =>
    rw [printString, printString, hagree i hi]
    by_cases h0 : m i = 0
    · rw [if_neg (not_not.mpr h0), if_neg (not_not.mpr h0)]
    · have hlt : i < n := Nat.lt_of_le_of_ne hi fun he => h0 (he ▸ hend)
      rw [if_pos h0, if_pos h0]
      congr 1
      funext s1
      exact ih hlt s1

theorem runCmd_congr {t : Terminal} (hend : t.cmdBuf n = 0) (hagree : ∀ j ≤ n, m j = t.cmdBuf j)
    (limit : Nat) : Terminal.runCmd limit { t with cmdBuf := m } = Terminal.runCmd limit t := by
  have hclear := strcmpEq_congr hend hagree (by decide : (0 : Byte) ∉ clearCommand) (Nat.zero_le n)
  have hhelp := strcmpEq_congr hend hagree (by decide : (0 : Byte) ∉ helpCommand) (Nat.zero_le n)
  simp only [Terminal.runCmd, hclear, hhelp, printString_congr hend hagree (Nat.zero_le n)]

end

/-- The bytes of the buffer before its first NUL. -/
def bufString (t : Terminal) : List Byte :=
  ((List.range cmdBufSize).map t.cmdBuf).takeWhile fun c => c ≠ 0

/-- The buffer has its NUL, the string before it is the part of `line` that fits, nothing
else is left in it, and no byte behind it is looked at. -/
structure CommandStored (limit : Nat) (t : Terminal) (line : List Byte) : Prop where
  ends : ∃ n < cmdBufSize, t.cmdBuf n = 0
  spells : bufString t = line.take (cmdBufSize - 1)
  cleared : ∀ i, line.length ≤ i → i < cmdBufSize → t.cmdBuf i = 0
  confined : ∀ m, (∀ i < cmdBufSize, m i = t.cmdBuf i) →
    Terminal.runCmd limit { t with cmdBuf := m } = Terminal.runCmd limit t

section

variable {limit : Nat} {t t' t0 : Terminal} {heap : Nat → Byte} {line : List Byte}

theorem Holds.bufString_eq (h : Holds t heap line) (hline : (0 : Byte) ∉ line)
    (hfit : line.length < cmdBufSize) : bufString t = line := by
  have hsplit : (List.range cmdBufSize).map t.cmdBuf =
      line ++ List.replicate (cmdBufSize - line.length) 0 := by
    refine List.ext_getElem (by simp; omega) fun i hi hi' => ?_
    rw [List.length_map, List.length_range] at hi
    rw [List.getElem_map, List.getElem_range]
    rcases Nat.lt_or_ge i line.length with hin | hout
    · rw [List.getElem_append_left hin]
      exact h.chars i hin hi
    · rw [List.getElem_append_right hout, List.getElem_replicate]
      exact h.cleared i hout hi
  obtain ⟨k, hk⟩ := Nat.exists_eq_succ_of_ne_zero (by omega : cmdBufSize - line.length ≠ 0)
  have hnonzero : ∀ c ∈ line, decide (c ≠ 0) = true := by
    intro c hc
    exact decide_eq_true fun h0 => hline (h0 ▸ hc)
  rw [bufString, hsplit, List.takeWhile_append_of_pos hnonzero, hk, List.replicate_succ,
    List.takeWhile_cons_of_neg (by decide), List.append_nil]

/-- A line is stored if and only if it leaves room for the NUL. -/
theorem Holds.storedAll_iff (h : Holds t heap line) (hline : (0 : Byte) ∉ line) (limit : Nat) :
    CommandStored limit t line ↔ line.length < cmdBufSize := by
  constructor
  · intro h
    obtain ⟨⟨n, hn, h0⟩, -, -, -⟩ := h
    by_contra hlong
    rw [h.chars n (by omega) hn] at h0
    exact hline (h0 ▸ List.getElem_mem _)
  · intro hfit
    have h0 := h.cleared _ le_rfl hfit
    refine ⟨⟨_, hfit, h0⟩, ?_, h.cleared, fun m hm => ?_⟩
    · rw [Holds.bufString_eq h hline hfit, List.take_of_length_le (by omega)]
    · exact runCmd_congr h0 (fun j hj => hm j (by omega)) limit

/-- Over every stream: nothing is written behind the buffer, and a newline finds the
line stored exactly when it has fewer than 2000 characters. -/
theorem commandStored_iff {keys : List Byte} (hstart : t0.startTerminal limit = .ok t)
    (hrun : t.handleKeys limit keys = .ok t') :
    t'.curCmdBufPos ≤ cmdBufSize ∧ (∀ i, cmdBufSize ≤ i → t'.cmdBuf i = t0.cmdBuf i) ∧
    ∀ s, putchar limit ((10 : Byte).signExtend 32) t'.screen = .ok s →
      (CommandStored limit (Terminal.addCharToBuf 10 { t' with screen := s }) (lineOf keys) ↔
        (lineOf keys).length < cmdBufSize) := by
  have h : Holds t' t0.cmdBuf (lineOf keys) := Holds.handleKeys (Prompted.start_holds hstart) hrun
  have hpos := h.pos
  refine ⟨by omega, h.behind, fun s _ => ?_⟩
  have hskip : Terminal.addCharToBuf 10 { t' with screen := s } = { t' with screen := s } :=
    if_neg fun hall => hall.2.1 rfl
  rw [hskip]
  exact Holds.storedAll_iff (h.setScreen s) (zero_not_mem_lineOf keys) limit

end

/-- The letter `a` and a carriage return, over and over: each letter lands on the cell
of the one before, but the buffer grows. -/
def lettersInPlace (n : Nat) : List Byte := (List.replicate n [0x61, 13]).flatten

theorem lettersInPlace_succ (n : Nat) :
    lettersInPlace (n+1) = [0x61, 13] ++ lettersInPlace n := by
  rw [lettersInPlace, List.replicate_succ, List.flatten_cons]
  rfl

theorem lineOf_lettersInPlace (n : Nat) : lineOf (lettersInPlace n) = List.replicate n 0x61 := by
  have hfold : ∀ line, (lettersInPlace n).foldl lineStep line = line ++ List.replicate n 0x61 := by
    induction n with
    | zero => exact fun line => (List.append_nil line).symm
    | succ n ih =>
      intro line
      rw [lettersInPlace_succ, List.foldl_append, ih, List.replicate_succ]
      exact List.append_cons line 0x61 _ |>.symm
  exact hfold []

theorem lettersInPlace_handled (n : Nat) {t : Terminal} (h : t.screen.screenCursor = ⟨3, 0⟩) :
    ∃ t', t.handleKeys videoLimit (lettersInPlace n) = .ok t' ∧
    t'.screen.screenCursor = ⟨3, 0⟩ := by
  induction n generalizing t with
  | zero => exact ⟨t, rfl, h⟩
  | succ n ih =>
    obtain ⟨s, hs, hcursor⟩ : ∃ s, putchar videoLimit ((0x61 : Byte).signExtend 32) t.screen =
        .ok s ∧ s.screenCursor = ⟨4, 0⟩ := by
      obtain ⟨⟨video, cursor, high, low, back, fore⟩, buf, pos⟩ := t
      subst h
      exact ⟨_, rfl, rfl⟩
    have hletter : t.handleKey videoLimit 0x61 =
        .ok (Terminal.addCharToBuf 0x61 { t with screen := s }) := by
      rw [Terminal.handleKey, if_pos (by decide), bind_of_ok hs]
      exact if_neg (by decide)
    have hreturn : ∃ t', (Terminal.addCharToBuf 0x61 { t with screen := s }).handleKey videoLimit
        13 = .ok t' ∧ t'.screen = moveBackCursorPosition s := by
      refine ⟨_, rfl, ?_⟩
      rw [addCharToBuf_screen, addCharToBuf_screen]
    obtain ⟨t', ht', hscreen⟩ := hreturn
    have hback : t'.screen.screenCursor = ⟨3, 0⟩ := by
      rw [hscreen, moveBackCursorPosition, hcursor]
      rfl
    obtain ⟨t'', ht'', hcursor''⟩ := ih hback
    refine ⟨t'', ?_, hcursor''⟩
    rw [lettersInPlace_succ, Terminal.handleKeys, List.foldlM_append, List.foldlM_cons,
      bind_of_ok hletter, List.foldlM_cons, bind_of_ok ht']
    exact ht''

theorem firstPrompt_cursor {t : Terminal} (h : Shown t.screen firstView) :
    t.screen.screenCursor = ⟨3, 0⟩ := by
  have hx : t.screen.screenCursor.x.toNat = 3 := h.col
  have hy : 0 + t.screen.screenCursor.y.toNat = 0 := h.row
  have hx' : t.screen.screenCursor.x = 3 := BitVec.eq_of_toNat_eq hx
  have hy' : t.screen.screenCursor.y = 0 := BitVec.eq_of_toNat_eq ((Nat.zero_add _).symm.trans hy)
  rw [← hx', ← hy']

theorem newline_handled {s : Screen} (h : s.screenCursor = ⟨3, 0⟩) :
    ∃ s', putchar videoLimit ((10 : Byte).signExtend 32) s = .ok s' := by
  obtain ⟨video, cursor, high, low, back, fore⟩ := s
  subst h
  exact ⟨_, rfl⟩

/-- After 1999 letters the last byte is the NUL. -/
theorem commandStored_longestLine : ∃ t t' s, darkTerminal.startTerminal videoLimit = .ok t ∧
    t.handleKeys videoLimit (lettersInPlace 1999) = .ok t' ∧
    putchar videoLimit ((10 : Byte).signExtend 32) t'.screen = .ok s ∧
    CommandStored videoLimit (Terminal.addCharToBuf 10 { t' with screen := s })
      (lineOf (lettersInPlace 1999)) := by
  obtain ⟨t, ht, hv⟩ := darkTerminal_prompts
  obtain ⟨t', ht', hcursor⟩ := lettersInPlace_handled 1999 (firstPrompt_cursor hv)
  obtain ⟨s, hs⟩ := newline_handled hcursor
  refine ⟨t, t', s, ht, ht', hs, ((commandStored_iff ht ht').2.2 s hs).mpr ?_⟩
  rw [lineOf_lettersInPlace, List.length_replicate, cmdBufSize]
  decide

/-- After 2000 letters `run_cmd` gets a buffer without a NUL. -/
theorem fullLine_not_stored : ∃ t t' s, darkTerminal.startTerminal videoLimit = .ok t ∧
    t.handleKeys videoLimit (lettersInPlace 2000) = .ok t' ∧
    putchar videoLimit ((10 : Byte).signExtend 32) t'.screen = .ok s ∧
    ¬ CommandStored videoLimit (Terminal.addCharToBuf 10 { t' with screen := s })
      (lineOf (lettersInPlace 2000)) := by
  obtain ⟨t, ht, hv⟩ := darkTerminal_prompts
  obtain ⟨t', ht', hcursor⟩ := lettersInPlace_handled 2000 (firstPrompt_cursor hv)
  obtain ⟨s, hs⟩ := newline_handled hcursor
  refine ⟨t, t', s, ht, ht', hs, fun hstored => ?_⟩
  have h : Holds t' darkTerminal.cmdBuf (lineOf (lettersInPlace 2000)) :=
    Holds.handleKeys (Prompted.start_holds ht) ht'
  have hskip : Terminal.addCharToBuf 10 { t' with screen := s } = { t' with screen := s } :=
    if_neg fun hall => hall.2.1 rfl
  rw [hskip] at hstored
  have hfit := (Holds.storedAll_iff (h.setScreen s) (zero_not_mem_lineOf _) _).mp hstored
  rw [lineOf_lettersInPlace, List.length_replicate, cmdBufSize] at hfit
  exact absurd hfit (by decide)

end SimpleOs.Audit.CommandBuffer
