import SimpleOs.Kernel.Common
import SimpleOs.Kernel.Screen
import SimpleOs.Lib.CStrings

/-!
# `kterminal.c`

The command buffer is seen as the bytes from `cmd_buf` on, with whatever the heap
holds behind its 2000 characters. `start_terminal` never returns, so its loop is
the fold of one round over the characters that `get_keyboard_key` hands out.
-/

namespace SimpleOs.Kernel

open SimpleOs.Lib.ByteMemory (Byte bytesOf)

def cmdBufSize : Nat := 2000

structure Terminal where
  screen : Screen
  cmdBuf : Nat → Byte
  curCmdBufPos : Nat

/-- `!strcmp(s1, s2)` for a string constant `s1` without its NUL. -/
def strcmpEq (s1 : List Byte) (s2 : Nat → Byte) (i : Nat) : Bool :=
  match s1 with
  | [] => s2 i == 0
  | c :: s1 => s2 i == c && strcmpEq s1 s2 (i+1)

/-- The loop of `printf` over a `%s` argument. -/
def printString (limit : Nat) (p : Nat → Byte) : Nat → Nat → Screen → Except Trap Screen
  | 0, _, _ => .error .diverged
  | fuel + 1, i, s =>
    if p i ≠ 0 then do
      let s ← putchar limit ((p i).signExtend 32) s
      printString limit p fuel (i+1) s
    else .ok s

def promptText : List Byte := bytesOf ">> "
def nextPromptText : List Byte := bytesOf "\n>> "
def clearCommand : List Byte := bytesOf "clear"
def helpCommand : List Byte := bytesOf "help"
def helpText : List Byte := bytesOf "commands:\n  1. help\n  2. clear"
def unknownText : List Byte := bytesOf "unknown command \""
def quoteText : List Byte := bytesOf "\""

namespace Terminal

def addCharToBuf (c : Byte) (t : Terminal) : Terminal :=
  if t.curCmdBufPos < cmdBufSize ∧ c ≠ 10 ∧ c ≠ 13 then
    { t with
      cmdBuf := fun i => if i = t.curCmdBufPos then c else t.cmdBuf i
      curCmdBufPos := t.curCmdBufPos + 1 }
  else t

def clearBuf (t : Terminal) : Terminal :=
  { t with cmdBuf := fun i => if i < t.curCmdBufPos then 0 else t.cmdBuf i, curCmdBufPos := 0 }

def initBuf (t : Terminal) : Terminal :=
  { t with cmdBuf := fun i => if i < cmdBufSize then 0 else t.cmdBuf i, curCmdBufPos := 0 }

def runCmd (limit : Nat) (t : Terminal) : Except Trap Screen :=
  if strcmpEq clearCommand t.cmdBuf 0 then clearScreen limit t.screen
  else if strcmpEq helpCommand t.cmdBuf 0 then putchars limit helpText t.screen
  else do
    let s ← putchars limit unknownText t.screen
    let s ← printString limit t.cmdBuf loopFuel 0 s
    putchars limit quoteText s

/-- One round of the loop. -/
def handleKey (limit : Nat) (t : Terminal) (c : Byte) : Except Trap Terminal :=
  if c ≠ 0 then do
    let s ← putchar limit (c.signExtend 32) t.screen
    let t := addCharToBuf c { t with screen := s }
    if c = 10 then
      let s ← runCmd limit t
      let t := clearBuf { t with screen := s }
      let s ← putchars limit nextPromptText t.screen
      .ok { t with screen := s }
    else .ok t
  else .ok t

def handleKeys (limit : Nat) (keys : List Byte) (t : Terminal) : Except Trap Terminal :=
  keys.foldlM (handleKey limit) t

/-- `start_kernel` clears the screen, then `start_terminal` up to its loop. -/
def startTerminal (limit : Nat) (t : Terminal) : Except Trap Terminal := do
  let s ← clearScreen limit t.screen
  let t := initBuf { t with screen := s }
  let s ← putchars limit promptText t.screen
  .ok { t with screen := s }

end Terminal

/-- The comparison answers whether the memory spells the string and a NUL. -/
theorem strcmpEq_iff (s : List Byte) (m : Nat → Byte) (i : Nat) :
    strcmpEq s m i = true ↔ (∀ j (h : j < s.length), m (i+j) = s[j]) ∧ m (i + s.length) = 0 := by
  induction s generalizing i with
  | nil => simp [strcmpEq]
  | cons c s ih =>
    rw [strcmpEq, Bool.and_eq_true, beq_iff_eq, ih]
    constructor
    · intro h
      obtain ⟨hc, hrest, hend⟩ := h
      refine ⟨fun j hj => ?_, ?_⟩
      · cases j with
        | zero => exact hc
        | succ j =>
          rw [show i + (j+1) = i + 1 + j by omega]
          exact hrest j (Nat.lt_of_succ_lt_succ hj)
      · rw [List.length_cons, show i + (s.length + 1) = i + 1 + s.length by omega]
        exact hend
    · intro h
      obtain ⟨hall, hend⟩ := h
      refine ⟨hall 0 (Nat.zero_lt_succ _), fun j hj => ?_, ?_⟩
      · have h := hall (j+1) (Nat.succ_lt_succ hj)
        rw [show i + (j+1) = i + 1 + j by omega] at h
        exact h
      · rw [List.length_cons, show i + (s.length + 1) = i + 1 + s.length by omega] at hend
        exact hend

/-- Memory spells one string without a NUL at most. -/
theorem strcmpEq_unique {s s' : List Byte} {m : Nat → Byte} {i : Nat} (hs : (0 : Byte) ∉ s)
    (hs' : (0 : Byte) ∉ s') (h : strcmpEq s m i = true) (h' : strcmpEq s' m i = true) : s = s' := by
  obtain ⟨hbytes, hend⟩ := (strcmpEq_iff s m i).mp h
  obtain ⟨hbytes', hend'⟩ := (strcmpEq_iff s' m i).mp h'
  have hlen : s.length = s'.length := by
    rcases Nat.lt_trichotomy s.length s'.length with hlt | heq | hgt
    · rw [hbytes' _ hlt] at hend
      exact absurd (hend ▸ List.getElem_mem hlt) hs'
    · exact heq
    · rw [hbytes _ hgt] at hend'
      exact absurd (hend' ▸ List.getElem_mem hgt) hs
  exact List.ext_getElem hlen fun j hj hj' => (hbytes j hj).symm.trans (hbytes' j hj')

section

open SimpleOs.Lib.ByteMemory SimpleOs.Lib.CStrings

variable {m : Memory} {p buf : U32int}

theorem strcmpFrom_buffer {s : List Byte} (h : StringAt m p s) {i fuel : Nat}
    (hfuel : s.length < fuel) : ∃ r, strcmpFrom m p (buf + BitVec.ofNat 32 i) fuel = some r ∧
      (r = 0 ↔ strcmpEq s (fun j => m (buf + BitVec.ofNat 32 j)) i = true) := by
  induction s generalizing p i fuel with
  | nil =>
    obtain ⟨fuel, rfl⟩ := Nat.exists_eq_succ_of_ne_zero (by omega : fuel ≠ 0)
    have hnul : m p = 0 := h
    rw [strcmpFrom, hnul, strcmpEq, beq_iff_eq]
    by_cases hend : 0 = m (buf + BitVec.ofNat 32 i)
    · rw [if_pos hend, if_pos rfl]
      exact ⟨0, rfl, iff_of_true rfl hend.symm⟩
    · rw [if_neg hend]
      refine ⟨_, rfl, iff_of_false (fun hr => hend (BitVec.eq_of_toInt_eq ?_)) (Ne.symm hend)⟩
      omega
  | cons c s ih =>
    obtain ⟨hc, hchar, hrest⟩ := h
    obtain ⟨fuel, rfl⟩ := Nat.exists_eq_succ_of_ne_zero (by omega : fuel ≠ 0)
    rw [List.length_cons] at hfuel
    rw [strcmpFrom, hchar, strcmpEq, Bool.and_eq_true, beq_iff_eq]
    by_cases hsame : c = m (buf + BitVec.ofNat 32 i)
    · rw [if_pos hsame, if_neg hc, ← add_ofNat_succ, and_iff_right hsame.symm]
      exact ih hrest (by omega)
    · rw [if_neg hsame]
      refine ⟨_, rfl, iff_of_false (fun hr => hsame (BitVec.eq_of_toInt_eq ?_))
        fun hall => hsame hall.1.symm⟩
      omega

/-- `strcmp` of a string constant with the buffer comes back with zero exactly if the
buffer spells it. -/
theorem strcmp_buffer {s : List Byte} (h : StringAt m p s) : ∃ r, strcmp m p buf = some r ∧
    (r = 0 ↔ strcmpEq s (fun j => m (buf + BitVec.ofNat 32 j)) 0 = true) := by
  have hbuf := @strcmpFrom_buffer m p buf s h 0 stringFuel h.length_lt
  rwa [BitVec.add_zero] at hbuf

/-- The characters `printf` has for `%s` are the ones put on the screen. -/
theorem printString_putString {limit fuel i : Nat} {text : Nat → Byte} {out : List U32int}
    (h : putString text i fuel = some out)
    (s : Screen) : printString limit text fuel i s =
      out.foldlM (fun s c => putchar limit c s) s := by
  induction fuel generalizing i out s with
  | zero => cases h
  | succ fuel ih =>
    rw [putString] at h
    rw [printString]
    split_ifs at h ⊢ with h0
    · obtain ⟨rest, hrest, hout⟩ := Option.bind_eq_some_iff.mp h
      cases hout
      rw [List.foldlM_cons]
      exact congrArg _ (funext fun s1 => ih hrest s1)
    · cases h
      rfl

end

end SimpleOs.Kernel
