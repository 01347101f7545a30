import Mathlib.Data.Set.Insert
import Mathlib.Logic.Function.Basic

/-!
# A table and what was once read from it

A table changes under updates while a reader may keep whatever it found in it, until
an update flushes all it kept. An access is answered by the table or by what is kept.
Which of the two it is, is the reader's choice; nothing here says what the table is.
-/

namespace SimpleOs.Lib.Lookaside

variable {σ κ β ι : Type}

structure Table (σ κ β ι : Type) where
  lookup : σ → κ → Option β
  next : ι → σ → σ → Prop
  flushes : ι → Prop

structure Reader (σ κ β : Type) where
  state : σ
  kept : κ → Set β

/-- A reader that has found nothing yet. -/
def Reader.opening (s : σ) : Reader σ κ β := ⟨s, fun _ => ∅⟩

inductive Event (κ β ι : Type) where
  | update (i : ι)
  | access (k : κ) (b : β)

section

variable [DecidableEq κ] (T : Table σ κ β ι)

inductive Step : Reader σ κ β → Event κ β ι → Reader σ κ β → Prop
  | update {m : Reader σ κ β} {i : ι} {s' : σ} : T.next i m.state s' → ¬ T.flushes i →
      Step m (.update i) ⟨s', m.kept⟩
  | flush {m : Reader σ κ β} {i : ι} {s' : σ} : T.next i m.state s' → T.flushes i →
      Step m (.update i) (.opening s')
  | found {m : Reader σ κ β} {k : κ} {b : β} : T.lookup m.state k = some b →
      Step m (.access k b) ⟨m.state, Function.update m.kept k (insert b (m.kept k))⟩
  | kept {m : Reader σ κ β} {k : κ} {b : β} : b ∈ m.kept k → Step m (.access k b) m

/-- Events from one reader to another, the last one first; every update is of the kind
`ok` allows. -/
inductive Path (ok : ι → σ → Prop) (m₀ : Reader σ κ β) : List (Event κ β ι) → Reader σ κ β → Prop
  | refl : Path ok m₀ [] m₀
  | step {es : List (Event κ β ι)} {m m' : Reader σ κ β} {e : Event κ β ι} : Path ok m₀ es m →
      (∀ i, e = .update i → ok i m.state) → Step T m e m' → Path ok m₀ (e :: es) m'

/-- An access for the key may be answered so. -/
def Serves (m : Reader σ κ β) (k : κ) (b : β) : Prop := ∃ m', Step T m (.access k b) m'

/-- Some access since the last flush was answered so. -/
def UsedSince : List (Event κ β ι) → κ → β → Prop
  | [], _, _ => False
  | .access k' b' :: es, k, b => (k' = k ∧ b' = b) ∨ UsedSince es k b
  | .update i :: es, k, b => ¬ T.flushes i ∧ UsedSince es k b

end

section

variable [DecidableEq κ] {T : Table σ κ β ι} {ok : ι → σ → Prop} {m₀ m m' : Reader σ κ β}
  {es : List (Event κ β ι)} {k : κ} {b : β}

theorem serves_iff : Serves T m k b ↔ T.lookup m.state k = some b ∨ b ∈ m.kept k := by
  constructor
  · intro h
    obtain ⟨m', h⟩ := h
    cases h with
    | found h => exact .inl h
    | kept h => exact .inr h
  · intro h
    rcases h with h | h
    · exact ⟨_, .found h⟩
    · exact ⟨m, .kept h⟩

theorem access_kept {k' : κ} {b' : β} (h : Step T m (.access k' b') m') :
    b ∈ m'.kept k ↔ (k' = k ∧ b' = b) ∨ b ∈ m.kept k := by
  cases h with
  | found h =>
    change b ∈ Function.update m.kept k' (insert b' (m.kept k')) k ↔ _
    by_cases hk : k' = k
    · subst hk
      simp only [Function.update_self, Set.mem_insert_iff, true_and, eq_comm]
    · rw [Function.update_of_ne (Ne.symm hk), or_iff_right fun hb => hk hb.1]
  | kept h =>
    refine (or_iff_right_of_imp ?_).symm
    intro h
    obtain ⟨rfl, rfl⟩ := h
    exact h

theorem update_kept {i : ι} (h : Step T m (.update i) m') :
    b ∈ m'.kept k ↔ ¬ T.flushes i ∧ b ∈ m.kept k := by
  cases h with
  | update _ hf => exact (and_iff_right hf).symm
  | flush _ hf => exact iff_of_false (Set.notMem_empty b) fun h => h.1 hf

theorem update_next {i : ι} (h : Step T m (.update i) m') : T.next i m.state m'.state := by
  cases h with
  | update hn _ => exact hn
  | flush hn _ => exact hn

/-- What is kept is what was used. -/
theorem Path.kept_iff {s : σ} (h : Path T ok (.opening s) es m) :
    b ∈ m.kept k ↔ UsedSince T es k b := by
  induction h with
  | refl => exact iff_of_false (Set.notMem_empty b) id
  | @step es m m' e _ _ hstep ih =>
    cases e with
    | access k' b' => exact (access_kept hstep).trans (or_congr_right ih)
    | update i => exact (update_kept hstep).trans (and_congr_right fun _ => ih)

/-- What holds of the state after every update, of every answer found, and goes on
holding of what is kept. -/
theorem Path.kept_inv {J : σ → Prop} {G : σ → β → Prop} (hstate : J m₀.state)
    (hkept : ∀ b ∈ m₀.kept k, G m₀.state b)
    (hnext : ∀ i s s', T.next i s s' → J s → J s')
    (hfound : ∀ s b, J s → T.lookup s k = some b → G s b)
    (hupdate : ∀ i s s', ok i s → T.next i s s' → ¬ T.flushes i → J s → ∀ b, G s b → G s' b)
    (h : Path T ok m₀ es m) : J m.state ∧ ∀ b ∈ m.kept k, G m.state b := by
  induction h with
  | refl => exact ⟨hstate, hkept⟩
  | @step es m m' e _ hok hstep ih =>
    obtain ⟨hJ, hG⟩ := ih
    cases hstep with
    | @update i s' hn hf => exact ⟨hnext i _ _ hn hJ,
      fun b hb => hupdate i _ _ (hok i rfl) hn hf hJ b (hG b hb)⟩
    | @flush i s' hn hf => exact ⟨hnext i _ _ hn hJ, fun b hb => absurd hb (Set.notMem_empty b)⟩
    | kept h => exact ⟨hJ, hG⟩
    | @found k' b' h =>
      refine ⟨hJ, fun b hb => ?_⟩
      rcases (access_kept (.found h)).mp hb with ⟨rfl, rfl⟩ | hb
      · exact hfound _ _ hJ h
      · exact hG b hb

/-- An answer the table has lost is kept, or gone for good. -/
theorem Path.kept_of_absent {J : σ → Prop} (hstate : J m₀.state)
    (hmiss : T.lookup m₀.state k ≠ some b)
    (hnext : ∀ i s s', T.next i s s' → J s → J s')
    (hflush : ∀ i s, ok i s → ¬ T.flushes i)
    (hupdate : ∀ i s s', ok i s → T.next i s s' → J s → T.lookup s k ≠ some b →
      T.lookup s' k ≠ some b)
    (h : Path T ok m₀ es m) :
    J m.state ∧ T.lookup m.state k ≠ some b ∧ (b ∈ m.kept k ↔ b ∈ m₀.kept k) := by
  induction h with
  | refl => exact ⟨hstate, hmiss, Iff.rfl⟩
  | @step es m m' e _ hok hstep ih =>
    obtain ⟨hJ, hm, hkept⟩ := ih
    cases hstep with
    | @update i s' hn hf =>
      exact ⟨hnext i _ _ hn hJ, hupdate i _ _ (hok i rfl) hn hJ hm, hkept⟩
    | @flush i s' hn hf => exact absurd hf (hflush i _ (hok i rfl))
    | kept h => exact ⟨hJ, hm, hkept⟩
    | @found k' b' h =>
      refine ⟨hJ, hm, (access_kept (.found h)).trans ((or_iff_right ?_).trans hkept)⟩
      intro h
      obtain ⟨rfl, rfl⟩ := h
      exact hm h

end

end SimpleOs.Lib.Lookaside
