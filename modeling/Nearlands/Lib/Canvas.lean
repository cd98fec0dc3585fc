/-
  What nested loops write.

  A `Canvas` is a map from places to contents, with a log of the places written.
  `Fills P v c c'` says that `c'` is `c` with `v` at the places of `P`: all of them hold `v`, the
  others are as before, and no other place was written at all.  A drawing program is then read off
  from the inside out: one write fills one place, what is done one after the other fills both sets,
  and a counted loop fills the union over its turns, however deep the loops are nested.
-/
import Mathlib.Logic.Function.Basic

namespace Nearlands.Lib

/-- A loop that counts up: `n` turns, the first at `k`.  All loops of the drawing code and of the
    page maps are of this form, with the bounds worked out beforehand. -/
def countUp {σ : Type} (body : Nat → σ → σ) : Nat → Nat → σ → σ
  | _, 0, c => c
  | k, n + 1, c => countUp body (k + 1) n (body k c)

/-- The contents of the places, and those written so far, newest first.  The log makes "this place
    is never written" a statement of its own: a place may be written with the value it has. -/
structure Canvas (ι κ : Type) where
  cell : ι → κ
  writes : List ι

namespace Canvas

variable {ι κ : Type}

/-- Write `v` at the place `i`. -/
def put [DecidableEq ι] (c : Canvas ι κ) (i : ι) (v : κ) : Canvas ι κ :=
  ⟨Function.update c.cell i v, i :: c.writes⟩

/-- From `c` to `c'`, `v` was written at the places of `P`, and nothing else was written.  The set
    `P` is the whole specification of a drawing function with one colour; where the colour changes,
    there are two of them. -/
structure Fills (P : ι → Prop) (v : κ) (c c' : Canvas ι κ) : Prop where
  filled : ∀ i, P i → c'.cell i = v
  kept : ∀ i, ¬ P i → c'.cell i = c.cell i
  writes : ∃ log, c'.writes = log ++ c.writes ∧ ∀ i ∈ log, P i

variable {P Q : ι → Prop} {v : κ} {c c' c'' : Canvas ι κ}

/-- Nothing written.  A loop with no turns, or a test that fails. -/
theorem Fills.none (h : ∀ i, ¬ P i) : Fills P v c c where
  filled := fun i hi => absurd hi (h i)
  kept := fun _ _ => rfl
  writes := ⟨[], rfl, nofun⟩

/-- One place written. -/
theorem Fills.put [DecidableEq ι] (c : Canvas ι κ) (i : ι) (v : κ) :
    Fills (· = i) v c (c.put i v) where
  filled := by
    rintro _ rfl
    exact Function.update_self ..
  kept := fun _ hne => Function.update_of_ne hne ..
  writes := ⟨[i], rfl, fun _ => List.mem_singleton.mp⟩

/-- The places, described otherwise.  A set that comes out of nested loops is a chain of
    existentials; here it is replaced by the rectangle it is. -/
theorem Fills.congr (h : Fills P v c c') (hPQ : ∀ i, P i ↔ Q i) : Fills Q v c c' where
  filled := fun i hi => h.filled i ((hPQ i).mpr hi)
  kept := fun i hi => h.kept i fun hp => hi ((hPQ i).mp hp)
  writes := by
    obtain ⟨log, heq, hlog⟩ := h.writes
    exact ⟨log, heq, fun i hi => (hPQ i).mp (hlog i hi)⟩

/-- One after the other.  The colour is the same, so the order does not matter, and the sets may
    overlap. -/
theorem Fills.seq (h : Fills P v c c') (h' : Fills Q v c' c'') :
    Fills (fun i => P i ∨ Q i) v c c'' where
  filled := by
    intro i hi
    by_cases hQ : Q i
    · exact h'.filled i hQ
    · rw [h'.kept i hQ]
      exact h.filled i (hi.resolve_right hQ)
  kept := by
    intro i hi
    rw [h'.kept i fun hQ => hi (.inr hQ), h.kept i fun hP => hi (.inl hP)]
  writes := by
    obtain ⟨log, heq, hlog⟩ := h.writes
    obtain ⟨log', heq', hlog'⟩ := h'.writes
    refine ⟨log' ++ log, by rw [heq', heq, List.append_assoc], fun i hi => ?_⟩
    rcases List.mem_append.mp hi with hi | hi
    · exact .inr (hlog' i hi)
    · exact .inl (hlog i hi)

/-- What is done only when `b` holds.  The condition becomes part of the set. -/
theorem Fills.test {b : Prop} [Decidable b] (h : b → Fills P v c c') :
    Fills (fun i => b ∧ P i) v c (if b then c' else c) := by
  by_cases hb : b
  · rw [if_pos hb]
    exact (h hb).congr fun i => ⟨fun hi => ⟨hb, hi⟩, fun hi => hi.2⟩
  · rw [if_neg hb]
    exact .none fun i hi => hb hi.1

/-- **The loop rule.**  A loop fills what its turns fill.  The set of a turn may depend on its
    number and not on what was drawn before, which is what makes nested loops compose. -/
theorem Fills.countUp {body : Nat → Canvas ι κ → Canvas ι κ} {P : Nat → ι → Prop} :
    ∀ n k c, (∀ m, k ≤ m → m < k + n → ∀ c, Fills (P m) v c (body m c)) →
      Fills (fun i => ∃ m, k ≤ m ∧ m < k + n ∧ P m i) v c (Lib.countUp body k n c)
  | 0, k, c, _ => .none fun _ ⟨m, hk, hm, _⟩ => by omega
  | n + 1, k, c, h => by
    have hfirst := h k (Nat.le_refl k) (by omega) c
    have hrest := Fills.countUp n (k + 1) (body k c) fun m hk hm => h m (by omega) (by omega)
    refine (hfirst.seq hrest).congr fun i => ⟨?_, ?_⟩
    · rintro (hi | ⟨m, hk, hm, hi⟩)
      · exact ⟨k, Nat.le_refl k, by omega, hi⟩
      · exact ⟨m, by omega, by omega, hi⟩
    · rintro ⟨m, hk, hm, hi⟩
      rcases Nat.eq_or_lt_of_le hk with rfl | hlt
      · exact .inl hi
      · exact .inr ⟨m, hlt, by omega, hi⟩

end Canvas

end Nearlands.Lib
