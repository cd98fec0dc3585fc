/-
  The bitmap as a set of pages.

  `State.used s p` reads page `p`'s bit as a boolean.  Everything the later files need to know
  about byte and bit arithmetic is stated here once: what `SET_BITMAP`/`CLEAR_BITMAP` do to
  `used`, and what the two tests of a masked byte mean (`getBitInBitmap_eq_CLEAR`,
  `getBitInBitmap_eq_SET`).  The second test is the odd one: it sees a used page only at
  position 0 of its byte.
-/
import Nearlands.Pmm.Bitmap
import Mathlib.Data.Nat.Bitwise

namespace Nearlands.Pmm

open Nearlands.Lib

/-- Page `p` is marked in use.  It looks at any page number, also far outside the storage, where the
    bits are those of other memory. -/
def State.used (s : State) (p : Nat) : Bool := (s.bytes (p / 8)).toNat.testBit (p % 8)

/-! ## One byte -/

/-- The mask of a bit is its weight in the byte. -/
theorem toNat_mask (p : Nat) : (mask p).toNat = 2 ^ (p % 8) := by
  have hp : p % 8 < 8 := Nat.mod_lt _ (by decide)
  have hpow : 2 ^ (p % 8) < 2 ^ 8 := Nat.pow_lt_pow_right (by decide) hp
  simp only [mask, UInt8.toNat_shiftLeft, UInt8.toNat_ofNat', UInt8.reduceToNat]
  rw [Nat.mod_eq_of_lt (show p % 8 < 2 ^ 8 by omega), Nat.mod_eq_of_lt hp, Nat.one_shiftLeft,
    Nat.mod_eq_of_lt hpow]

/-- Or-ing a mask sets exactly its bit. -/
theorem testBit_or_mask (x : UInt8) (p j : Nat) :
    (x ||| mask p).toNat.testBit j = (decide (p % 8 = j) || x.toNat.testBit j) := by
  rw [UInt8.toNat_or, Nat.testBit_or, toNat_mask, Nat.testBit_two_pow, Bool.or_comm]

/-- And-ing the complement of a mask clears exactly its bit. -/
theorem testBit_and_not_mask (x : UInt8) (p : Nat) {j : Nat} (hj : j < 8) :
    (x &&& ~~~ mask p).toNat.testBit j = (!decide (p % 8 = j) && x.toNat.testBit j) := by
  have hnot : (~~~ mask p).toNat.testBit j = !decide (p % 8 = j) := by
    have hlt : (mask p).toNat < 2 ^ 8 := UInt8.toNat_lt _
    rw [UInt8.toNat_not, show UInt8.size - 1 - (mask p).toNat = 2 ^ 8 - ((mask p).toNat + 1) by
      simp only [UInt8.size]; omega, Nat.testBit_two_pow_sub_succ hlt, toNat_mask,
      Nat.testBit_two_pow]
    simp [hj]
  rw [UInt8.toNat_and, Nat.testBit_and, hnot, Bool.and_comm]

/-! ## `SET_BITMAP` and `CLEAR_BITMAP` on the set of used pages -/

/-- Setting a bit adds its page to the set, and nothing else. -/
@[simp] theorem used_setBitmap (s : State) (p q : Nat) :
    (s.setBitmap p).used q = (decide (q = p) || s.used q) := by
  unfold State.setBitmap State.used
  by_cases hb : q / 8 = p / 8
  · have hiff : (p % 8 = q % 8) ↔ (q = p) := by omega
    simp only [hb, if_true, testBit_or_mask, hiff]
  · have hne : q ≠ p := fun h => hb (by rw [h])
    simp [hb, hne]

/-- Clearing it takes the page away. -/
@[simp] theorem used_clearBitmap (s : State) (p q : Nat) :
    (s.clearBitmap p).used q = (!decide (q = p) && s.used q) := by
  unfold State.clearBitmap State.used
  by_cases hb : q / 8 = p / 8
  · have hiff : (p % 8 = q % 8) ↔ (q = p) := by omega
    simp only [hb, if_true, testBit_and_not_mask _ _ (Nat.mod_lt q (by decide : 0 < 8)), hiff]
  · have hne : q ≠ p := fun h => hb (by rw [h])
    simp [hb, hne]

/-- The counter is no part of the set. -/
@[simp] theorem used_incrementPageUsage (s : State) (q : Nat) :
    s.incrementPageUsage.used q = s.used q := by
  unfold State.incrementPageUsage; split <;> rfl

/-- Nor is it when it goes down. -/
@[simp] theorem used_decrementPageUsage (s : State) (q : Nat) :
    s.decrementPageUsage.used q = s.used q := by
  unfold State.decrementPageUsage; split <;> rfl

/-! The statics that only init writes. -/

/-- `pageCount`, `usablePageCount`, `bitmapSize` and `bitmap`.  They stay what init made them, which
    is what keeps the bounds of all loops. -/
def State.statics (s : State) : Nat × Nat × Nat × Nat :=
  (s.pageCount, s.usablePageCount, s.bitmapSize, s.bitmap)

@[simp] theorem statics_setBitmap (s : State) (p : Nat) :
    (s.setBitmap p).statics = s.statics := rfl

@[simp] theorem statics_clearBitmap (s : State) (p : Nat) :
    (s.clearBitmap p).statics = s.statics := rfl

@[simp] theorem statics_incrementPageUsage (s : State) :
    s.incrementPageUsage.statics = s.statics := by
  unfold State.incrementPageUsage; split <;> rfl

@[simp] theorem statics_decrementPageUsage (s : State) :
    s.decrementPageUsage.statics = s.statics := by
  unfold State.decrementPageUsage; split <;> rfl

/-! ## The two tests of a masked byte -/

/-- The masked byte is the bit's weight, or zero.  Both tests of the code are comparisons of this
    number, with 0 and with 1. -/
theorem getBitInBitmap_eq (s : State) (p : Nat) :
    s.getBitInBitmap p = if s.used p = true then 2 ^ (p % 8) else 0 := by
  rw [State.getBitInBitmap, State.used]
  rw [Nat.one_shiftLeft, Nat.and_two_pow]
  cases (s.bytes (p / 8)).toNat.testBit (p % 8) <;> simp

/-- `== CLEAR` is the test it looks like.  So the first page of a window is always clear. -/
theorem getBitInBitmap_eq_CLEAR (s : State) (p : Nat) :
    s.getBitInBitmap p = CLEAR ↔ s.used p = false := by
  rw [getBitInBitmap_eq]
  cases s.used p <;> simp

/-- `== SET` holds for a used page at position 0 of its byte only.  `SET` is 1, and the weight of
    the bit is 1 only there.  Seven of eight used pages pass the test behind the first page of a
    window; all that this development has to say about runs that overlap goes back to this lemma. -/
theorem getBitInBitmap_eq_SET (s : State) (p : Nat) :
    s.getBitInBitmap p = SET ↔ s.used p = true ∧ p % 8 = 0 := by
  rw [getBitInBitmap_eq]
  cases s.used p with
  | false => simp
  | true =>
    simp only [if_true, true_and]
    constructor
    · intro h
      rcases Nat.eq_zero_or_pos (p % 8) with h0 | h0
      · exact h0
      · have h2 : 2 ^ 1 ≤ 2 ^ (p % 8) := Nat.pow_le_pow_right (by decide) h0
        exact absurd (h ▸ h2) (by decide)
    · intro h
      rw [h]
      rfl

/-! ## The window loops -/

section window

variable {i : Nat} {step : State → Nat → State} {loop : Nat → Nat → State → State}

/-- A loop that writes the bit of one page a turn leaves its window with that value, and the other
    pages as they were.  Marking and clearing are the two instances.  The bound keeps the window
    from wrapping around. -/
theorem used_window {b : Bool} (hzero : ∀ j s, loop 0 j s = s)
    (hsucc : ∀ n j s, loop (n + 1) j s = loop n (j + 1) (step s (w64 (i + j))))
    (hstep : ∀ s p q, (step s p).used q = if q = p then b else s.used q) :
    ∀ (n j : Nat) (s : State) (q : Nat), i + j + n ≤ 2 ^ 64 →
      (loop n j s).used q = if i + j ≤ q ∧ q < i + j + n then b else s.used q := by
  intro n
  induction n with
  | zero =>
    intro j s q _
    rw [hzero, if_neg (by omega)]
  | succ n ih =>
    intro j s q hlt
    rw [hsucc, ih (j + 1) _ q (by omega), hstep, w64_of_lt (by omega)]
    by_cases hfirst : q = i + j
    · rw [if_neg (by omega), if_pos hfirst, if_pos (by omega)]
    · rw [if_neg hfirst]
      exact if_congr (by omega) rfl rfl

/-- Such a loop keeps what init made. -/
theorem statics_window (hzero : ∀ j s, loop 0 j s = s)
    (hsucc : ∀ n j s, loop (n + 1) j s = loop n (j + 1) (step s (w64 (i + j))))
    (hstep : ∀ s p, (step s p).statics = s.statics) :
    ∀ (n j : Nat) (s : State), (loop n j s).statics = s.statics := by
  intro n
  induction n with
  | zero =>
    intro j s
    rw [hzero]
  | succ n ih =>
    intro j s
    rw [hsucc, ih, hstep]

end window

/-- The marking loop marks its window and nothing else. -/
theorem used_markWindow (i : Nat) (n j : Nat) (s : State) (q : Nat) (h : i + j + n ≤ 2 ^ 64) :
    (State.markWindow i n j s).used q = (decide (i + j ≤ q ∧ q < i + j + n) || s.used q) := by
  have hstep : ∀ (s : State) (p q : Nat), ((s.setBitmap p).incrementPageUsage).used q =
      if q = p then true else s.used q := by
    intro s p q
    rw [used_incrementPageUsage, used_setBitmap]
    split <;> simp [*]
  rw [used_window (fun _ _ => rfl) (fun _ _ _ => rfl) hstep n j s q h]
  split <;> simp [*]

/-- The clearing loop clears its window and nothing else. -/
theorem used_clearWindow (i : Nat) (n j : Nat) (s : State) (q : Nat) (h : i + j + n ≤ 2 ^ 64) :
    (State.clearWindow i n j s).used q = (!decide (i + j ≤ q ∧ q < i + j + n) && s.used q) := by
  have hstep : ∀ (s : State) (p q : Nat), ((s.clearBitmap p).decrementPageUsage).used q =
      if q = p then false else s.used q := by
    intro s p q
    rw [used_decrementPageUsage, used_clearBitmap]
    split <;> simp [*]
  rw [used_window (fun _ _ => rfl) (fun _ _ _ => rfl) hstep n j s q h]
  split <;> simp [*]

@[simp] theorem statics_markWindow (i n j : Nat) (s : State) :
    (State.markWindow i n j s).statics = s.statics := by
  have hstep : ∀ (s : State) (p : Nat), ((s.setBitmap p).incrementPageUsage).statics = s.statics := by
    intro s p
    rw [statics_incrementPageUsage, statics_setBitmap]
  exact statics_window (fun _ _ => rfl) (fun _ _ _ => rfl) hstep n j s

@[simp] theorem statics_clearWindow (i n j : Nat) (s : State) :
    (State.clearWindow i n j s).statics = s.statics := by
  have hstep : ∀ (s : State) (p : Nat), ((s.clearBitmap p).decrementPageUsage).statics = s.statics := by
    intro s p
    rw [statics_decrementPageUsage, statics_clearBitmap]
  exact statics_window (fun _ _ => rfl) (fun _ _ _ => rfl) hstep n j s

end Nearlands.Pmm
