/-
  The rounding of a number.

  A carry of one goes through the digits from the lowest one on: a nine becomes a zero and hands the
  carry on, any other digit takes it.  Two things make this more than a loop over digits: in front of
  the digits behind the point the loop meets the point, and behind the last digit it writes a new
  one.  The number with the carry, `Nat.ofDigits 10 ds + carry * 10 ^ i`, stays what it was.
-/
import Nearlands.Npf.Fraction

namespace Nearlands.Npf

open Nearlands.Lib

variable {fs : FormatSpec} {ds : List Nat} {i p total : Nat} {s : Rounding}

/-! ## The number in the buffer -/

/-- The buffer holds a number, all of its digits and its point.  The number of its digits is at
    least one more than its places, as there is a digit in front of the point. -/
structure Complete (fs : FormatSpec) (n : Nat) (buf : Cbuf) (ds : List Nat) : Prop where
  number : Numeral fs 0 buf ds
  long : fs.prec < ds.length
  fin : n = ds.length + fs.dot
  room : n ≤ conversionBufferSize

/-- The point of a number that has one. -/
def point (fs : FormatSpec) : List UInt8 :=
  if fs.prec ≠ 0 ∨ fs.altForm then ['.'.toUInt8] else []

/-- A decimal number: the digits in front of the point, the point, and the digits behind it. -/
def decimalText (fs : FormatSpec) (ds : List Nat) : List UInt8 :=
  ((ds.drop fs.prec).map decimal).reverse ++ point fs ++ ((ds.take fs.prec).map decimal).reverse

/-- It takes the bytes that were left for it. -/
theorem point_length (fs : FormatSpec) : (point fs).length = fs.dot := by
  unfold point FormatSpec.dot
  split <;> rfl

/-- Backwards the buffer is the decimal number. -/
theorem Complete.readBack {n : Nat} {buf : Cbuf} (h : Complete fs n buf ds) :
    buf.readBack n = .done (decimalText fs ds) := by
  have hlong := h.long
  have htake : ((ds.take fs.prec).map decimal).length = fs.prec := by
    rw [List.length_map, List.length_take]
    omega
  have hlen : n = ((ds.take fs.prec).map decimal ++
      (point fs ++ (ds.drop fs.prec).map decimal)).length := by
    rw [List.length_append, List.length_append, htake, point_length, List.length_map,
      List.length_drop, h.fin]
    omega
  -- byte by byte: the buffer holds the digits, lowest first, with the point between
  have hholds : buf.Holds ((ds.take fs.prec).map decimal ++
      (point fs ++ (ds.drop fs.prec).map decimal)) := by
    intro i hi
    rw [← hlen, h.fin] at hi
    rcases Nat.lt_or_ge i fs.prec with hlow | hhigh
    · -- behind the point
      have hbyte := h.number.digit i (Nat.zero_le i) (by omega)
      rw [FormatSpec.place_low hlow] at hbyte
      rw [hbyte, List.getElem_append_left (by omega), List.getElem_map, List.getElem_take]
    rw [List.getElem_append_right (by omega)]
    by_cases hpoint : fs.dot = 1 ∧ i = fs.prec
    · -- the point
      obtain ⟨hdot, rfl⟩ := hpoint
      have hone : point fs = ['.'.toUInt8] := by
        refine if_pos (Decidable.byContradiction fun hno => ?_)
        rw [FormatSpec.dot, if_neg hno] at hdot
        exact absurd hdot (by decide)
      rw [h.number.point hdot]
      simp [hone, Nat.min_eq_left hlong.le]
    · -- in front of it
      have hdot := fs.dot_le
      have hbyte := h.number.digit (i - fs.dot) (Nat.zero_le _) (by omega)
      rw [FormatSpec.place_high (by omega), Nat.sub_add_cancel (by omega)] at hbyte
      rw [hbyte, List.getElem_append_right (by rw [htake, point_length]; omega), List.getElem_map,
        List.getElem_drop]
      congr 3
      rw [htake, point_length]
      omega
  rw [hlen, hholds.readBack, decimalText, List.reverse_append, List.reverse_append, point]
  split
  · simp
  · simp

/-! ## The loop -/

/-- Digit `i` is looked for at `p`: at its place, or where the point in front of it stands. -/
def FormatSpec.At (fs : FormatSpec) (i p : Nat) : Prop :=
  p = fs.place i ∨ fs.dot = 1 ∧ i = fs.prec ∧ p = fs.prec

/-- The loop begins at the lowest digit. -/
theorem FormatSpec.At.zero (fs : FormatSpec) : fs.At 0 0 := by
  rcases Nat.eq_zero_or_pos fs.prec with h0 | hpos
  · rcases Nat.le_one_iff_eq_zero_or_eq_one.mp fs.dot_le with hdot | hdot
    · exact Or.inl (by rw [FormatSpec.place_high h0.le, hdot])
    · exact Or.inr ⟨hdot, h0.symm, h0.symm⟩
  · exact Or.inl (FormatSpec.place_low hpos).symm

/-- Behind a digit comes the next one, or the point in front of it. -/
theorem FormatSpec.At.succ (fs : FormatSpec) (i : Nat) : fs.At (i + 1) (fs.place i + 1) := by
  rcases Nat.lt_or_ge i fs.prec with hlow | hhigh
  · rcases Nat.lt_or_eq_of_le (Nat.succ_le_of_lt hlow) with hlow' | hlast
    · exact Or.inl (by rw [FormatSpec.place_low hlow, FormatSpec.place_low hlow'])
    · exact Or.inr ⟨FormatSpec.dot_pos hlow, hlast, by rw [FormatSpec.place_low hlow]; exact hlast⟩
  · refine Or.inl ?_
    rw [FormatSpec.place_high hhigh, FormatSpec.place_high (by omega)]
    omega

/-- While the number is rounded: with its carry it is the `total`. -/
structure Rounding.Inv (fs : FormatSpec) (total : Nat) (s : Rounding) (ds : List Nat) (i : Nat) :
    Prop where
  complete : Complete fs s.fin s.buf ds
  at_dec : fs.At i s.dec
  within : i ≤ ds.length
  carry : s.carry ≤ 1
  value : Nat.ofDigits 10 ds + s.carry * 10 ^ i = total

/-- Where the buffer ends, the number has more digits than there is room for. -/
theorem Rounding.Inv.full (h : s.Inv fs total ds i) (hc : s.carry ≠ 0)
    (hfull : conversionBufferSize ≤ s.dec) : 10 ^ (conversionBufferSize - fs.dot) ≤ total := by
  have hcarry := h.carry
  have hdot := fs.dot_le
  have hle : s.dec ≤ i + fs.dot := by
    rcases h.at_dec with hplace | ⟨-, hi, hdec⟩
    · rw [hplace, FormatSpec.place]
      split <;> omega
    · omega
  have hone : s.carry = 1 := by omega
  have hvalue := h.value
  rw [hone, Nat.one_mul] at hvalue
  calc 10 ^ (conversionBufferSize - fs.dot)
      ≤ 10 ^ i := Nat.pow_le_pow_right (by decide) (by omega)
    _ ≤ total := by omega

/-- A digit more, where the loop is behind the last one.  The new digit is a zero, so the number
    stays what it was. -/
theorem Rounding.Inv.extend (h : s.Inv fs total ds i) (hroom : s.dec < conversionBufferSize) :
    s.extend.Sat (fun r => ∃ ds, Rounding.Inv fs total ⟨s.carry, s.dec, r.1, r.2⟩ ds i ∧
      s.dec < r.1) False := by
  have hlong := h.complete.long
  have hfin := h.complete.fin
  have hwithin := h.within
  unfold Rounding.extend
  split
  · rename_i hend
    have hplace : i = ds.length ∧ s.dec = s.fin := by
      rcases h.at_dec with hplace | ⟨hdot, -, hdec⟩
      · rcases Nat.lt_or_ge i fs.prec with hlow | hhigh
        · rw [FormatSpec.place_low hlow] at hplace
          omega
        · rw [FormatSpec.place_high hhigh] at hplace
          omega
      · omega
    have hput := h.complete.number.append (d := 0) hlong.le (by decide)
    rw [← hfin] at hput
    refine (Cbuf.sat_put (Q := fun b => Numeral fs 0 b (ds ++ [0])) (by omega) hput).bind
      fun b hb => ⟨ds ++ [0], ⟨⟨hb, ?_, ?_, ?_⟩, h.at_dec, ?_, h.carry, ?_⟩, ?_⟩
    · rw [List.length_append, List.length_singleton]
      omega
    · dsimp only
      rw [List.length_append, List.length_singleton]
      omega
    · dsimp only
      omega
    · rw [List.length_append, List.length_singleton]
      omega
    · rw [ofDigits_append_zero]
      exact h.value
    · dsimp only
      omega
  · rename_i hend
    exact ⟨ds, h, Nat.lt_of_not_le hend⟩

/-- One turn.  The byte looked at is the point, and nothing but the place changes; or a nine, which
    becomes a zero and leaves the carry one digit further; or another digit, which takes it.  In
    each case the total is the same. -/
theorem Rounding.turn_inv (h : s.Inv fs total ds i) (hc : s.carry ≠ 0) :
    s.turn.Sat (fun s' => (∃ ds i, s'.Inv fs total ds i) ∧ s'.dec = s.dec + 1 ∧
      s.dec < conversionBufferSize) (10 ^ (conversionBufferSize - fs.dot) ≤ total) := by
  unfold Rounding.turn
  split
  · -- behind the buffer
    rename_i hfull
    exact h.full hc hfull
  rename_i hroom
  have hroom : s.dec < conversionBufferSize := Nat.lt_of_not_le hroom
  refine (((h.extend hroom).mono (fun _ => id) False.elim).bind fun r ⟨ds, hext, hlt⟩ => ?_)
  obtain ⟨hcomplete, hat, -, hcarry, hvalue⟩ := hext
  dsimp only at hcarry hvalue
  rcases hat with hplace | ⟨hdot, hi, hdec⟩
  · -- a digit
    have hfin : r.1 = ds.length + fs.dot := hcomplete.fin
    have hlong := hcomplete.long
    have hplace : s.dec = fs.place i := hplace
    have hi : i < ds.length := by
      rcases Nat.lt_or_ge i fs.prec with hlow | hhigh
      · omega
      · rw [FormatSpec.place_high hhigh] at hplace
        omega
    have hdigit : ds[i] < 10 := hcomplete.number.lt _ (List.getElem_mem hi)
    have hdots : ∀ d < 10, decimal d ≠ '.'.toUInt8 ∧
        (decimal d = '9'.toUInt8 ↔ d = 9) ∧ decimal d + 1 = decimal (d + 1) := by decide
    obtain ⟨hdots, hnine, hnext⟩ := hdots _ hdigit
    have hone : s.carry = 1 := by omega
    rw [hone, Nat.one_mul] at hvalue
    -- what the number is after one digit has changed
    have hset := ofDigits_set 10 hi
    refine (Cbuf.sat_get (Q := fun c => c = decimal ds[i])
      (by rw [hplace]; exact hcomplete.number.digit i (Nat.zero_le i) hi) rfl).bind fun c hc => ?_
    rw [hc, if_neg hdots]
    simp only [hnine]
    split
    · -- a nine becomes a zero, and the carry counts ten times as much one digit further
      rename_i h9
      have hput := hcomplete.number.put (i := i) (d := 0) (Nat.zero_le _) (by decide)
      rw [Nat.zero_min, ← hplace] at hput
      have hzero := hset 0
      refine (Cbuf.sat_put (Q := fun b => Numeral fs 0 b (ds.set i 0)) hroom hput).bind
        fun b hb => ⟨⟨ds.set i 0, i + 1, ⟨hb, ?_, ?_, hcomplete.room⟩, ?_, ?_, Nat.le_refl 1, ?_⟩,
          rfl, hroom⟩
      · rw [List.length_set]
        exact hlong
      · rw [List.length_set]
        exact hfin
      · dsimp only
        rw [hplace]
        exact FormatSpec.At.succ fs i
      · rw [List.length_set]
        exact hi
      · dsimp only
        rw [h9, Nat.zero_mul, Nat.add_zero] at hzero
        rw [← hvalue, ← hzero, Nat.pow_succ]
        ring
    · -- any other digit takes the carry, and the loop ends
      rename_i h9
      have hput := hcomplete.number.put (i := i) (d := ds[i] + 1) (Nat.zero_le _) (by omega)
      rw [Nat.zero_min, ← hplace] at hput
      have hup := hset (ds[i] + 1)
      rw [if_neg (by decide), hnext]
      refine (Cbuf.sat_put (Q := fun b => Numeral fs 0 b (ds.set i (ds[i] + 1))) hroom hput).bind
        fun b hb => ⟨⟨ds.set i (ds[i] + 1), i + 1, ⟨hb, ?_, ?_, hcomplete.room⟩, ?_, ?_,
          Nat.zero_le 1, ?_⟩, rfl, hroom⟩
      · rw [List.length_set]
        exact hlong
      · rw [List.length_set]
        exact hfin
      · dsimp only
        rw [hplace]
        exact FormatSpec.At.succ fs i
      · rw [List.length_set]
        exact hi
      · dsimp only
        rw [Nat.add_mul, Nat.one_mul] at hup
        omega
  · -- the point
    have hdec : s.dec = fs.prec := hdec
    refine (Cbuf.sat_get (Q := fun c => c = '.'.toUInt8)
      (by rw [hdec]; exact hcomplete.number.point hdot) rfl).bind fun c hc => ?_
    rw [hc, if_pos rfl]
    refine ⟨⟨ds, i, hcomplete, Or.inl ?_, ?_, hcarry, hvalue⟩, rfl, hroom⟩
    · dsimp only
      rw [hi, FormatSpec.place_high (Nat.le_refl _), hdot, hdec]
    · rw [hi]
      exact hcomplete.long.le

/-- **The rounding adds the carry**, and gives up only where the number is too long.  The place goes
    up with each turn and stays in the buffer, so that 24 turns are enough. -/
theorem Rounding.loop_sat (h : s.Inv fs total ds i) :
    (Outcome.loop (fun r : Rounding => r.carry ≠ 0) Rounding.turn 24 s).Sat
      (fun s' => ∃ ds, Complete fs s'.fin s'.buf ds ∧ Nat.ofDigits 10 ds = total)
      (10 ^ (conversionBufferSize - fs.dot) ≤ total) := by
  have hturn : ∀ s : Rounding, (∃ ds i, s.Inv fs total ds i) → decide (s.carry ≠ 0) = true →
      s.turn.Sat (fun s' => (∃ ds i, s'.Inv fs total ds i) ∧ 23 - s'.dec < 23 - s.dec)
        (10 ^ (conversionBufferSize - fs.dot) ≤ total) := by
    intro s ⟨ds, i, hs⟩ ht
    refine (Rounding.turn_inv hs (of_decide_eq_true ht)).imp fun s' h' => ⟨h'.1, ?_⟩
    obtain ⟨-, hnext, hroom⟩ := h'
    rw [conversionBufferSize_eq] at hroom
    omega
  refine (Outcome.Sat.loop hturn ⟨ds, i, h⟩ (by omega)).imp fun s' ⟨⟨ds, i, hs⟩, hend⟩ => ?_
  have hzero : s'.carry = 0 := not_not.mp (of_decide_eq_false hend)
  have hvalue := hs.value
  rw [hzero, Nat.zero_mul, Nat.add_zero] at hvalue
  exact ⟨ds, hs.complete, hvalue⟩

end Nearlands.Npf
