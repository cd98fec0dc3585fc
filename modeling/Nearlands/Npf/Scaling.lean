/-
  The integer part of a large number.

  A double from `2 ^ 32` on has more bits than the mantissa that `npf_ftoa_rev` prints from.  It keeps
  the upper 32 of them and half a unit below, the carry, and then brings the binary exponent down to
  zero, one a turn: the mantissa is doubled, or it is divided by five for one decimal place more.

  `Scaling.Near` is what the turns keep.  Mantissa and carry, scaled by what is left of the exponent,
  are at most the number; and they fall short of it by a factor that grows by a part in `2 ^ 28` with
  each place.  The crux is that only a division loses anything, two units at most, and that the
  mantissa is divided only where its top bit is set, so that it has `2 ^ 31 / 5` units left.  At the
  end there are 23 places at most, and the digits are within a part in `2 ^ 23` of the number
  (`integerPart_large`).

  So a number for which the loops find no room in the buffer has no room there (`NoRoom`), up to a
  factor of two for what the rounding may add.
-/
import Nearlands.Npf.Fraction

namespace Nearlands.Npf

open Nearlands.Lib

variable {fs : FormatSpec} {x : ℚ} {s : Scaling} {z man : Nat} {exp : Int}

/-- There is no room for the number: its places fill the buffer, or twice the number has more digits
    in front of the point than can stand there. -/
def NoRoom (fs : FormatSpec) (x : ℚ) : Prop :=
  conversionBufferSize - 2 < fs.prec ∨
    10 ^ (conversionBufferSize - (fs.prec + fs.dot)) ≤ 2 * x

/-- A number that fills the buffer has no room, even if it is the rounded one and up to twice as
    large. -/
theorem NoRoom.of_le {v : Nat} (h : 10 ^ (conversionBufferSize - (fs.prec + fs.dot)) ≤ v)
    (hv : (v : ℚ) ≤ 2 * x) : NoRoom fs x := by
  refine Or.inr (le_trans ?_ hv)
  exact_mod_cast h

/-- The mantissa and the carry, scaled, are the number but for what the divisions lost.  The
    exponent of the factor is one more than the places, for the half unit that the first 32 bits
    leave out. -/
structure Scaling.Near (x : ℚ) (s : Scaling) (z : Nat) : Prop where
  manI : 2 ^ 31 / 5 ≤ s.manI
  below : (s.manI + s.carry / 2) * 2 ^ s.expI * 10 ^ z ≤ x
  above : x ≤ (s.manI + s.carry / 2) * 2 ^ s.expI * 10 ^ z * (1 + 1 / 2 ^ 28) ^ (z + 1)

/-- Doubling loses nothing. -/
theorem Scaling.Near.double {s' : Scaling} (h : s.Near x z) {e : Nat} (he : s.expI = e + 1)
    (he' : s'.expI = e) (hman : s'.manI = s.manI * 2 + s.carry) (hcarry : s'.carry = 0) :
    s'.Near x z := by
  have hsame : ((s'.manI + s'.carry / 2) * 2 ^ s'.expI : ℚ) =
      (s.manI + s.carry / 2) * 2 ^ s.expI := by
    rw [hman, hcarry, he, he']
    push_cast
    ring
  have hlow := h.manI
  exact ⟨by omega, hsame ▸ h.below, hsame ▸ h.above⟩

/-- Dividing by five loses two units, of a mantissa with its top bit set.  A remainder below three
    is dropped, and one from three on, with the carry before it, becomes a carry of half a unit; so
    what is lost is less than two units of at least `2 ^ 31`, and the bound on the factor has room
    for it. -/
theorem Scaling.Near.divide {s' : Scaling} (h : s.Near x z) (hhigh : 2 ^ 31 ≤ s.manI)
    (hc : s.carry ≤ 1) {e : Nat} (he : s.expI = e + 1) (he' : s'.expI = e)
    (hman : s'.manI = s.manI / 5)
    (hcarry : s'.carry = if 2 < s.manI % 5 + s.carry then 1 else 0) : s'.Near x (z + 1) := by
  have hlarge : 2 ^ 31 / 5 ≤ s'.manI := by omega
  have hlow : s'.manI * 10 + s'.carry * 5 ≤ s.manI * 2 + s.carry := by
    split at hcarry <;> omega
  have hup : s.manI * 2 + s.carry ≤ s'.manI * 10 + s'.carry * 5 + 4 := by
    split at hcarry <;> omega
  have hlow' : (s'.manI * 10 + s'.carry * 5 : ℚ) ≤ s.manI * 2 + s.carry := by exact_mod_cast hlow
  have hup' : (s.manI * 2 + s.carry : ℚ) ≤ s'.manI * 10 + s'.carry * 5 + 4 := by exact_mod_cast hup
  have hlarge' : (429496729 : ℚ) ≤ s'.manI := by exact_mod_cast hlarge
  have hcarry' : (0 : ℚ) ≤ s'.carry := Nat.cast_nonneg _
  have hscale : (0 : ℚ) ≤ 2 ^ s.expI * 10 ^ z := by positivity
  have hvalue : ((s'.manI + s'.carry / 2) * 2 ^ s'.expI * 10 ^ (z + 1) : ℚ) =
      (s'.manI * 10 + s'.carry * 5) / 2 * (2 ^ s.expI * 10 ^ z) := by
    rw [he, he']
    ring
  -- four units are less than the part that a place may cost
  have hlost : (s.manI * 2 + s.carry : ℚ) ≤
      (s'.manI * 10 + s'.carry * 5) * (1 + 1 / 2 ^ 28) := by
    linarith
  refine ⟨hlarge, ?_, ?_⟩
  · rw [hvalue]
    calc (s'.manI * 10 + s'.carry * 5) / 2 * (2 ^ s.expI * 10 ^ z)
        ≤ (s.manI * 2 + s.carry : ℚ) / 2 * (2 ^ s.expI * 10 ^ z) := by gcongr
      _ = (s.manI + s.carry / 2) * 2 ^ s.expI * 10 ^ z := by ring
      _ ≤ x := h.below
  · rw [hvalue]
    calc x ≤ (s.manI + s.carry / 2) * 2 ^ s.expI * 10 ^ z * (1 + 1 / 2 ^ 28) ^ (z + 1) := h.above
      _ = (s.manI * 2 + s.carry : ℚ) / 2 * (2 ^ s.expI * 10 ^ z) * (1 + 1 / 2 ^ 28) ^ (z + 1) := by
        ring
      _ ≤ (s'.manI * 10 + s'.carry * 5) * (1 + 1 / 2 ^ 28) / 2 * (2 ^ s.expI * 10 ^ z) *
          (1 + 1 / 2 ^ 28) ^ (z + 1) := by gcongr
      _ = _ := by ring

/-- Where a place finds no room, there is none for the number. -/
theorem Scaling.Near.noRoom (h : s.Near x z) (hs : s.Inv fs z) (hhigh : 2 ^ 31 ≤ s.manI)
    (hfull : conversionBufferSize ≤ s.dec) : NoRoom fs x := by
  have hdec := hs.dec
  have hbelow := h.below
  have hone : (1 : ℚ) ≤ 2 ^ s.expI := one_le_pow₀ (by norm_num)
  have hman : (1 : ℚ) ≤ s.manI + s.carry / 2 := by
    have hman : (1 : ℚ) ≤ s.manI := by exact_mod_cast Nat.le_trans (by decide) hhigh
    have hcarry : (0 : ℚ) ≤ s.carry := Nat.cast_nonneg _
    linarith
  refine .of_le (v := 10 ^ z) (Nat.pow_le_pow_right (by decide) (by omega)) ?_
  have hz : (10 : ℚ) ^ z ≤ (s.manI + s.carry / 2) * 2 ^ s.expI * 10 ^ z := by
    calc (10 : ℚ) ^ z = 1 * 1 * 10 ^ z := by ring
      _ ≤ _ := by gcongr
  have hpos : (0 : ℚ) ≤ 10 ^ z := by positivity
  push_cast
  linarith

/-- One turn.  It either doubles or divides, and the exponent goes down, which is what ends the
    loop. -/
theorem Scaling.turn_near (hs : s.Inv fs z) (h : s.Near x z) (hexp : s.expI ≠ 0) : s.turn.Sat
    (fun s' => (∃ z, s'.Inv fs z ∧ s'.Near x z) ∧ s'.expI < s.expI) (NoRoom fs x) := by
  obtain ⟨e, he⟩ := Nat.exists_eq_succ_of_ne_zero hexp
  refine (Scaling.turn_inv hs).mono (fun s' ⟨he', hcases⟩ => ⟨?_, by omega⟩) fun ⟨hhigh, hfull⟩ =>
    h.noRoom hs hhigh hfull
  have he' : s'.expI = e := by omega
  rcases hcases with ⟨-, hs', hman, hcarry⟩ | ⟨hhigh, hs', hman, hcarry⟩
  · exact ⟨z, hs', h.double he he' hman hcarry⟩
  · exact ⟨z + 1, hs', h.divide hhigh hs.carry he he' hman hcarry⟩

/-- What the scaling starts from: the upper 32 bits of the mantissa, and the bit behind them.  The
    bits behind those 33 are left out, and are less than a part in `2 ^ 28`. -/
theorem integerOf_large (hman : 2 ^ 52 ≤ man) (hman' : man < 2 ^ 53) (hexp : 31 < exp) (dec : Nat)
    (buf : Cbuf) : ∃ s, integerOf man exp dec buf = (s, 52) ∧ s.dec = dec ∧ s.buf = buf ∧
      s.manI < 2 ^ 32 ∧ s.carry ≤ 1 ∧ s.Near (magnitude man exp) 0 := by
  obtain ⟨k, hk⟩ : ∃ k : Nat, exp = 31 + (k + 1 : Nat) := ⟨(exp - 32).toNat, by omega⟩
  have hmin : min exp.toNat ftoaShiftBits = 31 := by
    rw [ftoaShiftBits]
    omega
  have hrest : exp.toNat - 31 = k + 1 := by omega
  have hupper : man / 2 ^ 21 % 2 ^ 32 = man / 2 ^ 21 := Nat.mod_eq_of_lt (by omega)
  refine ⟨⟨man / 2 ^ 21, man / 2 ^ 20 % 2, dec, k + 1, buf⟩, ?_, rfl, rfl, by dsimp only; omega,
    by dsimp only; omega, ?_⟩
  · rw [integerOf, if_pos (by omega)]
    dsimp only
    rw [hmin, hrest, if_pos (Nat.succ_ne_zero k), doubleManBits, ftoaManBits, hupper,
      if_pos (by decide)]
    rfl
  · have hmag : magnitude man exp = man / 2 ^ 21 * 2 ^ (k + 1) := by
      rw [magnitude, hk, show ((31 + (k + 1 : Nat) : Int) - 52) = (k + 1 : Nat) - (21 : Nat) by omega,
        zpow_sub₀ (by norm_num), zpow_natCast, zpow_natCast]
      ring
    -- 32 bits and the one behind them are the mantissa but for 20 bits
    have hlow : man / 2 ^ 21 * 2 ^ 21 + man / 2 ^ 20 % 2 * 2 ^ 20 ≤ man := by omega
    have hup : man ≤ man / 2 ^ 21 * 2 ^ 21 + man / 2 ^ 20 % 2 * 2 ^ 20 + 2 ^ 20 := by omega
    have hlarge : 2 ^ 31 ≤ man / 2 ^ 21 := by omega
    refine ⟨by dsimp only; omega, ?_, ?_⟩ <;>
      (dsimp only; rw [hmag]; generalize man / 2 ^ 21 = q at *; generalize man / 2 ^ 20 % 2 = c at *)
    · have hlow' : (q * 2 ^ 21 + c * 2 ^ 20 : ℚ) ≤ man := by exact_mod_cast hlow
      rw [pow_zero, mul_one]
      gcongr
      rw [le_div_iff₀ (by norm_num)]
      linarith
    · have hup' : (man : ℚ) ≤ q * 2 ^ 21 + c * 2 ^ 20 + 2 ^ 20 := by exact_mod_cast hup
      have hlarge' : (2 ^ 31 : ℚ) ≤ q := by exact_mod_cast hlarge
      have hc : (0 : ℚ) ≤ c := Nat.cast_nonneg _
      have hstart : (man : ℚ) / 2 ^ 21 ≤ (q + c / 2) * (1 + 1 / 2 ^ 28) := by
        rw [div_le_iff₀ (by norm_num)]
        linarith
      calc (man : ℚ) / 2 ^ 21 * 2 ^ (k + 1)
          ≤ (q + c / 2) * (1 + 1 / 2 ^ 28) * 2 ^ (k + 1) := by gcongr
        _ = _ := by ring

/-- The digits of a large number, and its carry: within a part in `2 ^ 23` of the number. -/
structure LargeInteger (x : ℚ) (val carry z : Nat) : Prop where
  large : 2 ^ 31 / 5 ≤ val
  carry_le : carry ≤ 1
  below : (val + carry / 2) * 10 ^ z ≤ x
  above : x ≤ (val + carry / 2) * 10 ^ z * (1 + 1 / 2 ^ 23)

/-- Where the exponent is spent.  There are 23 places at most, and 24 factors of `1 + 2 ^ -28` are
    below `1 + 2 ^ -23`. -/
theorem Scaling.Near.large (h : s.Near x z) (hs : s.Inv fs z) (hexp : s.expI = 0) :
    LargeInteger x s.manI s.carry z := by
  have hbelow := h.below
  have habove := h.above
  rw [hexp, pow_zero, mul_one] at hbelow habove
  have hz : z ≤ 23 := by
    have hdec := hs.dec
    have hroom := hs.room
    rw [conversionBufferSize_eq] at hroom
    omega
  have hfactor : (1 + 1 / 2 ^ 28 : ℚ) ^ (z + 1) ≤ 1 + 1 / 2 ^ 23 :=
    calc (1 + 1 / 2 ^ 28 : ℚ) ^ (z + 1)
        ≤ (1 + 1 / 2 ^ 28) ^ 24 := pow_le_pow_right₀ (by norm_num) (by omega)
      _ ≤ 1 + 1 / 2 ^ 23 := by norm_num
  exact ⟨h.manI, hs.carry, hbelow, habove.trans (by gcongr)⟩

/-- Digits and carry together are not more than twice the number. -/
theorem LargeInteger.double {val carry : Nat} (h : LargeInteger x val carry z) :
    (((val + carry) * 10 ^ z : Nat) : ℚ) ≤ 2 * x := by
  have hbelow := h.below
  have hval : (0 : ℚ) ≤ val * 10 ^ z := by positivity
  push_cast
  linarith

/-- Rounded by the carry they are as close as the digits are. -/
theorem LargeInteger.close {val carry : Nat} (h : LargeInteger x val carry z) :
    |(((val + carry) * 10 ^ z : Nat) : ℚ) - x| ≤ x / 2 ^ 23 := by
  have hval : (429496729 : ℚ) ≤ val := by exact_mod_cast h.large
  have hc : (carry : ℚ) ≤ 1 := by exact_mod_cast h.carry_le
  have hc0 : (0 : ℚ) ≤ carry := Nat.cast_nonneg _
  have hbelow := h.below
  have habove := h.above
  have hz : (0 : ℚ) < 10 ^ z := by positivity
  have hmany : 429496729 * (10 : ℚ) ^ z ≤ val * 10 ^ z := by gcongr
  have hcarry : (carry : ℚ) * 10 ^ z ≤ 1 * 10 ^ z := by gcongr
  have hcarry0 : (0 : ℚ) ≤ carry * 10 ^ z := by positivity
  push_cast
  rw [abs_le]
  constructor <;> linarith

/-- **The integer part of a large number** is printed within a part in `2 ^ 23`, or there is no room
    for it. -/
theorem integerPart_large {dec : Nat} {buf : Cbuf}
    (hnum : Numeral fs fs.prec buf (List.replicate fs.prec 0)) (hdec : dec = fs.prec + fs.dot)
    (hprec : fs.prec ≤ 21) (hman : 2 ^ 52 ≤ man) (hman' : man < 2 ^ 53) (hexp : 31 < exp) :
    (integerPart man exp dec buf).Sat (fun r => r.exp = 52 ∧ ∃ z val, r.Inv fs z val ∧
      LargeInteger (magnitude man exp) val r.carry z) (NoRoom fs (magnitude man exp)) := by
  obtain ⟨start, hstart, hdec', hbuf, hmanI, hcarry, hnear⟩ :=
    integerOf_large hman hman' hexp dec buf
  have hdot := fs.dot_le
  have hinv : start.Inv fs 0 := by
    refine ⟨hdec'.trans hdec, ?_, hmanI, hcarry, by rw [hbuf]; exact hnum⟩
    rw [hdec', hdec, conversionBufferSize_eq]
    omega
  have hturn : ∀ s : Scaling, (∃ z, s.Inv fs z ∧ s.Near (magnitude man exp) z) →
      decide (s.expI ≠ 0) = true → s.turn.Sat (fun s' =>
        (∃ z, s'.Inv fs z ∧ s'.Near (magnitude man exp) z) ∧ s'.expI < s.expI)
        (NoRoom fs (magnitude man exp)) := by
    intro s hkept ht
    obtain ⟨z, hs, h⟩ := hkept
    exact Scaling.turn_near hs h (of_decide_eq_true ht)
  rw [integerPart, hstart]
  dsimp only
  refine (Outcome.Sat.loop hturn ⟨0, hinv, hnear⟩ (Nat.lt_succ_self _)).bind fun s hkept => ?_
  obtain ⟨⟨z, hs, h⟩, hend⟩ := hkept
  have hlarge := h.large hs (not_not.mp (of_decide_eq_false hend))
  refine (integer_sat hs _).mono (fun r hr => ?_) fun hlong => ?_
  · obtain ⟨hexp', hi, hrcarry⟩ := hr
    refine ⟨hexp', z, s.manI, hi, ?_⟩
    rw [hrcarry]
    exact hlarge
  · have hpos : s.manI ≠ 0 := by
      have hman := hlarge.large
      omega
    refine .of_le (hlong.le hpos) (le_trans ?_ hlarge.double)
    exact_mod_cast Nat.mul_le_mul_right _ (Nat.le_add_right _ _)

end Nearlands.Npf
