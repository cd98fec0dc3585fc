/-
  The conversions of floats, `%f`, `%e`, `%g` and `%a`: all of them print decimals.

  The phases of `npf_ftoa_rev` are put together: whatever the 64 bits of the double and the
  specification are, the conversion stays inside its buffer and prints a word or a decimal number
  (`float_printed`).  The word `err` is printed only for a number that has no room, and from `2 ^ 32`
  on the decimal number is within a part in `2 ^ 23` of the double.  Below that it is the one that was
  asked for, up to half of its last place and the little that the scaling loses, with one exception:
  without places behind the point a fraction that is nearly one is dropped (`float_close`).

  The two ranges have proofs of their own, since the function has two ways through: a number below
  `2 ^ 32` is not scaled, and a larger one has no fraction.  They meet in the rounding, which adds a
  carry to the number in the buffer, wherever that carry comes from.
-/
import Mathlib.Data.Rat.Floor
import Nearlands.Npf.Numbers
import Nearlands.Npf.Rounding
import Nearlands.Npf.Scaling

namespace Nearlands.Npf

open Nearlands.Lib

variable {fs : FormatSpec} {bin : Nat} {exp : Int} {b : Cbuf}

/-! ## Doubles -/

/-- The exponent bits of a double. -/
def expBits (bin : Nat) : Nat := bin / 2 ^ 52 % 2048

/-- The mantissa bits of a double. -/
def manBits (bin : Nat) : Nat := bin % 2 ^ 52

/-- The mantissa, with the bit in front that is not stored. -/
def mantissa (bin : Nat) : Nat :=
  if expBits bin ≠ 0 then manBits bin + 2 ^ 52 else manBits bin

/-- The exponent. -/
def exponent (bin : Nat) : Int := ((if expBits bin ≠ 0 then expBits bin else 1) : Nat) - 1023

/-- The absolute value of a double that is a number. -/
def absValue (bin : Nat) : ℚ := magnitude (mantissa bin) (exponent bin)

/-- It has 53 bits. -/
theorem mantissa_lt (bin : Nat) : mantissa bin < 2 ^ 53 := by
  have hman : manBits bin < 2 ^ 52 := Nat.mod_lt _ (by decide)
  unfold mantissa
  split <;> omega

/-- A double below `2 ^ 32` has a small exponent. -/
theorem exponent_le (h : absValue bin < 2 ^ 32) : exponent bin ≤ 31 := by
  by_contra hlarge
  have hnormal : expBits bin ≠ 0 := by
    intro h0
    rw [exponent, if_neg (not_not.mpr h0)] at hlarge
    omega
  have hman : 2 ^ 52 ≤ mantissa bin := by
    rw [mantissa, if_pos hnormal]
    omega
  have hman' : (2 : ℚ) ^ 52 ≤ mantissa bin := by exact_mod_cast hman
  have hscale : (2 : ℚ) ^ (-20 : ℤ) ≤ 2 ^ (exponent bin - 52) :=
    zpow_le_zpow_right₀ (by norm_num) (by omega)
  have hge : (2 : ℚ) ^ 52 * 2 ^ (-20 : ℤ) ≤ absValue bin :=
    mul_le_mul hman' hscale (by positivity) (by positivity)
  have heq : (2 : ℚ) ^ 52 * 2 ^ (-20 : ℤ) = 2 ^ 32 := by norm_num
  exact absurd (heq ▸ hge) (not_le.mpr h)

/-- The fraction of a number is what its integer part leaves. -/
theorem fract_magnitude {man : Nat} (hman : man < 2 ^ 53) (hexp : exp ≤ 31) :
    Int.fract (magnitude man exp) = magnitude man exp - intPart man exp := by
  obtain ⟨binF, e, hbinF, he, -, hvalue⟩ := fractionOf_value hman hexp 0 .empty
  have hlt : (binF : ℚ) < 2 ^ 64 := by exact_mod_cast hbinF
  have hle : (2 : ℚ) ^ e ≤ 1 := by
    calc (2 : ℚ) ^ e ≤ 2 ^ (0 : ℤ) := zpow_le_zpow_right₀ (by norm_num) he
      _ = 1 := zpow_zero 2
  have hone : (binF : ℚ) / 2 ^ 64 * 2 ^ e < 1 := by
    calc (binF : ℚ) / 2 ^ 64 * 2 ^ e ≤ binF / 2 ^ 64 * 1 := by gcongr
      _ < 1 := by linarith
  refine Int.fract_eq_iff.mpr ⟨?_, ?_, intPart man exp, ?_⟩
  · rw [hvalue]
    positivity
  · rw [hvalue]
    exact hone
  · rw [sub_sub_cancel, Int.cast_natCast]

/-! ## The number -/

/-- The printed number is as close as the places allow, but for a fraction that is nearly one where
    there is no place.  It says when the error is within the bound, in both directions, so that the
    exception is part of it. -/
def Near (fs : FormatSpec) (x : ℚ) (ds : List Nat) : Prop :=
  |(Nat.ofDigits 10 ds : Nat) / 10 ^ fs.prec - x| ≤ 1 / 2 / 10 ^ fs.prec + 1 / 2 ^ 28 ↔
    fs.prec ≠ 0 ∨ Int.fract x < 1 - 1 / 2 ^ 33

/-- Zeros behind the point, and the integer. -/
theorem unwritten_integer (fs : FormatSpec) (z val : Nat) :
    Unwritten fs (List.replicate (fs.prec + z) 0 ++ revDigits 10 val) := by
  refine ⟨?_, fun i hi hlt => ?_⟩
  · rw [List.length_append, List.length_replicate]
    omega
  · rw [List.getElem_append_left (by rw [List.length_replicate]; omega), List.getElem_replicate]

/-- There is a digit in front of the point. -/
theorem integer_long (fs : FormatSpec) (z val : Nat) :
    fs.prec < (List.replicate (fs.prec + z) 0 ++ revDigits 10 val).length := by
  have hpos : 0 < (revDigits 10 val).length := List.length_pos_of_ne_nil revDigits_ne_nil
  rw [List.length_append, List.length_replicate]
  omega

/-- Their number is the integer times the power of ten for the zeros. -/
theorem ofDigits_integer (k val : Nat) :
    Nat.ofDigits 10 (List.replicate k 0 ++ revDigits 10 val) = val * 10 ^ k := by
  rw [Nat.ofDigits_append, ofDigits_replicate_zero, ofDigits_revDigits, List.length_replicate]
  ring

/-- What the rounding makes of the start.  The fraction part leaves digits and a carry which are
    close to the fraction, or which are both 0 where it wraps; the integer part is exact. -/
theorem near_of_start {r : Rounding} {D val : Nat} {x : ℚ} {ds ds' : List Nat}
    (h : Rounding.Start fs ds (x - val) r D) (hfract : Int.fract x = x - val)
    (hvalue : Nat.ofDigits 10 ds' = val * 10 ^ fs.prec + (D + r.carry)) : Near fs x ds' := by
  have hten : (10 : ℚ) ^ fs.prec ≠ 0 := by positivity
  have hdiff : ((Nat.ofDigits 10 ds' : Nat) : ℚ) / 10 ^ fs.prec - x =
      (D + r.carry : Nat) / 10 ^ fs.prec - (x - val) := by
    rw [hvalue]
    push_cast
    field_simp
    ring
  unfold Near
  rw [hdiff, hfract]
  constructor
  · intro hclose
    by_contra hno
    obtain ⟨hprec, hone⟩ := not_or.mp hno
    have hprec : fs.prec = 0 := not_not.mp hprec
    have hone : 1 - 1 / 2 ^ 33 ≤ x - val := not_lt.mp hone
    rw [h.wraps ⟨hprec, hone⟩, hprec, abs_le] at hclose
    have hlow := hclose.1
    norm_num at hlow hone
    linarith
  · intro hcase
    refine h.close fun ⟨hprec, hone⟩ => ?_
    rcases hcase with hne | hlt
    · exact hne hprec
    · exact absurd hone (not_le.mpr hlt)

/-- The digits of a fraction are not more than one. -/
theorem Rounding.Start.le {r : Rounding} {D : Nat} {x : ℚ} {ds : List Nat}
    (h : Rounding.Start fs ds x r D) (hx : x < 1) (hprec : fs.prec ≤ 12) :
    D + r.carry ≤ 2 * 10 ^ 12 := by
  by_cases hwrap : fs.prec = 0 ∧ 1 - 1 / 2 ^ 33 ≤ x
  · rw [h.wraps hwrap]
    exact Nat.zero_le _
  have hten : (0 : ℚ) < 10 ^ fs.prec := by positivity
  have hone : (1 : ℚ) ≤ 10 ^ fs.prec := one_le_pow₀ (by norm_num)
  have hhalf : (1 : ℚ) / 2 / 10 ^ fs.prec ≤ 1 / 2 := div_le_self (by norm_num) hone
  have hclose := (abs_le.mp (h.close hwrap)).2
  have hle : ((D + r.carry : Nat) : ℚ) / 10 ^ fs.prec ≤ 2 := by linarith
  have hle' : ((D + r.carry : Nat) : ℚ) ≤ 2 * 10 ^ fs.prec := (div_le_iff₀ hten).mp hle
  have hnat : D + r.carry ≤ 2 * 10 ^ fs.prec := by exact_mod_cast hle'
  exact hnat.trans (Nat.mul_le_mul_left 2 (Nat.pow_le_pow_right (by decide) hprec))

/-- A number with more digits than there is room for. -/
theorem pow_room (hroom : fs.prec + fs.dot ≤ conversionBufferSize) {n : Nat}
    (h : 10 ^ (conversionBufferSize - fs.dot) ≤ n * 10 ^ fs.prec) :
    10 ^ (conversionBufferSize - (fs.prec + fs.dot)) ≤ n := by
  refine Nat.le_of_mul_le_mul_right (c := 10 ^ fs.prec) ?_ (Nat.pow_pos (by decide))
  rw [← Nat.pow_add]
  exact Nat.le_trans (Nat.pow_le_pow_right (by decide) (by omega)) h

/-- The integer part is not more than the number. -/
theorem intPart_le {man : Nat} (hman : man < 2 ^ 53) (hexp : exp ≤ 31) :
    (intPart man exp : ℚ) ≤ magnitude man exp := by
  have hfract := fract_magnitude hman hexp
  have hpos := Int.fract_nonneg (magnitude man exp)
  linarith

/-- Rounded, the number is not more than twice what it was, where it has two digits at least. -/
theorem Rounding.Start.double {r : Rounding} {D val : Nat} {x : ℚ} {ds : List Nat}
    (h : Rounding.Start fs ds (x - val) r D) (hval : (val : ℚ) ≤ x)
    (hmany : 10 * 10 ^ fs.prec ≤ val * 10 ^ fs.prec + (D + r.carry)) :
    ((val * 10 ^ fs.prec + (D + r.carry) : Nat) : ℚ) ≤ 2 * x * 10 ^ fs.prec := by
  have hten : (1 : ℚ) ≤ 10 ^ fs.prec := one_le_pow₀ (by norm_num)
  have hpos : (0 : ℚ) < 10 ^ fs.prec := by positivity
  have hlow : (10 * 10 ^ fs.prec : ℚ) ≤ val * 10 ^ fs.prec + (D + r.carry : Nat) := by
    exact_mod_cast hmany
  by_cases hwrap : fs.prec = 0 ∧ 1 - 1 / 2 ^ 33 ≤ x - val
  · have hzero : (0 : ℚ) ≤ x := le_trans (Nat.cast_nonneg _) hval
    rw [h.wraps hwrap, Nat.add_zero, Nat.cast_mul, Nat.cast_pow, Nat.cast_ofNat]
    gcongr
    linarith
  · have hclose := (abs_le.mp (h.close hwrap)).2
    have hhalf : (1 : ℚ) / 2 / 10 ^ fs.prec ≤ 1 / 2 := div_le_self (by norm_num) hten
    have hD : ((D + r.carry : Nat) : ℚ) / 10 ^ fs.prec ≤ x - val + 1 := by linarith
    have hD' : ((D + r.carry : Nat) : ℚ) ≤ (x - val + 1) * 10 ^ fs.prec := (div_le_iff₀ hpos).mp hD
    have hx : 9 * (10 : ℚ) ^ fs.prec ≤ x * 10 ^ fs.prec := by linarith
    push_cast at hD' ⊢
    linarith

/-- A number below `2 ^ 32`.  The three phases follow each other: `integerPart_small`,
    `fractionPart_small`, `Rounding.loop_sat`.  An exit is taken only with more than 12 places,
    since a number below `2 ^ 32` has at most ten digits in front. -/
theorem ftoaNumber_small (b : Cbuf) (fs : FormatSpec) (hexp : exponent bin ≤ 31) :
    (ftoaNumber b fs (expBits bin) (manBits bin)).Sat
      (fun r => ∃ ds, Complete fs r.1 r.2 ds ∧ Near fs (absValue bin) ds)
      (12 < fs.prec ∧ NoRoom fs (absValue bin)) := by
  have hman := mantissa_lt bin
  have hint := intPart_lt hman hexp
  have hle : (intPart (mantissa bin) (exponent bin) : ℚ) ≤ absValue bin := intPart_le hman hexp
  have hzero : (0 : ℚ) ≤ intPart (mantissa bin) (exponent bin) := Nat.cast_nonneg _
  have hfract := fract_magnitude hman hexp
  have hdot := fs.dot_le
  unfold ftoaNumber
  split
  · rename_i hmuch
    refine ⟨?_, Or.inl hmuch⟩
    rw [conversionBufferSize_eq] at hmuch
    show 12 < fs.prec
    omega
  rename_i hfew
  have hprec : fs.prec ≤ 21 := by
    rw [conversionBufferSize_eq] at hfew
    omega
  have hroom : fs.prec + fs.dot ≤ conversionBufferSize := by
    rw [conversionBufferSize_eq]
    omega
  -- the point, the integer part, the fraction part, the rounding: one bind for each
  refine ((putPoint_sat hprec b).mono (fun _ => id) False.elim).bind fun p hp => ?_
  obtain ⟨hdec, hnum⟩ := hp
  refine ((integerPart_small hnum hdec hprec hman hexp).mono (fun _ => id) fun hlong => ?_).bind
    fun i hinteger => ?_
  · -- the integer has 10 digits at most, and is not zero
    have hten : (revDigits 10 (intPart (mantissa bin) (exponent bin))).length ≤ 10 := by
      unfold revDigits
      split
      · decide
      · exact (Nat.digits_length_le_iff (by decide) _).mpr (hint.trans (by decide))
    have hmany := hlong
    change conversionBufferSize < (List.replicate fs.prec 0).length +
      (revDigits 10 (intPart (mantissa bin) (exponent bin))).length + fs.dot at hmany
    rw [conversionBufferSize_eq, List.length_replicate] at hmany
    have hpos : intPart (mantissa bin) (exponent bin) ≠ 0 := fun h0 => by
      rw [h0, revDigits, if_pos rfl, List.length_singleton] at hmany
      omega
    refine ⟨by omega, .of_le (TooLong.le (z := 0) hlong hpos) ?_⟩
    rw [pow_zero, mul_one]
    linarith
  obtain ⟨hexp', hi⟩ := hinteger
  have hun := unwritten_integer fs 0 (intPart (mantissa bin) (exponent bin))
  have hfrac := fractionPart_small hun hprec hi.number hman (hexp'.trans_le hexp)
  rw [hexp'] at hfrac
  refine (hfrac.mono (fun _ => id) False.elim).bind fun r hr => ?_
  obtain ⟨hfin, D, hstart⟩ := hr
  obtain ⟨ds, hds, hlen, hvalue⟩ := hstart.number
  -- the buffer holds all digits, and the rounding can start from it
  have hcomplete : Complete fs r.fin r.buf ds := by
    refine ⟨hds, ?_, ?_, ?_⟩
    · rw [hlen]
      exact integer_long ..
    · rw [hfin, hlen, hi.fin]
    · rw [hfin]
      exact hi.room
  have hround : r.Inv fs (Nat.ofDigits 10 ds + r.carry * 10 ^ 0) ds 0 :=
    ⟨hcomplete, by rw [hstart.dec]; exact FormatSpec.At.zero fs, Nat.zero_le _, hstart.carry, rfl⟩
  rw [hvalue, ofDigits_integer, Nat.add_zero, pow_zero, Nat.mul_one, Nat.add_assoc] at hround
  refine ((Rounding.loop_sat hround).mono (fun r' h => h) fun hlong => ⟨?_, Or.inr ?_⟩).bind
    fun r' hend => ?_
  · obtain ⟨ds', hds', hvalue'⟩ := hend
    exact ⟨ds', hds', near_of_start hstart hfract hvalue'⟩
  · -- with 12 places the number has 22 digits at most
    by_contra hfew
    have hle := hstart.le (hfract ▸ Int.fract_lt_one _) (Nat.le_of_not_lt hfew)
    have hpow : 10 ^ fs.prec ≤ 10 ^ 12 := Nat.pow_le_pow_right (by decide) (Nat.le_of_not_lt hfew)
    have hprod := Nat.mul_le_mul hint.le hpow
    have hmany : 10 ^ 22 ≤ 10 ^ (conversionBufferSize - fs.dot) :=
      Nat.pow_le_pow_right (by decide) (by rw [conversionBufferSize_eq]; omega)
    omega
  · -- the rounded number fills the buffer, so twice the number does
    have hsplit : 10 ^ (conversionBufferSize - fs.dot) =
        10 ^ (conversionBufferSize - (fs.prec + fs.dot)) * 10 ^ fs.prec := by
      rw [← Nat.pow_add]
      congr 1
      omega
    have hten : 10 ^ 1 ≤ 10 ^ (conversionBufferSize - (fs.prec + fs.dot)) :=
      Nat.pow_le_pow_right (by decide) (by rw [conversionBufferSize_eq]; omega)
    rw [hsplit] at hlong
    have hdouble := hstart.double hle ((Nat.mul_le_mul_right _ hten).trans hlong)
    have hlong' : ((10 ^ (conversionBufferSize - (fs.prec + fs.dot)) * 10 ^ fs.prec : Nat) : ℚ) ≤
        2 * absValue bin * 10 ^ fs.prec := le_trans (by exact_mod_cast hlong) hdouble
    have hpos : (0 : ℚ) < 10 ^ fs.prec := by positivity
    push_cast at hlong'
    exact le_of_mul_le_mul_right hlong' hpos

/-- The mantissa of a large number has its top bit set. -/
theorem mantissa_large (hexp : 31 < exponent bin) : 2 ^ 52 ≤ mantissa bin := by
  have hnormal : expBits bin ≠ 0 := fun h0 => by
    rw [exponent, if_neg (not_not.mpr h0)] at hexp
    omega
  rw [mantissa, if_pos hnormal]
  omega

/-- A large number.  Here they are `integerPart_large`, `fractionPart_large` and the same loop for
    the rounding. -/
theorem ftoaNumber_large (b : Cbuf) (fs : FormatSpec) (hexp : 31 < exponent bin) :
    (ftoaNumber b fs (expBits bin) (manBits bin)).Sat
      (fun r => ∃ ds, Complete fs r.1 r.2 ds ∧
        |((Nat.ofDigits 10 ds : Nat) : ℚ) / 10 ^ fs.prec - absValue bin| ≤ absValue bin / 2 ^ 23)
      (NoRoom fs (absValue bin)) := by
  have hman := mantissa_lt bin
  have hman' := mantissa_large hexp
  have hdot := fs.dot_le
  unfold ftoaNumber
  split
  · rename_i hmuch
    exact Or.inl hmuch
  rename_i hfew
  have hprec : fs.prec ≤ 21 := by
    rw [conversionBufferSize_eq] at hfew
    omega
  have hroom : fs.prec + fs.dot ≤ conversionBufferSize := by
    rw [conversionBufferSize_eq]
    omega
  refine ((putPoint_sat hprec b).mono (fun _ => id) False.elim).bind fun p hp => ?_
  obtain ⟨hdec, hnum⟩ := hp
  refine (integerPart_large hnum hdec hprec hman' hman hexp).bind fun i ⟨hexp', z, val, hi, hint⟩ => ?_
  refine ((fractionPart_large (unwritten_integer fs z val) hprec hi.number hexp'.ge).mono
    (fun _ => id) False.elim).bind fun r hr => ?_
  obtain ⟨hfin, hrdec, hrcarry, ds, hds, hlen, hvalue⟩ := hr
  have hcomplete : Complete fs r.fin r.buf ds := by
    refine ⟨hds, ?_, ?_, ?_⟩
    · rw [hlen]
      exact integer_long ..
    · rw [hfin, hlen, hi.fin]
    · rw [hfin]
      exact hi.room
  have hround : r.Inv fs (Nat.ofDigits 10 ds + r.carry * 10 ^ (fs.prec + z)) ds (fs.prec + z) := by
    refine ⟨hcomplete, Or.inl ?_, ?_, ?_, rfl⟩
    · rw [hrdec, hi.dec, FormatSpec.place_high (by omega)]
    · rw [hlen, List.length_append, List.length_replicate]
      omega
    · rw [hrcarry]
      exact hi.carry
  -- with its carry the number is the rounded integer, and zeros for the places
  have htotal : Nat.ofDigits 10 ds + r.carry * 10 ^ (fs.prec + z) =
      (val + i.carry) * 10 ^ z * 10 ^ fs.prec := by
    rw [hvalue, ofDigits_integer, hrcarry, Nat.pow_add]
    ring
  rw [htotal] at hround
  refine ((Rounding.loop_sat hround).mono (fun r' h => h) fun hlong =>
    .of_le (pow_room hroom hlong) hint.double).bind fun r' ⟨ds', hds', hvalue'⟩ => ⟨ds', hds', ?_⟩
  have hten : (10 : ℚ) ^ fs.prec ≠ 0 := by positivity
  rw [hvalue', Nat.cast_mul _ (10 ^ fs.prec), Nat.cast_pow 10, Nat.cast_ofNat,
    mul_div_cancel_right₀ _ hten]
  exact hint.close

/-- A number with a small exponent is below `2 ^ 32`. -/
theorem absValue_small (hexp : exponent bin ≤ 31) : absValue bin < 2 ^ 32 := by
  have hman : (mantissa bin : ℚ) < 2 ^ 53 := by exact_mod_cast mantissa_lt bin
  have hscale : (2 : ℚ) ^ (exponent bin - 52) ≤ 2 ^ (-21 : ℤ) :=
    zpow_le_zpow_right₀ (by norm_num) (by omega)
  calc absValue bin ≤ mantissa bin * 2 ^ (-21 : ℤ) :=
        mul_le_mul_of_nonneg_left hscale (Nat.cast_nonneg _)
    _ < 2 ^ 53 * 2 ^ (-21 : ℤ) := by gcongr
    _ = 2 ^ 32 := by norm_num

/-- Any number: it is printed inside the buffer, or there is no room for it. -/
theorem ftoaNumber_sat (b : Cbuf) (fs : FormatSpec) (bin : Nat) :
    (ftoaNumber b fs (expBits bin) (manBits bin)).Sat
      (fun r => ∃ ds, Complete fs r.1 r.2 ds ∧ (2 ^ 32 ≤ absValue bin →
        |((Nat.ofDigits 10 ds : Nat) : ℚ) / 10 ^ fs.prec - absValue bin| ≤ absValue bin / 2 ^ 23))
      (NoRoom fs (absValue bin)) := by
  rcases Int.lt_or_le 31 (exponent bin) with hlarge | hsmall
  · exact (ftoaNumber_large b fs hlarge).imp fun r ⟨ds, hds, hclose⟩ => ⟨ds, hds, fun _ => hclose⟩
  · exact (ftoaNumber_small b fs hsmall).mono (fun r ⟨ds, hds, _⟩ =>
      ⟨ds, hds, fun h => absurd (absValue_small hsmall) (not_lt.mpr h)⟩) And.right

/-! ## The function -/

/-- What is printed of a double that is no number, or of a number that has too many digits. -/
def floatWord (fs : FormatSpec) (bin : Nat) : List UInt8 :=
  let word := if expBits bin = 2047 then
    if manBits bin ≠ 0 then ['N', 'A', 'N'] else ['I', 'N', 'F'] else ['E', 'R', 'R']
  word.map fun c => c.toUInt8 + fs.caseAdjust

/-- The exit writes its word. -/
theorem ftoaWord_sat (b : Cbuf) (fs : FormatSpec) (ret : Char × Char × Char) :
    (ftoaWord b fs ret).Sat (fun r => r.1 = -3 ∧ r.2.readBack 3 = .done
      ([ret.2.2, ret.2.1, ret.1].map fun c => c.toUInt8 + fs.caseAdjust)) False := by
  obtain ⟨c0, c1, c2⟩ := ret
  have hput : (Cbuf.Holds ((((b.set 0 (c0.toUInt8 + fs.caseAdjust)).set 1
      (c1.toUInt8 + fs.caseAdjust))).set 2 (c2.toUInt8 + fs.caseAdjust))
      [c0.toUInt8 + fs.caseAdjust, c1.toUInt8 + fs.caseAdjust, c2.toUInt8 + fs.caseAdjust]) := by
    intro i hi
    have hi : i < 3 := hi
    interval_cases i
    · rw [Cbuf.set_byte_of_ne _ _ (by decide), Cbuf.set_byte_of_ne _ _ (by decide),
        Cbuf.set_byte_self]
      rfl
    · rw [Cbuf.set_byte_of_ne _ _ (by decide), Cbuf.set_byte_self]
      rfl
    · rw [Cbuf.set_byte_self]
      rfl
  exact ⟨rfl, hput.readBack⟩

/-- What holds of every decimal number that is printed holds of what the function returns, which may
    be a word.  The word is `nan`, `inf` or `err`; the last one only where the number took the exit,
    for the reason `E`. -/
theorem npfFtoaRev_sat {P : List Nat → Prop} {E : Prop}
    (h : (ftoaNumber b fs (expBits bin) (manBits bin)).Sat
      (fun r => ∃ ds, Complete fs r.1 r.2 ds ∧ P ds) E) :
    (npfFtoaRev b fs bin).Sat (fun r =>
      (r.1 = -3 ∧ r.2.readBack 3 = .done (floatWord fs bin) ∧ (expBits bin ≠ 2047 → E)) ∨
      expBits bin ≠ 2047 ∧ ∃ n : Nat, r.1 = n ∧ ∃ ds, Complete fs n r.2 ds ∧ P ds) False := by
  have hexp : bin / 2 ^ doubleManBits % (doubleExpMask + 1) = expBits bin := rfl
  have hman : bin % 2 ^ doubleManBits = manBits bin := rfl
  unfold npfFtoaRev
  rw [hexp, hman]
  dsimp only
  by_cases hnone : expBits bin = doubleExpMask
  · rw [if_pos hnone]
    refine (ftoaWord_sat b fs _).imp fun r ⟨hlen, hword⟩ =>
      Or.inl ⟨hlen, hword.trans ?_, fun hno => absurd hnone hno⟩
    rw [floatWord, if_pos (show expBits bin = 2047 from hnone)]
    by_cases hnan : manBits bin ≠ 0
    · rw [if_pos hnan, if_pos hnan]
    · rw [if_neg hnan, if_neg hnan]
  · rw [if_neg hnone]
    refine Outcome.Sat.orExit (E := E) (h.bind fun r hr => Or.inr ⟨hnone, r.1, rfl, hr⟩) fun he => ?_
    refine (ftoaWord_sat b fs _).imp fun r ⟨hlen, hword⟩ => Or.inl ⟨hlen, hword.trans ?_, fun _ => he⟩
    rw [floatWord, if_neg (show ¬ expBits bin = 2047 from hnone)]

/-! ## The directives -/

/-- The sign of a double. -/
def floatSign (fs : FormatSpec) (bin : Nat) : List UInt8 :=
  if bin / 2 ^ 63 ≠ 0 then ['-'.toUInt8] else if fs.prepend = 0 then [] else [fs.prepend]

/-- The conversion, once the number is in its buffer. -/
theorem convertFloat_eq {len : Int} {buf : Cbuf} {payload : List UInt8}
    (hrun : npfFtoaRev .empty fs bin = .done (len, buf))
    (hback : buf.readBack len.natAbs = .done payload) :
    convertFloat fs bin = .done ⟨if len < 0 then { fs with leadingZeroPad := false } else fs, payload,
      if bin / 2 ^ 63 ≠ 0 then '-'.toUInt8 else fs.prepend, 0, bin % 2 ^ 63 = 0⟩ := by
  unfold convertFloat
  rw [hrun]
  dsimp only [Outcome.done_bind]
  rw [hback]
  rfl

/-- A converted double in its field.  Floats have no prefix, and no zeros of a precision. -/
theorem float_text {c : Converted} (hfs : c.fs.Formed) (hconv : c.fs.convSpec.isFloat = true)
    (hpre : c.need0x = 0) {z : Bool} (hfill : c.fs.leadingZeroPad = true ∧
      ¬ (c.fs.precOpt ≠ .none ∧ c.fs.prec = 0 ∧ c.zero = true) ↔ z = true) :
    c.text = fieldText c.fs z c.sign [] c.payload := by
  have hstring : c.fs.convSpec ≠ .string := fun h => by
    rw [h] at hconv
    cases hconv
  have hhex : c.hexPrefix = [] := by
    rw [Converted.hexPrefix, if_neg (not_not.mpr hpre)]
  have hpad : zeros c.precPad = [] := by
    rw [Converted.precPad, if_neg fun h => h.2 hconv]
    rfl
  rw [Converted.text_field hstring (Or.inr hhex) hfs.width hfill, hhex, hpad, List.nil_append]

/-- The sign of a converted double is the one of the double. -/
theorem sign_float (fs fs' : FormatSpec) (bin : Nat) (payload : List UInt8) (zero : Bool) :
    Converted.sign ⟨fs', payload, if bin / 2 ^ 63 ≠ 0 then '-'.toUInt8 else fs.prepend, 0, zero⟩ =
      floatSign fs bin := by
  unfold Converted.sign floatSign
  dsimp only
  by_cases hneg : bin / 2 ^ 63 ≠ 0
  · rw [if_pos hneg, if_pos hneg, if_pos (by decide)]
  · rw [if_neg hneg, if_neg hneg, ite_not]

/-- What a conversion prints of a double: with the word the field is not filled with zeros. -/
theorem convertFloat_text (hfs : fs.Formed) (hconv : fs.convSpec.isFloat = true)
    {P : List Nat → Prop} {E : Prop}
    (h : (ftoaNumber .empty fs (expBits bin) (manBits bin)).Sat
      (fun r => ∃ ds, Complete fs r.1 r.2 ds ∧ P ds) E) :
    ∃ c, convertFloat fs bin = .done c ∧
      (c.text = fieldText fs false (floatSign fs bin) [] (floatWord fs bin) ∧
        (expBits bin ≠ 2047 → E) ∨
      expBits bin ≠ 2047 ∧ ∃ ds, (∀ d ∈ ds, d < 10) ∧ fs.prec < ds.length ∧
        ds.length + fs.dot ≤ conversionBufferSize ∧ P ds ∧
        c.text = fieldText fs (zeroFill fs (bin % 2 ^ 63 : Nat)) (floatSign fs bin) []
          (decimalText fs ds)) := by
  obtain ⟨⟨len, buf⟩, hrun, hresult⟩ := (npfFtoaRev_sat h).value
  rcases hresult with ⟨hlen, hword, he⟩ | ⟨hnum, n, hlen, ds, hds, hp⟩
  · dsimp only at hlen hword
    refine ⟨_, convertFloat_eq hrun (by rw [hlen]; exact hword), Or.inl ⟨?_, he⟩⟩
    have hneg : len < 0 := by omega
    rw [if_pos hneg, float_text (z := false) ⟨hfs.width, hfs.adjust, hfs.sign⟩ hconv rfl (by simp),
      sign_float]
    rfl
  · dsimp only at hlen hds
    refine ⟨_, convertFloat_eq hrun (by rw [hlen]; exact hds.readBack),
      Or.inr ⟨hnum, ds, hds.number.lt, hds.long, hds.fin ▸ hds.room, hp, ?_⟩⟩
    have hpos : ¬ len < 0 := by omega
    rw [if_neg hpos, float_text (z := zeroFill fs (bin % 2 ^ 63 : Nat)) hfs hconv rfl ?_, sign_float]
    rw [zeroFill, Bool.and_eq_true, Bool.not_eq_true', Bool.and_eq_false_imp]
    generalize bin % 2 ^ 63 = low
    simp

/-- The conversion takes one argument, all 64 bits of it. -/
theorem convert_float (m : Bytes) {fs : FormatSpec} (args : Args)
    (hconv : fs.convSpec.isFloat = true) :
    convert m fs args =
      convertFloat fs (unsigned 64 (args 0)) >>= fun c => .done (c, args.next) := by
  unfold convert
  cases h : fs.convSpec with
  | floatDec | floatSci | floatShortest | floatHex => rfl
  | percent | char | string | signedInt | octal | hexInt | unsignedInt | pointer =>
    rw [h] at hconv
    cases hconv

/-- A sign is one byte at most. -/
theorem floatSign_length (fs : FormatSpec) (bin : Nat) : (floatSign fs bin).length ≤ 1 := by
  unfold floatSign
  split_ifs
  · exact Nat.le_refl 1
  · exact Nat.zero_le 1
  · exact Nat.le_refl 1

/-- What a float prints can be counted: its field is an `int`, and beside that there are only the
    sign and what fits the buffer. -/
theorem floatText_short (hwidth : fs.fieldWidth < 2 ^ 31) {number : List UInt8}
    (hnumber : number.length ≤ conversionBufferSize) (zeroFill : Bool) (bin : Nat) :
    (fieldText fs zeroFill (floatSign fs bin) [] number).length < 2 ^ 31 := by
  have hsign := floatSign_length fs bin
  rw [conversionBufferSize_eq] at hnumber
  rw [fieldText_length, List.length_nil]
  omega

/-- A word fits the buffer. -/
theorem floatWord_length (fs : FormatSpec) (bin : Nat) :
    (floatWord fs bin).length ≤ conversionBufferSize := by
  unfold floatWord
  rw [List.length_map]
  split_ifs <;> decide

/-- A decimal number has its digits and its point. -/
theorem decimalText_length (fs : FormatSpec) (ds : List Nat) :
    (decimalText fs ds).length = ds.length + fs.dot := by
  rw [decimalText]
  simp only [List.length_append, List.length_reverse, List.length_map, List.length_drop,
    List.length_take, point_length]
  omega

/-- A directive prints what its conversion does. -/
theorem printDirective_float (m : Bytes) (d : Directive) (args : Args)
    (hfloat : d.spec.convSpec.isFloat = true) (hneg : d.spec.Negatable args)
    {P : List Nat → Prop} {E : Prop} {fs : FormatSpec}
    {rest : Args} (hfs : fs = (d.spec.starArgs args).1.defaults)
    (hrest : rest = (d.spec.starArgs args).2) {bin : Nat} (hbin : bin = unsigned 64 (rest 0))
    (h : (ftoaNumber .empty fs (expBits bin) (manBits bin)).Sat
      (fun r => ∃ ds, Complete fs r.1 r.2 ds ∧ P ds) E) :
    ∃ text, printDirective m d.spec args = .done (text, rest.next) ∧ fs.fieldWidth ≤ text.length ∧
      (text = fieldText fs false (floatSign fs bin) [] (floatWord fs bin) ∧ (expBits bin ≠ 2047 → E) ∨
      expBits bin ≠ 2047 ∧ ∃ ds, (∀ d ∈ ds, d < 10) ∧ fs.prec < ds.length ∧
        ds.length + fs.dot ≤ conversionBufferSize ∧ P ds ∧
        text = fieldText fs (zeroFill fs (bin % 2 ^ 63 : Nat)) (floatSign fs bin) []
          (decimalText fs ds)) := by
  have hstar := d.spec.starArgs_alike args
  have hwidth := d.fieldWidth_lt hneg
  obtain ⟨hdef, -⟩ := (d.spec.starArgs args).1.defaults_alike
  have halike := hstar.trans hdef
  rw [← hfs] at halike hwidth
  have hkind : fs.convSpec.isFloat = true := by
    rw [halike.convSpec]
    exact hfloat
  obtain ⟨c, hc, htext⟩ := convertFloat_text (halike.formed d.formed) hkind h
  have hshort : fs.fieldWidth ≤ c.text.length ∧ c.text.length < 2 ^ 31 := by
    rcases htext with ⟨hword, -⟩ | ⟨-, ds, -, -, hfit, -, hnumber⟩
    · rw [hword]
      exact ⟨fieldText_wide .., floatText_short hwidth (floatWord_length fs bin) _ _⟩
    · rw [hnumber]
      exact ⟨fieldText_wide .., floatText_short hwidth ((decimalText_length fs ds).trans_le hfit) _ _⟩
  refine ⟨c.text, ?_, hshort.1, htext⟩
  rw [printDirective_eq m hneg, ← hfs, ← hrest, convert_float m rest hkind, ← hbin, hc]
  exact countInt_of_lt hshort.2 _

/-- **A float is always printed**: whatever the bits of the argument and the directive are, the
    conversion stays in its buffer, and the field holds the sign and a word, or a decimal number with
    as many digits behind the point as the precision says, which fits the buffer with its point.

    The word is that of a double that is no number, or else there is no room for the number: more
    than 21 places, or twice the number has more digits in front of the point than the places leave
    room for.  A decimal number from `2 ^ 32` on is within a part in `2 ^ 23` of the double: the
    scaling loses a part in `2 ^ 28` with each of its 23 places at most.  The field width may come
    from an argument, but not from the least `int`. -/
theorem float_printed (m : Bytes) (d : Directive) (args : Args)
    (hfloat : d.spec.convSpec.isFloat = true) (hneg : d.spec.Negatable args) :
    let fs := (d.spec.starArgs args).1.defaults
    let rest := (d.spec.starArgs args).2
    let bin := unsigned 64 (rest 0)
    ∃ text, printDirective m d.spec args = .done (text, rest.next) ∧ fs.fieldWidth ≤ text.length ∧
      ((expBits bin = 2047 ∨ NoRoom fs (absValue bin)) ∧
        text = fieldText fs false (floatSign fs bin) [] (floatWord fs bin) ∨
      expBits bin ≠ 2047 ∧ ∃ ds, (∀ d ∈ ds, d < 10) ∧ fs.prec < ds.length ∧
        ds.length + fs.dot ≤ conversionBufferSize ∧
        (2 ^ 32 ≤ absValue bin →
          |((Nat.ofDigits 10 ds : Nat) : ℚ) / 10 ^ fs.prec - absValue bin| ≤
            absValue bin / 2 ^ 23) ∧
        text = fieldText fs (zeroFill fs (bin % 2 ^ 63 : Nat)) (floatSign fs bin) []
          (decimalText fs ds)) := by
  dsimp only
  generalize hfs : (d.spec.starArgs args).1.defaults = fs
  generalize hrest : (d.spec.starArgs args).2 = rest
  generalize hbin : unsigned 64 (rest 0) = bin
  obtain ⟨text, hrun, hwidth, hcases⟩ := printDirective_float m d args hfloat hneg hfs.symm
    hrest.symm hbin.symm (ftoaNumber_sat .empty fs bin)
  refine ⟨text, hrun, hwidth, ?_⟩
  rcases hcases with ⟨hword, hroom⟩ | hnumber
  · exact Or.inl ⟨or_iff_not_imp_left.mpr hroom, hword⟩
  · exact Or.inr hnumber

/-- `%8.2f`. -/
def floatField : Directive where
  flags := []
  width := .literal '8'.toUInt8 []
  precision := .literal ['2'.toUInt8]
  modifier := .none
  conv := 'f'.toUInt8
  flags_proper := Directive.flags_none
  width_proper := eight_proper
  width_int := eight_int
  precision_proper := show ∀ c ∈ ['2'.toUInt8], isDigit c = true by decide
  precision_int := by decide
  conv_proper := by decide
  short := by decide

/-- It takes no star argument. -/
theorem floatField_args (slot : Nat) : floatField.spec.starArgs (fun _ => slot) =
    (floatField.spec, fun _ => slot) := by
  rw [FormatSpec.starArgs, if_neg (by decide)]
  exact if_neg (by decide)

/-- Infinity in a field of 8 bytes. -/
theorem float_printed_inf : printDirective (fun _ => 0) floatField.spec
    (fun _ => 0x7FF0000000000000) = .done ("     inf".toList.map Char.toUInt8,
      fun _ => 0x7FF0000000000000) := by
  obtain ⟨text, hrun, -, hcases⟩ := float_printed (fun _ => 0) floatField
    (fun _ => 0x7FF0000000000000) (by decide) (by decide)
  rw [floatField_args] at hrun hcases
  rcases hcases with ⟨-, hword⟩ | ⟨hnum, -⟩
  · rw [hrun, hword]
    rfl
  · exact absurd rfl hnum

/-- **A number below `2 ^ 32` is printed as what it is**, within half of its last place and
    `2 ^ -28` for the scaling: with 12 places and fewer always, and with more where there is room.

    The one exception is a fraction that is nearly one where there are no places, as `%.0f` asks for
    it: the mantissa of the fraction and its carry add up to `2 ^ 32` there and wrap, so that the
    number is printed without the fraction, although the next one is nearer.  Where there is a place
    the fraction is scaled first, and that leaves room for the carry. -/
theorem float_close (m : Bytes) (d : Directive) (args : Args)
    (hfloat : d.spec.convSpec.isFloat = true) (hneg : d.spec.Negatable args)
    (hsmall : absValue (unsigned 64 ((d.spec.starArgs args).2 0)) < 2 ^ 32) :
    let fs := (d.spec.starArgs args).1.defaults
    let rest := (d.spec.starArgs args).2
    let bin := unsigned 64 (rest 0)
    ∃ text, printDirective m d.spec args = .done (text, rest.next) ∧
      (text = fieldText fs false (floatSign fs bin) [] (floatWord fs bin) ∧ 12 < fs.prec ∨
      ∃ ds, (∀ d ∈ ds, d < 10) ∧ fs.prec < ds.length ∧ Near fs (absValue bin) ds ∧
        text = fieldText fs (zeroFill fs (bin % 2 ^ 63 : Nat)) (floatSign fs bin) []
          (decimalText fs ds)) := by
  have hexp := exponent_le hsmall
  dsimp only
  generalize hfs : (d.spec.starArgs args).1.defaults = fs
  generalize hrest : (d.spec.starArgs args).2 = rest at *
  generalize hbin : unsigned 64 (rest 0) = bin at *
  obtain ⟨text, hrun, -, hcases⟩ := printDirective_float m d args hfloat hneg hfs.symm hrest.symm
    hbin.symm (ftoaNumber_small .empty fs hexp)
  refine ⟨text, hrun, ?_⟩
  rcases hcases with ⟨hword, hlong⟩ | ⟨-, ds, hdigits, hlong, -, hnear, htext⟩
  · refine Or.inl ⟨hword, (hlong fun hnone => ?_).1⟩
    rw [exponent, if_pos (by rw [hnone]; decide), hnone] at hexp
    exact absurd hexp (by decide)
  · exact Or.inr ⟨ds, hdigits, hlong, hnear, htext⟩

/-- 2.5 in a field of 8 bytes. -/
theorem float_close_half : ∃ text ds,
    printDirective (fun _ => 0) floatField.spec (fun _ => 0x4004000000000000) =
      .done (text, fun _ => 0x4004000000000000) ∧
    text = fieldText floatField.spec false [] [] (decimalText floatField.spec ds) ∧
    |((Nat.ofDigits 10 ds : Nat) : ℚ) / 10 ^ 2 - 5 / 2| ≤ 1 / 2 / 10 ^ 2 + 1 / 2 ^ 28 := by
  have hvalue : absValue 0x4004000000000000 = 5 / 2 := by
    have hman : mantissa 0x4004000000000000 = 5 * 2 ^ 50 := by decide
    have hexp : exponent 0x4004000000000000 = 1 := by decide
    rw [absValue, magnitude, hman, hexp]
    norm_num
  have hbin : unsigned 64 0x4004000000000000 = 0x4004000000000000 := by decide
  have hdefaults : floatField.spec.defaults = floatField.spec := by decide
  have hprec : floatField.spec.prec = 2 := by decide
  obtain ⟨text, hrun, hcases⟩ := float_close (fun _ => 0) floatField (fun _ => 0x4004000000000000)
    (by decide) (by decide) (by rw [floatField_args, hbin, hvalue]; norm_num)
  rw [floatField_args] at hrun hcases
  dsimp only at hrun hcases
  rw [hbin, hvalue, hdefaults] at hcases
  rcases hcases with ⟨-, hmany⟩ | ⟨ds, -, -, hnear, htext⟩
  · rw [hprec] at hmany
    exact absurd hmany (by decide)
  · unfold Near at hnear
    rw [hprec] at hnear
    exact ⟨text, ds, hrun, htext, hnear.mpr (Or.inl (by decide))⟩

end Nearlands.Npf
