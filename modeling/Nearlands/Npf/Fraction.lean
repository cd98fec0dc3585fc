/-
  The fraction part of a number, and its rounding.

  The fraction is a word `manF` of 32 bits with a carry behind it, a binary exponent and a number of
  decimal places: `approx` is the number that these stand for.  A turn of the loop changes it by
  half a unit of its last bit at most, and the unit grows with the exponent, so all the errors
  together are below the last one (`Fraction.Inv`).  What the loop ends with has one decimal digit in
  front of its binary point, and then the digits are exact (`printFraction_sat`), and so is the
  rounding.
-/
import Mathlib.Algebra.Order.Field.Power
import Mathlib.Tactic.FieldSimp
import Mathlib.Tactic.Linarith
import Mathlib.Tactic.LinearCombination
import Mathlib.Tactic.Positivity
import Mathlib.Tactic.Rify
import Nearlands.Npf.Decimal

namespace Nearlands.Npf

open Nearlands.Lib

variable {fs : FormatSpec} {ds : List Nat} {x : ℚ}

/-! ## Scaling -/

/-- The number that a scaled fraction stands for. -/
def Fraction.approx (prec : Nat) (s : Fraction) : ℚ :=
  (s.manF + s.carry / 2) * (2 ^ s.expF / 2 ^ 32 / 10 ^ (prec - s.decF + s.digit))

/-- The loop that scales the fraction `x`.  A turn halves the mantissa, or multiplies it by five for
    one decimal place, and in either case takes the binary exponent one step up, towards 4.  `phase`
    says whether the one place that is spent behind the binary point has been spent, and `close`
    bounds the error so far by half a unit of the last bit, which grows with the exponent. -/
structure Fraction.Inv (fs : FormatSpec) (ds : List Nat) (x : ℚ) (s : Fraction) : Prop where
  manF : s.manF < 2 ^ 32
  carry : s.carry ≤ 1
  decF : s.decF ≤ fs.prec
  number : Numeral fs s.decF s.buf ds
  /-- One decimal place is spent behind the binary point, before the exponent is 4. -/
  phase : (s.digit = 0 ∧ s.expF ≤ 3 ∧ (0 < s.expF → s.manF < 2 ^ (32 - s.expF.toNat))) ∨
    (s.digit = 1 ∧ 0 < s.expF ∧ s.expF ≤ 4 ∧ (s.expF = 4 → s.manF + s.carry < 10 * 2 ^ 28))
  /-- Where all places are spent, they were spent in front of the binary point. -/
  spent : s.decF = 0 → s.expF ≤ 0 ∧ s.digit = 0 ∧ (fs.prec ≠ 0 → s.carry = 0)
  close : |x - s.approx fs.prec| ≤ 2 ^ s.expF / 2 ^ 33

/-- Two errors of at most `B` are one of at most `2 B`, which is what the bound grows by in a turn. -/
theorem close_step {x a a' B : ℚ} (h : |x - a| ≤ B) (h' : |a - a'| ≤ B) : |x - a'| ≤ B * 2 := by
  have htriangle := abs_sub_le x a a'
  linarith

/-- The unit of the last bit is at most this. -/
theorem unit_le (e : ℤ) (k : Nat) : (2 : ℚ) ^ e / 2 ^ 32 / 10 ^ k / 2 ≤ 2 ^ e / 2 ^ 33 := by
  have hpos : (0 : ℚ) < 2 ^ e / 2 ^ 32 := by positivity
  have hk : (1 : ℚ) ≤ 10 ^ k := one_le_pow₀ (by norm_num)
  have hdiv : (2 : ℚ) ^ e / 2 ^ 32 / 10 ^ k ≤ 2 ^ e / 2 ^ 32 := div_le_self hpos.le hk
  calc (2 : ℚ) ^ e / 2 ^ 32 / 10 ^ k / 2 ≤ 2 ^ e / 2 ^ 32 / 2 := by linarith
    _ = 2 ^ e / 2 ^ 33 := by ring

/-- Half of the unit is at most the error allowed so far. -/
theorem carry_le {c : Nat} (hc : c ≤ 1) (e : ℤ) (k : Nat) :
    (c : ℚ) / 2 * (2 ^ e / 2 ^ 32 / 10 ^ k) ≤ 2 ^ e / 2 ^ 33 := by
  have hunit := unit_le e k
  have hpos : (0 : ℚ) < 2 ^ e / 2 ^ 32 / 10 ^ k := by positivity
  have hc' : (c : ℚ) ≤ 1 := by exact_mod_cast hc
  nlinarith

/-- The mantissa is halved: what is lost is the carry. -/
theorem halve_close {e : ℤ} {k man c : Nat} (hc : c ≤ 1)
    (h : |x - (man + c / 2) * (2 ^ e / 2 ^ 32 / 10 ^ k)| ≤ 2 ^ e / 2 ^ 33) :
    |x - (((man / 2 : Nat) : ℚ) + ((man % 2 : Nat) : ℚ) / 2) * (2 ^ (e + 1) / 2 ^ 32 / 10 ^ k)| ≤
      2 ^ (e + 1) / 2 ^ 33 := by
  have hman : (man : ℚ) = 2 * ((man / 2 : Nat) : ℚ) + ((man % 2 : Nat) : ℚ) := by
    exact_mod_cast (Nat.div_add_mod man 2).symm
  have hdiff : (man + c / 2) * (2 ^ e / 2 ^ 32 / 10 ^ k) -
      (((man / 2 : Nat) : ℚ) + ((man % 2 : Nat) : ℚ) / 2) * (2 ^ (e + 1) / 2 ^ 32 / 10 ^ k) =
      (c : ℚ) / 2 * (2 ^ e / 2 ^ 32 / 10 ^ k) := by
    rw [hman, zpow_add_one₀ (by norm_num)]
    ring
  have hnext := close_step h (hdiff ▸ (abs_of_nonneg (by positivity)).trans_le (carry_le hc e k))
  calc _ ≤ _ := hnext
    _ = _ := by
      rw [zpow_add_one₀ (by norm_num)]
      ring

/-- The mantissa is multiplied by five for one decimal place: the carry counts three in place of two
    and a half.  The product by ten is one by five here and a step of the exponent, and half a unit
    is lost at most. -/
theorem five_close {e : ℤ} {k man c : Nat} (hc : c ≤ 1)
    (h : |x - (man + c / 2) * (2 ^ e / 2 ^ 32 / 10 ^ k)| ≤ 2 ^ e / 2 ^ 33) :
    |x - (((man * 5 + 3 * c : Nat) : ℚ) + 0 / 2) * (2 ^ (e + 1) / 2 ^ 32 / 10 ^ (k + 1))| ≤
      2 ^ (e + 1) / 2 ^ 33 := by
  have hdiff : (((man * 5 + 3 * c : Nat) : ℚ) + 0 / 2) * (2 ^ (e + 1) / 2 ^ 32 / 10 ^ (k + 1)) -
      (man + c / 2) * (2 ^ e / 2 ^ 32 / 10 ^ k) =
      (c : ℚ) / 2 * (2 ^ e / 2 ^ 32 / 10 ^ k) / 5 := by
    rw [zpow_add_one₀ (by norm_num), pow_succ]
    push_cast
    field_simp
    ring
  have hlost : |(man + c / 2) * (2 ^ e / 2 ^ 32 / 10 ^ k) -
      (((man * 5 + 3 * c : Nat) : ℚ) + 0 / 2) * (2 ^ (e + 1) / 2 ^ 32 / 10 ^ (k + 1))| ≤
      2 ^ e / 2 ^ 33 := by
    have hpos : (0 : ℚ) ≤ (c : ℚ) / 2 * (2 ^ e / 2 ^ 32 / 10 ^ k) := by positivity
    have hle := carry_le hc e k
    rw [abs_sub_comm, hdiff, abs_of_nonneg (by positivity)]
    linarith
  calc _ ≤ _ := close_step h hlost
    _ = _ := by
      rw [zpow_add_one₀ (by norm_num)]
      ring

/-- The digits behind the point are zeros so far. -/
def Unwritten (fs : FormatSpec) (ds : List Nat) : Prop :=
  fs.prec ≤ ds.length ∧ ∀ i, ∀ h : i < ds.length, i < fs.prec → ds[i] = 0

/-- A zero behind the point is written. -/
theorem Numeral.putZero {b : Cbuf} {k : Nat} (h : Numeral fs k b ds) (hun : Unwritten fs ds)
    (hk : k ≤ fs.prec) (hpos : k ≠ 0) : Numeral fs (k - 1) (b.set (k - 1) (decimal 0)) ds := by
  have hlt : k - 1 < ds.length := by
    have := hun.1
    omega
  have hput := h.put (i := k - 1) (d := 0) (by omega) (by decide)
  rw [FormatSpec.place_low (by omega), Nat.min_eq_right (by omega)] at hput
  have hsame : ds.set (k - 1) 0 = ds := by
    have hzero := hun.2 (k - 1) hlt (by omega)
    rw [← hzero, List.set_getElem_self]
  rwa [hsame] at hput

/-- The bound below which a mantissa can be multiplied by five. -/
theorem threshold_eq : (2 ^ ftoaManBits - 4) / 5 = 858993458 := rfl

/-- One turn of the loop, where the mantissa is halved. -/
theorem Fraction.Inv.halve {s : Fraction} (h : s.Inv fs ds x) (hdec : s.decF ≠ 0)
    (hexp : s.expF < 4) (hbig : 858993458 < s.manF ∨ s.digit ≠ 0) :
    Fraction.Inv fs ds x
      { s with carry := s.manF % 2, manF := s.manF / 2, expF := s.expF + 1 } := by
  have hman := h.manF
  refine ⟨?_, ?_, h.decF, h.number, ?_, fun h0 => absurd h0 hdec, halve_close h.carry h.close⟩
  · dsimp only
    omega
  · exact Nat.le_of_lt_succ (Nat.mod_lt _ (by decide))
  · dsimp only
    rcases h.phase with ⟨hdigit, hle, hsmall⟩ | ⟨hdigit, hpos, -, -⟩
    · -- the mantissa is too large for the exponent to be 3
      refine Or.inl ⟨hdigit, ?_, fun hpos => ?_⟩
      · rcases Int.lt_or_eq_of_le hle with hlt | h3
        · omega
        · rw [h3] at hsmall
          have hman29 : s.manF < 2 ^ 29 := hsmall (by decide)
          omega
      · rcases Int.lt_or_eq_of_le (Int.le_of_lt_add_one hpos) with hpos' | h0
        · have hlt := hsmall hpos'
          have hpow : 32 - (s.expF + 1).toNat + 1 = 32 - s.expF.toNat := by omega
          rw [← hpow, Nat.pow_succ] at hlt
          omega
        · rw [← h0]
          show s.manF / 2 < 2 ^ 31
          omega
    · refine Or.inr ⟨hdigit, by omega, by omega, fun _ => ?_⟩
      omega

/-- One turn of the loop.  The three cases of the turn: halving, a place in front of the binary
    point, which is written as a zero, and the one place behind it. -/
theorem Fraction.turn_inv {s : Fraction} (hun : Unwritten fs ds) (hprec : fs.prec ≤ 21)
    (h : s.Inv fs ds x) (hdec : s.decF ≠ 0) (hexp : s.expF < 4) :
    s.turn.Sat (fun s' => s'.Inv fs ds x ∧ s'.expF = s.expF + 1) False := by
  have hcarry := h.carry
  unfold Fraction.turn
  rw [threshold_eq]
  split
  · rename_i hbig
    exact ⟨h.halve hdec hexp hbig, rfl⟩
  · rename_i hsmall
    obtain ⟨hman, hdigit⟩ := not_or.mp hsmall
    have hdigit : s.digit = 0 := not_not.mp hdigit
    -- nothing is lost in 32 bits
    have hfive : (if s.carry ≠ 0 then (s.manF * 5 % 2 ^ ftoaManBits + 3) % 2 ^ ftoaManBits
        else s.manF * 5 % 2 ^ ftoaManBits) = s.manF * 5 + 3 * s.carry := by
      rw [ftoaManBits]
      split <;> omega
    have hclose := five_close h.carry h.close
    dsimp only
    rw [hfive]
    split
    · rename_i hneg
      have hle := h.decF
      refine (Cbuf.sat_put (Q := fun b => Numeral fs (s.decF - 1) b ds)
        (by rw [conversionBufferSize_eq]; omega) (h.number.putZero hun hle hdec)).bind
        fun b hb => ⟨⟨?_, Nat.zero_le 1, ?_, hb, Or.inl ⟨hdigit, ?_, ?_⟩, ?_, ?_⟩, rfl⟩
      · dsimp only
        omega
      · dsimp only
        omega
      · dsimp only
        omega
      · intro hpos
        dsimp only at hpos
        omega
      · exact fun _ => ⟨by dsimp only; omega, hdigit, fun _ => rfl⟩
      · have hplaces : fs.prec - (s.decF - 1) + s.digit = fs.prec - s.decF + s.digit + 1 := by omega
        unfold Fraction.approx
        dsimp only
        rw [hplaces]
        exact_mod_cast hclose
    · rename_i hpos
      refine ⟨⟨?_, Nat.zero_le 1, h.decF, h.number, Or.inr ⟨?_, ?_, ?_, fun h4 => ?_⟩,
        fun h0 => absurd h0 hdec, ?_⟩, rfl⟩
      · dsimp only
        omega
      · dsimp only
        omega
      · dsimp only
        omega
      · dsimp only
        omega
      · dsimp only at h4 ⊢
        rcases h.phase with ⟨-, -, hlow⟩ | ⟨hone, -⟩
        · have h3 : s.expF = 3 := by omega
          rw [h3] at hlow
          have hman29 : s.manF < 2 ^ 29 := hlow (by decide)
          omega
        · omega
      · unfold Fraction.approx
        dsimp only
        rw [← Nat.add_assoc]
        exact_mod_cast hclose

/-! ## Digits -/

/-- The digits of a scaled fraction are exact: together with what is left they are the fraction.
    The induction is on the places left: a turn takes the top four bits as a digit, and the rest
    times ten is again below `10 * 2 ^ 28`, so that no digit is more than nine and nothing is lost. -/
theorem printFraction_sat (hprec : fs.prec ≤ 21) : ∀ {n man : Nat} {buf : Cbuf} {ds : List Nat},
    Numeral fs (n + 1) buf ds → (∀ i, ∀ h : i < ds.length, i < n + 1 → ds[i] = 0) →
    n < fs.prec → fs.prec ≤ ds.length → man < 10 * 2 ^ 28 →
    (printFraction (n + 1) man buf).Sat (fun r => ∃ ds' D, Numeral fs 0 r.2 ds' ∧
      ds'.length = ds.length ∧ Nat.ofDigits 10 ds' = Nat.ofDigits 10 ds + D ∧
      man * 10 ^ n = D * 2 ^ 28 + r.1 ∧ r.1 < 2 ^ 28) False := by
  intro n
  induction n with
  | zero =>
    intro man buf ds hnum hzero hn hlong hman
    have hlen : 0 < ds.length := by omega
    -- the last place: its digit is written, and what is left is below one
    have hput := hnum.put (i := 0) (d := man / 2 ^ 28) (Nat.le_refl _) (by omega)
    rw [FormatSpec.place_low hn, Nat.min_zero] at hput
    have hvalue := ofDigits_set 10 hlen (man / 2 ^ 28)
    rw [hzero 0 hlen (by decide), Nat.zero_mul, Nat.add_zero, pow_zero, Nat.mul_one] at hvalue
    rw [printFraction]
    refine (Cbuf.sat_put (Q := fun b => Numeral fs 0 b (ds.set 0 (man / 2 ^ 28)))
      (by rw [conversionBufferSize_eq]; omega) hput).bind fun b hb => ?_
    rw [if_pos rfl]
    refine ⟨_, man / 2 ^ 28, hb, List.length_set, hvalue, ?_, Nat.mod_lt _ (by decide)⟩
    rw [pow_zero, Nat.mul_one, ftoaManBits]
    omega
  | succ n ih =>
    intro man buf ds hnum hzero hn hlong hman
    have hlen : n + 1 < ds.length := by omega
    -- a digit is written in place of a zero
    have hput := hnum.put (i := n + 1) (d := man / 2 ^ 28) (Nat.le_refl _) (by omega)
    rw [FormatSpec.place_low hn, Nat.min_eq_right (by omega)] at hput
    have hvalue := ofDigits_set 10 hlen (man / 2 ^ 28)
    rw [hzero (n + 1) hlen (by omega), Nat.zero_mul, Nat.add_zero] at hvalue
    -- the rest times ten does not wrap
    have hwrap : man % 2 ^ (ftoaManBits - 4) * 10 % 2 ^ ftoaManBits = man % 2 ^ 28 * 10 := by
      rw [ftoaManBits]
      omega
    rw [printFraction]
    refine (Cbuf.sat_put (Q := fun b => Numeral fs (n + 1) b (ds.set (n + 1) (man / 2 ^ 28)))
      (by rw [conversionBufferSize_eq]; omega) hput).bind fun b hb => ?_
    dsimp only
    rw [if_neg (by omega), hwrap]
    have hnext := ih hb (fun i hi hlt => by
      rw [List.length_set] at hi
      rw [List.getElem_set_ne (by omega)]
      exact hzero i hi (by omega)) (by omega) (by rw [List.length_set]; exact hlong)
      (show man % 2 ^ 28 * 10 < 10 * 2 ^ 28 by omega)
    refine hnext.imp fun r hr => ?_
    obtain ⟨ds', D, hnum', hlen', hvalue', hleft, hlt⟩ := hr
    refine ⟨ds', man / 2 ^ 28 * 10 ^ (n + 1) + D, hnum', ?_, ?_, ?_, hlt⟩
    · rw [hlen', List.length_set]
    · rw [hvalue', hvalue, Nat.add_assoc]
    · calc man * 10 ^ (n + 1)
          = (2 ^ 28 * (man / 2 ^ 28) + man % 2 ^ 28) * 10 ^ (n + 1) := by rw [Nat.div_add_mod]
        _ = man / 2 ^ 28 * 10 ^ (n + 1) * 2 ^ 28 + man % 2 ^ 28 * 10 * 10 ^ n := by ring
        _ = (man / 2 ^ 28 * 10 ^ (n + 1) + D) * 2 ^ 28 + r.1 := by rw [hleft]; ring

/-- Within half of the last place, and a little for the scaling. -/
def Close (prec : Nat) (v : Nat) (x : ℚ) : Prop := |v / 10 ^ prec - x| ≤ 1 / 2 / 10 ^ prec + 1 / 2 ^ 28

/-- Digits behind the binary point, and the next bit.  The digits are exact, so the error is that of
    the scaling, and the bit behind them rounds to the nearest. -/
theorem close_digits {prec k n man c D r : Nat} (hc : c ≤ 1) (hprec : prec = n + (k + 1))
    (h : |x - (man + c / 2) * (2 ^ (4 : ℤ) / 2 ^ 32 / 10 ^ (k + 1))| ≤ 2 ^ (4 : ℤ) / 2 ^ 33)
    (hdigits : (man + c) * 10 ^ n = D * 2 ^ 28 + r) (hr : r < 2 ^ 28) :
    Close prec (D + r * 2 ^ 4 % 2 ^ 32 / 2 ^ 31) x := by
  -- the value of the mantissa with its carry
  obtain ⟨y, hy⟩ : ∃ y : ℚ, y = (man + c) / 2 ^ 28 / 10 ^ (k + 1) := ⟨_, rfl⟩
  have hvalue : y = (D + r / 2 ^ 28) / 10 ^ prec := by
    have hcast : ((man : ℚ) + c) * 10 ^ n = D * 2 ^ 28 + r := by exact_mod_cast hdigits
    rw [hy, hprec, pow_add]
    field_simp
    linear_combination (10 ^ k * 10) * hcast
  have hcarry : |(man + c / 2) * (2 ^ (4 : ℤ) / 2 ^ 32 / 10 ^ (k + 1)) - y| ≤
      2 ^ (4 : ℤ) / 2 ^ 33 := by
    have hdiff : y - (man + c / 2) * (2 ^ (4 : ℤ) / 2 ^ 32 / 10 ^ (k + 1)) =
        (c : ℚ) / 2 * (2 ^ (4 : ℤ) / 2 ^ 32 / 10 ^ (k + 1)) := by
      rw [hy]
      norm_num
      ring
    rw [abs_sub_comm, hdiff, abs_of_nonneg (by positivity)]
    exact carry_le hc 4 (k + 1)
  have hround : |((D + r * 2 ^ 4 % 2 ^ 32 / 2 ^ 31 : Nat) : ℚ) / 10 ^ prec - y| ≤
      1 / 2 / 10 ^ prec := by
    rw [hvalue, ← sub_div, abs_div, abs_of_pos (a := (10 : ℚ) ^ prec) (by positivity)]
    refine div_le_div_of_nonneg_right ?_ (by positivity)
    rcases Nat.lt_or_ge r (2 ^ 27) with hlow | hhigh
    · have hzero : r * 2 ^ 4 % 2 ^ 32 / 2 ^ 31 = 0 := by omega
      have hr' : (r : ℚ) ≤ 2 ^ 27 := by exact_mod_cast hlow.le
      have hpos : (0 : ℚ) ≤ r := by positivity
      rw [hzero, abs_le]
      push_cast
      constructor <;> linarith
    · have hone : r * 2 ^ 4 % 2 ^ 32 / 2 ^ 31 = 1 := by omega
      have hr' : (2 : ℚ) ^ 27 ≤ r := by exact_mod_cast hhigh
      have hlt : (r : ℚ) ≤ 2 ^ 28 := by exact_mod_cast hr.le
      rw [hone, abs_le]
      push_cast
      constructor <;> linarith
  have htotal := close_step h hcarry
  have hsum := abs_sub_le (((D + r * 2 ^ 4 % 2 ^ 32 / 2 ^ 31 : Nat) : ℚ) / 10 ^ prec) y x
  rw [abs_sub_comm y x] at hsum
  have hscale : (2 : ℚ) ^ (4 : ℤ) / 2 ^ 33 * 2 = 1 / 2 ^ 28 := by norm_num
  rw [hscale] at htotal
  exact hsum.trans (add_le_add hround htotal)

/-- Without digits, the first bit behind them.  The bit is read off the mantissa with its carry,
    which must not wrap (`hwrap`); with a negative exponent the fraction is below a half of the last
    place, and no bit is read. -/
theorem close_none {prec man c : Nat} {e : ℤ} (hc : c ≤ 1) (he : e ≤ 0) (hman : man < 2 ^ 32)
    (hwrap : e = 0 → man + c < 2 ^ 32)
    (h : |x - (man + c / 2) * (2 ^ e / 2 ^ 32 / 10 ^ prec)| ≤ 2 ^ e / 2 ^ 33) :
    Close prec (if 0 ≤ e then (man + c) % 2 ^ 32 / 2 ^ 31 else 0) x := by
  have hten : (0 : ℚ) < 10 ^ prec := by positivity
  have hc' : (c : ℚ) ≤ 1 := by exact_mod_cast hc
  have hc0 : (0 : ℚ) ≤ c := by positivity
  have hman0 : (0 : ℚ) ≤ man := by positivity
  -- the scaled number, and the digit that stands for it
  obtain ⟨y, hy⟩ : ∃ y : ℚ, y = (man + c / 2) * (2 ^ e / 2 ^ 32) := ⟨_, rfl⟩
  have hround : |((if 0 ≤ e then (man + c) % 2 ^ 32 / 2 ^ 31 else 0 : Nat) : ℚ) - y| ≤
      1 / 2 + 1 / 2 ^ 33 := by
    rcases Int.lt_or_eq_of_le he with hneg | rfl
    · have hhalf : (2 : ℚ) ^ e ≤ 1 / 2 := by
        calc (2 : ℚ) ^ e ≤ 2 ^ (-1 : ℤ) := zpow_le_zpow_right₀ (by norm_num) (by omega)
          _ = 1 / 2 := by norm_num
      have hlt : (man : ℚ) + c / 2 ≤ 2 ^ 32 := by
        have hle : (man : ℚ) + 1 ≤ 2 ^ 32 := by exact_mod_cast hman
        linarith
      have hpos : (0 : ℚ) < 2 ^ e := by positivity
      rw [if_neg (by omega), hy, abs_le]
      push_cast
      constructor
      · have hprod : ((man : ℚ) + c / 2) * (2 ^ e / 2 ^ 32) ≤ 2 ^ 32 * (1 / 2 / 2 ^ 32) := by gcongr
        linarith
      · have hprod : 0 ≤ ((man : ℚ) + c / 2) * (2 ^ e / 2 ^ 32) := by positivity
        linarith
    · have hsum := hwrap rfl
      have hle : (man : ℚ) + c ≤ 2 ^ 32 := by exact_mod_cast hsum.le
      rw [if_pos (Int.le_refl 0), hy, zpow_zero, Nat.mod_eq_of_lt hsum]
      rcases Nat.lt_or_ge (man + c) (2 ^ 31) with hlow | hhigh
      · have hlow' : (man : ℚ) + c ≤ 2 ^ 31 := by exact_mod_cast hlow.le
        rw [Nat.div_eq_of_lt hlow, abs_le]
        push_cast
        constructor <;> linarith
      · have hone : (man + c) / 2 ^ 31 = 1 := by omega
        have hhigh' : (2 : ℚ) ^ 31 ≤ man + c := by exact_mod_cast hhigh
        rw [hone, abs_le]
        push_cast
        constructor <;> linarith
  have hnear : |y / 10 ^ prec - x| ≤ 1 / 2 ^ 33 := by
    have hsame : y / 10 ^ prec = (man + c / 2) * (2 ^ e / 2 ^ 32 / 10 ^ prec) := by
      rw [hy]
      ring
    have hle : (2 : ℚ) ^ e ≤ 1 := by
      calc (2 : ℚ) ^ e ≤ 2 ^ (0 : ℤ) := zpow_le_zpow_right₀ (by norm_num) he
        _ = 1 := zpow_zero 2
    rw [abs_sub_comm, hsame]
    refine h.trans ?_
    gcongr
  have hfirst : |((if 0 ≤ e then (man + c) % 2 ^ 32 / 2 ^ 31 else 0 : Nat) : ℚ) / 10 ^ prec -
      y / 10 ^ prec| ≤ 1 / 2 / 10 ^ prec + 1 / 2 ^ 33 := by
    have hone : (1 : ℚ) ≤ 10 ^ prec := one_le_pow₀ (by norm_num)
    have hsmall : (1 : ℚ) / 2 ^ 33 / 10 ^ prec ≤ 1 / 2 ^ 33 := div_le_self (by norm_num) hone
    rw [← sub_div, abs_div, abs_of_pos hten]
    refine (div_le_div_of_nonneg_right hround hten.le).trans ?_
    rw [add_div]
    linarith
  have hsum := abs_sub_le ((if 0 ≤ e then (man + c) % 2 ^ 32 / 2 ^ 31 else 0 : Nat) / 10 ^ prec : ℚ)
    (y / 10 ^ prec) x
  rw [Close]
  refine hsum.trans ((add_le_add hfirst hnear).trans ?_)
  rw [add_assoc]
  gcongr
  norm_num

/-! ## The fraction part -/

/-- The number that a mantissa and an exponent stand for. -/
def magnitude (bin : Nat) (exp : Int) : ℚ := bin * 2 ^ (exp - 52)

/-- The fraction is taken without loss: 64 bits behind the binary point. -/
theorem fractionOf_value {bin : Nat} {exp : Int} (hbin : bin < 2 ^ 53) (hexp : exp ≤ 31) (prec : Nat)
    (buf : Cbuf) : ∃ (binF : Nat) (e : ℤ), binF < 2 ^ 64 ∧ e ≤ 0 ∧
      fractionOf bin exp prec buf = ⟨binF / 2 ^ 32, binF / 2 ^ 31 % 2, prec, e, 0, buf⟩ ∧
      magnitude bin exp - intPart bin exp = binF / 2 ^ 64 * 2 ^ e := by
  rcases Int.lt_or_le exp 0 with hneg | hpos
  · -- there is no integer part, and the mantissa is shifted to the top
    refine ⟨bin * 2 ^ 11, exp + 1, by omega, by omega, ?_, ?_⟩
    · rw [fractionOf, if_pos hneg]
      dsimp only [doubleManBits, ftoaManBits]
      rw [show ((64 - (52 : Nat) : Int) + -1).toNat = 11 from rfl, Nat.mod_eq_of_lt (by omega),
        sub_neg_eq_add]
    · rw [magnitude, intPart, if_neg (by omega), zpow_sub₀ (by norm_num), zpow_add_one₀ (by norm_num)]
      push_cast
      norm_num
      ring
  · -- the shift leaves of the mantissa what is behind the binary point
    obtain ⟨k, rfl⟩ := Int.eq_ofNat_of_zero_le hpos
    obtain ⟨j, hj⟩ : ∃ j, 52 = j + k := ⟨52 - k, by omega⟩
    have hsub : 52 - k = j := by omega
    have hsplit : (2 : Nat) ^ 64 = 2 ^ j * 2 ^ (12 + k) := by
      rw [← Nat.pow_add]
      congr 1
      omega
    have hbinF : bin * 2 ^ (12 + k) % 2 ^ 64 = bin % 2 ^ j * 2 ^ (12 + k) := by
      rw [hsplit, Nat.mul_mod_mul_right]
    refine ⟨bin * 2 ^ (12 + k) % 2 ^ 64, 0, Nat.mod_lt _ (by decide), Int.le_refl 0, ?_, ?_⟩
    · have hshift : ((64 - doubleManBits : Int) + (k : Int)).toNat = 12 + k := by
        rw [doubleManBits]
        omega
      rw [fractionOf, if_neg (by omega), hshift, sub_self]
      rfl
    · have hexponent : (2 : ℚ) ^ ((k : ℤ) - 52) = 1 / 2 ^ j := by
        have hcast : ((k : ℤ) - 52) = -(j : ℤ) := by omega
        rw [hcast, zpow_neg, zpow_natCast, one_div]
      have hdiv : (bin : ℚ) = 2 ^ j * ((bin / 2 ^ j : Nat) : ℚ) + ((bin % 2 ^ j : Nat) : ℚ) := by
        exact_mod_cast (Nat.div_add_mod bin (2 ^ j)).symm
      have hsplit' : (2 : ℚ) ^ 64 = 2 ^ j * 2 ^ (12 + k) := by exact_mod_cast hsplit
      rw [hbinF, hsplit', magnitude, intPart, if_pos hpos, Int.toNat_natCast, hsub, hexponent,
        zpow_zero]
      push_cast
      field_simp
      linear_combination hdiv

/-- A fraction of 64 bits is close to its upper half with a carry. -/
theorem close_upper {binF : Nat} {e : ℤ} :
    |(binF / 2 ^ 64 * 2 ^ e : ℚ) -
      (((binF / 2 ^ 32 : Nat) : ℚ) + ((binF / 2 ^ 31 % 2 : Nat) : ℚ) / 2) * (2 ^ e / 2 ^ 32 / 10 ^ 0)| ≤
      2 ^ e / 2 ^ 33 := by
  have hsplit : binF = binF / 2 ^ 32 * 2 ^ 32 + binF / 2 ^ 31 % 2 * 2 ^ 31 + binF % 2 ^ 31 := by omega
  have hcast : (binF : ℚ) = ((binF / 2 ^ 32 : Nat) : ℚ) * 2 ^ 32 +
      ((binF / 2 ^ 31 % 2 : Nat) : ℚ) * 2 ^ 31 + ((binF % 2 ^ 31 : Nat) : ℚ) := by exact_mod_cast hsplit
  have hrest : ((binF % 2 ^ 31 : Nat) : ℚ) ≤ 2 ^ 31 := by
    exact_mod_cast (Nat.mod_lt binF (by decide)).le
  have hpos : (0 : ℚ) < 2 ^ e := by positivity
  have hdiff : (binF / 2 ^ 64 * 2 ^ e : ℚ) -
      (((binF / 2 ^ 32 : Nat) : ℚ) + ((binF / 2 ^ 31 % 2 : Nat) : ℚ) / 2) *
        (2 ^ e / 2 ^ 32 / 10 ^ 0) = ((binF % 2 ^ 31 : Nat) : ℚ) / 2 ^ 64 * 2 ^ e := by
    rw [hcast]
    ring
  rw [hdiff, abs_of_nonneg (by positivity)]
  calc ((binF % 2 ^ 31 : Nat) : ℚ) / 2 ^ 64 * 2 ^ e ≤ 2 ^ 31 / 2 ^ 64 * 2 ^ e := by gcongr
    _ = 2 ^ e / 2 ^ 33 := by ring

/-- The loop scales the fraction until its digits are in front of the binary point, or until all
    places are spent. -/
theorem Fraction.loop_sat {s : Fraction} (hun : Unwritten fs ds) (hprec : fs.prec ≤ 21)
    (h : s.Inv fs ds x) : (Outcome.loop (fun s : Fraction => s.decF ≠ 0 && s.expF < 4) Fraction.turn
      ((4 - s.expF).toNat + 1) s).Sat (fun s' => s'.Inv fs ds x ∧ (s.decF = 0 → s' = s) ∧
        (s'.decF ≠ 0 → 4 ≤ s'.expF)) False := by
  have hturn : ∀ t : Fraction, t.Inv fs ds x ∧ (s.decF = 0 → t = s) →
      (decide (t.decF ≠ 0) && decide (t.expF < 4)) = true →
      t.turn.Sat (fun t' => (t'.Inv fs ds x ∧ (s.decF = 0 → t' = s)) ∧
        (4 - t'.expF).toNat < (4 - t.expF).toNat) False := by
    intro t ⟨ht, hstay⟩ htest
    obtain ⟨hdec, hexp⟩ := Bool.and_eq_true_iff.mp htest
    have hdec : t.decF ≠ 0 := of_decide_eq_true hdec
    have hexp : t.expF < 4 := of_decide_eq_true hexp
    refine (Fraction.turn_inv hun hprec ht hdec hexp).imp fun t' h' => ⟨⟨h'.1, fun h0 => ?_⟩, ?_⟩
    · exact absurd h0 (hstay h0 ▸ hdec)
    · have hnext := h'.2
      omega
  refine (Outcome.Sat.loop hturn ⟨h, fun _ => rfl⟩ (Nat.lt_succ_self _)).imp
    fun s' ⟨⟨hs, hstay⟩, hend⟩ => ⟨hs, hstay, fun hdec => ?_⟩
  rw [decide_eq_true hdec, Bool.true_and] at hend
  exact Int.not_lt.mp (of_decide_eq_false hend)

/-- What the fraction part leaves for the rounding: the digits `D` behind the point, and a carry. -/
structure Rounding.Start (fs : FormatSpec) (ds : List Nat) (x : ℚ) (r : Rounding) (D : Nat) : Prop where
  carry : r.carry ≤ 1
  dec : r.dec = 0
  number : ∃ ds', Numeral fs 0 r.buf ds' ∧ ds'.length = ds.length ∧
    Nat.ofDigits 10 ds' = Nat.ofDigits 10 ds + D
  /-- A fraction that is nearly one makes the mantissa wrap, where there is no place. -/
  wraps : fs.prec = 0 ∧ 1 - 1 / 2 ^ 33 ≤ x → D + r.carry = 0
  close : ¬ (fs.prec = 0 ∧ 1 - 1 / 2 ^ 33 ≤ x) → Close fs.prec (D + r.carry) x

/-- Behind the scaling, where no place is left. -/
theorem Fraction.Inv.start_none {s : Fraction} (h : s.Inv fs ds x) (hdec : s.decF = 0)
    (hwrap : fs.prec = 0 →
      (s.expF = 0 ∧ s.manF + s.carry = 2 ^ 32 ↔ 1 - 1 / 2 ^ 33 ≤ x)) (fin : Nat) :
    Rounding.Start fs ds x ⟨if (if 0 ≤ s.expF then 1 else 0) = 1 then
      (s.manF + s.carry) % 2 ^ ftoaManBits / 2 ^ (ftoaManBits - 1) else 0, 0, fin, s.buf⟩ 0 := by
  have hcarry := h.carry
  have hman := h.manF
  obtain ⟨hexp, hdigit, hzero⟩ := h.spent hdec
  have hnum := h.number
  rw [hdec] at hnum
  have hsame : (if (if 0 ≤ s.expF then 1 else 0) = 1 then
      (s.manF + s.carry) % 2 ^ ftoaManBits / 2 ^ (ftoaManBits - 1) else 0) =
      if 0 ≤ s.expF then (s.manF + s.carry) % 2 ^ 32 / 2 ^ 31 else 0 := by
    split <;> rfl
  rw [hsame]
  refine ⟨?_, rfl, ⟨ds, hnum, rfl, rfl⟩, fun ⟨hprec, hone⟩ => ?_, fun hnear => ?_⟩
  · dsimp only
    split <;> omega
  · obtain ⟨h0, hfull⟩ := (hwrap hprec).mpr hone
    dsimp only
    rw [h0, hfull]
    rfl
  · dsimp only
    rw [Nat.zero_add]
    refine close_none h.carry hexp h.manF (fun h0 => ?_) ?_
    · rcases Nat.lt_or_ge (s.manF + s.carry) (2 ^ 32) with hlt | hge
      · exact hlt
      · by_cases hprec : fs.prec = 0
        · exact absurd ⟨hprec, (hwrap hprec).mp ⟨h0, by omega⟩⟩ hnear
        · have := hzero hprec
          omega
    · have hclose := h.close
      unfold Fraction.approx at hclose
      rwa [hdec, hdigit] at hclose

/-- Behind the scaling, where there are digits to print. -/
theorem Fraction.Inv.start_digits {s : Fraction} (hun : Unwritten fs ds) (hprec : fs.prec ≤ 21)
    (h : s.Inv fs ds x) (hdec : s.decF ≠ 0) (hexp : 4 ≤ s.expF) (fin : Nat) :
    (fractionDigits s.decF ((s.manF + s.carry) % 2 ^ ftoaManBits) s.buf).Sat
      (fun r => ∃ D, Rounding.Start fs ds x ⟨if (if 0 ≤ s.expF then 1 else 0) = 1 then
        r.1 / 2 ^ (ftoaManBits - 1) else 0, 0, fin, r.2⟩ D) False := by
  have hle := h.decF
  obtain ⟨n, hn⟩ := Nat.exists_eq_succ_of_ne_zero hdec
  have hphase : s.digit = 1 ∧ s.expF = 4 ∧ s.manF + s.carry < 10 * 2 ^ 28 := by
    rcases h.phase with ⟨-, hlow, -⟩ | ⟨hdigit, -, hhigh, hman⟩
    · omega
    · have h4 : s.expF = 4 := by omega
      exact ⟨hdigit, h4, hman h4⟩
  obtain ⟨hdigit, h4, hman⟩ := hphase
  have hclose := h.close
  have hnum := h.number
  unfold Fraction.approx at hclose
  rw [h4, hdigit] at hclose
  rw [hn] at hnum hclose
  have hwrap : (s.manF + s.carry) % 2 ^ ftoaManBits = s.manF + s.carry := by
    rw [ftoaManBits]
    omega
  rw [fractionDigits, if_pos hdec, hwrap, hn, h4]
  refine (printFraction_sat hprec hnum (fun i hi hlt => hun.2 i hi (by omega)) (by omega) hun.1
    hman).bind fun r hprint => ?_
  obtain ⟨ds', D, hnum', hlen, hvalue, hdigits, hr⟩ := hprint
  refine ⟨D, ?_, rfl, ⟨ds', hnum', hlen, hvalue⟩, fun hnone => absurd hnone.1 (by omega), fun _ => ?_⟩
  · dsimp only [ftoaManBits]
    rw [if_pos (by decide)]
    omega
  · dsimp only [ftoaManBits]
    rw [if_pos (by decide)]
    exact close_digits h.carry (by omega) hclose hdigits hr

/-- The fraction before it is scaled. -/
theorem Fraction.Inv.start {buf : Cbuf} {binF : Nat} {e : ℤ} (hbin : binF < 2 ^ 64) (he : e ≤ 0)
    (hnum : Numeral fs fs.prec buf ds) : Fraction.Inv fs ds (binF / 2 ^ 64 * 2 ^ e)
      ⟨binF / 2 ^ 32, binF / 2 ^ 31 % 2, fs.prec, e, 0, buf⟩ := by
  refine ⟨?_, ?_, Nat.le_refl _, hnum, Or.inl ⟨rfl, ?_, fun hpos => ?_⟩,
    fun h0 => ⟨he, rfl, fun hne => absurd h0 hne⟩, ?_⟩
  · dsimp only
    omega
  · dsimp only
    omega
  · dsimp only
    omega
  · dsimp only at hpos
    omega
  · unfold Fraction.approx
    dsimp only
    rw [Nat.sub_self]
    exact close_upper

/-- The mantissa with its carry wraps where the fraction is nearly one.  This is the one place where
    the arithmetic on 32 bits loses a number: all 32 bits are set, and so is the carry. -/
theorem wraps_iff {binF : Nat} {e : ℤ} (hbin : binF < 2 ^ 64) (he : e ≤ 0) :
    e = 0 ∧ binF / 2 ^ 32 + binF / 2 ^ 31 % 2 = 2 ^ 32 ↔
      (1 : ℚ) - 1 / 2 ^ 33 ≤ binF / 2 ^ 64 * 2 ^ e := by
  have hhigh : (binF : ℚ) ≤ 2 ^ 64 := by exact_mod_cast hbin.le
  constructor
  · rintro ⟨rfl, hfull⟩
    have hlow : 2 ^ 64 ≤ binF + 2 ^ 31 := by omega
    have hlow' : (2 : ℚ) ^ 64 ≤ binF + 2 ^ 31 := by exact_mod_cast hlow
    rw [zpow_zero]
    linarith
  · intro hone
    rcases Int.lt_or_eq_of_le he with hneg | rfl
    · -- such a fraction is at most one half
      exfalso
      have hhalf : (2 : ℚ) ^ e ≤ 1 / 2 := by
        calc (2 : ℚ) ^ e ≤ 2 ^ (-1 : ℤ) := zpow_le_zpow_right₀ (by norm_num) (by omega)
          _ = 1 / 2 := by norm_num
      have hprod : (binF : ℚ) / 2 ^ 64 * 2 ^ e ≤ 2 ^ 64 / 2 ^ 64 * (1 / 2) := by gcongr
      linarith
    · refine ⟨rfl, ?_⟩
      rw [zpow_zero] at hone
      have hlow' : (2 : ℚ) ^ 64 ≤ binF + 2 ^ 31 := by linarith
      have hlow : 2 ^ 64 ≤ binF + 2 ^ 31 := by exact_mod_cast hlow'
      omega

/-- **The fraction part of a number below `2 ^ 32`.** The loop scales the fraction, and then there
    are digits to print (`start_digits`) or none (`start_none`). -/
theorem fractionPart_small {bin : Nat} {i : IntegerPart} (hun : Unwritten fs ds)
    (hprec : fs.prec ≤ 21) (hnum : Numeral fs fs.prec i.buf ds) (hbin : bin < 2 ^ 53)
    (hexp : i.exp ≤ 31) : (fractionPart bin fs.prec i).Sat (fun r => r.fin = i.fin ∧
      ∃ D, Rounding.Start fs ds (magnitude bin i.exp - intPart bin i.exp) r D) False := by
  obtain ⟨binF, e, hbinF, he, hstart, hvalue⟩ := fractionOf_value hbin hexp fs.prec i.buf
  have hsmall : i.exp < doubleManBits := by
    rw [doubleManBits]
    omega
  rw [fractionPart, if_pos hsmall, hstart, hvalue]
  refine (Fraction.loop_sat hun hprec (Fraction.Inv.start hbinF he hnum)).bind fun s hloop => ?_
  obtain ⟨hs, hstay, hend⟩ := hloop
  by_cases hdec : s.decF = 0
  · rw [fractionDigits, if_neg (not_not.mpr hdec)]
    refine ⟨rfl, 0, hs.start_none hdec (fun h0 => ?_) i.fin⟩
    rw [hstay h0]
    exact wraps_iff hbinF he
  · exact (hs.start_digits hun hprec hdec (hend hdec) i.fin).bind fun r hr => ⟨rfl, hr⟩

/-- A large number has no fraction: its places are zeros, and stay zeros. -/
theorem fractionPart_large {bin : Nat} {i : IntegerPart} (hun : Unwritten fs ds)
    (hprec : fs.prec ≤ 21) (hnum : Numeral fs fs.prec i.buf ds) (hexp : 52 ≤ i.exp) :
    (fractionPart bin fs.prec i).Sat (fun r => r.fin = i.fin ∧ r.dec = i.dec ∧ r.carry = i.carry ∧
      ∃ ds', Numeral fs 0 r.buf ds' ∧ ds'.length = ds.length ∧
        Nat.ofDigits 10 ds' = Nat.ofDigits 10 ds) False := by
  have hlarge : ¬ i.exp < doubleManBits := by
    rw [doubleManBits]
    omega
  rw [fractionPart, if_neg hlarge, fractionDigits]
  split
  · rename_i hne
    obtain ⟨n, hn⟩ := Nat.exists_eq_succ_of_ne_zero hne
    rw [hn] at hnum ⊢
    refine Outcome.Sat.bind ((printFraction_sat hprec hnum
      (fun i hi hlt => hun.2 i hi (by omega)) (by omega) hun.1 (by decide)).bind
      fun r hr => ?_) fun r hr => ⟨rfl, rfl, rfl, hr⟩
    obtain ⟨ds', D, hnum', hlen, hvalue, hnone, -⟩ := hr
    have hD : D = 0 := by omega
    rw [hD, Nat.add_zero] at hvalue
    exact ⟨ds', hnum', hlen, hvalue⟩
  · rename_i h0
    rw [not_not.mp h0] at hnum
    exact ⟨rfl, rfl, rfl, ds, hnum, rfl, rfl⟩

end Nearlands.Npf
