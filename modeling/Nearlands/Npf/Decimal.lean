/-
  The number in the conversion buffer of `npf_ftoa_rev`.

  While a double is converted, the buffer holds a decimal number: digit `i`, lowest first, stands at
  `i`, or one further once the point is in front of it.  `Numeral spec k b ds` says that from digit
  `k` on the digits of `ds` stand in the buffer, and the point with them.  Two operations make such
  a number, a digit behind the last one and a digit in place of another; each phase of the
  conversion is a sequence of them, and of the number only `Nat.ofDigits 10 ds` is followed.
-/
import Nearlands.Npf.Ftoa

namespace Nearlands.Npf

open Nearlands.Lib

/-- The bytes that the point takes. -/
def FormatSpec.dot (fs : FormatSpec) : Nat := if fs.prec ≠ 0 ∨ fs.altForm then 1 else 0

/-- Where a digit stands. -/
def FormatSpec.place (fs : FormatSpec) (i : Nat) : Nat := if i < fs.prec then i else i + fs.dot

variable {fs : FormatSpec} {i j k : Nat} {b : Cbuf} {ds : List Nat} {d : Nat}

/-- The point is one byte or none. -/
theorem FormatSpec.dot_le (fs : FormatSpec) : fs.dot ≤ 1 := by
  unfold FormatSpec.dot
  split
  · exact Nat.le_refl 1
  · exact Nat.zero_le 1

/-- Digits behind a point have one. -/
theorem FormatSpec.dot_pos (h : i < fs.prec) : fs.dot = 1 :=
  if_pos (Or.inl (by omega))

/-- Digits behind the point stand where they are counted. -/
theorem FormatSpec.place_low (h : i < fs.prec) : fs.place i = i := if_pos h

/-- Those in front of it stand one further, if there is a point. -/
theorem FormatSpec.place_high (h : fs.prec ≤ i) : fs.place i = i + fs.dot := if_neg (by omega)

/-- No two digits stand at one place, and none stands where the point does. -/
theorem FormatSpec.place_ne (h : i < j) : fs.place i < fs.place j := by
  have hdot := fs.dot_le
  rcases Nat.lt_or_ge j fs.prec with hj | hj
  · rw [place_low hj, place_low (by omega)]
    exact h
  · rw [place_high hj]
    rcases Nat.lt_or_ge i fs.prec with hi | hi
    · rw [place_low hi]
      omega
    · rw [place_high hi]
      omega

/-- The point has a place of its own. -/
theorem FormatSpec.place_ne_point (hdot : fs.dot = 1) (i : Nat) : fs.place i ≠ fs.prec := by
  rcases Nat.lt_or_ge i fs.prec with hi | hi
  · rw [place_low hi]
    omega
  · rw [place_high hi]
    omega

/-- From digit `k` on the buffer holds the number.  Below `k` nothing is said: these are the places
    of the fraction that are not printed yet. -/
structure Numeral (fs : FormatSpec) (k : Nat) (b : Cbuf) (ds : List Nat) : Prop where
  digit : ∀ i, k ≤ i → ∀ h : i < ds.length, b.byte (fs.place i) = some (decimal ds[i])
  lt : ∀ d ∈ ds, d < 10
  point : fs.dot = 1 → b.byte fs.prec = some '.'.toUInt8

/-- A digit behind the last one. -/
theorem Numeral.append (h : Numeral fs k b ds) (hlong : fs.prec ≤ ds.length) (hd : d < 10) :
    Numeral fs k (b.set (ds.length + fs.dot) (decimal d)) (ds ++ [d]) := by
  rw [← FormatSpec.place_high hlong]
  refine ⟨fun i hk hi => ?_, fun x hx => ?_, fun hdot => ?_⟩
  · rw [List.length_append, List.length_singleton] at hi
    rcases Nat.lt_or_eq_of_le (Nat.le_of_lt_succ hi) with hlt | rfl
    · rw [b.set_byte_of_ne _ (Nat.ne_of_lt (FormatSpec.place_ne hlt)), h.digit i hk hlt,
        List.getElem_append_left hlt]
    · rw [Cbuf.set_byte_self, List.getElem_append_right (Nat.le_refl _)]
      simp
  · rcases List.mem_append.mp hx with hx | hx
    · exact h.lt x hx
    · rw [List.mem_singleton.mp hx]
      exact hd
  · rw [b.set_byte_of_ne _ (FormatSpec.place_ne_point hdot ds.length).symm]
    exact h.point hdot

/-- A digit in place of another, or in front of those that are known. -/
theorem Numeral.put (h : Numeral fs k b ds) (hk : k ≤ i + 1) (hd : d < 10) :
    Numeral fs (min k i) (b.set (fs.place i) (decimal d)) (ds.set i d) := by
  refine ⟨fun j hj hlt => ?_, fun x hx => ?_, fun hdot => ?_⟩
  · rw [List.length_set] at hlt
    rcases Nat.lt_trichotomy j i with hji | rfl | hij
    · rw [b.set_byte_of_ne _ (Nat.ne_of_lt (FormatSpec.place_ne hji)), h.digit j (by omega) hlt,
        List.getElem_set_ne (Nat.ne_of_gt hji)]
    · rw [Cbuf.set_byte_self, List.getElem_set_self]
    · rw [b.set_byte_of_ne _ (Nat.ne_of_gt (FormatSpec.place_ne hij)), h.digit j (by omega) hlt,
        List.getElem_set_ne (Nat.ne_of_lt hij)]
  · rcases List.mem_or_eq_of_mem_set hx with hx | rfl
    · exact h.lt x hx
    · exact hd
  · rw [b.set_byte_of_ne _ (FormatSpec.place_ne_point hdot i).symm]
    exact h.point hdot

/-- What a digit counts. -/
theorem ofDigits_set (base : Nat) : ∀ {ds : List Nat} {i : Nat} (h : i < ds.length) (d : Nat),
    Nat.ofDigits base (ds.set i d) + ds[i] * base ^ i = Nat.ofDigits base ds + d * base ^ i := by
  intro ds
  induction ds with
  | nil => exact fun h => absurd h (Nat.not_lt_zero _)
  | cons a ds ih =>
    intro i h d
    cases i with
    | zero =>
      simp only [List.set_cons_zero, Nat.ofDigits_cons, List.getElem_cons_zero, pow_zero]
      omega
    | succ i =>
      have hi : i < ds.length := Nat.lt_of_succ_lt_succ h
      simp only [List.set_cons_succ, Nat.ofDigits_cons, List.getElem_cons_succ]
      calc a + base * Nat.ofDigits base (ds.set i d) + ds[i] * base ^ (i + 1)
          = a + base * (Nat.ofDigits base (ds.set i d) + ds[i] * base ^ i) := by ring
        _ = a + base * (Nat.ofDigits base ds + d * base ^ i) := by rw [ih hi d]
        _ = a + base * Nat.ofDigits base ds + d * base ^ (i + 1) := by ring

/-- A zero behind the last digit counts nothing. -/
theorem ofDigits_append_zero (base : Nat) (ds : List Nat) :
    Nat.ofDigits base (ds ++ [0]) = Nat.ofDigits base ds := by
  simp [Nat.ofDigits_append]

/-- Zeros alone are the number 0. -/
theorem ofDigits_replicate_zero (base k : Nat) : Nat.ofDigits base (List.replicate k 0) = 0 := by
  induction k with
  | zero => rfl
  | succ k ih => rw [List.replicate_succ, Nat.ofDigits_cons, ih]; rfl

/-! ## The integer part -/

/-- The bytes of the number. -/
theorem conversionBufferSize_eq : conversionBufferSize = 23 := rfl

/-- The point, and zeros for the digits behind it that are not known yet. -/
theorem putPoint_sat (hprec : fs.prec ≤ 21) (b : Cbuf) : (putPoint fs b).Sat (fun r =>
    r.1 = fs.prec + fs.dot ∧ Numeral fs fs.prec r.2 (List.replicate fs.prec 0)) False := by
  have hzero : ∀ d ∈ List.replicate fs.prec 0, d < 10 := fun d hd => by
    rw [(List.mem_replicate.mp hd).2]
    decide
  have hnone : ∀ {b : Cbuf} (i : Nat), fs.prec ≤ i → ∀ h : i < (List.replicate fs.prec 0).length,
      b.byte (fs.place i) = some (decimal (List.replicate fs.prec 0)[i]) := fun i hi h => by
    rw [List.length_replicate] at h
    omega
  unfold putPoint FormatSpec.dot
  by_cases hdot : fs.prec ≠ 0 ∨ fs.altForm = true
  · rw [if_pos hdot, if_pos hdot]
    refine (Cbuf.sat_put (Q := fun b => Numeral fs fs.prec b (List.replicate fs.prec 0))
      (by rw [conversionBufferSize_eq]; omega) ⟨hnone, hzero, fun _ => ?_⟩).bind
      fun b' hb => ⟨rfl, hb⟩
    exact Cbuf.set_byte_self ..
  · rw [if_neg hdot, if_neg hdot]
    refine ⟨rfl, hnone, hzero, fun h => ?_⟩
    rw [FormatSpec.dot, if_neg hdot] at h
    omega

/-- While the exponent is scaled: zeros for the decimal places so far. -/
structure Scaling.Inv (fs : FormatSpec) (s : Scaling) (z : Nat) : Prop where
  dec : s.dec = fs.prec + fs.dot + z
  room : s.dec ≤ conversionBufferSize
  manI : s.manI < 2 ^ 32
  carry : s.carry ≤ 1
  number : Numeral fs fs.prec s.buf (List.replicate (fs.prec + z) 0)

/-- One turn, and what it does: it doubles the mantissa, or it divides it by five for one place
    more, and gives up only where there is no room for that place.  The exit is taken exactly where
    the next zero would be outside the buffer. -/
theorem Scaling.turn_inv {s : Scaling} {z : Nat} (h : s.Inv fs z) : s.turn.Sat
    (fun s' => s'.expI = s.expI - 1 ∧
      (s.manI < 2 ^ 31 ∧ s'.Inv fs z ∧ s'.manI = s.manI * 2 + s.carry ∧ s'.carry = 0 ∨
        2 ^ 31 ≤ s.manI ∧ s'.Inv fs (z + 1) ∧ s'.manI = s.manI / 5 ∧
          s'.carry = if 2 < s.manI % 5 + s.carry then 1 else 0))
    (2 ^ 31 ≤ s.manI ∧ conversionBufferSize ≤ s.dec) := by
  have hman := h.manI
  have hcarry := h.carry
  unfold Scaling.turn
  split
  · rename_i hlow
    refine ⟨rfl, Or.inl ⟨hlow, ⟨h.dec, h.room, ?_, Nat.zero_le 1, h.number⟩, rfl, rfl⟩⟩
    rw [ftoaManBits] at hlow
    dsimp only
    omega
  rename_i hhigh
  have hhigh : 2 ^ 31 ≤ s.manI := Nat.le_of_not_lt hhigh
  split
  · rename_i hfull
    exact ⟨hhigh, hfull⟩
  · rename_i hroom
    have hput := h.number.append (d := 0) (by rw [List.length_replicate]; omega) (by decide)
    have hplace : (List.replicate (fs.prec + z) 0).length + fs.dot = s.dec := by
      rw [List.length_replicate, h.dec]
      omega
    rw [hplace] at hput
    refine (Cbuf.sat_put (Q := fun b => Numeral fs fs.prec b (List.replicate (fs.prec + (z + 1)) 0))
      (Nat.lt_of_not_le hroom) ?_).bind fun b' hb =>
        ⟨rfl, Or.inr ⟨hhigh, ⟨?_, ?_, ?_, ?_, hb⟩, rfl, rfl⟩⟩
    · rw [← Nat.add_assoc, List.replicate_succ']
      exact hput
    · dsimp only
      rw [h.dec, Nat.add_assoc]
    · exact Nat.lt_of_not_le hroom
    · dsimp only
      omega
    · dsimp only
      split <;> omega

/-- While the integer is printed behind the digits `zs`: its digits so far, and those to come. -/
structure Printing.Inv (fs : FormatSpec) (zs : List Nat) (val : Nat) (p : Printing) (l : List Nat) :
    Prop where
  digits : revDigits 10 val = l ++ Nat.digits 10 p.manI
  fin : p.fin = (zs ++ l).length + fs.dot
  room : p.fin ≤ conversionBufferSize
  number : Numeral fs fs.prec p.buf (zs ++ l)

/-- The integer does not fit. -/
def TooLong (fs : FormatSpec) (zs : List Nat) (val : Nat) : Prop :=
  conversionBufferSize < zs.length + (revDigits 10 val).length + fs.dot

/-- The number that is too long is a large one. -/
theorem TooLong.le {z val : Nat} (h : TooLong fs (List.replicate (fs.prec + z) 0) val)
    (hval : val ≠ 0) : 10 ^ (conversionBufferSize - (fs.prec + fs.dot)) ≤ val * 10 ^ z := by
  rw [TooLong, List.length_replicate, revDigits, if_neg hval] at h
  have hpos := List.length_pos_of_ne_nil ((Nat.digits_ne_nil_iff_ne_zero (b := 10)).mpr hval)
  have hlast : 10 ^ ((Nat.digits 10 val).length - 1) ≤ val :=
    (Nat.lt_digits_length_iff (by decide) val).mp (by omega)
  calc 10 ^ (conversionBufferSize - (fs.prec + fs.dot))
      ≤ 10 ^ ((Nat.digits 10 val).length - 1 + z) := Nat.pow_le_pow_right (by decide) (by omega)
    _ = 10 ^ ((Nat.digits 10 val).length - 1) * 10 ^ z := Nat.pow_add ..
    _ ≤ val * 10 ^ z := Nat.mul_le_mul_right _ hlast

/-- One turn prints one digit.  The hypotheses are those of the invariant with one digit still to
    come, which is why it also covers the first digit of a 0. -/
theorem Printing.turn_inv {zs l : List Nat} {val : Nat} {p : Printing} (hlong : fs.prec ≤ zs.length)
    (hdigits : revDigits 10 val = l ++ p.manI % 10 :: Nat.digits 10 (p.manI / 10))
    (hfin : p.fin = (zs ++ l).length + fs.dot) (hnum : Numeral fs fs.prec p.buf (zs ++ l)) :
    p.turn.Sat (fun p' => (∃ l, p'.Inv fs zs val l) ∧ p'.fin = p.fin + 1) (TooLong fs zs val) := by
  unfold Printing.turn
  split
  · rename_i hfull
    show conversionBufferSize < _
    rw [hfin, List.length_append] at hfull
    rw [hdigits, List.length_append, List.length_cons]
    omega
  · rename_i hroom
    have hput := hnum.append (d := p.manI % 10)
      (Nat.le_trans hlong (by rw [List.length_append]; omega)) (Nat.mod_lt _ (by decide))
    rw [← hfin] at hput
    refine (Cbuf.sat_put (Q := fun b => Numeral fs fs.prec b (zs ++ (l ++ [p.manI % 10])))
      (Nat.lt_of_not_le hroom) ?_).bind fun b' hb => ⟨⟨l ++ [p.manI % 10], ?_, ?_, ?_, hb⟩, rfl⟩
    · rw [← List.append_assoc]
      exact hput
    · rw [hdigits, List.append_assoc, List.singleton_append]
    · dsimp only
      rw [hfin]
      simp only [List.length_append, List.length_singleton]
      omega
    · exact Nat.lt_of_not_le hroom

/-- The loop prints all of them.  There are 23 bytes, so that 24 turns are enough: each one goes a
    byte further. -/
theorem Printing.loop_sat {zs : List Nat} {val : Nat} {p : Printing} (hlong : fs.prec ≤ zs.length)
    (hp : ∃ l, p.Inv fs zs val l) : (Outcome.loop (fun p => p.manI ≠ 0) Printing.turn 24 p).Sat
      (fun p' => p'.fin = (zs ++ revDigits 10 val).length + fs.dot ∧
        p'.fin ≤ conversionBufferSize ∧ Numeral fs fs.prec p'.buf (zs ++ revDigits 10 val))
      (TooLong fs zs val) := by
  have hturn : ∀ p : Printing, (∃ l, p.Inv fs zs val l) → decide (p.manI ≠ 0) = true →
      p.turn.Sat (fun p' => (∃ l, p'.Inv fs zs val l) ∧ 23 - p'.fin < 23 - p.fin)
        (TooLong fs zs val) := by
    intro p ⟨l, hp⟩ ht
    have hdef := Nat.digits_def' (b := 10) (by decide) (Nat.pos_of_ne_zero (of_decide_eq_true ht))
    refine (Printing.turn_inv hlong (hp.digits.trans (by rw [hdef])) hp.fin hp.number).imp
      fun p' h => ⟨h.1, ?_⟩
    obtain ⟨⟨l', hp'⟩, hnext⟩ := h
    have hroom : p'.fin ≤ 23 := hp'.room
    omega
  refine (Outcome.Sat.loop hturn hp (by omega)).imp fun p' ⟨⟨l, hp'⟩, hend⟩ => ?_
  have hzero : p'.manI = 0 := not_not.mp (of_decide_eq_false hend)
  have hdigits := hp'.digits
  rw [hzero, Nat.digits_zero, List.append_nil] at hdigits
  rw [hdigits]
  exact ⟨hp'.fin, hp'.room, hp'.number⟩

/-- What the integer part leaves. -/
structure IntegerPart.Inv (fs : FormatSpec) (r : IntegerPart) (z val : Nat) : Prop where
  dec : r.dec = fs.prec + z + fs.dot
  carry : r.carry ≤ 1
  fin : r.fin = (List.replicate (fs.prec + z) 0 ++ revDigits 10 val).length + fs.dot
  room : r.fin ≤ conversionBufferSize
  number : Numeral fs fs.prec r.buf (List.replicate (fs.prec + z) 0 ++ revDigits 10 val)

/-- The integer part from a scaled mantissa. -/
theorem integer_sat {s : Scaling} {z : Nat} (h : s.Inv fs z) (exp : Int) :
    (do let p ← Printing.turn ⟨s.manI, s.dec, s.buf⟩
        let p ← Outcome.loop (fun p : Printing => p.manI ≠ 0) Printing.turn 24 p
        return (⟨exp, s.carry, s.dec, p.fin, p.buf⟩ : IntegerPart)).Sat
      (fun r => r.exp = exp ∧ r.Inv fs z s.manI ∧ r.carry = s.carry)
      (TooLong fs (List.replicate (fs.prec + z) 0) s.manI) := by
  have hlong : fs.prec ≤ (List.replicate (fs.prec + z) 0).length := by
    rw [List.length_replicate]
    omega
  have hdec : s.dec = (List.replicate (fs.prec + z) 0).length + fs.dot := by
    rw [List.length_replicate, h.dec]
    omega
  refine (Printing.turn_inv (p := ⟨s.manI, s.dec, s.buf⟩) (l := []) hlong
    (revDigits_eq (by decide)) (by rw [List.append_nil]; exact hdec)
    (by rw [List.append_nil]; exact h.number)).bind fun p hp => ?_
  refine (Printing.loop_sat hlong hp.1).bind fun p' ⟨hfin, hroom, hnum⟩ => ⟨rfl, ?_, rfl⟩
  refine ⟨?_, h.carry, hfin, hroom, hnum⟩
  rw [hdec, List.length_replicate]

/-- The integer part of the number that a mantissa and an exponent stand for. -/
def intPart (bin : Nat) (exp : Int) : Nat := if 0 ≤ exp then bin / 2 ^ (52 - exp.toNat) else 0

/-- It is a word of 32 bits. -/
theorem intPart_lt {bin : Nat} {exp : Int} (hbin : bin < 2 ^ 53) (hexp : exp ≤ 31) :
    intPart bin exp < 2 ^ 32 := by
  unfold intPart
  split
  · rw [Nat.div_lt_iff_lt_mul (Nat.two_pow_pos _), ← Nat.pow_add]
    exact Nat.lt_of_lt_of_le hbin (Nat.pow_le_pow_right (by decide) (by omega))
  · decide

/-- The integer part of a number below `2 ^ 32` is exact.  Nothing is scaled then, and the digits
    are those of the word. -/
theorem integerPart_small {bin dec : Nat} {exp : Int} {buf : Cbuf}
    (hnum : Numeral fs fs.prec buf (List.replicate fs.prec 0)) (hdec : dec = fs.prec + fs.dot)
    (hprec : fs.prec ≤ 21) (hbin : bin < 2 ^ 53) (hexp : exp ≤ 31) :
    (integerPart bin exp dec buf).Sat (fun r => r.exp = exp ∧ r.Inv fs 0 (intPart bin exp))
      (TooLong fs (List.replicate fs.prec 0) (intPart bin exp)) := by
  have hsmall := intPart_lt hbin hexp
  have hint : integerOf bin exp dec buf = (⟨intPart bin exp, 0, dec, 0, buf⟩, exp) := by
    unfold integerOf
    unfold intPart at hsmall ⊢
    split
    · rename_i hpos
      have hmin : min exp.toNat ftoaShiftBits = exp.toNat := by
        rw [ftoaShiftBits]
        omega
      rw [if_pos hpos] at hsmall
      dsimp only
      rw [hmin, Nat.sub_self, if_neg (not_not.mpr rfl), doubleManBits, ftoaManBits,
        Nat.mod_eq_of_lt hsmall]
    · rfl
  have hdot := fs.dot_le
  have hstart : Scaling.Inv fs ⟨intPart bin exp, 0, dec, 0, buf⟩ 0 := by
    refine ⟨hdec, ?_, hsmall, Nat.zero_le 1, hnum⟩
    show dec ≤ 23
    omega
  rw [integerPart, hint]
  exact (integer_sat hstart exp).imp fun r h => ⟨h.1, h.2.1⟩

end Nearlands.Npf
