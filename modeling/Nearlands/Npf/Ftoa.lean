/-
  `npf_ftoa_rev` (`nanoprintf.h`): a double, given by its 64 bits, as decimal digits.

  The function works on integers alone: the integer part of the number is a word of 32 bits, or one
  of 32 bits and a decimal exponent where the number is larger; the fraction is a word of 32 bits
  that is turned from a binary into a decimal one step by step, and then gives one digit after the
  other.  A last loop rounds the number in the buffer.  Where the buffer is too small the function
  jumps to its exit, which writes a word in place of the number.
-/
import Nearlands.Npf.Convert

namespace Nearlands.Npf

open Nearlands.Lib

/-- `NPF_DOUBLE_MAN_BITS`. -/
def doubleManBits : Nat := 52

/-- `NPF_DOUBLE_EXP_MASK`. -/
def doubleExpMask : Nat := 2047

/-- `NPF_DOUBLE_EXP_BIAS`. -/
def doubleExpBias : Nat := 1023

/-- `NPF_FTOA_MAN_BITS`. -/
def ftoaManBits : Nat := 32

/-- `NPF_FTOA_SHIFT_BITS`. -/
def ftoaShiftBits : Nat := 31

/-- The character of a decimal digit: `'0' + (char)d`. -/
def decimal (d : Nat) : UInt8 := '0'.toUInt8 + UInt8.ofNat d

/-! ## The integer part -/

/-- What the loop that scales the exponent changes. -/
structure Scaling where
  manI : Nat
  carry : Nat
  dec : Nat
  expI : Nat
  buf : Cbuf

/-- One turn of it: the mantissa is doubled, or, where its top bit is set, divided by five for one
    decimal place.  It goes to the exit where the place has no room in the buffer. -/
def Scaling.turn (s : Scaling) : Outcome Scaling :=
  if s.manI < 2 ^ (ftoaManBits - 1) then
    .done { s with manI := s.manI * 2 + s.carry, carry := 0, expI := s.expI - 1 }
  else if conversionBufferSize ≤ s.dec then .exit
  else do
    let buf ← s.buf.put s.dec (decimal 0)
    return { manI := s.manI / 5, carry := if 2 < s.manI % 5 + s.carry then 1 else 0,
             dec := s.dec + 1, expI := s.expI - 1, buf := buf }

/-- What the loop that prints the integer changes. -/
structure Printing where
  manI : Nat
  fin : Nat
  buf : Cbuf

/-- One turn of it.  The first digit is printed in any case, and the others while there is something
    left. -/
def Printing.turn (s : Printing) : Outcome Printing :=
  if conversionBufferSize ≤ s.fin then .exit
  else do
    let buf ← s.buf.put s.fin (decimal (s.manI % 10))
    return ⟨s.manI / 10, s.fin + 1, buf⟩

/-- The integer part: what is left for the fraction part and for the rounding. -/
structure IntegerPart where
  exp : Int
  carry : Nat
  dec : Nat
  fin : Nat
  buf : Cbuf

/-- The mantissa and the exponent before they are scaled, and the exponent for the fraction part.
    With an exponent up to 31 the integer part is a word of 32 bits as it is, and nothing is left to
    scale; with a larger one the upper 32 bits are taken. -/
def integerOf (bin : Nat) (exp : Int) (dec : Nat) (buf : Cbuf) : Scaling × Int :=
  if 0 ≤ exp then
    let shiftI := min exp.toNat ftoaShiftBits
    let expI := exp.toNat - shiftI
    let shiftI := doubleManBits - shiftI
    let manI := bin / 2 ^ shiftI % 2 ^ ftoaManBits
    if expI ≠ 0 then
      let carry := if shiftI ≠ 0 then bin / 2 ^ (shiftI - 1) % 2 else 0
      -- the exponent says that there is no fraction part
      (⟨manI, carry, dec, expI, buf⟩, doubleManBits)
    else (⟨manI, 0, dec, 0, buf⟩, exp)
  else (⟨0, 0, dec, 0, buf⟩, exp)

/-- The integer part of a number. -/
def integerPart (bin : Nat) (exp : Int) (dec : Nat) (buf : Cbuf) : Outcome IntegerPart := do
  let (start, exp) := integerOf bin exp dec buf
  let s ← Outcome.loop (fun s => s.expI ≠ 0) Scaling.turn (start.expI + 1) start
  let p ← Printing.turn ⟨s.manI, s.dec, s.buf⟩
  let p ← Outcome.loop (fun p => p.manI ≠ 0) Printing.turn 24 p
  return ⟨exp, s.carry, s.dec, p.fin, p.buf⟩

/-! ## The fraction part -/

/-- What the loop that scales the fraction changes. -/
structure Fraction where
  manF : Nat
  carry : Nat
  decF : Nat
  expF : Int
  digit : Nat
  buf : Cbuf

/-- One turn of it: the mantissa is halved, or, where there is room for that, multiplied by five for
    one decimal place.  The carry is the bit that a halving drops; a multiplication by five counts
    it as three. -/
def Fraction.turn (s : Fraction) : Outcome Fraction :=
  if (2 ^ ftoaManBits - 4) / 5 < s.manF ∨ s.digit ≠ 0 then
    .done { s with carry := s.manF % 2, manF := s.manF / 2, expF := s.expF + 1 }
  else
    let manF := s.manF * 5 % 2 ^ ftoaManBits
    let manF := if s.carry ≠ 0 then (manF + 3) % 2 ^ ftoaManBits else manF
    if s.expF < 0 then do
      let buf ← s.buf.put (s.decF - 1) (decimal 0)
      return { s with manF := manF, carry := 0, decF := s.decF - 1, expF := s.expF + 1, buf := buf }
    else .done { s with manF := manF, carry := 0, digit := s.digit + 1, expF := s.expF + 1 }

/-- The loop that prints the fraction: the mantissa behind it. -/
def printFraction : Nat → Nat → Cbuf → Outcome (Nat × Cbuf)
  | 0, manF, buf => .done (manF, buf)
  | decF + 1, manF, buf => do
    let buf ← buf.put decF (decimal (manF / 2 ^ (ftoaManBits - 4)))
    let manF := manF % 2 ^ (ftoaManBits - 4)
    if decF = 0 then .done (manF, buf)
    else printFraction decF (manF * 10 % 2 ^ ftoaManBits) buf

/-- The fraction before it is scaled.  The shift takes the integer part away: what is behind the
    binary point is at the top of 64 bits then. -/
def fractionOf (bin : Nat) (exp : Int) (prec : Nat) (buf : Cbuf) : Fraction :=
  let shiftF : Int := if exp < 0 then -1 else exp
  let binF := bin * 2 ^ ((64 - doubleManBits : Int) + shiftF).toNat % 2 ^ 64
  { manF := binF / 2 ^ (64 - ftoaManBits), carry := binF / 2 ^ (64 - ftoaManBits - 1) % 2,
    decF := prec, expF := exp - shiftF, digit := 0, buf := buf }

/-- What the rounding starts from. -/
structure Rounding where
  carry : Nat
  dec : Nat
  fin : Nat
  buf : Cbuf

/-- The digits of a scaled fraction, and the mantissa behind them. -/
def fractionDigits (decF manF : Nat) (buf : Cbuf) : Outcome (Nat × Cbuf) :=
  if decF ≠ 0 then do
    let (manF, buf) ← printFraction decF manF buf
    return (manF * 2 ^ 4 % 2 ^ ftoaManBits, buf)
  else .done (manF, buf)

/-- The fraction part of a number.  Of a number that has no fraction the places are zeros, and the
    carry is the one that the integer part left. -/
def fractionPart (bin : Nat) (prec : Nat) (i : IntegerPart) : Outcome Rounding :=
  if i.exp < doubleManBits then do
    let start := fractionOf bin i.exp prec i.buf
    let f ← Outcome.loop (fun s => s.decF ≠ 0 && s.expF < 4) Fraction.turn
      ((4 - start.expF).toNat + 1) start
    let (manF, buf) ← fractionDigits f.decF ((f.manF + f.carry) % 2 ^ ftoaManBits) f.buf
    let carry := if 0 ≤ f.expF then 1 else 0
    return ⟨if carry = 1 then manF / 2 ^ (ftoaManBits - 1) else 0, 0, i.fin, buf⟩
  else do
    let (_, buf) ← fractionDigits prec 0 i.buf
    return ⟨i.carry, i.dec, i.fin, buf⟩

/-! ## Rounding -/

/-- `if (dec >= end) { buf[end++] = '0'; }`. -/
def Rounding.extend (s : Rounding) : Outcome (Nat × Cbuf) :=
  if s.fin ≤ s.dec then do
    let buf ← s.buf.put s.fin (decimal 0)
    return (s.fin + 1, buf)
  else .done (s.fin, s.buf)

/-- One turn of the loop that rounds the number: it goes past the point, and turns nines into zeros.
    Behind the last digit there is a zero to add the carry to (`extend`). -/
def Rounding.turn (s : Rounding) : Outcome Rounding :=
  if conversionBufferSize ≤ s.dec then .exit
  else do
    let (fin, buf) ← s.extend
    let c ← buf.get s.dec
    if c = '.'.toUInt8 then return ⟨s.carry, s.dec + 1, fin, buf⟩
    else
      let carry := if c = '9'.toUInt8 then 1 else 0
      let buf ← buf.put s.dec (if carry = 1 then '0'.toUInt8 else c + 1)
      return ⟨carry, s.dec + 1, fin, buf⟩

/-! ## The function -/

/-- The point: where the integer part begins, and the buffer. -/
def putPoint (spec : FormatSpec) (buf : Cbuf) : Outcome (Nat × Cbuf) :=
  if spec.prec ≠ 0 ∨ spec.altForm then do
    let buf ← buf.put spec.prec '.'.toUInt8
    return (spec.prec + 1, buf)
  else .done (spec.prec, buf)

/-- The number: how many bytes it has, and the buffer.  `exit` stands for the `goto` of the source,
    and the fuel of the last loop is enough, as each turn goes one byte further in the buffer. -/
def ftoaNumber (buf : Cbuf) (spec : FormatSpec) (expBits manBits : Nat) : Outcome (Nat × Cbuf) :=
  if conversionBufferSize - 2 < spec.prec then .exit
  else do
    let bin := if expBits ≠ 0 then manBits + 2 ^ doubleManBits else manBits
    let exp : Int := ((if expBits ≠ 0 then expBits else 1) : Nat) - doubleExpBias
    let (dec, buf) ← putPoint spec buf
    let i ← integerPart bin exp dec buf
    let r ← fractionPart bin spec.prec i
    let r ← Outcome.loop (fun r => r.carry ≠ 0) Rounding.turn 24 r
    return (r.fin, r.buf)

/-- The exit: a word of three letters, backwards, and its negated length. -/
def ftoaWord (buf : Cbuf) (spec : FormatSpec) (ret : Char × Char × Char) : Outcome (Int × Cbuf) := do
  let buf ← buf.put 0 (ret.1.toUInt8 + spec.caseAdjust)
  let buf ← buf.put 1 (ret.2.1.toUInt8 + spec.caseAdjust)
  let buf ← buf.put 2 (ret.2.2.toUInt8 + spec.caseAdjust)
  return (-3, buf)

/-- `npf_ftoa_rev(buf, spec, f)` for the double with the bits `bin`: the length of the text, which
    is negative for a word.  (Of a word only its three bytes are read, so the exit may start from
    the buffer of the call.) -/
def npfFtoaRev (buf : Cbuf) (spec : FormatSpec) (bin : Nat) : Outcome (Int × Cbuf) :=
  let exp := bin / 2 ^ doubleManBits % (doubleExpMask + 1)
  let man := bin % 2 ^ doubleManBits
  if exp = doubleExpMask then
    ftoaWord buf spec (if man ≠ 0 then ('N', 'A', 'N') else ('F', 'N', 'I'))
  else
    (do let (len, buf) ← ftoaNumber buf spec exp man
        return ((len : Int), buf)).orExit (ftoaWord buf spec ('R', 'R', 'E'))

end Nearlands.Npf
