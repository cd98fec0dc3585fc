/-
  What the formatter prints for integers.

  `numberText` is the layout of a printed number, as the C standard describes it: blanks in front of
  the sign, zeros behind it, or blanks behind the number, up to the field width.  The source gets
  there by counting pads and printing the parts in an order that depends on the pad byte; the
  conversion lemmas say that it is this layout.

  `readNumber` reads a number as `strtol` does.  It gives back the number that was printed, whatever
  the directive is: the sign, the prefix, the pads and the case of the digits never change it.
-/
import Nearlands.Npf.Grammar

namespace Nearlands.Npf

open Nearlands.Lib

/-! ## Layout -/

/-- The digits of a number, highest first. -/
def digitsOf (base : Nat) (caseAdj : UInt8) (val : Nat) : List UInt8 :=
  ((revDigits base val).map (digitByte caseAdj)).reverse

/-- Bytes of one kind in a row. -/
def blanks (n : Nat) : List UInt8 := List.replicate n ' '.toUInt8

/-- And of the other kind. -/
def zeros (n : Nat) : List UInt8 := List.replicate n '0'.toUInt8

/-- A number in its field.  With `zeroFill` the room is filled with zeros. -/
def fieldText (fs : FormatSpec) (zeroFill : Bool) (sign pre number : List UInt8) : List UInt8 :=
  let room := fs.fieldWidth - (sign ++ pre ++ number).length
  if fs.leftJustified then sign ++ pre ++ number ++ blanks room
  else if zeroFill then sign ++ pre ++ zeros room ++ number
  else blanks room ++ sign ++ pre ++ number

/-- A number fills its field, and takes more only where it does not fit into it. -/
theorem fieldText_length (fs : FormatSpec) (zeroFill : Bool) (sign pre number : List UInt8) :
    (fieldText fs zeroFill sign pre number).length =
      max fs.fieldWidth (sign.length + pre.length + number.length) := by
  unfold fieldText
  dsimp only
  split
  · simp only [blanks, List.length_append, List.length_replicate]
    omega
  split
  · simp only [zeros, List.length_append, List.length_replicate]
    omega
  · simp only [blanks, List.length_append, List.length_replicate]
    omega

/-- So it is never narrower than its field. -/
theorem fieldText_wide (fs : FormatSpec) (zeroFill : Bool) (sign pre number : List UInt8) :
    fs.fieldWidth ≤ (fieldText fs zeroFill sign pre number).length :=
  fieldText_length fs zeroFill sign pre number ▸ Nat.le_max_left ..

namespace Converted

variable {c : Converted} {z : Bool}

/-- The pad byte.  The hypothesis says when the source takes a zero for it: with the flag `0`,
    unless nothing is printed of a zero. -/
theorem padC_eq (hz : c.fs.leadingZeroPad = true ∧ ¬ (c.fs.precOpt ≠ .none ∧ c.fs.prec = 0 ∧
      c.zero = true) ↔ z = true) : c.padC =
    if c.fs.fieldWidthOpt = .none then 0
    else if c.fs.leftJustified = false ∧ z = true then '0'.toUInt8 else ' '.toUInt8 := by
  unfold padC
  by_cases hopt : c.fs.fieldWidthOpt = .none
  · rw [if_neg (not_not.mpr hopt), if_pos hopt]
  · rw [if_pos hopt, if_neg hopt]
    simp only [← hz]
    by_cases hleft : c.fs.leftJustified = true
    · simp [hleft]
    · by_cases hzero : c.fs.leadingZeroPad = true
      · by_cases hnone : c.fs.precOpt ≠ .none ∧ c.fs.prec = 0 ∧ c.zero = true
        · simp [hleft, hzero, hnone]
        · simp [hleft, hzero, hnone]
      · simp [hleft, hzero]

/-- The room in the field.  The source subtracts the parts one by one; here it is the width less the
    length of all of them. -/
theorem fieldPad_eq : c.fieldPad =
    c.fs.fieldWidth - (c.sign ++ c.hexPrefix ++ (zeros c.precPad ++ c.payload)).length := by
  have hsign : c.sign.length = if c.signC ≠ 0 then 1 else 0 := by
    unfold sign
    split <;> rfl
  have hpre : c.hexPrefix.length = if c.need0x ≠ 0 then 2 else 0 := by
    unfold hexPrefix
    split <;> rfl
  simp only [fieldPad, List.length_append, hsign, hpre, zeros, List.length_replicate]
  omega

/-- A converted number is printed in the layout of numbers.  There are as many cases as the source
    has orders: left justified, filled with zeros, filled with blanks.  That there is no sign with a
    prefix (`hone`) is what makes the last one the layout of C, since the source puts the prefix
    first. -/
theorem text_field (hstring : c.fs.convSpec ≠ .string)
    (hone : c.sign = [] ∨ c.hexPrefix = [])
    (hwidth : c.fs.fieldWidthOpt = .none → c.fs.fieldWidth = 0)
    (hz : c.fs.leadingZeroPad = true ∧ ¬ (c.fs.precOpt ≠ .none ∧ c.fs.prec = 0 ∧
      c.zero = true) ↔ z = true) :
    c.text = fieldText c.fs z c.sign c.hexPrefix (zeros c.precPad ++ c.payload) := by
  have hpad := padC_eq hz
  have hroom := fieldPad_eq (c := c)
  have hblank : ' '.toUInt8 ≠ 0 ∧ ' '.toUInt8 ≠ '0'.toUInt8 ∧ '0'.toUInt8 ≠ 0 := by decide
  -- the sign and the prefix are not there both
  have hswap : ∀ rest, c.hexPrefix ++ (c.sign ++ rest) = c.sign ++ (c.hexPrefix ++ rest) := by
    intro rest
    rcases hone with h | h
    · simp [h]
    · simp [h]
  rw [text, body, if_neg hstring, fieldText, ← hroom]
  by_cases hopt : c.fs.fieldWidthOpt = .none
  · -- no field
    rw [if_pos hopt] at hpad
    have hno : c.fieldPad = 0 := by
      rw [hroom, hwidth hopt]
      exact Nat.zero_sub _
    simp [front, lateSign, back, hpad, hno, hblank.2.2.symm, blanks, zeros, hswap]
  · rw [if_neg hopt] at hpad
    by_cases hleft : c.fs.leftJustified = true
    · rw [if_neg (by simp [hleft])] at hpad
      simp [front, lateSign, back, hpad, hleft, hblank, fill, blanks, zeros, hswap]
    · have hleft' : c.fs.leftJustified = false := Bool.eq_false_iff.mpr hleft
      by_cases hfill : z = true
      · rw [if_pos ⟨hleft', hfill⟩] at hpad
        simp [front, lateSign, back, hpad, hleft', hfill, hblank, fill, zeros]
      · rw [if_neg fun h => hfill h.2] at hpad
        simp [front, lateSign, back, hpad, hleft', hfill, hblank, fill, blanks, zeros, hswap]

end Converted

/-! ## Reading -/

/-- The digit that a byte is, in either case. -/
def digitOf (c : UInt8) : Option Nat :=
  if '0'.toUInt8 ≤ c ∧ c ≤ '9'.toUInt8 then some (c - '0'.toUInt8).toNat
  else if 'A'.toUInt8 ≤ c ∧ c ≤ 'F'.toUInt8 then some ((c - 'A'.toUInt8).toNat + 10)
  else if 'a'.toUInt8 ≤ c ∧ c ≤ 'f'.toUInt8 then some ((c - 'a'.toUInt8).toNat + 10)
  else none

/-- The digits are read back in either case. -/
theorem digitOf_digitByte {caseAdj : UInt8} (hadj : caseAdj = 0 ∨ caseAdj = lowercase) {d : Nat}
    (hd : d < 16) : digitOf (digitByte caseAdj d) = some d := by
  have hall : ∀ d < 16, digitOf (digitByte 0 d) = some d ∧
      digitOf (digitByte lowercase d) = some d := by decide
  rcases hadj with rfl | rfl
  · exact (hall d hd).1
  · exact (hall d hd).2

/-- `npf_utoa_rev`, and its digits printed backwards.  22 digits are enough for 64 bits in base 8,
    so that a byte more, the zero of the alternative form, still has room. -/
theorem npfUtoaRev_readBack {base val : Nat} (a : UInt8) (hbase : 8 ≤ base)
    (hval : val < 2 ^ 64) : ∃ len cbuf, npfUtoaRev val .empty base a = .done (len, cbuf) ∧
      len ≤ 22 ∧ cbuf.readBack len = .done (digitsOf base a val) ∧
      (∀ c, (cbuf.put len c).Sat (fun b => b.readBack (len + 1) =
        .done (c :: digitsOf base a val)) False) := by
  have hlen := revDigits_length hbase hval
  obtain ⟨⟨len, cbuf⟩, hrun, hn, hholds⟩ := (npfUtoaRev_sat (a := a) .empty
    (Nat.le_trans (by decide) hbase) (Nat.le_trans hlen (by decide))).value
  dsimp only at hn hholds
  have hn' : ((revDigits base val).map (digitByte a)).length = len := by
    rw [List.length_map, hn]
  refine ⟨len, cbuf, hrun, by omega, ?_, fun c => ?_⟩
  · rw [← hn', hholds.readBack, digitsOf]
  · have hput := hholds.put (c := c) (E := False) (by rw [hn']; exact Nat.lt_succ_of_le (by omega))
    rw [hn'] at hput
    refine hput.imp fun b hb => ?_
    have hback := hb.readBack
    rw [List.length_append, List.length_singleton, hn', List.reverse_append] at hback
    exact hback

/-- The digits that `%d` prints. -/
def signedDigits (fs : FormatSpec) (val : Int) : List UInt8 :=
  if val = 0 ∧ fs.precOpt ≠ .none ∧ fs.prec = 0 then [] else digitsOf 10 fs.caseAdjust val.natAbs

/-- The field is filled with zeros. -/
def zeroFill (fs : FormatSpec) (val : Int) : Bool :=
  fs.leadingZeroPad && !(fs.precOpt ≠ .none && fs.prec = 0 && val = 0)

/-- What the conversion of a signed number leaves; the magnitude is below `2 ^ 64`, so its digits
    fit the buffer. -/
theorem convertSigned_eq (fs : FormatSpec) {val : Int} (hval : val.natAbs < 2 ^ 64) :
    convertSigned fs val = .done ⟨fs, signedDigits fs val,
      if val < 0 then '-'.toUInt8 else fs.prepend, 0, val = 0⟩ := by
  unfold convertSigned signedDigits
  by_cases hnone : val = 0 ∧ fs.precOpt ≠ .none ∧ fs.prec = 0
  · rw [if_pos hnone, if_pos hnone]
    simp [hnone.1]
  · obtain ⟨len, cbuf, hrun, -, hback, -⟩ := npfUtoaRev_readBack fs.caseAdjust
      (show 8 ≤ 10 by decide) hval
    rw [if_neg hnone, if_neg hnone, hrun]
    dsimp only [Outcome.done_bind]
    rw [hback]
    rfl

/-- The digits of an unsigned number, with the zero of octal in front. -/
theorem unsignedDigits_eq (fs : FormatSpec) {val : Nat} (hval : val < 2 ^ 64)
    (hbase : 8 ≤ fs.convSpec.base) : unsignedDigits fs val =
      .done ((if val ≠ 0 ∧ fs.altForm ∧ fs.convSpec = .octal then ['0'.toUInt8] else []) ++
        digitsOf fs.convSpec.base fs.caseAdjust val) := by
  obtain ⟨len, cbuf, hrun, -, hback, hput⟩ := npfUtoaRev_readBack fs.caseAdjust hbase hval
  rw [unsignedDigits, hrun]
  dsimp only [Outcome.done_bind]
  by_cases halt : val ≠ 0 ∧ fs.altForm ∧ fs.convSpec = .octal
  · obtain ⟨b, hb, hread⟩ := (hput '0'.toUInt8).value
    rw [if_pos halt, if_pos halt, hb]
    exact hread
  · rw [if_neg halt, if_neg halt, hback]
    rfl

/-- What holds of the specification of a directive: a field width is given, the case is one of two,
    and the sign one of three. -/
structure FormatSpec.Formed (fs : FormatSpec) : Prop where
  width : fs.fieldWidthOpt = .none → fs.fieldWidth = 0
  adjust : fs.caseAdjust = 0 ∨ fs.caseAdjust = lowercase
  sign : fs.prepend = 0 ∨ fs.prepend = '+'.toUInt8 ∨ fs.prepend = ' '.toUInt8

/-- Each conversion has one of two cases. -/
theorem convOf_adjust {c : UInt8} {r : ConvSpec × UInt8} (h : convOf c = some r) :
    r.2 = 0 ∨ r.2 = lowercase := by
  have hc := mem_convBytes (Option.isSome_iff_exists.mpr ⟨r, h⟩)
  have hall : ∀ c ∈ convBytes, ∀ r ∈ convOf c, r.2 = 0 ∨ r.2 = lowercase := by decide
  exact hall c hc r h

/-- Every directive is well formed in this sense. -/
theorem Directive.formed (d : Directive) : d.spec.Formed where
  width := fun h => by
    show d.width.meaning.1 = 0
    have hopt : d.width.meaning.2 = .none := h
    cases hw : d.width with
    | omitted => rfl
    | star => rfl
    | literal first rest =>
      rw [hw] at hopt
      cases hopt
  adjust := convOf_adjust (Option.some_get d.conv_proper).symm
  sign := by
    simp only [Directive.spec, FormatSpec.withFlags]
    by_cases hplus : '+'.toUInt8 ∈ d.flags
    · simp [hplus]
    by_cases hblank : ' '.toUInt8 ∈ d.flags
    · simp [hplus, hblank, FormatSpec.initial]
    · simp [hplus, hblank, FormatSpec.initial]

/-- The star arguments and the defaults keep that, and what kind of directive it is. -/
structure FormatSpec.Alike (fs fs' : FormatSpec) : Prop where
  fieldWidthOpt : fs'.fieldWidthOpt = fs.fieldWidthOpt
  caseAdjust : fs'.caseAdjust = fs.caseAdjust
  prepend : fs'.prepend = fs.prepend
  altForm : fs'.altForm = fs.altForm
  convSpec : fs'.convSpec = fs.convSpec
  lengthModifier : fs'.lengthModifier = fs.lengthModifier
  width : fs.fieldWidthOpt ≠ .star → fs'.fieldWidth = fs.fieldWidth

/-- What is alike is well formed too. -/
theorem FormatSpec.Alike.formed {fs fs' : FormatSpec} (h : fs.Alike fs') (hfs : fs.Formed) :
    fs'.Formed where
  width := fun hopt => by
    have hopt' := h.fieldWidthOpt.symm.trans hopt
    exact (h.width (by rw [hopt']; decide)).trans (hfs.width hopt')
  adjust := by rw [h.caseAdjust]; exact hfs.adjust
  sign := by rw [h.prepend]; exact hfs.sign

/-- A specification is like itself. -/
theorem FormatSpec.Alike.refl (fs : FormatSpec) : fs.Alike fs :=
  ⟨rfl, rfl, rfl, rfl, rfl, rfl, fun _ => rfl⟩

/-- Two changes of that kind are one. -/
theorem FormatSpec.Alike.trans {fs fs' fs'' : FormatSpec} (h : fs.Alike fs') (h' : fs'.Alike fs'') :
    fs.Alike fs'' where
  fieldWidthOpt := h'.fieldWidthOpt.trans h.fieldWidthOpt
  caseAdjust := h'.caseAdjust.trans h.caseAdjust
  prepend := h'.prepend.trans h.prepend
  altForm := h'.altForm.trans h.altForm
  convSpec := h'.convSpec.trans h.convSpec
  lengthModifier := h'.lengthModifier.trans h.lengthModifier
  width := fun hopt => (h'.width (by rwa [h.fieldWidthOpt])).trans (h.width hopt)

/-- A precision from an argument. -/
theorem FormatSpec.starPrec_alike (fs : FormatSpec) (prec : Int) : fs.Alike (fs.starPrec prec) := by
  unfold FormatSpec.starPrec
  split
  · exact ⟨rfl, rfl, rfl, rfl, rfl, rfl, fun _ => rfl⟩
  · exact ⟨rfl, rfl, rfl, rfl, rfl, rfl, fun _ => rfl⟩

/-- A field width from an argument. -/
theorem FormatSpec.starWidth_alike {fs : FormatSpec} (h : fs.fieldWidthOpt = .star) (width : Int) :
    fs.Alike (fs.starWidth width) :=
  ⟨rfl, rfl, rfl, rfl, rfl, rfl, fun hno => absurd h hno⟩

/-- The second star argument. -/
theorem FormatSpec.starArgs_prec (fs : FormatSpec) (args : Args) {r : FormatSpec × Args}
    (h : (if fs.precOpt = .star then (fs.starPrec (signed 32 (args 0)), args.next) else (fs, args)) =
      r) : fs.Alike r.1 := by
  generalize signed 32 (args 0) = prec at h
  subst h
  split
  · exact fs.starPrec_alike prec
  · exact FormatSpec.Alike.refl fs

/-- Both of them. -/
theorem FormatSpec.starArgs_alike (fs : FormatSpec) (args : Args) :
    fs.Alike (fs.starArgs args).1 := by
  unfold FormatSpec.starArgs
  by_cases hstar : fs.fieldWidthOpt = .star
  · have hwidth := FormatSpec.starWidth_alike hstar (signed 32 (args 0))
    rw [if_pos hstar]
    dsimp only
    exact hwidth.trans (FormatSpec.starArgs_prec _ _ rfl)
  · rw [if_neg hstar]
    dsimp only
    exact FormatSpec.starArgs_prec _ _ rfl

/-- The precision that is not given. -/
theorem FormatSpec.defaultPrec_alike (fs : FormatSpec) :
    fs.Alike fs.defaultPrec ∧ fs.defaultPrec.precOpt = fs.precOpt := by
  unfold FormatSpec.defaultPrec
  split
  · exact ⟨⟨rfl, rfl, rfl, rfl, rfl, rfl, fun _ => rfl⟩, rfl⟩
  split
  · exact ⟨⟨rfl, rfl, rfl, rfl, rfl, rfl, fun _ => rfl⟩, rfl⟩
  · exact ⟨.refl fs, rfl⟩

/-- With a precision the flag `0` is dropped from integers. -/
theorem FormatSpec.dropZeroPad_alike (fs : FormatSpec) : fs.Alike fs.dropZeroPad ∧
    fs.dropZeroPad.precOpt = fs.precOpt ∧
    (fs.precOpt ≠ .none → fs.convSpec.isInteger = true → fs.dropZeroPad.leadingZeroPad = false) := by
  unfold FormatSpec.dropZeroPad
  split
  · exact ⟨⟨rfl, rfl, rfl, rfl, rfl, rfl, fun _ => rfl⟩, rfl, fun _ _ => rfl⟩
  · rename_i hno
    exact ⟨.refl fs, rfl, fun hopt hint => absurd ⟨hopt, hint⟩ hno⟩

/-- All that is not given; an integer with a precision has no flag `0` then. -/
theorem FormatSpec.defaults_alike (fs : FormatSpec) : fs.Alike fs.defaults ∧
    (fs.defaults.precOpt ≠ .none → fs.convSpec.isInteger = true →
      fs.defaults.leadingZeroPad = false) := by
  obtain ⟨hprec, hopt⟩ := fs.defaultPrec_alike
  obtain ⟨hdrop, hopt', hzero⟩ := fs.defaultPrec.dropZeroPad_alike
  refine ⟨hprec.trans hdrop, fun h hint => hzero (hopt' ▸ h) ?_⟩
  rwa [hprec.convSpec]

/-- A signed number fits the bits that a length modifier leaves. -/
theorem signed_natAbs_lt {bits : Nat} (hb : bits ≤ 64) (slot : Nat) :
    (signed bits slot).natAbs < 2 ^ 64 := by
  have hpos : 0 < 2 ^ bits := Nat.two_pow_pos bits
  have hle : 2 ^ bits ≤ 2 ^ 64 := Nat.pow_le_pow_right (by decide) hb
  have hlow : -(((2 ^ bits : Nat) : Int) / 2) ≤ signed bits slot := Int.le_bmod hpos
  have hhigh : signed bits slot < (((2 ^ bits : Nat) : Int) + 1) / 2 := Int.bmod_lt hpos
  omega

/-- So does an unsigned one. -/
theorem unsigned_lt {bits : Nat} (hb : bits ≤ 64) (slot : Nat) : unsigned bits slot < 2 ^ 64 :=
  lt_of_lt_of_le (Nat.mod_lt _ (Nat.two_pow_pos bits)) (Nat.pow_le_pow_right (by decide) hb)

/-- No length modifier leaves more than 64 bits. -/
theorem bits_le {m : LengthModifier} {bits : Nat} (h : m.bits = some bits) : bits ≤ 64 := by
  cases m <;> cases h <;> decide

/-- The text of a directive whose field width can be negated. -/
theorem printDirective_eq (m : Bytes) {fs : FormatSpec} {args : Args} (hneg : fs.Negatable args) :
    printDirective m fs args =
      convert m (fs.starArgs args).1.defaults (fs.starArgs args).2 >>= fun r =>
        countInt r.1.text.length (r.1.text, r.2) := if_pos hneg

/-- A short text is counted. -/
theorem countInt_of_lt {α : Type} {n : Nat} (h : n < 2 ^ 31) (a : α) : countInt n a = .done a :=
  if_pos h

/-- What comes back was counted. -/
theorem countInt_done {α : Type} {n : Nat} {a b : α} (h : countInt n a = .done b) :
    n < 2 ^ 31 ∧ a = b := by
  unfold countInt at h
  split at h
  · exact ⟨‹_›, Outcome.done.inj h⟩
  · cases h

/-- The defaults leave the field width alone. -/
theorem FormatSpec.defaults_fieldWidth (fs : FormatSpec) : fs.defaults.fieldWidth = fs.fieldWidth := by
  unfold FormatSpec.defaults FormatSpec.dropZeroPad FormatSpec.defaultPrec
  split_ifs <;> rfl

/-- So does a precision from an argument. -/
theorem FormatSpec.starPrec_fieldWidth (fs : FormatSpec) (prec : Int) :
    (fs.starPrec prec).fieldWidth = fs.fieldWidth := by
  unfold FormatSpec.starPrec
  split <;> rfl

/-- The field width, when the star arguments are read. -/
theorem FormatSpec.starArgs_fieldWidth (fs : FormatSpec) (args : Args) :
    (fs.starArgs args).1.fieldWidth =
      if fs.fieldWidthOpt = .star then (signed 32 (args 0)).natAbs else fs.fieldWidth := by
  have hprec : ∀ (fs : FormatSpec) (prec : Int) (args rest : Args),
      (if fs.precOpt = .star then (fs.starPrec prec, rest) else (fs, args)).1.fieldWidth =
        fs.fieldWidth := by
    intro fs prec args rest
    split
    · exact fs.starPrec_fieldWidth prec
    · rfl
  unfold FormatSpec.starArgs
  by_cases hstar : fs.fieldWidthOpt = .star
  · rw [if_pos hstar, if_pos hstar]
    have hwidth : ∀ width : Int, (fs.starWidth width).fieldWidth = width.natAbs := fun _ => rfl
    dsimp only
    rw [hprec, hwidth]
  · rw [if_neg hstar, if_neg hstar]
    dsimp only
    rw [hprec]

/-- The field width of a directive is an `int`, whether it is in the format or an argument. -/
theorem Directive.fieldWidth_lt (d : Directive) {args : Args} (hneg : d.spec.Negatable args) :
    (d.spec.starArgs args).1.defaults.fieldWidth < 2 ^ 31 := by
  rw [FormatSpec.defaults_fieldWidth, FormatSpec.starArgs_fieldWidth]
  split
  · rename_i hstar
    have hleast := hneg hstar
    have hlow : -(((2 ^ 32 : Nat) : Int) / 2) ≤ signed 32 (args 0) := Int.le_bmod (by decide)
    have hhigh : signed 32 (args 0) < (((2 ^ 32 : Nat) : Int) + 1) / 2 := Int.bmod_lt (by decide)
    omega
  · exact d.width_int

/-- The field width 8 has no zero in front. -/
theorem eight_proper : (Width.literal '8'.toUInt8 []).Proper :=
  ⟨by decide, by decide, fun _ h => absurd h List.not_mem_nil⟩

/-- It is an `int`. -/
theorem eight_int : (Width.literal '8'.toUInt8 []).meaning.1 < 2 ^ 31 := by decide

end Nearlands.Npf
