/-
  `npf_vpprintf` and its caller, and `npf_vsnprintf` (`nanoprintf.h`).

  `npf_vpprintf` gives each byte away as soon as it has it, and the string arguments are read while
  the bytes of the others are already gone: here the caller is a `Sink`, which may change the memory
  that the next argument is read from.  Where it leaves alone what the formatter looks at, nothing of
  this is seen, and what arrives is the text (`vpprintf_stream`).

  `npf_vsnprintf` is a caller that puts the bytes into a buffer while there is room.  What is in the
  buffer then is as much of the text as fits, and a zero byte; the text itself has none
  (`vsnprintf_contract`).
-/
import Nearlands.Lib.Packed
import Nearlands.Npf.Floats

namespace Nearlands.Npf

open Nearlands.Lib

/-! ## The caller -/

/-- `npf_putc` with its context: what one byte does, and the memory there is.  It is a parameter of
    the loop, as the function pointer is in the source. -/
structure Sink (σ : Type) where
  put : σ → UInt8 → σ
  mem : σ → Bytes

namespace Sink

variable {σ : Type}

/-- Bytes given away one after the other. -/
def puts (k : Sink σ) (s : σ) (cs : List UInt8) : σ := cs.foldl k.put s

/-- `for (int i = 0; i < n; ++i) { NPF_PUTC(p[i]); }` Each byte is read when its turn comes, from
    the memory that the bytes before it have left. -/
def copy (k : Sink σ) (p : Nat) : Nat → σ → σ
  | 0, s => s
  | n + 1, s => copy k (p + 1) n (k.put s (k.mem s (w64 p)))

/-- `npf_putc_cnt`: the bytes are counted. -/
def counted (k : Sink σ) : Sink (σ × Nat) where
  put s c := (k.put s.1 c, s.2 + 1)
  mem s := k.mem s.1

/-- What a directive gives away.  The bytes of a string are read one by one.  Only a string is read
    while bytes are given away; every other conversion has its digits in `cbuf` before. -/
def printTo (k : Sink σ) (s : σ) (fs : FormatSpec) (args : Args) : Outcome (σ × Args) :=
  if fs.Negatable args then do
    let (fs, args) := fs.starArgs args
    let (c, rest) ← convert (k.mem s) fs.defaults args
    if c.fs.convSpec = .string then
      let s := k.copy (unsigned 64 (args 0)) c.payload.length (k.puts s c.front)
      return (k.puts s c.back, rest)
    else return (k.puts s c.text, rest)
  else .wild

/-- The loop of `npf_vpprintf`. -/
def printLoop (k : Sink σ) : Nat → List UInt8 → σ → Args → Outcome (σ × Args)
  | 0, [], s, args => .done (s, args)
  | 0, _ :: _, _, _ => .wild
  | _ + 1, [], s, args => .done (s, args)
  | fuel + 1, c :: cs, s, args => do
    let parsed ← parseAt c cs
    match parsed with
    | none => printLoop k fuel cs (k.put s c) args
    | some (fs, cur) => do
      let (s, args) ← k.printTo s fs args
      printLoop k fuel cur s args

/-- `npf_vpprintf(pc, pc_ctx, format, args)`: the context, and the number of bytes.  That is an
    `int`, which only grows, so that it overflowed on its way where it is none in the end. -/
def npfVpprintf (k : Sink σ) (s : σ) (format : List UInt8) (args : Args) : Outcome (σ × Nat) := do
  let (s, _) ← k.counted.printLoop format.length format (s, 0) args
  countInt s.2 s

end Sink

/-- `npf_bufputc_ctx_t`, and the memory that the buffer is in. -/
structure BufputcCtx where
  mem : Bytes
  dst : Nat
  len : Nat
  cur : Nat

/-- `npf_bufputc(c, ctx)`.  Behind the last byte nothing is written, and `cur` stays. -/
def npfBufputc (ctx : BufputcCtx) (c : UInt8) : BufputcCtx :=
  if ctx.cur < ctx.len then
    { ctx with mem := upd ctx.mem (w64 (ctx.dst + ctx.cur)) c, cur := ctx.cur + 1 }
  else ctx

/-- `npf_bufputc_nop(c, ctx)`. -/
def npfBufputcNop (ctx : BufputcCtx) (_ : UInt8) : BufputcCtx := ctx

/-- `npf_vsnprintf(buffer, bufsz, format, vlist)`: the memory, and the length of the whole text.  A
    negative length, for which the source puts the zero byte first, does not come back from
    `npf_vpprintf`: its count starts at 0 and goes up, or it has overflowed. -/
def npfVsnprintf (m : Bytes) (buffer bufsz : Nat) (format : List UInt8) (args : Args) :
    Outcome (Bytes × Int) := do
  let pc := if buffer ≠ 0 then npfBufputc else npfBufputcNop
  let (ctx, count) ← Sink.npfVpprintf ⟨pc, BufputcCtx.mem⟩ ⟨m, buffer, bufsz, 0⟩ format args
  let n : Int := count
  if buffer ≠ 0 ∧ bufsz ≠ 0 then
    return (upd ctx.mem (w64 (buffer + if n < 0 then 0 else min n.toNat (bufsz - 1))) 0, n)
  else return (ctx.mem, n)

/-- `impl_vsnprintf(buffer, bufferCount, format, argList)`. -/
def implVsnprintf (m : Bytes) (buffer bufferCount : Nat) (format : List UInt8) (args : Args) :
    Outcome (Bytes × Int) :=
  npfVsnprintf m buffer bufferCount format args

/-! ## The arguments that a format takes -/

/-- The arguments behind the first `n`. -/
def Args.skip (args : Args) (n : Nat) : Args := fun i => args (i + n)

/-- Arguments skipped one part after the other. -/
theorem Args.skip_skip (args : Args) (k n : Nat) : (args.skip k).skip n = args.skip (k + n) := by
  funext i
  show args (i + n + k) = args (i + (k + n))
  congr 1
  omega

/-- The star arguments of a directive. -/
def FormatSpec.stars (fs : FormatSpec) : Nat :=
  (if fs.fieldWidthOpt = .star then 1 else 0) + (if fs.precOpt = .star then 1 else 0)

/-- The argument that is converted: none for a percent sign, nor for an integer with the modifier of
    a float. -/
def FormatSpec.takes (fs : FormatSpec) : Nat :=
  match fs.convSpec with
  | .percent => 0
  | .signedInt | .octal | .hexInt | .unsignedInt => if fs.lengthModifier.bits.isSome then 1 else 0
  | _ => 1

/-- The arguments of a piece of a format. -/
def Piece.slots : Piece → Nat
  | .byte _ => 0
  | .directive d => d.spec.stars + d.spec.takes

/-- The star arguments are the first ones. -/
theorem FormatSpec.starArgs_skip (fs : FormatSpec) (args : Args) :
    (fs.starArgs args).2 = args.skip fs.stars := by
  unfold FormatSpec.starArgs FormatSpec.stars
  by_cases hwidth : fs.fieldWidthOpt = .star
  · have hopt : ∀ width, (fs.starWidth width).precOpt = fs.precOpt := fun _ => rfl
    rw [if_pos hwidth, if_pos hwidth]
    dsimp only
    rw [hopt]
    split <;> rfl
  · rw [if_neg hwidth, if_neg hwidth]
    dsimp only
    split <;> rfl

/-! ## What is printed has no zero byte -/

variable {c : Converted} {fs : FormatSpec} {m : Bytes} {args : Args}

/-- The layout adds none.  The parts are the sign, the prefix, the bytes that fill the field (none
    of them when the pad byte is 0) and the payload. -/
theorem Converted.text_nonzero (h : 0 ∉ c.payload) : 0 ∉ c.text := by
  have hblank : (0 : UInt8) ≠ '0'.toUInt8 := by decide
  -- the parts: the sign and the prefix are there only if they are no zero byte
  have hsign : 0 ∉ c.sign := by
    unfold Converted.sign
    split
    · rename_i hne
      exact fun h0 => hne (List.mem_singleton.mp h0).symm
    · exact List.not_mem_nil
  have hpre : 0 ∉ c.hexPrefix := by
    unfold Converted.hexPrefix
    split
    · rename_i hne
      intro h0
      rcases List.mem_cons.mp h0 with h0 | h0
      · exact hblank h0
      · exact hne (List.mem_singleton.mp h0).symm
    · exact List.not_mem_nil
  -- the pad byte may be zero, but then nothing is filled
  have hfill : c.padC ≠ 0 → 0 ∉ c.fill := fun hpad h0 => hpad (List.mem_replicate.mp h0).2.symm
  have hzeros : 0 ∉ List.replicate c.precPad '0'.toUInt8 := fun h0 =>
    hblank (List.mem_replicate.mp h0).2
  have hlate : 0 ∉ c.lateSign := by
    unfold Converted.lateSign
    split
    · exact List.not_mem_nil
    · exact hsign
  have hfront : 0 ∉ c.front := by
    unfold Converted.front
    split
    · rename_i hpad
      split <;> simp [hsign, hpre, hfill hpad.2]
    · exact hpre
  have hbody : 0 ∉ c.body := by
    unfold Converted.body
    split
    · exact h
    · rw [List.mem_append, List.mem_append]
      exact not_or.mpr ⟨not_or.mpr ⟨hlate, hzeros⟩, h⟩
  have hback : 0 ∉ c.back := by
    unfold Converted.back
    split
    · rename_i hpad
      exact hfill hpad.2
    · exact List.not_mem_nil
  rw [Converted.text, List.mem_append, List.mem_append]
  exact not_or.mpr ⟨not_or.mpr ⟨hfront, hbody⟩, hback⟩

/-- Digits are none. -/
theorem digitsOf_nonzero (hfs : fs.Formed) {base : Nat} (hbase : 2 ≤ base) (hbase16 : base ≤ 16)
    (val : Nat) : 0 ∉ digitsOf base fs.caseAdjust val := by
  intro h0
  obtain ⟨d, hd, hbyte⟩ := List.mem_map.mp (List.mem_reverse.mp h0)
  have hlt : d < 16 := lt_of_lt_of_le (revDigits_lt hbase hd) hbase16
  have hread := digitOf_digitByte hfs.adjust hlt
  rw [hbyte] at hread
  cases hread

/-- A word is made of letters. -/
theorem floatWord_nonzero (hfs : fs.Formed) (bin : Nat) : 0 ∉ floatWord fs bin := by
  unfold floatWord
  rcases hfs.adjust with hadj | hadj
  · rw [hadj]
    split
    · split <;> decide
    · decide
  · rw [hadj]
    split
    · split <;> decide
    · decide

/-- A decimal number is made of digits and its point. -/
theorem decimalText_nonzero {ds : List Nat} (hds : ∀ d ∈ ds, d < 10) : 0 ∉ decimalText fs ds := by
  have hdigit : ∀ d < 10, decimal d ≠ 0 := by decide
  have hmap : ∀ l : List Nat, (∀ d ∈ l, d < 10) → 0 ∉ (l.map decimal).reverse := by
    intro l hl h0
    obtain ⟨d, hd, hzero⟩ := List.mem_map.mp (List.mem_reverse.mp h0)
    exact hdigit d (hl d hd) hzero
  have hpoint : 0 ∉ point fs := by
    unfold point
    split
    · decide
    · exact List.not_mem_nil
  rw [decimalText, List.mem_append, List.mem_append]
  exact not_or.mpr ⟨not_or.mpr ⟨hmap _ fun d hd => hds d (List.mem_of_mem_drop hd), hpoint⟩,
    hmap _ fun d hd => hds d (List.mem_of_mem_take hd)⟩

/-! ## Every directive is printed -/

/-- The formatter finds the end of the string at `p`, and what it looks at lies off `A`.  At a null
    pointer it looks at nothing, and behind a precision neither.  The zero byte at its end is looked
    at too, where the precision does not stop the search before. -/
def StringOff (A : Nat → Prop) (m : Bytes) (fs : FormatSpec) (p : Nat) : Prop :=
  ∃ len, stringLength m fs p = .done len ∧
    ∀ i ≤ len, p ≠ 0 → fs.precOpt = .none ∨ i < fs.prec → ¬ A (w64 (p + i))

variable {A : Nat → Prop}

/-- The bytes of a string are no zero bytes. -/
theorem stringLength_nonzero {p len : Nat} (h : stringLength m fs p = .done len) {i : Nat}
    (hi : i < len) : p ≠ 0 ∧ (fs.precOpt = .none ∨ i < fs.prec) ∧ m (w64 (p + i)) ≠ 0 := by
  have htest := (Outcome.loop_count h).2.2 i (Nat.zero_le i) hi
  simp only [Bool.and_eq_true, Bool.or_eq_true, decide_eq_true_eq] at htest
  exact ⟨htest.1.2, htest.1.1, htest.2⟩

/-- The length is read off what the formatter looks at. -/
theorem stringLength_congr {m' : Bytes} {p len : Nat} (h : stringLength m fs p = .done len)
    (hsame : ∀ i ≤ len, p ≠ 0 → fs.precOpt = .none ∨ i < fs.prec → m' (w64 (p + i)) = m (w64 (p + i))) :
    stringLength m' fs p = .done len := by
  refine Outcome.loop_count_congr h fun i _ hi => ?_
  by_cases hp : p = 0
  · simp [hp]
  by_cases hprec : fs.precOpt = .none ∨ i < fs.prec
  · rw [hsame i hi hp hprec]
  · obtain ⟨hopt, hlt⟩ := not_or.mp hprec
    simp [hopt, hlt]

/-- A signed number is always converted. -/
theorem convertSigned_total (hfs : fs.Formed) {val : Int} (hval : val.natAbs < 2 ^ 64) :
    ∃ c, convertSigned fs val = .done c ∧ c.fs.convSpec = fs.convSpec ∧ 0 ∉ c.payload := by
  refine ⟨_, convertSigned_eq fs hval, rfl, ?_⟩
  dsimp only [signedDigits]
  split
  · exact List.not_mem_nil
  · exact digitsOf_nonzero hfs (by decide) (by decide) _

/-- So is an unsigned one. -/
theorem convertUnsigned_total (hfs : fs.Formed) (hbase : 8 ≤ fs.convSpec.base)
    (hbase16 : fs.convSpec.base ≤ 16) {val : Nat} (hval : val < 2 ^ 64) :
    ∃ c, convertUnsigned fs val = .done c ∧ c.fs.convSpec = fs.convSpec ∧ 0 ∉ c.payload := by
  unfold convertUnsigned
  by_cases hnone : val = 0 ∧ fs.precOpt ≠ .none ∧ fs.prec = 0
  · rw [if_pos hnone]
    refine ⟨_, rfl, ?_, List.not_mem_nil⟩
    dsimp only
    split <;> rfl
  · rw [if_neg hnone, unsignedDigits_eq fs hval hbase]
    refine ⟨_, rfl, rfl, ?_⟩
    have hdigits := digitsOf_nonzero hfs (by omega) hbase16 val
    split
    · intro h0
      rcases List.mem_cons.mp h0 with h0 | h0
      · exact absurd h0 (by decide)
      · exact hdigits h0
    · exact hdigits

/-- So is a double, to a word if need be. -/
theorem convertFloat_total (hfs : fs.Formed) (bin : Nat) :
    ∃ c, convertFloat fs bin = .done c ∧ c.fs.convSpec = fs.convSpec ∧ 0 ∉ c.payload := by
  obtain ⟨⟨len, buf⟩, hrun, hresult⟩ := (npfFtoaRev_sat (ftoaNumber_sat .empty fs bin)).value
  have hconv : ∀ len : Int, (if len < 0 then { fs with leadingZeroPad := false } else fs).convSpec =
      fs.convSpec := by
    intro len
    split <;> rfl
  rcases hresult with ⟨hlen, hword, -⟩ | ⟨-, n, hlen, ds, hds, -⟩
  · dsimp only at hlen hword
    exact ⟨_, convertFloat_eq hrun (by rw [hlen]; exact hword), hconv len, floatWord_nonzero hfs bin⟩
  · dsimp only at hlen hds
    exact ⟨_, convertFloat_eq hrun (by rw [hlen]; exact hds.readBack), hconv len,
      decimalText_nonzero hds.number.lt⟩

/-- **Every argument is converted**, and none of the bytes is a zero byte.  One case for each
    conversion; the strings alone ask for something, that their end is found. -/
theorem convert_total (hfs : fs.Formed)
    (hstring : fs.convSpec = .string → StringOff A m fs (unsigned 64 (args 0))) :
    ∃ c, convert m fs args = .done (c, args.skip fs.takes) ∧ c.fs.convSpec = fs.convSpec ∧
      0 ∉ c.payload := by
  unfold convert FormatSpec.takes
  cases hconv : fs.convSpec with
  | percent => exact ⟨_, rfl, hconv, show 0 ∉ ['%'.toUInt8] by decide⟩
  | char =>
    refine ⟨_, rfl, hconv, ?_⟩
    dsimp only
    split
    · rename_i hne
      exact fun h0 => hne (List.mem_singleton.mp h0).symm
    · exact List.not_mem_nil
  | string =>
    -- the one conversion that reads memory
    obtain ⟨len, hlen, -⟩ := hstring hconv
    refine ⟨⟨fs, (List.range len).map fun i => m (w64 (unsigned 64 (args 0) + i)), 0, 0, false⟩,
      ?_, hconv, fun h0 => ?_⟩
    · -- the byte of `%c` is dropped if it is zero
      dsimp only
      rw [hlen]
      rfl
    · obtain ⟨i, hi, hzero⟩ := List.mem_map.mp h0
      exact (stringLength_nonzero hlen (List.mem_range.mp hi)).2.2 hzero
  | signedInt =>
    dsimp only
    cases hbits : fs.lengthModifier.bits with
    | none =>
      obtain ⟨c, hc, hkind, hzero⟩ := convertSigned_total hfs
        (show (0 : Int).natAbs < 2 ^ 64 by decide)
      refine ⟨c, ?_, hkind.trans hconv, hzero⟩
      dsimp only
      rw [hc]
      rfl
    | some bits =>
      obtain ⟨c, hc, hkind, hzero⟩ := convertSigned_total hfs (signed_natAbs_lt (bits_le hbits) (args 0))
      refine ⟨c, ?_, hkind.trans hconv, hzero⟩
      dsimp only
      rw [hc]
      rfl
  | pointer =>
    obtain ⟨c, hc, hkind, hzero⟩ := convertUnsigned_total hfs (by rw [hconv]; decide)
      (by rw [hconv]; decide) (unsigned_lt (Nat.le_refl 64) (args 0))
    refine ⟨c, ?_, hkind.trans hconv, hzero⟩
    dsimp only
    rw [hc]
    rfl
  | octal | hexInt | unsignedInt =>
    dsimp only
    cases hbits : fs.lengthModifier.bits with
    | none =>
      obtain ⟨c, hc, hkind, hzero⟩ := convertUnsigned_total hfs (by rw [hconv]; decide)
        (by rw [hconv]; decide) (show 0 < 2 ^ 64 by decide)
      refine ⟨c, ?_, hkind.trans hconv, hzero⟩
      dsimp only
      rw [hc]
      rfl
    | some bits =>
      obtain ⟨c, hc, hkind, hzero⟩ := convertUnsigned_total hfs (by rw [hconv]; decide)
        (by rw [hconv]; decide) (unsigned_lt (bits_le hbits) (args 0))
      refine ⟨c, ?_, hkind.trans hconv, hzero⟩
      dsimp only
      rw [hc]
      rfl
  | floatDec | floatSci | floatShortest | floatHex =>
    obtain ⟨c, hc, hkind, hzero⟩ := convertFloat_total hfs (unsigned 64 (args 0))
    refine ⟨c, ?_, hkind.trans hconv, hzero⟩
    dsimp only
    rw [hc]
    rfl

/-- Where the strings of a format are, the formatter finds their ends, and what it looks at lies off
    `A`. -/
def StringsOff (A : Nat → Prop) (m : Bytes) : List Piece → Args → Prop
  | [], _ => True
  | .byte _ :: ps, args => StringsOff A m ps args
  | .directive d :: ps, args =>
    (d.spec.convSpec = .string → StringOff A m (d.spec.starArgs args).1.defaults
      (unsigned 64 ((d.spec.starArgs args).2 0))) ∧
    StringsOff A m ps (args.skip (d.spec.stars + d.spec.takes))

/-- The arguments that become field widths can be negated: none is the least `int`. -/
def StarsInt : List Piece → Args → Prop
  | [], _ => True
  | .byte _ :: ps, args => StarsInt ps args
  | .directive d :: ps, args =>
    d.spec.Negatable args ∧ StarsInt ps (args.skip (d.spec.stars + d.spec.takes))

/-- The arguments that pieces take. -/
def slots (ps : List Piece) : Nat := (ps.map Piece.slots).sum

/-- Defaults and star arguments do not change what is taken. -/
theorem FormatSpec.Alike.takes {fs fs' : FormatSpec} (h : fs.Alike fs') : fs'.takes = fs.takes := by
  unfold FormatSpec.takes
  rw [h.convSpec, h.lengthModifier]

/-- The specification that a directive is converted with. -/
theorem Directive.converted (d : Directive) (args : Args) :
    d.spec.Alike (d.spec.starArgs args).1.defaults ∧ (d.spec.starArgs args).1.defaults.Formed := by
  have halike := (d.spec.starArgs_alike args).trans (d.spec.starArgs args).1.defaults_alike.1
  exact ⟨halike, halike.formed d.formed⟩

/-! ## What arrives is the text -/

namespace Sink

variable {σ : Type} {k : Sink σ} {s : σ} {I : σ → Prop}

/-- In the states of `I` a byte that is given away changes the memory on `A` only.  `A` is where the
    caller may write: a buffer, or nothing. -/
structure Off (k : Sink σ) (I : σ → Prop) (A : Nat → Prop) : Prop where
  keeps : ∀ s c, I s → I (k.put s c)
  mem : ∀ s c a, I s → ¬ A a → k.mem (k.put s c) a = k.mem s a

/-- Bytes given away in two parts. -/
theorem puts_append (k : Sink σ) (s : σ) (xs ys : List UInt8) :
    k.puts s (xs ++ ys) = k.puts (k.puts s xs) ys := List.foldl_append ..

/-- So do more bytes. -/
theorem Off.puts (h : k.Off I A) : ∀ (cs : List UInt8) {s : σ}, I s →
    I (k.puts s cs) ∧ ∀ a, ¬ A a → k.mem (k.puts s cs) a = k.mem s a
  | [], _, hs => ⟨hs, fun _ _ => rfl⟩
  | c :: cs, s, hs =>
    have hrest := h.puts cs (h.keeps s c hs)
    ⟨hrest.1, fun a ha => (hrest.2 a ha).trans (h.mem s c a hs ha)⟩

/-- A string off `A` is given away as it was before its first byte.  The induction is on the bytes
    left; the bytes read are off `A`, so that what was given away before has not changed them. -/
theorem Off.copy (h : k.Off I A) :
    ∀ (n p : Nat) {s : σ}, I s → (∀ i < n, k.mem s (w64 (p + i)) = m (w64 (p + i)) ∧ ¬ A (w64 (p + i))) →
      k.copy p n s = k.puts s ((List.range n).map fun i => m (w64 (p + i))) := by
  intro n
  induction n with
  | zero => exact fun _ _ _ _ => rfl
  | succ n ih =>
    intro p s hs hread
    have hshift : (List.range (n + 1)).map (fun i => m (w64 (p + i))) =
        m (w64 p) :: (List.range n).map fun i => m (w64 (p + 1 + i)) := by
      rw [List.range_succ_eq_map, List.map_cons, List.map_map]
      congr 1
      refine List.map_congr_left fun i _ => ?_
      show m (w64 (p + (i + 1))) = m (w64 (p + 1 + i))
      congr 2
      omega
    have hfirst := (hread 0 (Nat.succ_pos n)).1
    rw [Nat.add_zero] at hfirst
    rw [Sink.copy, hfirst, hshift, ih (p + 1) (h.keeps s (m (w64 p)) hs) fun i hi => ?_]
    · rfl
    · have hnext := hread (i + 1) (Nat.succ_lt_succ hi)
      rw [← Nat.add_assoc, Nat.add_right_comm] at hnext
      exact ⟨(h.mem _ _ _ hs hnext.2).trans hnext.1, hnext.2⟩

/-- A conversion reads nothing but its string, so memories that agree on it are converted alike. -/
theorem convert_congr {m' : Bytes} (hsame : ∀ a, ¬ A a → m' a = m a)
    (hstring : fs.convSpec = .string → StringOff A m fs (unsigned 64 (args 0))) :
    convert m' fs args = convert m fs args := by
  unfold convert
  cases hconv : fs.convSpec with
  | string =>
    obtain ⟨len, hlen, hoff⟩ := hstring hconv
    have hlen' := stringLength_congr hlen fun i hi hp hprec => hsame _ (hoff i hi hp hprec)
    dsimp only
    rw [hlen, hlen']
    dsimp only [Outcome.done_bind]
    congr 3
    refine List.map_congr_left fun i hi => ?_
    have hi : i < len := List.mem_range.mp hi
    obtain ⟨hp, hprec, -⟩ := stringLength_nonzero hlen hi
    exact hsame _ (hoff i hi.le hp hprec)
  | percent | char | signedInt | octal | hexInt | unsignedInt | pointer | floatDec | floatSci
  | floatShortest | floatHex => rfl

/-- A directive gives its text away.  The text is that of the memory `m` in the beginning, and
    giving it away changes the memory on `A` alone, so that the next directive finds `m` as well. -/
theorem Off.printTo (h : k.Off I A) (d : Directive) (hs : I s) (hneg : d.spec.Negatable args)
    (hsame : ∀ a, ¬ A a → k.mem s a = m a)
    (hstring : d.spec.convSpec = .string → StringOff A m (d.spec.starArgs args).1.defaults
      (unsigned 64 ((d.spec.starArgs args).2 0))) :
    ∃ text, printDirective m d.spec args =
        countInt text.length (text, args.skip (d.spec.stars + d.spec.takes)) ∧
      k.printTo s d.spec args = .done (k.puts s text, args.skip (d.spec.stars + d.spec.takes)) ∧
      0 ∉ text := by
  obtain ⟨halike, hformed⟩ := d.converted args
  have hrest := d.spec.starArgs_skip args
  have hstring' : (d.spec.starArgs args).1.defaults.convSpec = .string →
      StringOff A m (d.spec.starArgs args).1.defaults (unsigned 64 ((d.spec.starArgs args).2 0)) :=
    fun hstr => hstring (halike.convSpec.symm.trans hstr)
  obtain ⟨c, hc, hkind, hzero⟩ := convert_total hformed hstring'
  have hread := convert_congr hsame hstring'
  rw [halike.takes, hrest, Args.skip_skip] at hc
  refine ⟨c.text, ?_, ?_, Converted.text_nonzero hzero⟩
  · rw [printDirective_eq m hneg, hrest, hc]
    rfl
  · unfold Sink.printTo
    rw [if_pos hneg]
    rw [hrest] at hread
    dsimp only
    rw [hrest, hread, hc]
    dsimp only [Outcome.done_bind]
    split
    · rename_i hstr
      -- the payload is the string
      have hconv := hkind.symm.trans hstr
      obtain ⟨len, hlen, hoff⟩ := hstring' hconv
      have hpayload : c.payload = (List.range len).map fun i =>
          m (w64 (unsigned 64 ((d.spec.starArgs args).2 0) + i)) := by
        rw [← hrest] at hc
        unfold convert at hc
        rw [hconv] at hc
        dsimp only at hc
        rw [hlen] at hc
        injection hc with hc
        rw [← (Prod.mk.inj hc).1]
      have hcopy := h.copy (m := m) len (unsigned 64 ((d.spec.starArgs args).2 0))
        (h.puts c.front hs).1 fun i hi => by
          obtain ⟨hp, hprec, -⟩ := stringLength_nonzero hlen hi
          have hout := hoff i hi.le hp hprec
          exact ⟨((h.puts c.front hs).2 _ hout).trans (hsame _ hout), hout⟩
      have hlength : c.payload.length = len := by
        rw [hpayload, List.length_map, List.length_range]
      rw [hlength, ← hrest, hcopy, ← hpayload, Converted.text, Converted.body, if_pos hstr, puts_append,
        puts_append]
      rfl
    · rfl

/-- What pieces print is that text, or they went wrong on a directive that is too long already.  The
    two loops look at their counts at different times: `printDirective` at the end of each
    directive, the loop over a `Sink` at the end of the format. -/
def Prints (o : Outcome (List UInt8 × Args)) (text : List UInt8) (rest : Args) : Prop :=
  o = .done (text, rest) ∨ o = .wild ∧ 2 ^ 31 ≤ text.length

/-- Counted in the end it is the same. -/
theorem Prints.count {o : Outcome (List UInt8 × Args)} {text : List UInt8} {rest : Args}
    (h : Prints o text rest) :
    (o >>= fun r => countInt r.1.length r) = countInt text.length (text, rest) := by
  rcases h with h | ⟨h, hlong⟩
  · rw [h]
    rfl
  · rw [h, countInt, if_neg (Nat.not_lt.mpr hlong)]
    rfl

/-- The loop gives the text of the pieces away.  The induction is on the reading of the format, and
    what it carries along is that the memory of the caller is still `m` off `A`. -/
theorem Off.printLoop (hk : k.Off I A) {cs : List UInt8} {ps : List Piece} (h : Reading cs ps) :
    ∀ {fuel : Nat} {s : σ} {args : Args}, IntFormat cs → cs.length ≤ fuel → I s →
      (∀ a, ¬ A a → k.mem s a = m a) → StarsInt ps args → StringsOff A m ps args → 0 ∉ cs →
      ∃ text, Prints (printPieces m ps args) text (args.skip (slots ps)) ∧
        k.printLoop fuel cs s args = .done (k.puts s text, args.skip (slots ps)) ∧ 0 ∉ text := by
  induction h with
  | nil =>
    intro fuel s args _ _ _ _ _ _ _
    cases fuel <;> exact ⟨[], .inl rfl, rfl, List.not_mem_nil⟩
  | @byte c cs ps hno _ ih =>
    intro fuel s args hint hfuel hs hsame hstars hoff hzero
    obtain ⟨fuel, rfl⟩ := Nat.exists_eq_add_of_le' (Nat.le_trans (Nat.le_add_left 1 _) hfuel)
    rw [List.length_cons] at hfuel
    obtain ⟨hc, hcs⟩ := not_or.mp fun h0 => hzero (List.mem_cons.mpr h0)
    have hslots : slots (.byte c :: ps) = slots ps := Nat.zero_add _
    obtain ⟨text, hpieces, hloop, htext⟩ := ih (s := k.put s c) hint.tail
      (show cs.length ≤ fuel by omega) (hk.keeps s c hs)
      (fun a ha => (hk.mem s c a hs ha).trans (hsame a ha)) hstars hoff hcs
    refine ⟨c :: text, ?_, ?_, fun h0 => ?_⟩
    · rw [printPieces, hslots]
      -- the byte makes a text that was too long one longer
      rcases hpieces with hdone | ⟨hwild, hlong⟩
      · exact .inl (by rw [hdone]; rfl)
      · exact .inr ⟨by rw [hwild]; rfl, hlong.trans (Nat.le_succ _)⟩
    · rw [Sink.printLoop, parseAt_byte hint hno, hslots]
      exact hloop
    · exact (List.mem_cons.mp h0).elim hc htext
  | @directive d cs ps _ ih =>
    intro fuel s args hint hfuel hs hsame hstars hoff hzero
    obtain ⟨fuel, rfl⟩ := Nat.exists_eq_add_of_le' (Nat.le_trans (Nat.le_add_left 1 _) hfuel)
    rw [List.length_cons, List.length_append] at hfuel
    have hcs : 0 ∉ cs := fun h0 => hzero (List.mem_cons_of_mem _ (List.mem_append_right _ h0))
    have hslots : slots (.directive d :: ps) = d.spec.stars + d.spec.takes + slots ps := rfl
    obtain ⟨printed, hdirective, hto, hprinted⟩ := hk.printTo d hs hstars.1 hsame hoff.1
    obtain ⟨text, hpieces, hloop, htext⟩ := ih (s := k.puts s printed)
      (hint.tail.suffix (List.suffix_append ..)) (show cs.length ≤ fuel by omega) (hk.puts printed hs).1
      (fun a ha => ((hk.puts printed hs).2 a ha).trans (hsame a ha)) hstars.2 hoff.2 hcs
    rw [Args.skip_skip, ← hslots] at hpieces hloop
    refine ⟨printed ++ text, ?_, ?_, ?_⟩
    · have hlen : (printed ++ text).length = printed.length + text.length := List.length_append
      rw [printPieces, hdirective, countInt]
      -- this directive may be too long by itself, or the text behind it
      split
      · rcases hpieces with hdone | ⟨hwild, hlong⟩
        · exact .inl (by dsimp only [Outcome.done_bind]; rw [hdone]; rfl)
        · exact .inr ⟨by dsimp only [Outcome.done_bind]; rw [hwild]; rfl, by omega⟩
      · exact .inr ⟨rfl, by omega⟩
    · rw [Sink.printLoop, parseAt_directive]
      dsimp only [Outcome.done_bind]
      rw [hto]
      dsimp only [Outcome.done_bind]
      rw [hloop, puts_append]
    · rw [List.mem_append]
      exact not_or.mpr ⟨hprinted, htext⟩

/-- The count is that of the bytes. -/
theorem counted_puts (k : Sink σ) : ∀ (cs : List UInt8) (s : σ) (n : Nat),
    k.counted.puts (s, n) cs = (k.puts s cs, n + cs.length)
  | [], _, _ => rfl
  | c :: cs, s, n => by
    refine (counted_puts k cs (k.put s c) (n + 1)).trans ?_
    rw [List.length_cons, Nat.add_assoc, Nat.add_comm 1]
    rfl

end Sink

/-- **What the formatter gives away is the text**: whatever the caller does with the bytes, as long
    as it leaves alone what the formatter looks at, they are those that would be printed from the
    memory as it was in the beginning.  None of them is a zero byte, all are counted, and the format
    takes as many arguments as its pieces say.  The hypotheses say that the caller writes on `A`
    only (`hk`), that strings are off `A` (`hoff`), and that nothing overflows in the format
    (`hint`) or in a field width from an argument (`hstars`).  Whether the count overflows is part
    of the result, in `countInt`. -/
theorem vpprintf_stream {σ : Type} {k : Sink σ} {I : σ → Prop} (hk : k.Off I A) {s : σ} (hs : I s)
    {format : List UInt8} {ps : List Piece} (hps : Reading format ps) (hint : IntFormat format)
    (hzero : 0 ∉ format) (hstars : StarsInt ps args) (hoff : StringsOff A (k.mem s) ps args) :
    ∃ text, npfVpprintf (k.mem s) format args = countInt text.length (text, args.skip (slots ps)) ∧
      k.npfVpprintf s format args = countInt text.length (k.puts s text, text.length) ∧ 0 ∉ text := by
  have hcounted : k.counted.Off (fun r => I r.1) A :=
    ⟨fun r c => hk.keeps r.1 c, fun r c => hk.mem r.1 c⟩
  obtain ⟨text, hpieces, hloop, htext⟩ := hcounted.printLoop (s := (s, 0)) hps hint
    (Nat.le_refl format.length) hs (fun _ _ => rfl) hstars hoff hzero
  refine ⟨text, ?_, ?_, htext⟩
  · rw [npfVpprintf, vpprintfLoop_eq _ hps hint (Nat.le_refl _)]
    exact hpieces.count
  · rw [Sink.npfVpprintf, hloop, Sink.counted_puts, Nat.zero_add]
    rfl

/-! ## The buffer -/

/-- The buffer holds as much of the text as there is room for.  The induction is on the text, with
    the memory and the place in the buffer free. -/
theorem bufputc_puts (dst len : Nat) : ∀ (text : List UInt8) (m : Bytes) (cur : Nat),
    (text.foldl npfBufputc ⟨m, dst, len, cur⟩).mem = m.store (dst + cur) (text.take (len - cur))
  | [], m, cur => by
    rw [List.take_nil]
    rfl
  | c :: text, m, cur => by
    rw [List.foldl_cons, npfBufputc]
    dsimp only
    split
    · rename_i hroom
      obtain ⟨room, hlen⟩ : ∃ room, len - cur = room + 1 := ⟨len - cur - 1, by omega⟩
      have hnext : len - (cur + 1) = room := by omega
      rw [bufputc_puts dst len text, hlen, hnext, List.take_succ_cons]
      rfl
    · rename_i hfull
      have hnone : len - cur = 0 := by omega
      rw [bufputc_puts dst len text, hnone, List.take_zero, List.take_zero]

/-- The zero byte behind the text, or in place of its last byte. -/
theorem store_terminated (m : Bytes) (a : Nat) (text : List UInt8) {len : Nat} (hlen : len ≠ 0) :
    upd (m.store a (text.take len)) (w64 (a + min text.length (len - 1))) 0 =
      m.store a (text.take (len - 1) ++ [0]) := by
  rw [Bytes.store_append, List.length_take, Nat.min_comm (len - 1)]
  rcases Nat.lt_or_ge text.length len with hlt | hge
  · rw [List.take_of_length_le hlt.le, List.take_of_length_le (by omega)]
    rfl
  · have hlast : text.take len = text.take (len - 1) ++ [text[len - 1]] := by
      obtain ⟨n, rfl⟩ := Nat.exists_eq_succ_of_ne_zero hlen
      exact List.take_succ_eq_append_getElem (by omega)
    have hmin : min text.length (len - 1) = len - 1 := by omega
    rw [hlast, Bytes.store_append, List.length_take, Nat.min_comm (len - 1), hmin]
    funext x
    show upd (upd _ _ _) _ _ x = upd _ _ _ x
    unfold upd
    split <;> rfl

/-- The buffer of `npf_vsnprintf`, where there is one. -/
def InBuffer (buffer bufsz a : Nat) : Prop := buffer ≠ 0 ∧ buffer ≤ a ∧ a < buffer + bufsz

instance (buffer bufsz a : Nat) : Decidable (InBuffer buffer bufsz a) :=
  inferInstanceAs (Decidable (_ ∧ _ ∧ _))

/-- The caller of `npf_vsnprintf` changes its buffer only. -/
theorem bufputc_off {buffer bufsz : Nat} (hroom : buffer + bufsz ≤ 2 ^ 64) :
    Sink.Off ⟨if buffer ≠ 0 then npfBufputc else npfBufputcNop, BufputcCtx.mem⟩
      (fun ctx => ctx.dst = buffer ∧ ctx.len = bufsz) (InBuffer buffer bufsz) := by
  constructor
  · intro ctx c hctx
    dsimp only
    split
    · rw [npfBufputc]
      split <;> exact hctx
    · exact hctx
  · intro ctx c a ⟨hdst, hlen⟩ ha
    dsimp only
    split
    · rename_i hbuffer
      rw [npfBufputc]
      split
      · rename_i hcur
        refine upd_other fun haddr => ha ?_
        rw [haddr, w64_of_lt (by omega), InBuffer]
        omega
      · rfl
    · rfl

/-- What `npf_vsnprintf` leaves in memory. -/
theorem npfVsnprintf_eq {buffer bufsz : Nat} {format : List UInt8} {ps : List Piece}
    (hps : Reading format ps) (hint : IntFormat format) (hzero : 0 ∉ format)
    (hroom : buffer + bufsz ≤ 2 ^ 64) (hstars : StarsInt ps args)
    (hoff : StringsOff (InBuffer buffer bufsz) m ps args) :
    ∃ text, npfVpprintf m format args = countInt text.length (text, args.skip (slots ps)) ∧ 0 ∉ text ∧
      npfVsnprintf m buffer bufsz format args = countInt text.length
        (if buffer = 0 ∨ bufsz = 0 then m else m.store buffer (text.take (bufsz - 1) ++ [0]),
          (text.length : Int)) := by
  obtain ⟨text, htext, hrun, hnonzero⟩ := vpprintf_stream (bufputc_off hroom)
    (s := ⟨m, buffer, bufsz, 0⟩) ⟨rfl, rfl⟩ hps hint hzero hstars hoff
  refine ⟨text, htext, hnonzero, ?_⟩
  unfold npfVsnprintf
  dsimp only
  rw [hrun]
  unfold countInt
  split
  · dsimp only [Outcome.done_bind]
    -- a count is not negative
    rw [if_neg (show ¬ (text.length : Int) < 0 by omega), Int.toNat_natCast]
    by_cases hbuffer : buffer = 0
    · have hnop : ∀ (cs : List UInt8) (ctx : BufputcCtx),
          Sink.puts ⟨npfBufputcNop, BufputcCtx.mem⟩ ctx cs = ctx := by
        intro cs
        induction cs with
        | nil => exact fun _ => rfl
        | cons c cs ih => exact ih
      rw [if_neg fun h => h.1 hbuffer, if_pos (Or.inl hbuffer), if_neg (not_not.mpr hbuffer), hnop]
      rfl
    · have hputs : (Sink.puts ⟨npfBufputc, BufputcCtx.mem⟩ ⟨m, buffer, bufsz, 0⟩ text).mem =
          m.store buffer (text.take bufsz) := bufputc_puts buffer bufsz text m 0
      rw [if_pos hbuffer, hputs]
      by_cases hnone : bufsz = 0
      · rw [if_neg fun h => h.2 hnone, if_pos (Or.inr hnone), hnone]
        rfl
      · rw [if_pos ⟨hbuffer, hnone⟩, if_neg (not_or.mpr ⟨hbuffer, hnone⟩),
          store_terminated m buffer _ hnone]
        rfl
  · rfl

/-- **The contract of `npf_vsnprintf`.**  The result is the length of the whole text, whatever room
    there is.  The buffer holds as much of the text as fits, as a string, and all other memory is as
    it was.  Without a buffer, or without room, nothing is written.

    Of the format it is asked that its numbers are `int`s, of the arguments that those for field
    widths are not the least one, and of the strings that they end and lie outside the buffer, since
    the formatter reads them while it writes there.  The text itself is not bounded: where it has more
    bytes than an `int` counts, both functions overflow (`countInt`), and otherwise both return. -/
theorem vsnprintf_contract {buffer bufsz : Nat} {format : List UInt8} {ps : List Piece}
    (hps : Reading format ps) (hint : IntFormat format) (hzero : 0 ∉ format)
    (hroom : buffer + bufsz ≤ 2 ^ 64) (hstars : StarsInt ps args)
    (hoff : StringsOff (InBuffer buffer bufsz) m ps args) :
    ∃ text m', npfVpprintf m format args = countInt text.length (text, args.skip (slots ps)) ∧
      npfVsnprintf m buffer bufsz format args = countInt text.length (m', (text.length : Int)) ∧
      (buffer = 0 ∨ bufsz = 0 → m' = m) ∧
      (buffer ≠ 0 → bufsz ≠ 0 → m'.strlen buffer = min text.length (bufsz - 1) ∧
        (∀ i, ∀ h : i < text.length, i < bufsz - 1 → m' (buffer + i) = text[i]) ∧
        Bytes.SameOff ⟨buffer, min text.length (bufsz - 1) + 1⟩ m m') := by
  obtain ⟨text, htext, hnonzero, hrun⟩ := npfVsnprintf_eq hps hint hzero hroom hstars hoff
  refine ⟨text, _, htext, hrun, fun hnone => if_pos hnone, fun hbuffer hbufsz => ?_⟩
  rw [if_neg (not_or.mpr ⟨hbuffer, hbufsz⟩)]
  have hlen : (text.take (bufsz - 1)).length = min text.length (bufsz - 1) := by
    rw [List.length_take, Nat.min_comm]
  have hall : (text.take (bufsz - 1) ++ [0]).length = min text.length (bufsz - 1) + 1 := by
    rw [List.length_append, hlen]
    rfl
  refine ⟨?_, fun i hi hroom' => ?_, ?_⟩
  · rw [Bytes.strlen_store (fun h0 => hnonzero (List.mem_of_mem_take h0)) (by omega), hlen]
  · rw [Bytes.store_get (by omega) i (by omega), List.getElem_append_left (by omega),
      List.getElem_take]
  · refine Bytes.store_sameOff _ m buffer ?_
    rw [hall]
    exact Span.inside_prefix (Nat.le_refl _) (by omega)

/-- `%s`. -/
def stringPlain : Directive where
  flags := []
  width := .omitted
  precision := .omitted
  modifier := .none
  conv := 's'.toUInt8
  flags_proper := Directive.flags_none
  width_proper := trivial
  width_int := by decide
  precision_proper := trivial
  precision_int := Directive.precision_none
  conv_proper := by decide
  short := by decide

/-- A memory with the string `hi`. -/
def hiMem : Bytes := fun a => if a = 0x2000 then 'h'.toUInt8 else if a = 0x2001 then 'i'.toUInt8 else 0

theorem stringPlain_args (args : Args) : stringPlain.spec.starArgs args = (stringPlain.spec, args) := by
  rw [FormatSpec.starArgs, if_neg (by decide)]
  exact if_neg (by decide)

theorem stringPlain_negatable (args : Args) : stringPlain.spec.Negatable args :=
  fun h => absurd h (by decide)

/-- `%s` prints its string. -/
theorem stringPlain_text (m : Bytes) (args : Args) {len : Nat}
    (h : stringLength m stringPlain.spec (unsigned 64 (args 0)) = .done len) :
    npfVpprintf m ['%'.toUInt8, 's'.toUInt8] args = countInt len
      ((List.range len).map fun i => m (w64 (unsigned 64 (args 0) + i)), args.next) := by
  have hps : Reading ['%'.toUInt8, 's'.toUInt8] [.directive stringPlain] :=
    Reading.directive (d := stringPlain) .nil
  have hdefaults : stringPlain.spec.defaults = stringPlain.spec := by decide
  have hconv : convert m stringPlain.spec args =
      .done (⟨stringPlain.spec, (List.range len).map fun i => m (w64 (unsigned 64 (args 0) + i)), 0, 0,
        false⟩, args.next) := by
    unfold convert
    rw [show stringPlain.spec.convSpec = .string by decide]
    dsimp only
    rw [h]
    rfl
  have htext : ∀ bs, Converted.text ⟨stringPlain.spec, bs, 0, 0, false⟩ = bs := by
    intro bs
    have hfront : Converted.front ⟨stringPlain.spec, bs, 0, 0, false⟩ = [] := rfl
    have hback : Converted.back ⟨stringPlain.spec, bs, 0, 0, false⟩ = [] := rfl
    rw [Converted.text, hfront, hback, List.append_nil]
    rfl
  have hprint : printDirective m stringPlain.spec args = countInt len
      ((List.range len).map fun i => m (w64 (unsigned 64 (args 0) + i)), args.next) := by
    rw [printDirective_eq m (stringPlain_negatable args), stringPlain_args, hdefaults, hconv]
    dsimp only [Outcome.done_bind]
    rw [htext, List.length_map, List.length_range]
  rw [npfVpprintf, vpprintfLoop_eq m hps (.of_length (by decide)) (Nat.le_refl _), printPieces, hprint]
  unfold countInt
  split
  · dsimp only [Outcome.done_bind, printPieces, Outcome.pure_eq]
    rw [List.append_nil, List.length_map, List.length_range, if_pos ‹_›]
  · rfl

theorem hiMem_length : stringLength hiMem stringPlain.spec (unsigned 64 0x2000) = .done 2 := by
  refine Outcome.loop_count_of (Nat.zero_le 2) (by decide) (by decide) fun i _ hi => ?_
  interval_cases i <;> decide

theorem hiMem_off : StringsOff (InBuffer 0x1000 2) hiMem [.directive stringPlain] fun _ => 0x2000 := by
  have hdefaults : stringPlain.spec.defaults = stringPlain.spec := by decide
  refine ⟨fun _ => ?_, trivial⟩
  rw [stringPlain_args, hdefaults]
  refine ⟨2, hiMem_length, fun i hi _ _ => ?_⟩
  interval_cases i <;> decide

/-- Of `hi` the first letter fits into a buffer of two bytes. -/
theorem vsnprintf_contract_hi : ∃ m',
    npfVsnprintf hiMem 0x1000 2 ['%'.toUInt8, 's'.toUInt8] (fun _ => 0x2000) = .done (m', 2) ∧
      m'.strlen 0x1000 = 1 ∧ m' 0x1000 = 'h'.toUInt8 := by
  have hps : Reading ['%'.toUInt8, 's'.toUInt8] [.directive stringPlain] :=
    Reading.directive (d := stringPlain) .nil
  obtain ⟨text, m', htext, hrun, -, hbuffer⟩ := vsnprintf_contract hps (.of_length (by decide))
    (by decide) (by decide) ⟨stringPlain_negatable _, trivial⟩ hiMem_off
  have hknown := stringPlain_text hiMem (fun _ => 0x2000) hiMem_length
  rw [htext, countInt_of_lt (show 2 < 2 ^ 31 by decide)] at hknown
  obtain rfl : text = ['h'.toUInt8, 'i'.toUInt8] :=
    (Prod.mk.inj (countInt_done hknown).2).1.trans (by decide)
  obtain ⟨hlen, hbytes, -⟩ := hbuffer (by decide) (by decide)
  exact ⟨m', hrun, hlen, hbytes 0 (by decide) (by decide)⟩

end Nearlands.Npf
