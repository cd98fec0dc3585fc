/-
  Memory as bytes.

  A memory gives the byte at every 64-bit address, and addresses wrap: byte `j` of what begins at
  `base` is at `w64 (base + j)`.  `memset`, `memcpy`, `memcmp` and `strlen` are the loops of C.

  An access is a `Span`, and `Inside` says that all its bytes lie in a region.  A region that does
  not hold the address 0 cannot be left by wrapping around, so for such regions `Inside` is linear
  arithmetic (`inside_iff`).  `SameOff r` is the frame condition: what was written was written in
  `r`, and whatever is read off `r` reads as before (`SameOn`).  Between two accesses the condition
  is `Clear`: they share no byte.
-/
import Nearlands.Lib.Word
import Nearlands.Lib.Region
import Nearlands.Lib.DList

namespace Nearlands.Lib

/-- The byte at every address.  All of memory, whoever it belongs to: which part of it a function
    may touch is said by frames, not by the type. -/
abbrev Bytes := Nat → UInt8

namespace Bytes

/-- The little-endian number of the `n` bytes at `a`.  Each byte is looked up at its own wrapped
    address, so a number may lie across the end of the address space. -/
def read (m : Bytes) (a : Nat) : Nat → Nat
  | 0 => 0
  | n + 1 => (m (w64 a)).toNat + 256 * read m (a + 1) n

/-- `memset(dst, c, n)`.  The recursion is from the end, so that the last byte written is the
    outermost update; the order is not visible. -/
def memset (m : Bytes) (dst : Nat) (c : UInt8) : Nat → Bytes
  | 0 => m
  | n + 1 => upd (memset m dst c n) (w64 (dst + n)) c

/-- `memcpy(dst, src, n)`, byte by byte upwards.  Where source and destination overlap, a byte may
    be read after it was overwritten, as in a loop in C; the lemmas about copies say when that does
    not happen. -/
def memcpy (m : Bytes) (dst src : Nat) : Nat → Bytes
  | 0 => m
  | n + 1 => upd (memcpy m dst src n) (w64 (dst + n)) (memcpy m dst src n (w64 (src + n)))

/-- The `n` bytes of a number, little-endian.  Of a number with more bytes the upper ones are cut,
    as in an assignment to a narrower field. -/
def ofNat (x : Nat) : Nat → List UInt8
  | 0 => []
  | n + 1 => UInt8.ofNat x :: ofNat (x / 256) n

/-- The bytes of `bs` stored at `a`.  It is how a structure is laid out in memory that the program
    did not write byte by byte, such as a file or a table of constants. -/
def store (m : Bytes) (a : Nat) : List UInt8 → Bytes
  | [] => m
  | b :: bs => store (upd m (w64 a) b) (a + 1) bs

/-- `memcmp(p, s, n)` with a constant `s` of `n` bytes.  Only the constants of the source are
    compared, so the second operand is a list and not memory. -/
def memcmp (m : Bytes) (p : Nat) : List UInt8 → Int
  | [] => 0
  | c :: cs => if m (w64 p) = c then memcmp m (p + 1) cs else if m (w64 p) < c then -1 else 1

/-- How many bytes at `p` `memcmp` looks at.  It stops at the first difference; the addresses behind
    that are not read. -/
def memcmpReads (m : Bytes) (p : Nat) : List UInt8 → Nat
  | [] => 0
  | c :: cs => if m (w64 p) = c then memcmpReads m (p + 1) cs + 1 else 1

/-- The bytes before the first zero byte, of `fuel` bytes.  A string without a zero byte has the
    length `fuel`, which is how an endless loop shows. -/
def strlenUpTo (m : Bytes) (p : Nat) : Nat → Nat
  | 0 => 0
  | fuel + 1 => if m (w64 p) = 0 then 0 else strlenUpTo m (p + 1) fuel + 1

/-- `strlen(p)`; there are `2 ^ 64` bytes to look at. -/
def strlen (m : Bytes) (p : Nat) : Nat := strlenUpTo m p (2 ^ 64)

/-- As many bytes as were asked for. -/
theorem length_ofNat : ∀ (n x : Nat), (ofNat x n).length = n
  | 0, _ => rfl
  | n + 1, x => congrArg (· + 1) (length_ofNat n (x / 256))

/-- A field of `n` bytes holds a number below `256 ^ n`; the bounds of all header fields come from
    here. -/
theorem read_lt (m : Bytes) : ∀ n a, m.read a n < 256 ^ n := by
  intro n
  induction n with
  | zero =>
    intro _
    exact Nat.one_pos
  | succ n ih =>
    intro a
    have hbyte : (m (w64 a)).toNat < 256 := (m (w64 a)).toNat_lt
    have hrest := ih (a + 1)
    rw [read, Nat.pow_succ]
    omega

/-- Equality with the constant takes all its bytes. -/
theorem memcmpReads_of_eq {m : Bytes} : ∀ {cs : List UInt8} {p : Nat},
    m.memcmp p cs = 0 → m.memcmpReads p cs = cs.length := by
  intro cs
  induction cs with
  | nil =>
    intro _ _
    rfl
  | cons c cs ih =>
    intro p h
    rw [memcmp] at h
    rw [memcmpReads]
    split at h
    · rename_i hc
      rw [if_pos hc, ih h]
      rfl
    · split at h <;> exact absurd h (by decide)

/-- Never more bytes are read than the constant has. -/
theorem memcmpReads_le (m : Bytes) : ∀ (cs : List UInt8) (p : Nat),
    m.memcmpReads p cs ≤ cs.length := by
  intro cs
  induction cs with
  | nil =>
    intro _
    exact Nat.le_refl _
  | cons c cs ih =>
    intro p
    have hrest := ih (p + 1)
    rw [memcmpReads, List.length_cons]
    split <;> omega

/-- The string ends with the first zero byte.  So a bound on the length is a zero byte below it,
    wherever else there are more. -/
theorem strlenUpTo_lt_iff (m : Bytes) : ∀ (fuel p k : Nat), k ≤ fuel →
    (m.strlenUpTo p fuel < k ↔ ∃ j < k, m (w64 (p + j)) = 0)
  | 0, p, k, hk => by
    obtain rfl : k = 0 := Nat.le_zero.mp hk
    simp
  | fuel + 1, p, 0, _ => by simp
  | fuel + 1, p, k + 1, hk => by
    have ih := strlenUpTo_lt_iff m fuel (p + 1) k (Nat.le_of_succ_le_succ hk)
    rw [strlenUpTo]
    rcases eq_or_ne (m (w64 p)) 0 with h0 | h0
    · rw [if_pos h0]
      exact ⟨fun _ => ⟨0, Nat.succ_pos k, h0⟩, fun _ => Nat.succ_pos k⟩
    · rw [if_neg h0, Nat.add_lt_add_iff_right, ih]
      constructor
      · rintro ⟨j, hj, hz⟩
        exact ⟨j + 1, Nat.succ_lt_succ hj, by rw [← hz]; congr 2; omega⟩
      · rintro ⟨j, hj, hz⟩
        cases j with
        | zero => exact absurd hz h0
        | succ j => exact ⟨j, Nat.lt_of_succ_lt_succ hj, by rw [← hz]; congr 2; omega⟩

end Bytes

/-! ## Accesses -/

/-- An access: `size` bytes from `base` on.  It is not a `Region`, because the bytes behind the end
    of the address space are those at its beginning. -/
structure Span where
  base : Nat
  size : Nat
  deriving DecidableEq, Repr

namespace Span

/-- All bytes of the access lie in the region.  Membership is asked byte by byte, at wrapped
    addresses. -/
def Inside (s : Span) (r : Region) : Prop := ∀ j < s.size, r.Has (w64 (s.base + j))

/-- No byte of the access lies in the region. -/
def Off (s : Span) (r : Region) : Prop := ∀ j < s.size, ¬ r.Has (w64 (s.base + j))

/-- Inside a region that does not hold the address 0 there is no wrapping around.  Address 0 would
    have to be one of the bytes of a wrapped access.  This is the lemma that turns a statement about
    all bytes into a comparison of two ends. -/
theorem inside_iff {s : Span} {r : Region} (h0 : 0 < r.base) (hr : r.base + r.size ≤ 2 ^ 64) :
    s.Inside r ↔
      s.size = 0 ∨ r.base ≤ w64 s.base ∧ w64 s.base + s.size ≤ r.base + r.size := by
  have hb : w64 s.base < 2 ^ 64 := w64_lt _
  have hw : ∀ j, w64 (s.base + j) = w64 (w64 s.base + j) := fun j => (w64_add_w64 _ _).symm
  constructor
  · intro h
    rcases Nat.eq_zero_or_pos s.size with hz | hz
    · exact Or.inl hz
    · obtain ⟨hlo, hhi⟩ := h 0 hz
      rw [Nat.add_zero] at hlo hhi
      refine Or.inr ⟨hlo, ?_⟩
      by_contra hlt
      -- the first byte behind the region
      obtain ⟨h1, h2⟩ := h (r.base + r.size - w64 s.base) (by omega)
      rw [hw, show w64 s.base + (r.base + r.size - w64 s.base) = r.base + r.size by omega] at h1 h2
      rcases Nat.lt_or_ge (r.base + r.size) (2 ^ 64) with h64 | h64
      · rw [w64_of_lt h64] at h2
        omega
      · rw [show r.base + r.size = 2 ^ 64 by omega] at h1
        exact absurd h1 (by rw [show w64 (2 ^ 64) = 0 from rfl]; omega)
  · rintro (hz | ⟨hlo, hhi⟩) j hj
    · omega
    · rw [hw, w64_of_lt (by omega)]
      constructor <;> omega

/-- The first bytes of a region that ends in the address space.  As a structure of `n` bytes at the
    beginning of a buffer. -/
theorem inside_prefix {base n size : Nat} (hn : n ≤ size) (hfit : base + size ≤ 2 ^ 64) :
    Span.Inside ⟨base, n⟩ ⟨base, size⟩ := by
  intro j hj
  dsimp only at hj
  rw [w64_of_lt (by dsimp only; omega)]
  exact ⟨Nat.le_add_right base j, Nat.add_lt_add_left (Nat.lt_of_lt_of_le hj hn) base⟩

/-- The accesses share no byte.  It is symmetric in what it says, but stated with the access that
    writes on the left. -/
def Clear (s t : Span) : Prop := ∀ j < s.size, ∀ k < t.size, w64 (s.base + j) ≠ w64 (t.base + k)

/-- The accesses do not wrap around, and one lies behind the other.  A decidable condition that is
    enough for `Clear`, for accesses whose addresses are known. -/
def Apart (s t : Span) : Prop :=
  s.base + s.size ≤ 2 ^ 64 ∧ t.base + t.size ≤ 2 ^ 64 ∧
    Region.Apart ⟨s.base, s.size⟩ ⟨t.base, t.size⟩

instance (s t : Span) : Decidable (s.Apart t) := inferInstanceAs (Decidable (_ ∧ _ ∧ _))

/-- Accesses that do not wrap and lie one behind the other share no byte. -/
theorem Apart.clear {s t : Span} (h : s.Apart t) : s.Clear t := by
  intro j hj k hk
  obtain ⟨hs, ht, hapart⟩ := h
  rw [w64_of_lt (by omega), w64_of_lt (by omega)]
  rcases hapart with hle | hle
  · exact Nat.ne_of_lt (by dsimp only at hle; omega)
  · exact Nat.ne_of_gt (by dsimp only at hle; omega)

/-- A part of what is written, and a part of what is kept.  The fields of a header are such parts of
    it, at an offset `k`. -/
theorem Clear.mono {s s' t t' : Span} (h : s.Clear t) {k : Nat} (hb : s'.base = s.base)
    (hs : s'.size ≤ s.size) (hb' : t'.base = t.base + k) (ht : k + t'.size ≤ t.size) :
    s'.Clear t' := by
  intro j hj l hl
  rw [hb, hb', Nat.add_assoc]
  exact h j (by omega) (k + l) (by omega)

/-- Without the last byte.  What the induction over the bytes of an access needs. -/
theorem Inside.init {base size : Nat} {r : Region} (h : Span.Inside ⟨base, size + 1⟩ r) :
    Span.Inside ⟨base, size⟩ r := by
  intro j hj
  exact h j (Nat.lt_succ_of_lt hj)

end Span

/-! ## Frames -/

namespace Bytes

/-- The memories agree off the region.  It says where a function may write, and nothing about what
    it writes there. -/
def SameOff (r : Region) (m m' : Bytes) : Prop := ∀ a, ¬ r.Has a → m' a = m a

/-- The memories agree on the bytes of an access.  It says what a reader is promised;
    `SameOff.sameOn` makes one from the other. -/
def SameOn (s : Span) (m m' : Bytes) : Prop :=
  ∀ j < s.size, m' (w64 (s.base + j)) = m (w64 (s.base + j))

section frames

variable {r : Region} {m m' m'' : Bytes} {a dst src n : Nat}

/-- Doing nothing keeps everything. -/
theorem SameOff.refl (m : Bytes) : SameOff r m m := fun _ _ => rfl

/-- Frames compose: two functions that write in one region do so together. -/
theorem SameOff.trans (h : SameOff r m m') (h' : SameOff r m' m'') : SameOff r m m'' :=
  fun a ha => (h' a ha).trans (h a ha)

/-- One byte written inside the region. -/
theorem SameOff.upd (h : SameOff r m m') (ha : r.Has a) (v : UInt8) :
    SameOff r m (upd m' a v) := by
  intro x hx
  have hne : x ≠ a := by
    rintro rfl
    exact hx ha
  rw [upd_other hne]
  exact h x hx

/-- A fill inside the region writes nowhere else. -/
theorem memset_sameOff (m : Bytes) (c : UInt8) : ∀ {n : Nat}, Span.Inside ⟨dst, n⟩ r →
    SameOff r m (m.memset dst c n)
  | 0, _ => SameOff.refl m
  | n + 1, h => (memset_sameOff m c h.init).upd (h n (Nat.lt_succ_self n)) c

/-- So does a copy, whatever its source is. -/
theorem memcpy_sameOff (m : Bytes) (src : Nat) : ∀ {n : Nat}, Span.Inside ⟨dst, n⟩ r →
    SameOff r m (m.memcpy dst src n)
  | 0, _ => SameOff.refl m
  | n + 1, h => (memcpy_sameOff m src h.init).upd (h n (Nat.lt_succ_self n)) _

/-- What is off the region that was written reads as before. -/
theorem SameOff.sameOn {s : Span} (h : SameOff r m m') (hoff : s.Off r) : SameOn s m m' :=
  fun j hj => h _ (hoff j hj)

/-- One function after the other. -/
theorem SameOn.trans {s : Span} (h : SameOn s m m') (h' : SameOn s m' m'') : SameOn s m m'' :=
  fun j hj => (h' j hj).trans (h j hj)

/-- A part of an access.  If a whole header reads as before, so does each of its fields. -/
theorem SameOn.mono {s t : Span} (h : SameOn s m m') {k : Nat} (hb : t.base = s.base + k)
    (hk : k + t.size ≤ s.size) : SameOn t m m' := by
  intro j hj
  rw [hb, Nat.add_assoc]
  exact h (k + j) (by omega)

/-- A number that is read.  A field that nothing has overwritten has its old value. -/
theorem SameOn.read : ∀ {n a : Nat}, SameOn ⟨a, n⟩ m m' → m'.read a n = m.read a n := by
  intro n
  induction n with
  | zero =>
    intro _ _
    rfl
  | succ n ih =>
    intro a h
    have hrest : SameOn ⟨a + 1, n⟩ m m' := h.mono (k := 1) rfl (Nat.le_of_eq (Nat.add_comm 1 n))
    have hfirst : m' (w64 a) = m (w64 a) := h 0 (Nat.succ_pos n)
    rw [Bytes.read, Bytes.read, ih hrest, hfirst]

/-- A comparison.  The name of a section compares as before while its bytes are the same. -/
theorem SameOn.memcmp : ∀ {cs : List UInt8} {p : Nat}, SameOn ⟨p, cs.length⟩ m m' →
    m'.memcmp p cs = m.memcmp p cs := by
  intro cs
  induction cs with
  | nil =>
    intro _ _
    rfl
  | cons c cs ih =>
    intro p h
    have hrest : SameOn ⟨p + 1, cs.length⟩ m m' :=
      h.mono (k := 1) rfl (Nat.le_of_eq (Nat.add_comm 1 cs.length))
    have hfirst : m' (w64 p) = m (w64 p) := h 0 (Nat.succ_pos cs.length)
    rw [Bytes.memcmp, Bytes.memcmp, ih hrest, hfirst]

/-! What a fill and a copy leave, wherever they begin. -/

/-- A fill keeps what it has no byte in common with. -/
theorem memset_sameOn {s : Span} (m : Bytes) (c : UInt8) : ∀ {n : Nat}, Span.Clear ⟨dst, n⟩ s →
    SameOn s m (m.memset dst c n)
  | 0, _ => fun _ _ => rfl
  | n + 1, h => by
    intro j hj
    rw [memset, upd_other (h n (Nat.lt_succ_self n) j hj).symm]
    exact memset_sameOn (n := n) m c (h.mono (k := 0) rfl (Nat.le_succ n) rfl (by omega)) j hj

/-- So does a copy. -/
theorem memcpy_sameOn {s : Span} (m : Bytes) (src : Nat) : ∀ {n : Nat}, Span.Clear ⟨dst, n⟩ s →
    SameOn s m (m.memcpy dst src n)
  | 0, _ => fun _ _ => rfl
  | n + 1, h => by
    intro j hj
    rw [memcpy, upd_other (h n (Nat.lt_succ_self n) j hj).symm]
    exact memcpy_sameOn (n := n) m src (h.mono (k := 0) rfl (Nat.le_succ n) rfl (by omega)) j hj

/-- A byte that was filled. -/
theorem memset_at (m : Bytes) (c : UInt8) : ∀ {n j : Nat}, j < n →
    m.memset dst c n (w64 (dst + j)) = c
  | 0, j, hj => absurd hj (Nat.not_lt_zero j)
  | n + 1, j, hj => by
    rw [memset]
    by_cases heq : w64 (dst + j) = w64 (dst + n)
    · rw [heq, upd_same]
    · have hne : j ≠ n := fun h => heq (by rw [h])
      rw [upd_other heq, memset_at m c (by omega)]

/-- A byte that was copied. -/
theorem memcpy_at (m : Bytes) : ∀ {n j : Nat}, n ≤ 2 ^ 64 → Span.Clear ⟨dst, n⟩ ⟨src, n⟩ → j < n →
    m.memcpy dst src n (w64 (dst + j)) = m (w64 (src + j))
  | 0, j, _, _, hj => absurd hj (Nat.not_lt_zero j)
  | n + 1, j, hn, h, hj => by
    rw [memcpy]
    rcases Nat.lt_succ_iff_lt_or_eq.mp hj with hj | rfl
    · have hne : w64 (dst + j) ≠ w64 (dst + n) := by
        rw [w64, w64]
        omega
      rw [upd_other hne]
      exact memcpy_at m (by omega) (h.mono (k := 0) rfl (Nat.le_succ n) rfl (by
        show 0 + n ≤ n + 1
        omega)) hj
    · -- the last byte of the source is still the old one
      rw [upd_same]
      exact memcpy_sameOn (n := j) (s := ⟨src, j + 1⟩) m src
        (h.mono (k := 0) rfl (Nat.le_succ j) rfl (Nat.le_of_eq (Nat.zero_add _))) j
        (Nat.lt_succ_self j)

/-! What a fill and a copy leave at their destination, which does not wrap around. -/

/-- Every byte of a fill holds the value. -/
theorem memset_get (m : Bytes) (c : UInt8) : ∀ {n : Nat}, dst + n ≤ 2 ^ 64 → ∀ j, j < n →
    m.memset dst c n (dst + j) = c
  | 0, _, j, hj => absurd hj (Nat.not_lt_zero j)
  | n + 1, hfit, j, hj => by
    rw [memset, w64_of_lt (by omega)]
    rcases Nat.lt_succ_iff_lt_or_eq.mp hj with hj | rfl
    · rw [upd_other (by omega)]
      exact memset_get m c (by omega) j hj
    · exact upd_same

/-- Every byte of a copy is the one of the source, if the two areas do not overlap; the copy would
    otherwise read what it has written. -/
theorem memcpy_get (m : Bytes) : ∀ {n : Nat}, dst + n ≤ 2 ^ 64 → src + n ≤ 2 ^ 64 →
    Region.Apart ⟨dst, n⟩ ⟨src, n⟩ → ∀ j, j < n → m.memcpy dst src n (dst + j) = m (src + j)
  | 0, _, _, _, j, hj => absurd hj (Nat.not_lt_zero j)
  | n + 1, hdst, hsrc, hapart, j, hj => by
    rw [Region.Apart] at hapart
    dsimp only at hapart
    rw [memcpy, w64_of_lt (by omega), w64_of_lt (by omega)]
    rcases Nat.lt_succ_iff_lt_or_eq.mp hj with hj | rfl
    · rw [upd_other (by omega)]
      refine memcpy_get m (by omega) (by omega) ?_ j hj
      rw [Region.Apart]
      dsimp only
      omega
    · -- the last byte of the source is still the old one
      rw [upd_same]
      refine memcpy_sameOff m src (Span.inside_prefix (Nat.le_refl j) (by omega)) (src + j) ?_
      rw [Region.Has]
      dsimp only
      omega

/-- A list stored does not reach below its address. -/
theorem store_below {x : Nat} : ∀ {bs : List UInt8} {m : Bytes} {a : Nat},
    a + bs.length ≤ 2 ^ 64 → x < a → m.store a bs x = m x
  | [], _, _, _, _ => rfl
  | b :: bs, m, a, hfit, hx => by
    rw [List.length_cons] at hfit
    rw [store, store_below (by omega) (by omega), w64_of_lt (by omega), upd_other (by omega)]

/-- And it is found there. -/
theorem store_get : ∀ {bs : List UInt8} {m : Bytes} {a : Nat}, a + bs.length ≤ 2 ^ 64 →
    ∀ k, ∀ h : k < bs.length, m.store a bs (a + k) = bs[k]
  | [], _, _, _, k, h => absurd h (Nat.not_lt_zero k)
  | b :: bs, m, a, hfit, k, h => by
    rw [List.length_cons] at hfit
    rw [store]
    cases k with
    | zero =>
      rw [store_below (by omega) (by omega), w64_of_lt (by omega), Nat.add_zero, upd_same]
      rfl
    | succ k =>
      rw [show a + (k + 1) = a + 1 + k by omega]
      exact store_get (by omega) k (Nat.lt_of_succ_lt_succ h)

/-- The first zero byte is the end of the string.  The two hypotheses are what one knows of a string
    that was found in memory; there is no other way to say that it ends. -/
theorem strlen_eq {p : Nat} (hn : n < 2 ^ 64) (hend : m (w64 (p + n)) = 0)
    (hall : ∀ i < n, m (w64 (p + i)) ≠ 0) : m.strlen p = n := by
  have hlt : m.strlen p < n + 1 := (strlenUpTo_lt_iff m (2 ^ 64) p (n + 1) hn).mpr
    ⟨n, Nat.lt_succ_self n, hend⟩
  refine Nat.le_antisymm (Nat.le_of_lt_succ hlt) (Nat.le_of_not_lt fun hless => ?_)
  obtain ⟨i, hi, hzero⟩ := (strlenUpTo_lt_iff m (2 ^ 64) p n hn.le).mp hless
  exact hall i hi hzero

/-- A list without a zero byte is a string, once a zero byte stands behind it. -/
theorem strlen_store {bs : List UInt8} (hbs : 0 ∉ bs) (hfit : a + bs.length < 2 ^ 64) :
    (m.store a (bs ++ [0])).strlen a = bs.length := by
  have hlen : (bs ++ [0]).length = bs.length + 1 := by simp
  have hget := store_get (m := m) (a := a) (show a + (bs ++ [0]).length ≤ 2 ^ 64 by omega)
  refine strlen_eq (by omega) ?_ fun i hi => ?_
  · rw [w64_of_lt hfit, hget bs.length (by omega), List.getElem_append_right (Nat.le_refl _)]
    simp
  · rw [w64_of_lt (by omega), hget i (by omega), List.getElem_append_left hi]
    exact fun hzero => hbs (hzero ▸ List.getElem_mem hi)

/-- Two lists stored one behind the other. -/
theorem store_append (m : Bytes) : ∀ (xs ys : List UInt8) (a : Nat),
    m.store a (xs ++ ys) = (m.store a xs).store (a + xs.length) ys := by
  intro xs
  induction xs generalizing m with
  | nil => exact fun _ _ => rfl
  | cons x xs ih =>
    intro ys a
    rw [List.cons_append, store, store, ih, List.length_cons]
    congr 1
    omega

end frames

end Bytes

end Nearlands.Lib
