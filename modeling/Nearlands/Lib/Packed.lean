/-
  Packed records in byte memory.

  A `Layout` says where the fields of a record lie: at different offsets below its size.  `get` and
  `set` read and write a field of the record at an address, little-endian.  A record that is written
  is one of several that are the same or share no byte (`Clean`), and then a write is seen by its
  field alone (`get_set`); a write elsewhere is not seen at all (`get_sameOff`).
-/
import Nearlands.Lib.Bytes

namespace Nearlands.Lib

namespace Bytes

/-- A list is stored inside its span.  The frame of a store, as those of a fill and a copy. -/
theorem store_sameOff {r : Region} : ∀ (bs : List UInt8) (m : Bytes) (a : Nat),
    Span.Inside ⟨a, bs.length⟩ r → SameOff r m (m.store a bs)
  | [], m, _, _ => SameOff.refl m
  | b :: bs, m, a, h => by
    have hfirst : SameOff r m (upd m (w64 a) b) :=
      (SameOff.refl m).upd (h 0 (Nat.succ_pos bs.length)) b
    refine hfirst.trans (store_sameOff bs _ (a + 1) fun j hj => ?_)
    have := h (j + 1) (Nat.succ_lt_succ hj)
    rwa [show a + (j + 1) = a + 1 + j by omega] at this

/-- A number stored is read, as far as it fits.  The upper bytes of a larger number are lost, which
    is the `%` on the right. -/
theorem read_store : ∀ (n x : Nat) (m : Bytes) (a : Nat), a + n ≤ 2 ^ 64 →
    (m.store a (ofNat x n)).read a n = x % 256 ^ n
  | 0, x, _, _, _ => by rw [read, Nat.pow_zero, Nat.mod_one]
  | n + 1, x, m, a, hfit => by
    have hbyte : store (upd m (w64 a) (UInt8.ofNat x)) (a + 1) (ofNat (x / 256) n) (w64 a) =
        UInt8.ofNat x := by
      rw [w64_of_lt (by omega), store_below (by rw [length_ofNat]; omega) (Nat.lt_succ_self a),
        upd_same]
    rw [ofNat, store, read, hbyte, read_store n _ _ (a + 1) (by omega), Nat.pow_succ,
      Nat.mul_comm (256 ^ n), Nat.mod_mul, UInt8.toNat_ofNat']

end Bytes

/-- Where the fields of a record lie.  The two proofs are fields, so that no layout with overlapping
    fields can be written down; for the records of the source they are decided. -/
structure Layout (ι : Type) where
  offset : ι → Nat
  size : ι → Nat
  total : Nat
  inside : ∀ f, offset f + size f ≤ total
  apart : ∀ f g, f ≠ g → offset f + size f ≤ offset g ∨ offset g + size g ≤ offset f

namespace Layout

variable {ι : Type} (L : Layout ι) {m m' : Bytes} {x y v : Nat} {f g : ι}

/-- Field `f` of the record at `x`.  The address is not assumed to be in memory that anybody has;
    that comes in with the frames. -/
def get (m : Bytes) (x : Nat) (f : ι) : Nat := m.read (x + L.offset f) (L.size f)

/-- Write field `f` of the record at `x`.  The value is cut to the size of the field. -/
def set (m : Bytes) (x : Nat) (f : ι) (v : Nat) : Bytes :=
  m.store (x + L.offset f) (Bytes.ofNat v (L.size f))

/-- The bytes of a record. -/
def region (x : Nat) : Region := ⟨x, L.total⟩

/-- The records are the same, or share no byte.  Two records that overlap in part are excluded, and
    with them all casts of one structure to another. -/
def Clean (x y : Nat) : Prop := x = y ∨ (L.region x).Apart (L.region y)

variable {L}

/-- Writing a field writes in its bytes.  This is finer than the frame of the record, and is what
    keeps the other fields. -/
theorem set_field (hx : x + L.total ≤ 2 ^ 64) (m : Bytes) (f : ι) (v : Nat) :
    Bytes.SameOff ⟨x + L.offset f, L.size f⟩ m (L.set m x f v) := by
  have hin := L.inside f
  refine Bytes.store_sameOff _ m _ ?_
  rw [Bytes.length_ofNat]
  exact Span.inside_prefix (Nat.le_refl _) (by omega)

/-- And so in the bytes of the record. -/
theorem set_sameOff (hx : x + L.total ≤ 2 ^ 64) (m : Bytes) (f : ι) (v : Nat) :
    Bytes.SameOff (L.region x) m (L.set m x f v) := by
  intro a ha
  have hin := L.inside f
  refine set_field hx m f v a fun hhas => ha ?_
  rw [Region.Has] at hhas
  rw [Region.Has, region]
  dsimp only at hhas ⊢
  omega

/-- A field is read from its bytes.  The region written may be a part of the same record. -/
theorem get_of_field {r : Region} (h : Bytes.SameOff r m m') (hx : x + L.total ≤ 2 ^ 64)
    (hapart : Region.Apart ⟨x + L.offset f, L.size f⟩ r) : L.get m' x f = L.get m x f := by
  have hin := L.inside f
  refine Bytes.SameOn.read fun j hj => ?_
  dsimp only at hj
  rw [w64_of_lt (by dsimp only; omega)]
  exact h _ (hapart.not_has ⟨Nat.le_add_right _ j, Nat.add_lt_add_left hj _⟩)

/-- A record is read from its bytes.  The memories need not be related otherwise, for example when
    one of them is a file and the other its copy. -/
theorem get_congr (hx : x + L.total ≤ 2 ^ 64) (h : ∀ a, (L.region x).Has a → m' a = m a) (f : ι) :
    L.get m' x f = L.get m x f := by
  have hin := L.inside f
  refine Bytes.SameOn.read fun j hj => ?_
  dsimp only at hj
  rw [w64_of_lt (by dsimp only; omega)]
  refine h _ ⟨?_, ?_⟩
  · rw [region]
    dsimp only
    omega
  · rw [region]
    dsimp only
    omega

/-- What is written elsewhere is not seen. -/
theorem get_sameOff {r : Region} (h : Bytes.SameOff r m m') (hx : x + L.total ≤ 2 ^ 64)
    (hapart : (L.region x).Apart r) (f : ι) : L.get m' x f = L.get m x f :=
  get_congr hx (fun _ ha => h _ (hapart.not_has ha)) f

/-- The field that is written. -/
theorem get_set_same (hx : x + L.total ≤ 2 ^ 64) (m : Bytes) (f : ι) (v : Nat) :
    L.get (L.set m x f v) x f = v % 256 ^ L.size f := by
  have hin := L.inside f
  exact Bytes.read_store _ _ _ _ (by omega)

/-- Another field of the record. -/
theorem get_set_field (hx : x + L.total ≤ 2 ^ 64) (m : Bytes) (v : Nat) (hne : g ≠ f) :
    L.get (L.set m x f v) x g = L.get m x g := by
  refine get_of_field (set_field hx m f v) hx ?_
  have hapart := L.apart g f hne
  rw [Region.Apart]
  dsimp only
  omega

/-- **A write is seen by its field alone.** With one equation for all fields of all records, a
    function that writes several fields is understood by rewriting. -/
theorem get_set [DecidableEq ι] (hx : x + L.total ≤ 2 ^ 64) (hy : y + L.total ≤ 2 ^ 64)
    (hclean : L.Clean x y) (m : Bytes) (f : ι) (v : Nat) (g : ι) :
    L.get (L.set m x f v) y g = if y = x ∧ g = f then v % 256 ^ L.size f else L.get m y g := by
  by_cases hyx : y = x
  · subst hyx
    by_cases hgf : g = f
    · subst hgf
      rw [if_pos ⟨rfl, rfl⟩, get_set_same hy]
    · rw [if_neg fun h => hgf h.2, get_set_field hy m v hgf]
  · rw [if_neg fun h => hyx h.1]
    refine get_sameOff (set_sameOff hx m f v) hy ?_ g
    exact (hclean.resolve_left fun h => hyx h.symm).symm

end Layout

end Nearlands.Lib
