/-
  Half-open intervals of addresses.

  A `Region` is the interval `[base, base + size)` of a flat address space.  `Apart` orders two
  regions, one entirely below the other: for nonempty regions this is disjointness, and it is
  linear arithmetic, so `omega` composes it with inclusions.  A family of regions inside
  `[0, n)` that are pairwise apart has total size at most `n` (`sum_size_le`), the counting
  fact behind every "the map cannot describe more memory than there is" argument.
-/
import Mathlib.Algebra.Ring.Nat
import Mathlib.Data.Finset.Card
import Mathlib.Data.List.Pairwise
import Mathlib.Order.Interval.Finset.Nat

namespace Nearlands.Lib

/-- The addresses `base ≤ a < base + size`. -/
structure Region where
  base : Nat
  size : Nat
  deriving DecidableEq, Repr

namespace Region

/-- Membership of an address. -/
def Has (r : Region) (a : Nat) : Prop := r.base ≤ a ∧ a < r.base + r.size

/-- One of the two regions ends before the other begins.  It is the sum of two linear facts, so
    nothing about sets is needed to use it.  A region of size 0 strictly inside another one is
    disjoint from it and not apart. -/
def Apart (r s : Region) : Prop := r.base + r.size ≤ s.base ∨ s.base + s.size ≤ r.base

/-- `r` lies inside `s`.  Both ends are compared; a region of size 0 may lie at the very end of the
    other. -/
def Within (r s : Region) : Prop := s.base ≤ r.base ∧ r.base + r.size ≤ s.base + s.size

instance (r : Region) (a : Nat) : Decidable (r.Has a) := inferInstanceAs (Decidable (_ ∧ _))
instance (r s : Region) : Decidable (r.Apart s) := inferInstanceAs (Decidable (_ ∨ _))
instance (r s : Region) : Decidable (r.Within s) := inferInstanceAs (Decidable (_ ∧ _))

theorem Apart.symm {r s : Region} (h : r.Apart s) : s.Apart r := Or.symm h

/-- Regions inside two regions that are apart are apart.  This is how an object inherits separation
    from the run of pages or the block it was cut from. -/
theorem Apart.within {r s r' s' : Region} (h : r.Apart s) (hr : r'.Within r)
    (hs : s'.Within s) : r'.Apart s' := by
  unfold Apart Within at *; omega

/-- Two regions that are apart share no address.  The converse fails only for empty regions, and is
    never needed. -/
theorem Apart.not_has {r s : Region} (h : r.Apart s) {a : Nat} (hr : r.Has a) : ¬ s.Has a := by
  unfold Apart Has at *; omega

section owners

variable {α : Type} {f : α → Region} {xs : List α}

/-- Two members of a list whose regions are pairwise apart. -/
theorem apart_of_mem (h : xs.Pairwise fun x y => (f x).Apart (f y)) {x y : α} (hx : x ∈ xs)
    (hy : y ∈ xs) (hne : x ≠ y) : (f x).Apart (f y) := by
  have hsymm : Std.Symm fun x y => (f x).Apart (f y) := ⟨fun _ _ h => h.symm⟩
  exact h.forall hx hy hne

/-- An address has one owner.  The form in which separation is used against an address: two objects
    that both have it are one. -/
theorem owner_unique (h : xs.Pairwise fun x y => (f x).Apart (f y)) {x y : α} (hx : x ∈ xs)
    (hy : y ∈ xs) {a : Nat} (hxa : (f x).Has a) (hya : (f y).Has a) : x = y := by
  by_contra hne
  exact (apart_of_mem h hx hy hne).not_has hxa hya

end owners

theorem Within.has {r s : Region} (h : r.Within s) {a : Nat} (ha : r.Has a) : s.Has a := by
  unfold Within Has at *; omega

theorem Within.trans {r s t : Region} (h : r.Within s) (h' : s.Within t) : r.Within t := by
  unfold Within at *; omega

/-- The addresses of a region as a finite set. -/
def toFinset (r : Region) : Finset Nat := Finset.Ico r.base (r.base + r.size)

@[simp] theorem card_toFinset (r : Region) : r.toFinset.card = r.size := by
  simp [toFinset]

@[simp] theorem mem_toFinset {r : Region} {a : Nat} : a ∈ r.toFinset ↔ r.Has a := by
  simp [toFinset, Has]

/-- Pairwise apart regions cover as many addresses as their sizes add up to.  The induction is on
    the list; a new region adds as many addresses as it is long, because none of them is in the
    cover yet. -/
theorem card_cover : ∀ rs : List Region, rs.Pairwise Apart →
    ∃ F : Finset Nat, F.card = (rs.map size).sum ∧ ∀ a, a ∈ F ↔ ∃ r ∈ rs, r.Has a := by
  intro rs
  induction rs with
  | nil =>
    intro _
    exact ⟨∅, rfl, by simp⟩
  | cons r rs ih =>
    intro h
    obtain ⟨hr, hrs⟩ := List.pairwise_cons.mp h
    obtain ⟨F, hcard, hmem⟩ := ih hrs
    refine ⟨r.toFinset ∪ F, ?_, ?_⟩
    · have hdisj : Disjoint r.toFinset F := by
        rw [Finset.disjoint_left]
        intro a ha hF
        obtain ⟨s, hs, hsa⟩ := (hmem a).mp hF
        exact (hr s hs).not_has (mem_toFinset.mp ha) hsa
      rw [Finset.card_union_of_disjoint hdisj, hcard, card_toFinset]
      rfl
    · intro a
      simp [hmem]

/-- **Counting.**  Pairwise apart regions below `n` have total size at most `n`.  A memory map with
    disjoint entries has no more pages than its highest address says, and a bitmap with one bit for
    each page is not longer than that. -/
theorem sum_size_le {rs : List Region} (h : rs.Pairwise Apart) {n : Nat}
    (hn : ∀ r ∈ rs, ∀ a, r.Has a → a < n) : (rs.map size).sum ≤ n := by
  obtain ⟨F, hcard, hmem⟩ := card_cover rs h
  have hsub : F ⊆ Finset.range n := by
    intro a ha
    obtain ⟨r, hr, hra⟩ := (hmem a).mp ha
    exact Finset.mem_range.mpr (hn r hr a hra)
  calc (rs.map size).sum = F.card := hcard.symm
    _ ≤ (Finset.range n).card := Finset.card_le_card hsub
    _ = n := Finset.card_range n

end Region

end Nearlands.Lib
