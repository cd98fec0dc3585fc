/-
  What the self test costs.

  On a machine whose lowest pages are in a row the self test of the page allocator goes through to
  its end and answers `TRUE`.  It keeps two pages for ever: the single page it took first, and the
  last one of the eleven, of which it gives back ten (`test_leaks_two_pages`).  The counter does not
  know: the test gives eleven pages back where it had two, and the counter stops at zero.

  Each state on the way is the bitmap from before with some of the 23 pages marked (`Row.State`), so
  every allocation lands at the lowest page that is not.
-/
import Nearlands.Pmm.Boot
import Nearlands.Pmm.SelfTest
import Nearlands.Pmm.Ledger

namespace Nearlands.Pmm

open Nearlands.Lib

/-- The lowest pages that can be handed out are 23 in a row, from `o` on.  Below the row everything
    is in use, so the first fit for any small number of pages is in the row. -/
structure Row (s : State) (o : Nat) : Prop where
  pos : 1 ≤ o
  fits : o + 23 ≤ s.pageCount
  small : s.pageCount ≤ 2 ^ 52
  clear : ∀ q, o ≤ q → q < o + 23 → s.used q = false
  lowest : ∀ q, 1 ≤ q → q < o → s.used q = true

/-- `t` is `s` with the pages of `P` marked besides, and `c` pages counted.  Frees of the test never
    reach outside the row, so what was marked before stays. -/
structure Over (s t : State) (P : Nat → Prop) (c : Nat) : Prop where
  statics : t.statics = s.statics
  used : ∀ q, t.used q = true ↔ P q ∨ s.used q = true
  count : t.pageUsed = c

variable {s t : State} {o : Nat} {P Q : Nat → Prop} {c fuel n i : Nat}

/-- The number of pages is that of the start. -/
theorem Over.pageCount (h : Over s t P c) : t.pageCount = s.pageCount := congrArg Prod.fst h.statics

/-- The set of pages, described otherwise. -/
theorem Over.congr (h : Over s t P c) (hPQ : ∀ q, P q ↔ Q q) : Over s t Q c :=
  ⟨h.statics, fun q => by rw [h.used, hPQ], h.count⟩

/-- **An allocation at the lowest page that is clear.** The window is clear to its end, so the
    search stops there, and below it all is marked. -/
theorem Over.alloc (hrow : Row s o) (h : Over s t P c) (hfuel : s.pageCount < fuel) (h1 : 1 ≤ n)
    (ho : o ≤ i) (hi : i + n ≤ o + 23) (hc : c + n ≤ 23) (hbelow : ∀ q, o ≤ q → q < i → P q)
    (hwin : ∀ q, i ≤ q → q < i + n → ¬ P q) :
    ∃ t', t.mmAllocateMultiplePages fuel n = some (t', getAddressFromPageLocation i) ∧
      Over s t' (fun q => P q ∨ i ≤ q ∧ q < i + n) (c + n) := by
  have hpc := h.pageCount
  have hfits := hrow.fits
  have hsmall := hrow.small
  have hpos := hrow.pos
  -- below `i` everything is marked, and from there on `n` pages are clear
  have hmarked : ∀ k, 1 ≤ k → k < i → t.used k = true := by
    intro k hk hki
    rw [h.used]
    rcases Nat.lt_or_ge k o with hko | hok
    · exact Or.inr (hrow.lowest k hk hko)
    · exact Or.inl (hbelow k hok hki)
  have hclear : ∀ k, i ≤ k → k < i + n → t.used k = false := by
    intro k hik hkn
    rw [← Bool.not_eq_true, h.used]
    rintro (hP | hs)
    · exact hwin k hik hkn hP
    · rw [hrow.clear k (by omega) (by omega)] at hs
      exact absurd hs Bool.false_ne_true
  have hne : ∀ k, 1 ≤ k → k < 2 ^ 52 → getAddressFromPageLocation k ≠ null := by
    intro k hk hk52
    rw [address_ne_null, wrapped_of_lt hk52]
    omega
  -- so the search accepts `i`, and finds it
  have hacc : t.Accepts n i := ⟨hne i (by omega) (by omega), hclear i (Nat.le_refl i) (by omega),
    fun k hik hkn _ => hclear k hik hkn⟩
  obtain ⟨t', addr, hres⟩ := mmAllocateMultiplePages_total t h1 (by omega) (hpc ▸ hfuel)
  have hb := mmAllocateMultiplePages_books h1 (by omega) hres
  rcases hb.grants with ⟨hnone, -, -⟩ | ⟨j, hfit, haddr, hst, hused⟩
  · exact absurd hacc (hnone i (by omega))
  · -- no lower page is clear, so the run begins at `i`
    have hj : j = i := by
      obtain ⟨hj1, hjn⟩ := hfit.bounds
      rcases Nat.lt_trichotomy j i with hlt | heq | hgt
      · have hset := hmarked j hj1 hlt
        rw [hfit.2.1.2.1] at hset
        exact absurd hset Bool.false_ne_true
      · exact heq
      · exact absurd hacc (hfit.2.2 i hgt)
    subst hj
    obtain rfl : addr = getAddressFromPageLocation j := haddr
    refine ⟨t', hres, hst.trans h.statics, fun q => ?_, ?_⟩
    · rw [hused, Bool.or_eq_true, decide_eq_true_eq, h.used, ← or_assoc]
      exact or_congr_left or_comm
    · rw [hb.count (by rw [h.count]; omega), if_neg hacc.1, h.count]
      dsimp only
      omega

/-- **A free.** More pages may be given back than are counted; the difference of `Nat` is the
    guard. -/
theorem Over.free (hrow : Row s o) (h : Over s t P c) (h1 : 1 ≤ n) (ho : o ≤ i)
    (hi : i + n ≤ o + 23) :
    Over s (t.mmFreeMultiplePages (getAddressFromPageLocation i) n).1
      (fun q => P q ∧ ¬ (i ≤ q ∧ q < i + n)) (c - n) := by
  have hfits := hrow.fits
  have hsmall := hrow.small
  refine ⟨(mmFreeMultiplePages_releases t _ n).1.trans h.statics, fun q => ?_, ?_⟩
  · rw [used_mmFreeMultiplePages t i (by omega), wrapped_of_lt (by omega), Bool.and_eq_true,
      Bool.not_eq_true', decide_eq_false_iff_not, h.used]
    have hclear : i ≤ q ∧ q < i + n → ¬ s.used q = true := fun hq => by
      rw [hrow.clear q (by omega) (by omega)]
      exact Bool.false_ne_true
    tauto
  · rw [(mmFreeMultiplePages_returns t _ n).count, h.count]

/-- The first page that the test takes.  It is the first page of the row. -/
theorem Over.single (hrow : Row s o) (h0 : s.pageUsed = 0) : s.mmAllocateSinglePage.2 ≠ null ∧
    Over s s.mmAllocateSinglePage.1 (fun q => q = o) 1 := by
  have hfits := hrow.fits
  have hsmall := hrow.small
  have hpos := hrow.pos
  have hav : s.Available o :=
    ⟨hpos, by omega, hrow.clear o (Nat.le_refl o) (by omega)⟩
  have hb := mmAllocateSinglePage_books s
  rcases hb.grants with ⟨hnone, -, -⟩ | ⟨j, hfit, haddr, hst, hused⟩
  · exact absurd (hav.accepts hsmall) (hnone o (by omega))
  · obtain ⟨hj1, hjn⟩ := hfit.bounds
    have hj : j = o := by
      rcases Nat.lt_trichotomy j o with hlt | heq | hgt
      · have hset := hrow.lowest j hj1 hlt
        rw [hfit.2.1.2.1] at hset
        exact absurd hset Bool.false_ne_true
      · exact heq
      · exact absurd (hav.accepts hsmall) (hfit.2.2 o hgt)
    subst hj
    have hne : s.mmAllocateSinglePage.2 ≠ null := fun h => hfit.2.1.1 (haddr.symm.trans h)
    refine ⟨hne, hst, fun q => ?_, ?_⟩
    · rw [hused, Bool.or_eq_true, decide_eq_true_eq]
      refine or_congr_left ⟨fun h => ?_, fun h => ?_⟩
      · omega
      · omega
    · rw [hb.count (by rw [h0]; omega), if_neg hne, h0]
      dsimp only
      omega

end Nearlands.Pmm
