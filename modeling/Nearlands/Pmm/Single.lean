/-
  The single-page allocator.

  Of the two scans `MmAllocateSinglePage` is the exact one: its only test is `== CLEAR`, so it
  takes the lowest clear page there is.  Over a run of single allocations and frees of live pages
  the counter `pageUsed` is the number of pages held: they are pairwise different pages of
  `1 .. pageCount`, so there is always room to count one more, and neither guard of the counter
  ever fires.

  One thing is needed for that.  A page number stands for an address, and there are `2 ^ 52` pages
  in a 64-bit address space: the address of page `2 ^ 52` wraps to `NULL`, and the scan skips the
  page (`page_without_address`).
-/
import Nearlands.Pmm.Runs

namespace Nearlands.Pmm

open Nearlands.Lib

variable {s₀ : State} {s s' : Sys} {e : Event}

/-! ## One call -/

/-- `p` is the lowest clear page in `[1, pageCount)`.  It is the specification in terms of the
    bitmap alone. -/
def State.LowestClear (s : State) (p : Nat) : Prop :=
  1 ≤ p ∧ p < s.pageCount ∧ s.used p = false ∧ ∀ q, 1 ≤ q → q < p → s.used q = true

/-- The allocation takes the lowest clear page and counts it, or there is none and it changes
    nothing.  All statics and all bits are accounted for, so it says what the call leaves alone as
    well. -/
def AllocatesLowest (s : State) : Prop :=
  let r := s.mmAllocateSinglePage
  (∃ p, s.LowestClear p ∧ r.2 = p * pageSize ∧ r.1.statics = s.statics ∧
    r.1.pageUsed = s.pageUsed + 1 ∧ ∀ q, r.1.used q = (decide (q = p) || s.used q)) ∨
  ((∀ p, 1 ≤ p → p < s.pageCount → s.used p = true) ∧ r = (s, null))

/-- The free clears the page at `addr`, and no other, and counts it.  That the counter goes down is
    stated as a sum, since `Nat` cannot go below zero. -/
def FreesExactly (s : State) (addr : Nat) : Prop :=
  let r := s.mmFreeSinglePage addr
  r.2 = .success ∧ r.1.statics = s.statics ∧ r.1.pageUsed + 1 = s.pageUsed ∧
    ∀ q, r.1.used q = (!decide (q * pageSize = addr) && s.used q)

/-- Below page `2 ^ 52` only page 0 is at `NULL`.  The bound is the condition of the main theorem,
    and this is where it comes from. -/
theorem address_ne_null_iff {i : Nat} (h : i < 2 ^ 52) :
    getAddressFromPageLocation i ≠ null ↔ 1 ≤ i := by
  rw [getAddressFromPageLocation, pageSize, w64_of_lt (by omega)]
  show ¬ i * 0x1000 = 0 ↔ _
  omega

/-- A page is accepted when it is clear and not page 0. -/
theorem accepts_one_iff (s : State) {i : Nat} (h : i < 2 ^ 52) :
    s.Accepts 1 i ↔ 1 ≤ i ∧ s.used i = false := by
  rw [State.Accepts, address_ne_null_iff h]
  refine and_congr_right fun _ => and_iff_left_of_imp fun hclear k h1 h2 _ => ?_
  obtain rfl : k = i := by omega
  exact hclear

/-- What the search finds is the lowest clear page. -/
theorem firstFit_one_some {s : State} (hpc : s.pageCount ≤ 2 ^ 52) {p : Nat}
    (h : s.FirstFit 1 (some p)) : s.LowestClear p := by
  obtain ⟨hlt, hacc, hmin⟩ := h
  have hp := (accepts_one_iff s (show p < 2 ^ 52 by omega)).mp hacc
  refine ⟨hp.1, by omega, hp.2, fun q h1 hq => ?_⟩
  rcases Bool.eq_false_or_eq_true (s.used q) with hused | hclear
  · exact hused
  · exact absurd ((accepts_one_iff s (by omega)).mpr ⟨h1, hclear⟩) (hmin q hq)

/-- If it finds none, no page is clear. -/
theorem firstFit_one_none {s : State} (hpc : s.pageCount ≤ 2 ^ 52) (h : s.FirstFit 1 none) {p : Nat}
    (h1 : 1 ≤ p) (hp : p < s.pageCount) : s.used p = true := by
  rcases Bool.eq_false_or_eq_true (s.used p) with hused | hclear
  · exact hused
  · exact absurd ((accepts_one_iff s (by omega)).mpr ⟨h1, hclear⟩) (h p hp)

/-- A call that returns a page increments the counter, unless the guard fires.  That it does not is
    shown for runs, by counting. -/
theorem pageUsed_mmAllocateSinglePage {s : State} (hne : s.mmAllocateSinglePage.2 ≠ null)
    (hlt : s.pageUsed < s.pageCount) : s.mmAllocateSinglePage.1.pageUsed = s.pageUsed + 1 := by
  rw [State.mmAllocateSinglePage] at hne ⊢
  cases hf : (s.singleScan s.pageCount 0).found with
  | none =>
    rw [hf] at hne
    exact absurd rfl hne
  | some i =>
    have hguard : (s.setBitmap i).pageUsed < (s.setBitmap i).pageCount := hlt
    show (s.setBitmap i).incrementPageUsage.pageUsed = _
    rw [State.incrementPageUsage, if_pos hguard]
    rfl

/-- A free decrements it, unless the guard fires. -/
theorem pageUsed_mmFreeSinglePage {s : State} (hpos : 0 < s.pageUsed) (addr : Nat) :
    (s.mmFreeSinglePage addr).1.pageUsed + 1 = s.pageUsed := by
  have hguard : (s.clearBitmap (getPageLocationFromAddress addr)).pageUsed > 0 := hpos
  show (s.clearBitmap (getPageLocationFromAddress addr)).decrementPageUsage.pageUsed + 1 = _
  rw [State.decrementPageUsage, if_pos hguard]
  exact Nat.sub_add_cancel hpos

/-- **One allocation**, while the counter is below `pageCount` if there is a page to be had. -/
theorem allocatesLowest {s : State} (hpc : s.pageCount ≤ 2 ^ 52)
    (hroom : s.mmAllocateSinglePage.2 ≠ null → s.pageUsed < s.pageCount) : AllocatesLowest s := by
  rcases mmAllocateSinglePage_grants s with ⟨hnone, hsame, hnull⟩ | ⟨i, hfit, haddr, hst, hused⟩
  · exact Or.inr ⟨fun p h1 hp => firstFit_one_none hpc hnone h1 hp, Prod.ext hsame hnull⟩
  · have hlow := firstFit_one_some hpc hfit
    have hne : s.mmAllocateSinglePage.2 ≠ null := haddr ▸ hfit.2.1.1
    have hlt := hlow.2.1
    refine Or.inl ⟨i, hlow, ?_, hst, pageUsed_mmAllocateSinglePage hne (hroom hne), fun q => ?_⟩
    · rw [haddr, getAddressFromPageLocation, w64_of_lt (by rw [pageSize]; omega)]
    · rw [hused]
      congr 2
      apply propext
      omega

/-! ## Runs -/

/-- The two calls of the single-page allocator. -/
def Event.single : Event → Bool
  | .allocSingle _ => true
  | .freeSingle _ => true
  | _ => false

/-- A single allocation, or a free of a live page. -/
def SingleStep (s : Sys) (e : Event) (s' : Sys) : Prop := Step s e s' ∧ e.single = true

/-- What a run of the single-page allocator keeps: its allocations are pages, and counted.  With it
    the guard of the counter is decided in every state of the run. -/
structure Counted (s₀ : State) (s : Sys) : Prop where
  inv : Inv s₀ s
  pages : ∀ a ∈ s.live, a.2 = 1 ∧ a.1 = (pagesOf a).base * pageSize
  count : s.pmm.pageUsed = s.live.length

/-- Live pages are pages of the bitmap, so there are not more of them.  Different pages below
    `pageCount`, by the counting argument for regions. -/
theorem Inv.live_le (hi : Inv s₀ s) (hpages : ∀ a ∈ s.live, a.2 = 1) :
    s.live.length ≤ s₀.pageCount := by
  have hsum := Region.sum_size_le (List.pairwise_map.mpr hi.apart) (n := s₀.pageCount) (by
    intro r hr p hp
    obtain ⟨a, ha, rfl⟩ := List.mem_map.mp hr
    have hb := hi.bounds a ha
    exact Nat.lt_of_lt_of_le hp.2 hb)
  have hone : (s.live.map pagesOf).map Region.size = List.replicate s.live.length 1 := by
    rw [List.map_map, ← List.map_const']
    exact List.map_congr_left fun a ha => hpages a ha
  rw [hone, List.sum_replicate_nat, Nat.mul_one] at hsum
  exact hsum

/-- **One step.** An allocation that finds a page adds one page that is not held, so there was room
    to count it; a free takes away one that is. -/
theorem Counted.step (hpc : s₀.pageCount ≤ 2 ^ 52) (hc : Counted s₀ s) (hs : SingleStep s e s') :
    Counted s₀ s' := by
  have hpc' : s.pmm.pageCount = s₀.pageCount := congrArg Prod.fst hc.inv.statics
  obtain ⟨hstep, hsingle⟩ := hs
  cases hstep with
  | allocSingle =>
    have hg := mmAllocateSinglePage_grants s.pmm
    have hinv : Inv s₀ ⟨s.pmm.mmAllocateSinglePage.1, hold (s.pmm.mmAllocateSinglePage.2, 1) s.live⟩ :=
      inv_grant (a := (s.pmm.mmAllocateSinglePage.2, 1)) hc.inv (Nat.le_refl 1) hg rfl
        (fitClear_one (by rw [hpc']; exact hpc))
    by_cases hnull : s.pmm.mmAllocateSinglePage.2 = null
    · rcases hg with ⟨-, hsame, -⟩ | ⟨i, hfit, haddr, -⟩
      · rw [hnull, hold_null, hsame] at hinv ⊢
        exact ⟨hinv, hc.pages, hc.count⟩
      · exact absurd (haddr.symm.trans hnull) hfit.2.1.1
    · rw [hold_some hnull] at hinv ⊢
      have hpages : ∀ a ∈ (s.pmm.mmAllocateSinglePage.2, 1) :: s.live,
          a.2 = 1 ∧ a.1 = (pagesOf a).base * pageSize := by
        intro a ha
        rcases List.mem_cons.mp ha with rfl | ha
        · refine ⟨rfl, ?_⟩
          rcases hg with ⟨-, -, h⟩ | ⟨i, hfit, haddr, -⟩
          · exact absurd h hnull
          · have hb := hfit.bounds
            have hi : i < 2 ^ 52 := by omega
            rw [pagesOf]
            dsimp only
            rw [haddr, pageLocation_address hi, getAddressFromPageLocation,
              w64_of_lt (by rw [pageSize]; omega)]
        · exact hc.pages a ha
      refine ⟨hinv, hpages, ?_⟩
      -- the new page makes one more, and there is room for it
      have hle := hinv.live_le fun a ha => (hpages a ha).1
      rw [List.length_cons] at hle ⊢
      rw [pageUsed_mmAllocateSinglePage hnull (by rw [hc.count, hpc']; omega), hc.count]
  | allocMulti => exact absurd hsingle Bool.false_ne_true
  | @freeSingle addr hmem =>
    have hinv : Inv s₀ ⟨(s.pmm.mmFreeSinglePage addr).1, s.live.erase (addr, 1)⟩ :=
      inv_release hc.inv hmem (mmFreeSinglePage_releases s.pmm addr) rfl
    refine ⟨hinv, fun a ha => hc.pages a (List.mem_of_mem_erase ha), ?_⟩
    have hpos := List.length_pos_of_mem hmem
    have hcount := hc.count
    have hdec := pageUsed_mmFreeSinglePage (s := s.pmm) (by omega) addr
    rw [List.length_erase_of_mem hmem]
    show (s.pmm.mmFreeSinglePage addr).1.pageUsed = s.live.length - 1
    omega
  | freeMulti => exact absurd hsingle Bool.false_ne_true

/-- Every state of a run. -/
theorem run_counted (hpc : s₀.pageCount ≤ 2 ^ 52) (h0 : s₀.pageUsed = 0) {h : List Event}
    (run : Trace SingleStep ⟨s₀, []⟩ h s) : Counted s₀ s := by
  refine run.inv (I := Counted s₀) ⟨inv_start s₀, fun _ ha => absurd ha List.not_mem_nil, h0⟩ ?_
  exact fun _ _ _ hc hs => hc.step hpc hs

/-- **The single-page allocator is exact first fit.**  In every state of every run of single
    allocations and frees of live pages, over any bitmap of pages that have an address: the live
    pages are different, and `pageUsed` is their number; the next allocation takes the lowest clear
    page, sets its bit and no other and counts it, or finds none and changes nothing; and freeing a
    live page clears its bit and no other, and counts it.  The bound `2 ^ 52` is forced: page `2 ^
    52` has the address `NULL`, and the scan passes over it although it is clear.  The rest is what
    the header of this module says: the test is exact, and the counter never meets its guards, since
    the live pages are different pages of the bitmap. -/
theorem single_first_fit (hpc : s₀.pageCount ≤ 2 ^ 52) (h0 : s₀.pageUsed = 0) {h : List Event}
    (run : Trace SingleStep ⟨s₀, []⟩ h s) :
    (s.live.map Prod.fst).Nodup ∧ s.pmm.pageUsed = s.live.length ∧ AllocatesLowest s.pmm ∧
      ∀ a ∈ s.live, a.2 = 1 ∧ FreesExactly s.pmm a.1 := by
  have hc := run_counted hpc h0 run
  have hpc' : s.pmm.pageCount = s₀.pageCount := congrArg Prod.fst hc.inv.statics
  refine ⟨?_, hc.count, allocatesLowest (by rw [hpc']; exact hpc) fun hne => ?_, fun a ha => ?_⟩
  · -- pages that lie apart are different
    refine List.pairwise_map.mpr (hc.inv.apart.imp_of_mem fun {a b} ha hb hap heq => ?_)
    have h1 := (hc.pages a ha).1
    have h2 := (hc.pages b hb).1
    rw [Region.Apart, pagesOf, pagesOf] at hap
    dsimp only at hap
    rw [heq, h1, h2] at hap
    omega
  · -- after the call one page more is held
    have hnext := hc.step hpc ⟨.allocSingle s, rfl⟩
    have hle := hnext.inv.live_le fun a ha => (hnext.pages a ha).1
    dsimp only at hle
    rw [hold_some hne, List.length_cons] at hle
    rw [hc.count, hpc']
    omega
  · obtain ⟨hone, haddr⟩ := hc.pages a ha
    have hpos := List.length_pos_of_mem ha
    obtain ⟨hst, hused⟩ := mmFreeSinglePage_releases s.pmm a.1
    have hbound := hc.inv.bounds a ha
    refine ⟨hone, rfl, hst, pageUsed_mmFreeSinglePage (by rw [hc.count]; exact hpos) a.1, fun q => ?_⟩
    have hiff : (pagesOf (a.1, 1)).Has q ↔ q * pageSize = a.1 := by
      have hbase : getPageLocationFromAddress a.1 * pageSize = a.1 := haddr.symm
      rw [pageSize] at hbase ⊢
      show getPageLocationFromAddress a.1 ≤ q ∧ q < getPageLocationFromAddress a.1 + 1 ↔ _
      omega
    have hfit : (pagesOf (a.1, 1)).base + 1 ≤ 2 ^ 64 := by
      rw [hone] at hbound
      show (pagesOf a).base + 1 ≤ 2 ^ 64
      omega
    rw [hused hfit, decide_eq_decide.mpr hiff]

/-- Pages 1 and 2 of sixteen taken, page 1 given back: one page is live, and 1 comes next. -/
theorem single_first_fit_clear16 : page2Live.pmm.pageUsed = 1 ∧ AllocatesLowest page2Live.pmm ∧
    FreesExactly page2Live.pmm 0x2000 ∧ page2Live.pmm.mmAllocateSinglePage.2 = 0x1000 := by
  have run : ∃ h, Trace SingleStep ⟨clear16, []⟩ h page2Live :=
    ⟨_, ((Trace.start.snoc ⟨.allocSingle _, rfl⟩).snoc ⟨.allocSingle _, rfl⟩).snoc
      ⟨.freeSingle (show ((0x1000 : Nat), 1) ∈ _ by decide), rfl⟩⟩
  obtain ⟨h, run⟩ := run
  obtain ⟨-, hcount, hnext, hfree⟩ := single_first_fit (by decide) rfl run
  exact ⟨hcount, hnext, (hfree (0x2000, 1) List.mem_cons_self).2, by decide⟩

/-! ## Pages without an address -/

/-- A bitmap one page larger than the address space, of which only the last page is clear. -/
def beyondAddresses : State :=
  ⟨2 ^ 52 + 1, 2 ^ 52 + 1, 2 ^ 49 + 1, 0, fun i => if i = 2 ^ 49 then 0 else 0xFF, 0, by decide⟩

/-- All lower pages are in use. -/
theorem beyondAddresses_lowest : beyondAddresses.LowestClear (2 ^ 52) := by
  refine ⟨by decide, by decide, by decide, fun q _ hq => ?_⟩
  have hbyte : q / 8 ≠ 2 ^ 49 := by omega
  rw [State.used, beyondAddresses]
  dsimp only
  rw [if_neg hbyte]
  show Nat.testBit (2 ^ 8 - 1) (q % 8) = true
  rw [Nat.testBit_two_pow_sub_one]
  exact decide_eq_true (Nat.mod_lt _ (by decide))

/-- The page is not found: its address is `NULL`. -/
theorem page_without_address : beyondAddresses.pageUsed = 0 ∧
    beyondAddresses.LowestClear (2 ^ 52) ∧
    beyondAddresses.mmAllocateSinglePage = (beyondAddresses, null) ∧
    ¬ AllocatesLowest beyondAddresses := by
  obtain ⟨h1, hlt, hclear, hbelow⟩ := beyondAddresses_lowest
  have hnone : beyondAddresses.mmAllocateSinglePage = (beyondAddresses, null) := by
    rcases mmAllocateSinglePage_grants beyondAddresses with ⟨-, hsame, hnull⟩ | ⟨i, hfit, -⟩
    · exact Prod.ext hsame hnull
    · obtain ⟨hi, hi'⟩ := hfit.bounds
      rcases Nat.lt_or_ge i (2 ^ 52) with hlow | hhigh
      · have hused := hbelow i hi hlow
        rw [hfit.2.1.2.1] at hused
        exact absurd hused (by decide)
      · have hpc : beyondAddresses.pageCount = 2 ^ 52 + 1 := rfl
        obtain rfl : i = 2 ^ 52 := by omega
        exact absurd rfl hfit.2.1.1
  refine ⟨rfl, beyondAddresses_lowest, hnone, ?_⟩
  rintro (⟨p, hp, haddr, -⟩ | ⟨hall, -⟩)
  · rw [hnone] at haddr
    have hpos := hp.1
    have hzero : 0 = p * 0x1000 := haddr
    omega
  · rw [hall _ h1 hlt] at hclear
    exact absurd hclear (by decide)

end Nearlands.Pmm
