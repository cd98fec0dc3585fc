/-
  The bitmap is a ledger.

  What the bitmap stands for is the set of pages in use: those marked when the run began, and those
  of the runs that clients hold.  `Sys.abstract` is that set; a run of calls moves it by exactly the
  pages granted and given back, and the bitmap is never anything else (`Exact`).  The counter
  `pageUsed` is the number of pages held, also for runs of several pages, where it is counted page
  by page under a guard; the guards never fire.  So nothing leaks: when all is given back, the
  bitmap is the one of the start.

  All of this is about runs in which every window granted was clear (`FitStep`).
-/
import Nearlands.Pmm.Single

namespace Nearlands.Pmm

open Nearlands.Lib

/-! ## The counter -/

/-- The counter after a marking loop: one up for each page, but never above `pageCount`.  The
    induction is on the pages left; from the limit on nothing is counted. -/
theorem pageUsed_markWindow (i : Nat) : ∀ (n j : Nat) (s : State), s.pageUsed ≤ s.pageCount →
    (State.markWindow i n j s).pageUsed = min (s.pageUsed + n) s.pageCount := by
  intro n
  induction n with
  | zero =>
    intro j s hle
    exact (Nat.min_eq_left hle).symm
  | succ n ih =>
    intro j s hle
    rw [State.markWindow]
    have hcount : (s.setBitmap (w64 (i + j))).incrementPageUsage.pageCount = s.pageCount :=
      congrArg Prod.fst (statics_incrementPageUsage (s.setBitmap (w64 (i + j))))
    have hused : (s.setBitmap (w64 (i + j))).incrementPageUsage.pageUsed =
        min (s.pageUsed + 1) s.pageCount := by
      rw [State.incrementPageUsage]
      split
      · rename_i hlt
        exact (Nat.min_eq_left hlt).symm
      · rename_i hge
        have hge : ¬ s.pageUsed < s.pageCount := hge
        show s.pageUsed = _
        omega
    rw [ih (j + 1) _ (by rw [hcount, hused]; exact Nat.min_le_right _ _), hcount, hused]
    omega

/-- The counter after a clearing loop: one down for each page, but never below zero.  `Nat`
    subtraction stops at zero by itself, as the guard does. -/
theorem pageUsed_clearWindow (index : Nat) : ∀ (n i : Nat) (s : State),
    (State.clearWindow index n i s).pageUsed = s.pageUsed - n := by
  intro n
  induction n with
  | zero => exact fun _ _ => rfl
  | succ n ih =>
    intro i s
    have hused : (s.clearBitmap (w64 (index + i))).decrementPageUsage.pageUsed = s.pageUsed - 1 := by
      rw [State.decrementPageUsage]
      split
      · rfl
      · rename_i hzero
        have hzero : ¬ s.pageUsed > 0 := hzero
        show s.pageUsed = _
        omega
    rw [State.clearWindow, ih, hused]
    omega

/-! ## One call -/

/-- An allocation `a`, counter included.  The counter is part of what a call does, and needs its own
    hypothesis: below the limit it counts every page. -/
structure Books (s : State) (a : Nat × Nat) (s' : State) : Prop where
  grants : Grants s a.2 s' a.1
  count : s.pageUsed ≤ s.pageCount →
    s'.pageUsed = if a.1 = null then s.pageUsed else min (s.pageUsed + a.2) s.pageCount

/-- A free of `a`, counter included.  The amount is the one the caller names. -/
structure Returns (s : State) (a : Nat × Nat) (s' : State) : Prop where
  releases : Releases s a s'
  count : s'.pageUsed = s.pageUsed - a.2

/-- A single page is one page more in the books. -/
theorem mmAllocateSinglePage_books (s : State) :
    Books s (s.mmAllocateSinglePage.2, 1) s.mmAllocateSinglePage.1 := by
  refine ⟨mmAllocateSinglePage_grants s, fun _ => ?_⟩
  dsimp only
  split
  · rename_i hnull
    rcases mmAllocateSinglePage_grants s with ⟨-, hsame, -⟩ | ⟨i, hfit, haddr, -⟩
    · rw [hsame]
    · exact absurd (haddr.symm.trans hnull) hfit.2.1.1
  · rename_i hne
    rw [State.mmAllocateSinglePage] at hne ⊢
    cases hf : (s.singleScan s.pageCount 0).found with
    | none =>
      rw [hf] at hne
      exact absurd rfl hne
    | some i =>
      show (s.setBitmap i).incrementPageUsage.pageUsed = _
      rw [State.incrementPageUsage]
      show (if s.pageUsed < s.pageCount then { s.setBitmap i with pageUsed := s.pageUsed + 1 }
        else s.setBitmap i).pageUsed = _
      split
      · show s.pageUsed + 1 = _
        omega
      · show s.pageUsed = _
        omega

/-- A run is as many pages more as were asked for. -/
theorem mmAllocateMultiplePages_books {s s' : State} {fuel n addr : Nat} (h1 : 1 ≤ n)
    (hn : n ≤ s.pageCount) (h : s.mmAllocateMultiplePages fuel n = some (s', addr)) :
    Books s (addr, n) s' := by
  refine ⟨mmAllocateMultiplePages_grants h1 hn h, fun hle => ?_⟩
  rw [State.mmAllocateMultiplePages] at h
  obtain ⟨r, hr, hres⟩ := Option.map_eq_some_iff.mp h
  have hhit := multiScan_found s n _ fuel 0 r (by decide)
    (fun _ hk => absurd hk (Nat.not_lt_zero _)) hr
  cases hf : r.found with
  | none =>
    rw [hf, Prod.mk.injEq] at hres
    obtain ⟨rfl, rfl⟩ := hres
    exact (if_pos rfl).symm
  | some i =>
    rw [hf, Prod.mk.injEq] at hres
    rw [hf] at hhit
    obtain ⟨rfl, rfl⟩ := hres
    rw [if_neg ((multiTest_eq_true s n i).mp hhit.2.1).1]
    exact pageUsed_markWindow i n 0 _ hle

/-- A page given back is one less. -/
theorem mmFreeSinglePage_returns (s : State) (addr : Nat) :
    Returns s (addr, 1) (s.mmFreeSinglePage addr).1 := by
  refine ⟨mmFreeSinglePage_releases s addr, ?_⟩
  show (s.clearBitmap _).decrementPageUsage.pageUsed = _
  rw [State.decrementPageUsage]
  split
  · rfl
  · rename_i hzero
    have hzero : ¬ s.pageUsed > 0 := hzero
    show s.pageUsed = s.pageUsed - 1
    omega

/-- And a run as many as the caller says. -/
theorem mmFreeMultiplePages_returns (s : State) (addr n : Nat) :
    Returns s (addr, n) (s.mmFreeMultiplePages addr n).1 :=
  ⟨mmFreeMultiplePages_releases s addr n, pageUsed_clearWindow _ n 0 s⟩

/-- **What a step can do**, counter included. -/
theorem step_books {s s' : Sys} {e : Event} (h : Step s e s') :
    (∃ a, e.grant = some a ∧ 1 ≤ a.2 ∧ Books s.pmm a s'.pmm ∧ s'.live = hold a s.live) ∨
    (e.grant = none ∧ ∃ a ∈ s.live, Returns s.pmm a s'.pmm ∧ s'.live = s.live.erase a) := by
  cases h with
  | allocSingle => exact Or.inl ⟨_, rfl, Nat.le_refl 1, mmAllocateSinglePage_books s.pmm, rfl⟩
  | allocMulti h1 hn hres => exact Or.inl ⟨_, rfl, h1, mmAllocateMultiplePages_books h1 hn hres, rfl⟩
  | freeSingle hmem => exact Or.inr ⟨rfl, _, hmem, mmFreeSinglePage_returns _ _, rfl⟩
  | freeMulti hmem => exact Or.inr ⟨rfl, _, hmem, mmFreeMultiplePages_returns _ _ _, rfl⟩

/-! ## The set of pages in use -/

/-- `p` is a page of an allocation that is held. -/
def Sys.Holds (s : Sys) (p : Nat) : Prop := ∃ a ∈ s.live, (pagesOf a).Has p

/-- The number of pages held.  By amounts; that they are different pages is what `Inv` adds. -/
def Sys.pagesHeld (s : Sys) : Nat := (s.live.map Prod.snd).sum

/-- The bitmap is what was marked at the start together with what is held, and the counter is the
    number of pages held.  It is the refinement relation between the bitmap and the set of pages in
    use. -/
structure Exact (s₀ : State) (s : Sys) : Prop where
  inv : Inv s₀ s
  used : ∀ p, s.pmm.used p = true ↔ s₀.used p = true ∨ s.Holds p
  count : s.pmm.pageUsed = s.pagesHeld

variable {s₀ : State} {s s' : Sys} {a : Nat × Nat}

/-- There are no more pages held than pages.  So the guard of the counter never fires in a run. -/
theorem Inv.pagesHeld_le (hi : Inv s₀ s) : s.pagesHeld ≤ s₀.pageCount := by
  have hsum := Region.sum_size_le (List.pairwise_map.mpr hi.apart) (n := s₀.pageCount) (by
    intro r hr p hp
    obtain ⟨a, ha, rfl⟩ := List.mem_map.mp hr
    exact Nat.lt_of_lt_of_le hp.2 (hi.bounds a ha))
  rwa [List.map_map] at hsum

/-- At the start nothing is held, and the counter is zero. -/
theorem exact_start (s₀ : State) (h0 : s₀.pageUsed = 0) : Exact s₀ ⟨s₀, []⟩ :=
  ⟨inv_start s₀, fun _ => (or_iff_left fun ⟨_, ha, _⟩ => absurd ha List.not_mem_nil).symm, h0⟩

/-- A granted run joins the set, and its pages are counted.  The window was clear, so no page of it
    was in the set before, and the pages are counted once. -/
theorem Exact.take (hx : Exact s₀ s) (hn : 1 ≤ a.2) {t : Sys} (hb : Books s.pmm a t.pmm)
    (hlive : t.live = hold a s.live) (hfit : s.pmm.FitClear a.2) : Exact s₀ t := by
  have hinv := inv_grant hx.inv hn hb.grants hlive hfit
  have hle : s.pmm.pageUsed ≤ s.pmm.pageCount := by
    rw [hx.count, show s.pmm.pageCount = s₀.pageCount from congrArg Prod.fst hx.inv.statics]
    exact hx.inv.pagesHeld_le
  refine ⟨hinv, fun p => ?_, ?_⟩
  · rcases hb.grants with ⟨-, hsame, hnull⟩ | ⟨i, hff, haddr, -, hused⟩
    · rw [hsame, hx.used, Sys.Holds, Sys.Holds, hlive, hold, if_pos hnull]
    · -- the pages of the window are those of the run answered
      have hbase : (pagesOf a).base = i := by
        rw [pagesOf, haddr]
        exact pageLocation_address (hfit i hff).1
      have hwin : (i ≤ p ∧ p < i + a.2) ↔ (pagesOf a).Has p := by
        rw [Region.Has, hbase]
        rfl
      rw [hused, Bool.or_eq_true, decide_eq_true_eq, hwin, hx.used, Sys.Holds, Sys.Holds, hlive,
        hold_some (haddr ▸ hff.2.1.1)]
      simp only [List.mem_cons, exists_eq_or_imp]
      exact or_left_comm
  · rw [hb.count hle, hx.count]
    split
    · rename_i hnull
      rw [Sys.pagesHeld, Sys.pagesHeld, hlive, hold, if_pos hnull]
    · rename_i hne
      have hroom := hinv.pagesHeld_le
      have hpc : s.pmm.pageCount = s₀.pageCount := congrArg Prod.fst hx.inv.statics
      have hsum : t.pagesHeld = a.2 + s.pagesHeld := by
        rw [Sys.pagesHeld, hlive, hold_some hne, List.map_cons, List.sum_cons]
        rfl
      omega

/-- A run given back leaves the set, and its pages are no longer counted.  Its pages were held once,
    so none of them is held by another run now. -/
theorem Exact.give (hx : Exact s₀ s) (ha : a ∈ s.live) {t : Sys} (hr : Returns s.pmm a t.pmm)
    (hlive : t.live = s.live.erase a) : Exact s₀ t := by
  have hb := hx.inv.bounds a ha
  have hpc := s₀.pageCount_lt
  have hused := hr.releases.2 (by omega)
  have hperm := List.perm_cons_erase ha
  -- no page of the run is a page of another one
  have hother : ∀ b ∈ s.live.erase a, (pagesOf a).Apart (pagesOf b) :=
    (List.pairwise_cons.mp ((hperm.pairwise_iff (R := fun a b => (pagesOf a).Apart (pagesOf b))
      fun h => h.symm).mp hx.inv.apart)).1
  have hsplit : ∀ p, s.Holds p ↔ (pagesOf a).Has p ∨ t.Holds p := by
    intro p
    rw [Sys.Holds, Sys.Holds, hlive]
    constructor
    · rintro ⟨b, hb, hp⟩
      rcases List.mem_cons.mp (hperm.mem_iff.mp hb) with rfl | hb
      · exact Or.inl hp
      · exact Or.inr ⟨b, hb, hp⟩
    · rintro (hp | ⟨b, hb, hp⟩)
      · exact ⟨a, ha, hp⟩
      · exact ⟨b, List.mem_of_mem_erase hb, hp⟩
  refine ⟨inv_release hx.inv ha hr.releases hlive, fun p => ?_, ?_⟩
  · rw [hused, Bool.and_eq_true, Bool.not_eq_true', decide_eq_false_iff_not, hx.used, hsplit]
    constructor
    · rintro ⟨hno, h0 | hp | hp⟩
      · exact Or.inl h0
      · exact absurd hp hno
      · exact Or.inr hp
    · rintro (h0 | ⟨b, hb, hp⟩)
      · refine ⟨fun hp => ?_, Or.inl h0⟩
        rw [hx.inv.fresh a ha p hp] at h0
        exact absurd h0 Bool.false_ne_true
      · exact ⟨(hother b (hlive ▸ hb)).symm.not_has hp, Or.inr (Or.inr ⟨b, hb, hp⟩)⟩
  · have hsum : s.pagesHeld = a.2 + t.pagesHeld := by
      rw [Sys.pagesHeld, (hperm.map Prod.snd).sum_eq, Sys.pagesHeld, hlive, List.map_cons,
        List.sum_cons]
    rw [hr.count, hx.count]
    omega

/-- The order of what is held does not matter.  It is needed where the runs of two clients are put
    together in one list. -/
theorem Exact.perm {pmm : State} {l l' : List (Nat × Nat)} (hx : Exact s₀ ⟨pmm, l⟩)
    (hp : l.Perm l') : Exact s₀ ⟨pmm, l'⟩ := by
  have hmem : ∀ b, b ∈ l' → b ∈ l := fun b hb => hp.mem_iff.mpr hb
  refine ⟨⟨hx.inv.statics, fun b hb => hx.inv.marked b (hmem b hb),
    fun b hb => hx.inv.fresh b (hmem b hb), fun b hb => hx.inv.pos b (hmem b hb),
    fun b hb => hx.inv.bounds b (hmem b hb), ?_, hx.inv.reserved⟩, fun p => ?_, ?_⟩
  · exact (hp.pairwise_iff fun h => h.symm).mp hx.inv.apart
  · rw [hx.used, Sys.Holds, Sys.Holds]
    exact or_congr_right (exists_congr fun b => and_congr_left' hp.mem_iff)
  · rw [hx.count, Sys.pagesHeld, Sys.pagesHeld]
    exact (hp.map Prod.snd).sum_eq

/-- Every step keeps it.  An allocation takes, a free gives; there is nothing else. -/
theorem Exact.step {e : Event} (hx : Exact s₀ s) (hs : FitStep s e s') : Exact s₀ s' := by
  rcases step_books hs.1 with ⟨a, hea, hn, hb, hlive⟩ | ⟨-, a, ha, hr, hlive⟩
  · exact hx.take hn hb hlive (hs.2 a hea)
  · exact hx.give ha hr hlive

/-- **The bitmap is a ledger of the pages held.**  In every state of every run whose allocations
    meet the condition, a page is marked exactly when it was marked at the start or is held, and
    never for both reasons; no two of the runs held share a page; `MmReturnPageUsed` is the number
    of pages held; and when nothing is held any more, the bitmap is the one of the start, page by
    page.

    The condition of a step is `FitStep`: an allocation asks for one page at least and for no more
    than there are, the window that the search will answer with is clear and starts below page
    `2 ^ 52`, and a free names a run that is held, with its own size.  The crux is
    the clear window: `MmAllocateMultiplePages` compares the pages behind the first one with `SET`,
    which sees a used page only at the lowest bit of its byte, so without the condition a page can
    be granted while it is held.  It would then be counted twice, and the first of the two frees
    would clear the mark that the second client relies on. -/
theorem bitmap_is_ledger (s₀ : State) (h0 : s₀.pageUsed = 0) {h : List Event} {s : Sys}
    (run : Trace FitStep ⟨s₀, []⟩ h s) :
    (∀ p, s.pmm.used p = true ↔ s₀.used p = true ∨ s.Holds p) ∧
    (∀ p, s.Holds p → s₀.used p = false) ∧
    s.live.Pairwise (fun a b => (pagesOf a).Apart (pagesOf b)) ∧
    s.pmm.mmReturnPageUsed = s.pagesHeld ∧
    (s.live = [] → ∀ p, s.pmm.used p = s₀.used p) := by
  have hx : Exact s₀ s := run.inv (I := Exact s₀) (exact_start s₀ h0) fun _ _ _ hi hs => hi.step hs
  refine ⟨hx.used, ?_, hx.inv.apart, hx.count, fun hnone p => ?_⟩
  · rintro p ⟨a, ha, hp⟩
    exact hx.inv.fresh a ha p hp
  · have hno : ¬ s.Holds p := by
      rintro ⟨a, ha, -⟩
      exact absurd (hnone ▸ ha) List.not_mem_nil
    exact Bool.eq_iff_iff.mpr ((hx.used p).trans (or_iff_left hno))

/-- The condition holds when the pages of the run answered are clear. -/
theorem fitClear_of_answer {s s' : State} {fuel n addr : Nat} (h1 : 1 ≤ n) (hn : n ≤ s.pageCount)
    (hpc : s.pageCount ≤ 2 ^ 52) (h : s.mmAllocateMultiplePages fuel n = some (s', addr))
    (hne : addr ≠ null) (hclear : ∀ p, (pagesOf (addr, n)).Has p → s.used p = false) :
    s.FitClear n := by
  rcases mmAllocateMultiplePages_grants h1 hn h with ⟨-, -, hnull⟩ | ⟨i, hfit, rfl, -⟩
  · exact absurd hnull hne
  · intro i' hfit'
    obtain rfl := hfit'.unique hfit
    have hlow : i' < 2 ^ 52 := by
      have := hfit.bounds.2
      omega
    have hbase : (pagesOf (getAddressFromPageLocation i', n)).base = i' := pageLocation_address hlow
    exact ⟨hlow, fun p hp hp' => hclear p (by rw [Region.Has, hbase]; exact ⟨hp, hp'⟩)⟩

/-- A run of three pages is taken from sixteen clear ones, then page 4; then the run is given back.
    One page is in use, and it is page 4. -/
theorem bitmap_is_ledger_clear16 : ∃ h s, Trace FitStep ⟨clear16, []⟩ h s ∧
    s.live = [(0x4000, 1)] ∧ s.pmm.mmReturnPageUsed = 1 ∧
    ∀ p, s.pmm.used p = true ↔ clear16.used p = true ∨ s.Holds p := by
  obtain ⟨s, run, hlive⟩ := clear16_run
  obtain ⟨hused, -, -, hcount, -⟩ := bitmap_is_ledger clear16 rfl run
  refine ⟨_, s, run, hlive, hcount.trans ?_, hused⟩
  rw [Sys.pagesHeld, hlive]
  rfl

end Nearlands.Pmm
