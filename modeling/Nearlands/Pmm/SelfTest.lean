/-
  The self test of the page allocator (`mm/amd64pc/pmm.c`).

  `MmTestPhysicalMemoryManager` takes a page, then runs of 11 and 2, gives some of it back and
  looks whether the next runs come from the same places.  What it gives back is not what it took:
  the single page stays, of the 11 pages 10 go back, and where it got 2 pages it frees 11.

  So the bitmap is the one from before only if the test gives up at its first line, which is when no
  page is left (`test_leaves_bitmap_iff`).  That a page changes on every other path is argued with the
  pages where the runs start.  Their numbers may lie beyond `2 ^ 52`, where the address that is
  given back is that of a lower page: then the start itself is the page that stays marked.
-/
import Nearlands.Pmm.Calls
import Nearlands.Pmm.Init

namespace Nearlands.Pmm

open Nearlands.Lib

/-- `MmTestPhysicalMemoryManager()`; `none` when a scan does not end within `fuel`.  The names are
    those of the source; the messages that it prints between the steps are left out. -/
def State.mmTestPhysicalMemoryManager (fuel : Nat) (s : State) : Option (State × Bool) :=
  let r := s.mmAllocateSinglePage
  let s := r.1
  let o := r.2
  if o = null then some (s, false)
  else
    (s.mmAllocateMultiplePages fuel 11).bind fun r =>
      let s := r.1
      let h := r.2
      (s.mmAllocateMultiplePages fuel 2).bind fun r =>
        let s := r.1
        let p := r.2
        if h = null ∨ p = null then some (s, false)
        else
          let hAddress := h
          let s := (s.mmFreeMultiplePages h 10).1
          (s.mmAllocateMultiplePages fuel 10).bind fun r =>
            let s := r.1
            let c := r.2
            if c = null then some (s, false)
            else if c ≠ hAddress then
              let s := (s.mmFreeMultiplePages p 2).1
              let s := (s.mmFreeMultiplePages c 10).1
              some (s, false)
            else
              let pAddress := p
              let s := (s.mmFreeMultiplePages p 2).1
              (s.mmAllocateMultiplePages fuel 2).bind fun r =>
                let s := r.1
                let l := r.2
                if l = null then some (s, false)
                else if l ≠ pAddress then
                  let s := (s.mmFreeMultiplePages c 10).1
                  let s := (s.mmFreeMultiplePages l 11).1
                  some (s, false)
                else
                  let s := (s.mmFreeMultiplePages c 10).1
                  let s := (s.mmFreeMultiplePages l 11).1
                  some (s, true)

/-! ## The pages the test takes first -/

/-- The allocations the test starts with, from `s`: page `o`, 11 pages at `i` and 2 at `k`.  All
    later paths start here, so they are argued about with these three places only. -/
structure Opening (s s₁ s₂ s₃ : State) (o i k : Nat) : Prop where
  free : s.used o = false
  lowest : ∀ q, q < o → wrapped q ≠ 0 → s.used q = true
  single : ∀ q, s₁.used q = (decide (q = o) || s.used q)
  eleven : TakesAt s₁ 11 i s₂
  two : TakesAt s₂ 2 k s₃

section Opening

variable {s s₁ s₂ s₃ : State} {o i k : Nat}

/-- Page `o` is the lowest page that can be given out.  It is the first fit of a single page. -/
theorem Opening.le_of_clear (op : Opening s s₁ s₂ s₃ o i k) {q : Nat} (h0 : wrapped q ≠ 0)
    (hq : s.used q = false) : o ≤ q := by
  by_contra hlt
  rw [op.lowest q (Nat.lt_of_not_le hlt) h0] at hq
  exact absurd hq (by decide)

/-- The page of the first allocation is marked after it. -/
theorem Opening.marks_single (op : Opening s s₁ s₂ s₃ o i k) : s₁.used o = true := by
  rw [op.single, decide_eq_true rfl, Bool.true_or]

/-- What is clear after the first allocation was clear before, and is not its page. -/
theorem Opening.clear_before (op : Opening s s₁ s₂ s₃ o i k) {q : Nat} (hq : s₁.used q = false) :
    q ≠ o ∧ s.used q = false := by
  rw [op.single, Bool.or_eq_false_iff] at hq
  exact ⟨of_decide_eq_false hq.1, hq.2⟩

/-- The 11 pages begin at a page that was clear from the start. -/
theorem Opening.clear_eleven (op : Opening s s₁ s₂ s₃ o i k) : i ≠ o ∧ s.used i = false :=
  op.clear_before op.eleven.passes.2.1

/-- And so do the two pages. -/
theorem Opening.clear_two (op : Opening s s₁ s₂ s₃ o i k) : k ≠ o ∧ s.used k = false := by
  refine op.clear_before ?_
  by_contra hset
  have hkept := op.eleven.keeps k (Bool.eq_true_of_not_eq_false hset)
  rw [op.two.passes.2.1] at hkept
  exact absurd hkept (by decide)

/-- A place for 11 pages above page `o` that was clear before is where they are taken, or above. -/
theorem Opening.eleven_le (op : Opening s s₁ s₂ s₃ o i k) {l : Nat} (hl : l < 2 ^ 52)
    (h0 : wrapped l ≠ 0) (hol : o < l) (hclear : ∀ q, l ≤ q → q < l + 11 → s.used q = false) :
    i ≤ l := by
  refine op.eleven.first l (passes_of_clear (by decide) (by omega) h0 fun q hle hlt => ?_)
  rw [op.single, hclear q hle hlt, Bool.or_false]
  exact decide_eq_false (by omega)

/-- If nothing but the pages `D` is given back besides the ten pages of `h`, and the bitmap is the
    one from before, then `D` has the start of the 11 pages, or page `o`.  Ten pages of eleven go
    back, so the eleventh would have to be given back by somebody; `D` is what else the path gives
    back. -/
theorem Opening.given_back (op : Opening s s₁ s₂ s₃ o i k) {D : Nat → Prop} {t : State}
    (hkeep : ∀ q, s₃.used q = true → ¬ (wrapped i ≤ q ∧ q < wrapped i + 10) → ¬ D q →
      t.used q = true)
    (hsame : ∀ q, t.used q = s.used q) :
    (2 ^ 52 ≤ i ∧ D i) ∨ (i < 2 ^ 52 ∧ o < i ∧ D o) := by
  have hwi := wrapped_lt i
  have hstays : ∀ q, s₃.used q = true → s.used q = false →
      ¬ (wrapped i ≤ q ∧ q < wrapped i + 10) → D q := by
    intro q hq hclear hout
    by_contra hD
    have hset := hkeep q hq hout hD
    rw [hsame, hclear] at hset
    exact absurd hset (by decide)
  rcases Nat.lt_or_ge i (2 ^ 52) with hi | hi
  · have hoi : o < i := by
      have hle := op.le_of_clear op.eleven.passes.1 op.clear_eleven.2
      have hne := op.clear_eleven.1
      omega
    refine Or.inr ⟨hi, hoi, hstays o ?_ op.free ?_⟩
    · exact op.two.keeps o (op.eleven.keeps o op.marks_single)
    · rw [wrapped_of_lt hi]
      omega
  · refine Or.inl ⟨hi, hstays i (op.two.keeps i op.eleven.start) op.clear_eleven.2 ?_⟩
    rw [wrapped] at hwi ⊢
    omega

/-- If freeing the two pages gave page `o` back, they start beyond the addresses.  Such a start has
    the address of a lower page, which is the only way for two pages behind the others to reach page
    `o`. -/
theorem Opening.far (op : Opening s s₁ s₂ s₃ o i k) (hi : i < 2 ^ 52)
    (hclear : s.used (wrapped k) = false) (hle : wrapped k ≤ o) : wrapped k = o ∧ i + 11 ≤ k := by
  have hok : o ≤ wrapped k :=
    op.le_of_clear (by rw [wrapped_wrapped]; exact op.two.passes.1) hclear
  have hko := op.clear_two.1
  have hfar : 2 ^ 52 ≤ k := by
    by_contra hlt
    rw [wrapped_of_lt (Nat.lt_of_not_le hlt)] at hok hle
    omega
  refine ⟨by omega, ?_⟩
  by_contra hlt
  -- otherwise page `k` is in the window of the 11 pages
  have hset := op.eleven.window (k - i) (by omega)
  rw [show i + (k - i) = k by omega, w64_of_lt (by omega), op.two.passes.2.1] at hset
  exact absurd hset (by decide)

/-- Then page `k` stays marked, unless it is given back otherwise.  So on these paths one of the two
    pages, `o` or `k`, remains marked. -/
theorem Opening.two_stay (op : Opening s s₁ s₂ s₃ o i k) {D : Nat → Prop} {t : State}
    (hkeep : ∀ q, s₃.used q = true → ¬ (wrapped i ≤ q ∧ q < wrapped i + 10) → ¬ D q →
      t.used q = true)
    (hsame : ∀ q, t.used q = s.used q) (hi : i < 2 ^ 52) (hclear : t.used (wrapped k) = false)
    (hle : wrapped k ≤ o) (hD : wrapped k = o → i + 11 ≤ k → ¬ D k) : False := by
  obtain ⟨hko, hik⟩ := op.far hi (by rw [← hsame, hclear]) hle
  have hset := hkeep k op.two.start (by rw [wrapped_of_lt hi]; omega) (hD hko hik)
  rw [hsame, op.clear_two.2] at hset
  exact absurd hset (by decide)

/-! ## No path leaves the bitmap as it was -/

/-- `MmAllocateMultiplePages(10)` returned `NULL`.  Nothing but the ten pages of `h` has been given
    back on this path. -/
theorem Opening.changed_no_ten (op : Opening s s₁ s₂ s₃ o i k) :
    ¬ ∀ q, (s₃.mmFreeMultiplePages (getAddressFromPageLocation i) 10).1.used q = s.used q := by
  intro hsame
  rcases op.given_back (D := fun _ => False)
    (fun q hq hout _ => free_keeps (by decide) hq hout) hsame with ⟨-, hD⟩ | ⟨-, -, hD⟩
  · exact hD
  · exact hD

/-- The ten pages freed last are found again, or pages below them.  Their place is clear again, and
    the search takes the lowest. -/
theorem Opening.ten_le {s₅ : State} {j : Nat} (op : Opening s s₁ s₂ s₃ o i k)
    (hten : TakesAt (s₃.mmFreeMultiplePages (getAddressFromPageLocation i) 10).1 10 j s₅) :
    j ≤ wrapped i := by
  have hwi := wrapped_lt i
  refine hten.first _ (passes_of_clear (by decide) (by omega) ?_
    fun q hle hlt => free_clears s₃ (by decide) hle hlt)
  rw [wrapped_wrapped]
  exact op.eleven.passes.1

/-- What stays marked up to the free of the two pages.  The two places given back are the only ones
    where a mark may have gone. -/
theorem kept_to_two {s₅ : State} {j : Nat}
    (hten : TakesAt (s₃.mmFreeMultiplePages (getAddressFromPageLocation i) 10).1 10 j s₅) :
    ∀ q, s₃.used q = true → ¬ (wrapped i ≤ q ∧ q < wrapped i + 10) →
      ¬ (wrapped k ≤ q ∧ q < wrapped k + 2) →
      (s₅.mmFreeMultiplePages (getAddressFromPageLocation k) 2).1.used q = true := by
  intro q hq hten' htwo'
  exact free_keeps (by decide) (hten.keeps q (free_keeps (by decide) hq hten')) htwo'

/-- `MmAllocateMultiplePages(10)` found pages below those of `h`.  The pages of `h` have been given
    back and are not taken again, while those found now go back as well. -/
theorem Opening.changed_other_ten {s₅ : State} {j : Nat} (op : Opening s s₁ s₂ s₃ o i k)
    (hten : TakesAt (s₃.mmFreeMultiplePages (getAddressFromPageLocation i) 10).1 10 j s₅)
    (hne : getAddressFromPageLocation j ≠ getAddressFromPageLocation i) :
    ¬ ∀ q, ((s₅.mmFreeMultiplePages (getAddressFromPageLocation k) 2).1.mmFreeMultiplePages
      (getAddressFromPageLocation j) 10).1.used q = s.used q := by
  intro hsame
  have hji := op.ten_le hten
  have hwi := wrapped_lt i
  have hwk := wrapped_lt k
  have hwj : wrapped j = j := wrapped_of_lt (by omega)
  have hlt : j < wrapped i := by
    refine Nat.lt_of_le_of_ne hji fun heq => hne ?_
    rw [heq, wrapped, getAddressFromPageLocation, getAddressFromPageLocation, w64, w64, pageSize]
    omega
  -- a page stays marked unless it is among the ten or the two that go back
  have hkeep : ∀ q, s₃.used q = true → ¬ (wrapped i ≤ q ∧ q < wrapped i + 10) →
      ¬ ((wrapped k ≤ q ∧ q < wrapped k + 2) ∨ (j ≤ q ∧ q < j + 10)) →
      ((s₅.mmFreeMultiplePages (getAddressFromPageLocation k) 2).1.mmFreeMultiplePages
        (getAddressFromPageLocation j) 10).1.used q = true := by
    intro q hq hout hD
    rw [← hwj] at hD
    refine free_keeps (by decide) (kept_to_two hten q hq hout ?_) ?_
    · exact fun h => hD (Or.inl h)
    · exact fun h => hD (Or.inr h)
  -- as nothing has changed, page `o` went back with one of them
  rcases op.given_back hkeep hsame with ⟨hi, hD⟩ | ⟨hi, hoi, hD⟩
  · rw [wrapped] at hwi hlt hji
    omega
  · rw [wrapped_of_lt hi] at hlt
    rcases hD with ⟨hle, -⟩ | ⟨hle, -⟩
    · -- page `o` went back with the two pages, so it is page `k` that stays
      refine op.two_stay hkeep hsame hi ?_ hle (by omega)
      exact free_clear (by decide) (free_clears s₅ (by decide) (Nat.le_refl _) (by omega))
    · -- page `o` went back with the ten pages: they would start at it
      have hclear : s.used j = false := by
        rw [← hsame]
        exact free_clears _ (by decide) (Nat.le_of_eq hwj) (by omega)
      have hoj : o ≤ j := op.le_of_clear hten.passes.1 hclear
      obtain rfl : o = j := Nat.le_antisymm hoj hle
      have hset : (s₃.mmFreeMultiplePages (getAddressFromPageLocation i) 10).1.used o = true := by
        refine free_keeps (by decide) ?_ (by rw [wrapped_of_lt hi]; omega)
        exact op.two.keeps o (op.eleven.keeps o op.marks_single)
      rw [hten.passes.2.1] at hset
      exact absurd hset (by decide)

/-- The second `MmAllocateMultiplePages(2)` returned `NULL`.  Of the eleven pages of `h` ten are
    back in use, and the two have been given back. -/
theorem Opening.changed_no_two {s₅ : State} {j : Nat} (op : Opening s s₁ s₂ s₃ o i k)
    (hten : TakesAt (s₃.mmFreeMultiplePages (getAddressFromPageLocation i) 10).1 10 j s₅) :
    ¬ ∀ q, (s₅.mmFreeMultiplePages (getAddressFromPageLocation k) 2).1.used q = s.used q := by
  intro hsame
  have hwi := wrapped_lt i
  have hwk := wrapped_lt k
  have hkeep := kept_to_two (k := k) hten
  rcases op.given_back hkeep hsame with ⟨hi, hD⟩ | ⟨hi, hoi, hD⟩
  · have hi0 := op.eleven.passes.1
    rw [wrapped] at hwi hi0
    omega
  · refine op.two_stay hkeep hsame hi ?_ hD.1 (by omega)
    exact free_clears s₅ (by decide) (Nat.le_refl _) (by omega)

/-- The second `MmAllocateMultiplePages(2)` found pages: they go back as 11.  This is the path that
    answers `TRUE`, and the one with another place for the two pages, which differ only in the
    answer. -/
theorem Opening.changed_two {s₅ s₇ : State} {j l : Nat} (op : Opening s s₁ s₂ s₃ o i k)
    (hten : TakesAt (s₃.mmFreeMultiplePages (getAddressFromPageLocation i) 10).1 10 j s₅)
    (htwo : TakesAt (s₅.mmFreeMultiplePages (getAddressFromPageLocation k) 2).1 2 l s₇) :
    ¬ ∀ q, ((s₇.mmFreeMultiplePages (getAddressFromPageLocation i) 10).1.mmFreeMultiplePages
      (getAddressFromPageLocation l) 11).1.used q = s.used q := by
  intro hsame
  have hwi := wrapped_lt i
  have hwk := wrapped_lt k
  have hlk : l ≤ wrapped k := by
    refine htwo.first _ (passes_of_clear (by decide) (by omega) ?_
      fun q hle hlt => free_clears s₅ (by decide) hle hlt)
    rw [wrapped_wrapped]
    exact op.two.passes.1
  have hwl : wrapped l = l := wrapped_of_lt (by omega)
  -- what the last two calls free was clear before, or it would have changed
  have hlast : ∀ q, l ≤ q → q < l + 11 → s.used q = false := by
    intro q hle hlt
    rw [← hsame]
    exact free_clears _ (by decide) (by omega) (by omega)
  have hfirst : s.used (wrapped i) = false := by
    rw [← hsame]
    exact free_clear (by decide) (free_clears s₇ (by decide) (Nat.le_refl _) (by omega))
  have hol : o ≤ l := op.le_of_clear htwo.passes.1 (hlast l (Nat.le_refl l) (by omega))
  have hmid := kept_to_two (k := k) hten
  have hkeep : ∀ q, s₃.used q = true → ¬ (wrapped i ≤ q ∧ q < wrapped i + 10) →
      ¬ ((wrapped k ≤ q ∧ q < wrapped k + 2) ∨ (l ≤ q ∧ q < l + 11)) →
      ((s₇.mmFreeMultiplePages (getAddressFromPageLocation i) 10).1.mmFreeMultiplePages
        (getAddressFromPageLocation l) 11).1.used q = true := by
    intro q hq hout hD
    rw [← hwl] at hD
    refine free_keeps (by decide) (free_keeps (by decide) (htwo.keeps q ?_) hout) ?_
    · exact hmid q hq hout fun h => hD (Or.inl h)
    · exact fun h => hD (Or.inr h)
  rcases op.given_back hkeep hsame with ⟨hi, hD⟩ | ⟨hi, hoi, hD⟩
  · -- the 11 pages at `l` reach up to `i`: then they were a place for the 11 pages at `i`
    have hoi : o ≤ wrapped i :=
      op.le_of_clear (by rw [wrapped_wrapped]; exact op.eleven.passes.1) hfirst
    have hi0 := op.eleven.passes.1
    have hol : o < l := by
      rw [wrapped] at hwi hi0 hoi
      omega
    have hil := op.eleven_le (by omega) htwo.passes.1 hol hlast
    omega
  · by_cases hk : wrapped k ≤ o ∧ o < wrapped k + 2
    · refine op.two_stay hkeep hsame hi ?_ hk.1 (by omega)
      rw [hsame]
      exact hlast _ hlk (by omega)
    · obtain rfl : o = l := by omega
      have hset := hmid o (op.two.keeps o (op.eleven.keeps o op.marks_single))
        (by rw [wrapped_of_lt hi]; omega) hk
      rw [htwo.passes.2.1] at hset
      exact absurd hset (by decide)

end Opening

/-! ## The test as a whole -/

/-- The first page, if there is one.  Where there is none the test ends at once, and the bitmap is
    not touched. -/
theorem mmAllocateSinglePage_lowest (s : State) :
    (s.mmAllocateSinglePage = (s, null) ∧ s.FirstFit 1 none) ∨
    ∃ o, s.mmAllocateSinglePage.2 ≠ null ∧ o < s.pageCount ∧ getAddressFromPageLocation o ≠ null ∧
      s.used o = false ∧ (∀ q, q < o → wrapped q ≠ 0 → s.used q = true) ∧
      ∀ q, s.mmAllocateSinglePage.1.used q = (decide (q = o) || s.used q) := by
  rcases mmAllocateSinglePage_grants s with ⟨hfit, hs, haddr⟩ | ⟨o, ⟨hlt, hacc, hmin⟩, haddr, -, hused⟩
  · exact Or.inl ⟨Prod.ext hs haddr, hfit⟩
  · refine Or.inr ⟨o, haddr ▸ hacc.1, by omega, hacc.1, hacc.2.1, fun q hq h0 => ?_, fun q => ?_⟩
    · refine Bool.eq_true_of_not_eq_false fun hclear =>
        hmin q hq ⟨(address_ne_null q).mpr h0, hclear, fun k hqk hkq _ => ?_⟩
      obtain rfl : k = q := by omega
      exact hclear
    · rw [hused]
      congr 2
      exact propext ⟨fun _ => by omega, fun _ => by omega⟩

/-- Once the test has a page, it returns with another bitmap.  One case for each `return` of the
    source, in its order; each is one of the lemmas above. -/
theorem test_changes_bitmap {s s' : State} {fuel o : Nat} {ok : Bool}
    (ho : s.mmAllocateSinglePage.2 ≠ null) (hfree : s.used o = false)
    (hlow : ∀ q, q < o → wrapped q ≠ 0 → s.used q = true)
    (hused : ∀ q, s.mmAllocateSinglePage.1.used q = (decide (q = o) || s.used q))
    (h : s.mmTestPhysicalMemoryManager fuel = some (s', ok)) :
    ¬ ∀ q, s'.used q = s.used q := by
  rw [State.mmTestPhysicalMemoryManager] at h
  dsimp only at h
  rw [if_neg ho] at h
  obtain ⟨⟨s₂, a⟩, ha, h⟩ := Option.bind_eq_some_iff.mp h
  obtain ⟨⟨s₃, b⟩, hb, h⟩ := Option.bind_eq_some_iff.mp h
  dsimp only at hb h
  split at h
  · -- page `o` is not given back
    obtain ⟨rfl, -⟩ := Prod.mk.inj (Option.some.inj h)
    intro hsame
    have hset := mmAllocateMultiplePages_keeps hb o (mmAllocateMultiplePages_keeps ha o
      (by rw [hused, decide_eq_true rfl, Bool.true_or]))
    rw [hsame, hfree] at hset
    exact absurd hset (by decide)
  rename_i hnull
  obtain ⟨i, rfl, hi⟩ := mmAllocateMultiplePages_found ha fun ha => hnull (Or.inl ha)
  obtain ⟨k, rfl, hk⟩ := mmAllocateMultiplePages_found hb fun hb => hnull (Or.inr hb)
  have op : Opening s s.mmAllocateSinglePage.1 s₂ s₃ o i k := ⟨hfree, hlow, hused, hi, hk⟩
  obtain ⟨⟨s₅, c⟩, hc, h⟩ := Option.bind_eq_some_iff.mp h
  dsimp only at hc h
  rcases mmAllocateMultiplePages_takes hc with ⟨hcnull, hsame, -⟩ | ⟨j, rfl, hcnull, hj⟩
  · rw [if_pos hcnull, Option.some.injEq, Prod.mk.injEq, hsame] at h
    rw [← h.1]
    exact op.changed_no_ten
  rw [if_neg hcnull] at h
  split at h
  · rename_i hne
    rw [Option.some.injEq, Prod.mk.injEq] at h
    rw [← h.1]
    exact op.changed_other_ten hj hne
  rename_i hsame
  rw [not_not.mp hsame] at h
  obtain ⟨⟨s₇, d⟩, hd, h⟩ := Option.bind_eq_some_iff.mp h
  dsimp only at hd h
  rcases mmAllocateMultiplePages_takes hd with ⟨hdnull, hsame, -⟩ | ⟨l, rfl, hdnull, hl⟩
  · rw [if_pos hdnull, Option.some.injEq, Prod.mk.injEq, hsame] at h
    rw [← h.1]
    exact op.changed_no_two hj
  rw [if_neg hdnull] at h
  -- what the test then answers is all the last comparison decides
  split at h
  · rw [Option.some.injEq, Prod.mk.injEq] at h
    rw [← h.1]
    exact op.changed_two hj hl
  · rw [Option.some.injEq, Prod.mk.injEq] at h
    rw [← h.1]
    exact op.changed_two hj hl

/-- **The self test leaves the bitmap as it was only if there is no page to take**: whatever path it
    returns on.  The condition is about the state before: no page can be handed out.  Then the test
    reports failure and has changed nothing.  On every other path a page is different afterwards,
    although which one depends on the path and on whether page numbers exceed what an address can
    say. -/
theorem test_leaves_bitmap_iff {s s' : State} {fuel : Nat} {ok : Bool}
    (h : s.mmTestPhysicalMemoryManager fuel = some (s', ok)) :
    s'.bytes = s.bytes ↔
      ∀ p, p < s.pageCount → getAddressFromPageLocation p ≠ null → s.used p = true := by
  rcases mmAllocateSinglePage_lowest s with ⟨hnone, hfit⟩ | ⟨o, ho, hlt, haddr, hfree, hlow, hused⟩
  · rw [State.mmTestPhysicalMemoryManager, hnone] at h
    dsimp only at h
    rw [if_pos rfl] at h
    obtain ⟨rfl, -⟩ := Prod.mk.inj (Option.some.inj h)
    refine ⟨fun _ p hp ha => ?_, fun _ => rfl⟩
    refine Bool.eq_true_of_not_eq_false fun hclear =>
      hfit p (by omega) ⟨ha, hclear, fun k hpk hkp _ => ?_⟩
    obtain rfl : k = p := by omega
    exact hclear
  · constructor
    · intro hsame
      refine absurd (fun q => ?_) (test_changes_bitmap ho hfree hlow hused h)
      rw [State.used, State.used, hsame]
    · intro hall
      have hset := hall o hlt haddr
      rw [hfree] at hset
      exact absurd hset (by decide)

/-- 32 pages, of which the firmware keeps page 17.  The firmware's page lies where the eleven pages
    that are freed for the two will reach. -/
def reservedMap : BootMemoryMap :=
  ⟨[⟨0, 0x11000, .free⟩, ⟨0x11000, 0x1000, .used⟩, ⟨0x12000, 0xe000, .free⟩]⟩

/-- The bitmap that init makes for them. -/
def reservedPage : State := (mmInitPhysicalMemoryManager (fun _ => 0) reservedMap).1

/-- What the test does to two of the pages, and what it answers. -/
theorem reservedPage_run :
    (reservedPage.mmTestPhysicalMemoryManager 33).map (fun r => (r.1.used 1, r.1.used 17, r.2)) =
      some (true, false, true) := by decide +kernel

/-- **The self test frees a reserved page**: it answers `TRUE`, page 17 is free now, and page 1,
    which was free, is in use. -/
theorem test_frees_reserved_page :
    ∃ s', reservedPage.mmTestPhysicalMemoryManager 33 = some (s', true) ∧
      reservedPage.used 17 = true ∧ s'.used 17 = false ∧
      reservedPage.used 1 = false ∧ s'.used 1 = true := by
  obtain ⟨⟨s', ok⟩, hrun, hpages⟩ := Option.map_eq_some_iff.mp reservedPage_run
  obtain ⟨h1, h17, rfl⟩ : s'.used 1 = true ∧ s'.used 17 = false ∧ ok = true := by
    simpa using hpages
  exact ⟨s', hrun, by decide, h17, by decide, h1⟩

/-- There the test has a page to take, so the bitmap is not the one from before. -/
theorem reservedPage_changes :
    ∃ s', reservedPage.mmTestPhysicalMemoryManager 33 = some (s', true) ∧
      s'.bytes ≠ reservedPage.bytes := by
  obtain ⟨⟨s', ok⟩, hrun, hpages⟩ := Option.map_eq_some_iff.mp reservedPage_run
  obtain rfl : ok = true := congrArg (fun r => r.2.2) hpages
  refine ⟨s', hrun, fun hsame => ?_⟩
  have hset := (test_leaves_bitmap_iff hrun).mp hsame 1 (by decide) (by decide)
  exact absurd hset (by decide)

/-! ## The test ends -/

/-- An allocation ends, and the number of pages stays what it is. -/
theorem mmAllocateMultiplePages_ends {s : State} {fuel n : Nat} (h1 : 1 ≤ n) (hn : n ≤ s.pageCount)
    (hfuel : s.pageCount < fuel) :
    ∃ s' addr, s.mmAllocateMultiplePages fuel n = some (s', addr) ∧ s'.pageCount = s.pageCount := by
  obtain ⟨s', addr, h⟩ := mmAllocateMultiplePages_total s h1 hn hfuel
  refine ⟨s', addr, h, ?_⟩
  rcases mmAllocateMultiplePages_grants h1 hn h with ⟨-, rfl, -⟩ | ⟨_, -, -, hst, -⟩
  · rfl
  · exact congrArg Prod.fst hst

/-- A free leaves the number of pages. -/
theorem pageCount_mmFreeMultiplePages (s : State) (addr n : Nat) :
    (s.mmFreeMultiplePages addr n).1.pageCount = s.pageCount :=
  congrArg Prod.fst (mmFreeMultiplePages_releases s addr n).1

/-- **The self test returns** when the bitmap has the 11 pages it asks for.  With fewer pages the
    bound of a search wraps, and the search need not end. -/
theorem test_returns (s : State) {fuel : Nat} (h11 : 11 ≤ s.pageCount) (hfuel : s.pageCount < fuel) :
    ∃ s' ok, s.mmTestPhysicalMemoryManager fuel = some (s', ok) := by
  have hone : s.mmAllocateSinglePage.1.pageCount = s.pageCount := by
    rcases mmAllocateSinglePage_grants s with ⟨-, hs, -⟩ | ⟨_, -, -, hst, -⟩
    · rw [hs]
    · exact congrArg Prod.fst hst
  rw [State.mmTestPhysicalMemoryManager]
  dsimp only
  by_cases ho : s.mmAllocateSinglePage.2 = null
  · rw [if_pos ho]
    exact ⟨_, _, rfl⟩
  have hlt₁ : s.mmAllocateSinglePage.1.pageCount < fuel := by omega
  -- each search of the test ends, since `pageCount` stays and the fuel is above it
  obtain ⟨s₂, h, hh, hc₂⟩ := mmAllocateMultiplePages_ends (n := 11) (by decide) (by omega) hlt₁
  have hlt₂ : s₂.pageCount < fuel := by omega
  obtain ⟨s₃, p, hp, hc₃⟩ := mmAllocateMultiplePages_ends (n := 2) (by decide) (by omega) hlt₂
  rw [if_neg ho, hh, Option.bind_some, hp, Option.bind_some]
  dsimp only
  by_cases hnull : h = null ∨ p = null
  · rw [if_pos hnull]
    exact ⟨_, _, rfl⟩
  have hc₄ := pageCount_mmFreeMultiplePages s₃ h 10
  have hlt₄ : (s₃.mmFreeMultiplePages h 10).1.pageCount < fuel := by omega
  obtain ⟨s₅, c, hc, hc₅⟩ := mmAllocateMultiplePages_ends (n := 10) (by decide) (by omega) hlt₄
  rw [if_neg hnull, hc, Option.bind_some]
  dsimp only
  by_cases hcnull : c = null
  · rw [if_pos hcnull]
    exact ⟨_, _, rfl⟩
  rw [if_neg hcnull]
  by_cases hne : c ≠ h
  · rw [if_pos hne]
    exact ⟨_, _, rfl⟩
  have hc₆ := pageCount_mmFreeMultiplePages s₅ p 2
  have hlt₆ : (s₅.mmFreeMultiplePages p 2).1.pageCount < fuel := by omega
  obtain ⟨s₇, l, hl, -⟩ := mmAllocateMultiplePages_ends (n := 2) (by decide) (by omega) hlt₆
  rw [if_neg hne, hl, Option.bind_some]
  dsimp only
  by_cases hlnull : l = null
  · rw [if_pos hlnull]
    exact ⟨_, _, rfl⟩
  rw [if_neg hlnull]
  by_cases hlp : l ≠ p
  · rw [if_pos hlp]
    exact ⟨_, _, rfl⟩
  · rw [if_neg hlp]
    exact ⟨_, _, rfl⟩

end Nearlands.Pmm
