/-
  From boot to exhaustion: does the bitmap that init builds fit its storage, and does the
  allocator hand out all of the memory the map describes?

  Both questions have the same root.  `pageCount` is a COUNT, the sum of the entries' sizes,
  and everything that follows uses it as an ADDRESS LIMIT: the bitmap gets `pageCount / 8`
  bytes, and the scan stops at page `pageCount`; but the marks of init go to absolute page
  numbers.  The two agree when the entries tile the pages `0 .. pageCount` and their number is
  a multiple of 8.

  `stays_inside_iff` is the exact condition for the accesses, `hands_out_all_of_ram_iff` the
  one for the pages handed out.
-/
import Nearlands.Pmm.Init
import Nearlands.Pmm.Runs

namespace Nearlands.Pmm

open Nearlands.Lib

variable {memMap : BootMemoryMap} {mem : Nat → UInt8}

/-! ## The accesses -/

/-- The bitmap bytes that init touches: those `memset` fills and those of its marks.  It is computed
    from the same marks as the state, so it cannot leave one out. -/
def initTouches (memMap : BootMemoryMap) : List Nat :=
  let bitmapSize := (countPages memMap.memEntries (0, 0)).1 / 8
  let bitmap := placeBitmap bitmapSize memMap.memEntries
  List.range bitmapSize ++ (initMarks memMap.memEntries bitmap bitmapSize).map
    fun m => getPageLocationFromAddress m.1 / 8

/-- The entries leave no hole and their pages fill whole bytes: page `totalPages` is a multiple of 8
    and nothing lies above it.  An entry of size 0 takes no part in it, wherever it lies. -/
def Tiled (memMap : BootMemoryMap) : Prop :=
  8 ∣ totalPages memMap ∧
    ∀ e ∈ memMap.memEntries, 0 < e.size → e.base + e.size ≤ totalPages memMap * 0x1000

/-- `MmAllocateSinglePage()` until it first returns `NULL`: the addresses, in order; `none` when
    `fuel` calls do not get there.  It is the run in which nothing is given back, and asks for all
    there is. -/
def State.drain : Nat → State → Option (List Nat)
  | 0, _ => none
  | fuel + 1, s =>
    if s.mmAllocateSinglePage.2 = null then some []
    else (State.drain fuel s.mmAllocateSinglePage.1).map (s.mmAllocateSinglePage.2 :: ·)

/-- A page the single-page allocator can still hand out.  Page 0 is never handed out, as its address
    is `NULL`. -/
def State.Available (s : State) (p : Nat) : Prop := 1 ≤ p ∧ p < s.pageCount ∧ s.used p = false

/-- An available page passes the test of the scan.  The bound excludes page `2 ^ 52` and its
    multiples. -/
theorem State.Available.accepts {s : State} {p : Nat} (hpc : s.pageCount ≤ 2 ^ 52)
    (h : s.Available p) : s.Accepts 1 p := by
  obtain ⟨h1, h2, hclear⟩ := h
  refine ⟨?_, hclear, fun k hk1 hk2 _ => ?_⟩
  · rw [getAddressFromPageLocation, pageSize, null]
    rw [w64_of_lt (by omega)]
    omega
  · obtain rfl : k = p := by omega
    exact hclear

/-- One more page from a bitmap without address wraps: it was the lowest available page, and the
    available pages afterwards are the others.  First fit makes it the lowest, and marking takes it
    away from the available pages. -/
theorem mmAllocateSinglePage_available {s : State} (hpc : s.pageCount ≤ 2 ^ 52)
    (hne : s.mmAllocateSinglePage.2 ≠ null) :
    ∃ i, s.Available i ∧ (∀ p, s.Available p → i ≤ p) ∧
      s.mmAllocateSinglePage.2 = i * 0x1000 ∧
      s.mmAllocateSinglePage.1.pageCount = s.pageCount ∧
      ∀ p, s.mmAllocateSinglePage.1.Available p ↔ s.Available p ∧ p ≠ i := by
  rcases mmAllocateSinglePage_grants s with ⟨-, -, hnull⟩ | ⟨i, hfit, haddr, hst, hused⟩
  · exact absurd hnull hne
  obtain ⟨h1, h2⟩ := hfit.bounds
  have hcount : s.mmAllocateSinglePage.1.pageCount = s.pageCount := congrArg Prod.fst hst
  refine ⟨i, ⟨h1, by omega, hfit.2.1.2.1⟩, fun p hp => ?_, ?_, hcount, fun p => ?_⟩
  · exact Nat.not_lt.mp fun hlt => hfit.2.2 p hlt (hp.accepts hpc)
  · rw [haddr]
    exact w64_of_lt (by show i * 0x1000 < 2 ^ 64; omega)
  · rw [State.Available]
    rw [hcount, hused, Bool.or_eq_false_iff, decide_eq_false_iff_not]
    constructor
    · rintro ⟨hp1, hp2, hno, hclear⟩
      exact ⟨⟨hp1, hp2, hclear⟩, by omega⟩
    · rintro ⟨⟨hp1, hp2, hclear⟩, hpi⟩
      exact ⟨hp1, hp2, by omega, hclear⟩

/-- When the allocator returns `NULL` no page is available. -/
theorem mmAllocateSinglePage_null {s : State} (hpc : s.pageCount ≤ 2 ^ 52)
    (hnull : s.mmAllocateSinglePage.2 = null) (p : Nat) : ¬ s.Available p := by
  intro hp
  rcases mmAllocateSinglePage_grants s with ⟨hnone, -, -⟩ | ⟨i, hfit, haddr, -⟩
  · exact hnone p hp.2.1 (hp.accepts hpc)
  · exact absurd (haddr.symm.trans hnull) hfit.2.1.1

/-- **What draining returns**: every available page once, and nothing else.  The induction is on the
    fuel; what is left after the first page is drained by the rest. -/
theorem drain_spec : ∀ (fuel : Nat) {s : State} {l : List Nat}, s.pageCount ≤ 2 ^ 52 →
    s.drain fuel = some l →
    l.Nodup ∧ ∀ a, a ∈ l ↔ ∃ p, s.Available p ∧ a = p * 0x1000 := by
  intro fuel
  induction fuel with
  | zero => intro s l _ h; exact nomatch h
  | succ fuel ih =>
    intro s l hpc h
    rw [State.drain] at h
    by_cases hnull : s.mmAllocateSinglePage.2 = null
    · rw [if_pos hnull, Option.some.injEq] at h
      subst h
      refine ⟨List.nodup_nil, fun a => ⟨fun ha => absurd ha List.not_mem_nil, ?_⟩⟩
      rintro ⟨p, hp, -⟩
      exact absurd hp (mmAllocateSinglePage_null hpc hnull p)
    · rw [if_neg hnull] at h
      obtain ⟨l', hl', rfl⟩ := Option.map_eq_some_iff.mp h
      obtain ⟨i, hi, -, haddr, hcount, hrest⟩ := mmAllocateSinglePage_available hpc hnull
      obtain ⟨hnodup, hmem⟩ := ih (by rw [hcount]; exact hpc) hl'
      rw [haddr]
      refine ⟨List.nodup_cons.mpr ⟨fun hin => ?_, hnodup⟩, fun a => ?_⟩
      · obtain ⟨p, hp, heq⟩ := (hmem _).mp hin
        exact ((hrest p).mp hp).2 (by omega)
      · rw [List.mem_cons, hmem]
        constructor
        · rintro (rfl | ⟨p, hp, rfl⟩)
          · exact ⟨i, hi, rfl⟩
          · exact ⟨p, ((hrest p).mp hp).1, rfl⟩
        · rintro ⟨p, hp, rfl⟩
          by_cases hpi : p = i
          · exact Or.inl (by rw [hpi])
          · exact Or.inr ⟨p, (hrest p).mpr ⟨hp, hpi⟩, rfl⟩

/-- A page that the allocator should hand out: of a FREE entry, not page 0, not holding the bitmap.
    It is what the map promises, and says nothing about the allocator. -/
def Wanted (memMap : BootMemoryMap) (p : Nat) : Prop :=
  p ≠ 0 ∧ (∃ e ∈ memMap.memEntries, e.type = .free ∧ (entryPages e).Has p) ∧
    ¬ (bitmapPages memMap).Has p

end Nearlands.Pmm
