/-
  Runs of the bitmap allocator: who holds which pages.

  `Sys` is the allocator together with the allocations its clients hold, `Step` one call: either
  allocator, or a free of an allocation that is held, with the size it was made with.  The
  invariant `Inv` says what the bitmap is for: every page held is marked, was clear when the run
  began, and is held once.

  It does NOT survive every step.  `MmAllocateMultiplePages` tests the pages of a window with
  `== SET`, which sees a used page only at a multiple of 8 (`getBitInBitmap_eq_SET`), so the
  first window it accepts may hold a used page; `multi_crosses_used_page` is such a run.
  `FitClear` is the exact condition on the bitmap under which an allocation is sound
  (`grants_safe_iff`), and in every run whose allocations all meet it no page is handed out
  twice (`no_page_handed_out_twice`).
-/
import Nearlands.Pmm.Scan
import Nearlands.Pages
import Nearlands.Lib.Trace

namespace Nearlands.Pmm

open Nearlands.Lib

/-! ## The system -/

/-- The allocator and the allocations held, as (address, amount).  What is held is ghost state: the
    allocator itself keeps only the bits. -/
structure Sys where
  pmm : State
  live : List (Nat × Nat)

/-- A call, with the address it returned or was given.  The history of a run is a list of these, so
    that a run can be written down by its calls. -/
inductive Event
  | allocSingle (addr : Nat)
  | allocMulti (amount addr : Nat)
  | freeSingle (addr : Nat)
  | freeMulti (addr amount : Nat)
  deriving DecidableEq, Repr

/-- The allocation a call asks for and what it got: (address, amount).  Frees ask for nothing. -/
def Event.grant : Event → Option (Nat × Nat)
  | .allocSingle addr => some (addr, 1)
  | .allocMulti amount addr => some (addr, amount)
  | _ => none

/-- The page numbers of an allocation.  They are read off the address, as a free reads them, and not
    taken from the search. -/
def pagesOf (a : Nat × Nat) : Region := ⟨getPageLocationFromAddress a.1, a.2⟩

/-- One call.  Frees are of held allocations, with their own size.  A request is for at least one
    page and at most as many as there are; the wrapped requests are left to `Pmm.Bounds`. -/
inductive Step : Sys → Event → Sys → Prop
  | allocSingle (s : Sys) :
      Step s (.allocSingle s.pmm.mmAllocateSinglePage.2)
        ⟨s.pmm.mmAllocateSinglePage.1, hold (s.pmm.mmAllocateSinglePage.2, 1) s.live⟩
  | allocMulti {s : Sys} {fuel n addr : Nat} {pmm' : State} : 1 ≤ n → n ≤ s.pmm.pageCount →
      s.pmm.mmAllocateMultiplePages fuel n = some (pmm', addr) →
      Step s (.allocMulti n addr) ⟨pmm', hold (addr, n) s.live⟩
  | freeSingle {s : Sys} {addr : Nat} : (addr, 1) ∈ s.live →
      Step s (.freeSingle addr) ⟨(s.pmm.mmFreeSinglePage addr).1, s.live.erase (addr, 1)⟩
  | freeMulti {s : Sys} {addr n : Nat} : (addr, n) ∈ s.live →
      Step s (.freeMulti addr n) ⟨(s.pmm.mmFreeMultiplePages addr n).1, s.live.erase (addr, n)⟩

/-- The effect of giving back `a`: its pages are clear, the rest is untouched.  The bound says that
    the run does not wrap; `Inv.bounds` has it for every run that is held. -/
def Releases (s : State) (a : Nat × Nat) (s' : State) : Prop :=
  s'.statics = s.statics ∧ ((pagesOf a).base + a.2 ≤ 2 ^ 64 →
    ∀ q, s'.used q = (!decide ((pagesOf a).Has q) && s.used q))

/-- A free of one page is a release. -/
theorem mmFreeSinglePage_releases (s : State) (addr : Nat) :
    Releases s (addr, 1) (s.mmFreeSinglePage addr).1 := by
  refine ⟨by simp [State.mmFreeSinglePage], fun _ q => ?_⟩
  have hiff : q = getPageLocationFromAddress addr ↔ (pagesOf (addr, 1)).Has q := by
    simp only [pagesOf, Region.Has]; omega
  simp [State.mmFreeSinglePage, hiff]

/-- And a free of a run is one. -/
theorem mmFreeMultiplePages_releases (s : State) (addr n : Nat) :
    Releases s (addr, n) (s.mmFreeMultiplePages addr n).1 := by
  refine ⟨by simp [State.mmFreeMultiplePages], fun hlt q => ?_⟩
  show (State.clearWindow _ n 0 s).used q = _
  rw [used_clearWindow _ n 0 s q (by simpa [pagesOf] using hlt)]
  rfl

/-- **What a step can do**: an allocation grants, a free releases something held.  All invariants of
    runs are derived from this lemma, and none of them unfolds a call. -/
theorem step_cases {s s' : Sys} {e : Event} (h : Step s e s') :
    (∃ a, e.grant = some a ∧ 1 ≤ a.2 ∧ Grants s.pmm a.2 s'.pmm a.1 ∧ s'.live = hold a s.live) ∨
    (e.grant = none ∧ ∃ a ∈ s.live, Releases s.pmm a s'.pmm ∧ s'.live = s.live.erase a) := by
  cases h with
  | allocSingle =>
    exact Or.inl ⟨_, rfl, Nat.le_refl 1, mmAllocateSinglePage_grants s.pmm, rfl⟩
  | allocMulti h1 hn hres =>
    exact Or.inl ⟨_, rfl, h1, mmAllocateMultiplePages_grants h1 hn hres, rfl⟩
  | freeSingle hmem => exact Or.inr ⟨rfl, _, hmem, mmFreeSinglePage_releases _ _, rfl⟩
  | freeMulti hmem => exact Or.inr ⟨rfl, _, hmem, mmFreeMultiplePages_releases _ _ _, rfl⟩

/-! ## When an allocation is sound -/

/-- Every page of the returned run was clear before, is marked after, and is a real page.  It is
    what a client takes for granted of the memory it is given. -/
def SafeGrant (s s' : State) (a : Nat × Nat) : Prop :=
  ∀ p, (pagesOf a).Has p → s.used p = false ∧ s'.used p = true ∧ 1 ≤ p ∧ p < s.pageCount

/-- The first window the allocator accepts for `n` pages holds no used page, at whatever position of
    its byte, and starts where its byte address still fits in 64 bits.  It is a pure predicate on
    the bitmap, decided before the call.  The first window is unique (`FirstFit.unique`), so it says
    something about one window only. -/
def State.FitClear (s : State) (n : Nat) : Prop :=
  ∀ i, s.FirstFit n (some i) → i < 2 ^ 52 ∧ ∀ k, i ≤ k → k < i + n → s.used k = false

/-- Below page `2 ^ 52` a page number and its address determine each other.  The other way round
    this holds of every page-aligned address. -/
theorem pageLocation_address {i : Nat} (h : i < 2 ^ 52) :
    getPageLocationFromAddress (getAddressFromPageLocation i) = i := by
  rw [getPageLocationFromAddress, getAddressFromPageLocation, pageSize]
  rw [w64_of_lt (by omega)]
  omega

/-- Beyond it the address wraps to a lower page.  A client would then be given pages that were never
    looked at. -/
theorem pageLocation_address_lt {i : Nat} (h : 2 ^ 52 ≤ i) :
    getPageLocationFromAddress (getAddressFromPageLocation i) < i := by
  rw [getPageLocationFromAddress, getAddressFromPageLocation, pageSize, w64]
  omega

/-- **Exactness**: an allocation that returns a run is sound if and only if its first fit is clear.
    From left to right the run itself shows which window was accepted.  From right to left the
    window is the one marked, and its pages are those of the address because page and address
    determine each other. -/
theorem grants_safe_iff {s s' : State} {a : Nat × Nat} (hn : 1 ≤ a.2)
    (h : Grants s a.2 s' a.1) (hne : a.1 ≠ null) : SafeGrant s s' a ↔ s.FitClear a.2 := by
  rcases h with ⟨-, -, hnull⟩ | ⟨i, hfit, haddr, -, hused⟩
  · exact absurd hnull hne
  have hbase : (pagesOf a).base = getPageLocationFromAddress (getAddressFromPageLocation i) := by
    unfold pagesOf; rw [haddr]
  constructor
  · intro hsafe i' hfit'
    obtain rfl : i' = i := hfit'.unique hfit
    have hlow : i' < 2 ^ 52 := by
      rcases Nat.lt_or_ge i' (2 ^ 52) with hlt | hge
      · exact hlt
      · -- the page of the wrapped address lies below the window that was marked
        have hwrap := pageLocation_address_lt hge
        obtain ⟨hclear, hset, -⟩ := hsafe (pagesOf a).base ⟨Nat.le_refl _, by
          show _ < (pagesOf a).base + a.2; omega⟩
        rw [hused, hclear, hbase] at hset
        simp only [Bool.or_false, decide_eq_true_eq] at hset
        omega
    refine ⟨hlow, fun k hik hki => (hsafe k ?_).1⟩
    rw [pageLocation_address hlow] at hbase
    exact ⟨by omega, show k < (pagesOf a).base + a.2 by omega⟩
  · intro hclear p hp
    obtain ⟨hlow, hall⟩ := hclear i hfit
    rw [pageLocation_address hlow] at hbase
    have hp1 : i ≤ p := hbase ▸ hp.1
    have hp2 : p < i + a.2 := hbase ▸ hp.2
    obtain ⟨hi1, hi2⟩ := hfit.bounds
    refine ⟨hall p hp1 hp2, ?_, by omega, by omega⟩
    rw [hused, decide_eq_true ⟨hp1, hp2⟩, Bool.true_or]

/-- A single page is sound as soon as its address fits.  The search looks at that page itself, with
    the test that is right. -/
theorem fitClear_one {s : State} (h : s.pageCount ≤ 2 ^ 52) : s.FitClear 1 := by
  intro i hfit
  have hb := hfit.bounds
  refine ⟨by omega, fun k h1 h2 => ?_⟩
  obtain rfl : k = i := by omega
  exact hfit.2.1.2.1

/-! ## The invariant -/

/-- What the bitmap is for, in a run that began with the bitmap of `s₀`.  `reserved` is not about
    what is held: it keeps the pages that were in use before out of the hands of clients, because
    frees are of held pages only. -/
structure Inv (s₀ : State) (s : Sys) : Prop where
  statics : s.pmm.statics = s₀.statics
  /-- Pages held are marked. -/
  marked : ∀ a ∈ s.live, ∀ p, (pagesOf a).Has p → s.pmm.used p = true
  /-- Pages held were clear at the start. -/
  fresh : ∀ a ∈ s.live, ∀ p, (pagesOf a).Has p → s₀.used p = false
  pos : ∀ a ∈ s.live, 1 ≤ a.2
  bounds : ∀ a ∈ s.live, (pagesOf a).base + a.2 ≤ s₀.pageCount
  /-- No page is held twice. -/
  apart : s.live.Pairwise fun a b => (pagesOf a).Apart (pagesOf b)
  /-- Pages marked at the start stay marked. -/
  reserved : ∀ p, s₀.used p = true → s.pmm.used p = true

/-- Nothing is held in the beginning. -/
theorem inv_start (s₀ : State) : Inv s₀ ⟨s₀, []⟩ where
  statics := rfl
  marked := fun _ ha => absurd ha List.not_mem_nil
  fresh := fun _ ha => absurd ha List.not_mem_nil
  pos := fun _ ha => absurd ha List.not_mem_nil
  bounds := fun _ ha => absurd ha List.not_mem_nil
  apart := List.Pairwise.nil
  reserved := fun _ hp => hp

/-- Regions that share no page are apart, when the first is not empty.  Separation of intervals from
    separation of their pages: if neither is empty, one has to end before the other begins. -/
theorem apart_of_no_common {r t : Region} (h : ∀ p, r.Has p → ¬ t.Has p) : r.size = 0 ∨
    t.size = 0 ∨ r.Apart t := by
  rcases Nat.eq_zero_or_pos r.size with h0 | hr
  · exact Or.inl h0
  rcases Nat.eq_zero_or_pos t.size with h0 | ht
  · exact Or.inr (Or.inl h0)
  refine Or.inr (Or.inr ?_)
  have h1 := h r.base ⟨Nat.le_refl _, by omega⟩
  have h2 := h t.base
  unfold Region.Has at h1 h2
  rw [Region.Apart]
  omega

/-- A sound allocation keeps the invariant.  The window was clear and everything held is marked, so
    the new run shares no page with the old ones; this is where the condition is used. -/
theorem inv_grant {s₀ : State} {s s' : Sys} {a : Nat × Nat} (hi : Inv s₀ s) (hn : 1 ≤ a.2)
    (hg : Grants s.pmm a.2 s'.pmm a.1)
    (hlive : s'.live = hold a s.live) (hfit : s.pmm.FitClear a.2) : Inv s₀ s' := by
  have hsafe : a.1 ≠ null → SafeGrant s.pmm s'.pmm a := fun hne =>
    (grants_safe_iff hn hg hne).mpr hfit
  -- nothing was granted, and nothing has changed
  rcases hg with ⟨-, hsame, hnull⟩ | ⟨i, hff, haddr, hst, hused⟩
  · have hl : s'.live = s.live := by rw [hlive]; unfold hold; rw [if_pos hnull]
    exact ⟨hsame ▸ hi.statics, hl ▸ hsame ▸ hi.marked, hl ▸ hi.fresh, hl ▸ hi.pos,
      hl ▸ hi.bounds, hl ▸ hi.apart, hsame ▸ hi.reserved⟩
  have hne : a.1 ≠ null := haddr ▸ hff.2.1.1
  have hsafe := hsafe hne
  have hl : s'.live = a :: s.live := by rw [hlive]; unfold hold; rw [if_neg hne]
  have hpc : s.pmm.pageCount = s₀.pageCount := congrArg Prod.fst hi.statics
  -- a grant marks pages and clears none
  have hkeep : ∀ p, s.pmm.used p = true → s'.pmm.used p = true := by
    intro p hp; rw [hused, hp, Bool.or_true]
  refine ⟨hst.trans hi.statics, ?_, ?_, ?_, ?_, ?_, fun p hp => hkeep p (hi.reserved p hp)⟩
  · intro b hb p hp
    rcases List.mem_cons.mp (hl ▸ hb) with rfl | hb
    · exact (hsafe p hp).2.1
    · exact hkeep p (hi.marked b hb p hp)
  · intro b hb p hp
    rcases List.mem_cons.mp (hl ▸ hb) with rfl | hb
    · -- a page marked at the start would not have been clear before the call
      rcases Bool.eq_false_or_eq_true (s₀.used p) with h | h
      · exact absurd ((hi.reserved p h).symm.trans (hsafe p hp).1) (by decide)
      · exact h
    · exact hi.fresh b hb p hp
  · intro b hb
    rcases List.mem_cons.mp (hl ▸ hb) with rfl | hb
    · exact hn
    · exact hi.pos b hb
  · intro b hb
    rcases List.mem_cons.mp (hl ▸ hb) with rfl | hb
    · have hlast := (hsafe ((pagesOf b).base + b.2 - 1) ⟨by omega, by
        show _ < (pagesOf b).base + b.2; omega⟩).2.2.2
      omega
    · exact hi.bounds b hb
  · rw [hl]
    refine List.pairwise_cons.mpr ⟨fun b hb => ?_, hi.apart⟩
    -- what is granted was clear, and what is live is marked
    have hno : ∀ p, (pagesOf a).Has p → ¬ (pagesOf b).Has p := fun p hp hpb =>
      absurd ((hi.marked b hb p hpb).symm.trans (hsafe p hp).1) (by decide)
    rcases apart_of_no_common hno with h0 | h0 | h
    · exact absurd h0 (by show a.2 ≠ 0; omega)
    · exact absurd h0 (by have := hi.pos b hb; show b.2 ≠ 0; omega)
    · exact h

/-- A free of something held keeps the invariant.  The pages given back are nobody else's, so the
    marks of the others stay. -/
theorem inv_release {s₀ : State} {s s' : Sys} {a : Nat × Nat} (hi : Inv s₀ s) (ha : a ∈ s.live)
    (hr : Releases s.pmm a s'.pmm) (hlive : s'.live = s.live.erase a) : Inv s₀ s' := by
  have hb64 := hi.bounds a ha
  have hused := hr.2 (by have := s₀.pageCount_lt; omega)
  -- the other allocations are apart from the one given back
  have hother : ∀ b ∈ s.live.erase a, (pagesOf a).Apart (pagesOf b) := by
    have hperm := (List.perm_cons_erase ha).pairwise_iff (R := fun a b =>
      (pagesOf a).Apart (pagesOf b)) (fun h => h.symm)
    exact (List.pairwise_cons.mp (hperm.mp hi.apart)).1
  have hmem : ∀ b ∈ s'.live, b ∈ s.live.erase a ∧ b ∈ s.live := fun b hb =>
    ⟨hlive ▸ hb, List.mem_of_mem_erase (hlive ▸ hb)⟩
  have hkeep : ∀ p, ¬ (pagesOf a).Has p → s.pmm.used p = true → s'.pmm.used p = true := by
    intro p hp hu; rw [hused, decide_eq_false hp, hu]; rfl
  refine ⟨hr.1.trans hi.statics, fun b hb p hp => ?_, fun b hb => hi.fresh b (hmem b hb).2,
    fun b hb => hi.pos b (hmem b hb).2, fun b hb => hi.bounds b (hmem b hb).2, ?_,
    fun p hp => hkeep p ?_ (hi.reserved p hp)⟩
  · exact hkeep p ((hother b (hmem b hb).1).symm.not_has hp) (hi.marked b (hmem b hb).2 p hp)
  · rw [hlive]
    exact hi.apart.sublist List.erase_sublist
  · exact fun hpa => absurd (hp.symm.trans (hi.fresh a ha p hpa)) (by decide)

/-! ## Runs -/

/-- A step whose allocation, if it is one, meets the condition.  The condition is asked of the state
    before the call, and of allocations only. -/
def FitStep (s : Sys) (e : Event) (s' : Sys) : Prop :=
  Step s e s' ∧ ∀ a, e.grant = some a → s.pmm.FitClear a.2

/-- The invariant holds in every state of a run whose allocations meet the condition. -/
theorem run_inv {s₀ : State} {h : List Event} {s : Sys} (run : Trace FitStep ⟨s₀, []⟩ h s) :
    Inv s₀ s := by
  refine run.inv (I := Inv s₀) (inv_start s₀) ?_
  intro s e s' hi hs
  rcases step_cases hs.1 with ⟨a, hea, hn, hg, hlive⟩ | ⟨-, a, ha, hr, hlive⟩
  · exact inv_grant hi hn hg hlive (hs.2 a hea)
  · exact inv_release hi ha hr hlive

/-- **No page is handed out twice**, in every run whose allocations meet the condition: the next
    allocation hands out only pages that are clear, live allocations are pairwise apart, and none of
    their pages was marked when the run began.  The condition is exact for each call
    (`grants_safe_iff`), and it cannot be dropped: `multi_crosses_used_page` is a run of three calls
    that leads to a page held twice. -/
theorem no_page_handed_out_twice (s₀ : State) {h : List Event} {s : Sys}
    (run : Trace FitStep ⟨s₀, []⟩ h s) :
    (∀ e s' a, FitStep s e s' → e.grant = some a → a.1 ≠ null → SafeGrant s.pmm s'.pmm a) ∧
    (s.live.Pairwise fun a b => (pagesOf a).Apart (pagesOf b)) ∧
    ∀ a ∈ s.live, ∀ p, (pagesOf a).Has p → s.pmm.used p = true ∧ s₀.used p = false := by
  have hi := run_inv run
  refine ⟨fun e s' a hs hea hne => ?_, hi.apart,
    fun a ha p hp => ⟨hi.marked a ha p hp, hi.fresh a ha p hp⟩⟩
  rcases step_cases hs.1 with ⟨b, heb, hn, hg, -⟩ | ⟨heb, -⟩
  · obtain rfl : b = a := Option.some.inj (heb.symm.trans hea)
    exact (grants_safe_iff hn hg hne).mpr (hs.2 b hea)
  · rw [heb] at hea
    exact nomatch hea

/-! ## The runs the condition excludes -/

/-- Sixteen clear pages. -/
def clear16 : State := ⟨16, 16, 2, 0, fun _ => 0, 0, by decide⟩

/-- One page allocated and its neighbour too, then the first given back: page 2 is live.  The
    counter and the first byte are then those of one page in use. -/
def page2Live : Sys :=
  let s1 := clear16.mmAllocateSinglePage.1
  let s2 := s1.mmAllocateSinglePage.1
  ⟨(s2.mmFreeSinglePage 0x1000).1, [(0x2000, 1)]⟩

/-- Three calls lead there. -/
theorem page2Live_reached : ∃ h, Trace Step ⟨clear16, []⟩ h page2Live :=
  ⟨_, ((Trace.start.snoc (.allocSingle _)).snoc (.allocSingle _)).snoc
    (.freeSingle (show ((0x1000 : Nat), 1) ∈ _ by decide))⟩

/-- The run that `no_page_handed_out_twice` must exclude: asked for two pages, the allocator returns
    pages 1 and 2 although page 2 is held by someone else.  Page 2 is at position 2 of its byte, and
    its masked byte is 4, which is not `SET`. -/
theorem multi_crosses_used_page :
    ∃ h e s', Trace Step ⟨clear16, []⟩ h page2Live ∧ Step page2Live e s' ∧
      e.grant = some (0x1000, 2) ∧ ¬ SafeGrant page2Live.pmm s'.pmm (0x1000, 2) ∧
      s'.live = [(0x1000, 2), (0x2000, 1)] ∧
      ¬ (s'.live.Pairwise fun a b => (pagesOf a).Apart (pagesOf b)) := by
  obtain ⟨h, hrun⟩ := page2Live_reached
  have hres : (page2Live.pmm.mmAllocateMultiplePages 20 2).map Prod.snd = some 0x1000 := by
    decide
  obtain ⟨⟨pmm', addr⟩, hsome, haddr⟩ := Option.map_eq_some_iff.mp hres
  obtain rfl : addr = 0x1000 := haddr
  have hlive : hold (0x1000, 2) page2Live.live = [(0x1000, 2), (0x2000, 1)] := rfl
  refine ⟨h, _, _, hrun, .allocMulti (by decide) (by decide) hsome, rfl, fun hsafe => ?_, hlive, ?_⟩
  · have hclear := (hsafe 2 (by decide)).1
    exact absurd hclear (by decide)
  · rw [hlive]
    show ¬ List.Pairwise _ [(0x1000, 2), (0x2000, 1)]
    decide

/-- Any window of a clear bitmap is clear. -/
theorem fitClear_of_clear {s : State} (hpc : s.pageCount < 2 ^ 52) (hclear : ∀ p, s.used p = false)
    (n : Nat) : s.FitClear n := fun i hfit =>
  ⟨by have := hfit.bounds.2; omega, fun p _ _ => hclear p⟩

/-- A run of three pages is taken from sixteen clear ones, then page 4; then the run is given back. -/
theorem clear16_run : ∃ s, Trace FitStep ⟨clear16, []⟩
    [.freeMulti 0x1000 3, .allocSingle 0x4000, .allocMulti 3 0x1000] s ∧ s.live = [(0x4000, 1)] := by
  have hres : (clear16.mmAllocateMultiplePages 20 3).map Prod.snd = some 0x1000 := by decide
  obtain ⟨⟨pmm', addr⟩, hsome, haddr⟩ := Option.map_eq_some_iff.mp hres
  obtain rfl : addr = 0x1000 := haddr
  have hnext : ((clear16.mmAllocateMultiplePages 20 3).map fun r =>
      (r.1.mmAllocateSinglePage.2, r.1.pageCount)) = some (0x4000, 16) := by decide
  rw [hsome, Option.map_some, Option.some.injEq, Prod.mk.injEq] at hnext
  have first : Trace FitStep ⟨clear16, []⟩ [.allocMulti 3 0x1000] ⟨pmm', [(0x1000, 3)]⟩ :=
    Trace.start.snoc ⟨.allocMulti (by decide) (by decide) hsome, fun a ha => by
      obtain rfl : (0x1000, 3) = a := Option.some.inj ha
      exact fitClear_of_clear (s := clear16) (by decide) (fun p => Nat.zero_testBit (p % 8)) 3⟩
  have second : Trace FitStep ⟨clear16, []⟩ [.allocSingle 0x4000, .allocMulti 3 0x1000]
      ⟨pmm'.mmAllocateSinglePage.1, [(0x4000, 1), (0x1000, 3)]⟩ := first.snoc ⟨by
      have hstep := Step.allocSingle ⟨pmm', [(0x1000, 3)]⟩
      rwa [show pmm'.mmAllocateSinglePage.2 = 0x4000 from hnext.1] at hstep, fun a ha => by
      obtain rfl : (0x4000, 1) = a := Option.some.inj ha
      exact fitClear_one (by rw [show (Sys.mk pmm' _).pmm.pageCount = 16 from hnext.2]; decide)⟩
  exact ⟨_, second.snoc (e := .freeMulti 0x1000 3)
    ⟨.freeMulti (List.mem_cons_of_mem _ List.mem_cons_self), fun a ha => by cases ha⟩, rfl⟩

/-- The condition is met there; what is left is page 4, and it is no page of anybody else. -/
theorem no_page_handed_out_twice_clear16 :
    ∃ s, Trace FitStep ⟨clear16, []⟩
        [.freeMulti 0x1000 3, .allocSingle 0x4000, .allocMulti 3 0x1000] s ∧
      s.live = [(0x4000, 1)] ∧
      ∀ a ∈ s.live, ∀ p, (pagesOf a).Has p → s.pmm.used p = true ∧ clear16.used p = false := by
  obtain ⟨s, run, hlive⟩ := clear16_run
  exact ⟨s, run, hlive, (no_page_handed_out_twice clear16 run).2.2⟩

end Nearlands.Pmm
