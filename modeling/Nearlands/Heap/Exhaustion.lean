/-
  When an allocation fails.

  `MmAllocateGeneralMemory` returns `NULL` in two places: when `CreateBlock` gets no pages, and when
  the search after it finds nothing all the same.  The second never happens (`retry_succeeds`): a
  block for `n` bytes is made with a page to spare, and what is left of it behind its own header
  holds `n` bytes and a chunk header after both are rounded to 16.  So a call fails exactly when
  nothing there serves it and the pages are refused, and then it leaves the heap as it was
  (`alloc_fails_iff`).
-/
import Nearlands.Heap.Blocks

namespace Nearlands.Heap

open Nearlands.Lib

variable {s s' : State} {v v' : View} {B F : List Nat} {live : List (Nat × Nat)} {n p fuel : Nat}
  {pages : Nat → Nat}

/-- No free chunk of `F` and no block of `B` serves a request for `n` bytes, as the code searches.

    A block serves it when the chunk and its header fit into what remains.  A free chunk serves it
    when it has the size of the request, rounded up, or that and a header more; a larger one is
    split, but NOT when the request or the rest would be a header's 48 bytes or fewer, so such a chunk is
    refused even though the request would fit. -/
def NoneServes (v : View) (F B : List Nat) (n : Nat) : Prop :=
  NoneFits v F (splitSafe n) ∧ NoneHolds v B (splitSafe (w64 (n + 48)))

/-- Memory that is taken was there.  The other half, that a request which can be served is taken, is
    in the search itself. -/
theorem Takes.serves (h : Takes v F B n v' p) : ¬ NoneServes v F B n := by
  rintro ⟨hfits, hholds⟩
  cases h with
  | reuse hc hfit => exact (hfits _ hc).1 hfit
  | split hc hfit => exact (hfits _ hc).2 hfit
  | carve hb hfit => exact hholds _ hb hfit

/-- Nothing of a state is lost in its view.  The view is another arrangement of the same fields, so
    equal views may be read back. -/
theorem view_injective (h : s.view = s'.view) : s = s' := by
  have hblocks : s.blockList = s'.blockList := congrArg View.blocks h
  have hfrees : s.freeList = s'.freeList := congrArg View.frees h
  have hblock : ∀ b, s.blockAt b = s'.blockAt b := by
    intro b
    have hdata : (s.blockAt b).data = (s'.blockAt b).data := congrFun (congrArg View.block h) b
    have hnext : (s.blockAt b).next = (s'.blockAt b).next := congrFun (congrArg DList.next hblocks) b
    have hprev : (s.blockAt b).prev = (s'.blockAt b).prev := congrFun (congrArg DList.prev hblocks) b
    generalize s.blockAt b = x at *
    generalize s'.blockAt b = y at *
    cases x
    cases y
    simp_all [BlockHeader.data]
  have hchunk : ∀ c, s.allocAt c = s'.allocAt c := by
    intro c
    have hdata : (s.allocAt c).data = (s'.allocAt c).data := congrFun (congrArg View.chunk h) c
    have hnext : (s.allocAt c).next = (s'.allocAt c).next := congrFun (congrArg DList.next hfrees) c
    have hprev : (s.allocAt c).prev = (s'.allocAt c).prev := congrFun (congrArg DList.prev hfrees) c
    generalize s.allocAt c = x at *
    generalize s'.allocAt c = y at *
    cases x
    cases y
    simp_all [AllocHeader.data]
  have h1 : s.bHead = s'.bHead := congrArg DList.head hblocks
  have h2 : s.bTail = s'.bTail := congrArg DList.tail hblocks
  have h3 : s.aHead = s'.aHead := congrArg DList.head hfrees
  have h4 : s.aTail = s'.aTail := congrArg DList.tail hfrees
  have h5 : s.pageLog = s'.pageLog := congrArg View.log h
  cases s
  cases s'
  simp only [State.mk.injEq]
  exact ⟨h1, h2, h3, h4, funext hblock, funext hchunk, h5⟩

/-- The heap with the block that `MmAllocateGeneralMemory` makes.  The size passed to `CreateBlock`
    does not wrap, so that the block has as many pages as it should. -/
theorem Inv.create_block (hi : Inv s.view B F live) (hn : n < 2 ^ 62)
    (hf : Fresh (held s.pageLog) (inPages (blockSize n)) (pages (inPages (blockSize n)))) :
    let made := (s.createBlock pages (w64 (n + pageSize))).1.view
    made = s.view.create (blockSize n) (pages (inPages (blockSize n))) ∧
      Inv made (B ++ [pages (inPages (blockSize n))]) F live := by
  obtain ⟨-, hmade⟩ := view_createBlock s pages (w64 (n + pageSize))
  have hview : (s.createBlock pages (w64 (n + pageSize))).1.view =
      s.view.create (blockSize n) (pages (inPages (blockSize n))) := (hmade hf.nonnull).2
  refine ⟨hview, ?_⟩
  rw [hview]
  exact (inv_create hi (splitSafe_mod _) (splitSafe_lt _) (blockSize_pages hn) hf).2

/-- **The search after `CreateBlock` succeeds.** The source does not look at what the second search
    returns before it returns it: here is why it need not. -/
theorem retry_succeeds (hi : Inv s.view B F live) (hn : n < 2 ^ 62)
    (hf : Fresh (held s.pageLog) (inPages (blockSize n)) (pages (inPages (blockSize n))))
    (h : (s.createBlock pages (w64 (n + pageSize))).1.allocateFreshMemory fuel n = some (s', p)) :
    p ≠ null := by
  obtain ⟨hview, hinv⟩ := hi.create_block hn hf
  rcases allocateFreshMemory_cases hinv.frees hinv.blocks hinv.base_ne_null h with
    ⟨-, -, -, hnone⟩ | htake
  · -- the new block would have held it
    have hfits := hf.fits
    have hpages := blockSize_pages hn
    have hserves := new_block_serves s.view hn
      (show pages (inPages (blockSize n)) + 48 < 2 ^ 64 by omega)
    rw [hview] at hnone
    exact absurd hserves (hnone _ (List.mem_append_right _ List.mem_cons_self))
  · exact htake.returned hinv.base_ne_null fun _ hb _ => hinv.top_ne_null hb

/-- One call: it fails when nothing serves the request and the pages are refused, and only then.
    The invariant is only needed for the search: that what the list holds is what there is. -/
theorem Inv.alloc_fails (hi : Inv s.view B F live) (hn : n < 2 ^ 62)
    (hf : pages (inPages (blockSize n)) = null ∨
      Fresh (held s.pageLog) (inPages (blockSize n)) (pages (inPages (blockSize n))))
    (h : s.mmAllocateGeneralMemory fuel pages n = some (s', p)) :
    (p = null ↔ NoneServes s.view F B n ∧ pages (inPages (blockSize n)) = null) ∧
    (p = null → s' = { s with pageLog := .allocate (inPages (blockSize n)) null :: s.pageLog }) := by
  have hcarve : ∀ b ∈ B, splitSafe (w64 (n + 48)) ≤ (s.view.block b).remaining →
      w64 (s.view.topOf b + 48) ≠ null := fun _ hb _ => hi.top_ne_null hb
  have hpages := blockSize_pages hn
  have hnew : pages (inPages (blockSize n)) ≠ null → pages (inPages (blockSize n)) ∉ B :=
    fun hmem => (inv_create hi (splitSafe_mod _) (splitSafe_lt _) hpages (hf.resolve_left hmem)).1
  -- a call that takes memory returns an address
  have htaken : p ≠ null → ¬ (NoneServes s.view F B n ∧ pages (inPages (blockSize n)) = null) →
      (p = null ↔ NoneServes s.view F B n ∧ pages (inPages (blockSize n)) = null) ∧
      (p = null → s' =
        { s with pageLog := .allocate (inPages (blockSize n)) null :: s.pageLog }) :=
    fun hp hno => ⟨⟨fun h => absurd h hp, fun h => absurd h hno⟩, fun h => absurd h hp⟩
  rcases alloc_cases hi.frees hi.blocks hi.base_ne_null hcarve hnew h with
    htake | ⟨hfits, hholds, ⟨hmem, hp, hview⟩ | ⟨hmem, hrest⟩⟩
  · exact htaken (htake.returned hi.base_ne_null hcarve) fun hno => htake.serves hno.1
  · refine ⟨⟨fun _ => ⟨⟨hfits, hholds⟩, hmem⟩, fun _ => hp⟩, fun _ => view_injective ?_⟩
    rw [hview]
    rfl
  · refine htaken ?_ fun hno => hmem hno.2
    have hfresh := hf.resolve_left hmem
    have hinv := (inv_create hi (splitSafe_mod _) (splitSafe_lt _) hpages hfresh).2
    rcases hrest with ⟨-, -, hnone⟩ | htake
    · have hend := hfresh.fits
      exact absurd (new_block_serves s.view hn (by omega))
        (hnone _ (List.mem_append_right _ List.mem_cons_self))
    · exact htake.returned hinv.base_ne_null fun _ hb _ => hinv.top_ne_null hb

/-- **Allocation fails only when pages run out.**  In every state of every run, a call for fewer
    than `2 ^ 62` bytes returns, and it returns `NULL` exactly when no free chunk and no block
    serves it and the page allocator refuses the pages for a new block; then nothing of the heap has
    changed.  Where it gets the pages, the search that follows finds memory.  "Serves" is what the
    search accepts (`NoneServes`), which is less than what would fit: chunks that would leave a rest
    of a header or less are passed over.  The hypotheses are the bound on the size and the answers
    of the page allocator, either `NULL` or a new run. -/
theorem alloc_fails_iff {s₀ s : Sys} (h0 : Started s₀) {h : List Event} (run : Trace Step s₀ h s)
    (hn : n < 2 ^ 62) (hans : Answers (held s.heap.pageLog) pages) :
    ∃ B F turns, s.heap.blockList.Is B ∧ s.heap.freeList.Is F ∧ ∀ fuel > turns,
      ∃ heap' p, s.heap.mmAllocateGeneralMemory fuel pages n = some (heap', p) ∧
        (p = null ↔ NoneServes s.heap.view F B n ∧ pages (inPages (blockSize n)) = null) ∧
        (p = null → heap' = { s.heap with
          pageLog := .allocate (inPages (blockSize n)) null :: s.heap.pageLog }) ∧
        (pages (inPages (blockSize n)) ≠ null → ∃ heap'' p',
          (s.heap.createBlock pages (w64 (n + pageSize))).1.allocateFreshMemory fuel n =
            some (heap'', p') ∧ p' ≠ null) := by
  obtain ⟨B, F, hi⟩ := run_inv h0 run
  have hf := hans (inPages (blockSize n))
  refine ⟨B, F, max F.length (B.length + 1), hi.blocks, hi.frees, fun fuel hfuel => ?_⟩
  have hfrees : F.length < fuel := Nat.lt_of_le_of_lt (Nat.le_max_left _ _) hfuel
  have hblocks : B.length + 1 < fuel := Nat.lt_of_le_of_lt (Nat.le_max_right _ _) hfuel
  have hnew : pages (inPages (blockSize n)) ≠ null → pages (inPages (blockSize n)) ∉ B :=
    fun hmem => (inv_create hi (splitSafe_mod _) (splitSafe_lt _) (blockSize_pages hn)
      (hf.resolve_left hmem)).1
  obtain ⟨heap', p, hres⟩ := alloc_total hi.frees hi.blocks hi.base_ne_null
    (fun _ hb _ => hi.top_ne_null hb) hnew hfrees hblocks
  obtain ⟨hiff, hsame⟩ := hi.alloc_fails hn hf hres
  refine ⟨heap', p, hres, hiff, hsame, fun hmem => ?_⟩
  have hfresh := hf.resolve_left hmem
  obtain ⟨-, hinv⟩ := hi.create_block hn hfresh
  obtain ⟨⟨heap'', p'⟩, hretry⟩ := allocateFreshMemory_total hinv.frees hinv.blocks
    hinv.base_ne_null hfrees (by rw [List.length_append]; exact hblocks) n
  exact ⟨heap'', p', hretry, retry_succeeds hi hn hfresh hretry⟩

/-- After init the block list holds the first block, the free list nothing. -/
theorem startedHeap_lists : startedHeap.blockList.Is [0x100000] ∧ startedHeap.freeList.Is [] := by
  have hview := ((view_createBlock (State.zero (fun _ => ⟨0, 0, 0, 0, 0, 0⟩)
    fun _ => ⟨0, 0, 0, 0, 0, false⟩) (pagesAt 0x100000) 10).2 (by decide)).2
  have hblocks : startedHeap.blockList = _ := congrArg View.blocks hview
  have hfrees : startedHeap.freeList = _ := congrArg View.frees hview
  rw [hblocks, hfrees]
  exact ⟨(DList.is_nil _ _).add (by decide) List.not_mem_nil, DList.is_nil _ _⟩

/-- In the heap after init 100 bytes are refused when the page allocator refuses their two pages. -/
theorem alloc_fails_first : ∃ fuel,
    startedHeap.mmAllocateGeneralMemory fuel (fun _ => null) 100 =
      some ({ startedHeap with pageLog := .allocate 2 null :: startedHeap.pageLog }, null) := by
  have hans : ∀ r : List (Nat × Nat), Answers r fun _ => null := fun _ _ => Or.inl rfl
  obtain ⟨B, F, turns, hB, hF, hall⟩ := alloc_fails_iff (s := ⟨startedHeap, []⟩) (n := 100)
    startedHeap_started .start (by decide) (hans _)
  obtain rfl := hB.unique startedHeap_lists.1
  obtain rfl := hF.unique startedHeap_lists.2
  obtain ⟨heap', p, hres, hiff, hsame, -⟩ := hall (turns + 1) (Nat.lt_succ_self _)
  have hfits : NoneFits startedHeap.view [] (splitSafe 100) := fun _ hc => absurd hc List.not_mem_nil
  have hholds : NoneHolds startedHeap.view [0x100000] (splitSafe (w64 (100 + 48))) := by
    intro b hb
    rw [List.mem_singleton.mp hb]
    decide
  have hnull : p = null := hiff.mpr ⟨⟨hfits, hholds⟩, rfl⟩
  have hheap := hsame hnull
  rw [hnull, hheap] at hres
  exact ⟨turns + 1, hres⟩

end Nearlands.Heap
