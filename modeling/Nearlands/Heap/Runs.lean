/-
  Runs of the heap.

  A run starts with `MmInitGeneralAllocator` and goes on with allocations of any size below
  `2 ^ 62` and frees of live pointers, over a page allocator that may refuse, or answer with any
  new run.  The invariant holds in every state reached (`run_inv`), and the separation of the
  live regions from each other and from every header is read off the layout
  (`heap_no_overlap`).  `headers_apart` is the same for the headers themselves: it is what makes
  one store per kind of header a faithful picture of memory.
-/
import Nearlands.Heap.Inv
import Nearlands.Lib.Trace

namespace Nearlands.Heap

open Nearlands.Lib

/-! ## The system -/

/-- The heap and the allocations held, as (pointer, requested size).  The second field is not in the
    source: it is what the clients know, and the only pointers that they give back. -/
structure Sys where
  heap : State
  live : List (Nat × Nat)

/-- A call, with the pointer it returned or was given. -/
inductive Event
  | alloc (size addr : Nat)
  | free (addr : Nat)
  deriving DecidableEq, Repr

/-- One call.  Requests are below `2 ^ 62`, where no size wraps; the page allocator may answer
    differently at each call, with `NULL` or with pages that the heap does not hold.  The fuel is
    bound by the loops of the call alone: a step is a call that returns, and `calls_return` says
    that every call does. -/
inductive Step : Sys → Event → Sys → Prop
  | alloc {s : Sys} {fuel size addr : Nat} {pages : Nat → Nat} {heap' : State} : size < 2 ^ 62 →
      Answers (held s.heap.pageLog) pages →
      s.heap.mmAllocateGeneralMemory fuel pages size = some (heap', addr) →
      Step s (.alloc size addr) ⟨heap', hold (addr, size) s.live⟩
  | free {s : Sys} {fuel : Nat} {a : Nat × Nat} {heap' : State} {st : NearStatus} : a ∈ s.live →
      s.heap.mmFreeGeneralMemory fuel a.1 = some (heap', st) →
      Step s (.free a.1) ⟨heap', s.live.erase a⟩

/-- `MmInitGeneralAllocator` has run, over memory with any contents.  The memory of the headers is
    arbitrary: `MmInitGeneralAllocator` reads none of it. -/
inductive Started : Sys → Prop
  | init {blockAt : Nat → BlockHeader} {allocAt : Nat → AllocHeader} {pages : Nat → Nat} :
      Answers [] pages →
      Started ⟨((State.zero blockAt allocAt).mmInitGeneralAllocator pages).1, []⟩

/-! ## The invariant -/

/-- After init there is one block, or none when the page was refused. -/
theorem start_cases {s : Sys} (h : Started s) : s.live = [] ∧ ∃ z : View, Inv z [] [] [] ∧
    z.log = [] ∧ (s.heap.view = { z with log := .allocate 1 null :: z.log } ∨
      ∃ mem, Fresh [] 1 mem ∧ s.heap.view = z.create 16 mem) := by
  cases h with
  | @init blockAt allocAt pages hans =>
    have hnone : ∀ {P : Nat → Prop}, ∀ x ∈ ([] : List Nat), P x := fun _ h => nomatch h
    refine ⟨rfl, (State.zero blockAt allocAt).view,
      { blocks := DList.is_nil _ _, frees := DList.is_nil _ _, runs := List.Perm.nil,
        layout := ⟨hnone, List.Pairwise.nil, hnone, List.Pairwise.nil⟩, free := hnone,
        used := fun _ h => (nomatch h), fits := fun _ h => (nomatch h), counter := hnone }, rfl, ?_⟩
    obtain ⟨hfail, hmade⟩ := view_createBlock (State.zero blockAt allocAt) pages 10
    by_cases hmem : pages (inPages (splitSafe 10)) = null
    · exact Or.inl (hfail hmem).2
    · exact Or.inr ⟨_, (hans _).resolve_left hmem, (hmade hmem).2⟩

/-- The invariant after init, where the only block there may be is the degenerate one. -/
theorem inv_start {s : Sys} (h : Started s) : ∃ B F, Inv s.heap.view B F s.live := by
  obtain ⟨hlive, z, hz, hlog, hview | ⟨mem, hf, hview⟩⟩ := start_cases h
  · rw [hlive, hview]
    exact ⟨[], [], inv_refused hz _⟩
  · rw [hlive, hview]
    exact ⟨_, _, (inv_create hz (by decide) (by decide) (by decide) (by rw [hlog]; exact hf)).2⟩

/-- A block for a request of a sensible size has pages.  Otherwise the allocator would be asked for
    no page at all, and its answer would mean nothing. -/
theorem blockSize_pages {n : Nat} (hn : n < 2 ^ 62) : inPages (blockSize n) ≠ 0 := by
  have hsize : blockSize n = (n + 0x1000 + 15) / 16 * 16 := by
    rw [blockSize]
    rw [w64_of_lt (by omega), splitSafe_of_lt (by omega)]
  rw [inPages_of_lt (by omega)]
  omega

/-- Every call keeps the invariant.  The invariant speaks of some lists of blocks and free chunks:
    which ones these are changes from call to call, that there are such lists does not. -/
theorem inv_step {s s' : Sys} {e : Event} {B F : List Nat} (hi : Inv s.heap.view B F s.live)
    (h : Step s e s') : ∃ B' F', Inv s'.heap.view B' F' s'.live := by
  cases h with
  | @alloc fuel n p pages heap' hn hans hres =>
    have hpages := blockSize_pages hn
    have hf := hans (inPages (blockSize n))
    exact inv_allocates hi (by omega) hpages hf (hi.allocates (fun hmem =>
      (inv_create hi (splitSafe_mod _) (splitSafe_lt _) hpages (hf.resolve_left hmem)).1) hres)
  | @free fuel a heap' st ha hres => exact inv_free hi ha hres

/-- The invariant holds in every state of a run. -/
theorem run_inv {s₀ : Sys} (h0 : Started s₀) {h : List Event} {s : Sys}
    (run : Trace Step s₀ h s) : ∃ B F, Inv s.heap.view B F s.live :=
  run.inv (I := fun s => ∃ B F, Inv s.heap.view B F s.live) (inv_start h0)
    fun _ _ _ ⟨_, _, hi⟩ hs => inv_step hi hs

/-- **Every call returns.**  In every state of every run, a call needs at most two turns of its loops
    more than there are free chunks, or blocks. -/
theorem calls_return {s₀ : Sys} (h0 : Started s₀) {h : List Event} {s : Sys}
    (run : Trace Step s₀ h s) : ∃ turns, ∀ fuel > turns,
      (∀ size < 2 ^ 62, ∀ pages, Answers (held s.heap.pageLog) pages →
        ∃ heap' addr, s.heap.mmAllocateGeneralMemory fuel pages size = some (heap', addr)) ∧
      ∀ addr, ∃ heap' st, s.heap.mmFreeGeneralMemory fuel addr = some (heap', st) := by
  obtain ⟨B, F, hi⟩ := run_inv h0 run
  refine ⟨max F.length (B.length + 1), fun fuel hfuel =>
    ⟨fun size hsize pages hans => ?_, fun addr => ?_⟩⟩
  · apply alloc_total hi.frees hi.blocks hi.base_ne_null
    · intro b hb _
      exact hi.top_ne_null hb
    · intro hmem
      exact (inv_create hi (splitSafe_mod _) (splitSafe_lt _) (blockSize_pages hsize)
        ((hans _).resolve_left hmem)).1
    · exact Nat.lt_of_le_of_lt (Nat.le_max_left _ _) hfuel
    · exact Nat.lt_of_le_of_lt (Nat.le_max_right _ _) hfuel
  · exact free_total hi.frees (Nat.lt_of_le_of_lt (Nat.le_max_left _ _) hfuel) addr

/-! ## No overlap -/

/-- The bytes a client asked for. -/
def payload (a : Nat × Nat) : Region := ⟨a.1, a.2⟩

/-- An allocation lies behind the header of its chunk. -/
theorem Inv.payload_within {v : View} {B F : List Nat} {live : List (Nat × Nat)}
    (hi : Inv v B F live) {a : Nat × Nat} (ha : a ∈ live) :
    a.1 = chunkOf a + 48 ∧ (payload a).Within ⟨chunkOf a + 48, (v.chunk (chunkOf a)).size⟩ := by
  have h1 := (hi.chunkOf_eq ha).2
  have h2 := hi.fits a ha
  have h3 : a.1 = chunkOf a + 48 := by unfold chunkOf; omega
  refine ⟨h3, ?_⟩
  rw [payload, Region.Within]
  dsimp only
  omega

/-- An allocation lies in the extent of its chunk. -/
theorem Inv.payload_extent {v : View} {B F : List Nat} {live : List (Nat × Nat)}
    (hi : Inv v B F live) {a : Nat × Nat} (ha : a ∈ live) :
    (payload a).Within (v.extent (chunkOf a)) := by
  apply (hi.payload_within ha).2.trans
  rw [Region.Within, View.extent]
  dsimp only
  omega

/-- Allocations share no byte. -/
theorem Inv.payloads_apart {v : View} {B F : List Nat} {live : List (Nat × Nat)}
    (hi : Inv v B F live) : live.Pairwise fun a b => (payload a).Apart (payload b) := by
  have hp := List.pairwise_map.mp (hi.layout.tiled.sublist (List.sublist_append_left _ _))
  exact hp.imp_of_mem fun ha hb hap => hap.within (hi.payload_extent ha) (hi.payload_extent hb)

/-- **The heap never overlaps.**  In every state of every run, live pointers are multiples of
    16, the live regions are pairwise disjoint, disjoint from every block header and every chunk
    header, and each lies in the pages of one block that is still held. -/
theorem heap_no_overlap {s₀ : Sys} (h0 : Started s₀) {h : List Event} {s : Sys}
    (run : Trace Step s₀ h s) :
    (∀ a ∈ s.live, a.1 % 16 = 0) ∧
    (s.live.Pairwise fun a b => (payload a).Apart (payload b)) ∧
    ∃ B F, s.heap.blockList.Is B ∧ s.heap.freeList.Is F ∧ ∀ a ∈ s.live,
      (∀ b ∈ B, (payload a).Apart ⟨b, sizeofBlockHeader⟩) ∧
      (∀ c ∈ s.live.map chunkOf ++ F, (payload a).Apart ⟨c, sizeofAllocHeader⟩) ∧
      ∃ r ∈ held s.heap.pageLog, r.1 ∈ B ∧ (payload a).Within (runRegion r) := by
  obtain ⟨B, F, hi⟩ := run_inv h0 run
  have hlay := hi.layout
  -- the bytes of an allocation lie in the extent of its chunk
  have hext : ∀ a ∈ s.live, (payload a).Within (s.heap.view.extent (chunkOf a)) := by
    intro a ha
    apply (hi.payload_within ha).2.trans
    rw [Region.Within, View.extent]
    dsimp only
    omega
  refine ⟨fun a ha => ?_, ?_, B, F, hi.blocks, hi.frees, fun a ha =>
    ⟨fun b hb => ?_, fun c hc => ?_, ?_⟩⟩
  · have h1 := (hi.payload_within ha).1
    have h2 := (hi.live_chunk ha).aligned
    omega
  · -- extents are apart, and so are the parts of them
    have hp := List.pairwise_map.mp (hlay.tiled.sublist (List.sublist_append_left _ _))
    exact hp.imp_of_mem fun ha hb hap => hap.within (hext _ ha) (hext _ hb)
  · exact (hlay.apart_block (hi.live_chunk ha) hb).within (hext a ha) ⟨Nat.le_refl _, Nat.le_refl _⟩
  · by_cases hca : c = chunkOf a
    · -- its own header lies right below it
      have h1 := (hi.payload_within ha).1
      rw [payload, Region.Apart, sizeofAllocHeader]
      dsimp only
      omega
    · have hap : (s.heap.view.extent (chunkOf a)).Apart (s.heap.view.extent c) :=
        Region.apart_of_mem hlay.tiled (List.mem_append_left _ (List.mem_map_of_mem ha)) hc
          (Ne.symm hca)
      apply hap.within (hext a ha)
      rw [Region.Within, View.extent, sizeofAllocHeader]
      dsimp only
      omega
  · -- the block of a chunk is a run of pages that is held
    have hok := hi.live_chunk ha
    have hb := hlay.block _ hok.header
    refine ⟨_, hi.runs.mem_iff.mpr (List.mem_map_of_mem hok.header), ?_, ?_⟩
    · rw [hb.runOf]; exact hok.header
    · exact (hext a ha).trans (hok.inPages hlay)

/-- Headers never overlap: neither those of blocks, nor those of chunks, nor one with the other.
    Headers are kept in two stores, one for blocks and one for chunks, where memory has one.  If two
    headers overlapped, a write to the one would change the other in the source and not in the
    model. -/
theorem headers_apart {s₀ : Sys} (h0 : Started s₀) {h : List Event} {s : Sys}
    (run : Trace Step s₀ h s) : ∃ B F, s.heap.blockList.Is B ∧ s.heap.freeList.Is F ∧
      (B.map (Region.mk · sizeofBlockHeader) ++
        (s.live.map chunkOf ++ F).map (Region.mk · sizeofAllocHeader)).Pairwise Region.Apart := by
  obtain ⟨B, F, hi⟩ := run_inv h0 run
  have hlay := hi.layout
  refine ⟨B, F, hi.blocks, hi.frees, List.pairwise_append.mpr ⟨?_, ?_, ?_⟩⟩
  · refine List.pairwise_map.mpr (hlay.apart.imp_of_mem fun {b b'} hb hb' hap => ?_)
    have h1 := hlay.block b hb
    have h2 := hlay.block b' hb'
    have h3 := h1.used_le
    have h4 := h2.used_le
    rw [h1.pages, h2.pages] at hap
    rw [Region.Apart, sizeofBlockHeader] at *
    dsimp only at *
    omega
  · refine List.pairwise_map.mpr (hlay.tiled.imp fun {c c'} hap => ?_)
    unfold Region.Apart View.extent sizeofAllocHeader at *
    dsimp only at *
    omega
  · intro r hr r' hr'
    obtain ⟨b, hb, rfl⟩ := List.mem_map.mp hr
    obtain ⟨c, hc, rfl⟩ := List.mem_map.mp hr'
    refine ((hlay.apart_block (hlay.chunk c hc) hb).within ?_ ⟨Nat.le_refl _, Nat.le_refl _⟩).symm
    rw [Region.Within, View.extent, sizeofAllocHeader]
    dsimp only
    omega

/-! ## When the heap asks for pages -/

/-- The scan of the free list does not go to the page allocator. -/
theorem pageLog_freeListScan (size : Nat) : ∀ (fuel header : Nat) {s s' : State} {p : Nat},
    s.freeListScan size fuel header = some (s', p) → s'.pageLog = s.pageLog := by
  intro fuel
  induction fuel with
  | zero => exact fun _ _ _ _ h => nomatch h
  | succ fuel ih =>
    intro header s s' p h
    rw [State.freeListScan] at h
    split at h
    · rw [← (Prod.mk.inj (Option.some.inj h)).1]
    · split at h
      · rw [← (Prod.mk.inj (Option.some.inj h)).1]
        exact congrArg View.log (view_reuseChunk s header).1
      · split at h
        · rw [← (Prod.mk.inj (Option.some.inj h)).1]
          exact congrArg View.log (view_splitChunk s header size).1
        · exact ih _ h

/-- Nor does the scan of the blocks. -/
theorem pageLog_blockScan (size : Nat) : ∀ (fuel header : Nat) {s s' : State} {p : Nat},
    s.blockScan size fuel header = some (s', p) → s'.pageLog = s.pageLog := by
  intro fuel
  induction fuel with
  | zero => exact fun _ _ _ _ h => nomatch h
  | succ fuel ih =>
    intro header s s' p h
    rw [State.blockScan] at h
    split at h
    · rw [← (Prod.mk.inj (Option.some.inj h)).1]
    · split at h
      · rw [← (Prod.mk.inj (Option.some.inj h)).1]
        exact congrArg View.log (view_carveChunk s header size).1
      · exact ih _ h

/-- Nor does taking fresh memory, as opposed to making a block for it. -/
theorem pageLog_allocateFreshMemory {s s' : State} {fuel n p : Nat}
    (h : s.allocateFreshMemory fuel n = some (s', p)) : s'.pageLog = s.pageLog := by
  rw [State.allocateFreshMemory] at h
  obtain ⟨⟨s₁, p₁⟩, hfree, hrest⟩ := Option.bind_eq_some_iff.mp h
  have hlog := pageLog_freeListScan _ _ _ hfree
  dsimp only at hrest
  split at hrest
  · rw [← (Prod.mk.inj (Option.some.inj hrest)).1, hlog]
  · rw [pageLog_blockScan _ _ _ hrest, hlog]

/-- **An allocation asks for pages once, or not at all.**  When it does not, what the page allocator
    would have answered does not matter.  The second half of the first case is what lets the whole
    of memory be assembled from the parts: an oracle that is not asked may be replaced by any
    other. -/
theorem alloc_asks {s s' : State} {fuel n p : Nat} {pages : Nat → Nat}
    (h : s.mmAllocateGeneralMemory fuel pages n = some (s', p)) :
    (s'.pageLog = s.pageLog ∧
      ∀ pages', s.mmAllocateGeneralMemory fuel pages' n = some (s', p)) ∨
    s'.pageLog = .allocate (inPages (blockSize n)) (pages (inPages (blockSize n))) :: s.pageLog := by
  rw [State.mmAllocateGeneralMemory] at h
  obtain ⟨⟨s₁, p₁⟩, hfirst, hrest⟩ := Option.bind_eq_some_iff.mp h
  have hlog := pageLog_allocateFreshMemory hfirst
  dsimp only at hrest
  split at hrest
  · rename_i hne
    obtain ⟨rfl, rfl⟩ := Prod.mk.inj (Option.some.inj hrest)
    refine Or.inl ⟨hlog, fun pages' => ?_⟩
    rw [State.mmAllocateGeneralMemory, hfirst, Option.bind_some]
    exact if_pos hne
  · right
    obtain ⟨hfail, hmade⟩ := view_createBlock s₁ pages (w64 (n + pageSize))
    have hsize : splitSafe (w64 (n + pageSize)) = blockSize n := rfl
    rw [hsize] at hfail hmade
    have hcreated : (s₁.createBlock pages (w64 (n + pageSize))).1.pageLog =
        .allocate (inPages (blockSize n)) (pages (inPages (blockSize n))) :: s.pageLog := by
      rw [← hlog]
      by_cases hmem : pages (inPages (blockSize n)) = null
      · rw [hmem]
        exact congrArg View.log (hfail hmem).2
      · exact congrArg View.log (hmade hmem).2
    split at hrest
    · rw [pageLog_allocateFreshMemory hrest, hcreated]
    · rw [← (Prod.mk.inj (Option.some.inj hrest)).1, hcreated]

/-- Init asks for one page. -/
theorem init_asks (blockAt : Nat → BlockHeader) (allocAt : Nat → AllocHeader) (pages : Nat → Nat) :
    ((State.zero blockAt allocAt).mmInitGeneralAllocator pages).1.pageLog =
      .allocate 1 (pages 1) :: (State.zero blockAt allocAt).pageLog := by
  obtain ⟨hfail, hmade⟩ := view_createBlock (State.zero blockAt allocAt) pages 10
  rw [show inPages (splitSafe 10) = 1 by decide] at hfail hmade
  by_cases hmem : pages 1 = null
  · rw [hmem]
    exact congrArg View.log (hfail hmem).2
  · exact congrArg View.log (hmade hmem).2

/-! A concrete run: init takes a page, the first allocation a block of two. -/

/-- The page allocator that answers `addr` to every request of at most 16 pages. -/
def pagesAt (addr amount : Nat) : Nat := if amount ≤ 16 then addr else null

theorem answers_pagesAt {runs : List (Nat × Nat)} {addr : Nat} (hal : addr % 0x1000 = 0)
    (hne : addr ≠ null) (hfits : addr + 0x10000 < 2 ^ 64)
    (hap : ∀ r ∈ runs, (Region.mk addr 0x10000).Apart (runRegion r)) :
    Answers runs (pagesAt addr) := by
  intro amount
  rw [pagesAt]
  by_cases h : amount ≤ 16
  · rw [if_pos h]
    refine Or.inr ⟨hal, hne, by omega, fun r hr => (hap r hr).within ?_ ⟨Nat.le_refl _, Nat.le_refl _⟩⟩
    rw [runRegion, Region.Within, pageSize]
    dsimp only
    omega
  · exact Or.inl (if_neg h)

/-- The heap after init, in memory that holds zeros. -/
def startedHeap : State :=
  ((State.zero (fun _ => ⟨0, 0, 0, 0, 0, 0⟩)
    (fun _ => ⟨0, 0, 0, 0, 0, false⟩)).mmInitGeneralAllocator (pagesAt 0x100000)).1

theorem startedHeap_started : Started ⟨startedHeap, []⟩ :=
  .init (answers_pagesAt (by decide) (by decide) (by decide) fun _ h => nomatch h)

/-- A call with a known answer, and the heap that it leaves. -/
theorem eq_of_answer {ρ : Type} {call : Option (State × ρ)} {r : ρ}
    (h : call.map Prod.snd = some r) (d : State × ρ) : call = some ((call.getD d).1, r) := by
  obtain ⟨⟨heap', r'⟩, rfl, rfl⟩ := Option.map_eq_some_iff.mp h
  rfl

/-- The heap after an allocation of 100 bytes. -/
def heapWithOne : State :=
  ((startedHeap.mmAllocateGeneralMemory 5 (pagesAt 0x200000) 100).getD (startedHeap, null)).1

theorem heapWithOne_eq : startedHeap.mmAllocateGeneralMemory 5 (pagesAt 0x200000) 100 =
    some (heapWithOne, 0x200060) := eq_of_answer (by decide) _

/-- After another one of 200 bytes, in the same block. -/
def heapWithTwo : State :=
  ((heapWithOne.mmAllocateGeneralMemory 5 (pagesAt 0x300000) 200).getD (heapWithOne, null)).1

theorem heapWithTwo_eq : heapWithOne.mmAllocateGeneralMemory 5 (pagesAt 0x300000) 200 =
    some (heapWithTwo, 0x200100) := eq_of_answer (by decide) _

/-- And after the first of them was given back. -/
def heapWithHole : State :=
  ((heapWithTwo.mmFreeGeneralMemory 5 0x200060).getD (heapWithTwo, .success)).1

theorem heapWithHole_eq : heapWithTwo.mmFreeGeneralMemory 5 0x200060 =
    some (heapWithHole, .success) := eq_of_answer (by decide) _

/-- A request that fits the hole gets it. -/
theorem heapWithHole_alloc : ∃ heap', heapWithHole.mmAllocateGeneralMemory 5 (pagesAt 0x300000) 100 =
    some (heap', 0x200060) := ⟨_, eq_of_answer (by decide +kernel) (heapWithHole, null)⟩

theorem heapWithOne_reached : Trace Step ⟨startedHeap, []⟩ [.alloc 100 0x200060]
    ⟨heapWithOne, [(0x200060, 100)]⟩ :=
  Trace.start.snoc (.alloc (by decide)
    (answers_pagesAt (by decide) (by decide) (by decide) (by decide)) heapWithOne_eq)

theorem heapWithHole_reached : Trace Step ⟨startedHeap, []⟩
    [.free 0x200060, .alloc 200 0x200100, .alloc 100 0x200060]
    ⟨heapWithHole, [(0x200100, 200)]⟩ :=
  (heapWithOne_reached.snoc (.alloc (by decide)
    (answers_pagesAt (by decide) (by decide) (by decide) (by decide)) heapWithTwo_eq)).snoc
      (.free (a := (0x200060, 100)) (List.mem_cons_of_mem _ List.mem_cons_self) heapWithHole_eq)

/-- Two allocations, the first of them given back, and its chunk taken again. -/
theorem heap_no_overlap_first : ∃ s, Trace Step ⟨startedHeap, []⟩
      [.alloc 100 0x200060, .free 0x200060, .alloc 200 0x200100, .alloc 100 0x200060] s ∧
    s.live = [(0x200060, 100), (0x200100, 200)] ∧ (∀ a ∈ s.live, a.1 % 16 = 0) ∧
    (s.live.Pairwise fun a b => (payload a).Apart (payload b)) ∧
    ∃ r ∈ held s.heap.pageLog, (payload (0x200060, 100)).Within (runRegion r) := by
  obtain ⟨heap', hres⟩ := heapWithHole_alloc
  have run := heapWithHole_reached.snoc (.alloc (by decide)
    (answers_pagesAt (by decide) (by decide) (by decide) (by decide)) hres)
  obtain ⟨hal, hap, B, F, -, -, hall⟩ := heap_no_overlap startedHeap_started run
  obtain ⟨-, -, r, hr, -, hin⟩ := hall (0x200060, 100) List.mem_cons_self
  exact ⟨_, run, rfl, hal, hap, r, hr, hin⟩

end Nearlands.Heap
