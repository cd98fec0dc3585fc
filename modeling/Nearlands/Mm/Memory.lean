/-
  The kernel's memory: the general heap and the other clients of the bitmap allocator, together.

  The heap was studied over a page allocator that is only promised to answer new runs.  Here it
  runs over the real one: `Memory` holds the bitmap and the heap, the heap's calls are answered by
  `MmAllocateMultiplePages` of the bitmap, and what the heap asked for and gave back moves the
  bitmap (`serve`).  Beside it other clients (page tables, entity arrays, ...) take and give back
  pages directly, in any order.

  The promise is kept in every run in which the windows that the bitmap allocator accepts are clear
  (`Pmm.State.FitClear`, the exact condition for its answers to be new); then no byte of the kernel
  has two owners (`memory_apart`).
-/
import Nearlands.Pmm.Ledger
import Nearlands.Heap.Runs

namespace Nearlands.Mm

open Nearlands.Lib

/-! ## The heap over the bitmap -/

/-- The bitmap allocator and the heap. -/
structure Memory where
  pmm : Pmm.State
  heap : Heap.State

/-- What `MmAllocateMultiplePages(amount)` would answer. -/
def answer (fuel : Nat) (pmm : Pmm.State) (amount : Nat) : Nat :=
  ((pmm.mmAllocateMultiplePages fuel amount).map Prod.snd).getD null

/-- The bitmap after the calls of a log, newest first; `none` when a scan does not end. -/
def serve (fuel : Nat) : List PageCall → Pmm.State → Option Pmm.State
  | [], pmm => some pmm
  | .allocate amount _ :: log, pmm =>
    (serve fuel log pmm).bind fun pmm => (pmm.mmAllocateMultiplePages fuel amount).map Prod.fst
  | .free addr amount :: log, pmm =>
    (serve fuel log pmm).map fun pmm => (pmm.mmFreeMultiplePages addr amount).1

/-- The calls that `after` has logged since `before`. -/
def callsSince (before after : Heap.State) : List PageCall :=
  after.pageLog.take (after.pageLog.length - before.pageLog.length)

/-- `MmInitGeneralAllocator()`. -/
def Memory.mmInitGeneralAllocator (fuel : Nat) (m : Memory) : Option (Memory × NearStatus) :=
  let r := m.heap.mmInitGeneralAllocator (answer fuel m.pmm)
  (serve fuel (callsSince m.heap r.1) m.pmm).map fun pmm => (⟨pmm, r.1⟩, r.2)

/-- `MmAllocateGeneralMemory(allocSize)`. -/
def Memory.mmAllocateGeneralMemory (fuel : Nat) (m : Memory) (allocSize : Nat) :
    Option (Memory × Nat) :=
  (m.heap.mmAllocateGeneralMemory fuel (answer fuel m.pmm) allocSize).bind fun r =>
    (serve fuel (callsSince m.heap r.1) m.pmm).map fun pmm => (⟨pmm, r.1⟩, r.2)

/-- `MmFreeGeneralMemory(address)`. -/
def Memory.mmFreeGeneralMemory (fuel : Nat) (m : Memory) (address : Nat) :
    Option (Memory × NearStatus) :=
  (m.heap.mmFreeGeneralMemory fuel address).bind fun r =>
    (serve fuel (callsSince m.heap r.1) m.pmm).map fun pmm => (⟨pmm, r.1⟩, r.2)

/-- A log with one call more. -/
theorem callsSince_cons {s s' : Heap.State} {c : PageCall} (h : s'.pageLog = c :: s.pageLog) :
    callsSince s s' = [c] := by
  rw [callsSince, h, List.length_cons, Nat.add_sub_cancel_left]
  rfl

theorem callsSince_same {s s' : Heap.State} (h : s'.pageLog = s.pageLog) :
    callsSince s s' = [] := by
  rw [callsSince, h, Nat.sub_self]
  rfl

/-! ## The system -/

/-- The memory and who holds it: the allocations of the heap as (pointer, size), and the runs of
    pages held by clients other than the heap as (address, pages). -/
structure Sys where
  memory : Memory
  live : List (Nat × Nat)
  runs : List (Nat × Nat)

/-- A call of the heap, or of the page allocator by another client. -/
inductive Event
  | alloc (size addr : Nat)
  | free (addr : Nat)
  | client (e : Pmm.Event)
  deriving DecidableEq, Repr

/-- The heap's requests to the bitmap in a call: not more pages than there are, and the window that
    is accepted for them is clear. -/
def Served (m m' : Memory) : Prop := ∀ amount addr,
  .allocate amount addr ∈ callsSince m.heap m'.heap →
    amount ≤ m.pmm.pageCount ∧ m.pmm.FitClear amount

/-- One call.  Frees are of what is held. -/
inductive Step : Sys → Event → Sys → Prop
  | alloc {s : Sys} {fuel size addr : Nat} {m : Memory} : size < 2 ^ 62 →
      s.memory.mmAllocateGeneralMemory fuel size = some (m, addr) → Served s.memory m →
      Step s (.alloc size addr) { s with memory := m, live := hold (addr, size) s.live }
  | free {s : Sys} {fuel : Nat} {a : Nat × Nat} {m : Memory} {st : NearStatus} : a ∈ s.live →
      s.memory.mmFreeGeneralMemory fuel a.1 = some (m, st) →
      Step s (.free a.1) { s with memory := m, live := s.live.erase a }
  | client {s : Sys} {e : Pmm.Event} {t : Pmm.Sys} : Pmm.FitStep ⟨s.memory.pmm, s.runs⟩ e t →
      Step s (.client e) { s with memory := { s.memory with pmm := t.pmm }, runs := t.live }

/-- The heap has been initialised, over memory with any contents, on a bitmap of which other
    clients may hold runs already. -/
inductive Started (p₀ : Pmm.State) : Sys → Prop
  | init {blockAt : Nat → Heap.BlockHeader} {allocAt : Nat → Heap.AllocHeader} {fuel : Nat}
      {h : List Pmm.Event} {pmm : Pmm.State} {runs : List (Nat × Nat)} {m : Memory}
      {st : NearStatus} : Trace Pmm.FitStep ⟨p₀, []⟩ h ⟨pmm, runs⟩ →
      Memory.mmInitGeneralAllocator fuel ⟨pmm, Heap.State.zero blockAt allocAt⟩ = some (m, st) →
      Served ⟨pmm, Heap.State.zero blockAt allocAt⟩ m → Started p₀ ⟨m, [], runs⟩

/-! ## The invariant -/

/-- All runs taken from the bitmap: those of the clients and those of the heap. -/
def Sys.taken (s : Sys) : Pmm.Sys := ⟨s.memory.pmm, s.runs ++ held s.memory.heap.pageLog⟩

/-- What every call keeps. -/
structure Owned (p₀ : Pmm.State) (s : Sys) : Prop where
  exact : Pmm.Exact p₀ s.taken
  aligned : ∀ a ∈ s.taken.live, a.1 % 0x1000 = 0
  heap : ∃ B F, Heap.Inv s.memory.heap.view B F s.live

variable {p₀ pmm pmm' : Pmm.State} {l l' : List (Nat × Nat)} {a : Nat × Nat}

/-- The address of a granted run is that of a page. -/
theorem books_aligned (hb : Pmm.Books pmm a pmm') : a.1 % 0x1000 = 0 := by
  rcases hb.grants with ⟨-, -, hnull⟩ | ⟨i, -, haddr, -⟩
  · exact hnull ▸ rfl
  · rw [haddr, Pmm.getAddressFromPageLocation, w64, pageSize]
    omega

/-- A run of pages that are apart from others is a region apart from theirs. -/
theorem runRegion_apart {b : Nat × Nat} (ha : a.1 % 0x1000 = 0) (hb : b.1 % 0x1000 = 0)
    (h : (Pmm.pagesOf a).Apart (Pmm.pagesOf b)) : (runRegion a).Apart (runRegion b) := by
  unfold Region.Apart Pmm.pagesOf runRegion Pmm.getPageLocationFromAddress pageSize at *
  dsimp only at *
  omega

/-- **The bitmap keeps the promise**: a run granted from a clear window is new. -/
theorem fresh_of_books (hpc : p₀.pageCount < 2 ^ 52) (hx : Pmm.Exact p₀ ⟨pmm, l⟩)
    (hal : ∀ b ∈ l, b.1 % 0x1000 = 0) (hn : 1 ≤ a.2) (hb : Pmm.Books pmm a pmm')
    (hfit : pmm.FitClear a.2) (hne : a.1 ≠ null) : Fresh l a.2 a.1 := by
  have hnext := hx.take (t := ⟨pmm', a :: l⟩) hn hb (hold_some hne l).symm hfit
  have hbound := hnext.inv.bounds a List.mem_cons_self
  have hap := List.pairwise_cons.mp hnext.inv.apart
  have haligned := books_aligned hb
  refine ⟨haligned, hne, ?_, fun r hr => runRegion_apart haligned (hal r hr) (hap.1 r hr)⟩
  have hbase : (Pmm.pagesOf a).base = a.1 / 0x1000 := rfl
  omega

/-- A request that ends. -/
theorem serve_allocate {fuel n addr : Nat} (h : serve fuel [.allocate n addr] pmm = some pmm') :
    pmm.mmAllocateMultiplePages fuel n = some (pmm', answer fuel pmm n) := by
  obtain ⟨⟨q, b⟩, hres, rfl⟩ := Option.map_eq_some_iff.mp h
  rw [answer, hres]
  rfl

/-! ## What a call takes from the bitmap, or gives back -/

theorem hold_append (runs l : List (Nat × Nat)) : (hold a (runs ++ l)).Perm (runs ++ hold a l) := by
  unfold hold
  split
  · exact List.Perm.refl _
  · exact List.perm_middle.symm

/-- A request of the heap. -/
theorem exact_grow {runs : List (Nat × Nat)} {log : List PageCall}
    (hx : Pmm.Exact p₀ ⟨pmm, runs ++ held log⟩) (hn : 1 ≤ a.2) (hb : Pmm.Books pmm a pmm')
    (hfit : pmm.FitClear a.2) :
    Pmm.Exact p₀ ⟨pmm', runs ++ held (.allocate a.2 a.1 :: log)⟩ :=
  (hx.take (t := ⟨pmm', hold a (runs ++ held log)⟩) hn hb rfl hfit).perm (hold_append runs _)

/-- A run that the heap gives back. -/
theorem exact_give {runs : List (Nat × Nat)} {log : List PageCall}
    (hx : Pmm.Exact p₀ ⟨pmm, runs ++ held log⟩) (ha : a ∈ held log) :
    Pmm.Exact p₀ ⟨(pmm.mmFreeMultiplePages a.1 a.2).1, runs ++ held (.free a.1 a.2 :: log)⟩ := by
  have hmem : a ∈ runs ++ held log := List.mem_append_right _ ha
  refine (hx.give (t := ⟨(pmm.mmFreeMultiplePages a.1 a.2).1, (runs ++ held log).erase a⟩) hmem
    (Pmm.mmFreeMultiplePages_returns pmm a.1 a.2) rfl).perm ?_
  have hsplit : (runs ++ held log).Perm (a :: (runs ++ (held log).erase a)) :=
    ((List.perm_cons_erase ha).append_left runs).trans List.perm_middle
  exact ((List.perm_cons_erase hmem).symm.trans hsplit).cons_inv

/-- The runs of the heap are page-aligned with one more. -/
theorem aligned_grow {runs : List (Nat × Nat)} {log : List PageCall}
    (hal : ∀ b ∈ runs ++ held log, b.1 % 0x1000 = 0) (hb : Pmm.Books pmm a pmm') :
    ∀ b ∈ runs ++ held (.allocate a.2 a.1 :: log), b.1 % 0x1000 = 0 := by
  intro b hmem
  rcases List.mem_append.mp hmem with hmem | hmem
  · exact hal b (List.mem_append_left _ hmem)
  · by_cases hnull : a.1 = null
    · rw [held, if_pos hnull] at hmem
      exact hal b (List.mem_append_right _ hmem)
    · rw [held_allocate hnull] at hmem
      rcases List.mem_cons.mp hmem with rfl | hmem
      · exact books_aligned hb
      · exact hal b (List.mem_append_right _ hmem)

/-- New beside all runs is new beside those of the heap. -/
theorem fresh_heap {runs : List (Nat × Nat)} {n addr : Nat} (h : Fresh (runs ++ l) n addr) :
    Fresh l n addr :=
  ⟨h.aligned, h.nonnull, h.fits, fun r hr => h.apart r (List.mem_append_right _ hr)⟩

variable {s s' : Sys}

/-! ## One call -/

/-- **An allocation from the heap.** -/
theorem Owned.alloc (hpc : p₀.pageCount < 2 ^ 52) (ho : Owned p₀ s) {fuel size addr : Nat}
    {m : Memory} (hsize : size < 2 ^ 62)
    (h : s.memory.mmAllocateGeneralMemory fuel size = some (m, addr)) (hserved : Served s.memory m) :
    Owned p₀ { s with memory := m, live := hold (addr, size) s.live } := by
  obtain ⟨⟨heap', p⟩, hheap, hrest⟩ := Option.bind_eq_some_iff.mp h
  obtain ⟨pmm', hserve, heq⟩ := Option.map_eq_some_iff.mp hrest
  obtain ⟨rfl, rfl⟩ := Prod.mk.inj heq
  obtain ⟨B, F, hi⟩ := ho.heap
  have hpages := Heap.blockSize_pages hsize
  rcases Heap.alloc_asks hheap with ⟨hlog, hany⟩ | hlog
  · -- no pages were asked for
    rw [callsSince_same hlog] at hserve
    obtain rfl := Option.some.inj hserve
    refine ⟨?_, ?_, ?_⟩
    · rw [Sys.taken, hlog]
      exact ho.exact
    · rw [Sys.taken, hlog]
      exact ho.aligned
    · exact Heap.inv_allocates hi (by omega) hpages (Or.inl rfl)
        (hi.allocates (fun hne => absurd rfl hne) (hany fun _ => null))
  · obtain ⟨hle, hfit⟩ := hserved _ _ (by rw [callsSince_cons hlog]; exact List.mem_cons_self)
    rw [callsSince_cons hlog] at hserve
    have hb := Pmm.mmAllocateMultiplePages_books (Nat.one_le_iff_ne_zero.mpr hpages) hle
      (serve_allocate hserve)
    -- the run that the bitmap answers is new to the heap
    have hfresh : answer fuel s.memory.pmm (inPages (Heap.blockSize size)) = null ∨
        Fresh (held s.memory.heap.pageLog) (inPages (Heap.blockSize size))
          (answer fuel s.memory.pmm (inPages (Heap.blockSize size))) := by
      by_cases hnull : answer fuel s.memory.pmm (inPages (Heap.blockSize size)) = null
      · exact Or.inl hnull
      · exact Or.inr (fresh_heap (fresh_of_books hpc ho.exact ho.aligned
          (Nat.one_le_iff_ne_zero.mpr hpages) hb hfit hnull))
    refine ⟨?_, ?_, ?_⟩
    · rw [Sys.taken, hlog]
      exact exact_grow ho.exact (Nat.one_le_iff_ne_zero.mpr hpages) hb hfit
    · rw [Sys.taken, hlog]
      exact aligned_grow ho.aligned hb
    · exact Heap.inv_allocates hi (by omega) hpages hfresh (hi.allocates (fun hne =>
        (Heap.inv_create hi (Heap.splitSafe_mod _) (Heap.splitSafe_lt _) hpages
          (hfresh.resolve_left hne)).1) hheap)

/-- **A free of a live pointer.** -/
theorem Owned.free (ho : Owned p₀ s) {fuel : Nat} {a : Nat × Nat} {m : Memory} {st : NearStatus}
    (ha : a ∈ s.live) (h : s.memory.mmFreeGeneralMemory fuel a.1 = some (m, st)) :
    Owned p₀ { s with memory := m, live := s.live.erase a } := by
  obtain ⟨⟨heap', st'⟩, hheap, hrest⟩ := Option.bind_eq_some_iff.mp h
  obtain ⟨pmm', hserve, heq⟩ := Option.map_eq_some_iff.mp hrest
  obtain ⟨rfl, rfl⟩ := Prod.mk.inj heq
  obtain ⟨B, F, hi⟩ := ho.heap
  have hinv := Heap.inv_free hi ha hheap
  rcases hi.frees_cases ha hheap with ⟨-, f, hview, -⟩ | ⟨-, hview⟩
  · -- the block goes back to the bitmap
    generalize hb : (s.memory.heap.view.chunk (Heap.chunkOf a)).header = b at hview
    have hlog : heap'.pageLog = .free (s.memory.heap.view.runOf b).1 (s.memory.heap.view.runOf b).2 ::
        s.memory.heap.pageLog := by
      have hlog := congrArg Heap.View.log hview
      rw [← Heap.runOf_count s.memory.heap.view b (-1) b]
      exact hlog
    have hheld : s.memory.heap.view.runOf b ∈ held s.memory.heap.pageLog :=
      hi.runs.mem_iff.mpr (List.mem_map_of_mem (hb ▸ (hi.live_chunk ha).header))
    rw [callsSince_cons hlog] at hserve
    obtain rfl := Option.some.inj hserve
    refine ⟨?_, ?_, hinv⟩
    · rw [Sys.taken, hlog]
      exact exact_give ho.exact hheld
    · rw [Sys.taken, hlog]
      intro c hc
      rcases List.mem_append.mp hc with hc | hc
      · exact ho.aligned c (List.mem_append_left _ hc)
      · exact ho.aligned c (List.mem_append_right _ (List.mem_of_mem_erase hc))
  · have hlog : heap'.pageLog = s.memory.heap.pageLog := congrArg Heap.View.log hview
    rw [callsSince_same hlog] at hserve
    obtain rfl := Option.some.inj hserve
    refine ⟨?_, ?_, hinv⟩
    · rw [Sys.taken, hlog]
      exact ho.exact
    · rw [Sys.taken, hlog]
      exact ho.aligned

/-- The runs of the clients after a call, with other runs behind them. -/
theorem client_taken {runs : List (Nat × Nat)} (rest : List (Nat × Nat)) {e : Pmm.Event} {t : Pmm.Sys}
    (hx : Pmm.Exact p₀ ⟨pmm, runs ++ rest⟩) (hal : ∀ a ∈ runs ++ rest, a.1 % 0x1000 = 0)
    (hs : Pmm.FitStep ⟨pmm, runs⟩ e t) :
    Pmm.Exact p₀ ⟨t.pmm, t.live ++ rest⟩ ∧ ∀ a ∈ t.live ++ rest, a.1 % 0x1000 = 0 := by
  rcases Pmm.step_books hs.1 with ⟨a, hea, hn, hb, hlive⟩ | ⟨-, a, ha, hr, hlive⟩
  · have hsplit : hold a (runs ++ rest) = t.live ++ rest := by
      rw [hlive]
      unfold hold
      split <;> rfl
    rw [← hsplit]
    refine ⟨hx.take (t := ⟨t.pmm, hold a (runs ++ rest)⟩) hn hb rfl (hs.2 a hea), fun b hmem => ?_⟩
    rw [hold] at hmem
    split at hmem
    · exact hal b hmem
    · rcases List.mem_cons.mp hmem with rfl | hmem
      · exact books_aligned hb
      · exact hal b hmem
  · have hsplit : (runs ++ rest).erase a = t.live ++ rest := by
      rw [hlive, List.erase_append_left _ ha]
    rw [← hsplit]
    exact ⟨hx.give (t := ⟨t.pmm, (runs ++ rest).erase a⟩) (List.mem_append_left _ ha) hr rfl,
      fun b hmem => hal b (List.mem_of_mem_erase hmem)⟩

/-- The runs of clients that began with the bitmap `p₀`. -/
theorem clients_taken (h0 : p₀.pageUsed = 0) {h : List Pmm.Event} {t : Pmm.Sys}
    (run : Trace Pmm.FitStep ⟨p₀, []⟩ h t) :
    Pmm.Exact p₀ t ∧ ∀ a ∈ t.live, a.1 % 0x1000 = 0 := by
  refine run.inv (I := fun t => Pmm.Exact p₀ t ∧ ∀ a ∈ t.live, a.1 % 0x1000 = 0)
    ⟨Pmm.exact_start p₀ h0, nofun⟩ fun s e s' hi hs => ?_
  have hnext := client_taken [] (by rw [List.append_nil]; exact hi.1)
    (by rw [List.append_nil]; exact hi.2) hs
  rwa [List.append_nil] at hnext

/-- **The heap after init.**  Its one page is granted by the bitmap. -/
theorem owned_start (hpc : p₀.pageCount < 2 ^ 52) (h0 : p₀.pageUsed = 0) (h : Started p₀ s) :
    Owned p₀ s := by
  cases h with
  | @init blockAt allocAt fuel h pmm runs m st hrun hinit hserved =>
    obtain ⟨pmm', hserve, heq⟩ := Option.map_eq_some_iff.mp hinit
    obtain ⟨rfl, -⟩ := Prod.mk.inj heq
    -- init asks for one page
    have hone : inPages (Heap.splitSafe 10) = 1 := by decide
    have hlog := Heap.init_asks blockAt allocAt (answer fuel pmm)
    obtain ⟨hle, hfit⟩ := hserved _ _ (by rw [callsSince_cons hlog]; exact List.mem_cons_self)
    dsimp only at hserve
    rw [callsSince_cons hlog] at hserve
    have hb := Pmm.mmAllocateMultiplePages_books (Nat.le_refl 1) hle (serve_allocate hserve)
    have htaken := clients_taken h0 hrun
    obtain ⟨hx, hal⟩ : Pmm.Exact p₀ ⟨pmm, runs ++ held []⟩ ∧
        ∀ b ∈ runs ++ held [], b.1 % 0x1000 = 0 := by
      rw [held, List.append_nil]
      exact htaken
    refine ⟨?_, ?_, ?_⟩
    · rw [Sys.taken, hlog]
      exact exact_grow hx (Nat.le_refl 1) hb hfit
    · rw [Sys.taken, hlog]
      exact aligned_grow hal hb
    · -- what the bitmap would answer to other requests does not matter
      let pages : Nat → Nat := fun n => if n = 1 then answer fuel pmm 1 else null
      have hsame : (Heap.State.zero blockAt allocAt).mmInitGeneralAllocator (answer fuel pmm) =
          (Heap.State.zero blockAt allocAt).mmInitGeneralAllocator pages := by
        rw [Heap.State.mmInitGeneralAllocator, Heap.State.mmInitGeneralAllocator,
          Heap.State.createBlock, Heap.State.createBlock, hone,
          show pages 1 = answer fuel pmm 1 from rfl]
      have hans : Answers [] pages := by
        intro n
        by_cases hn : n = 1
        · subst hn
          by_cases hnull : answer fuel pmm 1 = null
          · exact Or.inl hnull
          · exact Or.inr (fresh_heap (fresh_of_books hpc hx hal (Nat.le_refl 1) hb hfit hnull))
        · exact Or.inl (if_neg hn)
      dsimp only
      rw [hsame]
      exact Heap.inv_start (.init hans)

theorem Owned.step (hpc : p₀.pageCount < 2 ^ 52) (ho : Owned p₀ s) {e : Event} (hs : Step s e s') :
    Owned p₀ s' := by
  cases hs with
  | alloc hsize h hserved => exact ho.alloc hpc hsize h hserved
  | free ha h => exact ho.free ha h
  | client h =>
    obtain ⟨hx, hal⟩ := client_taken _ ho.exact ho.aligned h
    exact ⟨hx, hal, ho.heap⟩

theorem run_owned {s₀ : Sys} (hpc : p₀.pageCount < 2 ^ 52) (h0 : p₀.pageUsed = 0)
    (hstart : Started p₀ s₀) {h : List Event} (run : Trace Step s₀ h s) : Owned p₀ s :=
  run.inv (I := Owned p₀) (owned_start hpc h0 hstart) fun _ _ _ ho hs => ho.step hpc hs

/-! ## No byte has two owners -/

/-- The bytes that belong to someone: those of the allocations of the heap, and those of the runs
    of the other clients. -/
def Sys.regions (s : Sys) : List Region := s.live.map Heap.payload ++ s.runs.map runRegion

/-- A byte of a run that is held lies on a page that is marked and was clear at the start. -/
theorem Owned.page_of_byte (ho : Owned p₀ s) {r : Nat × Nat} (hr : r ∈ s.taken.live) {x : Nat}
    (hx : (runRegion r).Has x) :
    s.memory.pmm.used (x / pageSize) = true ∧ p₀.used (x / pageSize) = false := by
  have hal := ho.aligned r hr
  have hpage : (Pmm.pagesOf r).Has (x / pageSize) := by
    unfold Region.Has runRegion Pmm.pagesOf Pmm.getPageLocationFromAddress pageSize at *
    dsimp only at *
    omega
  exact ⟨ho.exact.inv.marked r hr _ hpage, ho.exact.inv.fresh r hr _ hpage⟩

/-- No byte has two owners. -/
structure Sound (p₀ : Pmm.State) (s : Sys) : Prop where
  /-- What belongs to the heap's clients and to the other holders of pages is apart. -/
  apart : s.regions.Pairwise Region.Apart
  /-- An allocation of the heap lies in a run of pages that the heap holds. -/
  inside : ∀ a ∈ s.live, ∃ r ∈ held s.memory.heap.pageLog, (Heap.payload a).Within (runRegion r)
  /-- Every byte lies on a page that is marked, and that was clear at the start. -/
  pages : ∀ r ∈ s.regions, ∀ x, r.Has x →
    s.memory.pmm.used (x / pageSize) = true ∧ p₀.used (x / pageSize) = false
  /-- The pages in use are those of the clients and of the heap's blocks. -/
  count : s.memory.pmm.mmReturnPageUsed =
    (s.runs.map Prod.snd).sum + ((held s.memory.heap.pageLog).map Prod.snd).sum

theorem Owned.sound (ho : Owned p₀ s) : Sound p₀ s := by
  obtain ⟨B, F, hi⟩ := ho.heap
  have hlay := hi.layout
  have hhome : ∀ a ∈ s.live, ∃ r ∈ held s.memory.heap.pageLog,
      (Heap.payload a).Within (runRegion r) := by
    intro a ha
    have hok := hi.live_chunk ha
    exact ⟨_, hi.runs.mem_iff.mpr (List.mem_map_of_mem hok.header),
      (hi.payload_extent ha).trans (hok.inPages hlay)⟩
  have htaken := List.pairwise_append.mp ho.exact.inv.apart
  have hal : ∀ r ∈ s.runs ++ held s.memory.heap.pageLog, r.1 % 0x1000 = 0 := ho.aligned
  refine ⟨List.pairwise_append.mpr ⟨?_, ?_, ?_⟩, hhome, ?_, ?_⟩
  · exact List.pairwise_map.mpr hi.payloads_apart
  · exact List.pairwise_map.mpr (htaken.1.imp_of_mem fun ha hb hap =>
      runRegion_apart (hal _ (List.mem_append_left _ ha)) (hal _ (List.mem_append_left _ hb)) hap)
  · -- an allocation lies in a run of the heap, which is apart from those of the clients
    intro x hx y hy
    obtain ⟨a, ha, rfl⟩ := List.mem_map.mp hx
    obtain ⟨b, hb, rfl⟩ := List.mem_map.mp hy
    obtain ⟨r, hr, hin⟩ := hhome a ha
    have hap := runRegion_apart (hal _ (List.mem_append_left _ hb)) (hal _ (List.mem_append_right _ hr))
      (htaken.2.2 b hb r hr)
    exact hap.symm.within hin ⟨Nat.le_refl _, Nat.le_refl _⟩
  · intro r hr x hx
    rcases List.mem_append.mp hr with hr | hr
    · obtain ⟨a, ha, rfl⟩ := List.mem_map.mp hr
      obtain ⟨r, hr, hin⟩ := hhome a ha
      exact ho.page_of_byte (List.mem_append_right _ hr) (hin.has hx)
    · obtain ⟨a, ha, rfl⟩ := List.mem_map.mp hr
      exact ho.page_of_byte (List.mem_append_left _ ha) hx
  · rw [Pmm.State.mmReturnPageUsed, show s.memory.pmm = s.taken.pmm from rfl, ho.exact.count,
      Pmm.Sys.pagesHeld, Sys.taken, List.map_append, List.sum_append]

/-- **No byte of the kernel has two owners**, in every run of allocations from the heap, frees, and
    calls of the page allocator by other clients, all over one bitmap.

    A run begins with a bitmap whose counter stands at zero, with fewer than `2 ^ 52` pages, and
    with a heap that has been initialised over it.  What a step promises is what the bitmap search
    does not check itself: the windows that it answers with are clear, for the heap (`Served`) and
    for the other clients (`FitStep`).  The rest is what callers do: an allocation asks for less
    than `2 ^ 62` bytes, and a free names what is held.

    The crux is that heap and bitmap speak of the same pages.  The runs that the heap's log says it
    holds, together with those of the clients, are all that the bitmap has granted (`Sys.taken`);
    the ledger keeps these apart, and the heap keeps its allocations inside its own. -/
theorem memory_apart {p₀ : Pmm.State} (hpc : p₀.pageCount < 2 ^ 52) (h0 : p₀.pageUsed = 0)
    {s₀ s : Sys} (hstart : Started p₀ s₀) {h : List Event} (run : Trace Step s₀ h s) : Sound p₀ s :=
  (run_owned hpc h0 hstart run).sound

/-- A call for one page is safe whatever the bitmap holds: the search looks at that page itself. -/
theorem step_single {m : Memory} {live runs : List (Nat × Nat)} {addr : Nat}
    (hpc : m.pmm.pageCount ≤ 2 ^ 52) (h : m.pmm.mmAllocateSinglePage.2 = addr) :
    Step ⟨m, live, runs⟩ (.client (.allocSingle addr))
      ⟨{ m with pmm := m.pmm.mmAllocateSinglePage.1 }, live, hold (addr, 1) runs⟩ := by
  subst h
  refine .client (s := ⟨m, live, runs⟩) (t := ⟨m.pmm.mmAllocateSinglePage.1, hold (_, 1) runs⟩)
    ⟨.allocSingle ⟨m.pmm, runs⟩, fun a ha => ?_⟩
  obtain rfl := Option.some.inj ha
  exact Pmm.fitClear_one hpc

/-- So is a run of one page. -/
theorem step_page {m : Memory} {live runs : List (Nat × Nat)} {fuel addr : Nat} {pmm : Pmm.State}
    (hpos : 1 ≤ m.pmm.pageCount) (hpc : m.pmm.pageCount ≤ 2 ^ 52)
    (h : m.pmm.mmAllocateMultiplePages fuel 1 = some (pmm, addr)) :
    Step ⟨m, live, runs⟩ (.client (.allocMulti 1 addr))
      ⟨{ m with pmm := pmm }, live, hold (addr, 1) runs⟩ := by
  refine .client (s := ⟨m, live, runs⟩) (t := ⟨pmm, hold (addr, 1) runs⟩) ⟨?_, fun a ha => ?_⟩
  · exact .allocMulti (Nat.le_refl 1) hpos h
  · obtain rfl := Option.some.inj ha
    exact Pmm.fitClear_one hpc

/-- Sixteen clear pages: init takes the first that has an address, an allocation of 100 bytes the next
    two, and three pages behind them go to clients; an allocation of 8 bytes then finds its place in
    the two pages that the heap has. -/
theorem clear16_calls : ∃ s s₁ s₂ s₃ s₄ s₅ : Sys, Started Pmm.clear16 s ∧
    Step s (.alloc 100 0x2060) s₁ ∧ Step s₁ (.client (.allocSingle 0x4000)) s₂ ∧
    Step s₂ (.client (.allocMulti 1 0x5000)) s₃ ∧ Step s₃ (.client (.allocMulti 1 0x6000)) s₄ ∧
    Step s₄ (.alloc 8 0x2100) s₅ ∧
    s₅.live = [(0x2100, 8), (0x2060, 100)] ∧ s₅.runs = [(0x6000, 1), (0x5000, 1), (0x4000, 1)] := by
  let z : Heap.State := Heap.State.zero (fun _ => ⟨0, 0, 0, 0, 0, 0⟩) fun _ => ⟨0, 0, 0, 0, 0, false⟩
  -- what the calls ask for and answer
  have hrun : ((Memory.mmInitGeneralAllocator 20 ⟨Pmm.clear16, z⟩).bind fun r =>
      (r.1.mmAllocateGeneralMemory 20 100).bind fun q =>
      let p := q.1.pmm.mmAllocateSinglePage
      (p.1.mmAllocateMultiplePages 20 1).bind fun p' =>
      (p'.1.mmAllocateMultiplePages 20 1).bind fun p'' =>
      (Memory.mmAllocateGeneralMemory 20 { q.1 with pmm := p''.1 } 8).map fun q' =>
        ([callsSince z r.1.heap, callsSince r.1.heap q.1.heap, callsSince q.1.heap q'.1.heap],
          (r.1.pmm.mmAllocateMultiplePages 20 2).map Prod.snd,
          r.1.pmm.used 2 || r.1.pmm.used 3,
          [r.1.pmm.pageCount, q.1.pmm.pageCount, p.1.pageCount, p'.1.pageCount],
          [q.2, p.2, p'.2, p''.2, q'.2])) =
      some ([[.allocate 1 0x1000], [.allocate 2 0x2000], []], some 0x2000, false, [16, 16, 16, 16],
        [0x2060, 0x4000, 0x5000, 0x6000, 0x2100]) := by
    decide +kernel
  obtain ⟨⟨m, st⟩, hinit, hrun⟩ := Option.bind_eq_some_iff.mp hrun
  obtain ⟨⟨m', addr⟩, halloc, hrun⟩ := Option.bind_eq_some_iff.mp hrun
  obtain ⟨⟨p', addr₂⟩, hpage₂, hrun⟩ := Option.bind_eq_some_iff.mp hrun
  obtain ⟨⟨p'', addr₃⟩, hpage₃, hrun⟩ := Option.bind_eq_some_iff.mp hrun
  obtain ⟨⟨m'', addr'⟩, halloc', hfacts⟩ := Option.map_eq_some_iff.mp hrun
  simp only [Prod.mk.injEq, List.cons.injEq, and_true, Bool.or_eq_false_iff] at hfacts
  obtain ⟨⟨hcalls, hcalls', hnone⟩, hans, ⟨hclear2, hclear3⟩, ⟨hpc, hpc₁, hpc₂, hpc₃⟩, rfl, hpage₁,
    rfl, rfl, rfl⟩ := hfacts
  obtain ⟨⟨pmm', addr⟩, hmulti, haddr⟩ := Option.map_eq_some_iff.mp hans
  obtain rfl : addr = 0x2000 := haddr
  have hserved : Served m m' := fun n a hmem => by
    rw [hcalls', List.mem_singleton, PageCall.allocate.injEq] at hmem
    rw [hmem.1, hpc]
    refine ⟨by decide, Pmm.fitClear_of_answer (by decide) (by omega) (by omega) hmulti (by decide)
      fun p hp => ?_⟩
    have hp2 : 2 ≤ p := hp.1
    have hp4 : p < 4 := hp.2
    obtain rfl | rfl : p = 2 ∨ p = 3 := by omega
    · exact hclear2
    · exact hclear3
  have hserved' : Served { m' with pmm := p'' } m'' := fun n a hmem => by
    rw [show callsSince m'.heap m''.heap = [] from hnone] at hmem
    exact absurd hmem List.not_mem_nil
  refine ⟨⟨m, [], []⟩, _, _, _, _, _, .init .start hinit fun n a hmem => ?_,
    .alloc (by decide) halloc hserved, step_single (by omega) hpage₁,
    step_page (m := { m' with pmm := m'.pmm.mmAllocateSinglePage.1 }) ?_ ?_ hpage₂,
    step_page (m := { m' with pmm := p' }) ?_ ?_ hpage₃, .alloc (by decide) halloc' hserved', rfl, rfl⟩
  · rw [hcalls, List.mem_singleton, PageCall.allocate.injEq] at hmem
    rw [hmem.1]
    exact ⟨by decide, Pmm.fitClear_one (by decide)⟩
  all_goals
    dsimp only
    omega

/-- There the heap has two allocations and other clients three pages. -/
theorem memory_apart_clear16 : ∃ (s₀ : Sys) (h : List Event) (s : Sys), Started Pmm.clear16 s₀ ∧
    Trace Step s₀ h s ∧ s.live = [(0x2100, 8), (0x2060, 100)] ∧
    s.runs = [(0x6000, 1), (0x5000, 1), (0x4000, 1)] ∧ Sound Pmm.clear16 s := by
  obtain ⟨s, s₁, s₂, s₃, s₄, s₅, hstart, h₁, h₂, h₃, h₄, h₅, hlive, hruns⟩ := clear16_calls
  have run := ((((Trace.start.snoc h₁).snoc h₂).snoc h₃).snoc h₄).snoc h₅
  exact ⟨_, _, _, hstart, run, hlive, hruns, memory_apart (by decide) rfl hstart run⟩

end Nearlands.Mm
