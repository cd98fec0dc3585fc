/-
  `MmInitVirtualMemoryManager`.

  It takes a root table and maps pages in four loops, one after the other: the kernel image, the
  memory map, the framebuffer and the LAPIC.  The first two return when a mapping fails; the last two
  do not look.  When no loop returns early the four are one loop over all pages (`init_eq`), and that
  one is understood by its history (`mapAll_translate`) and by the tables it needs
  (`mapAll_granted`).
-/
import Nearlands.Vmm.Need

namespace Nearlands.Vmm

open Nearlands.Lib

/-! ## The program -/

/-- What `MmInitVirtualMemoryManager` reads of `BootInfo`.  The other fields of the structure are
    read elsewhere, before the page tables are made. -/
structure BootInfo where
  memMap : BootMemoryMap
  kernelLocVirt : Nat
  kernelLocPhys : Nat
  kernelSizeInPages : Nat

/-- What it reads of `KeGraphicsReturnData()`. -/
structure GraphicsData where
  framebufferBase : Nat
  framebufferSize : Nat

/-- The (physical, virtual) pairs of a loop with `n` turns of one page each.  Both sums are taken in
    64 bits; for the image, which begins 512 GiB below the end, the virtual one can wrap. -/
def pagesFrom (phys virt n : Nat) : List (Nat × Nat) :=
  (List.range n).map fun i => (w64 (phys + i * pageSize), w64 (virt + i * pageSize))

/-- The turns of `for(u64 j = 0; j < size; j+=PAGE_SIZE)`; no `size` is so large that `j` wraps. -/
def turns (size : Nat) : Nat := (size + (pageSize - 1)) / pageSize

/-- The kernel image, from where it is loaded to where it is linked. -/
def BootInfo.kernelPages (info : BootInfo) : List (Nat × Nat) :=
  pagesFrom info.kernelLocPhys info.kernelLocVirt info.kernelSizeInPages

/-- All entries of the memory map, whatever their type. -/
def BootInfo.memoryPages (info : BootInfo) : List (Nat × Nat) :=
  info.memMap.memEntries.flatMap fun entry => pagesFrom entry.base entry.base (turns entry.size)

/-- The framebuffer, in pages that begin where it does. -/
def GraphicsData.framebufferPages (graphics : GraphicsData) : List (Nat × Nat) :=
  pagesFrom graphics.framebufferBase graphics.framebufferBase (turns graphics.framebufferSize)

/-- `lapicBase`; `apicBase` is what `ArRdmsr(0x1B)` returned. -/
def lapicBase (apicBase : Nat) : Nat := apicBase &&& 0xFFFFF000

/-- The loop over the LAPIC counts up to `PAGE_SIZE` and leaves the physical address as it is.  So
    two turns are made, and both write the physical address of the LAPIC: the second one is the slip
    of which `lower_half_identity_iff` tells. -/
def lapicPages (apicBase : Nat) : List (Nat × Nat) :=
  [0, pageSize].map fun i => (lapicBase apicBase, w64 (lapicBase apicBase + i))

/-- A loop that returns at the first failure.  What was mapped before the failure stays mapped. -/
def State.mapWhile (s : State) (pml4 : Nat) : List (Nat × Nat) → State × NearStatus
  | [] => (s, .success)
  | (physAddr, virtAddr) :: pages =>
    let r := s.mmMapPage pml4 physAddr virtAddr PG_READ_WRITE
    if r.2.nrSuccess = false then r else r.1.mapWhile pml4 pages

/-- A loop that does not look at the status.  The calls come along, newest first.  The status of
    each call is in the log only: the code drops it. -/
def State.mapAll (s : State) (pml4 : Nat) : List (Nat × Nat) → State × List Event
  | [] => (s, [])
  | (physAddr, virtAddr) :: pages =>
    let r := s.mmMapPage pml4 physAddr virtAddr PG_READ_WRITE
    let rest := r.1.mapAll pml4 pages
    (rest.1, rest.2 ++ [.map physAddr virtAddr PG_READ_WRITE r.2])

/-- The root table: a page, or `NULL`, which is not looked at either.  `MmAllocateSinglePage` may
    have failed, and then the page at address 0 is cleared and used. -/
def State.takeRoot (s : State) : State × Nat :=
  let (s, pml4) := s.mmAllocateSinglePage
  ({ s with words := Radix.clear s.words pml4 }, pml4)

/-- `MmInitVirtualMemoryManager(info)`: the state, `kernPTable.pml4` and the status.  A root table
    from before has been given back already; the load of `CR3` is left out.  Success is returned
    whatever the last two loops met with. -/
def State.mmInitVirtualMemoryManager (s : State) (info : BootInfo) (graphics : GraphicsData)
    (apicBase : Nat) : State × Nat × NearStatus :=
  let (s, pml4) := s.takeRoot
  let r := s.mapWhile pml4 info.kernelPages
  if r.2.nrSuccess = false then (r.1, pml4, r.2)
  else
    let r := r.1.mapWhile pml4 info.memoryPages
    if r.2.nrSuccess = false then (r.1, pml4, r.2)
    else
      let s := (r.1.mapAll pml4 graphics.framebufferPages).1
      let s := (s.mapAll pml4 (lapicPages apicBase)).1
      (s, pml4, .success)

variable {pml4 : Nat} {s s' : State}

/-! ## The loops -/

/-- The mapping succeeded.  An unmapping is none of a loop's business; there are none here. -/
def Event.Ok : Event → Prop
  | .map _ _ _ status => status = .success
  | .unmap _ _ => True

instance : (e : Event) → Decidable e.Ok
  | .map _ _ _ status => inferInstanceAs (Decidable (status = .success))
  | .unmap _ _ => inferInstanceAs (Decidable True)

/-- All mappings succeeded. -/
def AllOk (log : List Event) : Prop := ∀ e ∈ log, e.Ok

instance (log : List Event) : Decidable (AllOk log) :=
  inferInstanceAs (Decidable (∀ e ∈ log, e.Ok))

/-- All of both parts. -/
theorem allOk_append {log log' : List Event} : AllOk (log ++ log') ↔ AllOk log ∧ AllOk log' :=
  List.forall_mem_append

/-- The oldest call and the others. -/
theorem allOk_cons {log : List Event} {phys virt flags : Nat} {st : NearStatus} :
    AllOk (log ++ [.map phys virt flags st]) ↔ st = .success ∧ AllOk log := by
  rw [allOk_append, and_comm]
  exact and_congr_left fun _ => List.forall_mem_singleton

/-- A loop over two lists is two loops. -/
theorem mapAll_append (s : State) (pml4 : Nat) (pages pages' : List (Nat × Nat)) :
    s.mapAll pml4 (pages ++ pages') =
      (((s.mapAll pml4 pages).1.mapAll pml4 pages').1,
        ((s.mapAll pml4 pages).1.mapAll pml4 pages').2 ++ (s.mapAll pml4 pages).2) := by
  induction pages generalizing s with
  | nil => rw [List.nil_append, State.mapAll, List.append_nil]
  | cons c pages ih =>
    obtain ⟨phys, virt⟩ := c
    rw [List.cons_append, State.mapAll, State.mapAll]
    dsimp only
    rw [ih, List.append_assoc]

/-- `NR_SUCCESS` is true of one status only. -/
theorem nrSuccess_eq_false {st : NearStatus} : st.nrSuccess = false ↔ st ≠ .success := by
  cases st <;> decide

/-- A loop that returns at the first failure, when there is none, is a loop that does not look.
    Which is how the first two loops can be joined with the last two. -/
theorem mapWhile_eq (pml4 : Nat) : ∀ (pages : List (Nat × Nat)) (s : State),
    ((s.mapWhile pml4 pages).2 = .success ↔ AllOk (s.mapAll pml4 pages).2) ∧
    ((s.mapWhile pml4 pages).2 = .success →
      (s.mapWhile pml4 pages).1 = (s.mapAll pml4 pages).1) := by
  intro pages
  induction pages with
  | nil =>
    intro s
    exact ⟨⟨fun _ => nofun, fun _ => rfl⟩, fun _ => rfl⟩
  | cons c pages ih =>
    obtain ⟨phys, virt⟩ := c
    intro s
    obtain ⟨hiff, hsame⟩ := ih (s.mmMapPage pml4 phys virt PG_READ_WRITE).1
    rw [State.mapWhile, State.mapAll]
    dsimp only
    rw [allOk_cons]
    rcases eq_or_ne (s.mmMapPage pml4 phys virt PG_READ_WRITE).2 .success with hok | hfail
    · rw [if_neg (fun h => nrSuccess_eq_false.mp h hok)]
      exact ⟨hiff.trans (and_iff_right hok).symm, hsame⟩
    · rw [if_pos (nrSuccess_eq_false.mpr hfail)]
      exact ⟨⟨fun h => absurd h hfail, fun h => absurd h.1 hfail⟩, fun h => absurd h hfail⟩

/-- Pages that page-table entries can hold. -/
def Holdable (pages : List (Nat × Nat)) : Prop := ∀ c ∈ pages, c.1 % 0x1000 = 0 ∧ c.1 < 2 ^ 64

/-- What the calls of a loop do to the translation.  A call that fails leaves the translation as it
    was, so the history is right about it, too. -/
theorem mapAll_translate : ∀ (pages : List (Nat × Nat)) {s : State}, Inv pml4 s → Holdable pages →
    ∀ log, (∀ v, s.translate pml4 v = latest log (vpn v)) →
    Inv pml4 (s.mapAll pml4 pages).1 ∧
    ∀ v, (s.mapAll pml4 pages).1.translate pml4 v =
      latest ((s.mapAll pml4 pages).2 ++ log) (vpn v) := by
  intro pages
  induction pages with
  | nil =>
    intro s hi _ _ htr
    exact ⟨hi, htr⟩
  | cons c pages ih =>
    obtain ⟨phys, virt⟩ := c
    intro s hi hold log htr
    obtain ⟨hal, hlt⟩ := hold _ List.mem_cons_self
    obtain ⟨hi₁, hres⟩ := mmMapPage_spec hi hal hlt virt PG_READ_WRITE
    have hnext := ih hi₁ (fun c hc => hold c (List.mem_cons_of_mem _ hc))
      (.map phys virt PG_READ_WRITE (s.mmMapPage pml4 phys virt PG_READ_WRITE).2 :: log) (by
        intro v
        rcases hres with ⟨hst, hmap⟩ | ⟨hst, hmap⟩
        · rw [hst, hmap v, htr v]
          rfl
        · rw [hst, hmap v, htr v]
          rfl)
    rw [State.mapAll]
    dsimp only
    rw [List.append_assoc]
    exact hnext

/-- The tables that pages need.  As a set: two pages in the same 2 MiB need the same three tables. -/
def tablesOf : List (Nat × Nat) → Finset (List Nat)
  | [] => ∅
  | (_, virt) :: pages => levels virt ∪ tablesOf pages

/-- None of them is the root. -/
theorem tablesOf_proper : ∀ {pages : List (Nat × Nat)} {q : List Nat}, q ∈ tablesOf pages →
    q ≠ [] ∧ q.length ≤ 3
  | [], _, hq => absurd hq (Finset.notMem_empty _)
  | _ :: _, _, hq => (Finset.mem_union.mp hq).elim levels_proper tablesOf_proper

/-- **A loop succeeds when its missing tables are granted.** The number of answers is the number of
    different tables: which call needs which table first does not matter to whether there are
    enough. -/
theorem mapAll_granted : ∀ (pages : List (Nat × Nat)) {s : State}, Inv pml4 s → Holdable pages →
    (AllOk (s.mapAll pml4 pages).2 ↔ Granted (s.missing pml4 (tablesOf pages)).card s.tape) := by
  intro pages
  induction pages with
  | nil =>
    intro s _ _
    have hnone : s.missing pml4 (tablesOf []) = ∅ := Finset.filter_empty _
    rw [hnone, Finset.card_empty]
    exact ⟨fun _ => granted_zero _, fun _ => nofun⟩
  | cons c pages ih =>
    obtain ⟨phys, virt⟩ := c
    intro s hi hold
    obtain ⟨hal, hlt⟩ := hold _ List.mem_cons_self
    obtain ⟨hi₁, -⟩ := mmMapPage_spec hi hal hlt virt PG_READ_WRITE
    obtain ⟨hok, hnext⟩ := mmMapPage_granted hi phys virt PG_READ_WRITE
    rw [State.mapAll, tablesOf]
    dsimp only
    rw [allOk_cons]
    rcases eq_or_ne (s.mmMapPage pml4 phys virt PG_READ_WRITE).2 .success with hst | hst
    · obtain ⟨htape, hadds⟩ := hnext hst
      have hrest := ih hi₁ fun c hc => hold c (List.mem_cons_of_mem _ hc)
      rw [hadds.card_missing fun q hq => tablesOf_proper hq, granted_add, hrest, htape]
      exact and_congr_left fun _ => hok
    · refine ⟨fun h => absurd h.1 hst, fun h => absurd (hok.mpr (h.mono ?_)) hst⟩
      exact missing_le s pml4 (levels virt) (tablesOf pages)

/-! ## Logs -/

/-- The calls are the pages of the loop. -/
theorem mem_mapAll {e : Event} : ∀ {pages : List (Nat × Nat)} {s : State},
    e ∈ (s.mapAll pml4 pages).2 → ∃ c ∈ pages, ∃ st, e = .map c.1 c.2 PG_READ_WRITE st := by
  intro pages
  induction pages with
  | nil =>
    intro s he
    exact absurd he List.not_mem_nil
  | cons c pages ih =>
    intro s he
    rw [State.mapAll] at he
    rcases List.mem_append.mp he with he | he
    · obtain ⟨c', hc', st, rfl⟩ := ih he
      exact ⟨c', List.mem_cons_of_mem _ hc', st, rfl⟩
    · exact ⟨c, List.mem_cons_self, _, List.mem_singleton.mp he⟩

/-- Every page of the loop is called. -/
theorem mapAll_mem (pml4 : Nat) : ∀ {pages : List (Nat × Nat)} (s : State) {c : Nat × Nat}, c ∈ pages →
    ∃ st, .map c.1 c.2 PG_READ_WRITE st ∈ (s.mapAll pml4 pages).2
  | (phys, virt) :: pages, s, c, hc => by
    rw [State.mapAll]
    rcases List.mem_cons.mp hc with rfl | hc
    · exact ⟨_, List.mem_append_right _ List.mem_cons_self⟩
    · obtain ⟨st, hst⟩ := mapAll_mem pml4 (s.mmMapPage pml4 phys virt PG_READ_WRITE).1 hc
      exact ⟨st, List.mem_append_left _ hst⟩

/-- What a call says. -/
theorem latest_map (phys virt flags : Nat) (st : NearStatus) (log : List Event) (n : Nat) :
    latest (.map phys virt flags st :: log) n =
      if st = .success ∧ n = vpn virt then some phys else latest log n := by
  rcases eq_or_ne st .success with rfl | hst
  · exact if_congr (and_iff_right rfl).symm rfl rfl
  · rw [if_neg fun h => hst h.1]
    cases st <;> first | rfl | exact absurd rfl hst

/-- What the history says comes from a call. -/
theorem latest_some {n p : Nat} : ∀ {log : List Event}, latest log n = some p →
    ∃ v flags, .map p v flags .success ∈ log ∧ vpn v = n
  | [], h => nomatch h
  | .map phys virt flags st :: log, h => by
    rw [latest_map] at h
    split at h
    · rename_i hst
      obtain ⟨rfl, rfl⟩ := hst
      obtain rfl := Option.some.inj h
      exact ⟨virt, flags, List.mem_cons_self, rfl⟩
    · obtain ⟨v, f, hv, hn⟩ := latest_some h
      exact ⟨v, f, List.mem_cons_of_mem _ hv, hn⟩
  | .unmap virt st :: log, h => by
    rw [latest] at h
    split at h
    · cases h
    · obtain ⟨v, f, hv, hn⟩ := latest_some h
      exact ⟨v, f, List.mem_cons_of_mem _ hv, hn⟩

/-- Without unmappings, the newer part of a history comes first. -/
theorem latest_append (n : Nat) (log' : List Event) : ∀ {log : List Event},
    (∀ v st, .unmap v st ∉ log) → latest (log ++ log') n = (latest log n).or (latest log' n)
  | [], _ => rfl
  | .unmap v st :: _, h => absurd List.mem_cons_self (h v st)
  | .map phys virt flags st :: log, h => by
    rw [List.cons_append, latest_map, latest_map]
    split
    · rfl
    · exact latest_append n log' fun v st hin => h v st (List.mem_cons_of_mem _ hin)

/-- Without unmappings, a page that was mapped is mapped. -/
theorem latest_isSome {p v flags : Nat} : ∀ {log : List Event}, (∀ v st, .unmap v st ∉ log) →
    .map p v flags .success ∈ log → (latest log (vpn v)).isSome
  | .unmap v st :: _, h, _ => absurd List.mem_cons_self (h v st)
  | .map phys virt f st :: log, h, hin => by
    rw [latest_map]
    split
    · rfl
    · rename_i hno
      rcases List.mem_cons.mp hin with he | hin
      · injection he with _ h2 _ h4
        exact absurd ⟨h4.symm, congrArg vpn h2⟩ hno
      · exact latest_isSome (fun v st hin => h v st (List.mem_cons_of_mem _ hin)) hin

/-- The loops unmap nothing. -/
theorem mapAll_no_unmap {pages : List (Nat × Nat)} (v : Nat) (st : NearStatus) :
    .unmap v st ∉ (s.mapAll pml4 pages).2 := by
  intro h
  obtain ⟨_, _, _, he⟩ := mem_mapAll h
  cases he

/-! ## The call -/

/-- What the page allocator answers: aligned pages, each once, or `NULL`.  This is what `Pmm` proves
    of its answers; it is a hypothesis here, so that the page tables can be studied by themselves. -/
structure Answers (tape : List Nat) : Prop where
  aligned : ∀ a ∈ tape, a % 0x1000 = 0 ∧ a < 2 ^ 64
  distinct : (tape.filter fun a => decide (a ≠ null)).Nodup

/-- The root table is empty, at whatever address, and the next answer is gone. -/
theorem takeRoot_started (h : Answers s.tape) :
    Started s.takeRoot.2 s.takeRoot.1 ∧ s.takeRoot.1.tape = s.tape.tail := by
  cases ht : s.tape with
  | nil =>
    have hroot : s.takeRoot = ({ s with words := Radix.clear s.words null }, null) := by
      simp only [State.takeRoot, State.mmAllocateSinglePage, ht]
    rw [hroot]
    exact ⟨⟨fun i => Radix.clear_same s.words null i, h.aligned, h.distinct,
      fun a ha => absurd (ht ▸ ha : a ∈ []) List.not_mem_nil⟩, ht⟩
  | cons root tape =>
    have hroot : s.takeRoot = (⟨Radix.clear s.words root, tape⟩, root) := by
      rw [State.takeRoot, State.mmAllocateSinglePage, ht]
    have hd := h.distinct
    rw [ht] at hd
    rw [hroot]
    refine ⟨⟨fun i => Radix.clear_same s.words root i,
      fun a ha => h.aligned a (ht ▸ List.mem_cons_of_mem _ ha),
      hd.sublist ((List.sublist_cons_self _ _).filter _), ?_⟩, rfl⟩
    rintro a ha h0 rfl
    rw [List.filter_cons_of_pos (by simpa using h0)] at hd
    exact (List.nodup_cons.mp hd).1 (List.mem_filter.mpr ⟨ha, by simpa using h0⟩)

/-- At the start every table below the root is missing. -/
theorem Started.missing (h : Started pml4 s) (pages : List (Nat × Nat)) :
    s.missing pml4 (tablesOf pages) = tablesOf pages := by
  refine Finset.filter_true_of_mem fun q hq => ?_
  cases hn : s.node pml4 q with
  | none => rfl
  | some a => exact absurd (h.node hn).1 (tablesOf_proper hq).1

/-- The pages of the two loops that look at the status, and of the two that do not. -/
def BootInfo.checkedPages (info : BootInfo) : List (Nat × Nat) := info.kernelPages ++ info.memoryPages

def GraphicsData.uncheckedPages (graphics : GraphicsData) (apicBase : Nat) : List (Nat × Nat) :=
  graphics.framebufferPages ++ lapicPages apicBase

/-- All calls of `MmMapPage`, newest first, when no loop returns early.  For a run in which a loop
    does return early this is longer than the true log; it is only used where none does. -/
def State.initLog (s : State) (info : BootInfo) (graphics : GraphicsData) (apicBase : Nat) :
    List Event :=
  (s.takeRoot.1.mapAll s.takeRoot.2 (info.checkedPages ++ graphics.uncheckedPages apicBase)).2

/-- **The four loops as one.** The first part says when the call is successful, the second one what
    the tables are then. -/
theorem init_eq (s : State) (info : BootInfo) (graphics : GraphicsData) (apicBase : Nat) :
    let r := s.mmInitVirtualMemoryManager info graphics apicBase
    let root := s.takeRoot.2
    r.2.1 = root ∧
    (r.2.2 = .success ↔ AllOk (s.takeRoot.1.mapAll root info.checkedPages).2) ∧
    (r.2.2 = .success → r.1 =
      (s.takeRoot.1.mapAll root (info.checkedPages ++ graphics.uncheckedPages apicBase)).1) := by
  dsimp only
  rw [State.mmInitVirtualMemoryManager]
  dsimp only
  generalize s.takeRoot.1 = s, s.takeRoot.2 = root
  obtain ⟨hk, hks⟩ := mapWhile_eq root info.kernelPages s
  obtain ⟨hm, hms⟩ := mapWhile_eq root info.memoryPages (s.mapAll root info.kernelPages).1
  simp only [BootInfo.checkedPages, GraphicsData.uncheckedPages, mapAll_append, allOk_append]
  rcases eq_or_ne (s.mapWhile root info.kernelPages).2 .success with hok | hfail
  · rw [if_neg (fun h => nrSuccess_eq_false.mp h hok), hks hok]
    rcases eq_or_ne ((s.mapAll root info.kernelPages).1.mapWhile root info.memoryPages).2 .success
      with hok' | hfail'
    · rw [if_neg (fun h => nrSuccess_eq_false.mp h hok'), hms hok']
      refine ⟨?_, ?_, ?_⟩
      · rfl
      · exact ⟨fun _ => ⟨hm.mp hok', hk.mp hok⟩, fun _ => rfl⟩
      · intro _
        dsimp only
    · rw [if_pos (nrSuccess_eq_false.mpr hfail')]
      exact ⟨rfl, ⟨fun h => absurd h hfail', fun h => absurd (hm.mpr h.1) hfail'⟩,
        fun h => absurd h hfail'⟩
  · rw [if_pos (nrSuccess_eq_false.mpr hfail)]
    exact ⟨rfl, ⟨fun h => absurd h hfail, fun h => absurd (hk.mpr h.2) hfail⟩,
      fun h => absurd h hfail⟩

end Nearlands.Vmm
