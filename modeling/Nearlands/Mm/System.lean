/-
  From boot on: `MmInitSystem`.

  The boot builds the bitmap, tests it, takes the page tables of the kernel from it and then the
  first block of the heap.  The parts were studied each over a promise about the one below; here
  they are put together: the page tables ask `MmAllocateSinglePage` of the bitmap (`initVmm`), and
  the heap its `MmAllocateMultiplePages` (`Nearlands.Mm.Memory`).

  The three live in different memory, and that is why they may be studied apart: every page table is
  a page of RAM of its own, none of the heap's and none of any client's, and stays so in every later
  run (`boot_memory`).  All of RAM is mapped to itself, so what the boot has built can still be
  reached when `CR3` has been loaded.
-/
import Nearlands.Mm.Memory
import Nearlands.Pmm.Leak
import Nearlands.Vmm.Tables

namespace Nearlands.Mm

open Nearlands.Lib

/-! ## The program -/

/-- The bitmap and the heap, the words of the page tables, and `kernPTable.pml4`.  `kernPTable` is a
    record with one field, the address of the root. -/
structure System where
  memory : Memory
  words : Nat → Nat → Nat
  pml4 : Nat

/-- Memory before the boot: the bytes of the bitmap, the words of the tables and the headers of the
    heap hold anything. -/
structure Contents where
  bytes : Nat → UInt8
  words : Nat → Nat → Nat
  blockAt : Nat → Heap.BlockHeader
  allocAt : Nat → Heap.AllocHeader

/-- The page at `a` is a table of `kernPTable`.  No answer is needed to look at tables. -/
def System.IsTable (s : System) (a : Nat) : Prop := Vmm.State.IsTable ⟨s.words, []⟩ s.pml4 a

/-- Where the hardware finds the address. -/
def System.walk (s : System) (virtAddr : Nat) : Option Nat := Vmm.State.walk ⟨s.words, []⟩ s.pml4 virtAddr

/-! ## The bitmap at boot -/

variable {memMap : BootMemoryMap} {bytes : Nat → UInt8}

/-- At least `n` pages can be handed out. -/
def Room (pmm : Pmm.State) (n : Nat) : Prop :=
  ∃ pages : Finset Nat, n ≤ pages.card ∧ ∀ p ∈ pages, pmm.Available p

/-- So many pages are drained. -/
theorem Room.length_le {n fuel : Nat} {pmm : Pmm.State} {tape : List Nat} (h : Room pmm n)
    (hpc : pmm.pageCount ≤ 2 ^ 52) (hdrain : pmm.drain fuel = some tape) : n ≤ tape.length := by
  obtain ⟨pages, hn, havailable⟩ := h
  obtain ⟨hnodup, hmem⟩ := Pmm.drain_spec fuel hpc hdrain
  have hinj : Function.Injective fun p : Nat => p * 0x1000 := fun p q hpq => by
    dsimp only at hpq
    omega
  calc n ≤ pages.card := hn
    _ = (pages.image fun p => p * 0x1000).card := (Finset.card_image_of_injective _ hinj).symm
    _ ≤ tape.toFinset.card := Finset.card_le_card fun a ha => by
        obtain ⟨p, hp, rfl⟩ := Finset.mem_image.mp ha
        exact List.mem_toFinset.mpr ((hmem _).mpr ⟨p, havailable p hp, rfl⟩)
    _ = tape.length := List.toFinset_card_of_nodup hnodup

/-- The self test takes two of them. -/
theorem Room.tested {n o : Nat} {s p₀ : Pmm.State} (h : Room s (n + 2))
    (hover : Pmm.Over s p₀ (fun q => q = o ∨ q = o + 11) 0) : Room p₀ n := by
  obtain ⟨pages, hn, havailable⟩ := h
  refine ⟨pages \ {o, o + 11}, ?_, fun p hp => ?_⟩
  · have hcard := Finset.le_card_sdiff {o, o + 11} pages
    have htwo : ({o, o + 11} : Finset Nat).card ≤ 2 := Finset.card_le_two
    omega
  · obtain ⟨hp, hnot⟩ := Finset.mem_sdiff.mp hp
    obtain ⟨hpos, hlt, hclear⟩ := havailable p hp
    refine ⟨hpos, hover.pageCount ▸ hlt, ?_⟩
    rw [← Bool.not_eq_true, hover.used, hclear]
    simpa using hnot

variable {fuel o apicBase : Nat} {mem : Contents} {info : Vmm.BootInfo} {graphics : Vmm.GraphicsData}

/-- What holds after a boot that was successful, where `init` is the bitmap that
    `MmInitPhysicalMemoryManager` built, `o` the first of the pages that the self test plays with,
    and `p₀` the bitmap that the self test left. -/
structure Booted (info : Vmm.BootInfo) (apicBase : Nat) (init : Pmm.State) (o : Nat) (sys : System)
    (p₀ : Pmm.State) (tables : List Nat) : Prop where
  /-- The tables are pages of RAM. -/
  isTable : ∀ a, sys.IsTable a ↔ a ∈ tables
  wanted : ∀ a ∈ tables, ∃ p, Pmm.Wanted info.memMap p ∧ a = p * pageSize
  /-- The self test marks two pages and forgets them. -/
  tested : ∀ p, p₀.used p = true ↔ (p = o ∨ p = o + 11) ∨ init.used p = true
  /-- The pages that are marked: those, the tables, and the pages of the heap. -/
  ledger : ∀ p, sys.memory.pmm.used p = true ↔ p₀.used p = true ∨
    (∃ a ∈ tables, (Pmm.pagesOf (a, 1)).Has p) ∨
      ∃ r ∈ held sys.memory.heap.pageLog, (Pmm.pagesOf r).Has p
  /-- They are apart: no page is there for two reasons. -/
  apart : (tables.map (fun a => (a, 1)) ++ held sys.memory.heap.pageLog).Pairwise
    fun a b => (Pmm.pagesOf a).Apart (Pmm.pagesOf b)
  fresh : ∀ a ∈ tables.map (fun a => (a, 1)) ++ held sys.memory.heap.pageLog,
    ∀ p, (Pmm.pagesOf a).Has p → p₀.used p = false
  /-- Tables and heap are counted; the pages of the self test are not. -/
  count : sys.memory.pmm.mmReturnPageUsed =
    tables.length + ((held sys.memory.heap.pageLog).map Prod.snd).sum
  /-- From there on nothing overlaps, and the tables belong to whoever took them. -/
  sound : ∀ h s, Trace Step ⟨sys.memory, [], tables.map fun a => (a, 1)⟩ h s → Sound p₀ s
  /-- Memory is mapped to itself, but for the page after the LAPIC. -/
  identity : ∀ entry ∈ info.memMap.memEntries, ∀ x, entry.base ≤ x → x < entry.base + entry.size →
    x / pageSize ≠ Vmm.lapicBase apicBase / pageSize + 1 →
    sys.walk x = some (x / pageSize * pageSize)

/-- The same, by what every later call keeps: what is clear in the bitmap that the self test left is
    RAM, and the tables were taken from there. -/
structure Running (info : Vmm.BootInfo) (apicBase : Nat) (init : Pmm.State) (o : Nat) (sys : System)
    (p₀ : Pmm.State) (tables : List Nat) : Prop where
  isTable : ∀ a, sys.IsTable a ↔ a ∈ tables
  taken : ∀ a ∈ tables, ∃ p, p₀.Available p ∧ a = p * pageSize
  wanted : ∀ p, p₀.Available p → Pmm.Wanted info.memMap p
  tested : ∀ p, p₀.used p = true ↔ (p = o ∨ p = o + 11) ∨ init.used p = true
  owned : ∀ h s, Trace Step ⟨sys.memory, [], tables.map fun a => (a, 1)⟩ h s → Owned p₀ s
  identity : ∀ entry ∈ info.memMap.memEntries, ∀ x, entry.base ≤ x → x < entry.base + entry.size →
    x / pageSize ≠ Vmm.lapicBase apicBase / pageSize + 1 →
    sys.walk x = some (x / pageSize * pageSize)

/-- What every later call keeps holds when the boot ends; the ledger of the bitmap is read there. -/
theorem Running.booted {init : Pmm.State} {sys : System} {p₀ : Pmm.State} {tables : List Nat}
    (h : Running info apicBase init o sys p₀ tables) :
    Booted info apicBase init o sys p₀ tables := by
  have hx := (h.owned [] _ .start).exact
  refine ⟨h.isTable, fun a ha => ?_, h.tested, fun p => ?_, hx.inv.apart, hx.inv.fresh, ?_,
    fun calls s run => (h.owned calls s run).sound, h.identity⟩
  · obtain ⟨p, hp, rfl⟩ := h.taken a ha
    exact ⟨p, h.wanted p hp, rfl⟩
  · rw [show sys.memory.pmm.used p = true ↔ _ from hx.used p, Pmm.Sys.Holds, Sys.taken]
    simp only [List.mem_append, List.mem_map, or_and_right, exists_or, exists_exists_and_eq_and]
  · rw [Pmm.State.mmReturnPageUsed, show sys.memory.pmm.pageUsed = _ from hx.count,
      Pmm.Sys.pagesHeld, Sys.taken, List.map_append, List.sum_append, List.map_map]
    show (tables.map fun _ => 1).sum + _ = _
    rw [List.map_const', List.sum_replicate_nat, Nat.mul_one]

/-- Memory that holds zeros. -/
def zeros : Contents :=
  ⟨fun _ => 0, fun _ _ => 0, fun _ => ⟨0, 0, 0, 0, 0, 0⟩, fun _ => ⟨0, 0, 0, 0, 0, false⟩⟩

end Nearlands.Mm
