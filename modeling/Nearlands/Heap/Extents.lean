/-
  What a block header says about its block.

  `CreateBlock(n)` takes `n` rounded up to 16 for the whole block, header included, and records
  what is left behind the header as the block's size.  For a block made for an allocation, which
  asks for a page more than it needs, that size is real: the recorded bytes lie in the run of pages
  obtained for the block.  The block made at init is asked for with `n = 10`, less than its own
  header, and the difference wraps to `2 ^ 64 - 32`.

  So the recorded extents are real block by block, with the one exception of the first
  (`block_extents_iff`).
-/
import Nearlands.Heap.Blocks

namespace Nearlands.Heap

open Nearlands.Lib

/-- The header of block `b` records bytes of the run obtained for it, and no more of them in use
    than there are.  The run is the one in the page log, so this compares what the header says with
    what was asked for. -/
def ExtentReal (s : State) (b : Nat) : Prop :=
  ∃ r ∈ held s.pageLog, r.1 = b ∧ (s.blockAt b).base + (s.blockAt b).size ≤ r.1 + r.2 * pageSize ∧
    (s.blockAt b).amountUsed ≤ (s.blockAt b).size

/-- So do the headers of all blocks on the list. -/
def ExtentsReal (s : State) : Prop := ∃ B, s.blockList.Is B ∧ ∀ b ∈ B, ExtentReal s b

variable {v : View} {B F : List Nat} {live : List (Nat × Nat)} {first b : Nat}

/-- A block with a live allocation has bytes in use.  Its chunk lies in the used part, and has a
    header of 48 bytes. -/
theorem Inv.used_pos (hi : Inv v B F live) (hb : b ∈ B) (hused : 1 ≤ (v.block b).allocCounter) :
    0 < (v.block b).amountUsed := by
  have hcount := hi.counter b hb
  have hpos : 0 < liveIn v live b := by omega
  obtain ⟨a, ha⟩ := List.exists_mem_of_length_pos hpos
  obtain ⟨halive, hheader⟩ := List.mem_filter.mp ha
  have hin := (hi.live_chunk halive).within
  rw [of_decide_eq_true hheader, Region.Within, View.extent, View.usedPart] at hin
  dsimp only at hin
  omega

/-- The run held at a block is the block's own.  Runs held are those of blocks, and no two begin at
    one address. -/
theorem Inv.run_at (hi : Inv v B F live) {r : Nat × Nat} (hr : r ∈ held v.log) : r = v.runOf r.1 := by
  obtain ⟨b, hb, rfl⟩ := List.mem_map.mp (hi.runs.mem_iff.mp hr)
  rw [(hi.layout.block b hb).runOf]

/-- The recorded size of every block but the first one is real.  A block that is in use has a used
    part, so it is not the degenerate case of `BlockOk.shape`. -/
theorem Inv.extentReal {s : State} (hi : Inv s.view B F live) (hbusy : Busy s.view B first)
    (hb : b ∈ B) (hne : b ≠ first) : ExtentReal s b := by
  have hok := hi.layout.block b hb
  have hpos := hi.used_pos hb (hbusy.used b hb hne)
  obtain ⟨-, hin, hused⟩ | ⟨-, -, hzero⟩ := hok.shape
  · refine ⟨_, hi.runs.mem_iff.mpr (List.mem_map_of_mem hb), hok.runOf, ?_, hused⟩
    have hbase : (s.blockAt b).base = b + 48 := hok.base
    have hsize : (s.blockAt b).size = (s.view.block b).size := rfl
    rw [hbase, hok.runOf, hsize, pageSize]
    omega
  · rw [hzero] at hpos
    exact absurd hpos (Nat.lt_irrefl 0)

/-- That of the first one is not.  Its recorded size ends beyond `2 ^ 63`, its page does not. -/
theorem Inv.first_not_extentReal {s : State} (hi : Inv s.view B F live)
    (hbusy : Busy s.view B first) (h0 : first ≠ null) : ¬ ExtentReal s first := by
  rintro ⟨r, hr, hrb, hend, -⟩
  obtain ⟨hbig, hrun⟩ := hbusy.useless h0
  have hbase : (s.blockAt first).base = first + 48 := (hi.layout.block first (hbusy.stays h0)).base
  have hsize : (s.blockAt first).size = (s.view.block first).size := rfl
  have hpages : r.2 = 1 := by rw [hi.run_at hr, hrb, hrun]
  rw [hbase, hsize, hrb, hpages, pageSize] at hend
  omega

/-- Init puts its page, or `NULL`, at the head of the list. -/
theorem bHead_init (blockAt : Nat → BlockHeader) (allocAt : Nat → AllocHeader) (pages : Nat → Nat) :
    ((State.zero blockAt allocAt).mmInitGeneralAllocator pages).1.bHead = pages 1 := by
  obtain ⟨hfail, hmade⟩ := view_createBlock (State.zero blockAt allocAt) pages 10
  by_cases hmem : pages 1 = null
  · exact (congrArg (·.blocks.head) (hfail hmem).2).trans hmem.symm
  · exact congrArg (·.blocks.head) (hmade hmem).2

/-- **The recorded extents are real, but for the first block.**  In every state of every run, the
    header of a block on the list records bytes of its own run, and at most as many in use, exactly
    when it is not the block made at init; so all of them do exactly when init got no page.
    `CreateBlock` subtracts the header from a size that may be smaller, and init passes such a size.
    Every other size has a page added, so the subtraction is the only thing that goes wrong, and
    only once. -/
theorem block_extents_iff {blockAt : Nat → BlockHeader} {allocAt : Nat → AllocHeader}
    {pages : Nat → Nat} (hans : Answers [] pages) {h : List Event} {s : Sys}
    (run : Trace Step ⟨((State.zero blockAt allocAt).mmInitGeneralAllocator pages).1, []⟩ h s) :
    (∃ B, s.heap.blockList.Is B ∧ ∀ b ∈ B, (ExtentReal s.heap b ↔ b ≠ pages 1)) ∧
    (ExtentsReal s.heap ↔ pages 1 = null) := by
  obtain ⟨B, F, hi, hbusy⟩ := run_busy (.init hans) run
  rw [show (Sys.mk ((State.zero blockAt allocAt).mmInitGeneralAllocator pages).1 []).heap.bHead =
    pages 1 from bHead_init blockAt allocAt pages] at hbusy
  have hblock : ∀ b ∈ B, (ExtentReal s.heap b ↔ b ≠ pages 1) := by
    intro b hb
    constructor
    · rintro hreal rfl
      exact hi.first_not_extentReal hbusy (hi.blocks.nonnull _ hb) hreal
    · exact hi.extentReal hbusy hb
  refine ⟨⟨B, hi.blocks, hblock⟩, ?_⟩
  constructor
  · rintro ⟨B', hB', hall⟩
    obtain rfl := hB'.unique hi.blocks
    by_contra hne
    exact (hblock _ (hbusy.stays hne)).mp (hall _ (hbusy.stays hne)) rfl
  · intro hnull
    refine ⟨B, hi.blocks, fun b hb => (hblock b hb).mpr ?_⟩
    rw [hnull]
    exact hi.blocks.nonnull b hb

/-- After an allocation of 100 bytes the block made for it is real, the first one is not. -/
theorem block_extents_first : ∃ B, heapWithOne.blockList.Is B ∧
    (∀ b ∈ B, (ExtentReal heapWithOne b ↔ b ≠ 0x100000)) ∧ ¬ ExtentsReal heapWithOne := by
  have hans : Answers [] (pagesAt 0x100000) :=
    answers_pagesAt (by decide) (by decide) (by decide) (by decide)
  obtain ⟨⟨B, hB, hall⟩, hiff⟩ := block_extents_iff hans heapWithOne_reached
  exact ⟨B, hB, hall, fun hreal => absurd (hiff.mp hreal) (by decide)⟩

/-- Right after init the only block records `2 ^ 64 - 32` bytes in a run of one page. -/
theorem first_block_not_real : Started ⟨startedHeap, []⟩ ∧ startedHeap.bHead = 0x100000 ∧
    held startedHeap.pageLog = [(0x100000, 1)] ∧
    (startedHeap.blockAt 0x100000).size = 2 ^ 64 - 32 ∧ ¬ ExtentsReal startedHeap := by
  refine ⟨startedHeap_started, by decide, by decide, by decide, ?_⟩
  rintro ⟨B, hB, hall⟩
  obtain ⟨B', F, hi, hbusy, -⟩ := busy_start startedHeap_started
  obtain rfl := hB.unique hi.blocks
  have hne : startedHeap.bHead ≠ null := by decide
  exact hi.first_not_extentReal hbusy hne (hall _ (hbusy.stays hne))

end Nearlands.Heap
