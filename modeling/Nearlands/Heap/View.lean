/-
  The heap without its pointers: `View`.

  The two chains are doubly linked lists in the sense of `Nearlands.Lib.DList`, and the four list
  functions of the source are its `add` and `remove`.  What is left of a header once its links
  are taken out is its data.  A `View` is the two lists, the data of the headers, and the page
  log; every operation of the heap is one equation between the view before and the view after.
  From here on nothing unfolds a list function.
-/
import Nearlands.Heap.Alloc

namespace Nearlands.Heap

open Nearlands.Lib

/-- The fields of a block header that are not links. -/
structure BlockData where
  base : Nat
  size : Nat
  amountUsed : Nat
  allocCounter : Int
  deriving DecidableEq, Repr

/-- The fields of a chunk header that are not links. -/
structure AllocData where
  header : Nat
  base : Nat
  size : Nat
  isFree : Bool
  deriving DecidableEq, Repr

/-- A block header without its links. -/
def BlockHeader.data (b : BlockHeader) : BlockData := ⟨b.base, b.size, b.amountUsed, b.allocCounter⟩

/-- A chunk header without its links. -/
def AllocHeader.data (a : AllocHeader) : AllocData := ⟨a.header, a.base, a.size, a.isFree⟩

/-- The heap as its operations change it.  Order and membership of the chains are in the two lists,
    everything else in the data. -/
structure View where
  blocks : DList
  frees : DList
  block : Nat → BlockData
  chunk : Nat → AllocData
  log : List PageCall

/-- The block chain.  The links of all addresses come along; those of other addresses do not
    matter. -/
def State.blockList (s : State) : DList :=
  ⟨s.bHead, s.bTail, fun x => (s.blockAt x).next, fun x => (s.blockAt x).prev⟩

/-- The chain of free chunks. -/
def State.freeList (s : State) : DList :=
  ⟨s.aHead, s.aTail, fun x => (s.allocAt x).next, fun x => (s.allocAt x).prev⟩

/-- The heap, seen as a view. -/
def State.view (s : State) : View where
  blocks := s.blockList
  frees := s.freeList
  block := fun b => (s.blockAt b).data
  chunk := fun c => (s.allocAt c).data
  log := s.pageLog

/-! ## The list functions -/

/-- Adding a header is adding a node, and touches nothing else. -/
theorem view_addAllocHeader (s : State) (c : Nat) :
    (s.addAllocHeader c).view = { s.view with frees := s.view.frees.add c } := by
  unfold State.addAllocHeader State.view State.freeList State.blockList DList.add State.setAlloc
    upd AllocHeader.data
  by_cases h1 : s.aHead = null <;> by_cases h2 : s.aTail = null <;>
    simp only [h1, h2, if_true, if_false, ne_eq, not_true_eq_false, not_false_eq_true,
      DList.mk.injEq, View.mk.injEq, true_and, and_true] <;>
    refine ⟨⟨funext fun x => ?_, funext fun x => ?_⟩, funext fun x => ?_⟩ <;> grind

/-- Removing one is unlinking a node. -/
theorem view_removeAllocHeader (s : State) (c : Nat) :
    (s.removeAllocHeader c).view = { s.view with frees := s.view.frees.remove c } := by
  unfold State.removeAllocHeader State.view State.freeList State.blockList DList.remove
    State.setAlloc upd AllocHeader.data
  by_cases h1 : (s.allocAt c).prev = null <;> by_cases h2 : (s.allocAt c).next = null <;>
    by_cases h3 : s.aHead = c <;> by_cases h4 : s.aTail = c <;>
    simp only [h1, h2, h3, h4, if_true, if_false, ne_eq, not_true_eq_false, not_false_eq_true,
      DList.mk.injEq, View.mk.injEq, true_and, and_true] <;>
    refine ⟨⟨funext fun x => ?_, funext fun x => ?_⟩, funext fun x => ?_⟩ <;> grind

/-- The same for blocks. -/
theorem view_addBlockHeader (s : State) (b : Nat) :
    (s.addBlockHeader b).view = { s.view with blocks := s.view.blocks.add b } := by
  unfold State.addBlockHeader State.view State.freeList State.blockList DList.add State.setBlock
    upd BlockHeader.data
  by_cases h1 : s.bHead = null <;> by_cases h2 : s.bTail = null <;>
    simp only [h1, h2, if_true, if_false, ne_eq, not_true_eq_false, not_false_eq_true,
      DList.mk.injEq, View.mk.injEq, true_and, and_true] <;>
    refine ⟨⟨funext fun x => ?_, funext fun x => ?_⟩, funext fun x => ?_⟩ <;> grind

/-- The same for blocks. -/
theorem view_removeBlockHeader (s : State) (b : Nat) :
    (s.removeBlockHeader b).view = { s.view with blocks := s.view.blocks.remove b } := by
  unfold State.removeBlockHeader State.view State.freeList State.blockList DList.remove
    State.setBlock upd BlockHeader.data
  by_cases h1 : (s.blockAt b).prev = null <;> by_cases h2 : (s.blockAt b).next = null <;>
    by_cases h3 : s.bHead = b <;> by_cases h4 : s.bTail = b <;>
    simp only [h1, h2, h3, h4, if_true, if_false, ne_eq, not_true_eq_false, not_false_eq_true,
      DList.mk.injEq, View.mk.injEq, true_and, and_true] <;>
    refine ⟨⟨funext fun x => ?_, funext fun x => ?_⟩, funext fun x => ?_⟩ <;> grind

/-! ## Writes to the data of a header -/

/-- A write that leaves the links changes the data of one chunk. -/
theorem view_setAlloc (s : State) (c : Nat) {f : AllocHeader → AllocHeader}
    (hn : ∀ a, (f a).next = a.next) (hp : ∀ a, (f a).prev = a.prev) :
    (s.setAlloc c f).view = { s.view with chunk := upd s.view.chunk c (f (s.allocAt c)).data } := by
  unfold State.setAlloc State.view State.freeList State.blockList upd
  simp only [DList.mk.injEq, View.mk.injEq, true_and, and_true]
  refine ⟨⟨funext fun x => ?_, funext fun x => ?_⟩, funext fun x => ?_⟩ <;> grind

/-- Or of one block. -/
theorem view_setBlock (s : State) (b : Nat) {f : BlockHeader → BlockHeader}
    (hn : ∀ a, (f a).next = a.next) (hp : ∀ a, (f a).prev = a.prev) :
    (s.setBlock b f).view = { s.view with block := upd s.view.block b (f (s.blockAt b)).data } := by
  unfold State.setBlock State.view State.freeList State.blockList upd
  simp only [DList.mk.injEq, View.mk.injEq, true_and, and_true]
  refine ⟨⟨funext fun x => ?_, funext fun x => ?_⟩, funext fun x => ?_⟩ <;> grind

/-! ## The operations on views -/

/-- `d` more live chunks in block `b`.  The counter is signed in the source, and may become negative
    only where a chunk is freed twice. -/
def View.count (v : View) (b : Nat) (d : Int) : View :=
  { v with block := upd v.block b { v.block b with allocCounter := (v.block b).allocCounter + d } }

/-- Take the free chunk `c` as it is.  Three changes: unlinked, no longer free, and counted. -/
def View.reuse (v : View) (c : Nat) : View :=
  { v with frees := v.frees.remove c,
           chunk := upd v.chunk c { v.chunk c with isFree := false } }.count (v.chunk c).header 1

/-- Where the rest of `c` begins once `size` bytes are taken.  It is where the new header will be. -/
def View.restOf (v : View) (c size : Nat) : Nat := w64 ((v.chunk c).base + size)

/-- Take the first `size` bytes of the free chunk `c`; the rest becomes a free chunk.  The rest is
    48 bytes shorter than the difference, for its header. -/
def View.split (v : View) (c size : Nat) : View :=
  let n := v.restOf c size
  { v with frees := (v.frees.remove c).add n,
           chunk := upd (upd v.chunk c { v.chunk c with size := size, isFree := false }) n
             ⟨(v.chunk c).header, w64 (n + 48), splitSafe (sub64 (sub64 (v.chunk c).size size) 48),
               true⟩ }.count (v.chunk c).header 1

/-- Where the unused part of block `b` begins.  The top only moves up; memory of a block comes back
    with the block or through the free list. -/
def View.topOf (v : View) (b : Nat) : Nat := w64 ((v.block b).base + (v.block b).amountUsed)

/-- Carve a live chunk of `size` bytes, header included, from block `b`.  The header is at the top,
    and the memory handed out 48 bytes behind it. -/
def View.carve (v : View) (b size : Nat) : View :=
  { v with chunk := upd v.chunk (v.topOf b) ⟨b, w64 (v.topOf b + 48), sub64 size 48, false⟩,
           block := upd v.block b { v.block b with
             amountUsed := w64 ((v.block b).amountUsed + size),
             allocCounter := (v.block b).allocCounter + 1 } }

/-- A new block of `size` bytes, header included, in the run at `mem`.  Its header takes the first
    48 bytes of the run. -/
def View.create (v : View) (size mem : Nat) : View :=
  { v with blocks := v.blocks.add mem,
           block := upd v.block mem ⟨w64 (mem + 48), sub64 size 48, 0, 0⟩,
           log := .allocate (inPages size) mem :: v.log }

/-- Put the live chunk `c` on the free list.  It stays where it is, with its size; free neighbours
    are not joined. -/
def View.give (v : View) (c : Nat) : View :=
  { v.count (v.chunk c).header (-1) with
    frees := v.frees.add c, chunk := upd v.chunk c { v.chunk c with isFree := true } }

/-- Unlink the chunk `c`. -/
def View.drop (v : View) (c : Nat) : View := { v with frees := v.frees.remove c }

/-- The run of block `b`, as its header remembers it: (address, pages).  That this is the run it was
    made in is part of the invariant. -/
def View.runOf (v : View) (b : Nat) : Nat × Nat :=
  (sub64 (v.block b).base 48, inPages (splitSafe (w64 ((v.block b).size + 48))))

/-- Give block `b` back.  The header is unlinked, and keeps its data; nobody reads it again. -/
def View.delete (v : View) (b : Nat) : View :=
  { v with blocks := v.blocks.remove b, log := .free (v.runOf b).1 (v.runOf b).2 :: v.log }

/-- The headers are multiples of 16 already. -/
@[simp] theorem splitSafe_header : splitSafe 48 = 48 := rfl

/-- One live chunk more. -/
theorem view_incrementCounter (s : State) (b : Nat) :
    (s.incrementCounter b).view = s.view.count b 1 :=
  view_setBlock s b (fun _ => rfl) (fun _ => rfl)

/-- One less. -/
theorem view_decrementCounter (s : State) (b : Nat) :
    (s.decrementCounter b).view = s.view.count b (-1) :=
  view_setBlock s b (fun _ => rfl) (fun _ => rfl)

/-- `MmFreeGeneralMemory` on a chunk whose block stays. -/
theorem view_giveChunk (s : State) (c : Nat) :
    (((s.decrementCounter (s.allocAt c).header).setAlloc c
      fun a => { a with isFree := true }).addAllocHeader c).view = s.view.give c := by
  rw [view_addAllocHeader, view_setAlloc, view_decrementCounter]
  · rfl
  · exact fun _ => rfl
  · exact fun _ => rfl

/-- The branch for a chunk that is taken as it is. -/
theorem view_reuseChunk (s : State) (c : Nat) :
    (s.reuseChunk c).1.view = s.view.reuse c ∧ (s.reuseChunk c).2 = (s.view.chunk c).base := by
  have hview : (s.reuseChunk c).1.view = s.view.reuse c := by
    rw [State.reuseChunk]
    dsimp only
    rw [view_removeAllocHeader, view_incrementCounter, view_setAlloc]
    · rfl
    · exact fun _ => rfl
    · exact fun _ => rfl
  refine ⟨hview, ?_⟩
  have hbase := congrArg (fun v => (v.chunk c).base) hview
  exact hbase.trans (by simp [View.reuse, View.count])

/-- `splitChunk` before the rest is put on the free list: the chunk is unlinked and shorter. -/
theorem view_shortened (s : State) (c size : Nat) :
    ((((s.setAlloc c fun a => { a with isFree := false }).incrementCounter
      (s.allocAt c).header).setAlloc c fun a => { a with size := size }).removeAllocHeader c).view =
    { s.view with
      frees := s.view.frees.remove c,
      chunk := upd s.view.chunk c { s.view.chunk c with size := size, isFree := false } }.count
      (s.view.chunk c).header 1 := by
  rw [view_removeAllocHeader, view_setAlloc, view_incrementCounter, view_setAlloc]
  · unfold View.count
    simp only [View.mk.injEq, true_and, and_true]
    refine ⟨rfl, funext fun x => ?_⟩
    by_cases hx : x = c
    · rw [hx, upd_same, upd_same]
      simp [State.incrementCounter, State.setBlock, State.setAlloc, State.view, AllocHeader.data]
    · rw [upd_other hx, upd_other hx, upd_other hx]
  all_goals exact fun _ => rfl

/-- The branch that splits: the front is answered, and the rest is the last of the free list. -/
theorem view_splitChunk (s : State) (c size : Nat) :
    (s.splitChunk c size).1.view = s.view.split c size ∧
      (s.splitChunk c size).2 = (s.view.chunk c).base := by
  have hshort := view_shortened s c size
  have hbase := congrArg (fun v => (v.chunk c).base) hshort
  have hold : ((s.setAlloc c fun a => { a with isFree := false }).incrementCounter
      (s.allocAt c).header).allocAt c = { s.allocAt c with isFree := false } := by
    simp [State.incrementCounter, State.setBlock, State.setAlloc]
  rw [State.splitChunk]
  dsimp only
  generalize hs : ((((s.setAlloc c fun a => { a with isFree := false }).incrementCounter
      (s.allocAt c).header).setAlloc c fun a => { a with size := size }).removeAllocHeader c) = s₁
    at hshort hbase ⊢
  have hbase₁ : (s₁.allocAt c).base = (s.view.chunk c).base :=
    hbase.trans (by simp [View.count])
  refine ⟨?_, hbase₁⟩
  rw [view_addAllocHeader, view_setAlloc, hshort, hbase₁, hold]
  · rfl
  · exact fun _ => rfl
  · exact fun _ => rfl

/-- The branch that carves. -/
theorem view_carveChunk (s : State) (b size : Nat) :
    (s.carveChunk b size).1.view = s.view.carve b size ∧
      (s.carveChunk b size).2 = w64 (s.view.topOf b + 48) := by
  refine ⟨?_, rfl⟩
  rw [State.carveChunk, State.carveMemoryFromBlock]
  dsimp only
  rw [view_incrementCounter, view_setAlloc, view_setBlock]
  · rw [View.carve, View.count]
    simp only [View.mk.injEq, true_and, and_true]
    refine ⟨funext fun x => ?_, rfl⟩
    by_cases hx : x = b
    · rw [hx, upd_same, upd_same, upd_same]
      rfl
    · rw [upd_other hx, upd_other hx, upd_other hx]
  all_goals exact fun _ => rfl

/-- A refused block changes the log only; one that was granted is the last of the chain. -/
theorem view_createBlock (s : State) (pages : Nat → Nat) (allocSize : Nat) :
    let mem := pages (inPages (splitSafe allocSize))
    (mem = null → (s.createBlock pages allocSize).2 = .outOfMemory ∧
      (s.createBlock pages allocSize).1.view =
        { s.view with log := .allocate (inPages (splitSafe allocSize)) null :: s.view.log }) ∧
    (mem ≠ null → (s.createBlock pages allocSize).2 = .success ∧
      (s.createBlock pages allocSize).1.view = s.view.create (splitSafe allocSize) mem) := by
  dsimp only
  rw [State.createBlock]
  dsimp only
  constructor
  · intro h
    rw [if_pos h, h]
    exact ⟨rfl, rfl⟩
  · intro h
    rw [if_neg h]
    refine ⟨rfl, ?_⟩
    dsimp only
    rw [view_addBlockHeader, view_setBlock]
    · rfl
    · exact fun _ => rfl
    · exact fun _ => rfl

/-- A block that is given back. -/
theorem view_deleteBlockHeader (s : State) (b : Nat) :
    (s.deleteBlockHeader b).1.view = s.view.delete b := by
  have hview := view_removeBlockHeader s b
  have hbase : ((s.removeBlockHeader b).blockAt b).base = (s.blockAt b).base :=
    congrArg (fun v => (v.block b).base) hview
  have hlog : (s.removeBlockHeader b).pageLog = s.pageLog := congrArg View.log hview
  have hset : ∀ (t : State) (log : List PageCall),
      ({ t with pageLog := log } : State).view = { t.view with log := log } := fun _ _ => rfl
  rw [State.deleteBlockHeader]
  dsimp only
  rw [hset, hview, hbase, hlog]
  rfl

end Nearlands.Heap
