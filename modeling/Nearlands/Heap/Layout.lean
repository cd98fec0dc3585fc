/-
  Where the headers and the chunks lie.

  `Layout v B C` says that the blocks `B` are runs of pages, pairwise apart, each with its header
  in front, and that the chunks `C`, header and payload together, lie in the used parts of their
  blocks, pairwise apart, on multiples of 16.  It is closed under reordering of `C`, and each
  change of the heap is one lemma: a chunk is split in two, a chunk is carved from the unused
  part of a block, a block is made, a block goes with its chunks.

  The block made at init is degenerate.  `CreateBlock(10)` computes its size as `16 - 48`, which
  wraps to `2 ^ 64 - 32`; nothing is ever carved from it, because `remaining` reads that size as
  a negative number (`BlockOk.shape`).
-/
import Nearlands.Heap.Calls

namespace Nearlands.Heap

open Nearlands.Lib

/-! ## Rounding to 16 -/

/-- `SPLIT_SAFE` rounds up to a multiple of 16, as `(x + 15) / 16 * 16`.  The bound is the one thing
    that can go wrong, since the sum is taken in 64 bits. -/
theorem splitSafe_of_lt {x : Nat} (h : x + 15 < 2 ^ 64) : splitSafe x = (x + 15) / 16 * 16 := by
  rw [splitSafe]
  rw [w64_of_lt h]

/-- Multiples of 16 stay what they are. -/
theorem splitSafe_aligned {x : Nat} (hx : x % 16 = 0) (h : x < 2 ^ 64) : splitSafe x = x := by
  rw [splitSafe_of_lt (by omega)]
  omega

/-- Whatever the request, wrapped or not, the rounded size is a multiple of 16.  All chunk sizes go
    through `SPLIT_SAFE`, so this is where the alignment of every pointer comes from. -/
theorem splitSafe_mod (x : Nat) : splitSafe x % 16 = 0 := Nat.mul_mod_left _ _

theorem splitSafe_lt (x : Nat) : splitSafe x < 2 ^ 64 := by
  have := w64_lt (x + 15)
  rw [splitSafe]
  omega

/-! ## The layout -/

/-- The bytes of a chunk, header included. -/
def View.extent (v : View) (c : Nat) : Region := ⟨c, 48 + (v.chunk c).size⟩

/-- The part of a block that is in use. -/
def View.usedPart (v : View) (b : Nat) : Region := ⟨b + 48, (v.block b).amountUsed⟩

/-- The pages of a block. -/
def View.pagesOf (v : View) (b : Nat) : Region := runRegion (v.runOf b)

/-- A block: a run of pages with its header in front.  The fields say where the data begins, that
    the block begins on a page and ends below `2 ^ 64`, and that header and used bytes fit into its
    pages.  The recorded `size` is only trusted as far as `shape` says. -/
structure BlockOk (v : View) (b : Nat) : Prop where
  base : (v.block b).base = b + 48
  aligned : b % 0x1000 = 0
  fits : b + (v.runOf b).2 * 0x1000 < 2 ^ 64
  used_mod : (v.block b).amountUsed % 16 = 0
  used_le : 48 + (v.block b).amountUsed ≤ (v.runOf b).2 * 0x1000
  /-- Either the recorded size is real, or the block is the one made at init and holds nothing. -/
  shape : ((v.block b).size < 2 ^ 63 ∧ 48 + (v.block b).size ≤ (v.runOf b).2 * 0x1000 ∧
      (v.block b).amountUsed ≤ (v.block b).size) ∨
    (2 ^ 63 ≤ (v.block b).size ∧ (v.block b).size < 2 ^ 64 ∧ (v.block b).amountUsed = 0)

/-- A chunk of one of the blocks.  Its header points to a block that exists, its base is behind the
    header, and the whole extent lies in what that block has given out so far.  The last field is
    what keeps a chunk inside the pages that the block holds. -/
structure ChunkOk (v : View) (B : List Nat) (c : Nat) : Prop where
  base : (v.chunk c).base = c + 48
  header : (v.chunk c).header ∈ B
  aligned : c % 16 = 0
  size_mod : (v.chunk c).size % 16 = 0
  within : (v.extent c).Within (v.usedPart (v.chunk c).header)

/-- Blocks `B`, and chunks `C` in them.  The list `C` holds live and free chunks alike: nothing here
    depends on the free flag, which is why taking a free chunk and giving it back leave the layout
    as it is. -/
structure Layout (v : View) (B C : List Nat) : Prop where
  block : ∀ b ∈ B, BlockOk v b
  apart : B.Pairwise fun b b' => (v.pagesOf b).Apart (v.pagesOf b')
  chunk : ∀ c ∈ C, ChunkOk v B c
  tiled : C.Pairwise fun c c' => (v.extent c).Apart (v.extent c')

variable {v v' : View} {B C : List Nat} {b c : Nat}

/-- The run is read off the header as `DeleteBlockHeader` reads it: the base less 48, and as many
    pages as the recorded size and the header take.  For a block in order it begins at the block. -/
theorem BlockOk.runOf (h : BlockOk v b) : (v.runOf b).1 = b := by
  have := h.fits
  have := h.used_le
  rw [View.runOf]
  rw [h.base, sub64_of_le (by omega) (by omega)]
  omega

/-- The unused part of a block begins, with room for a chunk header, below `2 ^ 64`. -/
theorem BlockOk.top (h : BlockOk v b) : v.topOf b = b + 48 + (v.block b).amountUsed ∧
    w64 (v.topOf b + 48) = b + 96 + (v.block b).amountUsed := by
  -- runs end on a page boundary below `2 ^ 64`, so a page further is still in range
  have hal := h.aligned
  have hfits := h.fits
  have hused := h.used_le
  have htop : v.topOf b = b + 48 + (v.block b).amountUsed := by
    rw [View.topOf]
    rw [h.base, w64_of_lt (by omega)]
  rw [htop, w64_of_lt (by omega)]
  omega

/-- The block's header and everything in use lie in its pages. -/
theorem BlockOk.pages (h : BlockOk v b) : v.pagesOf b = ⟨b, (v.runOf b).2 * 0x1000⟩ := by
  rw [View.pagesOf, runRegion]
  rw [h.runOf]

/-- A chunk, with its header, lies in the pages of its block. -/
theorem ChunkOk.inPages (hl : Layout v B C) (h : ChunkOk v B c) :
    (v.extent c).Within (v.pagesOf (v.chunk c).header) := by
  have hb := hl.block _ h.header
  have h1 := h.within
  have h2 := hb.used_le
  rw [hb.pages]
  rw [Region.Within, View.usedPart, View.extent] at *
  dsimp only at *
  omega

/-- A chunk ends below `2 ^ 64`. -/
theorem ChunkOk.lt (hl : Layout v B C) (h : ChunkOk v B c) : c + 48 + (v.chunk c).size < 2 ^ 64 := by
  have hb := hl.block _ h.header
  have h1 := h.inPages hl
  have h2 := hb.fits
  rw [hb.pages] at h1
  rw [Region.Within, View.extent] at h1
  dsimp only at h1
  omega

/-- A chunk begins after the header of its block. -/
theorem ChunkOk.pos (h : ChunkOk v B c) : 48 ≤ c := by
  have h1 := h.within
  rw [Region.Within, View.usedPart] at h1
  have h2 := h1.1
  rw [View.extent] at h2
  dsimp only at h2
  omega

/-- No chunk is listed twice: two copies of it would not be apart, having headers of 48 bytes. -/
theorem Layout.chunks_nodup (hl : Layout v B C) : C.Nodup :=
  hl.tiled.imp fun {c d} h hcd => by
    subst hcd
    rw [Region.Apart, View.extent] at h
    dsimp only at h
    omega

/-- One more chunk.  What is left to check for a new chunk is that it is in order itself, and apart
    from every chunk there was. -/
theorem Layout.cons (hl : Layout v B C) (hc : ChunkOk v B c)
    (hap : ∀ x ∈ C, (v.extent c).Apart (v.extent x)) : Layout v B (c :: C) where
  block := hl.block
  apart := hl.apart
  chunk := fun x hx => by
    rcases List.mem_cons.mp hx with rfl | hx
    · exact hc
    · exact hl.chunk x hx
  tiled := List.pairwise_cons.mpr ⟨hap, hl.tiled⟩

/-- The order of the chunks does not matter.  Both lists are read as sets with multiplicities, so
    that the free list may be walked in its own order while the layout is kept in another. -/
theorem Layout.perm {C' : List Nat} (hl : Layout v B C) (hp : C.Perm C') : Layout v B C' where
  block := hl.block
  apart := hl.apart
  chunk := fun c hc => hl.chunk c (hp.mem_iff.mpr hc)
  tiled := (hp.pairwise_iff fun h => h.symm).mp hl.tiled

/-- A chunk does not meet what is in the pages of a block outside its used part. -/
theorem Layout.apart_unused (hl : Layout v B C) (h : ChunkOk v B c) (hb : b ∈ B) {r : Region}
    (hr : r.Within (v.pagesOf b)) (hu : (v.usedPart b).Apart r) : (v.extent c).Apart r := by
  by_cases hbc : (v.chunk c).header = b
  · have hw := h.within
    rw [hbc] at hw
    exact hu.within hw ⟨Nat.le_refl _, Nat.le_refl _⟩
  · exact (Region.apart_of_mem hl.apart h.header hb hbc).within (h.inPages hl) hr

/-- A chunk never meets a block header. -/
theorem Layout.apart_block (hl : Layout v B C) (h : ChunkOk v B c) (hb : b ∈ B) :
    (v.extent c).Apart ⟨b, 48⟩ := by
  have hok := hl.block b hb
  have hused := hok.used_le
  apply hl.apart_unused h hb
  · rw [hok.pages, Region.Within]
    dsimp only
    omega
  · exact Or.inr (Nat.le_refl _)

/-! ## What changes of the heap do to it -/

/-- The two views have the same blocks `B` and chunks `C`, up to counters and free flags.  Counters
    change with every call and free flags with most; the layout reads neither.  So a call that only
    counts and marks keeps the layout by `Layout.congr`, without looking at any address. -/
structure SameData (v v' : View) (B C : List Nat) : Prop where
  block : ∀ b ∈ B, (v'.block b).base = (v.block b).base ∧ (v'.block b).size = (v.block b).size ∧
    (v'.block b).amountUsed = (v.block b).amountUsed
  chunk : ∀ c ∈ C, (v'.chunk c).header = (v.chunk c).header ∧
    (v'.chunk c).base = (v.chunk c).base ∧ (v'.chunk c).size = (v.chunk c).size

/-- A block with the same data has the same run of pages. -/
theorem SameData.runOf (h : SameData v v' B C) (hb : b ∈ B) : v'.runOf b = v.runOf b := by
  unfold View.runOf
  rw [(h.block b hb).1, (h.block b hb).2.1]

/-- A block with the same data has the same pages. -/
theorem SameData.pagesOf (h : SameData v v' B C) (hb : b ∈ B) : v'.pagesOf b = v.pagesOf b := by
  unfold View.pagesOf
  rw [h.runOf hb]

/-- A chunk with the same data has the same extent. -/
theorem SameData.extent (h : SameData v v' B C) (hc : c ∈ C) : v'.extent c = v.extent c := by
  unfold View.extent
  rw [(h.chunk c hc).2.2]

/-- The condition on a block reads its base, its size and what is used of it, and nothing else. -/
theorem SameData.blockOk (h : SameData v v' B C) (hb : b ∈ B) (hok : BlockOk v b) :
    BlockOk v' b := by
  obtain ⟨h1, h2, h3⟩ := h.block b hb
  obtain ⟨hbase, hal, hfits, hmod, hused, hshape⟩ := hok
  refine ⟨h1.trans hbase, hal, ?_, ?_, ?_, ?_⟩
  · rw [h.runOf hb]; exact hfits
  · rw [h3]; exact hmod
  · rw [h.runOf hb, h3]; exact hused
  · rw [h.runOf hb, h2, h3]; exact hshape

/-- The condition on a chunk reads its header, base and size, and the used part of its block. -/
theorem SameData.chunkOk (h : SameData v v' B C) (hc : c ∈ C) (hok : ChunkOk v B c) :
    ChunkOk v' B c := by
  obtain ⟨h1, h2, h3⟩ := h.chunk c hc
  obtain ⟨hbase, hheader, hal, hmod, hin⟩ := hok
  refine ⟨h2.trans hbase, h1 ▸ hheader, hal, h3 ▸ hmod, ?_⟩
  have hpart : v'.usedPart (v'.chunk c).header = v.usedPart (v.chunk c).header := by
    unfold View.usedPart
    rw [h1, (h.block _ hheader).2.2]
  rw [h.extent hc, hpart]
  exact hin

/-- A layout is a matter of the data. -/
theorem Layout.congr (hl : Layout v B C) (h : SameData v v' B C) : Layout v' B C where
  block := fun b hb => h.blockOk hb (hl.block b hb)
  apart := hl.apart.imp_of_mem fun hb hb' hap => by
    rw [h.pagesOf hb, h.pagesOf hb']
    exact hap
  chunk := fun c hc => h.chunkOk hc (hl.chunk c hc)
  tiled := hl.tiled.imp_of_mem fun hc hc' hap => by
    rw [h.extent hc, h.extent hc']
    exact hap

/-- Fewer blocks and chunks.  This is what happens when a block is deleted: its chunks leave the
    list with it, and every chunk that stays must have its header in the blocks that stay. -/
theorem Layout.sub {B' C' : List Nat} (hl : Layout v B C) (hB : B'.Sublist B) (hC : C'.Sublist C)
    (hin : ∀ c ∈ C', (v.chunk c).header ∈ B') : Layout v B' C' where
  block := fun b hb => hl.block b (hB.mem hb)
  apart := hl.apart.sublist hB
  chunk := fun c hc =>
    let hok := hl.chunk c (hC.mem hc)
    ⟨hok.base, hin c hc, hok.aligned, hok.size_mod, hok.within⟩
  tiled := hl.tiled.sublist hC

/-- The counter of live allocations is apart from everything that says where a block lies. -/
theorem block_count (v : View) (b : Nat) (d : Int) (x : Nat) :
    ((v.count b d).block x).base = (v.block x).base ∧
      ((v.count b d).block x).size = (v.block x).size ∧
      ((v.count b d).block x).amountUsed = (v.block x).amountUsed := by
  rw [View.count]
  by_cases hx : x = b
  · rw [hx]; simp
  · simp [upd_other hx]

section split

variable {size : Nat}

/-- The two halves of a split chunk.  The front half keeps the chunk's header, and gets the size
    asked for; the rest gets a header of its own behind that, with 48 bytes less than what was
    left. -/
theorem split_values (hl : Layout v B (c :: C)) (hs : (v.chunk c).Splits size)
    (hmod : size % 16 = 0) :
    v.restOf c size = c + 48 + size ∧
    (v.split c size).chunk c = { v.chunk c with size := size, isFree := false } ∧
    (v.split c size).chunk (c + 48 + size) =
      ⟨(v.chunk c).header, c + 48 + size + 48, (v.chunk c).size - size - 48, true⟩ ∧
    ∀ x, x ≠ c → x ≠ c + 48 + size → (v.split c size).chunk x = v.chunk x := by
  have hok := hl.chunk c List.mem_cons_self
  have hlt := hok.lt hl
  obtain ⟨hgt, h48, hrest⟩ := hs
  rw [sub64_of_le (by omega) (by omega)] at hrest
  have hn : v.restOf c size = c + 48 + size := by
    rw [View.restOf]
    rw [hok.base, w64_of_lt (by omega)]
  have h1 := hok.size_mod
  have hsize : splitSafe (sub64 (sub64 (v.chunk c).size size) 48) = (v.chunk c).size - size - 48 := by
    rw [sub64_of_le (b := size) (by omega) (by omega), sub64_of_le (by omega) (by omega),
      splitSafe_aligned (by omega) (by omega)]
  refine ⟨hn, ?_, ?_, fun x hxc hxn => ?_⟩
  · rw [View.split, View.count]
    dsimp only
    rw [hn, upd_other (by omega), upd_same]
  · rw [View.split, View.count]
    dsimp only
    rw [hn, upd_same, hsize, w64_of_lt (by omega)]
  · rw [View.split, View.count]
    dsimp only
    rw [hn, upd_other hxn, upd_other hxc]

/-- The other blocks and chunks are the same, and neither half is one of them.  The rest of a split
    chunk begins inside its extent, and no other chunk begins there, so that writing the new header
    damages no other. -/
theorem split_same (hl : Layout v B (c :: C)) (hs : (v.chunk c).Splits size)
    (hmod : size % 16 = 0) : SameData v (v.split c size) B C := by
  obtain ⟨-, -, -, hother⟩ := split_values hl hs hmod
  have hlt := (hl.chunk c List.mem_cons_self).lt hl
  obtain ⟨hgt, h48, hrest⟩ := hs
  rw [sub64_of_le (by omega) (by omega)] at hrest
  refine ⟨fun b _ => block_count _ _ _ b, fun x hx => ?_⟩
  have hap := (List.pairwise_cons.mp hl.tiled).1 x hx
  unfold Region.Apart View.extent at hap
  dsimp only at hap
  rw [hother x (by omega) (by omega)]
  exact ⟨rfl, rfl, rfl⟩

/-- Where the two halves lie. -/
theorem split_extents (hl : Layout v B (c :: C)) (hs : (v.chunk c).Splits size)
    (hmod : size % 16 = 0) :
    (v.split c size).extent c = ⟨c, 48 + size⟩ ∧
    (v.split c size).extent (c + 48 + size) =
      ⟨c + 48 + size, 48 + ((v.chunk c).size - size - 48)⟩ := by
  obtain ⟨-, hc, hn, -⟩ := split_values hl hs hmod
  unfold View.extent
  rw [hc, hn]
  exact ⟨rfl, rfl⟩

/-- Both halves are chunks of the block. -/
theorem split_chunks (hl : Layout v B (c :: C)) (hs : (v.chunk c).Splits size)
    (hmod : size % 16 = 0) :
    ChunkOk (v.split c size) B c ∧ ChunkOk (v.split c size) B (c + 48 + size) := by
  obtain ⟨-, hc, hn, -⟩ := split_values hl hs hmod
  obtain ⟨hextc, hextn⟩ := split_extents hl hs hmod
  have hok := hl.chunk c List.mem_cons_self
  have hlt := hok.lt hl
  have hw := hok.within
  have hmodc := hok.size_mod
  have hal := hok.aligned
  have hpart : (v.split c size).usedPart (v.chunk c).header = v.usedPart (v.chunk c).header := by
    unfold View.usedPart
    rw [((split_same hl hs hmod).block _ hok.header).2.2]
  obtain ⟨hgt, h48, hrest⟩ := hs
  rw [sub64_of_le (by omega) (by omega)] at hrest
  rw [Region.Within, View.extent] at hw
  dsimp only at hw
  constructor
  · refine ⟨by rw [hc]; exact hok.base, by rw [hc]; exact hok.header, hal, by rw [hc]; exact hmod, ?_⟩
    rw [hextc, hc, hpart]
    rw [Region.Within]
    dsimp only
    omega
  · refine ⟨by rw [hn], by rw [hn]; exact hok.header, by omega, by rw [hn]; dsimp only; omega, ?_⟩
    rw [hextn, hn, hpart]
    rw [Region.Within]
    dsimp only
    omega

/-- **Splitting a chunk.**  Both halves lie where the chunk lay.  Where there was one chunk of `48 +
    size` bytes there are two, with the same bytes between them and none outside.  Everything that
    was apart from the whole is apart from both. -/
theorem Layout.split (hl : Layout v B (c :: C)) (hs : (v.chunk c).Splits size)
    (hmod : size % 16 = 0) :
    Layout (v.split c size) B (c :: (c + 48 + size) :: C) := by
  have hsame := split_same hl hs hmod
  obtain ⟨hextc, hextn⟩ := split_extents hl hs hmod
  obtain ⟨hokc, hokn⟩ := split_chunks hl hs hmod
  have hlt := (hl.chunk c List.mem_cons_self).lt hl
  have hrestl : Layout (v.split c size) B C :=
    (hl.sub (List.Sublist.refl B) (List.sublist_cons_self c C)
      fun x hx => (hl.chunk x (List.mem_cons_of_mem _ hx)).header).congr hsame
  have hhalf : ∀ r : Region, r.Within (v.extent c) →
      ∀ x ∈ C, r.Apart ((v.split c size).extent x) := by
    intro r hr x hx
    rw [hsame.extent hx]
    exact ((List.pairwise_cons.mp hl.tiled).1 x hx).within hr ⟨Nat.le_refl _, Nat.le_refl _⟩
  obtain ⟨hgt, h48, hrest⟩ := hs
  rw [sub64_of_le (by omega) (by omega)] at hrest
  have hinc : Region.Within ⟨c, 48 + size⟩ (v.extent c) := by
    rw [Region.Within, View.extent]
    dsimp only
    omega
  have hinn : Region.Within ⟨c + 48 + size, 48 + ((v.chunk c).size - size - 48)⟩ (v.extent c) := by
    rw [Region.Within, View.extent]
    dsimp only
    omega
  refine (hrestl.cons hokn fun x hx => ?_).cons hokc fun x hx => ?_
  · rw [hextn]
    exact hhalf _ hinn x hx
  · rcases List.mem_cons.mp hx with rfl | hx
    · rw [hextc, hextn]
      exact Or.inl (by dsimp only; omega)
    · rw [hextc]
      exact hhalf _ hinc x hx

end split

section carve

variable {size : Nat}

/-- What is left in a block really is left. -/
theorem BlockOk.room (h : BlockOk v b) (h48 : 48 ≤ size) (hfit : size ≤ (v.block b).remaining) :
    (v.block b).size < 2 ^ 63 ∧ 48 + (v.block b).size ≤ (v.runOf b).2 * 0x1000 ∧
      (v.block b).amountUsed + size ≤ (v.block b).size := by
  unfold BlockData.remaining at hfit
  dsimp only at hfit
  rcases h.shape with ⟨h1, h2, h3⟩ | ⟨h1, h2, h3⟩
  · rw [sub64_of_le h3 (by omega)] at hfit
    split at hfit
    · exact ⟨h1, h2, by omega⟩
    · omega
  · rw [h3, sub64_of_le (Nat.zero_le _) h2, if_neg (by omega)] at hfit
    omega

/-- The new chunk of a block, and what stays.  The header is written at the top of the used part,
    and the counter of used bytes goes up by header and payload.  The block header itself lies
    below, and is not damaged by the write. -/
theorem carve_values (hl : Layout v B C) (hb : b ∈ B) (h48 : 48 ≤ size)
    (hfit : size ≤ (v.block b).remaining) :
    v.topOf b = b + 48 + (v.block b).amountUsed ∧
    (v.carve b size).chunk (v.topOf b) = ⟨b, v.topOf b + 48, size - 48, false⟩ ∧
    (∀ x, x ≠ v.topOf b → (v.carve b size).chunk x = v.chunk x) ∧
    (v.carve b size).block b = { v.block b with
      amountUsed := (v.block b).amountUsed + size,
      allocCounter := (v.block b).allocCounter + 1 } ∧
    (∀ x, x ≠ b → (v.carve b size).block x = v.block x) ∧
    ∀ x, (v.carve b size).runOf x = v.runOf x := by
  have hok := hl.block b hb
  obtain ⟨h1, h2, h3⟩ := hok.room h48 hfit
  have hfits := hok.fits
  have htop := hok.top.1
  have hblock : (v.carve b size).block b = { v.block b with
      amountUsed := (v.block b).amountUsed + size,
      allocCounter := (v.block b).allocCounter + 1 } := by
    rw [View.carve]
    dsimp only
    rw [upd_same, w64_of_lt (by omega)]
  have hother : ∀ x, x ≠ b → (v.carve b size).block x = v.block x := by
    intro x hx
    rw [View.carve]
    dsimp only
    rw [upd_other hx]
  refine ⟨htop, ?_, fun x hx => ?_, hblock, hother, fun x => ?_⟩
  · rw [View.carve]
    dsimp only
    rw [upd_same, sub64_of_le h48 (by omega), w64_of_lt (by omega)]
  · rw [View.carve]
    dsimp only
    rw [upd_other hx]
  · unfold View.runOf
    by_cases hx : x = b
    · rw [hx, hblock]
    · rw [hother x hx]

/-- What is carved lies behind the chunks there are.  Every chunk of this block lies in its used
    part, which ends where the new chunk begins; chunks of other blocks lie in other pages. -/
theorem Layout.carve_behind (hl : Layout v B C) (hb : b ∈ B) (h48 : 48 ≤ size)
    (hfit : size ≤ (v.block b).remaining) :
    ∀ x ∈ C, (v.extent x).Apart ⟨v.topOf b, size⟩ := by
  intro x hx
  have hok := hl.block b hb
  have htop := hok.top.1
  obtain ⟨h1, h2, h3⟩ := hok.room h48 hfit
  apply hl.apart_unused (hl.chunk x hx) hb
  · rw [hok.pages, Region.Within]
    dsimp only
    omega
  · exact Or.inl (Nat.le_of_eq htop.symm)

/-- The block that is carved from.  The used part grows and stays within the recorded size, which is
    why `BlockOk.room` needs that size to be real, and not the wrapped one of the block made at
    init. -/
theorem BlockOk.carve (hl : Layout v B C) (hb : b ∈ B) (h48 : 48 ≤ size) (hmod : size % 16 = 0)
    (hfit : size ≤ (v.block b).remaining) {x : Nat} (hx : x ∈ B) : BlockOk (v.carve b size) x := by
  obtain ⟨-, -, -, hblock, hother, hrun⟩ := carve_values hl hb h48 hfit
  have hok := hl.block b hb
  obtain ⟨h1, h2, h3⟩ := hok.room h48 hfit
  have hum := hok.used_mod
  by_cases hxb : x = b
  · rw [hxb]
    refine ⟨by rw [hblock]; exact hok.base, hok.aligned, by rw [hrun]; exact hok.fits, ?_, ?_, ?_⟩
    · rw [hblock]; dsimp only; omega
    · rw [hblock, hrun]; dsimp only; omega
    · rw [hblock, hrun]
      exact Or.inl ⟨h1, h2, h3⟩
  · obtain ⟨g1, g2, g3, g4, g5, g6⟩ := hl.block x hx
    refine ⟨by rw [hother x hxb]; exact g1, g2, by rw [hrun]; exact g3, ?_, ?_, ?_⟩
    · rw [hother x hxb]; exact g4
    · rw [hother x hxb, hrun]; exact g5
    · rw [hother x hxb, hrun]; exact g6

/-- The chunks there are, after more of their block has come into use. -/
theorem Layout.carve_old (hl : Layout v B C) (hb : b ∈ B) (h48 : 48 ≤ size) (hmod : size % 16 = 0)
    (hfit : size ≤ (v.block b).remaining) :
    Layout (v.carve b size) B C ∧ ∀ x ∈ C, (v.carve b size).extent x = v.extent x := by
  obtain ⟨-, -, hchunk, hblock, hother, hrun⟩ := carve_values hl hb h48 hfit
  have hpages : ∀ x, (v.carve b size).pagesOf x = v.pagesOf x := by
    intro x
    unfold View.pagesOf
    rw [hrun]
  -- the new header lies behind every extent, so no old header is written to
  have hsame : ∀ x ∈ C, (v.carve b size).chunk x = v.chunk x := by
    intro x hx
    refine hchunk x fun hxt => ?_
    have hap := hl.carve_behind hb h48 hfit x hx
    rw [Region.Apart, View.extent] at hap
    dsimp only at hap
    omega
  have hext : ∀ x ∈ C, (v.carve b size).extent x = v.extent x := by
    intro x hx
    unfold View.extent
    rw [hsame x hx]
  refine ⟨⟨fun x hx => .carve hl hb h48 hmod hfit hx, ?_, fun x hx => ?_, ?_⟩, hext⟩
  · refine hl.apart.imp fun {x y} hap => ?_
    rw [hpages, hpages]
    exact hap
  · have hxok := hl.chunk x hx
    have hw := hxok.within
    refine ⟨by rw [hsame x hx]; exact hxok.base, by rw [hsame x hx]; exact hxok.header,
      hxok.aligned, by rw [hsame x hx]; exact hxok.size_mod, ?_⟩
    rw [hext x hx, hsame x hx]
    -- the used part of the block has grown, and those of the others have not changed
    by_cases hxb : (v.chunk x).header = b
    · rw [hxb] at hw ⊢
      rw [Region.Within, View.usedPart] at *
      rw [hblock]
      dsimp only at *
      omega
    · rw [View.usedPart] at *
      rw [hother _ hxb]
      exact hw
  · refine hl.tiled.imp_of_mem fun hx hy hap => ?_
    rw [hext _ hx, hext _ hy]
    exact hap

/-- Carving a chunk from the unused part of a block.  Together with `Layout.split` and
    `Layout.create` these are all the ways in which a header comes to be written. -/
theorem Layout.carve (hl : Layout v B C) (hb : b ∈ B) (h48 : 48 ≤ size) (hmod : size % 16 = 0)
    (hfit : size ≤ (v.block b).remaining) : Layout (v.carve b size) B (v.topOf b :: C) := by
  obtain ⟨htop, hnew, -, hblock, -, -⟩ := carve_values hl hb h48 hfit
  obtain ⟨hold, hext⟩ := hl.carve_old hb h48 hmod hfit
  have hok := hl.block b hb
  have hal := hok.aligned
  have hum := hok.used_mod
  have hextn : (v.carve b size).extent (v.topOf b) = ⟨v.topOf b, size⟩ := by
    rw [View.extent]
    rw [hnew]
    dsimp only
    rw [show 48 + (size - 48) = size by omega]
  refine hold.cons ⟨by rw [hnew], by rw [hnew]; exact hb, by omega,
    by rw [hnew]; dsimp only; omega, ?_⟩ fun x hx => ?_
  · rw [hextn, hnew]
    rw [Region.Within, View.usedPart]
    rw [hblock]
    dsimp only
    omega
  · rw [hextn, hext x hx]
    exact (hl.carve_behind hb h48 hfit x hx).symm

end carve

section create

variable {size mem : Nat}

/-- What `CreateBlock` writes: the header of the new block, and nothing else.  The size written is
    the one asked for less the 48 bytes of the header, and wraps when it is smaller than they are. -/
theorem create_values (v : View) (size mem : Nat) (hsize : size % 16 = 0 ∧ size < 2 ^ 64)
    (hmem : mem + 48 < 2 ^ 64) :
    (v.create size mem).block mem = ⟨mem + 48, sub64 size 48, 0, 0⟩ ∧
    (v.create size mem).runOf mem = (mem, inPages size) ∧
    (∀ x, x ≠ mem → (v.create size mem).block x = v.block x) ∧
    ∀ x, x ≠ mem → (v.create size mem).runOf x = v.runOf x := by
  have hblock : (v.create size mem).block mem = ⟨mem + 48, sub64 size 48, 0, 0⟩ := by
    rw [View.create]
    dsimp only
    rw [upd_same, w64_of_lt hmem]
  have hother : ∀ x, x ≠ mem → (v.create size mem).block x = v.block x := by
    intro x hx
    rw [View.create]
    dsimp only
    rw [upd_other hx]
  -- adding the header size again undoes the subtraction, wrapped or not
  have hback : w64 (sub64 size 48 + 48) = size := by
    rw [w64, sub64]
    omega
  refine ⟨hblock, ?_, hother, fun x hx => ?_⟩
  · rw [View.runOf]
    rw [hblock]
    dsimp only
    rw [hback, splitSafe_aligned hsize.1 hsize.2, sub64_of_le (by omega) hmem, Nat.add_sub_cancel]
  · unfold View.runOf
    rw [hother x hx]

/-- A size that rounds up to some pages does so without a wrap. -/
theorem lt_of_inPages (h : inPages size ≠ 0) (hlt : size < 2 ^ 64) : size + 0xFFF < 2 ^ 64 := by
  have hw : (size + 0xFFF) % 2 ^ 64 / 0x1000 ≠ 0 := h
  omega

/-- Making a block in a new run of at least a page.  Its size may be too small for a header, or
    too large for a signed number: nothing will be carved from it then. -/
theorem Layout.create (hl : Layout v B C) (hmod : size % 16 = 0) (hlt : size < 2 ^ 64)
    (hpages : inPages size ≠ 0)
    (hal : mem % 0x1000 = 0) (hfits : mem + inPages size * 0x1000 < 2 ^ 64)
    (hapart : ∀ b ∈ B, (runRegion (mem, inPages size)).Apart (v.pagesOf b)) :
    mem ∉ B ∧ Layout (v.create size mem) (B ++ [mem]) C := by
  have hp := inPages_of_lt (lt_of_inPages hpages hlt)
  obtain ⟨hblock, hrun, hother, hruno⟩ := create_values v _ _ ⟨hmod, hlt⟩
    (show mem + 48 < 2 ^ 64 by omega)
  -- the new pages are apart from those of each block, so its header is a new one
  have hnot : mem ∉ B := by
    intro hin
    have hap := hapart mem hin
    have hok := hl.block mem hin
    have := hok.used_le
    rw [hok.pages] at hap
    rw [runRegion, Region.Apart, pageSize] at hap
    dsimp only at hap
    omega
  have hneB : ∀ b ∈ B, b ≠ mem := fun b hb hbm => hnot (hbm ▸ hb)
  have hsame : SameData v (v.create size mem) B C :=
    ⟨fun b hb => by rw [hother b (hneB b hb)]; exact ⟨rfl, rfl, rfl⟩, fun c _ => ⟨rfl, rfl, rfl⟩⟩
  have hcong := hl.congr hsame
  refine ⟨hnot, fun x hx => ?_, ?_, fun x hx => ?_, hcong.tiled⟩
  · rcases List.mem_append.mp hx with hx | hx
    · exact hcong.block x hx
    · obtain rfl := List.mem_singleton.mp hx
      refine ⟨by rw [hblock], hal, by rw [hrun]; exact hfits, by rw [hblock]; rfl, ?_, ?_⟩
      · rw [hblock, hrun]; dsimp only; omega
      · rw [hblock, hrun]
        dsimp only
        -- a size below a header wraps around, and then the block has no room
        rcases Nat.lt_or_ge size 48 with hsmall | hbig
        · refine Or.inr ⟨?_, sub64_lt _ _, rfl⟩
          rw [sub64]
          omega
        · rw [sub64_of_le hbig hlt]
          omega
  · refine List.pairwise_append.mpr ⟨hcong.apart, List.pairwise_singleton _ _, fun x hx y hy => ?_⟩
    obtain rfl := List.mem_singleton.mp hy
    rw [hsame.pagesOf hx]
    show Region.Apart _ (runRegion _)
    rw [hrun]
    exact (hapart x hx).symm
  · have hok := hcong.chunk x hx
    exact ⟨hok.base, List.mem_append_left _ hok.header, hok.aligned, hok.size_mod, hok.within⟩

end create

end Nearlands.Heap
