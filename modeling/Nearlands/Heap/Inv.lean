/-
  The invariant of the heap.

  `Inv v B F live` ties the heap to what its clients hold: `B` are the blocks and `F` the free
  chunks, as the two chains give them; the page runs held are those of the blocks; live
  allocations and free chunks together are the chunks of the layout; and the counter of a block
  is the number of its live allocations.  One lemma for each thing a call can do (`Takes`,
  a new block, a free) shows that it survives.
-/
import Nearlands.Heap.Layout

namespace Nearlands.Heap

open Nearlands.Lib

/-- The chunk of an allocation (pointer, requested size).  The clients keep pointers, the heap keeps
    headers: `MmFreeGeneralMemory` gets from one to the other by taking off 48 bytes, and so does
    this. -/
def chunkOf (a : Nat × Nat) : Nat := a.1 - 48

/-- The number of allocations in block `b`. -/
def liveIn (v : View) (live : List (Nat × Nat)) (b : Nat) : Nat :=
  (live.filter fun a => decide ((v.chunk (chunkOf a)).header = b)).length

/-- What the heap keeps.  The first three fields say what `B` and `F` are, namely the members of the
    two chains and of the page log; `layout` says where it all lies; the next three say which chunks
    are in use and for how much; and the last one is what makes a block be deleted exactly when
    nothing lives in it. -/
structure Inv (v : View) (B F : List Nat) (live : List (Nat × Nat)) : Prop where
  blocks : v.blocks.Is B
  frees : v.frees.Is F
  runs : (held v.log).Perm (B.map v.runOf)
  layout : Layout v B (live.map chunkOf ++ F)
  free : ∀ c ∈ F, (v.chunk c).isFree = true
  used : ∀ a ∈ live, (v.chunk (chunkOf a)).isFree = false
  fits : ∀ a ∈ live, a.2 ≤ (v.chunk (chunkOf a)).size
  counter : ∀ b ∈ B, (v.block b).allocCounter = (liveIn v live b : Int)

variable {v v' : View} {B F : List Nat} {live : List (Nat × Nat)}

/-- One more allocation counts in its own block, and in no other. -/
theorem liveIn_cons (v : View) (live : List (Nat × Nat)) (a : Nat × Nat) (b : Nat) :
    (liveIn v (a :: live) b : Int) =
      (liveIn v live b : Int) + if b = (v.chunk (chunkOf a)).header then 1 else 0 := by
  unfold liveIn
  by_cases h : (v.chunk (chunkOf a)).header = b
  · rw [List.filter_cons_of_pos (by simpa using h), if_pos h.symm]
    simp
  · rw [List.filter_cons_of_neg (by simpa using h), if_neg fun hb => h hb.symm]
    simp

/-- The count reads the headers of the live chunks only. -/
theorem liveIn_congr (h : ∀ a ∈ live, (v'.chunk (chunkOf a)).header = (v.chunk (chunkOf a)).header)
    (b : Nat) : liveIn v' live b = liveIn v live b := by
  rw [liveIn]
  congr 1
  exact List.filter_congr fun a ha => by rw [h a ha]

/-- The order in which the allocations are listed does not matter to the count. -/
theorem liveIn_perm {live' : List (Nat × Nat)} (h : live.Perm live') (b : Nat) :
    liveIn v live b = liveIn v live' b := (h.filter _).length_eq

/-- The chunk of a live allocation is one of the layout. -/
theorem Inv.live_chunk (hi : Inv v B F live) {a : Nat × Nat} (ha : a ∈ live) :
    ChunkOk v B (chunkOf a) :=
  hi.layout.chunk _ (List.mem_append_left _ (List.mem_map_of_mem ha))

/-- A free chunk is one of the layout. -/
theorem Inv.free_chunk (hi : Inv v B F live) {c : Nat} (hc : c ∈ F) : ChunkOk v B c :=
  hi.layout.chunk _ (List.mem_append_right _ hc)

/-- A live chunk is not free. -/
theorem Inv.live_ne_free (hi : Inv v B F live) {a : Nat × Nat} (ha : a ∈ live) {c : Nat}
    (hc : c ∈ F) : chunkOf a ≠ c :=
  (List.nodup_append.mp hi.layout.chunks_nodup).2.2 _ (List.mem_map_of_mem ha) c hc

/-- A live pointer is at least 96, so that taking off the header does not wrap: the free path of the
    source finds the very header that the allocation wrote. -/
theorem Inv.chunkOf_eq (hi : Inv v B F live) {a : Nat × Nat} (ha : a ∈ live) :
    sub64 a.1 48 = chunkOf a ∧ 96 ≤ a.1 := by
  have hok := hi.live_chunk ha
  have h1 := hok.pos
  have h2 := hok.lt hi.layout
  rw [chunkOf] at *
  refine ⟨?_, by omega⟩
  rw [sub64]
  omega

/-- Distinct allocations have distinct pointers. -/
theorem Inv.live_nodup (hi : Inv v B F live) : (live.map chunkOf).Nodup :=
  (List.nodup_append.mp hi.layout.chunks_nodup).1

/-! ## Allocation -/

/-- One more live allocation.  The hypotheses are what all three ways to take memory have in common:
    the blocks stay, the new chunk is in use and large enough, the chunks of the other allocations
    are not touched, and one block counts one more. -/
theorem Inv.grow {F' : List Nat} {a : Nat × Nat} (hi : Inv v B F live)
    (hblocks : v'.blocks = v.blocks) (hfrees : v'.frees.Is F') (hlog : v'.log = v.log)
    (hrun : ∀ b ∈ B, v'.runOf b = v.runOf b)
    (hlayout : Layout v' B (chunkOf a :: live.map chunkOf ++ F'))
    (hfree : ∀ c ∈ F', (v'.chunk c).isFree = true)
    (hsame : ∀ x ∈ live, v'.chunk (chunkOf x) = v.chunk (chunkOf x))
    (hused : (v'.chunk (chunkOf a)).isFree = false) (hfits : a.2 ≤ (v'.chunk (chunkOf a)).size)
    (hcount : ∀ b ∈ B, (v'.block b).allocCounter = (v.block b).allocCounter +
      if b = (v'.chunk (chunkOf a)).header then 1 else 0) : Inv v' B F' (a :: live) where
  blocks := hblocks ▸ hi.blocks
  frees := hfrees
  runs := by
    rw [hlog, List.map_congr_left hrun]
    exact hi.runs
  layout := hlayout
  free := hfree
  used := fun x hx => by
    rcases List.mem_cons.mp hx with rfl | hx
    · exact hused
    · rw [hsame x hx]; exact hi.used x hx
  fits := fun x hx => by
    rcases List.mem_cons.mp hx with rfl | hx
    · exact hfits
    · rw [hsame x hx]; exact hi.fits x hx
  counter := fun b hb => by
    rw [liveIn_cons, hcount b hb, hi.counter b hb,
      liveIn_congr fun x hx => congrArg AllocData.header (hsame x hx)]

/-- Counting changes the counter of one block. -/
theorem counter_count (v : View) (b x : Nat) :
    ((v.count b 1).block x).allocCounter =
      (v.block x).allocCounter + if x = b then 1 else 0 := by
  rw [View.count]
  dsimp only
  by_cases hx : x = b
  · rw [hx, upd_same, if_pos rfl]
  · rw [upd_other hx, if_neg hx, Int.add_zero]

/-- Counting changes no run. -/
theorem runOf_count (v : View) (b : Nat) (d : Int) (x : Nat) :
    (v.count b d).runOf x = v.runOf x := by
  obtain ⟨h1, h2, -⟩ := block_count v b d x
  unfold View.runOf
  rw [h1, h2]

/-- A free chunk comes to the front of the chunks. -/
theorem perm_front {l F : List Nat} {c : Nat} (hc : c ∈ F) :
    (l ++ F).Perm (c :: (l ++ F.erase c)) :=
  ((List.perm_cons_erase hc).append_left l).trans List.perm_middle

/-- Taking a chunk as it is, or putting it on the list, leaves it where it is. -/
theorem reuse_sameData (v : View) (c : Nat) (B C : List Nat) : SameData v (v.reuse c) B C := by
  refine ⟨fun b _ => block_count _ _ _ b, fun x _ => ?_⟩
  by_cases hx : x = c
  · rw [hx, show (v.reuse c).chunk c = { v.chunk c with isFree := false } from upd_same]
    exact ⟨rfl, rfl, rfl⟩
  · rw [show (v.reuse c).chunk x = v.chunk x from upd_other hx]
    exact ⟨rfl, rfl, rfl⟩

/-- Putting a chunk on the free list leaves it where it is. -/
theorem give_sameData (v : View) (c : Nat) (B C : List Nat) : SameData v (v.give c) B C := by
  refine ⟨fun b _ => block_count _ _ _ b, fun x _ => ?_⟩
  by_cases hx : x = c
  · rw [hx, show (v.give c).chunk c = { v.chunk c with isFree := true } from upd_same]
    exact ⟨rfl, rfl, rfl⟩
  · rw [show (v.give c).chunk x = v.chunk x from upd_other hx]
    exact ⟨rfl, rfl, rfl⟩

/-- Taking a free chunk as it is.  The chunk has the rounded size, or exactly a header more, which
    the client then gets on top; it leaves the free list, and nothing moves. -/
theorem inv_reuse (hi : Inv v B F live) {c n : Nat} (hc : c ∈ F) (hn : n + 63 < 2 ^ 64)
    (hfit : (v.chunk c).Exact (splitSafe n)) :
    Inv (v.reuse c) B (F.erase c) (((v.chunk c).base, n) :: live) := by
  have hok := hi.free_chunk hc
  have hchunk : chunkOf ((v.chunk c).base, n) = c := by
    rw [chunkOf]
    rw [hok.base, Nat.add_sub_cancel]
  have hc' : (v.reuse c).chunk c = { v.chunk c with isFree := false } := upd_same
  have hother : ∀ x, x ≠ c → (v.reuse c).chunk x = v.chunk x := fun x hx => upd_other hx
  have hsame := reuse_sameData v c B (live.map chunkOf ++ F)
  have hround : n ≤ splitSafe n := by
    rw [splitSafe_of_lt (by omega)]; omega
  have hsz := splitSafe_of_lt (x := n) (by omega)
  refine hi.grow rfl (hi.frees.remove hc) rfl (fun b hb => hsame.runOf hb) ?_ ?_ ?_ ?_ ?_ ?_
  · rw [hchunk]
    exact (hi.layout.congr hsame).perm (perm_front hc)
  · intro x hx
    have hxc : x ≠ c := fun hxc => (hi.frees.nodup.not_mem_erase) (hxc ▸ hx)
    rw [hother x hxc]
    exact hi.free x (List.mem_of_mem_erase hx)
  · exact fun x hx => hother _ (hi.live_ne_free hx hc)
  · rw [hchunk, hc']
  · rw [hchunk, hc']
    rcases hfit with h | h
    · dsimp only; omega
    · rw [w64_of_lt (by omega)] at h
      dsimp only; omega
  · intro b _
    rw [hchunk, hc']
    exact counter_count _ _ _

/-- Taking the front of a free chunk.  The front half goes to the client, and the rest takes its
    place at the end of the free list. -/
theorem inv_split (hi : Inv v B F live) {c n : Nat} (hc : c ∈ F) (hn : n + 63 < 2 ^ 64)
    (hfit : (v.chunk c).Splits (splitSafe n)) :
    Inv (v.split c (splitSafe n)) B (F.erase c ++ [c + 48 + splitSafe n])
      (((v.chunk c).base, n) :: live) := by
  have hok := hi.free_chunk hc
  have hchunk : chunkOf ((v.chunk c).base, n) = c := by
    rw [chunkOf]
    rw [hok.base, Nat.add_sub_cancel]
  have hfront := hi.layout.perm (perm_front hc)
  obtain ⟨hrest, hc', hr', hother⟩ := split_values hfront hfit (splitSafe_mod n)
  have hlay := hfront.split hfit (splitSafe_mod n)
  obtain ⟨hcr, hnd⟩ := List.nodup_cons.mp hlay.chunks_nodup
  obtain ⟨hr, -⟩ := List.nodup_cons.mp hnd
  have hround : n ≤ splitSafe n := by
    rw [splitSafe_of_lt (by omega)]; omega
  refine hi.grow rfl ?_ rfl (fun b _ => runOf_count _ _ _ b) ?_ ?_ ?_ ?_ ?_ ?_
  · show ((v.frees.remove c).add (v.restOf c (splitSafe n))).Is _
    rw [hrest]
    exact (hi.frees.remove hc).add (by omega) fun h => hr (List.mem_append_right _ h)
  · rw [hchunk, List.cons_append, ← List.append_assoc]
    exact hlay.perm ((List.perm_append_singleton _ _).symm.cons c)
  · intro x hx
    rcases List.mem_append.mp hx with hx | hx
    · have hxc : x ≠ c := fun hxc => (hi.frees.nodup.not_mem_erase) (hxc ▸ hx)
      rw [hother x hxc fun h => hr (h ▸ List.mem_append_right _ hx)]
      exact hi.free x (List.mem_of_mem_erase hx)
    · rw [List.mem_singleton.mp hx, hr']
  · intro x hx
    refine hother _ (hi.live_ne_free hx hc) fun h => hr (h ▸ List.mem_append_left _ ?_)
    exact List.mem_map_of_mem hx
  · rw [hchunk, hc']
  · rw [hchunk, hc']
    exact hround
  · intro b _
    rw [hchunk, hc']
    exact counter_count _ _ _

/-- Carving a chunk from a block.  The pointer is not `NULL`: the top of a block is at least 48, and
    the chunk header is added without a wrap because the block ends below `2 ^ 64`. -/
theorem inv_carve (hi : Inv v B F live) {b n : Nat} (hb : b ∈ B) (hn : n + 63 < 2 ^ 64)
    (hfit : splitSafe (w64 (n + 48)) ≤ (v.block b).remaining) :
    w64 (v.topOf b + 48) ≠ null ∧
    Inv (v.carve b (splitSafe (w64 (n + 48)))) B F ((w64 (v.topOf b + 48), n) :: live) := by
  have hsize : n + 48 ≤ splitSafe (w64 (n + 48)) := by
    rw [w64_of_lt (by omega), splitSafe_of_lt (by omega)]; omega
  have h48 : 48 ≤ splitSafe (w64 (n + 48)) := by omega
  obtain ⟨htop, hnew, hother, hblock, hblocks, hrun⟩ := carve_values hi.layout hb h48 hfit
  have hlay := hi.layout.carve hb h48 (splitSafe_mod _) hfit
  have hokb := hi.layout.block b hb
  have hroom := hokb.room h48 hfit
  have hfits := hokb.fits
  obtain ⟨hnot, -⟩ := List.nodup_cons.mp hlay.chunks_nodup
  have hp : w64 (v.topOf b + 48) = v.topOf b + 48 := w64_of_lt (by omega)
  have hchunk : chunkOf (w64 (v.topOf b + 48), n) = v.topOf b := by
    rw [chunkOf]
    rw [hp, Nat.add_sub_cancel]
  refine ⟨by rw [hp]; unfold null; omega, ?_⟩
  refine hi.grow rfl hi.frees rfl (fun x _ => hrun x) (by rw [hchunk]; exact hlay) ?_ ?_ ?_ ?_ ?_
  · intro x hx
    rw [hother x fun h => hnot (h ▸ List.mem_append_right _ hx)]
    exact hi.free x hx
  · exact fun x hx => hother _ fun h => hnot (h ▸ List.mem_append_left _ (List.mem_map_of_mem hx))
  · rw [hchunk, hnew]
  · rw [hchunk, hnew]
    dsimp only
    omega
  · intro x _
    rw [hchunk, hnew]
    dsimp only
    by_cases hx : x = b
    · rw [hx, hblock, if_pos rfl]
    · rw [hblocks x hx, if_neg hx, Int.add_zero]

/-- **Taking memory keeps the invariant**, and the pointer is not `NULL`.  The bound on the request
    says that neither adding the header nor rounding to 16 wraps.  Without it a chunk could be
    smaller than what the client believes to have. -/
theorem inv_takes (hi : Inv v B F live) {n p : Nat} (hn : n + 63 < 2 ^ 64)
    (h : Takes v F B n v' p) : p ≠ null ∧ ∃ F', Inv v' B F' ((p, n) :: live) := by
  cases h with
  | reuse hc hfit =>
    exact ⟨by rw [(hi.free_chunk hc).base]; unfold null; omega, _, inv_reuse hi hc hn hfit⟩
  | split hc hfit =>
    exact ⟨by rw [(hi.free_chunk hc).base]; unfold null; omega, _, inv_split hi hc hn hfit⟩
  | carve hb hfit =>
    obtain ⟨hne, hinv⟩ := inv_carve hi hb hn hfit
    exact ⟨hne, _, hinv⟩

/-! ## Blocks -/

/-- A refused request for pages changes nothing but the log.  The allocator is asked again at the
    next call, since a refusal leaves no trace in the heap. -/
theorem inv_refused (hi : Inv v B F live) (amount : Nat) :
    Inv { v with log := .allocate amount null :: v.log } B F live where
  blocks := hi.blocks
  frees := hi.frees
  runs := hi.runs
  layout := hi.layout.congr ⟨fun _ _ => ⟨rfl, rfl, rfl⟩, fun _ _ => ⟨rfl, rfl, rfl⟩⟩
  free := hi.free
  used := hi.used
  fits := hi.fits
  counter := hi.counter

/-- A new block.  The pages must be new to the heap (`Fresh`), which is what `Pmm` proves of the
    bitmap for runs without a failed growth; here it is a hypothesis. -/
theorem inv_create (hi : Inv v B F live) {size mem : Nat} (hmod : size % 16 = 0)
    (hlt : size < 2 ^ 64) (hpages : inPages size ≠ 0)
    (hf : Fresh (held v.log) (inPages size) mem) :
    mem ∉ B ∧ Inv (v.create size mem) (B ++ [mem]) F live := by
  have hapart : ∀ b ∈ B, (runRegion (mem, inPages size)).Apart (v.pagesOf b) := fun b hb =>
    hf.apart _ (hi.runs.mem_iff.mpr (List.mem_map_of_mem hb))
  obtain ⟨hnot, hlay⟩ := hi.layout.create hmod hlt hpages hf.aligned hf.fits hapart
  have hfits := hf.fits
  obtain ⟨hblock, hrun, hother, hruno⟩ :=
    create_values v _ _ (show size % 16 = 0 ∧ size < 2 ^ 64 from ⟨hmod, hlt⟩)
      (show mem + 48 < 2 ^ 64 by omega)
  have hneB : ∀ b ∈ B, b ≠ mem := fun b hb hbm => hnot (hbm ▸ hb)
  refine ⟨hnot, hi.blocks.add hf.nonnull hnot, hi.frees, ?_, hlay, hi.free, hi.used, hi.fits, ?_⟩
  · have hmap : (B ++ [mem]).map (v.create size mem).runOf =
        B.map v.runOf ++ [(mem, inPages size)] := by
      rw [List.map_append, List.map_singleton, hrun,
        List.map_congr_left fun b hb => hruno b (hneB b hb)]
    rw [hmap]
    show (held (.allocate (inPages size) mem :: v.log)).Perm _
    rw [held_allocate hf.nonnull]
    exact (hi.runs.cons _).trans (List.perm_append_singleton _ _).symm
  · intro b hb
    rcases List.mem_append.mp hb with hb | hb
    · rw [hother b (hneB b hb)]
      exact hi.counter b hb
    · -- no live chunk is in the new block
      obtain rfl := List.mem_singleton.mp hb
      rw [hblock]
      have hzero : liveIn (v.create size b) live b = 0 := by
        rw [liveIn]
        rw [List.length_eq_zero_iff, List.filter_eq_nil_iff]
        intro x hx hxb
        exact hnot (of_decide_eq_true hxb ▸ (hi.live_chunk hx).header)
      rw [hzero]
      rfl

/-! ## One allocation -/

/-- A pointer that was taken lies behind the header of a block and that of a chunk, whatever the
    size. -/
theorem Inv.taken_ge (hi : Inv v B F live) {n p : Nat} (h : Takes v F B n v' p) : 96 ≤ p := by
  cases h with
  | reuse hc _ =>
    have := (hi.free_chunk hc).pos
    rw [(hi.free_chunk hc).base]
    omega
  | split hc _ =>
    have := (hi.free_chunk hc).pos
    rw [(hi.free_chunk hc).base]
    omega
  | carve hb _ =>
    rw [(hi.layout.block _ hb).top.2]
    omega

/-- What one call of `MmAllocateGeneralMemory(n)` can do to the heap `v`, where the page allocator
    answers `mem` if it is asked.

    The four cases are the ways through the source: a scan succeeds; both fail and the pages are
    refused; the pages come but the new block does not hold the request, which can only be where its
    size wraps (`retry_succeeds`); or the pages come and the request is carved from them. -/
inductive Allocates (v : View) (F B : List Nat) (n mem : Nat) : View → Nat → Prop
  | taken {v' : View} {p : Nat} : Takes v F B n v' p → Allocates v F B n mem v' p
  | refused : mem = null → Allocates v F B n mem
      { v with log := .allocate (inPages (blockSize n)) null :: v.log } null
  | useless : mem ≠ null →
      ¬ splitSafe (w64 (n + 48)) ≤ ((v.create (blockSize n) mem).block mem).remaining →
      Allocates v F B n mem (v.create (blockSize n) mem) null
  | grown : mem ≠ null →
      splitSafe (w64 (n + 48)) ≤ ((v.create (blockSize n) mem).block mem).remaining →
      Allocates v F B n mem ((v.create (blockSize n) mem).carve mem (splitSafe (w64 (n + 48))))
        (w64 ((v.create (blockSize n) mem).topOf mem + 48))

/-- The scan of the free list tells a hit from a miss by the pointer it returns.  No free chunk has
    its payload at address 0, so the test is right. -/
theorem Inv.base_ne_null (hi : Inv v B F live) : ∀ c ∈ F, (v.chunk c).base ≠ null := by
  intro c hc
  rw [(hi.free_chunk hc).base, null]
  omega

/-- The scan of the blocks tells a hit from a miss in the same way. -/
theorem Inv.top_ne_null (hi : Inv v B F live) {b : Nat} (hb : b ∈ B) :
    w64 (v.topOf b + 48) ≠ null := by
  rw [(hi.layout.block b hb).top.2, null]
  omega

/-- **One allocation.**  Memory is taken from what there is, or from a new block, or not at all.
    The fuel is what the two scans used; that there is enough of it is `calls_return`. -/
theorem Inv.allocates {s s' : State} (hi : Inv s.view B F live) {fuel n p : Nat} {pages : Nat → Nat}
    (hnew : pages (inPages (blockSize n)) ≠ null → pages (inPages (blockSize n)) ∉ B)
    (h : s.mmAllocateGeneralMemory fuel pages n = some (s', p)) :
    Allocates s.view F B n (pages (inPages (blockSize n))) s'.view p := by
  rcases alloc_cases hi.frees hi.blocks hi.base_ne_null (fun _ hb _ => hi.top_ne_null hb) hnew h with
    ht | ⟨hnone, hnob, ⟨hmem, rfl, hview⟩ | ⟨hmem, ⟨hview, rfl, hfull⟩ | ht⟩⟩
  · exact .taken ht
  · rw [hview]
    exact .refused hmem
  · rw [hview]
    exact .useless hmem (hfull _ (List.mem_append_right _ List.mem_cons_self))
  · -- what did not serve the request before still does not
    generalize hmade : s.view.create (blockSize n) (pages (inPages (blockSize n))) = made at ht
    have hchunk : made.chunk = s.view.chunk := by rw [← hmade]; rfl
    generalize hv' : s'.view = v' at ht
    cases ht with
    | reuse hc hfit => exact absurd (hchunk ▸ hfit) (hnone _ hc).1
    | split hc hfit => exact absurd (hchunk ▸ hfit) (hnone _ hc).2
    | @carve b hb hfit =>
      subst hmade
      by_cases hbm : b = pages (inPages (blockSize n))
      · subst hbm
        exact .grown hmem hfit
      · have hb : b ∈ B := (List.mem_append.mp hb).resolve_right fun h =>
          hbm (List.mem_singleton.mp h)
        have hsame : (s.view.create (blockSize n) (pages (inPages (blockSize n)))).block b =
            s.view.block b := upd_other hbm
        rw [hsame] at hfit
        exact absurd hfit (hnob b hb)

/-- **An allocation keeps the invariant**, when neither the request nor the size of a block for it
    wraps. -/
theorem inv_allocates (hi : Inv v B F live) {n mem p : Nat} (hn : n + 63 < 2 ^ 64)
    (hpages : inPages (blockSize n) ≠ 0)
    (hf : mem = null ∨ Fresh (held v.log) (inPages (blockSize n)) mem)
    (h : Allocates v F B n mem v' p) :
    ∃ B' F', Inv v' B' F' (hold (p, n) live) := by
  have hcreate : mem ≠ null → Inv (v.create (blockSize n) mem) (B ++ [mem]) F live := fun hmem =>
    (inv_create hi (splitSafe_mod _) (splitSafe_lt _) hpages (hf.resolve_left hmem)).2
  cases h with
  | taken ht =>
    obtain ⟨hne, F', hinv⟩ := inv_takes hi hn ht
    exact ⟨B, F', by rw [hold_some hne]; exact hinv⟩
  | refused => exact ⟨B, F, inv_refused hi _⟩
  | useless hmem _ => exact ⟨_, F, hcreate hmem⟩
  | grown hmem hfit =>
    obtain ⟨hne, hinv⟩ := inv_carve (hcreate hmem) (List.mem_append_right _ List.mem_cons_self) hn hfit
    exact ⟨_, F, by rw [hold_some hne]; exact hinv⟩

/-! ## Freeing -/

/-- The counter of one block goes down by one. -/
theorem counter_give (v : View) (b x : Nat) :
    ((v.count b (-1)).block x).allocCounter =
      (v.block x).allocCounter - if x = b then 1 else 0 := by
  rw [View.count]
  dsimp only
  by_cases hx : x = b
  · rw [hx, upd_same, if_pos rfl]; rfl
  · rw [upd_other hx, if_neg hx, Int.sub_zero]

/-- The chunk of an allocation is no longer that of a live one. -/
theorem Inv.erase_ne (hi : Inv v B F live) {a x : Nat × Nat} (ha : a ∈ live)
    (hx : x ∈ live.erase a) : chunkOf x ≠ chunkOf a := by
  have hnd := ((List.perm_cons_erase ha).map chunkOf).nodup_iff.mp hi.live_nodup
  rw [List.map_cons, List.nodup_cons] at hnd
  exact fun h => hnd.1 (h ▸ List.mem_map_of_mem hx)

/-- The count without the allocation that goes, in terms of the counter before. -/
theorem Inv.liveIn_erase (hi : Inv v B F live) {a : Nat × Nat} (ha : a ∈ live) {b : Nat}
    (hb : b ∈ B) : (liveIn v (live.erase a) b : Int) = (v.block b).allocCounter -
      if b = (v.chunk (chunkOf a)).header then 1 else 0 := by
  rw [hi.counter b hb, liveIn_perm (List.perm_cons_erase ha), liveIn_cons, Int.add_sub_cancel]

/-- The chunk moves from the live ones to the end of the free ones. -/
theorem give_perm {a : Nat × Nat} (ha : a ∈ live) (F : List Nat) :
    (live.map chunkOf ++ F).Perm ((live.erase a).map chunkOf ++ (F ++ [chunkOf a])) := by
  have h1 : (live.map chunkOf ++ F).Perm (chunkOf a :: ((live.erase a).map chunkOf ++ F)) :=
    ((List.perm_cons_erase ha).map chunkOf).append_right F
  have h2 := h1.trans (List.perm_append_singleton _ _).symm
  rwa [List.append_assoc] at h2

/-- When the last allocation of a block goes, nothing else is live there.  The counter is the number
    of live allocations, so at 1 the one that goes is the only one.  This is what makes it safe to
    give the pages of the block back. -/
theorem Inv.gone (hi : Inv v B F live) {a : Nat × Nat} (ha : a ∈ live)
    (hlast : (v.block (v.chunk (chunkOf a)).header).allocCounter ≤ 1) :
    ∀ x ∈ live.erase a, (v.chunk (chunkOf x)).header ≠ (v.chunk (chunkOf a)).header := by
  have hcount := hi.liveIn_erase ha (hi.live_chunk ha).header
  rw [if_pos rfl] at hcount
  have hzero : liveIn v (live.erase a) (v.chunk (chunkOf a)).header = 0 := by omega
  rw [liveIn] at hzero
  rw [List.length_eq_zero_iff, List.filter_eq_nil_iff] at hzero
  exact fun x hx hxb => hzero x hx (decide_eq_true hxb)

/-- The chunk goes to the free list.  Two free chunks that touch are not merged: the source has no
    coalescing, and the layout would allow for it. -/
theorem inv_give (hi : Inv v B F live) {a : Nat × Nat} (ha : a ∈ live) :
    Inv (v.give (chunkOf a)) B (F ++ [chunkOf a]) (live.erase a) := by
  have hok := hi.live_chunk ha
  have hc' : (v.give (chunkOf a)).chunk (chunkOf a) =
      { v.chunk (chunkOf a) with isFree := true } := upd_same
  have hother : ∀ x, x ≠ chunkOf a → (v.give (chunkOf a)).chunk x = v.chunk x :=
    fun x hx => upd_other hx
  have hsame := give_sameData v (chunkOf a) B (live.map chunkOf ++ F)
  have hmem : ∀ x ∈ live.erase a, x ∈ live := fun x hx => List.mem_of_mem_erase hx
  have hnotF : chunkOf a ∉ F := fun h => hi.live_ne_free ha h rfl
  refine ⟨hi.blocks, hi.frees.add (by have := hok.pos; omega) hnotF, ?_, ?_, ?_, ?_, ?_, ?_⟩
  · rw [List.map_congr_left fun b hb => hsame.runOf hb]
    exact hi.runs
  · exact (hi.layout.congr hsame).perm (give_perm ha F)
  · intro c hc
    rcases List.mem_append.mp hc with hc | hc
    · rw [hother c fun h => hnotF (h ▸ hc)]
      exact hi.free c hc
    · rw [List.mem_singleton.mp hc, hc']
  · intro x hx
    rw [hother _ (hi.erase_ne ha hx)]
    exact hi.used x (hmem x hx)
  · intro x hx
    rw [hother _ (hi.erase_ne ha hx)]
    exact hi.fits x (hmem x hx)
  · intro b hb
    rw [liveIn_congr (v := v) fun x hx => by rw [hother _ (hi.erase_ne ha hx)],
      hi.liveIn_erase ha hb]
    exact counter_give v _ b

/-- The last allocation of a block goes, and the block with it.  The block leaves its chain, its
    free chunks leave theirs (`hf`, the purge), and its run of pages leaves the log.  Everything
    else stays where it was. -/
theorem inv_delete (hi : Inv v B F live) {a : Nat × Nat} (ha : a ∈ live) {f : DList}
    (hlast : (v.block (v.chunk (chunkOf a)).header).allocCounter ≤ 1)
    (hf : f.Is (F.filter fun c => decide ((v.chunk c).header ≠ (v.chunk (chunkOf a)).header))) :
    Inv (View.delete { v.count (v.chunk (chunkOf a)).header (-1) with frees := f }
        (v.chunk (chunkOf a)).header) (B.erase (v.chunk (chunkOf a)).header)
      (F.filter fun c => decide ((v.chunk c).header ≠ (v.chunk (chunkOf a)).header))
      (live.erase a) := by
  have hok := hi.live_chunk ha
  have hb := hok.header
  have hgone := hi.gone ha hlast
  generalize hbe : (v.chunk (chunkOf a)).header = b at *
  have hmem : ∀ x ∈ live.erase a, x ∈ live := fun x hx => List.mem_of_mem_erase hx
  have hsubB : (B.erase b).Sublist B := List.erase_sublist
  -- no chunk that is left has its header in the block: `a` was the only live one
  have hchunks : ∀ c ∈ (live.erase a).map chunkOf ++ F.filter fun c => decide ((v.chunk c).header ≠ b),
      (v.chunk c).header ∈ B.erase b := by
    intro c hc
    rcases List.mem_append.mp hc with hc | hc
    · obtain ⟨x, hx, rfl⟩ := List.mem_map.mp hc
      exact (List.mem_erase_of_ne (hgone x hx)).mpr (hi.live_chunk (hmem x hx)).header
    · obtain ⟨hcF, hcb⟩ := List.mem_filter.mp hc
      exact (List.mem_erase_of_ne (of_decide_eq_true hcb)).mpr (hi.free_chunk hcF).header
  -- a part of a layout is a layout
  have hlay := hi.layout.sub hsubB
    ((List.erase_sublist.map chunkOf).append List.filter_sublist) hchunks
  have hsame : SameData v (View.delete { v.count b (-1) with frees := f } b) (B.erase b)
      ((live.erase a).map chunkOf ++ F.filter fun c => decide ((v.chunk c).header ≠ b)) :=
    ⟨fun x _ => block_count _ _ _ x, fun _ _ => ⟨rfl, rfl, rfl⟩⟩
  have hrun : ∀ x, (View.delete { v.count b (-1) with frees := f } b).runOf x = v.runOf x :=
    fun x => runOf_count v b (-1) x
  refine ⟨hi.blocks.remove hb, hf, ?_, hlay.congr hsame, ?_, fun x hx => hi.used x (hmem x hx),
    fun x hx => hi.fits x (hmem x hx), fun x hx => ?_⟩
  · rw [List.map_congr_left fun x _ => hrun x]
    show ((held v.log).erase ((v.count b (-1)).runOf b)).Perm _
    rw [runOf_count]
    have h1 := (hi.runs.trans ((List.perm_cons_erase hb).map v.runOf)).erase (v.runOf b)
    rwa [List.map_cons, List.erase_cons_head] at h1
  · exact fun c hc => hi.free c (List.mem_filter.mp hc).1
  · have hxb : x ≠ b := fun h => (hi.blocks.nodup.not_mem_erase) (h ▸ hx)
    have hxB := hsubB.mem hx
    have hcount := hi.liveIn_erase ha hxB
    rw [hbe, if_neg hxb, Int.sub_zero] at hcount
    exact (counter_give v b x).trans (by rw [if_neg hxb, Int.sub_zero, ← hcount]; rfl)

/-- What freeing a live allocation does: its block goes with it, or its chunk goes to the free
    list. -/
theorem Inv.frees_cases {s s' : State} (hi : Inv s.view B F live) {a : Nat × Nat} (ha : a ∈ live)
    {fuel : Nat} {st : NearStatus} (h : s.mmFreeGeneralMemory fuel a.1 = some (s', st)) :
    let b := (s.view.chunk (chunkOf a)).header
    ((s.view.block b).allocCounter ≤ 1 ∧ ∃ f,
      s'.view = View.delete { s.view.count b (-1) with frees := f } b ∧
      f.Is (F.filter fun c => decide ((s.view.chunk c).header ≠ b))) ∨
    (1 < (s.view.block b).allocCounter ∧ s'.view = s.view.give (chunkOf a)) := by
  obtain ⟨hc, h96⟩ := hi.chunkOf_eq ha
  obtain ⟨-, hcase⟩ := free_cases hi.frees (p := a.1) (by unfold null; omega)
    (by rw [hc]; exact hi.used a ha) h
  rw [hc] at hcase
  exact hcase

/-- **A free keeps the invariant.** This holds for the pointer of a live allocation.  What happens
    with any other pointer is the matter of `Heap.DoubleFree`. -/
theorem inv_free {s s' : State} (hi : Inv s.view B F live) {a : Nat × Nat} (ha : a ∈ live)
    {fuel : Nat} {st : NearStatus} (h : s.mmFreeGeneralMemory fuel a.1 = some (s', st)) :
    ∃ B' F', Inv s'.view B' F' (live.erase a) := by
  rcases hi.frees_cases ha h with ⟨hlast, f, hview, hf⟩ | ⟨-, hview⟩
  · exact ⟨_, _, hview ▸ inv_delete hi ha hlast hf⟩
  · exact ⟨_, _, hview ▸ inv_give hi ha⟩

end Nearlands.Heap
