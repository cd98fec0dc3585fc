/-
  Blocks and their pages.

  A block is made for an allocation and lives as long as there is one in it: its counter is the
  number of its live allocations, and `MmFreeMultiplePages` is called for it when the last of them
  is freed, never earlier, never later, with the run `CreateBlock` got (`blocks_give_pages_back`).
  The block made at init is the exception: it is too small to hold anything, and stays.
-/
import Nearlands.Heap.Runs

namespace Nearlands.Heap

open Nearlands.Lib

variable {v v' : View} {B F : List Nat} {live : List (Nat × Nat)} {first : Nat}

/-! ## The allocations of a run of pages -/

/-- The allocations whose headers lie in the run `r`.  This is how an outsider counts: by address,
    with no look at any header. -/
def liveOf (live : List (Nat × Nat)) (r : Nat × Nat) : List (Nat × Nat) :=
  live.filter fun a => decide ((runRegion r).Has (chunkOf a))

/-- A chunk lies in the pages of the block its header names, and in no others.  Runs of different
    blocks are apart, so an address tells the block. -/
theorem Inv.home (hi : Inv v B F live) {a : Nat × Nat} (ha : a ∈ live) {b : Nat} (hb : b ∈ B) :
    (runRegion (v.runOf b)).Has (chunkOf a) ↔ (v.chunk (chunkOf a)).header = b := by
  have hok := hi.live_chunk ha
  have hin : (v.pagesOf (v.chunk (chunkOf a)).header).Has (chunkOf a) := by
    apply (hok.inPages hi.layout).has
    rw [Region.Has, View.extent]
    dsimp only
    omega
  refine ⟨fun h => ?_, fun h => h ▸ hin⟩
  exact Region.owner_unique hi.layout.apart hok.header hb hin h

/-- Counted by address or by header, the allocations of a block are the same.  The counter of a
    block is thus a number that its clients could have counted themselves. -/
theorem Inv.liveOf_length (hi : Inv v B F live) {b : Nat} (hb : b ∈ B) :
    (liveOf live (v.runOf b)).length = liveIn v live b := by
  have hsame : liveOf live (v.runOf b) =
      live.filter fun a => decide ((v.chunk (chunkOf a)).header = b) :=
    List.filter_congr fun a ha => decide_eq_decide.mpr (hi.home ha hb)
  rw [hsame]
  rfl

/-! ## No block is empty -/

/-- Every block is in use but the first one, which cannot be.  `first` is the block made at init, or
    `NULL` where its page was refused.  Its size wraps to a number that reads as negative, so that
    it never serves a request and its counter stays at 0. -/
structure Busy (v : View) (B : List Nat) (first : Nat) : Prop where
  used : ∀ b ∈ B, b ≠ first → 1 ≤ (v.block b).allocCounter
  stays : first ≠ null → first ∈ B
  useless : first ≠ null → 2 ^ 63 ≤ (v.block first).size ∧ v.runOf first = (first, 1)

/-- Taking memory leaves every block in its run, with the counter where it was or one higher.  No
    counter goes down, so a block that was in use stays in use. -/
theorem Takes.block {n p : Nat} (h : Takes v F B n v' p) (b : Nat) :
    (v'.block b).size = (v.block b).size ∧ v'.runOf b = v.runOf b ∧
      (v.block b).allocCounter ≤ (v'.block b).allocCounter := by
  have hcount : ∀ c, (v.block b).allocCounter ≤ ((v.count c 1).block b).allocCounter := by
    intro c
    rw [counter_count]
    split <;> omega
  cases h with
  | @reuse c =>
    exact ⟨(block_count v _ 1 b).2.1, runOf_count v _ 1 b, hcount (v.chunk c).header⟩
  | @split c =>
    exact ⟨(block_count v _ 1 b).2.1, runOf_count v _ 1 b, hcount (v.chunk c).header⟩
  | @carve b' =>
    by_cases hb : b = b'
    · subst hb
      have hblock : (v.carve b (splitSafe (w64 (n + 48)))).block b = _ := upd_same
      refine ⟨by rw [hblock], ?_, ?_⟩
      · unfold View.runOf
        rw [hblock]
      · rw [hblock]
        dsimp only
        omega
    · have hblock : (v.carve b' (splitSafe (w64 (n + 48)))).block b = v.block b := upd_other hb
      refine ⟨by rw [hblock], ?_, by rw [hblock]⟩
      unfold View.runOf
      rw [hblock]

/-- A block made for a request of a sensible size serves it.  The block is made with a page to
    spare, which pays for the block header, the chunk header and both roundings; the bound on `n`
    keeps the sums from wrapping. -/
theorem new_block_serves (v : View) {n mem : Nat} (hn : n < 2 ^ 62) (hmem : mem + 48 < 2 ^ 64) :
    splitSafe (w64 (n + 48)) ≤ ((v.create (blockSize n) mem).block mem).remaining := by
  have hsize : blockSize n = (n + 0x1000 + 15) / 16 * 16 := by
    rw [blockSize]
    rw [w64_of_lt (by omega), splitSafe_of_lt (by omega)]
  have hneed : splitSafe (w64 (n + 48)) = (n + 48 + 15) / 16 * 16 := by
    rw [w64_of_lt (by omega), splitSafe_of_lt (by omega)]
  obtain ⟨hblock, -, -, -⟩ := create_values v (blockSize n) mem
    ⟨splitSafe_mod _, splitSafe_lt _⟩ hmem
  have hleft : ((v.create (blockSize n) mem).block mem).remaining = blockSize n - 48 := by
    rw [hblock]
    rw [BlockData.remaining]
    dsimp only
    rw [sub64_of_le (b := 48) (by omega) (by omega), sub64_of_le (by omega) (by omega),
      if_pos (by omega)]
    omega
  rw [hleft, hneed, hsize]
  omega

/-- An allocation leaves no block without one.  The crux is a new block: it comes into being with
    counter 0, and `Busy` would fail for it if the search after `CreateBlock` did not take from it
    at once. -/
theorem busy_allocates (hi : Inv v B F live) (hbusy : Busy v B first) {n mem p : Nat}
    (hn : n < 2 ^ 62) (hf : mem = null ∨ Fresh (held v.log) (inPages (blockSize n)) mem)
    (h : Allocates v F B n mem v' p) : ∃ B', v'.blocks.Is B' ∧ Busy v' B' first := by
  cases h with
  | taken ht =>
    have hsame := ht.block
    refine ⟨B, ?_, fun b hb hne => Int.le_trans (hbusy.used b hb hne) (hsame b).2.2, hbusy.stays,
      fun h0 => ?_⟩
    · cases ht <;> exact hi.blocks
    · rw [(hsame first).1, (hsame first).2.1]
      exact hbusy.useless h0
  | refused => exact ⟨B, hi.blocks, hbusy.used, hbusy.stays, hbusy.useless⟩
  | useless hmem hfull =>
    have hfits := (hf.resolve_left hmem).fits
    have hpages := blockSize_pages hn
    exact absurd (new_block_serves v hn (by omega)) hfull
  | grown hmem hfit =>
    have hfresh := hf.resolve_left hmem
    have hfits := hfresh.fits
    have hpages := blockSize_pages hn
    have hnot := (inv_create hi (splitSafe_mod _) (splitSafe_lt _) hpages hfresh).1
    obtain ⟨hblock, -, hother, hruno⟩ := create_values v (blockSize n) mem
      ⟨splitSafe_mod _, splitSafe_lt _⟩ (by omega)
    -- the new block holds the new allocation, and the others are as they were
    have hsame := (Takes.carve (F := F) (B := [mem]) List.mem_cons_self hfit).block
    have hold : ∀ b ∈ B, b ≠ mem := fun b hb hbm => hnot (hbm ▸ hb)
    refine ⟨B ++ [mem], hi.blocks.add hmem hnot, fun b hb hne => ?_, fun h0 => ?_, fun h0 => ?_⟩
    · by_cases hbm : b = mem
      · subst hbm
        have hone : (((v.create (blockSize n) b).carve b (splitSafe (w64 (n + 48)))).block b).allocCounter
            = ((v.create (blockSize n) b).block b).allocCounter + 1 :=
          congrArg BlockData.allocCounter upd_same
        rw [hone, hblock]
        show (1 : Int) ≤ 0 + 1
        omega
      · have hb : b ∈ B := (List.mem_append.mp hb).resolve_right fun h =>
          hbm (List.mem_singleton.mp h)
        have hle := (hsame b).2.2
        rw [hother b hbm] at hle
        exact Int.le_trans (hbusy.used b hb hne) hle
    · exact List.mem_append_left _ (hbusy.stays h0)
    · have hne := hold first (hbusy.stays h0)
      rw [(hsame first).1, (hsame first).2.1, hother first hne, hruno first hne]
      exact hbusy.useless h0

/-- Nothing is live in the first block.  Nothing was ever carved from it, and a live chunk lies in
    the used part of its block. -/
theorem Inv.header_ne_first (hi : Inv v B F live) (hbusy : Busy v B first) {a : Nat × Nat}
    (ha : a ∈ live) (h0 : first ≠ null) : (v.chunk (chunkOf a)).header ≠ first := by
  intro hfirst
  have hin := (hi.live_chunk ha).within
  have hshape := (hi.layout.block first (hbusy.stays h0)).shape
  have hbig := (hbusy.useless h0).1
  rw [hfirst] at hin
  rw [Region.Within, View.extent, View.usedPart] at hin
  dsimp only at hin
  omega

/-- A free that leaves another allocation in the block leaves every block in use. -/
theorem busy_give (hbusy : Busy v B first) {a : Nat × Nat}
    (hmore : 1 < (v.block (v.chunk (chunkOf a)).header).allocCounter) :
    Busy (v.give (chunkOf a)) B first where
  used := fun b hb hne => by
    have hcount := counter_give v (v.chunk (chunkOf a)).header b
    have hold := hbusy.used b hb hne
    show 1 ≤ ((v.count _ (-1)).block b).allocCounter
    rw [hcount]
    split
    · subst b
      omega
    · omega
  stays := hbusy.stays
  useless := fun h0 => by
    show 2 ^ 63 ≤ ((v.count _ (-1)).block first).size ∧ (v.count _ (-1)).runOf first = _
    rw [(block_count v _ (-1) first).2.1, runOf_count]
    exact hbusy.useless h0

/-- A free of the last allocation takes its block away, so that no idle block is left behind. -/
theorem busy_delete (hi : Inv v B F live) (hbusy : Busy v B first) {a : Nat × Nat} (ha : a ∈ live)
    (f : DList) :
    Busy (View.delete { v.count (v.chunk (chunkOf a)).header (-1) with frees := f }
      (v.chunk (chunkOf a)).header) (B.erase (v.chunk (chunkOf a)).header) first where
  used := fun b hb hne => by
    have hbh : b ≠ (v.chunk (chunkOf a)).header := fun h =>
      hi.blocks.nodup.not_mem_erase (h ▸ hb)
    show 1 ≤ ((v.count _ (-1)).block b).allocCounter
    rw [counter_give, if_neg hbh, Int.sub_zero]
    exact hbusy.used b (List.mem_of_mem_erase hb) hne
  stays := fun h0 =>
    (List.mem_erase_of_ne (hi.header_ne_first hbusy ha h0).symm).mpr (hbusy.stays h0)
  useless := fun h0 => by
    show 2 ^ 63 ≤ ((v.count _ (-1)).block first).size ∧ (v.count _ (-1)).runOf first = _
    rw [(block_count v _ (-1) first).2.1, runOf_count]
    exact hbusy.useless h0

/-! ## Runs -/

/-- After init nothing is held but the first block. -/
theorem busy_start {s : Sys} (h : Started s) : ∃ B F, Inv s.heap.view B F s.live ∧
    Busy s.heap.view B s.heap.bHead ∧
    held s.heap.pageLog = if s.heap.bHead = null then [] else [(s.heap.bHead, 1)] := by
  obtain ⟨hlive, z, hz, hlog, hview | ⟨mem, hf, hview⟩⟩ := start_cases h
  · have hhead : s.heap.bHead = null := (congrArg (·.blocks.head) hview).trans hz.blocks.head
    have hheld : s.heap.pageLog = .allocate 1 null :: z.log := congrArg View.log hview
    refine ⟨[], [], by rw [hlive, hview]; exact inv_refused hz _, ?_, ?_⟩
    · rw [hhead]
      exact ⟨nofun, fun h0 => absurd rfl h0, fun h0 => absurd rfl h0⟩
    · rw [hhead, hheld, hlog]
      rfl
  · have hinv := (inv_create hz (show 16 % 16 = 0 by decide) (by decide) (by decide)
      (show Fresh (held z.log) (inPages 16) mem by rw [hlog]; exact hf)).2
    have hhead : s.heap.bHead = mem := (congrArg (·.blocks.head) hview).trans hinv.blocks.head
    have hheld : s.heap.pageLog = .allocate 1 mem :: z.log := congrArg View.log hview
    have hfits := hf.fits
    obtain ⟨hblock, hrun, -, -⟩ := create_values z 16 mem (by decide) (by omega)
    refine ⟨[] ++ [mem], [], by rw [hlive, hview]; exact hinv, ?_, ?_⟩
    · rw [hhead, hview]
      refine ⟨fun b hb hne => absurd (List.mem_singleton.mp hb) hne, fun _ => List.mem_cons_self,
        fun _ => ?_⟩
      rw [hblock, hrun]
      refine ⟨?_, rfl⟩
      show 2 ^ 63 ≤ sub64 16 48
      decide
    · rw [hhead, hheld, hlog, held_allocate hf.nonnull, if_neg hf.nonnull]
      rfl

/-- What holds in every state of a run that began with the block `first`. -/
def Runs (first : Nat) (s : Sys) : Prop :=
  ∃ B F, Inv s.heap.view B F s.live ∧ Busy s.heap.view B first

/-- A step leaves no block without an allocation. -/
theorem busy_step {s s' : Sys} {e : Event} (hi : Inv s.heap.view B F s.live)
    (hbusy : Busy s.heap.view B first) (hs : Step s e s') : Runs first s' := by
  obtain ⟨B', F', hi'⟩ := inv_step hi hs
  -- the blocks of the new state are the ones its chain gives
  have hsame : ∀ C, s'.heap.view.blocks.Is C → Busy s'.heap.view C first →
      Runs first s' := fun _ hB hb => ⟨B', F', hi', (hB.unique hi'.blocks) ▸ hb⟩
  cases hs with
  | @alloc fuel n p pages heap' hn hans hres =>
    have hf := hans (inPages (blockSize n))
    obtain ⟨B'', hB, hb⟩ := busy_allocates hi hbusy hn hf (hi.allocates (fun hmem =>
      (inv_create hi (splitSafe_mod _) (splitSafe_lt _) (blockSize_pages hn)
        (hf.resolve_left hmem)).1) hres)
    exact hsame B'' hB hb
  | @free fuel a heap' st ha hres =>
    rcases hi.frees_cases ha hres with ⟨-, f, hview, -⟩ | ⟨hmore, hview⟩
    · refine hsame (B.erase _) ?_ (by rw [hview]; exact busy_delete hi hbusy ha f)
      rw [hview]
      exact hi.blocks.remove (hi.live_chunk ha).header
    · refine hsame B ?_ (by rw [hview]; exact busy_give hbusy hmore)
      rw [hview]
      exact hi.blocks

/-- No block is idle in any state of a run, `first` being what init left at the head of the list. -/
theorem run_busy {s₀ : Sys} (h0 : Started s₀) {h : List Event} {s : Sys}
    (run : Trace Step s₀ h s) : Runs s₀.heap.bHead s := by
  refine run.inv (I := Runs s₀.heap.bHead) ?_ fun s e s' ⟨B, F, hi, hbusy⟩ hs =>
    busy_step hi hbusy hs
  obtain ⟨B, F, hi, hbusy, -⟩ := busy_start h0
  exact ⟨B, F, hi, hbusy⟩

/-! ## When pages go back -/

/-- The free of `a`, in the run `r`, that took `s` to `s'`: the run goes back when `a` was alone in
    it, and then no header is left there; else no pages go back.  The second part of `last` is what
    makes it safe to reuse the pages: the heap has no header left there that it would still follow. -/
structure GivesBack (live : List (Nat × Nat)) (a r : Nat × Nat) (s s' : State) : Prop where
  last : liveOf live r = [a] → s'.pageLog = .free r.1 r.2 :: s.pageLog ∧
    ∃ B F, s'.blockList.Is B ∧ s'.freeList.Is F ∧
      (∀ b ∈ B, (Region.mk b sizeofBlockHeader).Apart (runRegion r)) ∧
      ∀ c ∈ F, (Region.mk c sizeofAllocHeader).Apart (runRegion r)
  others : liveOf live r ≠ [a] → s'.pageLog = s.pageLog

/-- One allocation asks for pages at most once and gives none back. -/
theorem Allocates.log {n mem p : Nat} (h : Allocates v F B n mem v' p) :
    v'.log = v.log ∨ ∃ amount addr, v'.log = .allocate amount addr :: v.log := by
  cases h with
  | taken ht => cases ht <;> exact Or.inl rfl
  | refused => exact Or.inr ⟨_, _, rfl⟩
  | useless => exact Or.inr ⟨_, _, rfl⟩
  | grown => exact Or.inr ⟨_, _, rfl⟩

/-- Headers of other blocks and of chunks of other blocks are outside the pages of block `b`.  The
    free chunks of the block itself are the ones to purge: they are what the loop in
    `MmFreeGeneralMemory` takes off the list. -/
theorem Inv.outside (hi : Inv v B F live) {b : Nat} (hb : b ∈ B) :
    (∀ b' ∈ B, b' ≠ b → (Region.mk b' sizeofBlockHeader).Apart (runRegion (v.runOf b))) ∧
    ∀ c ∈ F, (v.chunk c).header ≠ b →
      (Region.mk c sizeofAllocHeader).Apart (runRegion (v.runOf b)) := by
  have hlay := hi.layout
  refine ⟨fun b' hb' hne => ?_, fun c hc hne => ?_⟩
  · have hok := hlay.block b' hb'
    have hused := hok.used_le
    have hap : (v.pagesOf b').Apart (v.pagesOf b) := Region.apart_of_mem hlay.apart hb' hb hne
    refine hap.within ?_ ⟨Nat.le_refl _, Nat.le_refl _⟩
    rw [hok.pages]
    rw [Region.Within, sizeofBlockHeader]
    dsimp only
    omega
  · have hok := hi.free_chunk hc
    have hap : (v.pagesOf (v.chunk c).header).Apart (v.pagesOf b) :=
      Region.apart_of_mem hlay.apart hok.header hb hne
    refine (hap.within (hok.inPages hlay) ⟨Nat.le_refl _, Nat.le_refl _⟩).within ?_
      ⟨Nat.le_refl _, Nat.le_refl _⟩
    rw [Region.Within, View.extent, sizeofAllocHeader]
    dsimp only
    omega

/-- A free gives pages back exactly when it frees the last allocation of a block.  The counter of
    the block decides, and `Inv.liveOf_length` reads it as the number of allocations. -/
theorem Inv.gives_back {s s' : State} (hi : Inv s.view B F live) {a : Nat × Nat} (ha : a ∈ live)
    {fuel : Nat} {st : NearStatus} (h : s.mmFreeGeneralMemory fuel a.1 = some (s', st)) :
    GivesBack live a (s.view.runOf (s.view.chunk (chunkOf a)).header) s s' := by
  have hb := (hi.live_chunk ha).header
  have hcase := hi.frees_cases ha h
  have hcount := hi.counter _ hb
  rw [← hi.liveOf_length hb] at hcount
  have hmem : a ∈ liveOf live (s.view.runOf (s.view.chunk (chunkOf a)).header) :=
    List.mem_filter.mpr ⟨ha, decide_eq_true ((hi.home ha hb).mpr rfl)⟩
  generalize hlist : liveOf live (s.view.runOf (s.view.chunk (chunkOf a)).header) = l at hcount hmem
  rcases hcase with ⟨hlast, f, hview, hf⟩ | ⟨hmore, hview⟩
  · -- the counter is at most one, so `a` is alone
    have halone : l = [a] := by
      match l, hmem, hcount with
      | [x], hmem, _ => rw [List.mem_singleton.mp hmem]
      | x :: y :: l, _, hcount => simp only [List.length_cons] at hcount; omega
    have hrun := runOf_count s.view (s.view.chunk (chunkOf a)).header (-1)
      (s.view.chunk (chunkOf a)).header
    have hlog : s'.pageLog =
        .free ((s.view.count (s.view.chunk (chunkOf a)).header (-1)).runOf
          (s.view.chunk (chunkOf a)).header).1
        ((s.view.count (s.view.chunk (chunkOf a)).header (-1)).runOf
          (s.view.chunk (chunkOf a)).header).2 :: s.pageLog := congrArg View.log hview
    rw [hrun] at hlog
    have hblocks : s'.blockList.Is (B.erase (s.view.chunk (chunkOf a)).header) := by
      show s'.view.blocks.Is _
      rw [hview]
      exact hi.blocks.remove hb
    have hfrees : s'.freeList.Is (F.filter fun c =>
        decide ((s.view.chunk c).header ≠ (s.view.chunk (chunkOf a)).header)) := by
      show s'.view.frees.Is _
      rw [hview]
      exact hf
    -- no other header lies in the pages that are given back
    obtain ⟨houtB, houtF⟩ := hi.outside hb
    refine ⟨fun _ => ⟨hlog, _, _, hblocks, hfrees, fun b' hb' => ?_, fun c hc => ?_⟩,
      fun hne => absurd (hlist.trans halone) hne⟩
    · exact houtB b' (List.mem_of_mem_erase hb') fun he =>
        hi.blocks.nodup.not_mem_erase (he ▸ hb')
    · obtain ⟨hcF, hcb⟩ := List.mem_filter.mp hc
      exact houtF c hcF (of_decide_eq_true hcb)
  · -- ?_, fun _ => congrArg View.log hview⟩ => the counter is more than one, so `a` is not alone
    refine ⟨fun halone => ?_, fun _ => congrArg View.log hview⟩
    rw [hlist.symm.trans halone] at hcount
    rw [hcount] at hmore
    exact absurd hmore (Int.lt_irrefl 1)

/-- **A block gives its pages back exactly when it dies.**  In every state of every run, each block
    but the first one counts its live allocations and has some; freeing an allocation returns, and
    gives back the run of its block, as it was obtained, exactly when it was the last one there; an
    allocation gives nothing back; and when nothing is live, only the first page is held.  The crux
    is that the counter, the headers and the addresses tell the same story.  The counter is what the
    code looks at, `liveOf` is what a client can see, and the header is what a free follows to the
    block; `Inv` ties them together. -/
theorem blocks_give_pages_back {s₀ : Sys} (h0 : Started s₀) {h : List Event} {s : Sys}
    (run : Trace Step s₀ h s) :
    (∃ B F, s.heap.blockList.Is B ∧ s.heap.freeList.Is F ∧
      (∀ b ∈ B, b ≠ s₀.heap.bHead → ∃ r ∈ held s.heap.pageLog, r.1 = b ∧ liveOf s.live r ≠ [] ∧
        (s.heap.blockAt b).allocCounter = (liveOf s.live r).length) ∧
      ∀ a ∈ s.live, ∃ r ∈ held s.heap.pageLog, r.1 ∈ B ∧ r.1 ≠ s₀.heap.bHead ∧
        .allocate r.2 r.1 ∈ s.heap.pageLog ∧ a ∈ liveOf s.live r ∧ ∀ fuel,
        (F.length < fuel → ∃ s' st, s.heap.mmFreeGeneralMemory fuel a.1 = some (s', st)) ∧
        ∀ s' st, s.heap.mmFreeGeneralMemory fuel a.1 = some (s', st) →
          GivesBack s.live a r s.heap s') ∧
    (∀ n p s', Step s (.alloc n p) s' → s'.heap.pageLog = s.heap.pageLog ∨
      ∃ amount addr, s'.heap.pageLog = .allocate amount addr :: s.heap.pageLog) ∧
    (s.live = [] → held s.heap.pageLog = held s₀.heap.pageLog) := by
  obtain ⟨B, F, hi, hbusy⟩ := run_busy h0 run
  have hrun : ∀ b ∈ B, s.heap.view.runOf b ∈ held s.heap.pageLog ∧ (s.heap.view.runOf b).1 = b :=
    fun b hb => ⟨hi.runs.mem_iff.mpr (List.mem_map_of_mem hb), (hi.layout.block b hb).runOf⟩
  refine ⟨⟨B, F, hi.blocks, hi.frees, fun b hb hne => ?_, fun a ha => ?_⟩, fun n p s' hs => ?_,
    fun hlive => ?_⟩
  · -- blocks other than the first one have something live in them
    obtain ⟨hheld, hbase⟩ := hrun b hb
    have hcount : (s.heap.blockAt b).allocCounter = _ := hi.counter b hb
    have hused : 1 ≤ (s.heap.blockAt b).allocCounter := hbusy.used b hb hne
    rw [← hi.liveOf_length hb] at hcount
    refine ⟨_, hheld, hbase, fun hnil => ?_, hcount⟩
    rw [hcount, hnil] at hused
    exact absurd hused (by decide)
  · -- what is live lies in a block, and its free gives that back or does not
    have hb := (hi.live_chunk ha).header
    obtain ⟨hheld, hbase⟩ := hrun _ hb
    refine ⟨_, hheld, by rw [hbase]; exact hb, fun he => ?_, allocate_of_held hheld,
      List.mem_filter.mpr ⟨ha, decide_eq_true ((hi.home ha hb).mpr rfl)⟩, fun fuel =>
        ⟨fun hfuel => free_total hi.frees hfuel a.1, fun s' st hres => hi.gives_back ha hres⟩⟩
    rw [hbase] at he
    exact hi.header_ne_first hbusy ha (he ▸ hi.blocks.nonnull _ hb) he
  · -- an allocation takes a run of pages or none
    cases hs with
    | @alloc fuel _ _ pages heap' hn hans hres =>
      exact (hi.allocates (fun hmem => (inv_create hi (splitSafe_mod _) (splitSafe_lt _)
        (blockSize_pages hn) ((hans _).resolve_left hmem)).1) hres).log
  · -- every block left is the first one
    have hfirst : ∀ b ∈ B, b = s₀.heap.bHead := by
      intro b hb
      by_contra hne
      have hused := hbusy.used b hb hne
      rw [hi.counter b hb, hlive] at hused
      exact absurd hused (by simp [liveIn])
    obtain ⟨-, -, -, -, hstart⟩ := busy_start h0
    rw [hstart]
    have hheld := hi.runs
    -- the heap may have started without a block
    by_cases hnull : s₀.heap.bHead = null
    · have hnil : B = [] := List.eq_nil_iff_forall_not_mem.mpr fun b hb =>
        hi.blocks.nonnull b hb ((hfirst b hb).trans hnull)
      rw [if_pos hnull]
      rw [hnil] at hheld
      exact hheld.eq_nil
    · have hone : B = [s₀.heap.bHead] :=
        List.perm_singleton.mp ((List.perm_ext_iff_of_nodup hi.blocks.nodup
          (List.nodup_singleton _)).mpr fun b => ⟨fun hb => List.mem_singleton.mpr (hfirst b hb),
            fun hb => by rw [List.mem_singleton.mp hb]; exact hbusy.stays hnull⟩)
      rw [if_neg hnull, ← (hbusy.useless hnull).2]
      rw [hone] at hheld
      exact List.perm_singleton.mp hheld

/-- After the only allocation is freed the page of the first block is held, and nothing else. -/
theorem blocks_give_pages_back_first : ∃ s, Trace Step ⟨startedHeap, []⟩
    [.free 0x200060, .alloc 100 0x200060] s ∧ held s.heap.pageLog = [(0x100000, 1)] := by
  have hfree : (heapWithOne.mmFreeGeneralMemory 1 0x200060).isSome = true := by decide
  obtain ⟨⟨heap', st⟩, hsome⟩ := Option.isSome_iff_exists.mp hfree
  have hrun := heapWithOne_reached.snoc
    (.free (a := (0x200060, 100)) List.mem_cons_self hsome)
  refine ⟨_, hrun, ?_⟩
  obtain ⟨-, -, hempty⟩ := blocks_give_pages_back startedHeap_started hrun
  have hstart : held startedHeap.pageLog = [(0x100000, 1)] := by decide
  exact (hempty rfl).trans hstart

end Nearlands.Heap
