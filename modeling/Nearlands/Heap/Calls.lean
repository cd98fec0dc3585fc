/-
  What a call of the heap does.

  The loops of `alloc.c` walk a chain through `next`.  The two that search end as every such loop
  does (`DList.Is.loop_ends`); the one that drops chunks edits the chain on its way, and is a
  recursion over the list.  `Takes` says what a search for memory can do (take a free chunk, split
  one, carve one, or find nothing) and `Frees` what a free can do, and the two public functions are
  then a short case analysis: `alloc_cases` and `free_cases`.
-/
import Nearlands.Heap.View

namespace Nearlands.Heap

open Nearlands.Lib

/-! ## Searching -/

/-- The free chunk can be taken as it is.  Either as large as asked for, or with 48 bytes more,
    which are then not used. -/
def AllocData.Exact (a : AllocData) (size : Nat) : Prop := a.size = size ∨ a.size = w64 (size + 48)

/-- The free chunk can be split.  Request and rest have to be larger than a header each; a request
    of up to 48 bytes is never cut from a larger chunk. -/
def AllocData.Splits (a : AllocData) (size : Nat) : Prop :=
  a.size > size ∧ 48 < size ∧ 48 < sub64 a.size size

/-- Bytes left in a block.  The same function on the data of a header. -/
def BlockData.remaining (b : BlockData) : Nat :=
  let d := sub64 b.size b.amountUsed
  if d < 2 ^ 63 then d else 0

/-- A search for `allocSize` bytes in the chunks `F` and the blocks `B` took `v` to `v'` and
    returned `p`.  Which of several chunks or blocks it was is left open here; `Heap.Exhaustion`
    needs only that there was none. -/
inductive Takes (v : View) (F B : List Nat) (allocSize : Nat) : View → Nat → Prop
  | reuse {c : Nat} : c ∈ F → (v.chunk c).Exact (splitSafe allocSize) →
      Takes v F B allocSize (v.reuse c) (v.chunk c).base
  | split {c : Nat} : c ∈ F → (v.chunk c).Splits (splitSafe allocSize) →
      Takes v F B allocSize (v.split c (splitSafe allocSize)) (v.chunk c).base
  | carve {b : Nat} : b ∈ B → splitSafe (w64 (allocSize + 48)) ≤ (v.block b).remaining →
      Takes v F B allocSize (v.carve b (splitSafe (w64 (allocSize + 48)))) (w64 (v.topOf b + 48))

instance (a : AllocData) (size : Nat) : Decidable (a.Exact size) :=
  inferInstanceAs (Decidable (_ ∨ _))

instance (a : AllocData) (size : Nat) : Decidable (a.Splits size) :=
  inferInstanceAs (Decidable (_ ∧ _ ∧ _))

/-- One turn of the loop over the free chunks.  The conditions of the source are folded into the two
    predicates. -/
theorem freeListScan_succ (s : State) (size fuel : Nat) {c : Nat} (hc : c ≠ null) :
    s.freeListScan size (fuel + 1) c =
      if (s.view.chunk c).Exact size then some (s.reuseChunk c)
      else if (s.view.chunk c).Splits size then some (s.splitChunk c size)
      else s.freeListScan size fuel (s.view.frees.next c) := by
  have hsplits : (s.view.chunk c).Splits size ↔ (s.allocAt c).size > size ∧
      ¬ size ≤ splitSafe sizeofAllocHeader ∧
      ¬ sub64 (s.allocAt c).size size ≤ splitSafe sizeofAllocHeader := by
    rw [Nat.not_le, Nat.not_le]
    rfl
  show (if c = null then some (s, null) else _) = _
  rw [if_neg hc]
  refine if_congr Iff.rfl rfl (if_congr hsplits.symm rfl rfl)

/-- One turn of the loop over the blocks. -/
theorem blockScan_succ (s : State) (size fuel : Nat) {b : Nat} (hb : b ≠ null) :
    s.blockScan size (fuel + 1) b =
      if size ≤ (s.view.block b).remaining then some (s.carveChunk b size)
      else s.blockScan size fuel (s.view.blocks.next b) := by
  show (if b = null then some (s, null) else _) = _
  rw [if_neg hb]
  rfl

/-- No chunk of `l` serves `size` bytes.  It is the complement of what the loop looks for. -/
def NoneFits (v : View) (l : List Nat) (size : Nat) : Prop :=
  ∀ c ∈ l, ¬ (v.chunk c).Exact size ∧ ¬ (v.chunk c).Splits size

/-- The loop goes on behind a chunk that does not serve, and only there. -/
theorem freeListScan_passes {s : State} {F : List Nat} (hF : s.view.frees.Is F) (size : Nat) :
    DList.Passes (s.freeListScan size)
      (fun c => ¬ (s.view.chunk c).Exact size ∧ ¬ (s.view.chunk c).Splits size) s.view.frees F where
  zero _ := rfl
  pass c hc hskip n := by
    rw [freeListScan_succ s _ _ (hF.nonnull c hc), if_neg hskip.1, if_neg hskip.2]

/-- What the search of the free list did. -/
theorem freeListScan_cases {s s' : State} {F : List Nat} (hF : s.view.frees.Is F) (B : List Nat)
    {allocSize fuel p : Nat}
    (h : s.freeListScan (splitSafe allocSize) fuel s.view.frees.head = some (s', p)) :
    (s' = s ∧ p = null ∧ NoneFits s.view F (splitSafe allocSize)) ∨
    Takes s.view F B allocSize s'.view p := by
  obtain ⟨n, ⟨hnone, hres⟩ | ⟨c, hc, hfits, hres⟩⟩ := hF.loop_ends (freeListScan_passes hF _) h
  · obtain ⟨rfl, rfl⟩ := Prod.mk.inj (Option.some.inj hres)
    exact Or.inl ⟨rfl, rfl, hnone⟩
  · rw [freeListScan_succ s _ _ (hF.nonnull c hc)] at hres
    by_cases hexact : (s.view.chunk c).Exact (splitSafe allocSize)
    · rw [if_pos hexact, Option.some.injEq] at hres
      obtain ⟨hv, hp⟩ := view_reuseChunk s c
      rw [hres] at hv hp
      dsimp only at hv hp
      rw [hv, hp]
      exact Or.inr (.reuse hc hexact)
    · have hsplit : (s.view.chunk c).Splits (splitSafe allocSize) :=
        Classical.byContradiction fun hsplit => hfits ⟨hexact, hsplit⟩
      rw [if_neg hexact, if_pos hsplit, Option.some.injEq] at hres
      obtain ⟨hv, hp⟩ := view_splitChunk s c (splitSafe allocSize)
      rw [hres] at hv hp
      dsimp only at hv hp
      rw [hv, hp]
      exact Or.inr (.split hc hsplit)

/-- No block of `l` has `size` bytes left. -/
def NoneHolds (v : View) (l : List Nat) (size : Nat) : Prop :=
  ∀ b ∈ l, ¬ size ≤ (v.block b).remaining

/-- The loop over the blocks goes on behind those with too little room. -/
theorem blockScan_passes {s : State} {B : List Nat} (hB : s.view.blocks.Is B) (size : Nat) :
    DList.Passes (s.blockScan size) (fun b => ¬ size ≤ (s.view.block b).remaining)
      s.view.blocks B where
  zero _ := rfl
  pass b hb hskip n := by
    rw [blockScan_succ s _ _ (hB.nonnull b hb), if_neg hskip]

/-- What the search of the blocks did. -/
theorem blockScan_cases {s s' : State} {B : List Nat} (hB : s.view.blocks.Is B) (F : List Nat)
    {allocSize fuel p : Nat}
    (h : s.blockScan (splitSafe (w64 (allocSize + 48))) fuel s.view.blocks.head = some (s', p)) :
    (s' = s ∧ p = null ∧ NoneHolds s.view B (splitSafe (w64 (allocSize + 48)))) ∨
    Takes s.view F B allocSize s'.view p := by
  obtain ⟨n, ⟨hnone, hres⟩ | ⟨b, hb, hholds, hres⟩⟩ := hB.loop_ends (blockScan_passes hB _) h
  · obtain ⟨rfl, rfl⟩ := Prod.mk.inj (Option.some.inj hres)
    exact Or.inl ⟨rfl, rfl, hnone⟩
  · have hfit := Decidable.not_not.mp hholds
    rw [blockScan_succ s _ _ (hB.nonnull b hb), if_pos hfit, Option.some.injEq] at hres
    obtain ⟨hv, hp⟩ := view_carveChunk s b (splitSafe (w64 (allocSize + 48)))
    rw [hres] at hv hp
    dsimp only at hv hp
    rw [hv, hp]
    exact Or.inr (.carve hb hfit)

/-- The loops end within as many turns as their list is long, plus one. -/
theorem freeListScan_total {s : State} {F : List Nat} (hF : s.view.frees.Is F) (size : Nat)
    {fuel : Nat} (hfuel : F.length < fuel) :
    ∃ res, s.freeListScan size fuel s.view.frees.head = some res := by
  refine hF.loop_total (freeListScan_passes hF size) (fun c hc hfits n => ?_) (fun _ => ⟨_, rfl⟩) hfuel
  rw [freeListScan_succ s _ _ (hF.nonnull c hc)]
  split
  · exact ⟨_, rfl⟩
  · rename_i hexact
    rw [if_pos (Classical.byContradiction fun hsplit => hfits ⟨hexact, hsplit⟩)]
    exact ⟨_, rfl⟩

/-- The same for the loop over the blocks. -/
theorem blockScan_total {s : State} {B : List Nat} (hB : s.view.blocks.Is B) (size : Nat)
    {fuel : Nat} (hfuel : B.length < fuel) :
    ∃ res, s.blockScan size fuel s.view.blocks.head = some res := by
  refine hB.loop_total (blockScan_passes hB size) (fun b hb hholds n => ?_) (fun _ => ⟨_, rfl⟩) hfuel
  rw [blockScan_succ s _ _ (hB.nonnull b hb), if_pos (Decidable.not_not.mp hholds)]
  exact ⟨_, rfl⟩

/-! ## The public functions -/

/-- Memory that was taken is not at the null pointer.  The two hypotheses are part of the invariant;
    with them a `NULL` answer means that nothing was taken. -/
theorem Takes.returned {v v' : View} {F B : List Nat} {allocSize p : Nat}
    (h : Takes v F B allocSize v' p) (hbase : ∀ c ∈ F, (v.chunk c).base ≠ null)
    (hcarve : ∀ b ∈ B, splitSafe (w64 (allocSize + 48)) ≤ (v.block b).remaining →
      w64 (v.topOf b + 48) ≠ null) : p ≠ null := by
  cases h with
  | reuse hc _ => exact hbase _ hc
  | split hc _ => exact hbase _ hc
  | carve hb hfit => exact hcarve _ hb hfit

/-- A search that looked at no block is one that may have. -/
theorem Takes.of_free {v v' : View} {F : List Nat} {allocSize p : Nat}
    (h : Takes v F [] allocSize v' p) (B : List Nat) : Takes v F B allocSize v' p := by
  cases h with
  | reuse hc hfit => exact .reuse hc hfit
  | split hc hfit => exact .split hc hfit
  | carve hb _ => exact absurd hb List.not_mem_nil

/-- `AllocateFreshMemory` takes memory, or finds none and changes nothing.  So the second search
    runs in the state of the first. -/
theorem allocateFreshMemory_cases {s s' : State} {F B : List Nat} {fuel allocSize p : Nat}
    (hF : s.view.frees.Is F) (hB : s.view.blocks.Is B)
    (hbase : ∀ c ∈ F, (s.view.chunk c).base ≠ null)
    (h : s.allocateFreshMemory fuel allocSize = some (s', p)) :
    (s' = s ∧ p = null ∧ NoneFits s.view F (splitSafe allocSize) ∧
      NoneHolds s.view B (splitSafe (w64 (allocSize + 48)))) ∨
    Takes s.view F B allocSize s'.view p := by
  rw [State.allocateFreshMemory] at h
  obtain ⟨⟨s₁, p₁⟩, hfree, hrest⟩ := Option.bind_eq_some_iff.mp h
  dsimp only at hrest
  rcases freeListScan_cases hF [] hfree with ⟨rfl, rfl, hnone⟩ | htake
  · rw [if_neg (by decide)] at hrest
    rcases blockScan_cases hB F hrest with ⟨rfl, rfl, hnob⟩ | htake
    · exact Or.inl ⟨rfl, rfl, hnone, hnob⟩
    · exact Or.inr htake
  · have hne := htake.returned hbase fun _ hb => absurd hb List.not_mem_nil
    rw [if_pos hne, Option.some.injEq, Prod.mk.injEq] at hrest
    obtain ⟨rfl, rfl⟩ := hrest
    exact Or.inr (htake.of_free B)

/-- It returns, with fuel for both lists. -/
theorem allocateFreshMemory_total {s : State} {F B : List Nat} (hF : s.view.frees.Is F)
    (hB : s.view.blocks.Is B) (hbase : ∀ c ∈ F, (s.view.chunk c).base ≠ null) {fuel : Nat}
    (hfrees : F.length < fuel) (hblocks : B.length < fuel) (allocSize : Nat) :
    ∃ res, s.allocateFreshMemory fuel allocSize = some res := by
  obtain ⟨⟨s₁, p₁⟩, hfree⟩ := freeListScan_total hF (splitSafe allocSize) hfrees
  have hfirst : s.getMemoryFromFreeList fuel allocSize = some (s₁, p₁) := hfree
  rw [State.allocateFreshMemory, hfirst, Option.bind_some]
  dsimp only
  rcases freeListScan_cases hF [] hfree with ⟨rfl, rfl, -⟩ | htake
  · rw [if_neg (by decide)]
    exact blockScan_total hB _ hblocks
  · rw [if_pos (htake.returned hbase fun _ hb => absurd hb List.not_mem_nil)]
    exact ⟨_, rfl⟩

/-- The bytes asked for when a new block is needed.  A page more than the request, which leaves room
    for the headers of the block and of the chunk. -/
def blockSize (allocSize : Nat) : Nat := splitSafe (w64 (allocSize + 0x1000))

/-- **What `MmAllocateGeneralMemory` can do**: take memory from what there is; or, when nothing
    serves the request, be refused a new block, or make one and search again.  After a new block the
    search is the same as before, with one block more; it may still fail, and the block is then
    kept. -/
theorem alloc_cases {s s' : State} {F B : List Nat} {fuel allocSize p : Nat} {pages : Nat → Nat}
    (hF : s.view.frees.Is F) (hB : s.view.blocks.Is B)
    (hbase : ∀ c ∈ F, (s.view.chunk c).base ≠ null)
    (hcarve : ∀ b ∈ B, splitSafe (w64 (allocSize + 48)) ≤ (s.view.block b).remaining →
      w64 (s.view.topOf b + 48) ≠ null)
    (hnew : pages (inPages (blockSize allocSize)) ≠ null →
      pages (inPages (blockSize allocSize)) ∉ B)
    (h : s.mmAllocateGeneralMemory fuel pages allocSize = some (s', p)) :
    Takes s.view F B allocSize s'.view p ∨
    (NoneFits s.view F (splitSafe allocSize) ∧
      NoneHolds s.view B (splitSafe (w64 (allocSize + 48))) ∧
      let mem := pages (inPages (blockSize allocSize))
      let made := s.view.create (blockSize allocSize) mem
      (mem = null ∧ p = null ∧ s'.view =
        { s.view with log := .allocate (inPages (blockSize allocSize)) null :: s.view.log }) ∨
      (mem ≠ null ∧ ((s'.view = made ∧ p = null ∧
          NoneHolds made (B ++ [mem]) (splitSafe (w64 (allocSize + 48)))) ∨
        Takes made F (B ++ [mem]) allocSize s'.view p))) := by
  rw [State.mmAllocateGeneralMemory] at h
  obtain ⟨⟨s₁, p₁⟩, hfirst, hrest⟩ := Option.bind_eq_some_iff.mp h
  dsimp only at hrest
  rcases allocateFreshMemory_cases hF hB hbase hfirst with ⟨rfl, rfl, hnone, hnob⟩ | htake
  · -- nothing was found, and a block is asked for
    rw [if_neg (by decide)] at hrest
    refine Or.inr ⟨hnone, hnob, ?_⟩
    obtain ⟨hfail, hmade⟩ := view_createBlock s₁ pages (w64 (allocSize + pageSize))
    have hsize : splitSafe (w64 (allocSize + pageSize)) = blockSize allocSize := rfl
    rw [hsize] at hfail hmade
    dsimp only
    by_cases hmem : pages (inPages (blockSize allocSize)) = null
    · -- there are no pages for it
      obtain ⟨hst, hview⟩ := hfail hmem
      rw [hst, if_neg (by decide), Option.some.injEq, Prod.mk.injEq] at hrest
      obtain ⟨rfl, rfl⟩ := hrest
      exact Or.inl ⟨hmem, rfl, hview⟩
    · obtain ⟨hst, hview⟩ := hmade hmem
      rw [hst, if_pos (by decide)] at hrest
      refine Or.inr ⟨hmem, ?_⟩
      -- the search starts again with the new block
      have hB₁ : (s₁.view.create (blockSize allocSize)
          (pages (inPages (blockSize allocSize)))).blocks.Is
          (B ++ [pages (inPages (blockSize allocSize))]) := hB.add hmem (hnew hmem)
      rw [← hview] at hB₁ ⊢
      rcases allocateFreshMemory_cases (by rw [hview]; exact hF) hB₁ (by rw [hview]; exact hbase)
        hrest with ⟨rfl, rfl, -, hnob₁⟩ | htake
      · exact Or.inl ⟨rfl, rfl, hnob₁⟩
      · exact Or.inr htake
  · -- memory was taken, so the address is not null and the call returns
    rw [if_pos (htake.returned hbase hcarve), Option.some.injEq, Prod.mk.injEq] at hrest
    obtain ⟨rfl, rfl⟩ := hrest
    exact Or.inl htake

/-- `MmAllocateGeneralMemory` returns.  The second search has one more block to look at, hence the
    `+ 1`. -/
theorem alloc_total {s : State} {F B : List Nat} {fuel allocSize : Nat} {pages : Nat → Nat}
    (hF : s.view.frees.Is F) (hB : s.view.blocks.Is B)
    (hbase : ∀ c ∈ F, (s.view.chunk c).base ≠ null)
    (hcarve : ∀ b ∈ B, splitSafe (w64 (allocSize + 48)) ≤ (s.view.block b).remaining →
      w64 (s.view.topOf b + 48) ≠ null)
    (hnew : pages (inPages (blockSize allocSize)) ≠ null →
      pages (inPages (blockSize allocSize)) ∉ B)
    (hfrees : F.length < fuel) (hblocks : B.length + 1 < fuel) :
    ∃ s' p, s.mmAllocateGeneralMemory fuel pages allocSize = some (s', p) := by
  obtain ⟨⟨s₁, p₁⟩, hfirst⟩ :=
    allocateFreshMemory_total hF hB hbase hfrees (Nat.lt_of_succ_lt hblocks) allocSize
  rw [State.mmAllocateGeneralMemory, hfirst, Option.bind_some]
  dsimp only
  rcases allocateFreshMemory_cases hF hB hbase hfirst with ⟨rfl, rfl, -, -⟩ | htake
  · rw [if_neg (by decide)]
    obtain ⟨hfail, hmade⟩ := view_createBlock s₁ pages (w64 (allocSize + pageSize))
    by_cases hmem : pages (inPages (blockSize allocSize)) = null
    · rw [(hfail hmem).1, if_neg (by decide)]
      exact ⟨_, _, rfl⟩
    · -- the search goes over one block more
      obtain ⟨hst, hview⟩ := hmade hmem
      rw [hst, if_pos (by decide)]
      have hB₁ : (s₁.createBlock pages (w64 (allocSize + pageSize))).1.view.blocks.Is
          (B ++ [pages (inPages (blockSize allocSize))]) := by
        rw [hview]
        exact hB.add hmem (hnew hmem)
      obtain ⟨⟨s', p⟩, hres⟩ := allocateFreshMemory_total (by rw [hview]; exact hF) hB₁
        (by rw [hview]; exact hbase) hfrees (by rw [List.length_append]; exact hblocks) allocSize
      exact ⟨s', p, hres⟩
  · rw [if_pos (htake.returned hbase hcarve)]
    exact ⟨_, _, rfl⟩

/-- The loop that drops a block's chunks from the free list leaves the others, in order.  The
    induction is on the fuel; `l` are the chunks passed, none of the block, and `r` those ahead. -/
theorem dropChunks_cases (b : Nat) : ∀ (fuel : Nat) (l r : List Nat) (s s' : State) (header : Nat),
    s.view.frees.Is (l ++ r) → (∀ c ∈ l, (s.view.chunk c).header ≠ b) → header = r.headD 0 →
    State.dropChunks b fuel header s = some s' →
    ∃ f, s'.view = { s.view with frees := f } ∧
      f.Is ((l ++ r).filter fun c => decide ((s.view.chunk c).header ≠ b)) := by
  intro fuel
  induction fuel with
  | zero => intro l r s s' header _ _ _ h; exact nomatch h
  | succ fuel ih =>
    intro l r s s' header hF hl hhead h
    have hkeep : l.filter (fun c => decide ((s.view.chunk c).header ≠ b)) = l :=
      List.filter_eq_self.mpr fun c hc => decide_eq_true (hl c hc)
    cases r with
    | nil =>
      have hstop : some s = some s' := by rw [hhead] at h; exact h
      obtain rfl := Option.some.inj hstop
      rw [List.append_nil] at hF ⊢
      exact ⟨s.view.frees, rfl, by rw [hkeep]; exact hF⟩
    | cons c r =>
      obtain rfl : c = header := hhead.symm
      have hc0 : c ≠ null := hF.nonnull c (by simp)
      have hnext : (s.allocAt c).next = r.headD 0 := (hF.link l c r rfl).2
      rw [State.dropChunks] at h
      rw [if_neg hc0] at h
      -- a chunk of the block is taken out, and the walk goes on behind it
      by_cases hmine : (s.view.chunk c).header = b
      · have hcond : (s.allocAt c).header = b := hmine
        rw [if_pos hcond] at h
        have hview := view_removeAllocHeader s c
        have hF₁ : (s.removeAllocHeader c).view.frees.Is (l ++ r) := by
          rw [hview]; exact hF.remove_mid
        obtain ⟨f, hf, hfis⟩ := ih l r _ s' _ hF₁ (by rw [hview]; exact hl) hnext h
        refine ⟨f, by rw [hf, hview], ?_⟩
        rw [hview] at hfis
        rw [List.filter_append, List.filter_cons_of_neg (by simpa using hmine),
          ← List.filter_append]
        exact hfis
      · -- one of another block is left behind, and joins `l`
        have hcond : ¬ (s.allocAt c).header = b := hmine
        rw [if_neg hcond] at h
        obtain ⟨f, hf, hfis⟩ := ih (l ++ [c]) r s s' _ (by simpa using hF) (fun x hx => by
          rcases List.mem_append.mp hx with hx | hx
          · exact hl x hx
          · rw [List.mem_singleton.mp hx]; exact hmine) hnext h
        exact ⟨f, hf, by simpa using hfis⟩

/-- The loop ends within as many turns as the free list is long, plus one.  Each turn takes one
    chunk of `r`, whether it drops it or not. -/
theorem dropChunks_total (b : Nat) : ∀ (r l : List Nat) (fuel : Nat) (s : State),
    s.view.frees.Is (l ++ r) → r.length < fuel →
    ∃ s', State.dropChunks b fuel (r.headD 0) s = some s' := by
  intro r
  induction r with
  | nil =>
    intro l fuel s _ hfuel
    obtain ⟨n, rfl⟩ := Nat.exists_eq_add_one_of_ne_zero (Nat.ne_of_gt hfuel)
    exact ⟨s, rfl⟩
  | cons c r ih =>
    intro l fuel s hF hfuel
    obtain ⟨n, rfl⟩ := Nat.exists_eq_add_one_of_ne_zero
      (Nat.ne_of_gt (Nat.lt_of_le_of_lt (Nat.zero_le _) hfuel))
    have hn : r.length < n := Nat.lt_of_succ_lt_succ hfuel
    have hc0 : c ≠ null := hF.nonnull c (by simp)
    have hnext : (s.allocAt c).next = r.headD 0 := (hF.link l c r rfl).2
    show ∃ s', State.dropChunks b (n + 1) c s = some s'
    rw [State.dropChunks, if_neg hc0, hnext]
    split
    · refine ih l n _ ?_ hn
      rw [view_removeAllocHeader]
      exact hF.remove_mid
    · exact ih (l ++ [c]) n s (by simpa using hF) hn

/-- `MmFreeGeneralMemory` returns.  The only loop is the one that drops the chunks of a block. -/
theorem free_total {s : State} {F : List Nat} (hF : s.view.frees.Is F) {fuel : Nat}
    (hfuel : F.length < fuel) (p : Nat) : ∃ s' st, s.mmFreeGeneralMemory fuel p = some (s', st) := by
  rw [State.mmFreeGeneralMemory]
  split
  · exact ⟨_, _, rfl⟩
  · dsimp only
    split
    · exact ⟨_, _, rfl⟩
    · split
      · generalize (s.allocAt (sub64 p (splitSafe sizeofAllocHeader))).header = b
        have hview := view_decrementCounter s b
        have hhead : s.aHead = F.headD 0 := hF.head
        obtain ⟨s₁, hdrop⟩ := dropChunks_total b F [] fuel (s.decrementCounter b)
          (by rw [hview]; exact hF) hfuel
        rw [← hhead] at hdrop
        exact ⟨_, _, by rw [show (s.decrementCounter b).aHead = s.aHead from rfl, hdrop]; rfl⟩
      · exact ⟨_, _, rfl⟩

/-- What a call of `MmFreeGeneralMemory(p)` does, by the flag of the chunk and the counter of its
    block.  It holds of any pointer at all, also of one that was never handed out. -/
inductive Frees (s : State) (fuel p : Nat) : State → NearStatus → Prop
  | refused {st : NearStatus} : p = null ∨ (s.view.chunk (sub64 p 48)).isFree = true →
      st ≠ .success → Frees s fuel p s st
  | last {b : Nat} {s₁ : State} : p ≠ null → (s.view.chunk (sub64 p 48)).isFree = false →
      (s.view.chunk (sub64 p 48)).header = b → (s.view.block b).allocCounter ≤ 1 →
      State.dropChunks b fuel (s.decrementCounter b).aHead (s.decrementCounter b) = some s₁ →
      Frees s fuel p (s₁.deleteBlockHeader b).1 .success
  | more {s' : State} : p ≠ null → (s.view.chunk (sub64 p 48)).isFree = false →
      1 < (s.view.block (s.view.chunk (sub64 p 48)).header).allocCounter →
      s'.view = s.view.give (sub64 p 48) → Frees s fuel p s' .success

/-- The three cases are the paths of the function. -/
theorem mmFreeGeneralMemory_frees {s s' : State} {fuel p : Nat} {st : NearStatus}
    (h : s.mmFreeGeneralMemory fuel p = some (s', st)) : Frees s fuel p s' st := by
  rw [State.mmFreeGeneralMemory] at h
  by_cases hp : p = null
  · rw [if_pos hp] at h
    obtain ⟨rfl, rfl⟩ := Prod.mk.inj (Option.some.inj h)
    exact .refused (Or.inl hp) (by decide)
  · rw [if_neg hp, splitSafe_header] at h
    dsimp only at h
    cases hflag : (s.allocAt (sub64 p 48)).isFree with
    | true =>
      rw [if_pos hflag] at h
      obtain ⟨rfl, rfl⟩ := Prod.mk.inj (Option.some.inj h)
      exact .refused (Or.inr hflag) (by decide)
    | false =>
      rw [hflag, if_neg (by decide)] at h
      -- the counter that is tested is one below the one before
      have hcount : ((s.decrementCounter (s.allocAt (sub64 p 48)).header).blockAt
          (s.allocAt (sub64 p 48)).header).allocCounter =
          (s.view.block (s.allocAt (sub64 p 48)).header).allocCounter + -1 := by
        have hview := congrArg (fun v => (v.block (s.allocAt (sub64 p 48)).header).allocCounter)
          (view_decrementCounter s (s.allocAt (sub64 p 48)).header)
        exact hview.trans (congrArg BlockData.allocCounter upd_same)
      rw [hcount] at h
      split at h
      · rename_i hlast
        obtain ⟨s₁, hdrop, hres⟩ := Option.map_eq_some_iff.mp h
        obtain ⟨rfl, rfl⟩ := Prod.mk.inj hres
        exact .last hp hflag rfl (by omega) hdrop
      · rename_i hmore
        obtain ⟨rfl, rfl⟩ := Prod.mk.inj (Option.some.inj h)
        have hmore : 1 < (s.view.block (s.allocAt (sub64 p 48)).header).allocCounter := by omega
        exact .more hp hflag hmore (view_giveChunk s _)

/-- **What `MmFreeGeneralMemory` can do** with a pointer to a chunk that is not free: give the chunk
    to the free list, or, when it was the last live one of its block, give the block back.  The flag
    has been looked at, so there is no refusal; which of the two it is depends on the counter of the
    block. -/
theorem free_cases {s s' : State} {F : List Nat} {fuel p : Nat} {st : NearStatus}
    (hF : s.view.frees.Is F) (hp : p ≠ null)
    (hlive : (s.view.chunk (sub64 p 48)).isFree = false)
    (h : s.mmFreeGeneralMemory fuel p = some (s', st)) :
    st = .success ∧
    let c := sub64 p 48
    let b := (s.view.chunk c).header
    ((s.view.block b).allocCounter ≤ 1 ∧ ∃ f,
      s'.view = View.delete { s.view.count b (-1) with frees := f } b ∧
      f.Is (F.filter fun c => decide ((s.view.chunk c).header ≠ b))) ∨
    (1 < (s.view.block b).allocCounter ∧ s'.view = s.view.give c) := by
  cases mmFreeGeneralMemory_frees h with
  | refused hno _ =>
    rw [hlive] at hno
    exact absurd hno (not_or.mpr ⟨hp, Bool.false_ne_true⟩)
  | @last b s₁ _ _ hb hlast hdrop =>
    have hview := view_decrementCounter s b
    have hhead : (s.decrementCounter b).aHead = F.headD 0 :=
      (congrArg (fun v => v.frees.head) hview).trans hF.head
    obtain ⟨f, hf, hfis⟩ := dropChunks_cases b fuel [] F _ s₁ _ (by rw [hview]; exact hF)
      (fun _ h => absurd h List.not_mem_nil) hhead hdrop
    dsimp only
    rw [hb]
    refine ⟨rfl, Or.inl ⟨hlast, f, ?_, ?_⟩⟩
    · rw [view_deleteBlockHeader, hf, hview]
    · rw [hview] at hfis
      exact hfis
  | more _ _ hmore hview => exact ⟨rfl, Or.inr ⟨hmore, hview⟩⟩

end Nearlands.Heap
