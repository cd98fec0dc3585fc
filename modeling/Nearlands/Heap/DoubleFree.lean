/-
  Freeing twice.

  `MmFreeGeneralMemory` recognises a pointer it has freed by the flag in the header of the chunk.
  It sets the flag when the chunk goes to the free list, and forgets to when the block goes.  So a
  second free is refused when the first one left another allocation in the block, whatever was
  freed in between; else it succeeds, and the pages are given back twice
  (`second_free_refused`, `last_chunk_freed_twice`).
-/
import Nearlands.Heap.Sizes

namespace Nearlands.Heap

open Nearlands.Lib

/-- A free of `p` is refused and changes nothing.  This is asked for every `fuel`, none included: a free
    that is refused returns before it comes to a loop, so it must not need any turns. -/
def State.Refuses (s : State) (p : Nat) : Prop :=
  ∀ fuel, ∃ st, s.mmFreeGeneralMemory fuel p = some (s, st) ∧ st ≠ .success

/-! ## What a free does, in any heap -/

/-- Dropping chunks from the free list leaves the data of all headers.  Only links change, so the
    flag of a chunk that goes with its block is left as it was: clear.  This is where the source
    loses track of what it has freed. -/
theorem dropChunks_data (b : Nat) : ∀ (fuel header : Nat) (s s' : State),
    State.dropChunks b fuel header s = some s' →
    s'.view.chunk = s.view.chunk ∧ s'.view.block = s.view.block := by
  intro fuel
  induction fuel with
  | zero => intro header s s' h; cases h
  | succ fuel ih =>
    intro header s s' h
    rw [State.dropChunks] at h
    split at h
    · obtain rfl := Option.some.inj h
      exact ⟨rfl, rfl⟩
    · split at h
      · obtain ⟨hc, hb⟩ := ih _ _ _ h
        rw [view_removeAllocHeader] at hc hb
        exact ⟨hc, hb⟩
      · exact ih _ _ _ h

/-- The block that the chunk `c` names loses an allocation, and the chunk is marked or not.  The
    first case is the last allocation of a block, the second one any other.  In the first the chunk
    is *not* marked. -/
def View.Freed (v v' : View) (c : Nat) : Prop :=
  v'.block = (v.count (v.chunk c).header (-1)).block ∧
  (((v.block (v.chunk c).header).allocCounter ≤ 1 ∧ v'.chunk = v.chunk) ∨
    (1 < (v.block (v.chunk c).header).allocCounter ∧
      v'.chunk = upd v.chunk c { v.chunk c with isFree := true }))

/-- A free is refused and changes nothing, for `NULL` and for a chunk with the flag set; else it
    succeeds.  This needs no invariant: it says what the code does with any pointer, in any heap. -/
theorem free_flag {s s' : State} {fuel p : Nat} {st : NearStatus}
    (h : s.mmFreeGeneralMemory fuel p = some (s', st)) :
    ((p = null ∨ (s.view.chunk (sub64 p 48)).isFree = true) ∧ s' = s ∧ st ≠ .success) ∨
    (p ≠ null ∧ (s.view.chunk (sub64 p 48)).isFree = false ∧ st = .success ∧
      s.view.Freed s'.view (sub64 p 48)) := by
  cases mmFreeGeneralMemory_frees h with
  | refused hno hst => exact Or.inl ⟨hno, rfl, hst⟩
  | @last b s₁ hp hflag hb hlast hdrop =>
    obtain ⟨hchunk, hblock⟩ := dropChunks_data _ _ _ _ _ hdrop
    rw [view_decrementCounter] at hchunk hblock
    refine Or.inr ⟨hp, hflag, rfl, ?_⟩
    rw [View.Freed, view_deleteBlockHeader, hb]
    exact ⟨hblock, Or.inl ⟨hlast, hchunk⟩⟩
  | more hp hflag hmore hview =>
    refine Or.inr ⟨hp, hflag, rfl, ?_⟩
    rw [hview]
    exact ⟨rfl, Or.inr ⟨hmore, rfl⟩⟩

/-- The headers of other chunks stay. -/
theorem View.Freed.chunk_other {v v' : View} {c x : Nat} (h : v.Freed v' c) (hx : x ≠ c) :
    v'.chunk x = v.chunk x := by
  rcases h.2 with ⟨-, hc⟩ | ⟨-, hc⟩
  · rw [hc]
  · rw [hc, upd_other hx]

/-- A flag that is set stays set.  Nothing but an allocation clears the flag. -/
theorem View.Freed.flag {v v' : View} {c x : Nat} (h : v.Freed v' c)
    (hx : (v.chunk x).isFree = true) : (v'.chunk x).isFree = true := by
  rcases h.2 with ⟨-, hc⟩ | ⟨-, hc⟩
  · rw [hc]
    exact hx
  · rw [hc]
    by_cases hxc : x = c
    · rw [hxc, upd_same]
    · rw [upd_other hxc]
      exact hx

/-! ## Runs of frees -/

/-- What every free of a live pointer keeps, a run of such frees keeps.  The property may be about
    the heap and about what is held at once. -/
theorem frees_inv {I : Sys → Prop} {s s' : Sys} (h0 : I s) {h : List Event}
    (run : Trace Call s h s') (hfrees : ∀ n p, .alloc n p ∉ h)
    (hstep : ∀ s : Sys, ∀ a ∈ s.live, ∀ fuel heap' st, I s →
      s.heap.mmFreeGeneralMemory fuel a.1 = some (heap', st) → I ⟨heap', s.live.erase a⟩) : I s' := by
  refine run.history_inv (I := fun h s => (∀ n p, .alloc n p ∉ h) → I s) (fun _ => h0) ?_ hfrees
  intro h s e s' _ ih hs hno
  have hi := ih fun n p hin => hno n p (List.mem_cons_of_mem _ hin)
  cases hs with
  | alloc => exact absurd List.mem_cons_self (hno _ _)
  | free ha hres => exact hstep _ _ ha _ _ _ hi hres

/-- **A second free is refused exactly when the first one left an allocation in the block.**  In
    every run, when `a` is freed with success and after that nothing but live pointers is freed,
    another free of `a` is refused and changes nothing if the counter of the block was above 1
    before the first one; and only then, when the requests of the run were served.  Two things make
    it hold.  The flag that the first free set stays set while nothing is allocated; and the header
    in which it stands is still one of the heap, as nobody else writes there.  The other direction
    needs that requests were served, since otherwise a chunk need not have a block of its own. -/
theorem second_free_refused {s₀ s₁ s : Sys} (h0 : Started s₀) {h₁ h₂ : List Event}
    (run₁ : Trace Call s₀ h₁ s₁) {a : Nat × Nat} (ha : a ∈ s₁.live) {fuel : Nat} {heap₂ : State}
    (hfree : s₁.heap.mmFreeGeneralMemory fuel a.1 = some (heap₂, .success))
    (run₂ : Trace Call ⟨heap₂, s₁.live.erase a⟩ h₂ s) (hfrees : ∀ n p, .alloc n p ∉ h₂) :
    (1 < (s₁.heap.blockAt (s₁.heap.allocAt (sub64 a.1 48)).header).allocCounter →
      s.heap.Refuses a.1) ∧
    ((∀ n p, .alloc n p ∈ h₁ → Served n) → s.heap.Refuses a.1 →
      1 < (s₁.heap.blockAt (s₁.heap.allocAt (sub64 a.1 48)).header).allocCounter) := by
  obtain ⟨hp, hflag, -, hfreed⟩ := (free_flag hfree).resolve_left fun h => h.2.2 rfl
  refine ⟨fun hmore => ?_, fun hserved hrefuses => ?_⟩
  · -- the flag was set, and no free clears it
    have hset : (s.heap.view.chunk (sub64 a.1 48)).isFree = true := by
      refine frees_inv (I := fun s => (s.heap.view.chunk (sub64 a.1 48)).isFree = true) ?_ run₂
        hfrees fun s a' _ fuel heap' st hset hres => ?_
      · have hc := (hfreed.2.resolve_left fun h => absurd hmore (Int.not_lt.mpr h.1)).2
        show (heap₂.view.chunk _).isFree = true
        rw [hc, upd_same]
      · rcases free_flag hres with ⟨-, rfl, -⟩ | ⟨-, -, -, hfreed'⟩
        · exact hset
        · exact hfreed'.flag hset
    intro fuel
    refine ⟨.accessDenied, ?_, by decide⟩
    rw [State.mmFreeGeneralMemory, if_neg hp]
    dsimp only
    rw [splitSafe_header, if_pos (show (s.heap.allocAt _).isFree = true from hset)]
  · by_contra hlast
    obtain ⟨B, F, hi⟩ := run_served h0 run₁ hserved
    have hlast : (s₁.heap.view.block (s₁.heap.view.chunk (sub64 a.1 48)).header).allocCounter ≤ 1 :=
      Int.not_lt.mp hlast
    -- the flag was not set, and no free of another chunk sets it
    have hdead : s.heap.view.chunk (sub64 a.1 48) = s₁.heap.view.chunk (sub64 a.1 48) := by
      have hkeep : (∀ x ∈ s.live, x ∈ s₁.live.erase a) ∧
          s.heap.view.chunk (sub64 a.1 48) = s₁.heap.view.chunk (sub64 a.1 48) := by
        refine frees_inv (I := fun s => (∀ x ∈ s.live, x ∈ s₁.live.erase a) ∧
          s.heap.view.chunk (sub64 a.1 48) = s₁.heap.view.chunk (sub64 a.1 48)) ?_ run₂ hfrees ?_
        · refine ⟨fun x hx => hx, ?_⟩
          have hc := (hfreed.2.resolve_right fun h => absurd hlast (Int.not_le.mpr h.1)).2
          exact congrFun hc _
        · rintro s a' ha' fuel heap' st ⟨hlive, hsame⟩ hres
          refine ⟨fun x hx => hlive x (List.mem_of_mem_erase hx), ?_⟩
          have hne : sub64 a.1 48 ≠ sub64 a'.1 48 := by
            have hin := hlive a' ha'
            rw [(hi.chunkOf_eq ha).1, (hi.chunkOf_eq (List.mem_of_mem_erase hin)).1]
            exact (hi.erase_ne ha hin).symm
          rcases free_flag hres with ⟨-, rfl, -⟩ | ⟨-, -, -, hfreed'⟩
          · exact hsame
          · exact (hfreed'.chunk_other hne).trans hsame
      exact hkeep.2
    obtain ⟨st, hres, hst⟩ := hrefuses 0
    rcases free_flag hres with ⟨hor, -, -⟩ | ⟨-, -, hok, -⟩
    · rcases hor with h | h
      · exact hp h
      · rw [hdead, hflag] at h
        cases h
    · exact hst hok

/-! ## Two runs -/

theorem heapWithTwo_reached : Trace Call ⟨startedHeap, []⟩ [.alloc 200 0x200100, .alloc 100 0x200060]
    ⟨heapWithTwo, [(0x200100, 200), (0x200060, 100)]⟩ :=
  (Trace.start.snoc call_heapWithOne).snoc (.alloc (by decide)
    (answersAny_pagesAt (by decide) (by decide) (by decide) (by decide)) heapWithTwo_eq)

/-- With another allocation in its block, the first pointer is not freed twice. -/
theorem second_free_refused_first : ∃ heap₂,
    heapWithTwo.mmFreeGeneralMemory 1 0x200060 = some (heap₂, .success) ∧ heap₂.Refuses 0x200060 := by
  have hres : (heapWithTwo.mmFreeGeneralMemory 1 0x200060).map Prod.snd = some .success := by decide
  obtain ⟨⟨heap₂, st⟩, hsome, hst⟩ := Option.map_eq_some_iff.mp hres
  obtain rfl : st = .success := hst
  refine ⟨heap₂, hsome, ?_⟩
  exact (second_free_refused startedHeap_started heapWithTwo_reached (a := (0x200060, 100))
    (List.mem_cons_of_mem _ List.mem_cons_self) hsome Trace.start fun _ _ => List.not_mem_nil).1
    (by decide)

/-- **The last chunk of a block is freed twice.**  With nothing else in the block, both frees of the
    pointer succeed, and the second one gives the pages back again. -/
theorem last_chunk_freed_twice : ∃ s₀ s₁ heap₂ heap₃, Started s₀ ∧
    Trace Call s₀ [.alloc 100 0x200060] s₁ ∧
    s₁.heap.mmFreeGeneralMemory 1 0x200060 = some (heap₂, .success) ∧
    heap₂.mmFreeGeneralMemory 1 0x200060 = some (heap₃, .success) ∧
    heap₃.pageLog = [.free 0x200000 2, .free 0x200000 2, .allocate 2 0x200000,
      .allocate 1 0x100000] := by
  have hres : (heapWithOne.mmFreeGeneralMemory 1 0x200060).bind (fun x =>
      (x.1.mmFreeGeneralMemory 1 0x200060).map fun y => (x.2, y.2, y.1.pageLog)) =
      some (.success, .success, [.free 0x200000 2, .free 0x200000 2, .allocate 2 0x200000,
        .allocate 1 0x100000]) := by decide
  obtain ⟨⟨heap₂, st₂⟩, hfirst, hrest⟩ := Option.bind_eq_some_iff.mp hres
  obtain ⟨⟨heap₃, st₃⟩, hsecond, he⟩ := Option.map_eq_some_iff.mp hrest
  obtain ⟨hst₂, he⟩ := Prod.mk.inj he
  obtain ⟨hst₃, hlog⟩ := Prod.mk.inj he
  obtain rfl : st₂ = .success := hst₂
  obtain rfl : st₃ = .success := hst₃
  exact ⟨_, _, heap₂, heap₃, startedHeap_started, Trace.start.snoc call_heapWithOne, hfirst, hsecond,
    hlog⟩

end Nearlands.Heap
