/-
  Requests of any size.

  `alloc.c` rounds a request up, adds the size of a header, adds a page and counts pages, all on
  `u64` and without a check.  Near `2 ^ 64` each of these wraps.  A request whose roundings wrap
  (`n + 63` reaches `2 ^ 64`) reads as a tiny one: whatever pointer it gets has too little memory
  behind it.  A request a little smaller makes a block of no pages, whose header lands in a page
  that was not handed out.  `Served` excludes the two, and then every pointer has the memory that
  was asked for (`pointer_has_memory_iff`).
-/
import Nearlands.Heap.Runs

namespace Nearlands.Heap

open Nearlands.Lib

variable {v v' : View} {B F : List Nat} {live : List (Nat × Nat)}

/-! ## The system -/

/-- The answers of the page allocator, where a request of no pages may be answered too, with a page
    that is not in use.  What it says then is still apart from everything held, and nothing more. -/
def AnswersAny (runs : List (Nat × Nat)) (pages : Nat → Nat) : Prop :=
  ∀ amount, pages amount = null ∨ Fresh runs (max amount 1) (pages amount)

/-- One call, with a request of any 64-bit size.  A step as in `Runs`, without the bound on the
    size. -/
inductive Call : Sys → Event → Sys → Prop
  | alloc {s : Sys} {fuel size addr : Nat} {pages : Nat → Nat} {heap' : State} : size < 2 ^ 64 →
      AnswersAny (held s.heap.pageLog) pages →
      s.heap.mmAllocateGeneralMemory fuel pages size = some (heap', addr) →
      Call s (.alloc size addr) ⟨heap', hold (addr, size) s.live⟩
  | free {s : Sys} {fuel : Nat} {a : Nat × Nat} {heap' : State} {st : NearStatus} : a ∈ s.live →
      s.heap.mmFreeGeneralMemory fuel a.1 = some (heap', st) →
      Call s (.free a.1) ⟨heap', s.live.erase a⟩

/-- No rounding of the request wraps, and a block for it has pages.

    The two parts fail for different sizes, both within two pages of `2 ^ 64`. -/
def Served (allocSize : Nat) : Prop := allocSize + 63 < 2 ^ 64 ∧ inPages (blockSize allocSize) ≠ 0

instance (allocSize : Nat) : Decidable (Served allocSize) := inferInstanceAs (Decidable (_ ∧ _))

/-- The answer to a request of some pages. -/
theorem AnswersAny.fresh {runs : List (Nat × Nat)} {pages : Nat → Nat} (h : AnswersAny runs pages)
    {amount : Nat} (hpages : amount ≠ 0) :
    pages amount = null ∨ Fresh runs amount (pages amount) := by
  have hanswer := h amount
  rwa [Nat.max_eq_left (Nat.pos_of_ne_zero hpages)] at hanswer

/-- A new block is none of the old ones, even if it has no pages. -/
theorem Inv.new_block (hi : Inv v B F live) {amount mem : Nat}
    (hf : Fresh (held v.log) (max amount 1) mem) : mem ∉ B := by
  intro hin
  have hok := hi.layout.block mem hin
  have hused := hok.used_le
  have hap : (runRegion (mem, max amount 1)).Apart (v.pagesOf mem) :=
    hf.apart _ (hi.runs.mem_iff.mpr (List.mem_map_of_mem hin))
  rw [hok.pages] at hap
  rw [runRegion, Region.Apart, pageSize] at hap
  dsimp only at hap
  omega

/-! ## The invariant -/

/-- A call with a request that is served keeps the invariant.  Beyond `Served` the invariant is
    lost, as a chunk is then smaller than what its client asked for. -/
theorem inv_call {s s' : Sys} {e : Event} (hi : Inv s.heap.view B F s.live) (h : Call s e s')
    (hserved : ∀ n p, e = .alloc n p → Served n) : ∃ B' F', Inv s'.heap.view B' F' s'.live := by
  cases h with
  | @alloc fuel n p pages heap' _ hans hres =>
    obtain ⟨hn, hpages⟩ := hserved n p rfl
    exact inv_allocates hi hn hpages (hans.fresh hpages)
      (hi.allocates (fun hmem => hi.new_block ((hans _).resolve_left hmem)) hres)
  | @free fuel a heap' st ha hres => exact inv_free hi ha hres

/-- The invariant along a run whose requests are all served. -/
theorem run_served {s₀ : Sys} (h0 : Started s₀) {h : List Event} {s : Sys} (run : Trace Call s₀ h s)
    (hserved : ∀ n p, .alloc n p ∈ h → Served n) : ∃ B F, Inv s.heap.view B F s.live := by
  refine run.history_inv (I := fun h s => (∀ n p, .alloc n p ∈ h → Served n) →
    ∃ B F, Inv s.heap.view B F s.live) (fun _ => inv_start h0) ?_ hserved
  intro h s e s' _ ih hs hall
  obtain ⟨B, F, hi⟩ := ih fun n p hin => hall n p (List.mem_cons_of_mem _ hin)
  exact inv_call hi hs fun n p he => hall n p (he ▸ List.mem_cons_self)

/-! ## Any request -/

/-- A new block that has room for a request whose rounding does not wrap has pages.  The rounding of
    the block's size can wrap to 0 only where the room behind its header is gone as well. -/
theorem pages_of_room {n mem : Nat} (hn : n + 63 < 2 ^ 64) (hmem : mem + 48 < 2 ^ 64)
    (hfit : splitSafe (w64 (n + 48)) ≤ ((v.create (blockSize n) mem).block mem).remaining) :
    inPages (blockSize n) ≠ 0 := by
  have hneed : splitSafe (w64 (n + 48)) = (n + 48 + 15) / 16 * 16 := by
    rw [w64_of_lt (by omega), splitSafe_of_lt (by omega)]
  have hlt : blockSize n < 2 ^ 64 := splitSafe_lt _
  obtain ⟨hblock, -, -, -⟩ := create_values v (blockSize n) mem ⟨splitSafe_mod _, hlt⟩ hmem
  rw [hblock] at hfit
  rw [BlockData.remaining] at hfit
  dsimp only at hfit
  rw [sub64_of_le (Nat.zero_le _) (sub64_lt _ _), Nat.sub_zero] at hfit
  intro hzero
  have hzero : (blockSize n + 0xFFF) % 2 ^ 64 / 0x1000 = 0 := hzero
  -- no pages: the size is 0 or wraps when it is rounded up, and either way reads as negative
  have hneg : 2 ^ 63 ≤ sub64 (blockSize n) 48 := by
    rw [sub64]
    omega
  rw [if_neg (by omega)] at hfit
  omega

/-- The run of pages around an allocation of the heap.  The bytes end in the run as numbers, not
    modulo `2 ^ 64`. -/
theorem Inv.run_of (hi : Inv v B F live) {a : Nat × Nat} (ha : a ∈ live) :
    ∃ r ∈ held v.log, (runRegion r).Has (chunkOf a) ∧ a.1 + a.2 ≤ r.1 + r.2 * pageSize := by
  have hok := hi.live_chunk ha
  have hin := hok.inPages hi.layout
  obtain ⟨hptr, -, hend⟩ := hi.payload_within ha
  refine ⟨_, hi.runs.mem_iff.mpr (List.mem_map_of_mem hok.header), hin.has ?_, ?_⟩
  · rw [Region.Has, View.extent]
    dsimp only
    omega
  · have hle := hin.2
    rw [View.extent, View.pagesOf, runRegion] at hle
    rw [payload] at hend
    dsimp only at hle hend
    omega

/-- Runs end below `2 ^ 64`. -/
theorem Inv.run_lt (hi : Inv v B F live) {r : Nat × Nat} (hr : r ∈ held v.log) :
    r.1 + r.2 * pageSize < 2 ^ 64 := by
  obtain ⟨b, hb, rfl⟩ := List.mem_map.mp (hi.runs.mem_iff.mp hr)
  have hok := hi.layout.block b hb
  rw [hok.runOf]
  exact hok.fits

/-- A pointer comes from above the first headers, and the runs held end below `2 ^ 64`.  This is for
    any request, wrapped or not: so a huge one cannot have its memory there. -/
theorem Inv.pointer_bounds (hi : Inv v B F live) {n mem p : Nat}
    (hf : mem = null ∨ Fresh (held v.log) (max (inPages (blockSize n)) 1) mem)
    (h : Allocates v F B n mem v' p) (hp : p ≠ null) :
    96 ≤ p ∧ ∀ r ∈ held v'.log, r.1 + r.2 * pageSize < 2 ^ 64 := by
  cases h with
  | taken ht =>
    have hlog : v'.log = v.log := by cases ht <;> rfl
    exact ⟨hi.taken_ge ht, fun r hr => hi.run_lt (hlog ▸ hr)⟩
  | refused => exact absurd rfl hp
  | useless => exact absurd rfl hp
  | grown hmem hfit =>
    have hfits := (hf.resolve_left hmem).fits
    have hle := Nat.mul_le_mul_right 0x1000 (Nat.le_max_left (inPages (blockSize n)) 1)
    have hend := Nat.lt_of_le_of_lt (Nat.add_le_add_left hle mem) hfits
    obtain ⟨hblock, -, -, -⟩ := create_values v (blockSize n) mem
      ⟨splitSafe_mod _, splitSafe_lt _⟩ (by omega)
    have htop : (v.create (blockSize n) mem).topOf mem = mem + 48 := by
      rw [View.topOf]
      rw [hblock]
      exact w64_of_lt (show mem + 48 + 0 < 2 ^ 64 by omega)
    have hlog : ((v.create (blockSize n) mem).carve mem (splitSafe (w64 (n + 48)))).log =
        .allocate (inPages (blockSize n)) mem :: v.log := rfl
    refine ⟨by rw [htop, w64_of_lt (by omega)]; omega, fun r hr => ?_⟩
    rw [hlog, held_allocate hmem] at hr
    rcases List.mem_cons.mp hr with he | hr
    · rw [he]
      exact hend
    · exact hi.run_lt hr

/-- **A pointer has the memory that was asked for, exactly when the roundings of the request do not
    wrap.**  In every run whose requests were all served, and for any request after it that gets a
    pointer: the pointer with all its bytes lies in the run of pages of its block if and only if `n
    + 63 < 2 ^ 64`.  From right to left it is the invariant.  From left to right a request with `n +
    63` at `2 ^ 64` or more would end beyond every run, whatever pointer it got. -/
theorem pointer_has_memory_iff {s₀ : Sys} (h0 : Started s₀) {h : List Event} {s s' : Sys}
    (run : Trace Call s₀ h s) (hserved : ∀ m q, .alloc m q ∈ h → Served m) {n p : Nat}
    (hs : Call s (.alloc n p) s') (hp : p ≠ null) :
    (∃ r ∈ held s'.heap.pageLog, (runRegion r).Has (chunkOf (p, n)) ∧
      p + n ≤ r.1 + r.2 * pageSize) ↔ n + 63 < 2 ^ 64 := by
  obtain ⟨B, F, hi⟩ := run_served h0 run hserved
  cases hs with
  | @alloc fuel _ _ pages heap' hlt hans hres =>
    have hf := hans (inPages (blockSize n))
    have halloc := hi.allocates (fun hmem => hi.new_block (hf.resolve_left hmem)) hres
    refine ⟨fun ⟨r, hr, _, hend⟩ => ?_, fun hn => ?_⟩
    · obtain ⟨hge, hruns⟩ := hi.pointer_bounds hf halloc hp
      have := hruns r hr
      omega
    · have hpages : ∀ {v' p}, Allocates s.heap.view F B n (pages (inPages (blockSize n))) v' p →
          p ≠ null → (∃ F', Inv v' B F' ((p, n) :: s.live)) ∨ inPages (blockSize n) ≠ 0 := by
        intro v' p h hp
        cases h with
        | taken ht => exact Or.inl (inv_takes hi hn ht).2
        | refused => exact absurd rfl hp
        | useless => exact absurd rfl hp
        | grown hmem hfit =>
          have hfits := (hf.resolve_left hmem).fits
          exact Or.inr (pages_of_room hn (by omega) hfit)
      rcases hpages halloc hp with ⟨F', hi'⟩ | hpages
      · exact hi'.run_of List.mem_cons_self
      · obtain ⟨B', F', hi'⟩ := inv_allocates hi hn hpages (hans.fresh hpages) halloc
        rw [hold_some hp] at hi'
        exact hi'.run_of List.mem_cons_self

theorem answersAny_pagesAt {runs : List (Nat × Nat)} {addr : Nat} (hal : addr % 0x1000 = 0)
    (hne : addr ≠ null) (hfits : addr + 0x10000 < 2 ^ 64)
    (hap : ∀ r ∈ runs, (Region.mk addr 0x10000).Apart (runRegion r)) :
    AnswersAny runs (pagesAt addr) := by
  intro amount
  rcases Nat.eq_zero_or_pos amount with rfl | hpos
  · refine Or.inr ⟨hal, hne, ?_, fun r hr => (hap r hr).within ?_ ⟨Nat.le_refl _, Nat.le_refl _⟩⟩
    · show addr + 1 * 0x1000 < 2 ^ 64
      omega
    · show addr ≤ addr ∧ addr + 1 * 0x1000 ≤ addr + 0x10000
      omega
  · rw [Nat.max_eq_left hpos]
    exact answers_pagesAt hal hne hfits hap amount

/-- The first request of 100 bytes, as a call. -/
theorem call_heapWithOne : Call ⟨startedHeap, []⟩ (.alloc 100 0x200060)
    ⟨heapWithOne, [(0x200060, 100)]⟩ :=
  .alloc (by decide) (answersAny_pagesAt (by decide) (by decide) (by decide) (by decide))
    heapWithOne_eq

/-- It gets all its memory. -/
theorem pointer_has_memory_first : ∃ r ∈ held heapWithOne.pageLog,
    (runRegion r).Has (chunkOf (0x200060, 100)) ∧ 0x200060 + 100 ≤ r.1 + r.2 * pageSize :=
  (pointer_has_memory_iff startedHeap_started Trace.start (fun _ _ => nofun) call_heapWithOne
    (by decide)).mpr (by decide)

/-- **A request of `2 ^ 64 - 1` bytes gets a pointer.**  After a first allocation of 100 bytes it
    reads as a request of no bytes, and no run held reaches as far as the memory asked for. -/
theorem huge_request_gets_pointer : ∃ s₀ s s' p, Started s₀ ∧ Trace Call s₀ [.alloc 100 0x200060] s ∧
    Call s (.alloc (2 ^ 64 - 1) p) s' ∧ p ≠ null ∧
    ∀ r ∈ held s'.heap.pageLog, r.1 + r.2 * pageSize < p + (2 ^ 64 - 1) := by
  have hres : (heapWithOne.mmAllocateGeneralMemory 5 (pagesAt 0x300000) (2 ^ 64 - 1)).map
      (fun x => (held x.1.pageLog, x.2)) = some ([(0x200000, 2), (0x100000, 1)], 0x200100) := by
    decide
  obtain ⟨⟨heap', addr⟩, hsome, he⟩ := Option.map_eq_some_iff.mp hres
  obtain ⟨hheld, haddr⟩ := Prod.mk.inj he
  have haddr : addr = 0x200100 := haddr
  subst haddr
  refine ⟨_, _, ⟨heap', _⟩, 0x200100, startedHeap_started, Trace.start.snoc call_heapWithOne,
    .alloc (by decide)
      (answersAny_pagesAt (by decide) (by decide) (by decide) (by decide)) hsome, by decide, ?_⟩
  show ∀ r ∈ held heap'.pageLog, r.1 + r.2 * pageSize < 0x200100 + (2 ^ 64 - 1)
  rw [show held heap'.pageLog = [(0x200000, 2), (0x100000, 1)] from hheld]
  decide

end Nearlands.Heap
