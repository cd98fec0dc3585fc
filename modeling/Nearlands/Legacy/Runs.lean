/-
  Runs of the legacy heap.

  A `Client` is the heap and the chunks that were handed out and are still in use.  It allocates,
  frees what it has, and writes what it likes where it may: in its own chunks, and in memory that is
  not the heap's.  A page, once answered by the page allocator, stays with the heap.

  The main result is `live_separate`: in a run whose calls all meet their condition (`Call.Meets`)
  the chunks in use are apart, cover no header, and lie in pages that the heap was given.
-/
import Nearlands.Legacy.Calls
import Nearlands.Lib.Trace

namespace Nearlands.Legacy

open Nearlands.Lib

/-- The heap, and the chunks in use.  The heap does not know which chunks are in use: a chunk that
    was handed out is nowhere in its list. -/
structure Client where
  heap : State
  live : List Chunk

/-- What happens in a run.  The last one is not a call of the heap, but what a client does to its
    memory between two calls. -/
inductive Call
  | alloc (n : Nat) (pages : Nat → Nat)
  | free (k : Chunk)
  | use (mem : Bytes)

/-- The start: `MmInitGeneralAllocator` was given a page. -/
def Client.boot (mem : Bytes) (page : Nat) : Client :=
  ⟨((State.zero mem).mmInitGeneralAllocator page).1, []⟩

/-- The memory `mem` may come from the memory of the heap without a call: it is the same in the
    pages of the heap, the chunks in use apart.  So a client may write its chunks and everything
    outside the heap, and must leave headers, free chunks and spare memory alone. -/
def Client.Uses (c : Client) (mem : Bytes) : Prop :=
  ∀ r ∈ c.heap.runs, ∀ a, r.Has a → (∀ k ∈ c.live, ¬ k.body.Has a) → mem a = c.heap.mem a

/-- What a call leaves, if it comes back.  A chunk that the heap did not take stays in use.  A free
    of a chunk whose header is not found keeps it in use, as the heap does not take it back. -/
def Client.run (c : Client) : Call → Option Client
  | .alloc n pages =>
    (c.heap.mmAllocateGeneralMemory pages n).map fun r =>
      ⟨r.1, ⟨r.1.taken, r.2, n⟩ :: c.live⟩
  | .free k =>
    (c.heap.mmFreeGeneralMemory k.base).map fun r =>
      ⟨r.1, if r.2.nrSuccess then c.live.erase k else c.live⟩
  | .use mem => some ⟨{ c.heap with mem := mem }, c.live⟩

/-- The calls of a run.  Every request fits the header it is given, and the page allocator answers
    it, if it is asked, with a new run; only chunks in use are freed.  This is what the heap may
    expect of its clients and of the page allocator. -/
def Call.Allowed (c c' : Client) : Call → Prop
  | .alloc n _ => n + sizeofFreeList < 65536 ∧ FreshLog c'.heap.pageLog
  | .free k => k ∈ c.live
  | .use mem => c.Uses mem

/-- One step. -/
def Step (c : Client) (e : Call) (c' : Client) : Prop := e.Allowed c c' ∧ c.run e = some c'

/-- The condition of a call.  This is what the heap should see to, and does not. -/
def Call.Meets (c : Client) : Call → Prop
  | .alloc n _ => c.heap.Roomy n
  | .free k => c.heap.Found k
  | .use _ => True

/-- The chunks in use are apart, cover no header, and lie in pages of the heap.  All three are about
    the memory of chunks; headers are kept apart from each other by the invariant. -/
structure Client.Separate (c : Client) : Prop where
  apart : c.live.Pairwise fun k k' => k.body.Apart k'.body
  headers : ∀ k ∈ c.live, ∀ x ∈ c.heap.headers, k.body.Apart (freeList.region x)
  pages : ∀ k ∈ c.live, ∃ run ∈ c.heap.runs, k.body.Within run

/-! ## The invariant in a run -/

/-- At the start the page is spare.  All of the page is room, up to the limit at its end. -/
theorem boot_ready {mem : Bytes} {page : Nat} (hpage : Fresh [] 1 page) :
    Ready (Client.boot mem page).heap [] [] := by
  have hfits : page + 0x1000 < 2 ^ 64 := hpage.fits
  have hboot : (Client.boot mem page).heap =
      { State.zero mem with
        allocBase := page
        allocCur := page
        allocLimit := page + 0x1000
        pageLog := [.allocate 1 page] } := by
    rw [Client.boot, State.mmInitGeneralAllocator]
    dsimp only
    rw [if_neg hpage.nonnull, show w64 (page + pageSize) = page + 0x1000 from w64_of_lt hfits]
    rfl
  have hruns : (held [.allocate 1 page]).map runRegion = [⟨page, 0x1000⟩] := by
    rw [held_allocate hpage.nonnull, held_nil, List.map_singleton, runRegion, Nat.one_mul]
  rw [hboot]
  refine ⟨⟨?_, ?_, ?_, ?_, ⟨?_, ?_⟩, ?_, ⟨hpage, trivial⟩⟩, hfits, .inl ⟨?_, Nat.le_refl _⟩⟩
  · exact DList.is_nil _ _
  · exact fun k hk => absurd hk List.not_mem_nil
  · exact fun k hk => absurd hk List.not_mem_nil
  · exact fun k hk => absurd hk List.not_mem_nil
  · exact List.pairwise_singleton _ _
  · intro q hq
    rw [List.mem_singleton.mp hq]
    refine ⟨⟨page, 0x1000⟩, ?_, Nat.le_refl _, ?_⟩
    · show _ ∈ (held [.allocate 1 page]).map runRegion
      rw [hruns]
      exact List.mem_cons_self
    show page + (page + 0x1000 + 2 ^ 16 - page) % 2 ^ 16 ≤ page + 0x1000
    omega
  · exact fun x hx => absurd hx List.not_mem_nil
  · exact Nat.le_add_right _ _

/-- **A step.** One case for each kind of call. -/
theorem step_ready {c c' : Client} {e : Call} {frees : List Chunk} (h : Ready c.heap frees c.live)
    (hmeets : e.Meets c) (hstep : Step c e c') : ∃ frees', Ready c'.heap frees' c'.live := by
  obtain ⟨hallowed, hrun⟩ := hstep
  cases e with
  | alloc n pages =>
    obtain ⟨⟨s, p⟩, hcall, rfl⟩ := Option.map_eq_some_iff.mp hrun
    exact alloc_ready h hallowed.1 hmeets hcall hallowed.2
  | free k =>
    obtain ⟨⟨s, status⟩, hcall, rfl⟩ := Option.map_eq_some_iff.mp hrun
    exact free_ready h hallowed hmeets hcall
  | use mem =>
    obtain rfl := Option.some.inj hrun
    refine ⟨frees, h.kept ⟨rfl, rfl, rfl⟩ (h.inv.frame rfl rfl rfl rfl fun k hk f => ?_)⟩
    obtain ⟨run, hrun, hwithin⟩ := h.inv.parcels.within _ (Inv.head_mem hk)
    refine Layout.get_congr (Nat.le_of_lt (h.inv.fits (Inv.head_mem hk)).2) (fun a ha => ?_) f
    exact hallowed run hrun a (hwithin.has ha) fun k' hk' =>
      (h.inv.head_apart hk (List.mem_append_right frees hk')).not_has ha

/-- The invariant gives what is wanted. -/
theorem Ready.separate {c : Client} {frees : List Chunk} (h : Ready c.heap frees c.live) :
    c.Separate where
  apart := by
    refine (List.pairwise_append.mp h.inv.pairwise).2.1.imp fun hparts => ?_
    exact hparts _ (List.mem_cons_of_mem _ List.mem_cons_self) _
      (List.mem_cons_of_mem _ List.mem_cons_self)
  headers := by
    intro k hk x hx
    obtain ⟨k', hk', rfl⟩ := h.inv.headers x hx
    exact (h.inv.head_apart hk' (List.mem_append_right frees hk)).symm
  pages := fun k hk => h.inv.parcels.within _ (Inv.body_mem (List.mem_append_right frees hk))

/-- **No overlap.**  In a run whose calls all meet their condition the chunks in use are apart,
    cover no header, and lie in pages of the heap.  The condition is on the state before each call.
    It is needed: `tight_split_covers` is a run without it in which a header is written into a chunk
    that is in use. -/
theorem live_separate {mem : Bytes} {page : Nat} (hpage : Fresh [] 1 page) {es : List Call}
    {c : Client} (h : Trace (fun c e c' => e.Meets c ∧ Step c e c') (Client.boot mem page) es c) :
    c.Separate := by
  have hready : ∃ frees, Ready c.heap frees c.live :=
    Trace.inv (I := fun c => ∃ frees, Ready c.heap frees c.live) ⟨[], boot_ready hpage⟩
      (fun _ _ _ ⟨_, hr⟩ hs => step_ready hr hs.1 hs.2) h
  obtain ⟨frees, hready⟩ := hready
  exact hready.separate

/-- A list without chunks serves no request. -/
theorem roomy_of_empty {s : State} {n : Nat} (hhead : s.head = null)
    (hfit : s.allocCur + (n + sizeofFreeList) < 2 ^ 64) : s.Roomy n where
  chunk := by
    intro l x r hl _ _
    have hlast : (l ++ x :: r).headD 0 = 0 := hl.head.symm.trans hhead
    have hmem : (l ++ x :: r).headD 0 ∈ l ++ x :: r := by
      cases l <;> exact List.mem_cons_self
    exact absurd hlast (hl.nonnull _ hmem)
  fresh := fun _ _ _ _ => hfit

/-- The first chunk of the list serves a request for its size, or one that leaves a header. -/
theorem roomy_of_first {s : State} {n x : Nat} (hhead : s.head = x) (h0 : x ≠ null)
    (hge : n + sizeofFreeList ≤ s.field x .size)
    (hroom : s.field x .size = n + sizeofFreeList ∨
      n + sizeofFreeList + sizeofFreeList ≤ s.field x .size) : s.Roomy n where
  chunk := by
    intro l y r hl hpre _
    have hfirst : (l ++ y :: r).headD 0 = x := hl.head.symm.trans hhead
    cases l with
    | nil =>
      obtain rfl : y = x := hfirst
      exact hroom
    | cons z l =>
      obtain rfl : z = x := hfirst
      exact absurd (hpre z List.mem_cons_self) (Nat.not_lt.mpr hge)
  fresh := by
    intro xs hl hall _
    have hfirst : xs.headD 0 = x := hl.head.symm.trans hhead
    have hmem : x ∈ xs := hfirst ▸ DList.headD_mem (hfirst ▸ h0)
    exact absurd (hall x hmem) (Nat.not_lt.mpr hge)

/-- A page to begin with. -/
theorem first_page : Fresh [] 1 0x1000 :=
  ⟨by decide, by decide, by decide, fun _ h => absurd h List.not_mem_nil⟩

/-- A chunk of 100 bytes is freed, and 20 bytes are taken from its front. -/
theorem split_separate :
    ∃ c, (((Client.boot (fun _ => 0) 0x1000).run (.alloc 100 fun _ => null)).bind fun c =>
        (c.run (.free ⟨0x1000, 0x1027, 100⟩)).bind fun c => c.run (.alloc 20 fun _ => null)) =
          some c ∧ c.Separate := by
  have h1 : ((Client.boot (fun _ => 0) 0x1000).run (.alloc 100 fun _ => null)).map
      (fun c => (c.heap.pageLog, c.live)) =
        some ([.allocate 1 0x1000], [⟨0x1000, 0x1027, 100⟩]) := by decide +kernel
  have h2 : (((Client.boot (fun _ => 0) 0x1000).run (.alloc 100 fun _ => null)).bind fun c =>
      c.run (.free ⟨0x1000, 0x1027, 100⟩)).map (fun c => (c.heap.head, c.heap.field 0x1000 .size)) =
        some (0x1000, 139) := by decide +kernel
  have h3 : (((Client.boot (fun _ => 0) 0x1000).run (.alloc 100 fun _ => null)).bind fun c =>
      (c.run (.free ⟨0x1000, 0x1027, 100⟩)).bind fun c => c.run (.alloc 20 fun _ => null)).map
        (fun c => c.heap.pageLog) = some [.allocate 1 0x1000] := by decide +kernel
  obtain ⟨c1, hc1, hv1⟩ := Option.map_eq_some_iff.mp h1
  rw [hc1, Option.bind_some] at h2 h3
  obtain ⟨c2, hc2, hv2⟩ := Option.map_eq_some_iff.mp h2
  rw [hc2, Option.bind_some] at h3
  obtain ⟨c3, hc3, hv3⟩ := Option.map_eq_some_iff.mp h3
  obtain ⟨hlog1, hlive1⟩ := Prod.mk.inj hv1
  obtain ⟨hhead, hsize⟩ := Prod.mk.inj hv2
  have hlog : FreshLog [.allocate 1 0x1000] := ⟨first_page, trivial⟩
  have s1 : Step (Client.boot (fun _ => 0) 0x1000) (.alloc 100 fun _ => null) c1 :=
    ⟨⟨by decide, hlog1 ▸ hlog⟩, hc1⟩
  have hmem : ⟨0x1000, 0x1027, 100⟩ ∈ c1.live := hlive1 ▸ List.mem_cons_self
  have s2 : Step c1 (.free ⟨0x1000, 0x1027, 100⟩) c2 := ⟨hmem, hc2⟩
  have s3 : Step c2 (.alloc 20 fun _ => null) c3 := ⟨⟨by decide, hv3 ▸ hlog⟩, hc3⟩
  have m1 : (Call.alloc 100 fun _ => null).Meets (Client.boot (fun _ => 0) 0x1000) :=
    roomy_of_empty (by decide +kernel) (by decide +kernel)
  have m2 : (Call.free ⟨0x1000, 0x1027, 100⟩).Meets c1 := .inl rfl
  have m3 : (Call.alloc 20 fun _ => null).Meets c2 :=
    roomy_of_first hhead (by decide) (by rw [hsize]; decide) (by rw [hsize]; decide)
  refine ⟨c3, ?_, live_separate first_page (((Trace.start.snoc ⟨m1, s1⟩).snoc
    ⟨m2, s2⟩).snoc ⟨m3, s3⟩)⟩
  rw [hc1, Option.bind_some, hc2, Option.bind_some, hc3]

/-- Two chunks of 100 and of 50 bytes are handed out, the first is freed, and 99 bytes are taken:
    the header goes where the 100 bytes were, and the last 38 bytes behind them. -/
theorem tight_split_covers :
    ¬ ∀ mem page, Fresh [] 1 page → ∀ es c, Trace Step (Client.boot mem page) es c →
      c.Separate := by
  intro hall
  have h1 : ((Client.boot (fun _ => 0) 0x1000).run (.alloc 100 fun _ => null)).map
      (fun c => c.heap.pageLog) = some [.allocate 1 0x1000] := by decide +kernel
  have h2 : (((Client.boot (fun _ => 0) 0x1000).run (.alloc 100 fun _ => null)).bind fun c =>
      c.run (.alloc 50 fun _ => null)).map (fun c => (c.heap.pageLog, c.live)) =
        some ([.allocate 1 0x1000], [⟨0x108B, 0x10B2, 50⟩, ⟨0x1000, 0x1027, 100⟩]) := by
    decide +kernel
  have h4 : (((Client.boot (fun _ => 0) 0x1000).run (.alloc 100 fun _ => null)).bind fun c =>
      (c.run (.alloc 50 fun _ => null)).bind fun c =>
        (c.run (.free ⟨0x1000, 0x1027, 100⟩)).bind fun c => c.run (.alloc 99 fun _ => null)).map
          (fun c => (c.heap.pageLog, c.heap.headers, c.live)) =
        some ([.allocate 1 0x1000], [0x1027, 0x108B, 0x1000],
          [⟨0x1027, 0x104E, 99⟩, ⟨0x108B, 0x10B2, 50⟩]) := by
    decide +kernel
  obtain ⟨c1, hc1, hlog1⟩ := Option.map_eq_some_iff.mp h1
  rw [hc1, Option.bind_some] at h2 h4
  obtain ⟨c2, hc2, hv2⟩ := Option.map_eq_some_iff.mp h2
  rw [hc2, Option.bind_some] at h4
  obtain ⟨c4, hc4, hv4⟩ := Option.map_eq_some_iff.mp h4
  obtain ⟨c3, hc3, hc4⟩ := Option.bind_eq_some_iff.mp hc4
  obtain ⟨hlog2, hlive2⟩ := Prod.mk.inj hv2
  obtain ⟨hlog4, hv4⟩ := Prod.mk.inj hv4
  obtain ⟨hheaders, hlive4⟩ := Prod.mk.inj hv4
  have hlog : FreshLog [.allocate 1 0x1000] := ⟨first_page, trivial⟩
  have s1 : Step (Client.boot (fun _ => 0) 0x1000) (.alloc 100 fun _ => null) c1 :=
    ⟨⟨by decide, hlog1 ▸ hlog⟩, hc1⟩
  have s2 : Step c1 (.alloc 50 fun _ => null) c2 := ⟨⟨by decide, hlog2 ▸ hlog⟩, hc2⟩
  have hmem : ⟨0x1000, 0x1027, 100⟩ ∈ c2.live :=
    hlive2 ▸ List.mem_cons_of_mem _ List.mem_cons_self
  have s3 : Step c2 (.free ⟨0x1000, 0x1027, 100⟩) c3 := ⟨hmem, hc3⟩
  have s4 : Step c3 (.alloc 99 fun _ => null) c4 := ⟨⟨by decide, hlog4 ▸ hlog⟩, hc4⟩
  have hsep := hall _ _ first_page _ _ ((((Trace.start.snoc s1).snoc s2).snoc s3).snoc s4)
  -- the second header is at `0x108B`, and the 99 bytes are those from `0x104E` to `0x10B0`
  have hapart := hsep.headers ⟨0x1027, 0x104E, 99⟩ (hlive4 ▸ List.mem_cons_self) 0x108B
    (hheaders ▸ List.mem_cons_of_mem _ List.mem_cons_self)
  exact absurd hapart (by decide)

end Nearlands.Legacy
