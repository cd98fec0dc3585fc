/-
  Calls of the legacy heap.

  `Ready` is the invariant between calls: what lies from `allocCur` up to the limit is spare.  Every
  branch of an allocation keeps it, as long as the chunk that is taken is large enough for what the
  branch does with it (`State.Roomy`).  A free keeps it when the header it finds is that of the
  chunk, or when it finds none (`State.Found`).
-/
import Nearlands.Legacy.Inv

namespace Nearlands.Legacy

open Nearlands.Lib

variable {s s' : State} {spare : List Region} {frees live l r : List Chunk} {k k' : Chunk}

/-! ## The branches of an allocation -/

/-- A chunk of the size is handed out. -/
theorem takeWhole_inv (h : Inv s spare (l ++ k :: r) live) :
    Inv (s.takeWhole k.header).1 spare (l ++ r) (k :: live) ∧
      (s.takeWhole k.header).2 = k.base := by
  have hmark := h.unlink.mark (k := k) List.mem_cons_self 0
  rw [State.takeWhole]
  generalize (s.removeFromFreeList k.header).setField k.header .isFree 0 = t at hmark ⊢
  exact ⟨hmark.statics _ _ _ _ _, (hmark.labels k (List.mem_append_right _ List.mem_cons_self)).address⟩

/-- The front of a larger chunk is handed out, when there is room for a header in the rest.  The
    rest is smaller by header and chunk, and keeps its header where it was. -/
theorem takeFront_inv (h : Inv s spare (l ++ k :: r) live) {n : Nat}
    (hn : n + sizeofFreeList ≤ k.len) :
    Inv (s.takeFront k.header n (n + sizeofFreeList)).1 spare
        (l ++ k.cut (n + sizeofFreeList) :: r) (⟨k.base, k.base + sizeofFreeList, n⟩ :: live) ∧
      (s.takeFront k.header n (n + sizeofFreeList)).2 = k.base + sizeofFreeList := by
  have hk : k ∈ (l ++ k :: r) ++ live := (Inv.front_perm l r live k).mem_iff.mpr List.mem_cons_self
  have hkh := Inv.mem_heads hk
  have hend : k.base + k.len < 2 ^ 64 := (h.fits (Inv.body_mem hk)).2
  have hsmall := h.small k hk
  obtain ⟨-, haddress, hsize⟩ := h.labels k hk
  have hrest : sub64 (k.len + sizeofFreeList) (n + sizeofFreeList) =
      k.len - (n + sizeofFreeList) + sizeofFreeList := by
    rw [sub64]
    omega
  have hplace := (h.shrink hn).place (m := 0) (Nat.le_refl _) (by omega) false
    (Nat.mod_eq_of_lt (by omega)) n
  rw [State.takeFront]
  dsimp only
  rw [State.field_other h.heads hkh hkh s _ (show Field.address ≠ .size by decide), haddress, hsize,
    hrest, w64_of_lt (by omega), w64_of_lt (by omega)]
  exact ⟨hplace.drop.statics _ _ _ _ _, rfl⟩

/-- A header carved is a header made at `allocCur`. -/
theorem carveHeader_eq (s : State) (isFree : Bool) (totalSize memSize : Nat) :
    s.carveHeader isFree totalSize memSize =
      { (s.clearHeader s.allocCur).initFreeList s.allocCur isFree totalSize memSize
          (w64 (s.allocCur + sizeofFreeList)) with
        allocCur := w64 (s.allocCur + sizeofFreeList) } := by
  simp only [State.carveHeader, State.initFreeList, State.setField, State.clearHeader]

/-- Carving asks for no pages and leaves the limit. -/
theorem carveHeader_kept (s : State) (isFree : Bool) (totalSize memSize : Nat) :
    (s.carveHeader isFree totalSize memSize).pageLog = s.pageLog ∧
      (s.carveHeader isFree totalSize memSize).allocLimit = s.allocLimit := by
  simp only [State.carveHeader, State.initFreeList, State.setField, State.clearHeader, and_self]

/-- Memory is carved from a spare region at `allocCur`.  The size of the header is what its 16 bits
    say, so the chunk may be as large as that and no larger. -/
theorem carveHeader_inv {n m size : Nat} (h : Inv s (⟨s.allocCur, size⟩ :: spare) frees live)
    (hsize : n + sizeofFreeList + m ≤ size) (hsmall : n + sizeofFreeList < 2 ^ 16) (isFree : Bool)
    {totalSize : Nat} (htotal : totalSize % 2 ^ 16 = n + sizeofFreeList) (memSize : Nat) :
    Inv (s.carveHeader isFree totalSize memSize) (⟨s.allocCur + (n + sizeofFreeList), m⟩ :: spare)
        frees (⟨s.allocCur, s.allocCur + sizeofFreeList, n⟩ :: live) ∧
      (s.carveHeader isFree totalSize memSize).allocCur = s.allocCur + sizeofFreeList := by
  obtain ⟨-, hend⟩ := h.fits (List.mem_append_left _ List.mem_cons_self)
  have hplace := h.place hsize hsmall isFree htotal memSize
  dsimp only at hend
  rw [carveHeader_eq, w64_of_lt (by omega)]
  exact ⟨hplace.statics _ _ _ _ _, rfl⟩

/-- A new chunk is handed out. -/
theorem carve_inv {n m size : Nat} (h : Inv s (⟨s.allocCur, size⟩ :: spare) frees live)
    (hsize : n + sizeofFreeList + m ≤ size) (hsmall : n + sizeofFreeList < 2 ^ 16) :
    Inv (s.carve n (n + sizeofFreeList)).1 (⟨s.allocCur + (n + sizeofFreeList), m⟩ :: spare) frees
        (⟨s.allocCur, s.allocCur + sizeofFreeList, n⟩ :: live) ∧
      (s.carve n (n + sizeofFreeList)).2 = s.allocCur + sizeofFreeList ∧
      (s.carve n (n + sizeofFreeList)).1.allocCur = s.allocCur + (n + sizeofFreeList) := by
  obtain ⟨-, hend⟩ := h.fits (List.mem_append_left _ List.mem_cons_self)
  obtain ⟨hinv, hcur⟩ := carveHeader_inv h hsize hsmall false (Nat.mod_eq_of_lt hsmall) n
  dsimp only at hend
  rw [State.carve]
  dsimp only
  refine ⟨hinv.statics _ _ _ _ _, hcur, ?_⟩
  rw [hcur, w64_of_lt (by omega)]
  omega

/-! ## Between calls -/

/-- What lies from `allocCur` on and is not used.  Behind the limit it is what a header of 16 bits
    says: as much as is left up to `0x10000` bytes behind the limit.  Carving beyond the limit is
    possible, since the amount up to it is taken in unsigned numbers: a header says what is left of
    that in its 16 bits. -/
def State.room (s : State) : Region :=
  ⟨s.allocCur, (s.allocLimit + 2 ^ 16 - s.allocCur) % 2 ^ 16⟩

/-- It is what 16 bits can say. -/
theorem room_lt (s : State) : s.room.size < 2 ^ 16 := Nat.mod_lt _ (by decide)

/-- The invariant between calls.  The third field is why the room makes sense: `allocCur` is at most
    a page before the limit, or less than `0xF000` bytes behind it. -/
structure Ready (s : State) (frees live : List Chunk) : Prop where
  inv : Inv s [s.room] frees live
  limit : s.allocLimit < 2 ^ 64
  near : s.allocCur ≤ s.allocLimit ∧ s.allocLimit ≤ s.allocCur + 0x1000 ∨
    s.allocLimit ≤ s.allocCur ∧ s.allocCur < s.allocLimit + 0xF000

/-- The room is the amount up to the limit, as a header says it. -/
theorem Ready.amount (h : Ready s frees live) :
    sub64 s.allocLimit s.allocCur % 2 ^ 16 = s.room.size ∧
      (sizeofFreeList ≤ sub64 s.allocLimit s.allocCur → sizeofFreeList ≤ s.room.size) := by
  obtain ⟨-, hend⟩ := h.inv.fits (List.mem_append_left _ List.mem_cons_self)
  have hlimit := h.limit
  have hnear := h.near
  have hheader : sizeofFreeList = 39 := rfl
  rw [State.room] at hend ⊢
  rw [sub64]
  dsimp only at hend ⊢
  omega

/-- The leftover joins the list, or is lost.  It is lost when it is smaller than a header, and then
    no one will use it again. -/
theorem freeLeftover_inv (h : Ready s frees live) :
    ∃ frees', Inv s.freeLeftover [] frees' live ∧ s.freeLeftover.pageLog = s.pageLog := by
  obtain ⟨hamount, hge⟩ := h.amount
  have hlt := room_lt s
  have hroom := h.inv
  obtain ⟨size, hsize⟩ : ∃ size, s.room = ⟨s.allocCur, size⟩ := ⟨_, rfl⟩
  rw [hsize] at hamount hge hlt hroom
  rw [State.freeLeftover]
  dsimp only
  split
  · rename_i hleft
    obtain ⟨n, rfl⟩ := Nat.exists_eq_add_of_le' (hge hleft)
    obtain ⟨hinv, hcur⟩ := carveHeader_inv (m := 0) hroom (Nat.le_refl _) hlt true hamount
      (sub64 (sub64 s.allocLimit s.allocCur) sizeofFreeList)
    obtain ⟨hlog, -⟩ := carveHeader_kept s true (sub64 s.allocLimit s.allocCur)
      (sub64 (sub64 s.allocLimit s.allocCur) sizeofFreeList)
    generalize s.carveHeader true (sub64 s.allocLimit s.allocCur)
      (sub64 (sub64 s.allocLimit s.allocCur) sizeofFreeList) = t at hinv hcur hlog ⊢
    have hgive := hinv.give List.mem_cons_self
    have hfree := hinv.freeMemory_eq List.mem_cons_self rfl
    rw [List.erase_cons_head] at hgive
    rw [hcur, hfree]
    refine ⟨_, hgive.drop, ?_⟩
    rw [(State.addToFreeList_kept _ _).1, (State.setField_kept _ _ _ _).1, hlog]
  · exact ⟨frees, h.inv.drop, rfl⟩

/-- The call of the page allocator. -/
theorem reinit_pageLog (s : State) (pages : Nat → Nat) (minSize : Nat) :
    (s.reinitGeneralAllocator pages minSize).1.pageLog =
      .allocate (State.pagesAsked minSize) (pages (State.pagesAsked minSize)) :: s.pageLog := by
  rw [State.reinitGeneralAllocator]
  dsimp only
  split <;> rfl

/-- What a new run changes. -/
theorem reinit_eq (s : State) {pages : Nat → Nat} {minSize : Nat}
    (h0 : pages (State.pagesAsked minSize) ≠ null) :
    (s.reinitGeneralAllocator pages minSize).1 =
      { s with
        allocBase := pages (State.pagesAsked minSize)
        allocCur := pages (State.pagesAsked minSize)
        allocLimit := w64 (pages (State.pagesAsked minSize) + pageSize)
        pageLog := .allocate (State.pagesAsked minSize) (pages (State.pagesAsked minSize)) ::
          s.pageLog } := by
  rw [State.reinitGeneralAllocator]
  dsimp only
  rw [if_neg h0]

/-- A new run is there to be carved.  The answer is given through the log: a refused run is excluded
    by `FreshLog`. -/
theorem expand_inv (h : Ready s frees live) {pages : Nat → Nat} {size : Nat}
    (hlog : FreshLog (s.expand pages size).pageLog) :
    ∃ frees' addr, Fresh (held s.pageLog) (State.pagesAsked size) addr ∧
      Inv (s.expand pages size) [⟨addr, State.pagesAsked size * 0x1000⟩] frees' live ∧
      (s.expand pages size).allocCur = addr ∧
      (s.expand pages size).allocLimit = w64 (addr + 0x1000) := by
  obtain ⟨frees', hinv, hkept⟩ := freeLeftover_inv h
  rw [State.expand] at hlog ⊢
  generalize s.freeLeftover = t at hinv hkept hlog ⊢
  rw [reinit_pageLog] at hlog
  rw [reinit_eq t hlog.1.nonnull]
  have hfresh := hlog.1
  rw [hkept] at hfresh
  exact ⟨frees', _, hfresh, hinv.grow rfl rfl rfl rfl rfl hlog.1, rfl, rfl⟩

/-- A request for `n` bytes is served by the chunks of the list, or by memory that is carved, in a
    way that does not need more than there is: the first chunk that is large enough has the size, or
    room for the header of what is taken from its front; and when no chunk is large enough, the sum
    that is compared with the limit does not wrap around below it.  The first part is about a split
    that leaves less than a header, which the source does without a look; the second is about a
    carving at the very end of the address space. -/
structure State.Roomy (s : State) (n : Nat) : Prop where
  chunk : ∀ l x r, s.list.Is (l ++ x :: r) →
    (∀ y ∈ l, s.field y .size < n + sizeofFreeList) → n + sizeofFreeList ≤ s.field x .size →
    s.field x .size = n + sizeofFreeList ∨
      n + sizeofFreeList + sizeofFreeList ≤ s.field x .size
  fresh : ∀ xs, s.list.Is xs → (∀ x ∈ xs, s.field x .size < n + sizeofFreeList) →
    w64 (s.allocCur + (n + sizeofFreeList)) < s.allocLimit →
    s.allocCur + (n + sizeofFreeList) < 2 ^ 64

/-- What a branch leaves of the statics. -/
structure Kept (s t : State) : Prop where
  cur : t.allocCur = s.allocCur
  limit : t.allocLimit = s.allocLimit
  log : t.pageLog = s.pageLog

/-- The first branch carves nothing. -/
theorem takeWhole_kept (s : State) (cur : Nat) :
    Kept s (s.takeWhole cur).1 ∧ (s.takeWhole cur).1.taken = cur := by
  obtain ⟨hlog, -, hcur, hlimit⟩ := s.removeFromFreeList_kept cur
  rw [State.takeWhole]
  generalize s.removeFromFreeList cur = t at hlog hcur hlimit ⊢
  simp only [State.setField]
  exact ⟨⟨hcur, hlimit, hlog⟩, trivial⟩

/-- Nor does the second. -/
theorem takeFront_kept (s : State) (cur n size : Nat) :
    Kept s (s.takeFront cur n size).1 ∧
      (s.takeFront cur n size).1.taken = s.field cur .address := by
  simp only [State.takeFront, State.initFreeList, State.setField, State.clearHeader]
  exact ⟨⟨rfl, rfl, rfl⟩, trivial⟩

/-- A branch that carves nothing. -/
theorem Ready.kept {frees' live' : List Chunk} (h : Ready s frees live) (hkept : Kept s s')
    (hinv : Inv s' [s.room] frees' live') : Ready s' frees' live' where
  inv := by
    rw [State.room, hkept.cur, hkept.limit]
    exact hinv
  limit := by
    rw [hkept.limit]
    exact h.limit
  near := by
    rw [hkept.cur, hkept.limit]
    exact h.near

/-- **A chunk of the list** serves the request. -/
theorem take_ready (h : Ready s (l ++ k :: r) live) {n : Nat}
    (hroom : k.len = n ∨ n + sizeofFreeList ≤ k.len) (t : State × Nat)
    (ht : t = if s.field k.header .size = n + sizeofFreeList then s.takeWhole k.header
      else s.takeFront k.header n (n + sizeofFreeList)) :
    ∃ frees', Ready t.1 frees' (⟨t.1.taken, t.2, n⟩ :: live) := by
  have hk : k ∈ (l ++ k :: r) ++ live := (Inv.front_perm l r live k).mem_iff.mpr List.mem_cons_self
  obtain ⟨-, haddress, hsize⟩ := h.inv.labels k hk
  by_cases heq : k.len = n
  · rw [hsize, heq, if_pos rfl] at ht
    obtain ⟨hinv, hbase⟩ := takeWhole_inv h.inv
    obtain ⟨hkept, htaken⟩ := takeWhole_kept s k.header
    rw [ht]
    refine ⟨l ++ r, h.kept hkept ?_⟩
    rw [htaken, hbase, ← heq]
    exact hinv
  · rw [hsize, if_neg fun hc => heq (Nat.add_right_cancel hc)] at ht
    obtain ⟨hinv, hbase⟩ := takeFront_inv h.inv (hroom.resolve_left heq)
    obtain ⟨hkept, htaken⟩ := takeFront_kept s k.header n (n + sizeofFreeList)
    rw [ht]
    refine ⟨l ++ k.cut (n + sizeofFreeList) :: r, h.kept hkept ?_⟩
    rw [htaken, hbase, haddress]
    exact hinv

/-- The third asks for nothing. -/
theorem carve_kept (s : State) (n size : Nat) :
    (s.carve n size).1.allocLimit = s.allocLimit ∧ (s.carve n size).1.pageLog = s.pageLog ∧
      (s.carve n size).1.taken = s.allocCur := by
  obtain ⟨hlog, hlimit⟩ := carveHeader_kept s false size n
  rw [State.carve]
  dsimp only
  exact ⟨hlimit, hlog, rfl⟩

/-- **A new chunk** serves the request, and leaves room up to the limit.  The condition `hnear` is
    again that `allocCur` is near the limit, on either side of it. -/
theorem carve_ready {n size : Nat} (h : Inv s [⟨s.allocCur, size⟩] frees live)
    (hsmall : n + sizeofFreeList < 2 ^ 16) (hlimit : s.allocLimit < 2 ^ 64)
    (hroom : n + sizeofFreeList +
      (s.allocLimit + 2 ^ 16 - (s.allocCur + (n + sizeofFreeList))) % 2 ^ 16 ≤ size)
    (hnear : s.allocCur + (n + sizeofFreeList) ≤ s.allocLimit ∧
        s.allocLimit ≤ s.allocCur + (n + sizeofFreeList) + 0x1000 ∨
      s.allocLimit ≤ s.allocCur + (n + sizeofFreeList) ∧
        s.allocCur + (n + sizeofFreeList) < s.allocLimit + 0xF000) :
    Ready (s.carve n (n + sizeofFreeList)).1 frees
      (⟨(s.carve n (n + sizeofFreeList)).1.taken, (s.carve n (n + sizeofFreeList)).2, n⟩ ::
        live) := by
  obtain ⟨hinv, hbase, hcur⟩ := carve_inv h hroom hsmall
  obtain ⟨hlimit', -, htaken⟩ := carve_kept s n (n + sizeofFreeList)
  rw [hbase, htaken]
  refine ⟨?_, ?_, ?_⟩
  · rw [State.room, hcur, hlimit']
    exact hinv
  · rw [hlimit']
    exact hlimit
  · rw [hcur, hlimit']
    exact hnear

/-- Below the limit. -/
theorem carve_room (h : Ready s frees live) {n : Nat} (hsmall : n + sizeofFreeList < 2 ^ 16)
    (hlt : s.allocCur + (n + sizeofFreeList) < s.allocLimit) :
    Ready (s.carve n (n + sizeofFreeList)).1 frees
      (⟨(s.carve n (n + sizeofFreeList)).1.taken, (s.carve n (n + sizeofFreeList)).2, n⟩ ::
        live) := by
  have hnear := h.near
  refine carve_ready h.inv hsmall h.limit ?_ (by omega)
  omega

/-- As many pages as a request that fits a header takes. -/
theorem pagesAsked_of_lt {size : Nat} (h : size < 2 ^ 16) :
    State.pagesAsked size = (size + 0xFFF) / 0x1000 + 0x1000 := by
  show w64 (inPages size + 0x1000) = _
  rw [inPages_of_lt (by omega), w64_of_lt (by omega)]

/-- In a new run.  A run has `PAGE_SIZE` pages more than it needs, so there is room far beyond the
    limit. -/
theorem carve_run (h : Ready s frees live) {n : Nat} (hsmall : n + sizeofFreeList < 2 ^ 16)
    {pages : Nat → Nat} (hlog : FreshLog (s.expand pages (n + sizeofFreeList)).pageLog) :
    let t := (s.expand pages (n + sizeofFreeList)).carve n (n + sizeofFreeList)
    ∃ frees', Ready t.1 frees' (⟨t.1.taken, t.2, n⟩ :: live) := by
  obtain ⟨frees', addr, hfresh, hinv, hcur, hlimit⟩ := expand_inv h hlog
  have hfits := hfresh.fits
  generalize s.expand pages (n + sizeofFreeList) = t at hinv hcur hlimit
  subst hcur
  have hasked := pagesAsked_of_lt hsmall
  refine ⟨frees', carve_ready hinv hsmall ?_ ?_ ?_⟩
  all_goals
    generalize n + sizeofFreeList = size at *
    generalize State.pagesAsked size = asked at *
    rw [w64_of_lt (by omega)] at hlimit
    rw [hlimit]
    omega

/-! ## Calls -/

/-- Taking and leaving the lock keeps the invariant. -/
theorem Ready.lock (h : Ready s frees live) (lock : Bool) :
    Ready { s with allocSpinLock := lock } frees live :=
  h.kept ⟨rfl, rfl, rfl⟩ (h.inv.statics _ _ _ _ _)

/-- What an allocation does once it has the lock.  The two branches of the walk, and the carving,
    with or without a new run. -/
theorem alloc_cases {n p : Nat} {pages : Nat → Nat} (hsmall : n + sizeofFreeList < 2 ^ 64)
    (hrun : s.mmAllocateGeneralMemory pages n = some (s', p)) :
    ∃ t cur, t = { s with allocSpinLock := true } ∧
      t.scan (n + sizeofFreeList) (2 ^ 64) t.head = some cur ∧
      ∃ r : State × Nat, s' = r.1.keReleaseSpinLock ∧ p = r.2 ∧
        ((cur ≠ null ∧ r = if t.field cur .size = n + sizeofFreeList then t.takeWhole cur
            else t.takeFront cur n (n + sizeofFreeList)) ∨
          (cur = null ∧ r = (if w64 (t.allocCur + (n + sizeofFreeList)) ≥ t.allocLimit then
            t.expand pages (n + sizeofFreeList) else t).carve n (n + sizeofFreeList))) := by
  rw [State.mmAllocateGeneralMemory, State.keAcquireSpinLock, w64_of_lt hsmall] at hrun
  split at hrun
  · cases hrun
  · generalize ht : ({ s with allocSpinLock := true } : State) = t at hrun
    rw [Option.bind_some] at hrun
    dsimp only at hrun
    rw [if_pos (by decide)] at hrun
    obtain ⟨cur, hscan, hrun⟩ := Option.bind_eq_some_iff.mp hrun
    obtain ⟨rfl, rfl⟩ := Prod.mk.inj (Option.some.inj hrun)
    refine ⟨t, cur, rfl, hscan, _, rfl, rfl, ?_⟩
    by_cases h0 : cur = null
    · exact .inr ⟨h0, if_neg (not_not.mpr h0)⟩
    · exact .inl ⟨h0, if_pos h0⟩

/-- **An allocation.** Three branches: a chunk of the size, a larger one, or memory that is carved.
    In each the invariant is rebuilt from the five operations of `Legacy.Inv`. -/
theorem alloc_ready (h : Ready s frees live) {n p : Nat} (hsmall : n + sizeofFreeList < 2 ^ 16)
    (hroomy : s.Roomy n) {pages : Nat → Nat}
    (hrun : s.mmAllocateGeneralMemory pages n = some (s', p)) (hlog : FreshLog s'.pageLog) :
    ∃ frees', Ready s' frees' (⟨s'.taken, p, n⟩ :: live) := by
  obtain ⟨t, cur, ht, hscan, r, rfl, rfl, hr⟩ := alloc_cases (by omega) hrun
  have hlocked : Ready t frees live := ht ▸ h.lock true
  have hroomy' : t.Roomy n := by
    rw [ht]
    exact ⟨hroomy.chunk, hroomy.fresh⟩
  clear ht hroomy h hrun
  have hfree : ∀ x ∈ frees.map Chunk.header, t.field x .isFree = 1 := by
    intro x hx
    obtain ⟨k, hk, rfl⟩ := List.mem_map.mp hx
    exact hlocked.inv.free k hk
  suffices hready : ∃ frees', Ready r.1 frees' (⟨r.1.taken, r.2, n⟩ :: live) by
    obtain ⟨frees', hready⟩ := hready
    exact ⟨frees', hready.lock false⟩
  rcases State.scan_cases hlocked.inv.list hfree hscan with ⟨h0, hall⟩ | ⟨l, x, hxs, hpre, h0, hge⟩
  · -- no chunk is large enough
    obtain ⟨-, hr⟩ := hr.resolve_left fun hc => hc.1 h0
    by_cases hexp : w64 (t.allocCur + (n + sizeofFreeList)) ≥ t.allocLimit
    · -- a new run of pages is asked for
      rw [if_pos hexp] at hr
      rw [hr]
      refine carve_run hlocked hsmall ?_
      rw [← (carve_kept _ n (n + sizeofFreeList)).2.1, ← hr]
      exact hlog
    · -- there is room behind the last chunk
      rw [if_neg hexp] at hr
      have hlt := Nat.lt_of_not_ge hexp
      rw [w64_of_lt (hroomy'.fresh _ hlocked.inv.list hall hlt)] at hlt
      rw [hr]
      exact ⟨frees, carve_room hlocked hsmall hlt⟩
  · -- the first one that is large enough
    obtain ⟨-, hr⟩ := hr.resolve_right fun hc => h0 hc.1
    obtain ⟨fl, fr, rfl, rfl, hfr⟩ := List.map_eq_append_iff.mp hxs
    obtain ⟨k, fr, rfl, rfl, rfl⟩ := List.map_eq_cons_iff.mp hfr
    have hk : k ∈ (fl ++ k :: fr) ++ live :=
      (Inv.front_perm fl fr live k).mem_iff.mpr List.mem_cons_self
    have hchunk := hroomy'.chunk _ _ _ (hxs ▸ hlocked.inv.list) hpre hge
    rw [(hlocked.inv.labels k hk).size] at hchunk
    exact take_ready hlocked (by omega) r hr

/-- The header that `FreeMemory` finds before the chunk is the header of the chunk, or is none.
    Either the memory begins behind the header, or the free is refused.  What must not be is a magic
    number where no header is. -/
def State.Found (s : State) (k : Chunk) : Prop :=
  k.base = k.header + sizeofFreeList ∨
    s.field (sub64 k.base sizeofFreeList) .magic ≠ freeListHeaderMagic

/-- Without the magic number a free does nothing. -/
theorem freeMemory_refused {address : Nat}
    (hmagic : s.field (sub64 address sizeofFreeList) .magic ≠ freeListHeaderMagic) :
    ∃ status, s.freeMemory address = (s, status) ∧ status.nrSuccess = false := by
  rw [State.freeMemory]
  dsimp only
  by_cases h0 : address = null
  · exact ⟨_, if_pos h0, rfl⟩
  · rw [if_neg h0, if_neg (by decide), if_pos hmagic]
    by_cases hh : sub64 address sizeofFreeList = null
    · exact ⟨_, if_pos hh, rfl⟩
    · exact ⟨_, if_neg hh, rfl⟩

/-- **A free.** A free that finds no header changes nothing but the lock. -/
theorem free_ready (h : Ready s frees live) (hk : k ∈ live) (hfound : s.Found k)
    {status : NearStatus} (hrun : s.mmFreeGeneralMemory k.base = some (s', status)) :
    ∃ frees', Ready s' frees' (if status.nrSuccess then live.erase k else live) := by
  rw [State.mmFreeGeneralMemory, State.keAcquireSpinLock] at hrun
  split at hrun
  · cases hrun
  · have hlocked := h.lock true
    rw [Option.bind_some] at hrun
    dsimp only at hrun
    rcases hfound with hbase | hmagic
    · rw [hlocked.inv.freeMemory_eq hk hbase] at hrun
      generalize ({ s with allocSpinLock := true } : State) = t at hlocked hrun
      have hok : NearStatus.success.nrSuccess = true := rfl
      dsimp only at hrun
      rw [if_pos hok] at hrun
      obtain ⟨rfl, rfl⟩ := Prod.mk.inj (Option.some.inj hrun)
      obtain ⟨hlog, -, hcur, hlimit⟩ := (t.setField k.header .isFree 1).addToFreeList_kept k.header
      obtain ⟨hlog', -, hcur', hlimit'⟩ := t.setField_kept k.header .isFree 1
      rw [if_pos hok]
      exact ⟨_, (hlocked.kept ⟨hcur.trans hcur', hlimit.trans hlimit', hlog.trans hlog'⟩
        (hlocked.inv.give hk)).lock false⟩
    · obtain ⟨st, hfree, hst⟩ := freeMemory_refused (s := { s with allocSpinLock := true }) hmagic
      rw [hfree] at hrun
      dsimp only at hrun
      rw [hst, if_neg Bool.false_ne_true] at hrun
      obtain ⟨rfl, rfl⟩ := Prod.mk.inj (Option.some.inj hrun)
      rw [hst, if_neg Bool.false_ne_true]
      exact ⟨frees, hlocked⟩

end Nearlands.Legacy
