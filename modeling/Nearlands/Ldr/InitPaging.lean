/-
  What the loader maps for itself (`MmInitPaging`, `nearmonia`, `mm/amd64pc/vmm.c`).

  Two loops map the entries of the memory map and the framebuffer to themselves.  Neither looks at
  what `MmMapSinglePage` returns, and the second multiplies the size of the framebuffer, which is in
  bytes, by the size of a page: it maps 4096 times as much as there is.  So the call is right exactly
  when no table is refused and all that lies behind the framebuffer, so far, is described by the
  memory map (`init_paging_iff`).
-/
import Nearlands.Ldr.BootServices
import Nearlands.Vmm.Space

namespace Nearlands.Ldr

open Nearlands.Lib Nearlands.Vmm

/-! ## The program -/

/-- A loop that does not look at what `MmMapSinglePage` returns; the results come along in order.
    The results are in the order of the calls, for the one who wants to know what was overlooked. -/
def mapEach (s : State) (pml4 : Nat) : List (Nat × Nat) → State × List Bool
  | [] => (s, [])
  | (address, virtAddress) :: pages =>
    let r := mmMapSinglePage s pml4 address virtAddress
    let rest := mapEach r.1 pml4 pages
    (rest.1, r.2 :: rest.2)

/-- What is read of the `MemoryMap`.  It is a value here: the loop writes to tables that have just been
    allocated. -/
structure MemoryMap where
  memEntries : List BootMemoryMapEntry
  amountOfEntries : Nat
  deriving DecidableEq, Repr

/-- The (physical, virtual) pairs of the loop over the memory map. -/
def MemoryMap.pages (memMap : MemoryMap) : List (Nat × Nat) :=
  (memMap.memEntries.take memMap.amountOfEntries).flatMap fun entry =>
    pagesFrom entry.base entry.base (turns entry.size)

/-- Those of the loop over the framebuffer.  The product is taken in 64 bits. -/
def framebufferLoop (graphics : GraphicsData) : List (Nat × Nat) :=
  pagesFrom graphics.framebufferBase graphics.framebufferBase
    (turns (w64 (graphics.framebufferSize * 0x1000)))

/-- `MmInitPaging()`: the state, what the calls of `MmMapSinglePage` returned, and the result.  The
    load of `CR3` is left out.  The result is `TRUE` on every path. -/
def mmInitPaging (s : State) (pml4 : Nat) (memMap : MemoryMap) (graphics : GraphicsData) :
    State × List Bool × Bool :=
  let r := mapEach s pml4 memMap.pages
  let r' := mapEach r.1 pml4 (framebufferLoop graphics)
  (r'.1, r.2 ++ r'.2, true)

/-! ## What it owes -/

/-- The page belongs to an entry of the memory map.  Entries beyond `amountOfEntries` do not count. -/
def MemoryMap.Describes (memMap : MemoryMap) (n : Nat) : Prop :=
  ∃ entry ∈ memMap.memEntries.take memMap.amountOfEntries,
    entry.base ≤ n * pageSize ∧ n * pageSize < entry.base + entry.size

/-- The page belongs to the framebuffer. -/
def Shown (graphics : GraphicsData) (n : Nat) : Prop :=
  graphics.framebufferBase ≤ n * pageSize ∧
    n * pageSize < graphics.framebufferBase + graphics.framebufferSize

/-- After `TRUE` the pages of the memory map and of the framebuffer are mapped, each to itself, and
    no others; when a page could not be mapped the result is `FALSE`.  What lies above `2 ^ 48` is
    not in the address space, so the page numbers are bounded. -/
structure Exact (r : State × List Bool × Bool) (pml4 : Nat) (memMap : MemoryMap)
    (graphics : GraphicsData) : Prop where
  mapped : r.2.2 = true → ∀ n < 2 ^ 36, memMap.Describes n ∨ Shown graphics n →
    r.1.walk pml4 (n * pageSize) = some (n * pageSize)
  others : r.2.2 = true → ∀ n < 2 ^ 36, ¬ (memMap.Describes n ∨ Shown graphics n) →
    r.1.walk pml4 (n * pageSize) = none
  refused : false ∈ r.2.1 → r.2.2 = false

/-- A range that begins at a page and ends below `2 ^ 48`. -/
structure Paged (base size : Nat) : Prop where
  aligned : base % pageSize = 0
  below : base + size ≤ 2 ^ 48

variable {pml4 : Nat} {s : State} {memMap : MemoryMap} {graphics : GraphicsData}

/-! ## The loops -/

/-- The loops of the loader are those of the kernel. -/
theorem mapEach_eq (pml4 : Nat) : ∀ (pages : List (Nat × Nat)) (s : State),
    (mapEach s pml4 pages).1 = (s.mapAll pml4 pages).1 ∧
      (false ∉ (mapEach s pml4 pages).2 ↔ AllOk (s.mapAll pml4 pages).2) := by
  intro pages
  induction pages with
  | nil => exact fun s => ⟨rfl, fun _ => nofun, fun _ => List.not_mem_nil⟩
  | cons c pages ih =>
    obtain ⟨phys, virt⟩ := c
    intro s
    obtain ⟨hstate, hok⟩ := ih (s.mmMapPage pml4 phys virt PG_READ_WRITE).1
    rw [mapEach, State.mapAll, mmMapSinglePage_eq s pml4 phys virt PG_READ_WRITE]
    dsimp only
    refine ⟨hstate, ?_⟩
    rw [allOk_cons, List.mem_cons, not_or, hok]
    refine and_congr_left fun _ => ?_
    cases (s.mmMapPage pml4 phys virt PG_READ_WRITE).2 <;> decide

/-- Both loops are one, over all pages. -/
theorem mmInitPaging_eq (s : State) (pml4 : Nat) (memMap : MemoryMap) (graphics : GraphicsData) :
    let r := mmInitPaging s pml4 memMap graphics
    let all := s.mapAll pml4 (memMap.pages ++ framebufferLoop graphics)
    r.1 = all.1 ∧ (false ∉ r.2.1 ↔ AllOk all.2) ∧ r.2.2 = true := by
  obtain ⟨hs₁, hok₁⟩ := mapEach_eq pml4 memMap.pages s
  obtain ⟨hs₂, hok₂⟩ := mapEach_eq pml4 (framebufferLoop graphics) (s.mapAll pml4 memMap.pages).1
  rw [mmInitPaging, mapAll_append]
  dsimp only
  rw [hs₁, allOk_append, ← hok₁, ← hok₂, List.mem_append, not_or]
  exact ⟨hs₂, and_comm, rfl⟩

/-- The pages of a loop that does not wrap. -/
theorem mem_pagesFrom {base n : Nat} (h : base + n * 0x1000 ≤ 2 ^ 64) {c : Nat × Nat} :
    c ∈ pagesFrom base base n ↔ ∃ i < n, c = (base + i * 0x1000, base + i * 0x1000) := by
  have hw : ∀ i < n, w64 (base + i * pageSize) = base + i * 0x1000 := fun i hi =>
    w64_of_lt (show base + i * 0x1000 < 2 ^ 64 by omega)
  constructor
  · intro hc
    obtain ⟨i, hi, rfl⟩ := List.mem_map.mp hc
    have hi := List.mem_range.mp hi
    exact ⟨i, hi, by rw [hw i hi]⟩
  · rintro ⟨i, hi, rfl⟩
    exact List.mem_map.mpr ⟨i, List.mem_range.mpr hi, by rw [hw i hi]⟩

/-- The pages of a range, and none but these. -/
theorem Paged.mem {base size : Nat} (h : Paged base size) {c : Nat × Nat} :
    c ∈ pagesFrom base base (turns size) ↔
      ∃ n, c = (n * pageSize, n * pageSize) ∧ base ≤ n * pageSize ∧ n * pageSize < base + size := by
  have hal : base % 0x1000 = 0 := h.aligned
  have hbelow := h.below
  have hturns : turns size = (size + 0xFFF) / 0x1000 := rfl
  rw [mem_pagesFrom (by omega), hturns]
  show _ ↔ ∃ n, c = (n * 0x1000, n * 0x1000) ∧ base ≤ n * 0x1000 ∧ n * 0x1000 < base + size
  constructor
  · rintro ⟨i, hi, rfl⟩
    have hn : (base / 0x1000 + i) * 0x1000 = base + i * 0x1000 := by omega
    exact ⟨base / 0x1000 + i, by rw [hn], by omega, by omega⟩
  · rintro ⟨n, rfl, hlo, hhi⟩
    have hn : base + (n - base / 0x1000) * 0x1000 = n * 0x1000 := by omega
    exact ⟨n - base / 0x1000, by omega, by rw [hn]⟩

/-- The loop over the framebuffer has a turn for each byte. -/
theorem turns_framebuffer (h : Paged graphics.framebufferBase graphics.framebufferSize) :
    turns (w64 (graphics.framebufferSize * 0x1000)) = graphics.framebufferSize := by
  have hbelow := h.below
  rw [w64_of_lt (by omega)]
  show (graphics.framebufferSize * 0x1000 + 0xFFF) / 0x1000 = _
  omega

/-- The pages that the loop over the framebuffer comes to. -/
theorem mem_framebufferLoop (h : Paged graphics.framebufferBase graphics.framebufferSize)
    {c : Nat × Nat} : c ∈ framebufferLoop graphics ↔
      ∃ n, c = (n * pageSize, n * pageSize) ∧ graphics.framebufferBase ≤ n * pageSize ∧
        n * pageSize < graphics.framebufferBase + graphics.framebufferSize * 0x1000 := by
  have hal : graphics.framebufferBase % 0x1000 = 0 := h.aligned
  have hbelow := h.below
  rw [framebufferLoop, turns_framebuffer h, mem_pagesFrom (by omega)]
  show _ ↔ ∃ n, c = (n * 0x1000, n * 0x1000) ∧ _ ≤ n * 0x1000 ∧ n * 0x1000 < _
  constructor
  · rintro ⟨i, hi, rfl⟩
    have hn : (graphics.framebufferBase / 0x1000 + i) * 0x1000 =
        graphics.framebufferBase + i * 0x1000 := by omega
    exact ⟨graphics.framebufferBase / 0x1000 + i, by rw [hn], by omega, by omega⟩
  · rintro ⟨n, rfl, hlo, hhi⟩
    have hn : graphics.framebufferBase + (n - graphics.framebufferBase / 0x1000) * 0x1000 =
        n * 0x1000 := by omega
    exact ⟨n - graphics.framebufferBase / 0x1000, by omega, by rw [hn]⟩

/-- The page of an entry. -/
theorem mem_pages (h : ∀ entry ∈ memMap.memEntries.take memMap.amountOfEntries,
    Paged entry.base entry.size) {c : Nat × Nat} :
    c ∈ memMap.pages ↔ ∃ n, c = (n * pageSize, n * pageSize) ∧ memMap.Describes n := by
  rw [MemoryMap.pages, List.mem_flatMap]
  constructor
  · rintro ⟨entry, hentry, hc⟩
    obtain ⟨n, hn, hrange⟩ := (h entry hentry).mem.mp hc
    exact ⟨n, hn, entry, hentry, hrange⟩
  · rintro ⟨n, hn, entry, hentry, hrange⟩
    exact ⟨entry, hentry, (h entry hentry).mem.mpr ⟨n, hn, hrange⟩⟩

/-! ## Pages with one number -/

/-- The last turn with a page number is not before any other.  Two turns can have one number only
    when the loop goes once around the address space. -/
theorem lastPage_pagesFrom {base k : Nat} (hfit : base + k * 0x1000 ≤ 2 ^ 64) {i : Nat}
    (hi : i < k) : ∃ p, lastPage (pagesFrom base base k) (vpn (base + i * 0x1000)) = some p ∧
      base + i * 0x1000 ≤ p := by
  induction k with
  | zero => exact absurd hi (Nat.not_lt_zero i)
  | succ k ih =>
    have hfit' : base + k * 0x1000 < 2 ^ 64 := by omega
    have hlast : i = k ∨ i < k := by omega
    have hle : base + i * 0x1000 ≤ base + k * 0x1000 :=
      Nat.add_le_add_left (Nat.mul_le_mul_right _ (Nat.le_of_lt_succ hi)) base
    have hw : w64 (base + k * pageSize) = base + k * 0x1000 := w64_of_lt hfit'
    have hsnoc : pagesFrom base base (k + 1) =
        pagesFrom base base k ++ [(base + k * 0x1000, base + k * 0x1000)] := by
      rw [pagesFrom, List.range_succ, List.map_append, List.map_singleton, hw, pagesFrom]
    rw [hsnoc, lastPage_append, lastPage, lastPage, Option.none_or]
    by_cases hsame : vpn (base + i * 0x1000) = vpn (base + k * 0x1000)
    · rw [if_pos hsame, Option.some_or]
      exact ⟨_, rfl, hle⟩
    · rw [if_neg hsame, Option.none_or]
      exact ih (Nat.le_of_lt hfit') (hlast.resolve_left fun h => hsame (by rw [h]))

/-! ## The tables -/

/-- What is mapped after a loop from an empty pml4. -/
theorem mapAll_walk (h0 : Started pml4 s) {pages : List (Nat × Nat)} (hold : Holdable pages) (v : Nat) :
    (s.mapAll pml4 pages).1.walk pml4 v = latest (s.mapAll pml4 pages).2 (vpn v) := by
  obtain ⟨hi, htr⟩ := mapAll_translate pages h0.inv hold [] fun v =>
    translate_none (if_pos (h0.zero _))
  rw [walk_spec hi, htr, List.append_nil]

/-- The number of a page in the address space. -/
theorem vpn_page {n : Nat} (h : n < 2 ^ 36) : vpn (n * pageSize) = n := by
  show n * 0x1000 / 2 ^ 12 % 2 ^ 36 = n
  omega

/-- The memory map and the framebuffer lie in the address space. -/
structure Mappable (memMap : MemoryMap) (graphics : GraphicsData) : Prop where
  memory : ∀ entry ∈ memMap.memEntries.take memMap.amountOfEntries, Paged entry.base entry.size
  framebuffer : Paged graphics.framebufferBase graphics.framebufferSize

/-- The pages of both loops. -/
def allPages (memMap : MemoryMap) (graphics : GraphicsData) : List (Nat × Nat) :=
  memMap.pages ++ framebufferLoop graphics

/-- The page lies behind the framebuffer, and the loop comes to it.  These pages are mapped for
    nothing: 4095 times as many as the framebuffer has. -/
def Behind (graphics : GraphicsData) (n : Nat) : Prop :=
  graphics.framebufferBase + graphics.framebufferSize ≤ n * pageSize ∧
    n * pageSize < graphics.framebufferBase + graphics.framebufferSize * pageSize

theorem Mappable.mem (h : Mappable memMap graphics) {c : Nat × Nat}
    (hc : c ∈ allPages memMap graphics) : ∃ n, c = (n * pageSize, n * pageSize) ∧
      (memMap.Describes n ∨ Shown graphics n ∨ Behind graphics n) := by
  rcases List.mem_append.mp hc with hc | hc
  · obtain ⟨n, hn, hdesc⟩ := (mem_pages h.memory).mp hc
    exact ⟨n, hn, .inl hdesc⟩
  · obtain ⟨n, hn, hlo, hhi⟩ := (mem_framebufferLoop h.framebuffer).mp hc
    refine ⟨n, hn, .inr ?_⟩
    by_cases hshown : n * pageSize < graphics.framebufferBase + graphics.framebufferSize
    · exact .inl ⟨hlo, hshown⟩
    · exact .inr ⟨Nat.le_of_not_lt hshown, hhi⟩

/-- Page-table entries can hold the addresses. -/
theorem Mappable.holdable (h : Mappable memMap graphics) : Holdable (allPages memMap graphics) := by
  intro c hc
  obtain ⟨n, rfl, hn⟩ := h.mem hc
  refine ⟨Nat.mul_mod_left n 0x1000, ?_⟩
  have hfb := h.framebuffer.below
  rcases hn with ⟨entry, hentry, -, hlt⟩ | ⟨-, hlt⟩ | ⟨-, hlt⟩
  · have := (h.memory entry hentry).below
    dsimp only
    omega
  · dsimp only
    omega
  · replace hlt : n * 0x1000 < graphics.framebufferBase + graphics.framebufferSize * 0x1000 := hlt
    show n * 0x1000 < 2 ^ 64
    omega

/-- What the memory map describes, and the framebuffer, lies below `2 ^ 48`. -/
theorem Mappable.wanted_lt (h : Mappable memMap graphics) {n : Nat}
    (hn : memMap.Describes n ∨ Shown graphics n) : n < 2 ^ 36 := by
  rcases hn with ⟨entry, hentry, -, hlt⟩ | ⟨-, hlt⟩
  · have := (h.memory entry hentry).below
    replace hlt : n * 0x1000 < entry.base + entry.size := hlt
    omega
  · have := h.framebuffer.below
    replace hlt : n * 0x1000 < graphics.framebufferBase + graphics.framebufferSize := hlt
    omega

/-- Every page that is wanted is in a loop. -/
theorem Mappable.wanted_mem (h : Mappable memMap graphics) {n : Nat}
    (hn : memMap.Describes n ∨ Shown graphics n) :
    (n * pageSize, n * pageSize) ∈ allPages memMap graphics := by
  rcases hn with hdesc | ⟨hlo, hhi⟩
  · exact List.mem_append_left _ ((mem_pages h.memory).mpr ⟨n, rfl, hdesc⟩)
  · refine List.mem_append_right _ ((mem_framebufferLoop h.framebuffer).mpr ⟨n, rfl, hlo, ?_⟩)
    omega

/-- Every page that is mapped is in a loop, with its number.  Beyond `2 ^ 48` numbers wrap, so that
    a page behind the framebuffer may have the number of a low one. -/
theorem latest_page (h : Mappable memMap graphics) {n p : Nat}
    (hp : latest (s.mapAll pml4 (allPages memMap graphics)).2 n = some p) :
    ∃ m, p = m * pageSize ∧ vpn (m * pageSize) = n ∧
      (memMap.Describes m ∨ Shown graphics m ∨ Behind graphics m) := by
  obtain ⟨v, flags, hmem, hv⟩ := latest_some hp
  obtain ⟨c, hc, st, he⟩ := mem_mapAll hmem
  injection he with h1 h2
  obtain ⟨m, rfl, hm⟩ := h.mem hc
  rw [h2] at hv
  exact ⟨m, h1, hv, hm⟩

/-- **With all tables and a described neighbourhood** the call is right. -/
theorem exact_of_granted (h0 : Started pml4 s) (h : Mappable memMap graphics)
    (hok : AllOk (s.mapAll pml4 (allPages memMap graphics)).2)
    (hbehind : ∀ n, Behind graphics n → memMap.Describes n) :
    Exact (mmInitPaging s pml4 memMap graphics) pml4 memMap graphics := by
  obtain ⟨hstate, hres, -⟩ := mmInitPaging_eq s pml4 memMap graphics
  have hwalk := mapAll_walk h0 h.holdable
  -- a page that is mapped is wanted, and mapped to itself
  have hpage : ∀ n p, latest (s.mapAll pml4 (allPages memMap graphics)).2 n = some p →
      (memMap.Describes n ∨ Shown graphics n) ∧ p = n * pageSize := by
    intro n p hp
    obtain ⟨m, rfl, hvpn, hm⟩ := latest_page h hp
    have hwanted : memMap.Describes m ∨ Shown graphics m := by
      rcases hm with hm | hm | hm
      · exact .inl hm
      · exact .inr hm
      · exact .inl (hbehind m hm)
    rw [vpn_page (h.wanted_lt hwanted)] at hvpn
    exact ⟨hvpn ▸ hwanted, by rw [hvpn]⟩
  constructor
  · intro _ n hlt hn
    rw [hstate, show s.mapAll pml4 (memMap.pages ++ framebufferLoop graphics) =
      s.mapAll pml4 (allPages memMap graphics) from rfl, hwalk]
    obtain ⟨st, hmem⟩ := mapAll_mem pml4 s (h.wanted_mem hn)
    obtain rfl : st = .success := hok _ hmem
    obtain ⟨p, hp⟩ := Option.isSome_iff_exists.mp (latest_isSome mapAll_no_unmap hmem)
    rw [vpn_page hlt] at hp ⊢
    rw [hp, (hpage n p hp).2]
  · intro _ n hlt hn
    rw [hstate, show s.mapAll pml4 (memMap.pages ++ framebufferLoop graphics) =
      s.mapAll pml4 (allPages memMap graphics) from rfl, hwalk, vpn_page hlt]
    refine Option.eq_none_iff_forall_ne_some.mpr fun p hp => hn (hpage n p hp).1
  · intro hfalse
    exact absurd hfalse (hres.mpr hok)

/-- **And only then.**  A page behind the framebuffer is mapped, and if its number is that of a
    wanted page, that one is not mapped to itself. -/
theorem Exact.granted (h0 : Started pml4 s) (h : Mappable memMap graphics)
    (hexact : Exact (mmInitPaging s pml4 memMap graphics) pml4 memMap graphics) :
    AllOk (s.mapAll pml4 (allPages memMap graphics)).2 ∧
      ∀ n, Behind graphics n → memMap.Describes n := by
  obtain ⟨hstate, hres, htrue⟩ := mmInitPaging_eq s pml4 memMap graphics
  have hok : AllOk (s.mapAll pml4 (allPages memMap graphics)).2 := by
    refine hres.mp fun hfalse => ?_
    rw [hexact.refused hfalse] at htrue
    cases htrue
  refine ⟨hok, fun n hn => ?_⟩
  have hwalk := mapAll_walk h0 h.holdable
  have hal : graphics.framebufferBase % 0x1000 = 0 := h.framebuffer.aligned
  have hbelow := h.framebuffer.below
  obtain ⟨hlo, hhi⟩ : graphics.framebufferBase + graphics.framebufferSize ≤ n * 0x1000 ∧
    n * 0x1000 < graphics.framebufferBase + graphics.framebufferSize * 0x1000 := hn
  -- where the last turn with its number puts it
  have hturn : graphics.framebufferBase + (n - graphics.framebufferBase / 0x1000) * 0x1000 =
      n * 0x1000 := by omega
  have hfit : graphics.framebufferBase + graphics.framebufferSize * 0x1000 ≤ 2 ^ 64 := by omega
  have hturns : n - graphics.framebufferBase / 0x1000 < graphics.framebufferSize := by omega
  obtain ⟨q, hq, hle⟩ := lastPage_pagesFrom hfit hturns
  rw [hturn] at hq hle
  have hlast : latest (s.mapAll pml4 (allPages memMap graphics)).2 (vpn (n * 0x1000)) = some q := by
    rw [latest_eq_lastPage _ _ _ _ hok, allPages, lastPage_append, framebufferLoop,
      turns_framebuffer h.framebuffer, hq, Option.some_or]
  have hvpn : vpn (n * 0x1000) = n % 2 ^ 36 := by
    show n * 0x1000 / 2 ^ 12 % 2 ^ 36 = n % 2 ^ 36
    omega
  have hlt : n % 2 ^ 36 < 2 ^ 36 := Nat.mod_lt _ (by decide)
  have hmapped : (mmInitPaging s pml4 memMap graphics).1.walk pml4 (n % 2 ^ 36 * pageSize) =
      some q := by
    rw [hstate, show s.mapAll pml4 (memMap.pages ++ framebufferLoop graphics) =
      s.mapAll pml4 (allPages memMap graphics) from rfl, hwalk, vpn_page hlt, ← hvpn, hlast]
  have hwanted : memMap.Describes (n % 2 ^ 36) ∨ Shown graphics (n % 2 ^ 36) := by
    by_contra hno
    rw [hexact.others htrue _ hlt hno] at hmapped
    cases hmapped
  -- it is mapped to itself, so the last turn is this one
  rw [hexact.mapped htrue _ hlt hwanted] at hmapped
  have hself : n % 2 ^ 36 * 0x1000 = q := Option.some.inj hmapped
  have hsame : n % 2 ^ 36 = n := by omega
  rw [hsame] at hwanted
  refine hwanted.resolve_right fun hshown => ?_
  have hend : n * 0x1000 < graphics.framebufferBase + graphics.framebufferSize := hshown.2
  omega

/-- **What the loader maps, exactly.**  For every memory map and framebuffer and all answers of the
    firmware, the call is right if and only if it is granted the tables for all pages of both loops,
    and every page behind the framebuffer that its loop comes to is described by the memory map.
    The two conditions belong to two slips.  The first is about results that nobody looks at; the
    second is about the product of a size in bytes with the size of a page, which does no harm where
    the memory map describes what it reaches. -/
theorem init_paging_iff (h0 : Started pml4 s) (h : Mappable memMap graphics) :
    Exact (mmInitPaging s pml4 memMap graphics) pml4 memMap graphics ↔
      Granted (tablesOf (allPages memMap graphics)).card s.tape ∧
        ∀ n, Behind graphics n → memMap.Describes n := by
  have hgranted := mapAll_granted (allPages memMap graphics) h0.inv h.holdable
  rw [h0.missing] at hgranted
  rw [← hgranted]
  exact ⟨fun hexact => hexact.granted h0 h, fun hcond => exact_of_granted h0 h hcond.1 hcond.2⟩

/-! ## Two boots -/

/-- A memory map of one page. -/
def onePage : MemoryMap := ⟨[⟨0x1000, 0x1000, .free⟩], 1⟩

/-- A memory map of one entry, with the page of the framebuffer and the one behind it. -/
def oneEntry : MemoryMap := ⟨[⟨0x1000, 0x3000, .used⟩], 1⟩

/-- No memory map. -/
def noMap : MemoryMap := ⟨[], 0⟩

/-- A firmware with ten pages for tables. -/
def tenTables : State := ⟨fun _ _ => 0, (List.range 10).map fun i => 0x100000 + i * 0x1000⟩

/-- A framebuffer of two bytes: its loop comes to two pages, and the memory map describes both. -/
theorem init_paging_one :
    Exact (mmInitPaging threePages 0x5000 oneEntry ⟨0x2000, 2⟩) 0x5000 oneEntry ⟨0x2000, 2⟩ := by
  have h0 : Started 0x5000 threePages := ⟨fun _ => rfl, by decide, by decide, by decide⟩
  have h : Mappable oneEntry ⟨0x2000, 2⟩ := by
    refine ⟨fun entry hentry => ?_, ⟨rfl, by decide⟩⟩
    rw [List.mem_singleton.mp hentry]
    exact ⟨rfl, by decide⟩
  refine (init_paging_iff h0 h).mpr ⟨by decide +kernel, fun n hn => ?_⟩
  obtain ⟨hlo, hhi⟩ := hn
  change 0x2000 + 2 ≤ n * 0x1000 at hlo
  change n * 0x1000 < 0x2000 + 2 * 0x1000 at hhi
  refine ⟨⟨0x1000, 0x3000, .used⟩, List.mem_singleton.mpr rfl, ?_, ?_⟩
  · show 0x1000 ≤ n * 0x1000
    omega
  · show n * 0x1000 < 0x1000 + 0x3000
    omega

/-- **Success without a mapping, and more than the framebuffer.**  Without tables the only page of
    memory is not mapped, and the result is `TRUE`.  With ten tables a framebuffer of one page brings
    4095 pages behind it along. -/
theorem init_paging_wrong :
    ((mmInitPaging ⟨fun _ _ => 0, []⟩ 0x5000 onePage ⟨0, 0⟩).2 = ([false], true) ∧
      (mmInitPaging ⟨fun _ _ => 0, []⟩ 0x5000 onePage ⟨0, 0⟩).1.walk 0x5000 0x1000 = none) ∧
    Started 0x5000 tenTables ∧ Mappable noMap ⟨0x200000, 0x1000⟩ ∧
    ¬ Exact (mmInitPaging tenTables 0x5000 noMap ⟨0x200000, 0x1000⟩) 0x5000 noMap
      ⟨0x200000, 0x1000⟩ := by
  have h0 : Started 0x5000 tenTables := ⟨fun _ => rfl, by decide, by decide, by decide⟩
  have h : Mappable noMap ⟨0x200000, 0x1000⟩ := ⟨nofun, ⟨rfl, by decide⟩⟩
  refine ⟨⟨by decide, by decide⟩, h0, h, fun hexact => ?_⟩
  obtain ⟨entry, hentry, -⟩ := (hexact.granted h0 h).2 0x201 ⟨by decide, by decide⟩
  cases hentry

end Nearlands.Ldr
