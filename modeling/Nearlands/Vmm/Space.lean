/-
  The address space of the kernel.

  What `MmInitVirtualMemoryManager` has mapped when it reports success.  The loops over the
  framebuffer and the LAPIC, and the first allocation, do not look at what they get: so it reports
  success although a table was refused, and exactly then it is wrong (`success_means_mapped_iff`).

  The argument goes over the log of all calls.  When the call is successful no loop returned early,
  so the four loops are one (`init_eq`), and what a page is mapped to is what the last call for it
  said (`init_state`).  The pages of the kernel image lie high and all others low, so no later loop
  moves a page of the image (`latest_kernel`).
-/
import Nearlands.Vmm.Init

namespace Nearlands.Vmm

open Nearlands.Lib

/-! ## Pages -/

/-- A range of physical memory: it begins at a page and ends below `2 ^ 47`.  Such a range is in the
    lower half when it is mapped to itself, and its pages have numbers of their own. -/
structure Low (base size : Nat) : Prop where
  aligned : base % pageSize = 0
  below : base + size ≤ 2 ^ 47

/-- In the lower half a page number is what one expects. -/
theorem vpn_of_lt {v : Nat} (h : v < 2 ^ 47) : vpn v = v / 0x1000 := by
  show v / 2 ^ 12 % 2 ^ 36 = _
  omega

/-- The mask leaves an address below 4 GiB, on a page. -/
theorem lapicBase_low (apicBase : Nat) :
    lapicBase apicBase % 0x1000 = 0 ∧ lapicBase apicBase < 2 ^ 32 := by
  constructor
  · show (apicBase &&& 0xFFFFF000) % 2 ^ 12 = 0
    rw [Nat.and_mod_two_pow]
    exact Nat.and_zero _
  · exact Nat.and_lt_two_pow apicBase (by decide)

/-- The pages of a range are mapped to themselves. -/
theorem Low.page {base size : Nat} (h : Low base size) {c : Nat × Nat}
    (hc : c ∈ pagesFrom base base (turns size)) :
    c.1 = c.2 ∧ c.1 % 0x1000 = 0 ∧ c.1 < 2 ^ 47 := by
  obtain ⟨i, hi, rfl⟩ := List.mem_map.mp hc
  have hi : i < (size + 0xFFF) / 0x1000 := List.mem_range.mp hi
  have hal : base % 0x1000 = 0 := h.aligned
  have hbelow := h.below
  have hw : w64 (base + i * 0x1000) = base + i * 0x1000 := w64_of_lt (by omega)
  refine ⟨rfl, ?_⟩
  show w64 (base + i * 0x1000) % 0x1000 = 0 ∧ w64 (base + i * 0x1000) < 2 ^ 47
  rw [hw]
  omega

/-- Every byte of a range lies in one of its pages. -/
theorem Low.hit {base size x : Nat} (h : Low base size) (hx : base ≤ x) (hx' : x < base + size) :
    ∃ c ∈ pagesFrom base base (turns size), vpn c.2 = vpn x := by
  have hal : base % 0x1000 = 0 := h.aligned
  have hbelow := h.below
  have hi : (x - base) / 0x1000 < (size + 0xFFF) / 0x1000 := by omega
  refine ⟨_, List.mem_map.mpr ⟨(x - base) / 0x1000, List.mem_range.mpr hi, rfl⟩, ?_⟩
  show vpn (w64 (base + (x - base) / 0x1000 * 0x1000)) = vpn x
  rw [w64_of_lt (by omega), vpn_of_lt (by omega), vpn_of_lt (by omega)]
  omega

section boot

variable {info : BootInfo} {graphics : GraphicsData} {apicBase : Nat}

/-- The pages of the memory map are low, and are mapped to themselves. -/
theorem memory_page (h : ∀ entry ∈ info.memMap.memEntries, Low entry.base entry.size)
    {c : Nat × Nat} (hc : c ∈ info.memoryPages) :
    c.1 = c.2 ∧ c.1 % 0x1000 = 0 ∧ c.1 < 2 ^ 47 := by
  obtain ⟨entry, hentry, hc⟩ := List.mem_flatMap.mp hc
  exact (h entry hentry).page hc

/-- Adding a page to it does not wrap. -/
theorem lapicPages_eq (apicBase : Nat) : lapicPages apicBase =
    [(lapicBase apicBase, lapicBase apicBase), (lapicBase apicBase, lapicBase apicBase + 0x1000)] := by
  obtain ⟨-, hlt⟩ := lapicBase_low apicBase
  show [(_, w64 (lapicBase apicBase + 0)), (_, w64 (lapicBase apicBase + 0x1000))] = _
  rw [w64_of_lt (by omega), w64_of_lt (by omega), Nat.add_zero]

/-- What the loops that do not look map lies low, with physical addresses that entries can hold. -/
theorem unchecked_page (h : Low graphics.framebufferBase graphics.framebufferSize) {c : Nat × Nat}
    (hc : c ∈ graphics.uncheckedPages apicBase) :
    c.2 < 2 ^ 47 ∧ c.1 % 0x1000 = 0 ∧ c.1 < 2 ^ 47 := by
  obtain ⟨hal, hlt⟩ := lapicBase_low apicBase
  rcases List.mem_append.mp hc with hc | hc
  · obtain ⟨heq, hal, hlt⟩ := h.page hc
    exact ⟨heq ▸ hlt, hal, hlt⟩
  · rw [lapicPages_eq] at hc
    rcases List.mem_cons.mp hc with rfl | hc
    · exact ⟨by omega, hal, by omega⟩
    · rw [List.mem_singleton.mp hc]
      exact ⟨by dsimp only; omega, hal, by dsimp only; omega⟩

/-- A boot with its memory below `2 ^ 47` and the kernel at `HHDM_OFFSET`, of any size.  The size of
    the image is not bounded: the pages of a large one wrap around into the lower half. -/
structure Placed (info : BootInfo) (graphics : GraphicsData) : Prop where
  virt : info.kernelLocVirt = HHDM_OFFSET
  kernel : info.kernelLocPhys % pageSize = 0
  memory : ∀ entry ∈ info.memMap.memEntries, Low entry.base entry.size
  framebuffer : Low graphics.framebufferBase graphics.framebufferSize

/-- All addresses that are written into entries are aligned, and are words. -/
theorem Placed.holdable (h : Placed info graphics) (apicBase : Nat) :
    Holdable (info.checkedPages ++ graphics.uncheckedPages apicBase) := by
  intro c hc
  rcases List.mem_append.mp hc with hc | hc
  · rcases List.mem_append.mp hc with hc | hc
    · obtain ⟨i, -, rfl⟩ := List.mem_map.mp hc
      have hal : info.kernelLocPhys % 0x1000 = 0 := h.kernel
      show (info.kernelLocPhys + i * 0x1000) % 2 ^ 64 % 0x1000 = 0 ∧ _ % 2 ^ 64 < 2 ^ 64
      omega
    · obtain ⟨-, hal, hlt⟩ := memory_page h.memory hc
      exact ⟨hal, Nat.lt_trans hlt (by decide)⟩
  · obtain ⟨-, hal, hlt⟩ := unchecked_page h.framebuffer hc
    exact ⟨hal, Nat.lt_trans hlt (by decide)⟩

/-! ## Success and what is mapped -/

/-- A boot as the loader hands it over: the kernel of at most `2 ^ 32` bytes, and below `2 ^ 47`.
    The bound on the size is generous, and keeps the image in the last 512 GiB, away from everything
    else. -/
structure Loaded (info : BootInfo) (graphics : GraphicsData) : Prop extends
    Placed info graphics where
  below : info.kernelLocPhys + info.kernelSizeInPages * pageSize ≤ 2 ^ 47
  size : info.kernelSizeInPages * pageSize ≤ 2 ^ 32

/-- Page `i` of the kernel image. -/
theorem Loaded.kernel_page (h : Loaded info graphics) {i : Nat} (hi : i < info.kernelSizeInPages) :
    w64 (info.kernelLocPhys + i * pageSize) = info.kernelLocPhys + i * pageSize ∧
    w64 (info.kernelLocVirt + i * pageSize) = info.kernelLocVirt + i * pageSize ∧
    vpn (info.kernelLocVirt + i * pageSize) = 2 ^ 36 - 2 ^ 27 + i := by
  have hbelow : info.kernelLocPhys + info.kernelSizeInPages * 0x1000 ≤ 2 ^ 47 := h.below
  have hsize : info.kernelSizeInPages * 0x1000 ≤ 2 ^ 32 := h.size
  rw [h.virt]
  refine ⟨w64_of_lt ?_, w64_of_lt ?_, ?_⟩
  · show info.kernelLocPhys + i * 0x1000 < 2 ^ 64
    omega
  · show 0xFFFFFF8000000000 + i * 0x1000 < 2 ^ 64
    omega
  · show (0xFFFFFF8000000000 + i * 0x1000) / 2 ^ 12 % 2 ^ 36 = _
    omega

/-- What is to be mapped: the image to where it is, and the memory map, the framebuffer and the
    LAPIC.  Of the memory map, the framebuffer and the LAPIC it is only asked that they are mapped,
    not to what: that is the matter of `LowerHalf`. -/
structure Mapped (r : State × Nat × NearStatus) (info : BootInfo) (graphics : GraphicsData)
    (apicBase : Nat) : Prop where
  kernel : ∀ i < info.kernelSizeInPages, r.1.walk r.2.1 (info.kernelLocVirt + i * pageSize) =
    some (info.kernelLocPhys + i * pageSize)
  memory : ∀ entry ∈ info.memMap.memEntries, ∀ x, entry.base ≤ x → x < entry.base + entry.size →
    (r.1.walk r.2.1 x).isSome
  framebuffer : ∀ x, graphics.framebufferBase ≤ x →
    x < graphics.framebufferBase + graphics.framebufferSize → (r.1.walk r.2.1 x).isSome
  lapic : (r.1.walk r.2.1 (lapicBase apicBase)).isSome

/-- Success is a promise: everything is mapped, and no table was refused.  The second part is about
    the statuses that are dropped: a refusal anywhere must show in the result. -/
def State.SuccessMeansMapped (s : State) (info : BootInfo) (graphics : GraphicsData)
    (apicBase : Nat) : Prop :=
  let r := s.mmInitVirtualMemoryManager info graphics apicBase
  (r.2.2 = .success → Mapped r info graphics apicBase) ∧
  (s.takeRoot.2 = null ∨ ¬ AllOk (s.initLog info graphics apicBase) → r.2.2 ≠ .success)

/-- The final state, when the loops have run to their ends: a tree, and translations by the log. -/
theorem init_state {s : State} (hans : Answers s.tape)
    (hold : Holdable (info.checkedPages ++ graphics.uncheckedPages apicBase))
    (hst : (s.mmInitVirtualMemoryManager info graphics apicBase).2.2 = .success) :
    let r := s.mmInitVirtualMemoryManager info graphics apicBase
    ∀ v, r.1.walk r.2.1 v = latest (s.initLog info graphics apicBase) (vpn v) := by
  obtain ⟨hroot, -, hstate⟩ := init_eq s info graphics apicBase
  obtain ⟨hstart, -⟩ := takeRoot_started hans
  obtain ⟨hi, htr⟩ := mapAll_translate _ hstart.inv hold []
    fun v => translate_none (if_pos (hstart.zero _))
  dsimp only
  rw [hroot, hstate hst]
  intro v
  rw [walk_spec hi, htr v, List.append_nil]
  rfl

/-- What the last call for a page of the kernel image put there: the pages of the other calls are
    low, and of the loop over the image only one turn is about this page.  So the image is where it
    should be even though other loops come after it. -/
theorem latest_kernel {s : State} (h : Loaded info graphics) {i p : Nat}
    (hi : i < info.kernelSizeInPages)
    (hp : latest (s.initLog info graphics apicBase)
      (vpn (info.kernelLocVirt + i * pageSize)) = some p) :
    p = info.kernelLocPhys + i * pageSize := by
  obtain ⟨hphys, hvirt, hvpn⟩ := h.kernel_page hi
  obtain ⟨v, flags, hmem, hv⟩ := latest_some hp
  obtain ⟨c', hc', st, he⟩ := mem_mapAll hmem
  injection he with h1 h2
  rw [h2, hvpn] at hv
  have hlow : ¬ c'.2 < 2 ^ 47 := by
    intro hlt
    rw [vpn_of_lt hlt] at hv
    omega
  rcases List.mem_append.mp hc' with hc' | hc'
  · rcases List.mem_append.mp hc' with hc' | hc'
    · -- by the call for this page
      obtain ⟨i', hi', rfl⟩ := List.mem_map.mp hc'
      obtain ⟨hphys', hvirt', hvpn'⟩ := h.kernel_page (List.mem_range.mp hi')
      rw [show (w64 (info.kernelLocPhys + i' * pageSize), w64 (info.kernelLocVirt + i' * pageSize)).2 =
        info.kernelLocVirt + i' * pageSize from hvirt', hvpn'] at hv
      obtain rfl : i' = i := Nat.add_left_cancel hv
      exact h1.trans hphys'
    · obtain ⟨heq, -, hlt⟩ := memory_page h.memory hc'
      exact absurd (heq ▸ hlt) hlow
  · exact absurd (unchecked_page h.framebuffer hc').1 hlow

/-- Where all mappings succeed everything is mapped. -/
theorem mapped_of_allOk {s : State} (hans : Answers s.tape) (h : Loaded info graphics)
    (hst : (s.mmInitVirtualMemoryManager info graphics apicBase).2.2 = .success)
    (hok : AllOk (s.initLog info graphics apicBase)) :
    Mapped (s.mmInitVirtualMemoryManager info graphics apicBase) info graphics apicBase := by
  have hwalk := init_state hans (h.toPlaced.holdable apicBase) hst
  dsimp only at hwalk
  -- every page of the loops is mapped
  have hhit : ∀ c ∈ info.checkedPages ++ graphics.uncheckedPages apicBase,
      (latest (s.initLog info graphics apicBase) (vpn c.2)).isSome := by
    intro c hc
    obtain ⟨st, hmem⟩ := mapAll_mem s.takeRoot.2 s.takeRoot.1 hc
    obtain rfl : st = .success := hok _ hmem
    exact latest_isSome mapAll_no_unmap hmem
  constructor
  · intro i hi
    obtain ⟨hphys, hvirt, -⟩ := h.kernel_page hi
    have hc : (info.kernelLocPhys + i * pageSize, info.kernelLocVirt + i * pageSize) ∈
        info.kernelPages :=
      List.mem_map.mpr ⟨i, List.mem_range.mpr hi, by rw [hphys, hvirt]⟩
    obtain ⟨p, hp⟩ := Option.isSome_iff_exists.mp
      (hhit _ (List.mem_append_left _ (List.mem_append_left _ hc)))
    rw [hwalk, hp]
    exact congrArg some (latest_kernel h hi hp)
  · intro entry hentry x hx hx'
    obtain ⟨c, hc, hvpn⟩ := (h.memory entry hentry).hit hx hx'
    rw [hwalk, ← hvpn]
    exact hhit c (List.mem_append_left _ (List.mem_append_right _
      (List.mem_flatMap.mpr ⟨entry, hentry, hc⟩)))
  · intro x hx hx'
    obtain ⟨c, hc, hvpn⟩ := h.framebuffer.hit hx hx'
    rw [hwalk, ← hvpn]
    exact hhit c (List.mem_append_right _ (List.mem_append_left _ hc))
  · rw [hwalk]
    refine hhit (lapicBase apicBase, lapicBase apicBase)
      (List.mem_append_right _ (List.mem_append_right _ ?_))
    rw [lapicPages_eq]
    exact List.mem_cons_self

/-- **Success means mapped, exactly when no refusal is overlooked.**  For every boot the loader can
    hand over and all answers of the page allocator: success is a promise if and only if, whenever
    the tables for the kernel image and the memory map are granted, the root table and the tables
    for all pages are.  The hypotheses are about the boot (`Loaded`) and about the allocator
    (`Answers`); both answers in the condition are read off the tape before the call.  The premise
    of the condition says that the first two loops get through, so that the call is successful; the
    conclusion, that nothing is refused at all.  From left to right, a refusal in the last two
    loops, or of the root, would be overlooked, since neither looks at what it gets. -/
theorem success_means_mapped_iff {s : State} (hans : Answers s.tape) (h : Loaded info graphics)
    (apicBase : Nat) :
    s.SuccessMeansMapped info graphics apicBase ↔
      (Granted (tablesOf info.checkedPages).card s.tape.tail →
        Granted (1 + (tablesOf (info.checkedPages ++ graphics.uncheckedPages apicBase)).card)
          s.tape) := by
  obtain ⟨hstart, htape⟩ := takeRoot_started hans
  have hold := h.toPlaced.holdable apicBase
  obtain ⟨-, hst, -⟩ := init_eq s info graphics apicBase
  have hchecked := mapAll_granted info.checkedPages hstart.inv fun c hc =>
    hold c (List.mem_append_left _ hc)
  have hall := mapAll_granted _ hstart.inv hold
  rw [hstart.missing, htape] at hchecked hall
  -- the root table is the first answer
  have hroot : Granted 1 s.tape ↔ s.takeRoot.2 ≠ null := by
    rw [granted_one, State.takeRoot, State.mmAllocateSinglePage]
    cases s.tape <;> rfl
  rw [granted_add, hroot, List.drop_one, ← hchecked, ← hall, ← hst]
  constructor
  · rintro ⟨-, hrefused⟩ hok
    constructor
    · exact fun h0 => hrefused (Or.inl h0) hok
    · exact Classical.byContradiction fun hbad => hrefused (Or.inr hbad) hok
  · intro hgranted
    constructor
    · intro hok
      exact mapped_of_allOk hans h hok (hgranted hok).2
    · rintro (h0 | hbad) hok
      · exact (hgranted hok).1 h0
      · exact hbad (hgranted hok).2

/-! ## The last call for a page -/

/-- Where the last of the pages with number `n` is put.  Later pages come first, as a later entry
    overwrites an earlier one. -/
def lastPage : List (Nat × Nat) → Nat → Option Nat
  | [], _ => none
  | (phys, virt) :: pages, n => (lastPage pages n).or (if n = vpn virt then some phys else none)

/-- Of two lists the second one has the last word. -/
theorem lastPage_append (n : Nat) (pages' : List (Nat × Nat)) : ∀ pages : List (Nat × Nat),
    lastPage (pages ++ pages') n = (lastPage pages' n).or (lastPage pages n)
  | [] => by rw [List.nil_append, lastPage, Option.or_none]
  | (phys, virt) :: pages => by
    rw [List.cons_append, lastPage, lastPage, lastPage_append n pages' pages, Option.or_assoc]

/-- What is put somewhere comes from a page of the list. -/
theorem lastPage_some {n p : Nat} : ∀ {pages : List (Nat × Nat)}, lastPage pages n = some p →
    ∃ c ∈ pages, c.1 = p ∧ n = vpn c.2 := by
  intro pages
  induction pages with
  | nil =>
    intro h
    cases h
  | cons c pages ih =>
    obtain ⟨phys, virt⟩ := c
    intro h
    rw [lastPage] at h
    rcases Option.or_eq_some_iff.mp h with h | ⟨-, h⟩
    · obtain ⟨c, hc, hp⟩ := ih h
      exact ⟨c, List.mem_cons_of_mem _ hc, hp⟩
    · split at h
      · rename_i hn
        exact ⟨_, List.mem_cons_self, Option.some.inj h, hn⟩
      · cases h

/-- Where all calls succeed, the history and the list say the same. -/
theorem latest_eq_lastPage (n : Nat) : ∀ (pages : List (Nat × Nat)) (s : State) (pml4 : Nat),
    AllOk (s.mapAll pml4 pages).2 → latest (s.mapAll pml4 pages).2 n = lastPage pages n := by
  intro pages
  induction pages with
  | nil =>
    intro _ _ _
    rfl
  | cons c pages ih =>
    obtain ⟨phys, virt⟩ := c
    intro s pml4 hok
    rw [State.mapAll] at hok ⊢
    obtain ⟨hst, hok⟩ := allOk_cons.mp hok
    rw [latest_append n _ mapAll_no_unmap, ih _ pml4 hok, hst]
    rfl

end boot

/-! A boot with something of everything, and one with nothing but a LAPIC. -/

/-- The pages `0x1000, 0x2000, …` in turn. -/
def pagesOf (n : Nat) : List Nat := (List.range n).map fun i => (i + 1) * 0x1000

/-- A kernel image of one page and a memory map of one entry with two pages. -/
def smallBoot : BootInfo := ⟨⟨[⟨0x100000, 0x2000, .free⟩]⟩, HHDM_OFFSET, 0x200000, 1⟩

/-- A framebuffer of two pages. -/
def smallGraphics : GraphicsData := ⟨0x80000000, 0x2000⟩

/-- The loader could hand it over. -/
theorem smallBoot_loaded : Loaded smallBoot smallGraphics := by
  refine ⟨⟨rfl, rfl, fun entry hentry => ?_, ⟨rfl, by decide⟩⟩, by decide, by decide⟩
  obtain rfl := List.mem_singleton.mp hentry
  exact ⟨rfl, by decide⟩

/-- No kernel image, no memory map and no framebuffer. -/
def bareBoot : BootInfo := ⟨⟨[]⟩, HHDM_OFFSET, 0, 0⟩

/-- A framebuffer of no size. -/
def noGraphics : GraphicsData := ⟨0, 0⟩

/-- So could it this one. -/
theorem bareBoot_loaded : Loaded bareBoot noGraphics :=
  ⟨⟨rfl, rfl, nofun, ⟨rfl, by decide⟩⟩, by decide, by decide⟩

/-- With eleven pages, the root and ten tables, the promise is kept. -/
theorem success_means_mapped_eleven :
    State.SuccessMeansMapped ⟨fun _ _ => 0, pagesOf 11⟩ smallBoot smallGraphics 0xFEE00900 := by
  have hans : Answers (pagesOf 11) := ⟨by decide, by decide⟩
  exact (success_means_mapped_iff (s := ⟨fun _ _ => 0, pagesOf 11⟩) hans smallBoot_loaded
    0xFEE00900).mpr fun _ => by decide +kernel

/-- **Success without a mapping.**  With one page there is a root table and nothing else: the LAPIC
    is not mapped, and `STATUS_SUCCESS` is returned. -/
theorem lapic_not_mapped :
    Answers [0x1000] ∧ Loaded bareBoot noGraphics ∧
    (State.mmInitVirtualMemoryManager ⟨fun _ _ => 0, [0x1000]⟩ bareBoot noGraphics
      0xFEE00900).2.2 = .success ∧
    State.walk (State.mmInitVirtualMemoryManager ⟨fun _ _ => 0, [0x1000]⟩ bareBoot noGraphics
      0xFEE00900).1 0x1000 (lapicBase 0xFEE00900) = none ∧
    ¬ State.SuccessMeansMapped ⟨fun _ _ => 0, [0x1000]⟩ bareBoot noGraphics 0xFEE00900 := by
  refine ⟨⟨by decide, by decide⟩, bareBoot_loaded, by decide, by decide, ?_⟩
  rintro ⟨-, hrefused⟩
  exact hrefused (Or.inr (by decide)) (by decide)

end Nearlands.Vmm
