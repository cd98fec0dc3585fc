/-
  The lower half of the kernel's address space.

  All loops of `MmInitVirtualMemoryManager` after the one over the kernel image map pages to
  themselves, but for the last turn of the LAPIC loop: it runs while `i <= PAGE_SIZE` and leaves the
  physical address as it is, so it maps the page after the LAPIC to the LAPIC.  The lower half is
  mapped to itself exactly when that turn is refused a table (`lower_half_identity_iff`).

  Whether it is refused depends on all the answers that came before it, also on those to calls that
  failed halfway: such a call has used up answers and may have left tables behind.  So the condition
  is told with a `Supply`, the paths of the tables that are there and the answers that are left.  It
  knows the page numbers and the answers of the page allocator only, no table, no entry and no state
  of `MmMapPage`; `mmMapPage_ask` says that it is what the code does.
-/
import Nearlands.Vmm.Space

namespace Nearlands.Vmm

open Nearlands.Lib

variable {pml4 : Nat} {s s' : State}

/-! ## Tables and answers -/

/-- The paths of the tables that are there, and the answers of the page allocator that are left.  It
    can be worked out from the boot and the answers with pencil and paper: no entry and no address
    of a table occurs in it. -/
structure Supply where
  tables : Finset (List Nat)
  answers : List Nat

/-- Asking for the table at a path: it is there, or the next answer is taken.  A page becomes the
    table; a `NULL` is used up all the same. -/
def Supply.askOne (u : Supply) (q : List Nat) : Supply × Bool :=
  if q ∈ u.tables then (u, true)
  else if u.answers.getD 0 null = null then (⟨u.tables, u.answers.tail⟩, false)
  else (⟨insert q u.tables, u.answers.tail⟩, true)

/-- Asking for tables from the top down; a refusal ends it.  Tables that were made before the
    refusal stay, as they do in the code. -/
def Supply.ask (u : Supply) : List (List Nat) → Supply × Bool
  | [] => (u, true)
  | q :: path =>
    let r := u.askOne q
    if r.2 then r.1.ask path else r

/-- The paths to the three tables below the pml4 that a virtual address goes through, in turn. -/
def levelPaths (virtAddr : Nat) : List (List Nat) :=
  [[getPml4Entry virtAddr], [getPml4Entry virtAddr, getPdptEntry virtAddr], pathOf virtAddr]

/-- A call for `virtAddr` gets all its tables.  This can be decided before the call. -/
def Supply.Grants (u : Supply) (virtAddr : Nat) : Prop := (u.ask (levelPaths virtAddr)).2 = true

instance (u : Supply) (virtAddr : Nat) : Decidable (u.Grants virtAddr) :=
  inferInstanceAs (Decidable (_ = true))

/-- What the calls for some pages leave. -/
def Supply.after (u : Supply) : List (Nat × Nat) → Supply
  | [] => u
  | (_, virt) :: pages => (u.ask (levelPaths virt)).1.after pages

/-- Where the last of the pages with number `n` is put, of those that get all their tables.  A page
    that is refused a table leaves the entry as an earlier page left it. -/
def Supply.lastGranted (u : Supply) : List (Nat × Nat) → Nat → Option Nat
  | [], _ => none
  | (phys, virt) :: pages, n =>
    ((u.ask (levelPaths virt)).1.lastGranted pages n).or
      (if u.Grants virt ∧ n = vpn virt then some phys else none)

/-- Of two lists the second one has the last word, with the supply that the first one leaves. -/
theorem lastGranted_append (n : Nat) (pages pages' : List (Nat × Nat)) : ∀ u : Supply,
    u.lastGranted (pages ++ pages') n =
      ((u.after pages).lastGranted pages' n).or (u.lastGranted pages n) := by
  induction pages with
  | nil =>
    intro u
    exact (Option.or_none).symm
  | cons c pages ih =>
    obtain ⟨phys, virt⟩ := c
    intro u
    rw [List.cons_append, Supply.lastGranted, Supply.lastGranted, ih, Option.or_assoc]
    rfl

/-- What is put somewhere comes from a page of the list. -/
theorem lastGranted_some {n p : Nat} : ∀ {pages : List (Nat × Nat)} {u : Supply},
    u.lastGranted pages n = some p → ∃ c ∈ pages, c.1 = p ∧ n = vpn c.2 := by
  intro pages
  induction pages with
  | nil =>
    intro u h
    cases h
  | cons c pages ih =>
    obtain ⟨phys, virt⟩ := c
    intro u h
    rw [Supply.lastGranted] at h
    rcases Option.or_eq_some_iff.mp h with h | ⟨-, h⟩
    · obtain ⟨c, hc, hp⟩ := ih h
      exact ⟨c, List.mem_cons_of_mem _ hc, hp⟩
    · split at h
      · rename_i hn
        exact ⟨_, List.mem_cons_self, Option.some.inj h, hn.2⟩
      · cases h

/-! ## What the code does -/

/-- The supply is that of a state: its tables are there and no others, and its answers are left. -/
structure Supply.Stands (u : Supply) (pml4 : Nat) (s : State) : Prop where
  tables : ∀ q, q ≠ [] → q.length ≤ 3 → (s.node pml4 q = none ↔ q ∉ u.tables)
  answers : s.tape = u.answers

/-- Making sure of a level is asking for it. -/
theorem ensureLevel_ask (hi : Inv pml4 s) {u : Supply} (hu : u.Stands pml4 s) {p : List Nat}
    {a i : Nat} (hp : p.length < 3) (ha : s.node pml4 p = some a) (hi512 : i < 512) (flags : Nat) :
    let r := s.ensureLevel a i flags
    let w := u.askOne (p ++ [i])
    (r.2 = .success ↔ w.2 = true) ∧ w.1.Stands pml4 r.1 := by
  have hlen : (p ++ [i]).length ≤ 3 := by
    rw [List.length_append, List.length_singleton]
    omega
  have hstep : s.node pml4 (p ++ [i]) =
      if s.words a i = 0 then none else some (parseEntryValue (s.words a i)) :=
    Radix.node_snoc ha i []
  have hthere := hu.tables (p ++ [i]) (List.append_ne_nil_of_right_ne_nil _ (List.cons_ne_nil _ _))
    hlen
  have hcases := ensureLevel_cases s a hi512 flags
  dsimp only at hcases ⊢
  rw [Supply.askOne]
  generalize s.ensureLevel a i flags = r at hcases ⊢
  rcases hcases with ⟨hok, hfull, hr⟩ | ⟨hst, hempty, hb, hwords, htape⟩ |
    ⟨b, tape, hok, hempty, htape, hb, hr⟩
  · -- the level is there
    have hmem : p ++ [i] ∈ u.tables := by
      refine Classical.not_not.mp fun hno => ?_
      have hnone := hthere.mpr hno
      rw [hstep, if_neg hfull] at hnone
      cases hnone
    rw [if_pos hmem, hr]
    exact ⟨iff_of_true hok rfl, hu⟩
  · -- it is missing, and refused
    have hmem : p ++ [i] ∉ u.tables := hthere.mp (hstep.trans (if_pos hempty))
    rw [if_neg hmem, ← hu.answers, if_pos hb]
    refine ⟨iff_of_false ?_ Bool.false_ne_true, fun q hq hq3 => ?_, htape⟩
    · rw [hst]
      decide
    · have h := hu.tables q hq hq3
      rw [State.node] at h ⊢
      rw [hwords]
      exact h
  · -- it is missing, and granted
    have hmem : p ++ [i] ∉ u.tables := hthere.mp (hstep.trans (if_pos hempty))
    have hhead : s.tape.getD 0 null ≠ null := by
      rw [htape]
      exact hb
    rw [if_neg hmem, ← hu.answers, if_neg hhead]
    have hin : b ∈ s.tape := by
      rw [htape]
      exact List.mem_cons_self
    obtain ⟨hal, hlt⟩ := hi.aligned b hin
    refine ⟨iff_of_true hok rfl, fun q hq hq3 => ?_, ?_⟩
    · rw [hr, State.node]
      dsimp only
      rw [hi.tree.node_hang hp ha hempty (hi.fresh b hin hb) (written_ne_zero b)
        (parseEntryValue_entry hal hlt) hq3, Finset.mem_insert]
      rcases eq_or_ne q (p ++ [i]) with hqp | hqp
      · rw [if_pos hqp]
        exact iff_of_false (Option.some_ne_none b) fun h => h (Or.inl hqp)
      · rw [if_neg hqp, or_iff_right hqp]
        exact hu.tables q hq hq3
    · rw [hr, htape]
      rfl

/-- The paths of the tables on a path from `p` on. -/
def pathsBelow : List Nat → List (Nat × Nat) → List (List Nat)
  | _, [] => []
  | p, (i, _) :: path => (p ++ [i]) :: pathsBelow (p ++ [i]) path

/-- The way down asks for the three levels in turn. -/
theorem pathsBelow_slots (v flags : Nat) : pathsBelow [] (slots v flags) = levelPaths v := rfl

/-- The way down is asking for its tables.  Induction on the path: the first refusal ends both. -/
theorem descend_ask {path : List (Nat × Nat)} (hpath : ∀ c ∈ path, c.1 < 512) (hi : Inv pml4 s)
    {u : Supply} (hu : u.Stands pml4 s) {p : List Nat} {a : Nat} (hp : p.length + path.length ≤ 3)
    (ha : s.node pml4 p = some a) :
    let r := s.descend a path
    let w := u.ask (pathsBelow p path)
    (r.2.1 = .success ↔ w.2 = true) ∧ w.1.Stands pml4 r.1 := by
  induction path generalizing s u p a with
  | nil => exact ⟨iff_of_true rfl rfl, hu⟩
  | cons c path ih =>
    obtain ⟨i, flags⟩ := c
    rw [List.length_cons] at hp
    have hlen : (p ++ [i]).length + path.length ≤ 3 := by
      rw [List.length_append, List.length_singleton]
      omega
    have hi512 := hpath _ List.mem_cons_self
    obtain ⟨hi₁, -, hres₁⟩ := ensureLevel_spec hi (by omega) ha hi512 flags
    obtain ⟨hok₁, hu₁⟩ := ensureLevel_ask hi hu (by omega) ha hi512 flags
    rw [State.descend, pathsBelow, Supply.ask]
    dsimp only at hi512 hok₁ hu₁ ⊢
    generalize s.ensureLevel a i flags = r at hi₁ hres₁ hok₁ hu₁ ⊢
    rcases hres₁ with ⟨hst, hn⟩ | hst
    · rw [hst, if_neg (by decide), if_pos (hok₁.mp hst)]
      exact ih (fun c hc => hpath c (List.mem_cons_of_mem _ hc)) hi₁ hu₁ hlen hn
    · have hno : ¬ (u.askOne (p ++ [i])).2 = true := fun h => by
        have hsuccess := hok₁.mpr h
        rw [hst] at hsuccess
        cases hsuccess
      rw [if_neg hno, if_pos (by rw [hst]; decide)]
      exact ⟨hok₁, hu₁⟩

/-- **A mapping succeeds when its supply grants it**, and leaves what asking for its tables leaves.
    The physical address and the flags have no part in it. -/
theorem mmMapPage_ask (hi : Inv pml4 s) {u : Supply} (hu : u.Stands pml4 s) (phys v flags : Nat) :
    let r := s.mmMapPage pml4 phys v flags
    (r.2 = .success ↔ u.Grants v) ∧ (u.ask (levelPaths v)).1.Stands pml4 r.1 := by
  have hpath : ∀ c ∈ slots v flags, c.1 < 512 := fun _ hc => slots_lt hc
  obtain ⟨hi', -, hres⟩ := descend_spec hpath hi (p := []) (Nat.le_refl 3) rfl
  obtain ⟨hok, hu'⟩ := descend_ask hpath hi hu (p := []) (Nat.le_refl 3) rfl
  rw [pathsBelow_slots] at hok hu'
  rw [mmMapPage_eq, Supply.Grants]
  dsimp only
  generalize s.descend pml4 (slots v flags) = r at hi' hres hok hu' ⊢
  rcases hres with ⟨hst, hn⟩ | hst
  · rw [hst, if_neg (by decide)]
    refine ⟨iff_of_true rfl (hok.mp hst), fun q hq hq3 => ?_, hu'.answers⟩
    -- the entry is in a page table, and moves no table
    have hnode : Radix.node parseEntryValue _ pml4 q = _ :=
      hi'.tree.node_write_leaf (i := getPtEntry v) (p := pathOf v) rfl hn
        (phys ||| PG_PRESENT ||| PG_READ_WRITE) hq3
    rw [State.node, hnode]
    exact hu'.tables q hq hq3
  · rw [if_pos (by rw [hst]; decide)]
    exact ⟨hok, hu'⟩

/-- The history of a loop says where its granted pages are put.  Induction on the pages: each call
    hands the next one what it leaves. -/
theorem mapAll_ask : ∀ (pages : List (Nat × Nat)) {s : State} {u : Supply}, Inv pml4 s →
    Holdable pages → u.Stands pml4 s →
    (∀ n, latest (s.mapAll pml4 pages).2 n = u.lastGranted pages n) ∧
    Inv pml4 (s.mapAll pml4 pages).1 ∧
    (u.after pages).Stands pml4 (s.mapAll pml4 pages).1 := by
  intro pages
  induction pages with
  | nil => exact fun hi _ hu => ⟨fun _ => rfl, hi, hu⟩
  | cons c pages ih =>
    obtain ⟨phys, virt⟩ := c
    intro s u hi hold hu
    obtain ⟨hal, hlt⟩ := hold _ List.mem_cons_self
    obtain ⟨hi₁, -⟩ := mmMapPage_spec hi hal hlt virt PG_READ_WRITE
    obtain ⟨hok, hu₁⟩ := mmMapPage_ask hi hu phys virt PG_READ_WRITE
    obtain ⟨hlatest, hi', hu'⟩ := ih hi₁ (fun c hc => hold c (List.mem_cons_of_mem _ hc)) hu₁
    rw [State.mapAll, Supply.after]
    refine ⟨fun n => ?_, hi', hu'⟩
    rw [latest_append n _ mapAll_no_unmap, hlatest, latest_map, Supply.lastGranted]
    exact congrArg _ (if_congr (and_congr_left fun _ => hok) rfl rfl)

/-- A loop whose pages are all granted leaves their tables, and the answers that it did not need.
    The hypothesis is that all succeed, which for the first two loops is what success of the call
    means. -/
theorem mapAll_stands : ∀ (pages : List (Nat × Nat)) {s : State}, Inv pml4 s → Holdable pages →
    ∀ {u : Supply}, u.Stands pml4 s → AllOk (s.mapAll pml4 pages).2 →
    Supply.Stands ⟨u.tables ∪ tablesOf pages,
      s.tape.drop (s.missing pml4 (tablesOf pages)).card⟩ pml4 (s.mapAll pml4 pages).1 := by
  intro pages
  induction pages with
  | nil =>
    intro s _ _ u hu _
    have hnone : s.missing pml4 (tablesOf []) = ∅ := Finset.filter_empty _
    rw [hnone, Finset.card_empty, List.drop_zero, tablesOf, Finset.union_empty, hu.answers]
    exact hu
  | cons c pages ih =>
    obtain ⟨phys, virt⟩ := c
    intro s hi hold u hu hall
    obtain ⟨hal, hlt⟩ := hold _ List.mem_cons_self
    obtain ⟨hi₁, -⟩ := mmMapPage_spec hi hal hlt virt PG_READ_WRITE
    obtain ⟨-, hnext⟩ := mmMapPage_granted hi phys virt PG_READ_WRITE
    rw [State.mapAll] at hall ⊢
    obtain ⟨hst, hall⟩ := allOk_cons.mp hall
    obtain ⟨htape, hadds⟩ := hnext hst
    have hu₁ : Supply.Stands ⟨u.tables ∪ levels virt, (s.mmMapPage pml4 phys virt PG_READ_WRITE).1.tape⟩
        pml4 (s.mmMapPage pml4 phys virt PG_READ_WRITE).1 := by
      refine ⟨fun q hq hq3 => ?_, rfl⟩
      rw [hadds q hq hq3, hu.tables q hq hq3, Finset.mem_union, not_or]
    have hrest := ih hi₁ (fun c hc => hold c (List.mem_cons_of_mem _ hc)) hu₁ hall
    rw [tablesOf, hadds.card_missing fun q hq => tablesOf_proper hq, ← List.drop_drop, ← htape,
      ← Finset.union_assoc]
    exact hrest

/-! ## The lower half -/

section boot

variable {info : BootInfo} {graphics : GraphicsData} {apicBase : Nat}

/-- The lower half is mapped to itself: after a successful call every page below `2 ^ 47` that is
    mapped translates to the physical page with the same address.  A page that is not mapped is no
    offence: what is asked is that nothing low is mapped to something else. -/
def State.LowerHalfIdentity (s : State) (info : BootInfo) (graphics : GraphicsData)
    (apicBase : Nat) : Prop :=
  let r := s.mmInitVirtualMemoryManager info graphics apicBase
  r.2.2 = .success → ∀ v < 2 ^ 47, ∀ p, r.1.walk r.2.1 v = some p → p = v / pageSize * pageSize

/-- What the loops that do not look begin with, when the first answer was the root table and the
    next ones the tables for the kernel image and the memory map.  The root took one answer, and
    each table one more. -/
def supplyAfterChecked (info : BootInfo) (answers : List Nat) : Supply :=
  ⟨tablesOf info.checkedPages, answers.drop (1 + (tablesOf info.checkedPages).card)⟩

/-- The pages of the loops that do not look, but for the last turn of the last one. -/
def GraphicsData.pagesBeforeLast (graphics : GraphicsData) (apicBase : Nat) : List (Nat × Nat) :=
  graphics.framebufferPages ++ [(lapicBase apicBase, lapicBase apicBase)]

/-- The last turn of the LAPIC loop is the last page of all. -/
theorem uncheckedPages_eq (graphics : GraphicsData) (apicBase : Nat) :
    graphics.uncheckedPages apicBase = graphics.pagesBeforeLast apicBase ++
      [(lapicBase apicBase, lapicBase apicBase + 0x1000)] := by
  rw [GraphicsData.uncheckedPages, GraphicsData.pagesBeforeLast, lapicPages_eq, List.append_assoc,
    List.singleton_append]

/-- All pages before it are low and are mapped to themselves. -/
theorem page_before_last (h : Placed info graphics) {c : Nat × Nat}
    (hc : c ∈ graphics.pagesBeforeLast apicBase) : c.1 = c.2 ∧ c.1 % 0x1000 = 0 ∧ c.1 < 2 ^ 47 := by
  rcases List.mem_append.mp hc with hc | hc
  · exact h.framebuffer.page hc
  · obtain ⟨hal, hlt⟩ := lapicBase_low apicBase
    rw [List.mem_singleton.mp hc]
    exact ⟨rfl, hal, Nat.lt_trans hlt (by decide)⟩

/-- **What is mapped in the end**: by the last turn of the LAPIC loop if it is granted its tables,
    else by the other turns of the loops that do not look that are, else by the memory map, else by
    the kernel image.  Where the call is not successful nothing is said: the loops then end early. -/
theorem init_walk {s : State} (hans : Answers s.tape) (h : Placed info graphics)
    (hok : (s.mmInitVirtualMemoryManager info graphics apicBase).2.2 = .success) :
    let r := s.mmInitVirtualMemoryManager info graphics apicBase
    let u := supplyAfterChecked info s.tape
    let pages := graphics.pagesBeforeLast apicBase
    ∀ v, r.1.walk r.2.1 v =
      if (u.after pages).Grants (lapicBase apicBase + 0x1000) ∧
        vpn v = vpn (lapicBase apicBase + 0x1000) then some (lapicBase apicBase)
      else (u.lastGranted pages (vpn v)).or
        ((lastPage info.memoryPages (vpn v)).or (lastPage info.kernelPages (vpn v))) := by
  obtain ⟨hstart, htape⟩ := takeRoot_started hans
  have hold := h.holdable apicBase
  have hwalk := init_state hans hold hok
  have hall := (init_eq s info graphics apicBase).2.1.mp hok
  have hchecked : Holdable info.checkedPages := fun c hc => hold c (List.mem_append_left _ hc)
  -- the supply after the loops that look
  have hroot : Supply.Stands ⟨∅, s.takeRoot.1.tape⟩ s.takeRoot.2 s.takeRoot.1 := by
    refine ⟨fun q hq _ => iff_of_true ?_ (Finset.notMem_empty q), rfl⟩
    cases hn : s.takeRoot.1.node s.takeRoot.2 q with
    | none => rfl
    | some a => exact absurd (hstart.node hn).1 hq
  have hstands := mapAll_stands info.checkedPages hstart.inv hchecked hroot hall
  rw [hstart.missing, htape, Finset.empty_union, ← List.drop_one, List.drop_drop] at hstands
  change Supply.Stands (supplyAfterChecked info s.tape) _ _ at hstands
  have hi := (mapAll_translate info.checkedPages hstart.inv hchecked []
    fun v => translate_none (if_pos (hstart.zero _))).1
  obtain ⟨hlatest, -⟩ := mapAll_ask (graphics.uncheckedPages apicBase) hi
    (fun c hc => hold c (List.mem_append_right _ hc)) hstands
  dsimp only at hwalk ⊢
  intro v
  have hlast : lastPage info.checkedPages (vpn v) =
      (lastPage info.memoryPages (vpn v)).or (lastPage info.kernelPages (vpn v)) :=
    lastPage_append _ _ _
  rw [hwalk, State.initLog, mapAll_append, latest_append _ _ mapAll_no_unmap, hlatest,
    latest_eq_lastPage _ _ _ _ hall, hlast, uncheckedPages_eq, lastGranted_append]
  rw [Supply.lastGranted, Supply.lastGranted, Option.none_or, Option.or_assoc]
  split
  · rfl
  · rfl

/-- **The lower half is mapped to itself exactly when the last turn is refused a table.**  For every
    boot with its ranges below `2 ^ 47` and all answers of the page allocator.

    The call is successful exactly when the next answers after the root are pages for all tables that
    the kernel image and the memory map need; from there on, `u` is the supply.  The first part of
    the condition is the slip of the LAPIC loop: its last turn must not get its tables.  The second
    part is vacuous for a kernel image of at most `2 ^ 27` pages: a larger one wraps around past
    `2 ^ 64` into the lower half, where its pages have to be put right by themselves or by a later
    loop.  All other calls map low pages to themselves, so nothing else can go wrong. -/
theorem lower_half_identity_iff {s : State} (hans : Answers s.tape) (h : Placed info graphics)
    (apicBase : Nat) :
    let u := supplyAfterChecked info s.tape
    let pages := graphics.pagesBeforeLast apicBase
    s.LowerHalfIdentity info graphics apicBase ↔
      (Granted (tablesOf info.checkedPages).card s.tape.tail →
        ¬ (u.after pages).Grants (lapicBase apicBase + 0x1000) ∧
        ∀ n < 2 ^ 35, ∀ p, lastPage info.kernelPages n = some p →
          p = n * pageSize ∨ (lastPage info.memoryPages n).isSome ∨
            (u.lastGranted pages n).isSome) := by
  dsimp only
  obtain ⟨hal, hbase⟩ := lapicBase_low apicBase
  obtain ⟨hstart, htape⟩ := takeRoot_started hans
  have hchecked := mapAll_granted info.checkedPages hstart.inv fun c hc =>
    h.holdable apicBase c (List.mem_append_left _ hc)
  rw [hstart.missing, htape, ← (init_eq s info graphics apicBase).2.1] at hchecked
  rw [← hchecked, State.LowerHalfIdentity]
  refine imp_congr_right fun hok => ?_
  have hwalk := init_walk hans h hok
  dsimp only at hwalk
  generalize supplyAfterChecked info s.tape = u at hwalk ⊢
  -- what the loops after the kernel image put at a low page is the page itself
  have hself : ∀ {c : Nat × Nat} {n p : Nat}, c.1 = c.2 → c.1 % 0x1000 = 0 → c.1 < 2 ^ 47 →
      c.1 = p → n = vpn c.2 → p = n * 0x1000 := by
    intro c n p heq hal hlt hp hn
    rw [← heq, vpn_of_lt hlt] at hn
    omega
  have hmemory : ∀ {n p}, lastPage info.memoryPages n = some p → p = n * 0x1000 := by
    intro n p hp
    obtain ⟨c, hc, hcp, hn⟩ := lastPage_some hp
    obtain ⟨heq, hal, hlt⟩ := memory_page h.memory hc
    exact hself heq hal hlt hcp hn
  have hlater : ∀ {n p}, u.lastGranted (graphics.pagesBeforeLast apicBase) n = some p →
      p = n * 0x1000 := by
    intro n p hp
    obtain ⟨c, hc, hcp, hn⟩ := lastGranted_some hp
    obtain ⟨heq, hal, hlt⟩ := page_before_last h hc
    exact hself heq hal hlt hcp hn
  constructor
  · intro hid
    have hrefused : ¬ (u.after (graphics.pagesBeforeLast apicBase)).Grants
        (lapicBase apicBase + 0x1000) := by
      intro hgranted
      have hp : lapicBase apicBase = (lapicBase apicBase + 0x1000) / 0x1000 * 0x1000 :=
        hid (lapicBase apicBase + 0x1000) (by omega) _ (by rw [hwalk, if_pos ⟨hgranted, rfl⟩])
      omega
    refine ⟨hrefused, fun n hn p hp => ?_⟩
    -- a page that nothing after the kernel image maps is where the image put it
    rcases hm : lastPage info.memoryPages n with _ | q
    · rcases hl : u.lastGranted (graphics.pagesBeforeLast apicBase) n with _ | q
      · have hn' : vpn (n * 0x1000) = n := by
          rw [vpn_of_lt (by omega)]
          omega
        have hpage : p = n * 0x1000 / 0x1000 * 0x1000 := hid (n * 0x1000) (by omega) p (by
          rw [hwalk, if_neg fun hg => hrefused hg.1, hn', hl, hm]
          exact hp)
        rw [Nat.mul_div_cancel _ (by decide)] at hpage
        exact Or.inl hpage
      · exact Or.inr (Or.inr rfl)
    · exact Or.inr (Or.inl rfl)
  · rintro ⟨hrefused, hkept⟩ v hv p hp
    rw [hwalk, if_neg fun hg => hrefused hg.1, vpn_of_lt hv] at hp
    show p = v / 0x1000 * 0x1000
    rcases Option.or_eq_some_iff.mp hp with hp | ⟨hl, hp⟩
    · exact hlater hp
    · rcases Option.or_eq_some_iff.mp hp with hp | ⟨hm, hp⟩
      · exact hmemory hp
      · rcases hkept _ (by omega) p hp with hp | hsome | hsome
        · exact hp
        · rw [hm] at hsome
          cases hsome
        · rw [hl] at hsome
          cases hsome

end boot

/-- With the LAPIC in the last page of its 2 MiB, the page after it needs one more table than all
    others.  When that one is refused the call is successful, everything is mapped, and the lower
    half is mapped to itself. -/
theorem lower_half_identity_refused :
    let s : State := ⟨fun _ _ => 0, pagesOf 11⟩
    let r := s.mmInitVirtualMemoryManager smallBoot smallGraphics 0xFEFFF900
    s.LowerHalfIdentity smallBoot smallGraphics 0xFEFFF900 ∧
    r.2.2 = .success ∧ r.1.walk r.2.1 HHDM_OFFSET = some 0x200000 ∧
    r.1.walk r.2.1 0x101000 = some 0x101000 ∧ r.1.walk r.2.1 0x80001000 = some 0x80001000 ∧
    r.1.walk r.2.1 0xFEFFF000 = some 0xFEFFF000 ∧ r.1.walk r.2.1 0xFF000000 = none := by
  have hans : Answers (pagesOf 11) := ⟨by decide, by decide⟩
  refine ⟨?_, by decide +kernel, by decide +kernel, by decide +kernel, by decide +kernel,
    by decide +kernel, by decide +kernel⟩
  refine (lower_half_identity_iff (s := ⟨fun _ _ => 0, pagesOf 11⟩) hans smallBoot_loaded.toPlaced
    0xFEFFF900).mpr fun _ => ⟨by decide +kernel, fun n hn p hp => ?_⟩
  -- the one page of the image lies high
  obtain ⟨c, hc, -, hvpn⟩ := lastPage_some hp
  obtain ⟨i, hi, rfl⟩ := List.mem_map.mp hc
  obtain ⟨-, hvirt, hkernel⟩ := smallBoot_loaded.kernel_page (List.mem_range.mp hi)
  rw [show (w64 (smallBoot.kernelLocPhys + i * pageSize),
    w64 (smallBoot.kernelLocVirt + i * pageSize)).2 = smallBoot.kernelLocVirt + i * pageSize from
    hvirt, hkernel] at hvpn
  omega

/-- **The page after the LAPIC.**  With pages enough it is mapped to the LAPIC. -/
theorem page_after_lapic :
    Answers [0x1000, 0x2000, 0x3000, 0x4000] ∧ Placed bareBoot noGraphics ∧
    State.walk (State.mmInitVirtualMemoryManager ⟨fun _ _ => 0, [0x1000, 0x2000, 0x3000, 0x4000]⟩
      bareBoot noGraphics 0xFEE00900).1 0x1000 0xFEE01000 = some 0xFEE00000 ∧
    ¬ State.LowerHalfIdentity ⟨fun _ _ => 0, [0x1000, 0x2000, 0x3000, 0x4000]⟩ bareBoot noGraphics
      0xFEE00900 := by
  refine ⟨⟨by decide, by decide⟩, bareBoot_loaded.toPlaced, by decide +kernel, fun hid => ?_⟩
  exact absurd (hid (by decide +kernel) 0xFEE01000 (by decide) 0xFEE00000 (by decide +kernel))
    (by decide)

end Nearlands.Vmm
