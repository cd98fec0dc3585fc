/-
  What `MmUnmapPage` reports.

  `MmCheckIfPageIsMapped` looks at the page-table entry, `MmUnmapPage` does not: it reports what the
  way down to the page table is like.  Page tables are made by the mappings that succeed
  (`mmMapPage_tables`) and never taken away (`mmUnmapPage_tables`), and each serves 2 MiB.  So the
  report is about the 2 MiB and not about the page: it is right for a page that is mapped, and for a
  page of a region in which nothing has ever been mapped (`unmap_reports_iff`).

  The calls here take any physical address: what is on the way down does not depend on it.
-/
import Nearlands.Vmm.Need

namespace Nearlands.Vmm

open Nearlands.Lib

variable {pml4 : Nat} {s s' : State}

/-! ## The page tables -/

/-- A way down that does not end at a page table makes none.  Induction on the path: the levels
    made before the one that was refused are above it. -/
theorem descend_failed {path : List (Nat × Nat)} (hpath : ∀ c ∈ path, c.1 < 512) (hi : Inv pml4 s)
    {p : List Nat} {a : Nat} (hp : p.length + path.length ≤ 3) (ha : s.node pml4 p = some a)
    (h : (s.descend a path).2.1 ≠ .success) {q : List Nat} (hq : p.length + path.length ≤ q.length)
    (hq3 : q.length ≤ 3) :
    (s.descend a path).1.node pml4 q = none ↔ s.node pml4 q = none := by
  induction path generalizing s p a with
  | nil => exact absurd rfl h
  | cons c path ih =>
    obtain ⟨i, flags⟩ := c
    rw [List.length_cons] at hp hq
    have hi512 := hpath _ List.mem_cons_self
    obtain ⟨hi₁, -, hres₁⟩ := ensureLevel_spec hi (by omega) ha hi512 flags
    have hadds := (ensureLevel_granted hi (by omega) ha hi512 flags).2
    have hcases := ensureLevel_cases s a hi512 flags
    rw [State.descend] at h ⊢
    dsimp only at hi512 hadds hcases h ⊢
    generalize s.ensureLevel a i flags = r at hi₁ hres₁ hadds hcases h ⊢
    rcases hres₁ with ⟨hst, hn⟩ | hst
    · rw [hst, if_neg (by decide)] at h ⊢
      have hlen : (p ++ [i]).length = p.length + 1 := by
        rw [List.length_append, List.length_singleton]
      have hpos : path ≠ [] := by
        rintro rfl
        exact h rfl
      have hlt : 0 < path.length := List.length_pos_iff.mpr hpos
      have hrest := ih (fun c hc => hpath c (List.mem_cons_of_mem _ hc)) hi₁ (p := p ++ [i])
        (by omega) hn h (by omega)
      rw [hrest, (hadds hst).2 q (List.ne_nil_of_length_pos (by omega)) hq3, Finset.mem_singleton]
      refine and_iff_left ?_
      rintro rfl
      omega
    · rw [hst, if_pos (by decide)]
      rw [hst] at hcases
      rcases hcases with ⟨hok, -⟩ | ⟨-, -, -, hwords, -⟩ | ⟨_, _, hok, -⟩
      · exact absurd hok (by decide)
      · rw [State.node, hwords]
      · exact absurd hok (by decide)

/-- Three levels lead to a page table. -/
theorem length_pathOf (v : Nat) : (pathOf v).length = 3 := rfl

/-- Of the tables of a mapping one is a page table. -/
theorem mem_levels {v : Nat} {q : List Nat} (hq : q.length = 3) : q ∈ levels v ↔ q = pathOf v := by
  rw [levels, Finset.mem_union, Finset.mem_union, Finset.mem_singleton, Finset.mem_singleton,
    Finset.mem_singleton]
  constructor
  · rintro (rfl | rfl | h)
    · exact absurd hq (by simp)
    · exact absurd hq (by simp)
    · exact h
  · exact fun h => Or.inr (Or.inr h)

/-- **A mapping makes the page table of its page when it succeeds**, and no page table otherwise.  A
    mapping that fails may leave a pdpt or a pd behind, and these are no page tables. -/
theorem mmMapPage_tables (hi : Inv pml4 s) (phys v flags : Nat) {q : List Nat} (hq : q.length = 3) :
    (s.mmMapPage pml4 phys v flags).1.node pml4 q = none ↔
      s.node pml4 q = none ∧ ¬ ((s.mmMapPage pml4 phys v flags).2 = .success ∧ q = pathOf v) := by
  by_cases hst : (s.mmMapPage pml4 phys v flags).2 = .success
  · have hadds := ((mmMapPage_granted hi phys v flags).2 hst).2
    rw [hadds q (List.ne_nil_of_length_pos (by omega)) (by omega), mem_levels hq]
    exact and_congr_right fun _ => not_congr (and_iff_right hst).symm
  · rw [and_iff_left fun h => hst h.1]
    have hpath : ∀ c ∈ slots v flags, c.1 < 512 := fun _ hc => slots_lt hc
    have hlen : (slots v flags).length = 3 := rfl
    have hdown := descend_failed hpath hi (p := []) (Nat.le_refl 3) rfl (q := q)
    rw [mmMapPage_eq] at hst ⊢
    dsimp only at hst ⊢
    generalize s.descend pml4 (slots v flags) = r at hst hdown ⊢
    split
    · rename_i hfail
      refine hdown (fun hok => ?_) (Nat.le_of_eq hq.symm) (Nat.le_of_eq hq)
      rw [hok] at hfail
      exact absurd hfail (by decide)
    · rename_i hok
      rw [if_neg hok] at hst
      exact absurd rfl hst

/-- An unmapping leaves the tables where they are. -/
theorem mmUnmapPage_tables (hi : Inv pml4 s) (v : Nat) {q : List Nat} (hq : q.length ≤ 3) :
    (s.mmUnmapPage pml4 v).1.node pml4 q = s.node pml4 q := by
  rw [mmUnmapPage_eq]
  cases hnode : s.node pml4 (pathOf v) with
  | none => rfl
  | some pt => exact hi.tree.node_write_leaf rfl hnode 0 hq

/-! ## Runs -/

/-- One call, with any addresses.  Without a bound on physical addresses, unlike `Step`. -/
inductive Call (pml4 : Nat) : State → Event → State → Prop
  | map (s : State) (phys virt flags : Nat) :
      Call pml4 s (.map phys virt flags (s.mmMapPage pml4 phys virt flags).2)
        (s.mmMapPage pml4 phys virt flags).1
  | unmap (s : State) (virt : Nat) :
      Call pml4 s (.unmap virt (s.mmUnmapPage pml4 virt).2) (s.mmUnmapPage pml4 virt).1

/-- Some page of the 2 MiB around `v` has been mapped at some time.  At any time, also if it was
    unmapped since: page tables are never given back. -/
def RegionMapped (h : List Event) (v : Nat) : Prop :=
  ∃ phys virt flags, .map phys virt flags .success ∈ h ∧ vpn virt / 512 = vpn v / 512

/-- The 2 MiB of an address are those of its page table. -/
theorem pathOf_eq (v w : Nat) : pathOf v = pathOf w ↔ vpn v / 512 = vpn w / 512 := by
  unfold pathOf vpn
  simp only [List.cons.injEq, and_true, getPml4Entry_eq, getPdptEntry_eq, getPdEntry_eq]
  omega

/-- What every run keeps: the tree, which pages are mapped, and which page tables there are.  The
    second field is about pages, the third about regions of 2 MiB: the report confuses the two. -/
structure Known (pml4 : Nat) (h : List Event) (s : State) : Prop where
  inv : Inv pml4 s
  mapped : ∀ v, (s.translate pml4 v).isSome = (latest h (vpn v)).isSome
  tables : ∀ v, s.node pml4 (pathOf v) ≠ none ↔ RegionMapped h v

/-- Nothing is mapped and nothing was. -/
theorem Known.start (h0 : Started pml4 s) : Known pml4 [] s where
  inv := h0.inv
  mapped := fun v => by
    rw [translate_none (if_pos (h0.zero _))]
    rfl
  tables := by
    intro v
    have hnone : s.node pml4 (pathOf v) = none := if_pos (h0.zero _)
    refine ⟨fun h => absurd hnone h, ?_⟩
    rintro ⟨_, _, _, hmem, _⟩
    exact absurd hmem List.not_mem_nil

/-- A mapping that succeeds makes its region one that was mapped. -/
theorem Known.map {h : List Event} (hk : Known pml4 h s) (phys virt flags : Nat) :
    Known pml4 (.map phys virt flags (s.mmMapPage pml4 phys virt flags).2 :: h)
      (s.mmMapPage pml4 phys virt flags).1 where
  inv := (mmMapPage_writes hk.inv phys virt flags).1
  mapped := by
    intro v
    obtain ⟨-, ⟨hst, hmap⟩ | ⟨hst, hmap⟩⟩ := mmMapPage_writes hk.inv phys virt flags
    · rw [hst, hmap v, latest]
      split
      · rfl
      · exact hk.mapped v
    · rw [hst, hmap v, hk.mapped v]
      rfl
  tables := by
    intro v
    rw [Ne, mmMapPage_tables hk.inv phys virt flags (length_pathOf v), not_and_or, ← Ne, hk.tables,
      not_not, pathOf_eq]
    constructor
    · rintro (⟨phys', virt', flags', hmem, hv⟩ | ⟨hst, hv⟩)
      · exact ⟨phys', virt', flags', List.mem_cons_of_mem _ hmem, hv⟩
      · rw [hst]
        exact ⟨phys, virt, flags, List.mem_cons_self, hv.symm⟩
    · rintro ⟨phys', virt', flags', hmem, hv⟩
      rcases List.mem_cons.mp hmem with heq | hmem
      · injection heq with _ hvirt _ hst
        rw [hvirt] at hv
        exact Or.inr ⟨hst.symm, hv.symm⟩
      · exact Or.inl ⟨phys', virt', flags', hmem, hv⟩

/-- An unmapping takes one page away and no region. -/
theorem Known.unmap {h : List Event} (hk : Known pml4 h s) (virt : Nat) :
    Known pml4 (.unmap virt (s.mmUnmapPage pml4 virt).2 :: h) (s.mmUnmapPage pml4 virt).1 where
  inv := (mmUnmapPage_spec hk.inv virt).1
  mapped := by
    intro v
    obtain ⟨-, -, hmap⟩ := mmUnmapPage_spec hk.inv virt
    rw [hmap v, latest]
    split
    · rfl
    · exact hk.mapped v
  tables := by
    intro v
    rw [mmUnmapPage_tables hk.inv virt (q := pathOf v) (Nat.le_refl 3), hk.tables]
    constructor
    · rintro ⟨phys, virt', flags, hmem, hv⟩
      exact ⟨phys, virt', flags, List.mem_cons_of_mem _ hmem, hv⟩
    · rintro ⟨phys, virt', flags, hmem, hv⟩
      rcases List.mem_cons.mp hmem with heq | hmem
      · cases heq
      · exact ⟨phys, virt', flags, hmem, hv⟩

/-- The tables of every state of every run. -/
theorem run_known (h0 : Started pml4 s) {h : List Event} (run : Trace (Call pml4) s h s') :
    Known pml4 h s' := by
  refine run.history_inv (I := fun h s => Known pml4 h s) (Known.start h0) ?_
  rintro h s e s' - hk hs
  cases hs with
  | map phys virt flags => exact hk.map phys virt flags
  | unmap virt => exact hk.unmap virt

/-! ## The report -/

/-- `MmUnmapPage` succeeds where there is a page table.  The entry itself is never asked. -/
theorem mmUnmapPage_status (s : State) (pml4 v : Nat) :
    (s.mmUnmapPage pml4 v).2 = if s.node pml4 (pathOf v) = none then .notMapped else .success := by
  rw [mmUnmapPage_eq]
  cases s.node pml4 (pathOf v) with
  | none => rfl
  | some pt => rfl

/-- **The report of `MmUnmapPage`.**  In every state of every run from an empty pml4, and for every
    address: it reports what `MmCheckIfPageIsMapped` says just before, exactly when the page is
    mapped or no page of its 2 MiB has ever been.  For a page that is mapped the page table exists,
    and for a region never mapped it does not; in both cases the report is right.  In between, the
    table exists and the entry is empty, and success is reported for a page that is not mapped. -/
theorem unmap_reports_iff (h0 : Started pml4 s) {h : List Event} (run : Trace (Call pml4) s h s')
    (v : Nat) :
    (((s'.mmUnmapPage pml4 v).2 = .notMapped ↔ s'.mmCheckIfPageIsMapped pml4 v = false) ∧
      ((s'.mmUnmapPage pml4 v).2 = .success ↔ s'.mmCheckIfPageIsMapped pml4 v = true)) ↔
    ((latest h (vpn v)).isSome = true ∨ ¬ RegionMapped h v) := by
  have hk := run_known h0 run
  have hne : NearStatus.notMapped ≠ .success := by decide
  rw [mmCheckIfPageIsMapped_spec, hk.mapped, mmUnmapPage_status, ← hk.tables, not_not]
  by_cases hnone : s'.node pml4 (pathOf v) = none
  · -- without a page table nothing is mapped
    have hempty : (latest h (vpn v)).isSome = false := by
      rw [← hk.mapped, translate_none hnone]
      rfl
    rw [if_pos hnone, hempty]
    exact ⟨fun _ => Or.inr hnone, fun _ => ⟨iff_of_true rfl rfl, iff_of_false hne (by decide)⟩⟩
  · rw [if_neg hnone, or_iff_left hnone]
    constructor
    · exact fun h => h.2.mp rfl
    · intro hmapped
      rw [hmapped]
      exact ⟨iff_of_false hne.symm (by decide), iff_of_true rfl rfl⟩

/-! One page mapped, with tables at 1 MiB and above. -/

/-- An empty pml4, and three pages for the tables of one region. -/
def emptyTables : State := ⟨fun _ _ => 0, [0x100000, 0x101000, 0x102000]⟩

/-- A state that a run can begin with. -/
theorem emptyTables_started : Started 0x1000 emptyTables :=
  ⟨fun _ => rfl, by decide, by decide, by decide⟩

/-- The tables after page 7 has been mapped, read-only by the flags. -/
def onePage : State := (emptyTables.mmMapPage 0x1000 0x5000 0x7000 0).1

/-- One call. -/
theorem onePage_run : Trace (Call 0x1000) emptyTables [.map 0x5000 0x7000 0 .success] onePage := by
  have hcall : Call 0x1000 emptyTables _ onePage := Call.map emptyTables 0x5000 0x7000 0
  rw [show (emptyTables.mmMapPage 0x1000 0x5000 0x7000 0).2 = .success by decide] at hcall
  exact Trace.start.snoc hcall

/-- The report is right for the page itself. -/
theorem onePage_unmap_reported : (onePage.mmUnmapPage 0x1000 0x7000).2 = .success ↔
    onePage.mmCheckIfPageIsMapped 0x1000 0x7000 = true :=
  ((unmap_reports_iff emptyTables_started onePage_run 0x7000).mpr (Or.inl (by decide))).2

/-- **Page 8 was never mapped, and is unmapped with success**: the page table of page 7 is its own. -/
theorem neighbour_unmapped :
    Started 0x1000 emptyTables ∧
    Trace (Call 0x1000) emptyTables [.map 0x5000 0x7000 0 .success] onePage ∧
    onePage.mmCheckIfPageIsMapped 0x1000 0x8000 = false ∧
    (onePage.mmUnmapPage 0x1000 0x8000).2 = .success :=
  ⟨emptyTables_started, onePage_run, by decide, by decide⟩

end Nearlands.Vmm
