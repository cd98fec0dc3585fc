/-
  What the flags of a mapping are good for.

  `MmMapPage` hands its `flags` to `GetNextLevel`, which does not look at them, and writes the
  page-table entry without them: every entry is made with `PG_READ_WRITE`.  This is an invariant of
  the tables (`Rights`), so every page that is mapped is writable, in any run.  The rights are what
  was asked for exactly when writing was asked for (`rights_follow_iff`).
-/
import Nearlands.Vmm.Unmap
import Nearlands.Ldr.Paging

namespace Nearlands.Vmm

open Nearlands.Lib

variable {pml4 : Nat} {s s' : State}

/-! ## Every entry allows writes -/

/-- The bit is among those that are set. -/
theorem writable_written (x : Nat) : Ldr.writable (x ||| PG_PRESENT ||| PG_READ_WRITE) = true := by
  refine bne_iff_ne.mpr fun h0 => ?_
  have hbit : ((x ||| PG_PRESENT ||| PG_READ_WRITE) &&& PG_READ_WRITE).testBit 1 = true := by
    rw [Nat.testBit_and, Nat.testBit_or, show PG_READ_WRITE.testBit 1 = true from rfl, Bool.or_true]
    rfl
  rw [h0, Nat.zero_testBit] at hbit
  exact absurd hbit (by decide)

/-- No entry of the tables denies writes.  A page is writable when all four entries of its walk
    allow writes, so this is asked of all levels. -/
def Rights (pml4 : Nat) (s : State) : Prop :=
  Radix.Entries parseEntryValue s.words pml4 3 fun e => Ldr.writable e = true

/-- An empty pml4 has no entries. -/
theorem Rights.start (h0 : Started pml4 s) : Rights pml4 s := by
  intro p a i _ ha hne
  rw [(h0.node ha).2] at hne
  exact absurd (h0.zero i) hne

/-- A level that is made allows writes. -/
theorem Rights.ensureLevel (hr : Rights pml4 s) (hi : Inv pml4 s) {p : List Nat} {a i : Nat}
    (hp : p.length < 3) (ha : s.node pml4 p = some a) (hi512 : i < 512) (flags : Nat) :
    Rights pml4 (s.ensureLevel a i flags).1 := by
  have hcases := ensureLevel_cases s a hi512 flags
  dsimp only at hcases
  generalize s.ensureLevel a i flags = r at hcases ⊢
  rcases hcases with ⟨-, -, hsame⟩ | ⟨-, -, -, hwords, -⟩ | ⟨b, tape, -, hempty, ht, hb, hhung⟩
  · rw [hsame]
    exact hr
  · rw [Rights, hwords]
    exact hr
  · have hmem : b ∈ s.tape := by rw [ht]; exact List.mem_cons_self
    obtain ⟨hal, hlt⟩ := hi.aligned b hmem
    rw [hhung]
    exact Radix.Entries.hang hr hi.tree hp ha hempty (hi.fresh b hmem hb) (written_ne_zero b)
      (parseEntryValue_entry hal hlt) (writable_written b)

/-- So do all levels of a path. -/
theorem Rights.descend {path : List (Nat × Nat)} (hpath : ∀ c ∈ path, c.1 < 512)
    (hr : Rights pml4 s) (hi : Inv pml4 s) {p : List Nat} {a : Nat}
    (hp : p.length + path.length ≤ 3) (ha : s.node pml4 p = some a) :
    Rights pml4 (s.descend a path).1 := by
  induction path generalizing s p a with
  | nil => exact hr
  | cons c path ih =>
    obtain ⟨i, flags⟩ := c
    rw [List.length_cons] at hp
    have hi512 := hpath _ List.mem_cons_self
    have hlen : (p ++ [i]).length + path.length ≤ 3 := by
      rw [List.length_append, List.length_singleton]
      omega
    obtain ⟨hi₁, -, hres₁⟩ := ensureLevel_spec hi (by omega) ha hi512 flags
    have hr₁ := hr.ensureLevel hi (by omega) ha hi512 flags
    rw [State.descend]
    dsimp only at hr₁ ⊢
    generalize s.ensureLevel a i flags = r at hi₁ hres₁ hr₁ ⊢
    rcases hres₁ with ⟨hst, hn⟩ | hst
    · rw [hst, if_neg (by decide)]
      exact ih (fun c hc => hpath c (List.mem_cons_of_mem _ hc)) hr₁ hi₁ hlen hn
    · rw [hst, if_pos (by decide)]
      exact hr₁

/-- The entry of a page allows writes, too. -/
theorem Rights.mmMapPage (hr : Rights pml4 s) (hi : Inv pml4 s) (phys v flags : Nat) :
    Rights pml4 (s.mmMapPage pml4 phys v flags).1 := by
  have hpath : ∀ c ∈ slots v flags, c.1 < 512 := fun _ hc => slots_lt hc
  obtain ⟨hi', -, hres⟩ := descend_spec hpath hi (p := []) (Nat.le_refl 3) rfl
  have hr' := hr.descend hpath hi (p := []) (Nat.le_refl 3) rfl
  rw [mmMapPage_eq]
  dsimp only
  generalize s.descend pml4 (slots v flags) = r at hi' hres hr' ⊢
  rcases hres with ⟨hst, hn⟩ | hst
  · rw [hst, if_neg (by decide)]
    exact Radix.Entries.write_leaf hr' hi'.tree rfl hn fun _ => writable_written phys
  · rw [hst, if_pos (by decide)]
    exact hr'

/-- An entry that is emptied denies nothing, as nothing is behind it. -/
theorem Rights.mmUnmapPage (hr : Rights pml4 s) (hi : Inv pml4 s) (v : Nat) :
    Rights pml4 (s.mmUnmapPage pml4 v).1 := by
  rw [mmUnmapPage_eq]
  cases hnode : s.node pml4 (pathOf v) with
  | none => exact hr
  | some pt => exact Radix.Entries.write_leaf hr hi.tree rfl hnode fun h => absurd rfl h

/-- The invariant in every state of a run. -/
theorem run_rights (h0 : Started pml4 s) {h : List Event} (run : Trace (Call pml4) s h s') :
    Rights pml4 s' := by
  refine run.history_inv (I := fun _ s => Rights pml4 s) (Rights.start h0) ?_
  intro h s₁ e s₂ hrun hr hs
  have hi := (run_known h0 hrun).inv
  cases hs with
  | map phys virt flags => exact hr.mmMapPage hi phys virt flags
  | unmap virt => exact hr.mmUnmapPage hi virt

/-! ## The walk -/

/-- The page is mapped, and all four entries of its walk have `PG_READ_WRITE`. -/
def EffectivelyWritable (s : State) (pml4 virtAddr : Nat) : Prop :=
  ∃ page, Ldr.effective s pml4 virtAddr = some (page, true)

/-- A walk through tables without denials.  Four entries, each of which is in the tables. -/
theorem Rights.effective (hr : Rights pml4 s) {v page : Nat} {w : Bool}
    (h : Ldr.effective s pml4 v = some (page, w)) : w = true := by
  -- the entry of a table on the way allows writes
  have hentry : ∀ {p : List Nat} {a i : Nat}, p.length ≤ 3 → s.node pml4 p = some a →
      present (s.words a i) → Ldr.writable (s.words a i) = true := by
    intro p a i hp ha hpres
    refine hr p a i hp ha fun h0 => ?_
    rw [h0] at hpres
    exact hpres rfl
  rw [Ldr.effective] at h
  dsimp only at h
  split at h
  · rename_i h₁
    have hn₁ := Ldr.node_of_present (p := []) rfl h₁
    have hw₁ := hentry (p := []) (by decide) rfl h₁
    split at h
    · rename_i h₂
      have hn₂ := Ldr.node_of_present hn₁ h₂
      have hw₂ := hentry (by simp) hn₁ h₂
      split at h
      · rename_i h₃
        have hn₃ := Ldr.node_of_present hn₂ h₃
        have hw₃ := hentry (by simp) hn₂ h₃
        split at h
        · rename_i h₄
          have hw₄ := hentry (by simp) hn₃ h₄
          rw [hw₁, hw₂, hw₃, hw₄, Option.some.injEq, Prod.mk.injEq] at h
          exact h.2.symm
        · cases h
      · cases h
    · cases h
  · cases h

/-- **Every mapped page is writable**, in every state of every run. -/
theorem mapped_writable (h0 : Started pml4 s) {h : List Event} (run : Trace (Call pml4) s h s')
    {v : Nat} (hv : s'.mmCheckIfPageIsMapped pml4 v = true) : EffectivelyWritable s' pml4 v := by
  rw [mmCheckIfPageIsMapped_spec, ← walk_spec (run_known h0 run).inv, ← Ldr.effective_page,
    Option.isSome_map] at hv
  obtain ⟨⟨page, w⟩, hpage⟩ := Option.isSome_iff_exists.mp hv
  obtain rfl := (run_rights h0 run).effective hpage
  exact ⟨page, hpage⟩

/-! ## What was asked for -/

/-- The flags of the latest successful mapping of a page number that was not unmapped since. -/
def latestFlags : List Event → Nat → Option Nat
  | [], _ => none
  | .map _ virt flags .success :: h, n => if n = vpn virt then some flags else latestFlags h n
  | .map .. :: h, n => latestFlags h n
  | .unmap virt _ :: h, n => if n = vpn virt then none else latestFlags h n

/-- There are flags where there is a mapping. -/
theorem latestFlags_isSome (n : Nat) : ∀ h, (latestFlags h n).isSome = (latest h n).isSome := by
  intro h
  induction h with
  | nil => rfl
  | cons e h ih =>
    cases e with
    | map phys virt flags status =>
      cases status with
      | success =>
        rw [latestFlags, latest]
        split
        · rfl
        · exact ih
      | _ => exact ih
    | unmap virt status =>
      rw [latestFlags, latest]
      split
      · rfl
      · exact ih

/-- **Requested rights take effect exactly when writing was requested.**  In every state of every
    run from an empty pml4, every mapped page has flags it was last mapped with, and the page is
    writable just if they ask for it, if and only if they do.  Both sides of the inner equivalence
    are about one bit of the flags: the effective right is always there, so it is right exactly
    where it was asked for.  No hypothesis is made about physical addresses: which page is mapped
    does not matter to the rights. -/
theorem rights_follow_iff (h0 : Started pml4 s) {h : List Event} (run : Trace (Call pml4) s h s')
    {v : Nat} (hv : s'.mmCheckIfPageIsMapped pml4 v = true) :
    ∃ flags, latestFlags h (vpn v) = some flags ∧
      ((EffectivelyWritable s' pml4 v ↔ flags &&& PG_READ_WRITE ≠ 0) ↔
        flags &&& PG_READ_WRITE ≠ 0) := by
  have hw := mapped_writable h0 run hv
  rw [mmCheckIfPageIsMapped_spec, (run_known h0 run).mapped, ← latestFlags_isSome] at hv
  obtain ⟨flags, hflags⟩ := Option.isSome_iff_exists.mp hv
  refine ⟨flags, hflags, ?_⟩
  constructor
  · exact fun h => h.mp hw
  · exact fun hasked => iff_of_true hw hasked

/-! Page 7 again, mapped for writing and mapped without. -/

/-- The tables after page 7 has been mapped with `PG_READ_WRITE`. -/
def writablePage : State := (emptyTables.mmMapPage 0x1000 0x5000 0x7000 PG_READ_WRITE).1

/-- One call. -/
theorem writablePage_run :
    Trace (Call 0x1000) emptyTables [.map 0x5000 0x7000 PG_READ_WRITE .success] writablePage := by
  have hcall : Call 0x1000 emptyTables _ writablePage :=
    Call.map emptyTables 0x5000 0x7000 PG_READ_WRITE
  rw [show (emptyTables.mmMapPage 0x1000 0x5000 0x7000 PG_READ_WRITE).2 = .success by decide] at hcall
  exact Trace.start.snoc hcall

/-- Mapped with `PG_READ_WRITE`, the page is writable. -/
theorem writablePage_follows : EffectivelyWritable writablePage 0x1000 0x7000 := by
  obtain ⟨flags, hflags, hiff⟩ :=
    rights_follow_iff emptyTables_started writablePage_run (v := 0x7000) (by decide)
  obtain rfl : PG_READ_WRITE = flags := Option.some.inj hflags
  exact (hiff.mpr (by decide)).mpr (by decide)

/-- **A page mapped read-only is writable.** -/
theorem read_only_page_writable :
    Started 0x1000 emptyTables ∧
    Trace (Call 0x1000) emptyTables [.map 0x5000 0x7000 0 .success] onePage ∧
    onePage.mmCheckIfPageIsMapped 0x1000 0x7000 = true ∧
    latestFlags [.map 0x5000 0x7000 0 .success] (vpn 0x7000) = some 0 ∧
    EffectivelyWritable onePage 0x1000 0x7000 :=
  ⟨emptyTables_started, onePage_run, by decide, by decide, 0x5000, by decide⟩

end Nearlands.Vmm
