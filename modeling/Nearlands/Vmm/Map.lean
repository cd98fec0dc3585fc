/-
  The page tables implement a map.

  The four levels are a radix tree of depth 3 (`Nearlands.Lib.Radix`): the pml4 at its root, the
  page tables at its leaves, the nine-bit fields of a virtual address as the path.  `Inv` is the
  tree with what its entries look like; `ensureLevel_spec` says what creating a level does to it
  (nothing, for every lookup), `descend_spec` says the same of the way down to a page table, and the
  three functions follow.

  In every run from an empty pml4 the walk of the hardware gives, for every virtual address, the
  page of the latest successful `MmMapPage` that no `MmUnmapPage` followed
  (`page_tables_implement_map`).
-/
import Nearlands.Vmm.PageTable
import Nearlands.Lib.Trace

namespace Nearlands.Vmm

open Nearlands.Lib

/-- The node at the end of a path from the pml4.  The pml4 is at the empty path, and page tables are
    at paths of length 3. -/
abbrev State.node (s : State) (pml4 : Nat) (p : List Nat) : Option Nat :=
  Radix.node parseEntryValue s.words pml4 p

/-- The nonempty page-table entry at the end of a path. -/
abbrev State.lookup (s : State) (pml4 : Nat) (p : List Nat) (i : Nat) : Option Nat :=
  Radix.lookup parseEntryValue s.words pml4 p i

/-- The tables are a tree without sharing, its nonempty entries are present, and the pages still to
    be handed out are aligned, distinct, and none of its tables.  No sharing means that a write to
    one table is seen on one path only; that is what makes the levels a map and not just a graph.
    `fresh` keeps it so: a page that is handed out is no table yet. -/
structure Inv (pml4 : Nat) (s : State) : Prop where
  tree : Radix.Tree parseEntryValue s.words pml4 3
  present : ∀ p a i, p.length ≤ 3 → s.node pml4 p = some a → s.words a i ≠ 0 →
    present (s.words a i)
  aligned : ∀ a ∈ s.tape, a % 0x1000 = 0 ∧ a < 2 ^ 64
  distinct : (s.tape.filter fun a => decide (a ≠ null)).Nodup
  fresh : ∀ a ∈ s.tape, a ≠ null → ∀ p, p.length ≤ 3 → s.node pml4 p ≠ some a

/-- The path of a virtual address to its page table. -/
def pathOf (virtAddr : Nat) : List Nat :=
  [getPml4Entry virtAddr, getPdptEntry virtAddr, getPdEntry virtAddr]

/-- The virtual page number: bits 47..12.  Two addresses with one number have the same entry; the
    upper 16 bits of an address are not looked at. -/
def vpn (virtAddr : Nat) : Nat := virtAddr / 2 ^ 12 % 2 ^ 36

/-- Path and slot of a virtual address are its page number. -/
theorem pathOf_eq_iff (v w : Nat) :
    (pathOf v = pathOf w ∧ getPtEntry v = getPtEntry w) ↔ vpn v = vpn w := by
  unfold pathOf vpn
  simp only [List.cons.injEq, and_true, getPml4Entry_eq, getPdptEntry_eq, getPdEntry_eq,
    getPtEntry_eq]
  omega

/-- The physical page of a virtual address.  An entry that is not empty counts, whatever its present
    bit. -/
def State.translate (s : State) (pml4 virtAddr : Nat) : Option Nat :=
  (s.lookup pml4 (pathOf virtAddr) (getPtEntry virtAddr)).map parseEntryValue

variable {pml4 : Nat} {s s' : State}

/-! ## Creating a level -/

/-- The two states translate everything alike.  Making a level adds a table of zeros, which nobody
    can tell from no table. -/
def SameLookups (pml4 : Nat) (s s' : State) : Prop :=
  ∀ q j, q.length = 3 → s'.lookup pml4 q j = s.lookup pml4 q j

/-- One thing after the other. -/
theorem SameLookups.trans {s'' : State} (h : SameLookups pml4 s s') (h' : SameLookups pml4 s' s'') :
    SameLookups pml4 s s'' := fun q j hq => (h' q j hq).trans (h q j hq)

/-- The translation is read from the leaves of the tree. -/
theorem SameLookups.translate (h : SameLookups pml4 s s') (v : Nat) :
    s'.translate pml4 v = s.translate pml4 v := congrArg _ (h _ _ rfl)

/-- The next answer of the page allocator, taken off the tape. -/
theorem Inv.pop (hi : Inv pml4 s) {address : Nat} {tape : List Nat} (ht : s.tape = address :: tape) :
    Inv pml4 { s with tape := tape } where
  tree := hi.tree
  present := hi.present
  aligned := fun a ha => hi.aligned a (by rw [ht]; exact List.mem_cons_of_mem _ ha)
  distinct := by
    have h := hi.distinct
    rw [ht] at h
    exact h.sublist ((List.sublist_cons_self _ _).filter _)
  fresh := fun a ha => hi.fresh a (by rw [ht]; exact List.mem_cons_of_mem _ ha)

/-- Hanging the page at the head of the tape into an empty slot.  The slot leads to an empty table
    from then on, and every other path is what it was: the page was no table, so clearing it damages
    none. -/
theorem Inv.hang (hi : Inv pml4 s) {b : Nat} {tape : List Nat} (ht : s.tape = b :: tape)
    (hb : b ≠ null) {p : List Nat} {a i : Nat} (hp : p.length < 3) (ha : s.node pml4 p = some a)
    (hempty : s.words a i = 0) :
    let s' : State :=
      ⟨Radix.write (Radix.clear s.words b) a i (b ||| PG_PRESENT ||| PG_READ_WRITE), tape⟩
    Inv pml4 s' ∧ s'.node pml4 (p ++ [i]) = some b ∧ SameLookups pml4 s s' := by
  intro s'
  have hmem : b ∈ s.tape := by rw [ht]; exact List.mem_cons_self
  obtain ⟨hal, hlt⟩ := hi.aligned b hmem
  have hfresh := hi.fresh b hmem hb
  have he := written_ne_zero b
  have hchild := parseEntryValue_entry hal hlt
  have hnode : ∀ q, q.length ≤ 3 → s'.node pml4 q = if q = p ++ [i] then some b else s.node pml4 q :=
    fun q hq => hi.tree.node_hang hp ha hempty hfresh he hchild hq
  have hpop := hi.pop ht
  have hpresent : Radix.Entries parseEntryValue s'.words pml4 3 Vmm.present :=
    Radix.Entries.hang hi.present hi.tree hp ha hempty hfresh he hchild (present_written b)
  refine ⟨⟨hi.tree.of_hang hp ha hempty hfresh he hchild, hpresent, hpop.aligned, hpop.distinct, ?_⟩,
    ?_, fun q j hq => hi.tree.lookup_hang hp ha hempty hfresh he hchild hq j⟩
  · intro c hc hc0 q hq
    rw [hnode q hq]
    by_cases hq' : q = p ++ [i]
    · rw [if_pos hq']
      have hd := hi.distinct
      rw [ht, List.filter_cons_of_pos (by simpa using hb)] at hd
      have hnot := (List.nodup_cons.mp hd).1
      intro hbc
      refine hnot (Option.some.inj hbc ▸ List.mem_filter.mpr ⟨hc, by simpa using hc0⟩)
    · rw [if_neg hq']
      exact hi.fresh c (by rw [ht]; exact List.mem_cons_of_mem _ hc) hc0 q hq
  · rw [hnode (p ++ [i]) (by simp; omega), if_pos rfl]

/-- What making sure of a level can do: nothing, because it is there; nothing to the tables, because
    there was no page for it; or it hangs in the page at the head of the tape.  This needs no
    invariant: it is what the code does with any words. -/
theorem ensureLevel_cases (s : State) (a : Nat) {i : Nat} (hi512 : i < 512) (flags : Nat) :
    let r := s.ensureLevel a i flags
    (r.2 = .success ∧ s.words a i ≠ 0 ∧ r.1 = s) ∨
    (r.2 = .outOfMemory ∧ s.words a i = 0 ∧ s.tape.getD 0 null = null ∧ r.1.words = s.words ∧
      r.1.tape = s.tape.tail) ∨
    ∃ b tape, r.2 = .success ∧ s.words a i = 0 ∧ s.tape = b :: tape ∧ b ≠ null ∧
      r.1 = ⟨Radix.hang s.words a i b (b ||| PG_PRESENT ||| PG_READ_WRITE), tape⟩ := by
  rw [State.ensureLevel]
  by_cases hempty : s.words a i = 0
  · rw [if_pos hempty, State.getNextLevel, if_neg (Nat.not_le.mpr hi512), State.mmAllocateSinglePage]
    cases htape : s.tape with
    | nil =>
      refine Or.inr (Or.inl ⟨rfl, hempty, rfl, rfl, htape⟩)
    | cons b tape =>
      dsimp only
      by_cases hb : b = null
      · rw [if_pos hb]
        exact Or.inr (Or.inl ⟨rfl, hempty, hb, rfl, rfl⟩)
      · rw [if_neg hb]
        exact Or.inr (Or.inr ⟨b, tape, rfl, hempty, rfl, hb, rfl⟩)
  · rw [if_neg hempty]
    exact Or.inl ⟨rfl, hempty, rfl⟩

/-- Only the tape of the states differs, by the head. -/
theorem Inv.of_tail (hi : Inv pml4 s) (hwords : s'.words = s.words) (htape : s'.tape = s.tape.tail) :
    Inv pml4 s' := by
  have hs' : s' = { s with tape := s.tape.tail } := by
    rw [← hwords, ← htape]
  rw [hs']
  cases ht : s.tape with
  | nil =>
    rw [List.tail_nil, ← ht]
    exact hi
  | cons b tape => exact hi.pop ht

/-- **What making sure of a level does**: the table is there, or the page allocator had none; no
    translation changes either way. -/
theorem ensureLevel_spec (hi : Inv pml4 s) {p : List Nat} {a i : Nat} (hp : p.length < 3)
    (ha : s.node pml4 p = some a) (hi512 : i < 512) (flags : Nat) :
    let r := s.ensureLevel a i flags
    Inv pml4 r.1 ∧ SameLookups pml4 s r.1 ∧
      ((r.2 = .success ∧ r.1.node pml4 (p ++ [i]) = some (parseEntryValue (r.1.words a i))) ∨
        r.2 = .outOfMemory) := by
  have hcases := ensureLevel_cases s a hi512 flags
  dsimp only at hcases ⊢
  generalize s.ensureLevel a i flags = r at hcases ⊢
  rcases hcases with ⟨hok, hfull, hr⟩ | ⟨hoom, -, -, hwords, htape⟩ | ⟨b, tape, hok, hempty, ht, hb, hr⟩
  · rw [hr]
    refine ⟨hi, fun _ _ _ => rfl, Or.inl ⟨hok, ?_⟩⟩
    rw [State.node, Radix.node_snoc ha, if_neg hfull]
    rfl
  · refine ⟨hi.of_tail hwords htape, fun q j _ => ?_, Or.inr hoom⟩
    rw [State.lookup, State.lookup, hwords]
  · obtain ⟨hinv, hnode, hsame⟩ := hi.hang ht hb hp ha hempty
    obtain ⟨hal, hlt⟩ := hi.aligned b (by rw [ht]; exact List.mem_cons_self)
    rw [hr]
    refine ⟨hinv, hsame, Or.inl ⟨hok, hnode.trans ?_⟩⟩
    show some b = some (parseEntryValue (Radix.write _ a i _ a i))
    rw [Radix.write_same, parseEntryValue_entry hal hlt]

/-! ## Down the levels -/

/-- Every level of a path is made sure of, from the table `a` on; the status, and the last table.
    The three steps of `MmMapPage` written as one, so that what holds of a level can be carried down
    by induction. -/
def State.descend : State → Nat → List (Nat × Nat) → State × NearStatus × Nat
  | s, a, [] => (s, .success, a)
  | s, a, (i, flags) :: path =>
    let r := s.ensureLevel a i flags
    if r.2.nrSuccess = false then (r.1, r.2, a)
    else r.1.descend (parseEntryValue (r.1.words a i)) path

/-- The slots on the way to the page table of a virtual address, with their flags. -/
def slots (virtAddr flags : Nat) : List (Nat × Nat) :=
  [(getPml4Entry virtAddr, flags ||| PG_READ_WRITE), (getPdptEntry virtAddr, flags ||| PG_READ_WRITE),
    (getPdEntry virtAddr, flags)]

/-- Nine bits are less than 512. -/
theorem getPml4Entry_lt (v : Nat) : getPml4Entry v < 512 := by
  rw [getPml4Entry_eq]; exact Nat.mod_lt _ (by decide)

/-- Nine bits are less than 512. -/
theorem getPdptEntry_lt (v : Nat) : getPdptEntry v < 512 := by
  rw [getPdptEntry_eq]; exact Nat.mod_lt _ (by decide)

/-- Nine bits are less than 512. -/
theorem getPdEntry_lt (v : Nat) : getPdEntry v < 512 := by
  rw [getPdEntry_eq]; exact Nat.mod_lt _ (by decide)

/-- So no level is ever asked for with an index that is out of range. -/
theorem slots_lt {v flags : Nat} {c : Nat × Nat} (hc : c ∈ slots v flags) : c.1 < 512 := by
  rcases List.mem_cons.mp hc with rfl | hc
  · exact getPml4Entry_lt v
  · rcases List.mem_cons.mp hc with rfl | hc
    · exact getPdptEntry_lt v
    · rw [List.mem_singleton.mp hc]
      exact getPdEntry_lt v

/-- `MmMapPage` goes down to the page table and writes the entry.  The order in which the source
    interleaves tests and loads is the order of the path. -/
theorem mmMapPage_eq (s : State) (pml4 phys v flags : Nat) :
    s.mmMapPage pml4 phys v flags =
      let r := s.descend pml4 (slots v flags)
      if r.2.1.nrSuccess = false then (r.1, r.2.1)
      else
        ({ r.1 with
            words := Radix.write r.1.words r.2.2 (getPtEntry v)
              (phys ||| PG_PRESENT ||| PG_READ_WRITE) },
          .success) := by
  rw [State.mmMapPage, slots]
  simp only [State.descend]
  split
  · rfl
  · split
    · rfl
    · split
      · rfl
      · rfl

/-- **What the way down does.**  Induction on the path: each level is one more table on the path
    from the pml4, and its table is where the next one starts. -/
theorem descend_spec {path : List (Nat × Nat)} (hpath : ∀ c ∈ path, c.1 < 512) (hi : Inv pml4 s)
    {p : List Nat} {a : Nat} (hp : p.length + path.length ≤ 3) (ha : s.node pml4 p = some a) :
    let r := s.descend a path
    Inv pml4 r.1 ∧ SameLookups pml4 s r.1 ∧
      ((r.2.1 = .success ∧ r.1.node pml4 (p ++ path.map Prod.fst) = some r.2.2) ∨
        r.2.1 = .outOfMemory) := by
  induction path generalizing s p a with
  | nil =>
    refine ⟨hi, fun _ _ _ => rfl, Or.inl ⟨rfl, ?_⟩⟩
    rw [List.map_nil, List.append_nil]
    exact ha
  | cons c path ih =>
    obtain ⟨i, flags⟩ := c
    rw [List.length_cons] at hp
    obtain ⟨hi₁, hsame₁, hres₁⟩ := ensureLevel_spec hi (by omega) ha (hpath _ List.mem_cons_self) flags
    rw [State.descend]
    dsimp only
    generalize s.ensureLevel a i flags = r at hi₁ hsame₁ hres₁ ⊢
    rcases hres₁ with ⟨hok, hn⟩ | hfail
    · have hlen : (p ++ [i]).length + path.length ≤ 3 := by
        rw [List.length_append, List.length_singleton]
        omega
      obtain ⟨hi₂, hsame₂, hres₂⟩ := ih (fun c hc => hpath c (List.mem_cons_of_mem _ hc)) hi₁ hlen hn
      rw [hok, if_neg (by decide), List.map_cons, List.append_cons]
      exact ⟨hi₂, hsame₁.trans hsame₂, hres₂⟩
    · rw [hfail, if_pos (by decide)]
      exact ⟨hi₁, hsame₁, Or.inr rfl⟩

/-! ## The three functions -/

/-- Writing a page-table entry: what every address translates to.  An entry is the end of one path
    only, so one page number is translated differently, and the tree is the same. -/
theorem Inv.write_entry (hi : Inv pml4 s) {v a : Nat} (ha : s.node pml4 (pathOf v) = some a)
    {e : Nat} (he : e ≠ 0 → Vmm.present e) :
    let s' : State := { s with words := Radix.write s.words a (getPtEntry v) e }
    Inv pml4 s' ∧ ∀ w, s'.translate pml4 w = if vpn w = vpn v then
      (if e = 0 then none else some (parseEntryValue e)) else s.translate pml4 w := by
  intro s'
  have hnode : ∀ q, q.length ≤ 3 → s'.node pml4 q = s.node pml4 q :=
    fun q hq => hi.tree.node_write_leaf rfl ha e hq
  have hpresent : Radix.Entries parseEntryValue s'.words pml4 3 Vmm.present :=
    Radix.Entries.write_leaf hi.present hi.tree rfl ha he
  refine ⟨⟨hi.tree.write_leaf rfl ha e, hpresent, hi.aligned, hi.distinct, fun c hc hc0 q hq => ?_⟩,
    fun w => ?_⟩
  · rw [hnode q hq]
    exact hi.fresh c hc hc0 q hq
  · have hl : s'.lookup pml4 (pathOf w) (getPtEntry w) = _ :=
      hi.tree.lookup_write_leaf (i := getPtEntry v) rfl ha e (q := pathOf w) rfl (getPtEntry w)
    unfold State.translate
    rw [hl]
    by_cases hvw : vpn w = vpn v
    · rw [if_pos ((pathOf_eq_iff w v).mpr hvw), if_pos hvw]
      split
      · rfl
      · rfl
    · rw [if_neg fun h => hvw ((pathOf_eq_iff w v).mp h), if_neg hvw]

/-- What `MmMapPage` does with any physical address: it writes the entry, or runs out of memory and
    translates nothing differently.  The address need not be aligned: then its low bits get mixed up
    with those of the entry, which is what this says. -/
theorem mmMapPage_writes (hi : Inv pml4 s) (phys v flags : Nat) :
    let r := s.mmMapPage pml4 phys v flags
    Inv pml4 r.1 ∧
      ((r.2 = .success ∧ ∀ w, r.1.translate pml4 w = if vpn w = vpn v then
          some (parseEntryValue (phys ||| PG_PRESENT ||| PG_READ_WRITE)) else s.translate pml4 w) ∨
        (r.2 = .outOfMemory ∧ ∀ w, r.1.translate pml4 w = s.translate pml4 w)) := by
  rw [mmMapPage_eq]
  dsimp only
  have hpath : ∀ c ∈ slots v flags, c.1 < 512 := fun _ hc => slots_lt hc
  obtain ⟨hi', hsame, hres⟩ := descend_spec hpath hi (p := []) (Nat.le_refl 3) rfl
  generalize s.descend pml4 (slots v flags) = r at hi' hsame hres ⊢
  rcases hres with ⟨hok, hn⟩ | hfail
  · rw [hok, if_neg (by decide)]
    obtain ⟨hinv, htr⟩ := hi'.write_entry (v := v) hn
      (e := phys ||| PG_PRESENT ||| PG_READ_WRITE) fun _ => present_written phys
    refine ⟨hinv, Or.inl ⟨rfl, fun w => ?_⟩⟩
    rw [htr w, hsame.translate, if_neg (written_ne_zero phys)]
  · rw [hfail, if_pos (by decide)]
    exact ⟨hi', Or.inr ⟨rfl, hsame.translate⟩⟩

/-- **What `MmMapPage` does**: it maps the page, or runs out of memory and translates nothing
    differently. -/
theorem mmMapPage_spec (hi : Inv pml4 s) {phys : Nat} (hal : phys % 0x1000 = 0)
    (hlt : phys < 2 ^ 64) (v flags : Nat) :
    let r := s.mmMapPage pml4 phys v flags
    Inv pml4 r.1 ∧
      ((r.2 = .success ∧ ∀ w, r.1.translate pml4 w =
          if vpn w = vpn v then some phys else s.translate pml4 w) ∨
        (r.2 = .outOfMemory ∧ ∀ w, r.1.translate pml4 w = s.translate pml4 w)) := by
  have hwrites := mmMapPage_writes hi phys v flags
  rw [parseEntryValue_entry hal hlt] at hwrites
  exact hwrites

/-- Pages with one number translate alike. -/
theorem translate_vpn {v w : Nat} (h : vpn w = vpn v) : s.translate pml4 w = s.translate pml4 v := by
  obtain ⟨hpath, hslot⟩ := (pathOf_eq_iff w v).mpr h
  unfold State.translate
  rw [hpath, hslot]

/-- The walk down the tables, as the source spells it out. -/
theorem node_pathOf (s : State) (pml4 v : Nat) : s.node pml4 (pathOf v) =
    let pdpt := parseEntryValue (s.words pml4 (getPml4Entry v))
    let pd := parseEntryValue (s.words pdpt (getPdptEntry v))
    if s.words pml4 (getPml4Entry v) = 0 then none
    else if s.words pdpt (getPdptEntry v) = 0 then none
    else if s.words pd (getPdEntry v) = 0 then none
    else some (parseEntryValue (s.words pd (getPdEntry v))) := rfl

/-- Without a page table a page is not mapped. -/
theorem translate_none (h : s.node pml4 (pathOf v) = none) : s.translate pml4 v = none := by
  rw [State.translate, State.lookup, Radix.lookup]
  rw [show Radix.node parseEntryValue s.words pml4 (pathOf v) = none from h]
  rfl

/-- `MmUnmapPage` goes down to the page table, if there is one, and empties the entry. -/
theorem mmUnmapPage_eq (s : State) (pml4 v : Nat) :
    s.mmUnmapPage pml4 v = match s.node pml4 (pathOf v) with
      | none => (s, .notMapped)
      | some pt => ({ s with words := Radix.write s.words pt (getPtEntry v) 0 }, .success) := by
  rw [node_pathOf, State.mmUnmapPage]
  dsimp only
  split
  · rfl
  · split
    · rfl
    · split
      · rfl
      · rfl

/-- **What `MmUnmapPage` does**: the page is not mapped any more, the others are as they were.  When
    there is no page table nothing is written, and the page was not mapped to begin with. -/
theorem mmUnmapPage_spec (hi : Inv pml4 s) (v : Nat) :
    let r := s.mmUnmapPage pml4 v
    Inv pml4 r.1 ∧ (r.2 = .success ∨ r.2 = .notMapped) ∧
      ∀ w, r.1.translate pml4 w = if vpn w = vpn v then none else s.translate pml4 w := by
  rw [mmUnmapPage_eq]
  cases hnode : s.node pml4 (pathOf v) with
  | none =>
    -- the page was not mapped in the first place
    refine ⟨hi, Or.inr rfl, fun w => ?_⟩
    by_cases hvw : vpn w = vpn v
    · rw [if_pos hvw, translate_vpn hvw, translate_none hnode]
    · rw [if_neg hvw]
  | some pt =>
    obtain ⟨hinv, htr⟩ := hi.write_entry hnode (e := 0) fun h => absurd rfl h
    exact ⟨hinv, Or.inl rfl, htr⟩

/-- **`MmCheckIfPageIsMapped`** says whether the page is mapped. -/
theorem mmCheckIfPageIsMapped_spec (s : State) (pml4 v : Nat) :
    s.mmCheckIfPageIsMapped pml4 v = (s.translate pml4 v).isSome := by
  rw [State.translate, State.lookup, Radix.lookup]
  rw [show Radix.node parseEntryValue s.words pml4 (pathOf v) = _ from node_pathOf s pml4 v]
  rw [State.mmCheckIfPageIsMapped]
  dsimp only
  split
  · rfl
  · split
    · rfl
    · split
      · rfl
      · rw [Option.bind_some]
        split
        · rfl
        · rfl

/-- An entry of a table is present exactly when it is not empty. -/
theorem Inv.present_iff (hi : Inv pml4 s) {p : List Nat} {a : Nat} (hp : p.length ≤ 3)
    (ha : s.node pml4 p = some a) (i : Nat) : Vmm.present (s.words a i) ↔ s.words a i ≠ 0 := by
  constructor
  · intro hpres h0
    rw [h0] at hpres
    exact hpres rfl
  · exact hi.present p a i hp ha

/-- The walk of the hardware down a path, by present bits.  The general form of the four levels of
    `State.walk`, to be compared with the tree by induction. -/
def State.walkFrom (s : State) : Nat → List Nat → Option Nat
  | a, [] => some a
  | a, i :: path =>
    if Vmm.present (s.words a i) then s.walkFrom (parseEntryValue (s.words a i)) path else none

/-- Tables that are walked to are found in the tree.  Induction on the path left. -/
theorem Inv.walkFrom_eq (hi : Inv pml4 s) : ∀ (path p : List Nat) (a : Nat),
    p.length + path.length ≤ 4 → s.node pml4 p = some a →
    s.walkFrom a path = Radix.node parseEntryValue s.words a path := by
  intro path
  induction path with
  | nil =>
    intro p a _ _
    rfl
  | cons i path ih =>
    intro p a hlen ha
    rw [List.length_cons] at hlen
    have hpres := hi.present_iff (by omega) ha i
    rw [State.walkFrom, Radix.node]
    by_cases hempty : s.words a i = 0
    · rw [if_neg fun h => hpres.mp h hempty, if_pos hempty]
    · rw [if_pos (hpres.mpr hempty), if_neg hempty]
      apply ih (p ++ [i])
      · rw [List.length_append, List.length_singleton]
        omega
      · rw [State.node, Radix.node_snoc ha, if_neg hempty]
        rfl

/-- **The walk of the hardware** is the lookup in the tree.  So the hardware sees what the code has
    in mind: entries that are not empty are present. -/
theorem walk_spec (hi : Inv pml4 s) (v : Nat) : s.walk pml4 v = s.translate pml4 v := by
  calc s.walk pml4 v
      = s.walkFrom pml4 (pathOf v ++ [getPtEntry v]) := rfl
    _ = s.node pml4 (pathOf v ++ [getPtEntry v]) := hi.walkFrom_eq _ [] pml4 (Nat.le_refl 4) rfl
    _ = s.translate pml4 v := (Radix.lookup_map _ _).symm

/-! ## Runs -/

/-- A call and its status. -/
inductive Event
  | map (physAddr virtAddr flags : Nat) (status : NearStatus)
  | unmap (virtAddr : Nat) (status : NearStatus)
  deriving DecidableEq, Repr

/-- One call.  Physical addresses are page-aligned and below `2 ^ 52`.  The bound on the addresses
    is that of the hardware; without it an entry could not hold them. -/
inductive Step (pml4 : Nat) : State → Event → State → Prop
  | map {s : State} {phys : Nat} (virt flags : Nat) : phys % 0x1000 = 0 → phys < 2 ^ 52 →
      Step pml4 s (.map phys virt flags (s.mmMapPage pml4 phys virt flags).2)
        (s.mmMapPage pml4 phys virt flags).1
  | unmap {s : State} (virt : Nat) :
      Step pml4 s (.unmap virt (s.mmUnmapPage pml4 virt).2) (s.mmUnmapPage pml4 virt).1

/-- The pml4 is empty, and the page allocator will hand out aligned pages, each once, and never the
    pml4.  This is what `MmInitVirtualMemoryManager` begins with, when the root table is a page. -/
structure Started (pml4 : Nat) (s : State) : Prop where
  zero : ∀ i, s.words pml4 i = 0
  aligned : ∀ a ∈ s.tape, a % 0x1000 = 0 ∧ a < 2 ^ 64
  distinct : (s.tape.filter fun a => decide (a ≠ null)).Nodup
  fresh : ∀ a ∈ s.tape, a ≠ null → a ≠ pml4

/-- In an empty pml4 there is no way down. -/
theorem Started.node (h : Started pml4 s) {p : List Nat} {a : Nat} (ha : s.node pml4 p = some a) :
    p = [] ∧ a = pml4 := by
  cases p with
  | nil => exact ⟨rfl, (Option.some.inj ha).symm⟩
  | cons i p =>
    have : s.node pml4 (i :: p) = none := if_pos (h.zero i)
    rw [this] at ha
    exact nomatch ha

/-- An empty pml4 is a tree. -/
theorem Started.inv (h : Started pml4 s) : Inv pml4 s where
  tree := fun p q a _ _ hp hq => (h.node hp).1.trans (h.node hq).1.symm
  present := fun p a i _ ha hne => absurd (by rw [(h.node ha).2]; exact h.zero i) hne
  aligned := h.aligned
  distinct := h.distinct
  fresh := fun a ha ha0 p _ hp => h.fresh a ha ha0 (h.node hp).2

/-- What the history says a page number is mapped to; newest event first.  A mapping that fails is
    passed over, an unmapping counts whatever it reports. -/
def latest : List Event → Nat → Option Nat
  | [], _ => none
  | .map phys virt _ .success :: h, n => if n = vpn virt then some phys else latest h n
  | .map .. :: h, n => latest h n
  | .unmap virt _ :: h, n => if n = vpn virt then none else latest h n

/-- The invariant, and the translation of every address by the history. -/
theorem run_inv (h0 : Started pml4 s) {h : List Event} (run : Trace (Step pml4) s h s') :
    Inv pml4 s' ∧ ∀ v, s'.translate pml4 v = latest h (vpn v) := by
  refine run.history_inv (I := fun h s => Inv pml4 s ∧ ∀ v, s.translate pml4 v = latest h (vpn v))
    ⟨h0.inv, fun v => ?_⟩ ?_
  · have hnone : s.node pml4 (pathOf v) = none := if_pos (h0.zero _)
    exact translate_none hnone
  · rintro h s e s' - ⟨hi, htr⟩ hs
    cases hs with
    | @map phys virt flags hal hlt =>
      obtain ⟨hinv, ⟨hst, hmap⟩ | ⟨hst, hmap⟩⟩ :=
        mmMapPage_spec hi hal (Nat.lt_trans hlt (by decide)) virt flags
      · rw [hst]
        exact ⟨hinv, fun v => by rw [hmap v, htr v]; rfl⟩
      · rw [hst]
        exact ⟨hinv, fun v => by rw [hmap v, htr v]; rfl⟩
    | unmap virt =>
      obtain ⟨hinv, -, hmap⟩ := mmUnmapPage_spec hi virt
      exact ⟨hinv, fun v => by rw [hmap v, htr v]; rfl⟩

/-- **The page tables implement a map.**  In every state of every run from an empty pml4, the walk
    of every virtual address gives the page of the latest successful mapping of its page number that
    was not unmapped since, and nothing where there is none; `MmCheckIfPageIsMapped` is true on the
    mapped page numbers; and a mapping that runs out of memory changes the translation of no
    address.  The crux is `Inv`: the tables are a tree without sharing, and it survives because
    every new table is a page that was none.  Given the tree, each call is a statement about one
    leaf (`mmMapPage_spec`, `mmUnmapPage_spec`), and the walk of the hardware is a lookup
    (`walk_spec`).  Answers of the page allocator are arbitrary up to `Started`: any of them may be
    `NULL`. -/
theorem page_tables_implement_map (h0 : Started pml4 s) {h : List Event}
    (run : Trace (Step pml4) s h s') :
    (∀ v, s'.walk pml4 v = latest h (vpn v)) ∧
    (∀ v, s'.mmCheckIfPageIsMapped pml4 v = (latest h (vpn v)).isSome) ∧
    ∀ phys virt flags s'', Step pml4 s' (.map phys virt flags .outOfMemory) s'' →
      ∀ v, s''.walk pml4 v = s'.walk pml4 v := by
  obtain ⟨hi, htr⟩ := run_inv h0 run
  refine ⟨fun v => by rw [walk_spec hi, htr v],
    fun v => by rw [mmCheckIfPageIsMapped_spec, htr v], fun phys virt flags s'' hs v => ?_⟩
  obtain ⟨hi'', htr''⟩ := run_inv h0 (run.snoc hs)
  rw [walk_spec hi'', walk_spec hi, htr'' v, htr v]
  rfl

/-- One page mapped, with tables at 1 MiB and above. -/
theorem page_tables_implement_map_first :
    ∃ s', Trace (Step 0x1000) ⟨fun _ _ => 0, [0x100000, 0x101000, 0x102000]⟩
        [.map 0x5000 0x7000 0 .success] s' ∧
      (∀ v, s'.walk 0x1000 v = if vpn v = vpn 0x7000 then some 0x5000 else none) := by
  have h0 : Started 0x1000 ⟨fun _ _ => 0, [0x100000, 0x101000, 0x102000]⟩ :=
    ⟨fun _ => rfl, by decide, by decide, by decide⟩
  let s : State := ⟨fun _ _ => 0, [0x100000, 0x101000, 0x102000]⟩
  have hstep : Step 0x1000 s (.map 0x5000 0x7000 0 (s.mmMapPage 0x1000 0x5000 0x7000 0).2)
      (s.mmMapPage 0x1000 0x5000 0x7000 0).1 := .map 0x7000 0 (by decide) (by decide)
  have hst : (s.mmMapPage 0x1000 0x5000 0x7000 0).2 = .success := by decide
  rw [hst] at hstep
  have hrun := Trace.start.snoc hstep
  exact ⟨_, hrun, (page_tables_implement_map h0 hrun).1⟩

end Nearlands.Vmm
