/-
  The page tables of the loader (`nearmonia`, `mm/amd64pc/vmm.c`).

  The loader has its own walk down the four levels, written after another pattern than the
  kernel's: its `GetNextLevel` returns the new table and the caller writes the entry.  On the same
  memory the two do the same, call by call (`mmMapSinglePage_eq`).  And what `MmMapPage` builds does
  not depend on where the pml4 is and what else is in memory (`mmMapPage_same`): so loader and
  kernel, each from an empty pml4 of its own, build the same address space
  (`same_address_space`).
-/
import Nearlands.Vmm.Map

namespace Nearlands.Ldr

open Nearlands.Lib Nearlands.Vmm

/-- `GetNextLevel(address)`: the table, or nothing when `AllocatePages` does not return
    `EFI_SUCCESS`.  The page is cleared whether or not it was used as a table before. -/
def getNextLevel (s : State) : State × Option Nat :=
  let (s, addr) := s.mmAllocateSinglePage
  if addr = null then (s, none)
  else ({ s with words := Radix.clear s.words addr }, some addr)

/-- `if(table[entry] == 0)`, then `GetNextLevel` and the entry.  The loader writes the entry itself,
    where the kernel has its `GetNextLevel` do it. -/
def ensureLevel (s : State) (table entry : Nat) : State × Bool :=
  if s.words table entry = 0 then
    match getNextLevel s with
    | (s, none) => (s, false)
    | (s, some addr) =>
      ({ s with words := Radix.write s.words table entry (addr ||| PG_PRESENT ||| PG_READ_WRITE) },
        true)
  else (s, true)

/-- `MmMapSinglePage(address, virtAddress)`.  The status is a `BOOLEAN`, so that a caller cannot
    tell why it failed. -/
def mmMapSinglePage (s : State) (pml4 address virtAddress : Nat) : State × Bool :=
  let pml4Entry := getPml4Entry virtAddress
  let pdptEntry := getPdptEntry virtAddress
  let pdEntry := getPdEntry virtAddress
  let ptEntry := getPtEntry virtAddress
  let r := ensureLevel s pml4 pml4Entry
  if r.2 = false then r
  else
    let pdpt := parseEntryValue (r.1.words pml4 pml4Entry)
    let r := ensureLevel r.1 pdpt pdptEntry
    if r.2 = false then r
    else
      let pd := parseEntryValue (r.1.words pdpt pdptEntry)
      let r := ensureLevel r.1 pd pdEntry
      if r.2 = false then r
      else
        let pt := parseEntryValue (r.1.words pd pdEntry)
        let words := Radix.write r.1.words pt ptEntry (address ||| PG_PRESENT ||| PG_READ_WRITE)
        ({ r.1 with words := words }, true)

/-- The loop of `MmMapHigherHalfMemoryForKernel`, from page `i` on, with `n` turns left.  Both
    addresses are computed anew for every page, and wrap. -/
def mapHigherHalf (s : State) (pml4 address : Nat) : Nat → Nat → State × Bool
  | _, 0 => (s, true)
  | i, n + 1 =>
    let r := mmMapSinglePage s pml4 (w64 (address + i * 0x1000)) (w64 (HHDM_OFFSET + i * 0x1000))
    if r.2 = false then r else mapHigherHalf r.1 pml4 address (i + 1) n

/-- `MmMapHigherHalfMemoryForKernel(address, kernSize)`. -/
def mmMapHigherHalfMemoryForKernel (s : State) (pml4 address kernSize : Nat) : State × Bool :=
  mapHigherHalf s pml4 address 0 ((kernSize + 0xFFF) / 0x1000)

/-! ## The same program -/

/-- Level by level the two are the same. -/
theorem ensureLevel_eq (s : State) (table : Nat) {entry : Nat} (h : entry < 512) (flags : Nat) :
    ensureLevel s table entry =
      ((s.ensureLevel table entry flags).1, (s.ensureLevel table entry flags).2.nrSuccess) := by
  rw [ensureLevel, State.ensureLevel]
  split
  · rw [getNextLevel, State.getNextLevel, if_neg (Nat.not_le.mpr h)]
    dsimp only
    rcases eq_or_ne s.mmAllocateSinglePage.2 null with h0 | h0
    · rw [if_pos h0, if_pos h0]
      rfl
    · rw [if_neg h0, if_neg h0]
      rfl
  · rfl

/-- **The two walks are one.**  On the same memory `MmMapSinglePage` leaves the state `MmMapPage`
    leaves, and returns `TRUE` exactly when that returns `STATUS_SUCCESS`.  The flags have no part
    in it, as the kernel does not use them. -/
theorem mmMapSinglePage_eq (s : State) (pml4 address virtAddress flags : Nat) :
    mmMapSinglePage s pml4 address virtAddress =
      ((s.mmMapPage pml4 address virtAddress flags).1,
        (s.mmMapPage pml4 address virtAddress flags).2.nrSuccess) := by
  have hpd : getPdEntry virtAddress < 512 := getPdEntry_lt _
  rw [mmMapSinglePage, State.mmMapPage]
  dsimp only
  rw [ensureLevel_eq s pml4 (getPml4Entry_lt _) (flags ||| PG_READ_WRITE)]
  generalize s.ensureLevel pml4 (getPml4Entry virtAddress) (flags ||| PG_READ_WRITE) = r
  dsimp only
  split
  · exact Prod.ext rfl rfl
  · rw [ensureLevel_eq r.1 _ (getPdptEntry_lt _) (flags ||| PG_READ_WRITE)]
    generalize r.1.ensureLevel _ (getPdptEntry virtAddress) (flags ||| PG_READ_WRITE) = r'
    dsimp only
    split
    · exact Prod.ext rfl rfl
    · rw [ensureLevel_eq r'.1 _ hpd flags]
      generalize r'.1.ensureLevel _ (getPdEntry virtAddress) flags = r''
      dsimp only
      split
      · exact Prod.ext rfl rfl
      · rfl

/-! ## The same tables -/

section same

variable {pml4 pml4' : Nat} {s s' : State}

/-- The pages to come are the same, and at the end of every path there are the same entries.  A row
    is what an empty table looks like where there is none, so that the addresses of tables drop
    out. -/
structure Same (pml4 : Nat) (s : State) (pml4' : Nat) (s' : State) : Prop where
  tape : s'.tape = s.tape
  rows : ∀ q, q.length ≤ 3 → Radix.row parseEntryValue s'.words pml4' q =
    Radix.row parseEntryValue s.words pml4 q

/-- At the ends of one path. -/
theorem Same.words (h : Same pml4 s pml4' s') {q : List Nat} (hq : q.length ≤ 3) {a a' : Nat}
    (ha : s.node pml4 q = some a) (ha' : s'.node pml4' q = some a') : s'.words a' = s.words a := by
  have hrow := h.rows q hq
  rw [Radix.row_of_node ha, Radix.row_of_node ha'] at hrow
  exact Option.some.inj hrow

/-- The head of the tape is hung into the same empty slot.  The page itself is the same on both
    sides, as the tapes are. -/
theorem Same.hang (h : Same pml4 s pml4' s') (hi : Inv pml4 s) (hi' : Inv pml4' s') {b : Nat}
    {tape : List Nat} (ht : s.tape = b :: tape) (hb : b ≠ null) {p : List Nat} {a a' i : Nat}
    (hp : p.length < 3) (ha : s.node pml4 p = some a) (ha' : s'.node pml4' p = some a')
    (hempty : s.words a i = 0) :
    Same pml4 ⟨Radix.write (Radix.clear s.words b) a i (b ||| PG_PRESENT ||| PG_READ_WRITE), tape⟩
      pml4' ⟨Radix.write (Radix.clear s'.words b) a' i (b ||| PG_PRESENT ||| PG_READ_WRITE),
        tape⟩ := by
  have hmem : b ∈ s.tape := by rw [ht]; exact List.mem_cons_self
  have hmem' : b ∈ s'.tape := by rw [h.tape]; exact hmem
  obtain ⟨hal, hlt⟩ := hi.aligned b hmem
  have he := written_ne_zero b
  have hchild := parseEntryValue_entry hal hlt
  have hwords := h.words (Nat.le_of_lt hp) ha ha'
  constructor
  · rfl
  · intro q hq
    show Radix.row _ (Radix.hang s'.words a' i b _) pml4' q =
      Radix.row _ (Radix.hang s.words a i b _) pml4 q
    rw [hi.tree.row_hang hp ha hempty (hi.fresh b hmem hb) he hchild hq,
      hi'.tree.row_hang hp ha' (by rw [hwords]; exact hempty) (hi'.fresh b hmem' hb) he hchild hq,
      hwords, h.rows q hq]

/-- Making sure of a level. -/
theorem ensureLevel_same (h : Same pml4 s pml4' s') (hi : Inv pml4 s) (hi' : Inv pml4' s')
    {p : List Nat} {a a' i : Nat} (hp : p.length < 3) (ha : s.node pml4 p = some a)
    (ha' : s'.node pml4' p = some a') (flags : Nat) :
    (s'.ensureLevel a' i flags).2 = (s.ensureLevel a i flags).2 ∧
    Same pml4 (s.ensureLevel a i flags).1 pml4' (s'.ensureLevel a' i flags).1 := by
  have hword : s'.words a' i = s.words a i := congrFun (h.words (Nat.le_of_lt hp) ha ha') i
  rw [State.ensureLevel, State.ensureLevel, hword]
  rcases eq_or_ne (s.words a i) 0 with hempty | hfull
  · rw [if_pos hempty, if_pos hempty, State.getNextLevel, State.getNextLevel]
    split
    · exact ⟨rfl, h⟩
    · rw [State.mmAllocateSinglePage, State.mmAllocateSinglePage, h.tape]
      cases ht : s.tape with
      | nil => exact ⟨rfl, h⟩
      | cons b tape =>
        dsimp only
        rcases eq_or_ne b null with hb | hb
        · rw [if_pos hb, if_pos hb]
          exact ⟨rfl, rfl, h.rows⟩
        · rw [if_neg hb, if_neg hb]
          exact ⟨rfl, h.hang hi hi' ht hb hp ha ha' hempty⟩
  · rw [if_neg hfull, if_neg hfull]
    exact ⟨rfl, h⟩

/-- Both states, at one path: they are trees, and the same.  This is the simulation between the two
    sides: it holds at the start, and each call keeps it. -/
structure Twins (pml4 : Nat) (s : State) (pml4' : Nat) (s' : State) : Prop where
  left : Inv pml4 s
  right : Inv pml4' s'
  same : Same pml4 s pml4' s'

/-- One level further down, or out of memory, on both sides. -/
theorem Twins.ensureLevel (h : Twins pml4 s pml4' s') {p : List Nat} {a a' i : Nat}
    (hp : p.length < 3) (ha : s.node pml4 p = some a) (ha' : s'.node pml4' p = some a')
    (hi : i < 512) (flags : Nat) :
    let r := s.ensureLevel a i flags
    let r' := s'.ensureLevel a' i flags
    Twins pml4 r.1 pml4' r'.1 ∧ r'.2 = r.2 ∧
    ((r.2 = .success ∧ r.1.node pml4 (p ++ [i]) = some (parseEntryValue (r.1.words a i)) ∧
      r'.1.node pml4' (p ++ [i]) = some (parseEntryValue (r'.1.words a' i))) ∨
      r.2 = .outOfMemory) := by
  dsimp only
  obtain ⟨hst, hsame⟩ := ensureLevel_same (i := i) h.same h.left h.right hp ha ha' flags
  obtain ⟨hi₁, -, hres⟩ := ensureLevel_spec h.left hp ha hi flags
  obtain ⟨hi₂, -, hres'⟩ := ensureLevel_spec h.right hp ha' hi flags
  refine ⟨⟨hi₁, hi₂, hsame⟩, hst, ?_⟩
  rcases hres with ⟨hok, hn⟩ | hfail
  · rcases hres' with ⟨-, hn'⟩ | hfail'
    · exact Or.inl ⟨hok, hn, hn'⟩
    · rw [hst, hok] at hfail'
      cases hfail'
  · exact Or.inr hfail

/-- The way down, or out of memory, on both sides. -/
theorem Twins.descend (h : Twins pml4 s pml4' s') {path : List (Nat × Nat)}
    (hpath : ∀ c ∈ path, c.1 < 512) {p : List Nat} {a a' : Nat} (hp : p.length + path.length ≤ 3)
    (ha : s.node pml4 p = some a) (ha' : s'.node pml4' p = some a') :
    let r := s.descend a path
    let r' := s'.descend a' path
    Twins pml4 r.1 pml4' r'.1 ∧ r'.2.1 = r.2.1 ∧
    ((r.2.1 = .success ∧ r.1.node pml4 (p ++ path.map Prod.fst) = some r.2.2 ∧
      r'.1.node pml4' (p ++ path.map Prod.fst) = some r'.2.2) ∨ r.2.1 = .outOfMemory) := by
  induction path generalizing s s' p a a' with
  | nil =>
    rw [List.map_nil, List.append_nil]
    exact ⟨h, rfl, Or.inl ⟨rfl, ha, ha'⟩⟩
  | cons c path ih =>
    obtain ⟨i, flags⟩ := c
    rw [List.length_cons] at hp
    have hlen : (p ++ [i]).length + path.length ≤ 3 := by
      rw [List.length_append, List.length_singleton]
      omega
    obtain ⟨h₁, hst₁, hres₁⟩ := h.ensureLevel (by omega) ha ha' (hpath _ List.mem_cons_self) flags
    rw [State.descend, State.descend]
    dsimp only at h₁ hst₁ hres₁ ⊢
    generalize s.ensureLevel a i flags = r at h₁ hst₁ hres₁ ⊢
    generalize s'.ensureLevel a' i flags = r' at h₁ hst₁ hres₁ ⊢
    rw [hst₁]
    rcases hres₁ with ⟨hok, hn, hn'⟩ | hfail
    · rw [hok, if_neg (by decide), if_neg (by decide), List.map_cons, List.append_cons]
      exact ih h₁ (fun c hc => hpath c (List.mem_cons_of_mem _ hc)) hlen hn hn'
    · rw [hfail, if_pos (by decide), if_pos (by decide)]
      exact ⟨h₁, rfl, Or.inr rfl⟩

/-- The entry of a page is written on both sides. -/
theorem Twins.write (h : Twins pml4 s pml4' s') {v a a' : Nat} (ha : s.node pml4 (pathOf v) = some a)
    (ha' : s'.node pml4' (pathOf v) = some a') {e : Nat} (he : e ≠ 0 → present e) :
    Twins pml4 { s with words := Radix.write s.words a (getPtEntry v) e }
      pml4' { s' with words := Radix.write s'.words a' (getPtEntry v) e } := by
  refine ⟨(h.left.write_entry ha he).1, (h.right.write_entry ha' he).1, h.same.tape, ?_⟩
  intro q hq
  rw [h.left.tree.row_write_leaf rfl ha e hq, h.right.tree.row_write_leaf rfl ha' e hq,
    h.same.words (q := pathOf v) (Nat.le_refl 3) ha ha', h.same.rows q hq]

/-- Nothing depends on the flags. -/
theorem mmMapPage_flags (s : State) (pml4 phys v flags flags' : Nat) :
    s.mmMapPage pml4 phys v flags = s.mmMapPage pml4 phys v flags' := rfl

/-- **`MmMapPage` is independent of where its tables are.**  From two memories with the same tables
    it returns the same status and leaves the same tables.  An induction over the levels has to
    carry both trees at once: which tables exist is the same on both sides, where they lie is not. -/
theorem mmMapPage_same (h : Twins pml4 s pml4' s') {phys : Nat} (hal : phys % 0x1000 = 0)
    (v flags flags' : Nat) :
    (s'.mmMapPage pml4' phys v flags').2 = (s.mmMapPage pml4 phys v flags).2 ∧
    Twins pml4 (s.mmMapPage pml4 phys v flags).1 pml4' (s'.mmMapPage pml4' phys v flags').1 := by
  have hpath : ∀ c ∈ slots v flags, c.1 < 512 := fun _ hc => slots_lt hc
  obtain ⟨h', hst, hres⟩ := h.descend hpath (p := []) (Nat.le_refl 3) rfl rfl
  rw [mmMapPage_flags s' pml4' phys v flags' flags, mmMapPage_eq, mmMapPage_eq]
  dsimp only
  generalize s.descend pml4 (slots v flags) = r at h' hst hres ⊢
  generalize s'.descend pml4' (slots v flags) = r' at h' hst hres ⊢
  rw [hst]
  rcases hres with ⟨hok, hn, hn'⟩ | hfail
  · rw [hok, if_neg (by decide), if_neg (by decide)]
    exact ⟨rfl, h'.write hn hn' fun _ => present_entry hal⟩
  · rw [hfail, if_pos (by decide), if_pos (by decide)]
    exact ⟨rfl, h'⟩

/-! ## The same address space -/

/-- The entry allows writes. -/
def writable (x : Nat) : Bool := x &&& PG_READ_WRITE != 0

/-- The 4-level walk with its rights: the physical page of a virtual address, if all four entries
    are present, and whether all four allow writes.  What the processor makes of the bits: a page is
    writable when all four entries say so. -/
def effective (s : State) (pml4 virtAddr : Nat) : Option (Nat × Bool) :=
  let pml4e := s.words pml4 (getPml4Entry virtAddr)
  if present pml4e then
    let pdpte := s.words (parseEntryValue pml4e) (getPdptEntry virtAddr)
    if present pdpte then
      let pde := s.words (parseEntryValue pdpte) (getPdEntry virtAddr)
      if present pde then
        let pte := s.words (parseEntryValue pde) (getPtEntry virtAddr)
        if present pte then
          some (parseEntryValue pte, writable pml4e && writable pdpte && writable pde && writable pte)
        else none
      else none
    else none
  else none

/-- The page is the one of the walk. -/
theorem effective_page (s : State) (pml4 v : Nat) : (effective s pml4 v).map (·.1) = s.walk pml4 v := by
  rw [effective, State.walk]
  dsimp only
  split
  · split
    · split
      · split <;> rfl
      · rfl
    · rfl
  · rfl

/-- An entry that is present leads on. -/
theorem node_of_present {p : List Nat} {a i : Nat} (ha : s.node pml4 p = some a)
    (h : present (s.words a i)) :
    s.node pml4 (p ++ [i]) = some (parseEntryValue (s.words a i)) := by
  have hne : s.words a i ≠ 0 := fun h0 => by
    rw [h0] at h
    exact h rfl
  rw [State.node, Radix.node_snoc ha, if_neg hne]
  rfl

/-- The same tables give every address the same page and the same rights. -/
theorem Same.effective (h : Same pml4 s pml4' s') (v : Nat) :
    effective s' pml4' v = effective s pml4 v := by
  have hroot : s'.words pml4' = s.words pml4 := h.words (q := []) (by decide) rfl rfl
  rw [Ldr.effective, Ldr.effective]
  dsimp only
  rw [hroot]
  split
  · rename_i h₁
    have hn₁ := node_of_present (p := []) rfl h₁
    have hn₁' : s'.node pml4' ([] ++ _) = _ := node_of_present rfl (hroot ▸ h₁)
    rw [hroot] at hn₁'
    generalize parseEntryValue (s.words pml4 (getPml4Entry v)) = pdpt at hn₁ hn₁' ⊢
    have hpdpt := h.words (by simp) hn₁ hn₁'
    rw [hpdpt]
    split
    · rename_i h₂
      have hn₂ := node_of_present hn₁ h₂
      have hn₂' := node_of_present hn₁' (hpdpt ▸ h₂)
      rw [hpdpt] at hn₂'
      generalize parseEntryValue (s.words pdpt (getPdptEntry v)) = pd at hn₂ hn₂' ⊢
      have hpd := h.words (by simp) hn₂ hn₂'
      rw [hpd]
      split
      · rename_i h₃
        have hn₃ := node_of_present hn₂ h₃
        have hn₃' := node_of_present hn₂' (hpd ▸ h₃)
        rw [hpd] at hn₃'
        rw [h.words (by simp) hn₃ hn₃']
      · rfl
    · rfl
  · rfl

/-! ## Runs -/

/-- `MmMapSinglePage` for every (physical, virtual) pair in order, and what each call returned. -/
def mapSinglePages (s : State) (pml4 : Nat) : List (Nat × Nat × Nat) → State × List Bool
  | [] => (s, [])
  | (phys, virt, _) :: calls =>
    let r := mmMapSinglePage s pml4 phys virt
    let rest := mapSinglePages r.1 pml4 calls
    (rest.1, r.2 :: rest.2)

/-- `MmMapPage` for every (physical, virtual, flags) in order, and what each call returned. -/
def mapPages (s : State) (pml4 : Nat) : List (Nat × Nat × Nat) → State × List NearStatus
  | [] => (s, [])
  | (phys, virt, flags) :: calls =>
    let r := s.mmMapPage pml4 phys virt flags
    let rest := mapPages r.1 pml4 calls
    (rest.1, r.2 :: rest.2)

/-- Three more answers, all `NULL`.  Beyond the end of a tape answers are `NULL` anyway, so this
    changes nothing but makes them count. -/
def padded (s : State) : State := { s with tape := s.tape ++ [null, null, null] }

/-- How many table pages a call asks for.  It asks three times at most, and a tape at its end
    answers `NULL`: so with three more `NULL`s it takes what it asks for.  A call that fails has
    asked as well, for the page that it did not get. -/
def asked (call : State → State) (s : State) : Nat :=
  (padded s).tape.length - (call (padded s)).tape.length

/-- `NULL`s at the end of the tape do no harm. -/
theorem Inv.padded (hi : Inv pml4 s) : Inv pml4 (padded s) where
  tree := hi.tree
  present := hi.present
  aligned := by
    rintro a ha
    rcases List.mem_append.mp ha with ha | ha
    · exact hi.aligned a ha
    · have h0 : a = null := by simpa using ha
      rw [h0]
      exact ⟨rfl, by decide⟩
  distinct := by
    have hnone : ([null, null, null].filter fun a => decide (a ≠ null)) = [] := rfl
    rw [Ldr.padded, List.filter_append, hnone, List.append_nil]
    exact hi.distinct
  fresh := by
    rintro a ha h0
    rcases List.mem_append.mp ha with ha | ha
    · exact hi.fresh a ha h0
    · exact absurd (by simpa using ha) h0

/-- Two runs of the same calls.  Induction on the calls, with `Twins` as what each of them keeps. -/
theorem mapPages_same : ∀ (calls : List (Nat × Nat × Nat)) {s s' : State},
    Twins pml4 s pml4' s' → (∀ c ∈ calls, c.1 % 0x1000 = 0) →
    (mapSinglePages s pml4 calls).2 = (mapPages s' pml4' calls).2.map NearStatus.nrSuccess ∧
    Twins pml4 (mapSinglePages s pml4 calls).1 pml4' (mapPages s' pml4' calls).1 := by
  intro calls
  induction calls with
  | nil =>
    intro s s' h _
    exact ⟨rfl, h⟩
  | cons c calls ih =>
    obtain ⟨phys, virt, flags⟩ := c
    intro s s' h hal
    obtain ⟨hst, hnext⟩ := mmMapPage_same h (hal _ List.mem_cons_self) virt flags flags
    have heq := mmMapSinglePage_eq s pml4 phys virt flags
    rw [show (s.mmMapPage pml4 phys virt flags).1 = (mmMapSinglePage s pml4 phys virt).1 by rw [heq]]
      at hnext
    obtain ⟨hres, htwins⟩ := ih hnext fun c hc => hal c (List.mem_cons_of_mem _ hc)
    refine ⟨?_, htwins⟩
    show _ :: _ = _ :: _
    rw [hres, heq, ← hst]

/-- **Loader and kernel build the same address space.**  From an empty pml4 each, and given the same
    answers of the page allocator, `MmMapSinglePage` and `MmMapPage` succeed on the same calls and
    ask for table pages at the same calls; and after any sequence of calls every virtual address has
    the same translation and the same rights.  The hypotheses: both begin with an empty pml4, the
    answers are the same, and physical addresses are aligned.  The virtual addresses are arbitrary,
    and calls may fail; after a failure both sides go on, from the same tables. -/
theorem same_address_space {l k : State} (hl : Started pml4 l) (hk : Started pml4' k)
    (htape : k.tape = l.tape) (calls : List (Nat × Nat × Nat))
    (hal : ∀ c ∈ calls, c.1 % 0x1000 = 0) :
    let l' := mapSinglePages l pml4 calls
    let k' := mapPages k pml4' calls
    l'.2 = k'.2.map NearStatus.nrSuccess ∧ l'.1.tape = k'.1.tape ∧
    (∀ phys virt flags, phys % 0x1000 = 0 →
      asked (fun s => (mmMapSinglePage s pml4 phys virt).1) l'.1 =
        asked (fun s => (s.mmMapPage pml4' phys virt flags).1) k'.1) ∧
    ∀ v, l'.1.walk pml4 v = k'.1.walk pml4' v ∧ effective l'.1 pml4 v = effective k'.1 pml4' v := by
  dsimp only
  have hrow : l.words pml4 = k.words pml4' := funext fun i => (hl.zero i).trans (hk.zero i).symm
  have hstart : Twins pml4 l pml4' k := by
    refine ⟨hl.inv, hk.inv, htape, ?_⟩
    rintro (_ | ⟨i, q⟩) -
    · exact congrArg some hrow.symm
    · rw [Radix.row, Radix.row, Radix.node, Radix.node, if_pos (hl.zero i), if_pos (hk.zero i)]
      rfl
  obtain ⟨hres, h⟩ := mapPages_same calls hstart hal
  refine ⟨hres, h.same.tape.symm, ?_, ?_⟩
  · intro phys virt flags hphys
    have hpad : Twins pml4 (padded (mapSinglePages l pml4 calls).1) pml4'
        (padded (mapPages k pml4' calls).1) :=
      ⟨Inv.padded h.left, Inv.padded h.right, congrArg (· ++ _) h.same.tape, h.same.rows⟩
    have htapes := (mmMapPage_same hpad hphys virt flags flags).2.same.tape
    rw [asked, asked, mmMapSinglePage_eq _ pml4 phys virt flags]
    rw [htapes, hpad.same.tape]
  · intro v
    have heff := h.same.effective v
    exact ⟨by rw [← effective_page, ← effective_page, heff], heff.symm⟩

/-- Memory of zeros, and three pages to come. -/
def threePages : State := ⟨fun _ _ => 0, [0x100000, 0x101000, 0x102000]⟩

/-- Two pages that share their tables, and then one that needs another table. -/
theorem same_address_space_three :
    effective (mapSinglePages threePages 0x1000
        [(0x5000, 0x7000, 0), (0x6000, 0x8000, 0), (0, 1 <<< 40, 0)]).1 0x1000 0x8000 =
      effective (mapPages threePages 0x2000
        [(0x5000, 0x7000, 0), (0x6000, 0x8000, 0), (0, 1 <<< 40, 0)]).1 0x2000 0x8000 := by
  have hl : Started 0x1000 threePages := ⟨fun _ => rfl, by decide, by decide, by decide⟩
  have hk : Started 0x2000 threePages := ⟨fun _ => rfl, by decide, by decide, by decide⟩
  exact ((same_address_space hl hk rfl _ (by decide)).2.2.2 0x8000).2

end same

end Nearlands.Ldr
