/-
  The memory map the kernel gets.

  `MmRetrieveCurrentMemoryMap` takes its snapshot, the descriptors and the key, and then allocates
  the entries it copies them to.  That is the last call before `ExitBootServices`, so all depends on
  it: the key is current, and no memory of the loader is described as free, exactly when this one
  allocation leaves the key as it is and takes no memory that the snapshot calls conventional
  (`handover_current_iff`).  What was allocated before is in the snapshot already.

  That holds of images whose sections leave the map alone.  The map is in pool memory when
  `LoadSectionsIntoMemory` writes the sections to `ImageBase + VirtualAddress`, whatever that is, and
  the key is read from it afterwards.  A section that is loaded over the map puts its own bytes there
  (`map_overwritten`).
-/
import Nearlands.Ldr.Window

namespace Nearlands.Ldr

open Nearlands.Lib Nearlands.Vmm

/-! ## What a memory map was made of -/

section snapshot

variable {σ : Type} {b : BootServices σ} (hb : b.Documented) {s s' : Session σ}

/-- A snapshot that was taken: what the firmware had to say in that state, and a record in memory
    that nobody had. -/
structure Taken (b : BootServices σ) (s s' : Session σ) (n : Snapshot) : Prop where
  descriptors : n.descriptors = b.memoryMap s'.state
  mapKey : n.mapKey = b.mapKey s'.state
  sound : b.Sound s'
  obtained : s.obtained <:+ s'.obtained
  record : ⟨n.memMap, sizeofMemoryMap⟩ ∈ s'.obtained
  fits : n.memMap + sizeofMemoryMap ≤ 2 ^ 64
  apart : ∀ t ∈ s.obtained, Disjoint ⟨n.memMap, sizeofMemoryMap⟩ t

include hb

theorem takeSnapshot_some (hs : b.Sound s) {n : Snapshot}
    (h : b.takeSnapshot s = (s', some n)) : Taken b s s' n := by
  rw [BootServices.takeSnapshot] at h
  have h₁ := takePool_sound hb hs EfiLoaderData (b.mapSize s.state + b.descriptorSize * 8)
  have hfirst : s.obtained <:+ (b.takePool s EfiLoaderData
    (b.mapSize s.state + b.descriptorSize * 8)).1.obtained := grant_suffix _ _ _
  generalize b.takePool s EfiLoaderData (b.mapSize s.state + b.descriptorSize * 8) = r₁
    at h h₁ hfirst
  obtain ⟨s₁, efiMemMap⟩ := r₁
  cases efiMemMap with
  | none => cases h
  | some efiMemMap =>
    dsimp only at h h₁ hfirst
    have h₂ := takePool_sound hb h₁ EfiLoaderData sizeofMemoryMap
    have hpool := hb.pool s₁.state EfiLoaderData sizeofMemoryMap
    rw [BootServices.takePool] at h h₂
    dsimp only at h h₂
    generalize b.allocatePool s₁.state EfiLoaderData sizeofMemoryMap = r₂ at h h₂ hpool
    obtain ⟨state, memMap⟩ := r₂
    cases memMap with
    | none => cases h
    | some memMap =>
      dsimp only [BootServices.getMemoryMap] at h
      split at h
      · cases h
      · rename_i hget
        split at hget
        · cases hget
          cases h
          constructor
          · rfl
          · rfl
          · exact edit_sound hb h₂ _
          · exact hfirst.trans (List.suffix_cons _ _)
          · exact List.mem_cons_self
          · exact (hpool.address memMap rfl).2
          · exact fun t ht => hpool.new memMap rfl t (h₁ t (hfirst.subset ht))
        · cases hget

/-- The snapshot, and after it the allocation of the array and the writing of the map. -/
structure Retrieved (b : BootServices σ) (s s₁ s' : Session σ) (n : Snapshot) (a : Nat) : Prop where
  snapshot : b.takeSnapshot s = (s₁, some n)
  taken : Taken b s s₁ n
  answer : (b.allocatePool s₁.state EfiLoaderData n.entriesSize).2 = some a
  written : s' = b.edit ⟨(b.allocatePool s₁.state EfiLoaderData n.entriesSize).1,
    ⟨a, n.entriesSize⟩ :: s₁.obtained⟩ (n.fill a)

theorem mmRetrieve_some (hs : b.Sound s) {map : Nat}
    (h : b.mmRetrieveCurrentMemoryMap s = (s', some map)) :
    ∃ s₁ n a, n.memMap = map ∧ Retrieved b s s₁ s' n a := by
  rw [BootServices.mmRetrieveCurrentMemoryMap] at h
  generalize hsnap : b.takeSnapshot s = r₁ at h
  obtain ⟨s₁, n⟩ := r₁
  cases n with
  | none => cases h
  | some n =>
    dsimp only [BootServices.takePool] at h
    cases ha : (b.allocatePool s₁.state EfiLoaderData n.entriesSize).2 with
    | none => rw [ha] at h; cases h
    | some a =>
      rw [ha] at h
      cases h
      exact ⟨s₁, n, a, rfl, hsnap, takeSnapshot_some hb hs hsnap, ha, rfl⟩

variable {s₁ : Session σ} {n : Snapshot} {a : Nat}

/-- The array is in memory that nobody had. -/
theorem Retrieved.placed (h : Retrieved b s s₁ s' n a) : Placed n a := by
  have hpool := hb.pool s₁.state EfiLoaderData n.entriesSize
  constructor
  · exact h.taken.fits
  · exact (hpool.address a h.answer).1
  · exact (hpool.address a h.answer).2
  · exact hpool.new a h.answer _ (h.taken.sound _ h.taken.record)

/-- The map is in memory when `MmRetrieveCurrentMemoryMap` returns. -/
theorem Retrieved.holds (h : Retrieved b s s₁ s' n a) : Holds n a (b.memory s'.state) := by
  have hmem : b.memory s'.state =
      n.fill a (b.memory (b.allocatePool s₁.state EfiLoaderData n.entriesSize).1) := by
    rw [h.written]
    exact hb.write_memory _ _
  rw [hmem]
  refine n.fill_holds (h.placed hb) (fun d hd => ?_) ?_ _
  · rw [h.taken.descriptors] at hd
    exact hb.start _ d hd
  · rw [h.taken.mapKey]
    exact hb.key _

/-- It shares no byte with what the loader had before. -/
theorem Retrieved.off (h : Retrieved b s s₁ s' n a) {t : Region} (ht : t ∈ s.obtained) :
    n.recordSpan.Off t ∧ (n.arraySpan a).Off t := by
  have hpool := hb.pool s₁.state EfiLoaderData n.entriesSize
  have hplaced := h.placed hb
  have hold := h.taken.sound t (h.taken.obtained.subset ht)
  have hoff : ∀ base size, base + size ≤ 2 ^ 64 → Disjoint ⟨base, size⟩ t →
      Span.Off ⟨base, size⟩ t := by
    intro base size hfit hdis j hj
    dsimp only at hj ⊢
    rw [w64_of_lt (by omega)]
    exact hdis _ ⟨Nat.le_add_right base j, Nat.add_lt_add_left hj base⟩
  exact ⟨hoff _ _ hplaced.record (h.taken.apart t ht),
    hoff _ _ hplaced.array (hpool.new a h.answer t hold)⟩

end snapshot

/-! ## The handover -/

section handover

variable {σ : Type} {b : BootServices σ} {e : Setup} {s : Session σ}

/-- An allocation of `size` bytes in this state leaves the key, and takes nothing that the memory
    map describes as conventional.  A condition on the state at the time of the snapshot, with
    nothing of the loader in it. -/
def Harmless (b : BootServices σ) (s : σ) (size : Nat) : Prop :=
  let r := b.allocatePool s EfiLoaderData size
  b.mapKey r.1 = b.mapKey s ∧
  ∀ a, r.2 = some a → ∀ d ∈ b.memoryMap s, d.type = EfiConventionalMemory →
    Disjoint ⟨a, size⟩ d.region

/-- No section is written over the map that `MmRetrieveCurrentMemoryMap` has left at this address:
    its record, and the array of its entries.  Both addresses are known when the image is about to
    be loaded; the second is read from the record. -/
def SparesMap (e : Setup) (r : Ready σ) (map : Nat) : Prop :=
  r.Spares e ⟨map, sizeofMemoryMap⟩ ∧
  r.Spares e ⟨memoryMapRecord.get r.loading.mem map .memEntries,
    memoryMapRecord.get r.loading.mem map .amountOfEntries * sizeofMemoryMapEntry⟩

/-- What the kernel is promised: the key that is read from the map is current, so that
    `ExitBootServices` has succeeded; and none of the loader's memory is described as free by the
    entries that are in memory when the kernel is called.  The entries and the key are read from
    memory as it is when the kernel is called. -/
structure Handed (b : BootServices σ) (r : Loaded σ) (map : Nat) : Prop where
  current : memoryMapRecord.get r.loading.mem map .mapKey = b.mapKey r.session.state
  exited : ∃ state, r.exit = some (state, true)
  kept : ∀ region ∈ r.session.obtained, ∀ entry ∈ entriesAt r.loading.mem map, entry.type = .free →
    Disjoint region ⟨entry.base, entry.size⟩

/-- Only conventional memory is called free. -/
theorem memoryEntryType_free {type : Nat} :
    memoryEntryType type = .free ↔ type = EfiConventionalMemory := by
  rw [memoryEntryType]
  split
  · rename_i h
    exact ⟨fun _ => h, fun _ => rfl⟩
  · rename_i h
    constructor
    · intro hfree
      split at hfree <;> cases hfree
    · intro h'
      exact absurd h' h

/-- What is known of the map on a run that reaches the kernel: how it was retrieved, and that it is
    in memory when the sections are loaded.  A map that is `NULL` is excluded by `hmap`. -/
theorem Prepared.retrieved (hb : b.Documented) (h0 : b.Sound s)
    (hstack : ⟨e.bInfo, sizeofBootInfo⟩ ∈ s.obtained) {r : Ready σ} (h : Prepared b e s r)
    {map : Nat} (hmap : r.memmap = some map) :
    ∃ s₁ n a, n.memMap = map ∧ Retrieved b r.mapped s₁ r.session n a ∧ Holds n a r.loading.mem := by
  obtain ⟨physBase, tables, -, hmapped⟩ := h.mapped
  have hsame : r.mapped = (b.mapHigherHalf (b.takePages s EfiLoaderData
      r.amountOfPagesForImage).1 e.tables e.pml4 physBase (r.amountOfPagesForImage * 4096)).1 := by
    rw [hmapped]
  have hsound : b.Sound r.mapped := by
    rw [hsame]
    exact mapHigherHalf_sound hb (takePages_sound hb h0 _ _) _ _ _ _
  have hstack' : ⟨e.bInfo, sizeofBootInfo⟩ ∈ r.mapped.obtained := by
    rw [hsame]
    have hpages : s.obtained <:+ (b.takePages s EfiLoaderData r.amountOfPagesForImage).1.obtained :=
      grant_suffix _ _ _
    exact (hpages.trans (mapHigherHalf_obtained _ _ _ _ _)).subset hstack
  have hmem := h.memmap
  rw [hmap] at hmem
  obtain ⟨s₁, n, a, hn, hret⟩ := mmRetrieve_some hb hsound hmem
  refine ⟨s₁, n, a, hn, hret, ?_⟩
  -- the local variable is on the stack, and the map is not
  obtain ⟨hrecord, harray⟩ := hret.off hb hstack'
  obtain ⟨physBase, hinfo⟩ := h.mem
  have hstore : Bytes.SameOff ⟨e.bInfo, sizeofBootInfo⟩ (b.memory r.session.state) r.loading.mem := by
    rw [hinfo]
    refine Bytes.store_sameOff _ _ _ ?_
    rw [BootInfo.bytes_length]
    exact Span.inside_prefix (Nat.le_refl _) e.stack
  exact (hret.holds hb).kept (hstore.sameOn hrecord) (hstore.sameOn harray)

/-- The map is there when the sections have been loaded elsewhere. -/
theorem Holds.loaded {r : Ready σ} {n : Snapshot} {a : Nat} (h : Holds n a r.loading.mem)
    (hspared : SparesMap e r n.memMap) :
    Holds n a (r.loading.loadSectionsIntoMemory e.content r.ntHeader e.bInfo).mem := by
  obtain ⟨hrecord, harray⟩ := hspared
  rw [h.memEntries, h.amountOfEntries] at harray
  exact h.kept hrecord.kept harray.kept

/-- **The last allocation decides.**  With a firmware as documented, on a run whose calls all
    succeed, and with an image that is not loaded over the map: the kernel gets a current memory map
    exactly when the allocation of the entries, after the snapshot, leaves the map key as it is and
    takes no memory the snapshot calls conventional.

    The snapshot is sound, since every region that the loader holds by then is allocated and so not
    conventional; the array of the entries is the only region that comes later.  And the map that is
    read in the end is the one that was written (`Holds`): only the local variable `bInfo` and the
    sections are written in between, the one on the stack and the others elsewhere by hypothesis. -/
theorem handover_current_iff (hb : b.Documented) (h0 : b.Sound s)
    (hstack : ⟨e.bInfo, sizeofBootInfo⟩ ∈ s.obtained) {r : Loaded σ}
    (h : b.ldrPeLoadPEImageAsKernel e s = .ok r) {map : Nat} (hmap : r.ready.memmap = some map)
    (hspared : SparesMap e r.ready map) :
    Handed b r map ↔ ∀ s₁ n, b.takeSnapshot r.ready.mapped = (s₁, some n) →
      Harmless b s₁.state n.entriesSize := by
  obtain ⟨hprep, hr⟩ := load_ok h
  generalize r.ready = ready at hprep hr hmap hspared ⊢
  subst hr
  obtain ⟨s₁, n, a, rfl, hret, hholds⟩ := hprep.retrieved hb h0 hstack hmap
  have hfinal : Holds n a (b.finish e ready).loading.mem := hholds.loaded hspared
  have hentries := hfinal.entriesAt
  rw [hret.taken.descriptors] at hentries
  have hkey := hfinal.mapKey.trans hret.taken.mapKey
  -- the key when boot services are left
  have hnow : b.mapKey (b.finish e ready).session.state =
      b.mapKey (b.allocatePool s₁.state EfiLoaderData n.entriesSize).1 := by
    show b.mapKey (b.write ready.session.state _) = _
    rw [hb.write_key, hret.written]
    exact hb.write_key _ _
  have hobtained : (b.finish e ready).session.obtained = ⟨a, n.entriesSize⟩ :: s₁.obtained := by
    show ready.session.obtained = _
    rw [hret.written]
    rfl
  constructor
  · rintro ⟨hcurrent, -, hkept⟩ s₂ n₂ hsnap'
    rw [hret.snapshot] at hsnap'
    cases hsnap'
    constructor
    · rw [← hnow, ← hcurrent, hkey]
    · intro a' ha' d hd hconv
      rw [hret.answer] at ha'
      cases ha'
      exact hkept _ (by rw [hobtained]; exact List.mem_cons_self) d.entry
        (by rw [hentries]; exact List.mem_map_of_mem hd) (memoryEntryType_free.mpr hconv)
  · intro hharmless
    obtain ⟨hsame, hnew⟩ := hharmless s₁ n hret.snapshot
    have hcurrent : memoryMapRecord.get (b.finish e ready).loading.mem n.memMap .mapKey =
        b.mapKey (b.finish e ready).session.state := by
      rw [hnow, hsame, hkey]
    constructor
    · exact hcurrent
    · refine ⟨(b.exitBootServices (b.finish e ready).session.state
        (memoryMapRecord.get (b.finish e ready).loading.mem n.memMap .mapKey)).1, ?_⟩
      show ready.memmap.map _ = _
      rw [hmap]
      exact congrArg some (Prod.ext rfl ((hb.exit _ _).mpr hcurrent))
    · intro region hregion entry hentry hfree
      rw [hentries] at hentry
      obtain ⟨d, hd, rfl⟩ := List.mem_map.mp hentry
      have hconv := memoryEntryType_free.mp hfree
      rw [hobtained] at hregion
      rcases List.mem_cons.mp hregion with rfl | hold
      · exact hnew a hret.answer d hd hconv
      · exact hb.conventional _ region (hret.taken.sound region hold) d hd hconv

end handover

/-! ## Two firmwares -/

section plain

variable {rekey : Nat → Nat} {s : Plain}

/-- The conventional memory of the firmware. -/
def Plain.free (s : Plain) : Region :=
  EfiMemoryDescriptor.region ⟨EfiConventionalMemory, s.nextPage, (0x100000 - s.nextPage) / 4096⟩

theorem plain_free_of_mem {d : EfiMemoryDescriptor} (hd : d ∈ (plain rekey).memoryMap s)
    (hconv : d.type = EfiConventionalMemory) : d.region = s.free := by
  rcases List.mem_cons.mp hd with rfl | hd
  · exact absurd hconv (show EfiLoaderData ≠ EfiConventionalMemory by decide)
  · rcases List.mem_cons.mp hd with rfl | hd
    · rfl
    · obtain rfl := List.mem_singleton.mp hd
      exact absurd hconv (show EfiLoaderData ≠ EfiConventionalMemory by decide)

/-- It lies between the pages and the pool. -/
theorem Plain.free_has {x : Nat} (h : s.free.Has x) : s.nextPage ≤ x ∧ x < 0x100000 := by
  obtain ⟨hlo, hhi⟩ := h
  have hpage := s.page
  have hw : w64 ((0x100000 - s.nextPage) / 4096 * 4096) =
      (0x100000 - s.nextPage) / 4096 * 4096 := w64_of_lt (by omega)
  change s.nextPage ≤ x at hlo
  change x < s.nextPage + w64 ((0x100000 - s.nextPage) / 4096 * 4096) at hhi
  omega

/-- What is allocated is no conventional memory. -/
theorem plain_conventional {t : Region} (ht : (plain rekey).allocated s t)
    {d : EfiMemoryDescriptor} (hd : d ∈ (plain rekey).memoryMap s)
    (hconv : d.type = EfiConventionalMemory) : Disjoint t d.region := by
  rw [plain_free_of_mem hd hconv]
  intro x hx hfree
  obtain ⟨hlo, hhi⟩ := Plain.free_has hfree
  rcases ht x hx with hlt | ⟨hge, -⟩ <;> omega

/-- Its memory map has small addresses. -/
theorem plain_start {d : EfiMemoryDescriptor} (hd : d ∈ (plain rekey).memoryMap s) :
    d.physicalStart < 2 ^ 64 := by
  have hpage := s.page
  rcases List.mem_cons.mp hd with rfl | hd
  · exact Nat.two_pow_pos 64
  · rcases List.mem_cons.mp hd with rfl | hd
    · show s.nextPage < 2 ^ 64
      omega
    · obtain rfl := List.mem_singleton.mp hd
      show 0x100000 < 2 ^ 64
      decide

/-- A refused allocation changes nothing. -/
theorem plain_refused (size : Nat) : (plain rekey).Allocates s size (s, none) where
  keeps := fun _ ht => ht
  granted := fun _ ha => absurd ha (Option.some_ne_none _).symm
  address := fun _ ha => absurd ha (Option.some_ne_none _).symm
  new := fun _ ha => absurd ha (Option.some_ne_none _).symm

/-- Pages are taken from the bottom of conventional memory. -/
theorem plain_pages (s : Plain) (type n : Nat) :
    (plain rekey).Allocates s (n * 4096) ((plain rekey).allocatePages s type n) := by
  dsimp only [plain]
  split
  · rename_i hroom
    refine ⟨fun t ht x hx => ?_, fun a ha x hx => ?_, fun a ha => ?_, fun a ha t ht x hx hxt => ?_⟩
    · rcases ht x hx with hlt | hpool
      · exact Or.inl (Nat.lt_of_lt_of_le hlt (Nat.le_add_right _ _))
      · exact Or.inr hpool
    · obtain rfl := Option.some.inj ha
      exact Or.inl hx.2
    · obtain rfl := Option.some.inj ha
      omega
    · obtain rfl := Option.some.inj ha
      obtain ⟨hlo, hhi⟩ := hx
      dsimp only at hlo hhi
      rcases ht x hxt with hlt | ⟨hge, -⟩ <;> omega
  · exact plain_refused _

/-- Pool memory is taken from the firmware's own. -/
theorem plain_pool (s : Plain) (type n : Nat) :
    (plain rekey).Allocates s n ((plain rekey).allocatePool s type n) := by
  have hpage := s.page
  have hpool := s.pool
  dsimp only [plain]
  split
  · rename_i hroom
    refine ⟨fun t ht x hx => ?_, fun a ha x hx => ?_, fun a ha => ?_, fun a ha t ht x hx hxt => ?_⟩
    · rcases ht x hx with hlt | ⟨hge, hlt⟩
      · exact Or.inl hlt
      · exact Or.inr ⟨hge, Nat.lt_of_lt_of_le hlt (Nat.le_add_right _ _)⟩
    · obtain rfl := Option.some.inj ha
      exact Or.inr ⟨Nat.le_trans hpool hx.1, hx.2⟩
    · obtain rfl := Option.some.inj ha
      omega
    · obtain rfl := Option.some.inj ha
      obtain ⟨hlo, hhi⟩ := hx
      dsimp only at hlo hhi
      rcases ht x hxt with hlt | ⟨-, hlt⟩ <;> omega
  · exact plain_refused _

/-- So there are firmwares of the kind that the results are about. -/
theorem plain_documented (rekey : Nat → Nat) : (plain rekey).Documented where
  write_memory := fun _ _ => rfl
  write_map := fun _ _ => rfl
  write_key := fun _ _ => rfl
  write_allocated := fun _ _ _ ht => ht
  conventional := fun _ _ ht _ hd hconv => plain_conventional ht hd hconv
  start := fun _ _ hd => plain_start hd
  key := fun _ => w64_lt _
  pages := plain_pages
  pool := plain_pool
  exit := fun _ _ => beq_iff_eq

/-- The machine's session is sound. -/
theorem sampleSession_sound (rekey : Nat → Nat) (m : Bytes) :
    (plain rekey).Sound (sampleSession m) := by
  intro t ht x hx
  rcases List.mem_cons.mp ht with rfl | ht
  · have hhi : x < 0x10000 + 0x210 := hx.2
    exact Or.inl (show x < 0x20000 by omega)
  · obtain rfl := List.mem_singleton.mp ht
    have hhi : x < 0x8000 + 96 := hx.2
    exact Or.inl (show x < 0x20000 by omega)

/-- The local variable is in the account. -/
theorem sampleSession_stack (m : Bytes) :
    ⟨sampleSetup.bInfo, sizeofBootInfo⟩ ∈ (sampleSession m).obtained :=
  List.mem_cons_of_mem _ List.mem_cons_self

/-- The firmware that leaves the key alone does no harm: the pool is none of its conventional
    memory. -/
theorem plain_harmless (s : Plain) (size : Nat) : Harmless (plain id) s size := by
  have hpool := s.pool
  constructor
  · dsimp only [plain]
    split <;> rfl
  · intro a ha d hd hconv x hx hd'
    rw [plain_free_of_mem hd hconv] at hd'
    obtain ⟨-, hhi⟩ := Plain.free_has hd'
    dsimp only [plain] at ha
    split at ha
    · obtain rfl := Option.some.inj ha
      have hlo : s.nextPool ≤ x := hx.1
      omega
    · cases ha

/-- An image with one section that is loaded off an access. -/
theorem spares_of_one {σ : Type} {r : Ready σ} {e : Setup} {t : Span}
    (hone : numberOfSections.get (r.before e 1).mem r.ntHeader ≤ 1)
    (hzero : (zeroSpan (r.before e 0).mem r.base (sectionHeader r.loading.mem r.ntHeader 0)).Apart t)
    (hcopy : (copySpan (zeroed (r.before e 0).mem r.base (sectionHeader r.loading.mem r.ntHeader 0))
      r.base (sectionHeader r.loading.mem r.ntHeader 0)).Apart t) : r.Spares e t := by
  intro i hi
  cases i with
  | zero => exact ⟨hzero.clear, hcopy.clear⟩
  | succ i =>
    -- there is no second turn
    have hlt := hi 1 (Nat.succ_le_succ (Nat.zero_le i))
    exact absurd hone (Nat.not_le.mpr hlt)

/-- What `spares_of_one` asks of the sample image and of an access, to be computed. -/
def sparesSample (r : Ready Plain) (t : Span) : Bool :=
  let m := (r.before sampleSetup 0).mem
  let secHeader := sectionHeader r.loading.mem r.ntHeader 0
  decide (numberOfSections.get (r.before sampleSetup 1).mem r.ntHeader ≤ 1) &&
    decide ((zeroSpan m r.base secHeader).Apart t) &&
    decide ((copySpan (zeroed m r.base secHeader) r.base secHeader).Apart t)

/-- What was computed is what is asked. -/
theorem spares_of_sample {r : Ready Plain} {t : Span} (h : sparesSample r t = true) :
    r.Spares sampleSetup t := by
  rw [sparesSample, Bool.and_eq_true, Bool.and_eq_true, decide_eq_true_iff, decide_eq_true_iff,
    decide_eq_true_iff] at h
  exact spares_of_one h.1.1 h.1.2 h.2

/-- A firmware that serves the pool from memory of its own and leaves the key alone hands over
    well, with an image that is linked at the higher half. -/
theorem plain_hands_over :
    ∃ r map, (plain id).ldrPeLoadPEImageAsKernel sampleSetup
        (sampleSession (sampleImage HHDM_OFFSET 0 16 16 0x1F0)) = .ok r ∧
      r.ready.memmap = some map ∧ Handed (plain id) r map := by
  obtain ⟨r, hr, hfacts⟩ := ok_of_computed
    (x := (plain id).ldrPeLoadPEImageAsKernel sampleSetup
      (sampleSession (sampleImage HHDM_OFFSET 0 16 16 0x1F0)))
    (p := fun r => r.ready.memmap.any fun map =>
      sparesSample r.ready ⟨map, sizeofMemoryMap⟩ &&
      sparesSample r.ready ⟨memoryMapRecord.get r.ready.loading.mem map .memEntries,
        memoryMapRecord.get r.ready.loading.mem map .amountOfEntries * sizeofMemoryMapEntry⟩)
    (by decide +kernel)
  cases hmap : r.ready.memmap with
  | none =>
    rw [hmap] at hfacts
    cases hfacts
  | some map =>
    rw [hmap, Option.any_some, Bool.and_eq_true] at hfacts
    obtain ⟨hrecord, harray⟩ := hfacts
    exact ⟨r, map, hr, hmap, (handover_current_iff (plain_documented id)
      (sampleSession_sound id _) (sampleSession_stack _) hr hmap
      ⟨spares_of_sample hrecord, spares_of_sample harray⟩).mpr
        fun s₁ n _ => plain_harmless s₁.state n.entriesSize⟩

/-- **A firmware that changes the key with every allocation**, as it may: the key passed to
    `ExitBootServices` is one behind. -/
theorem key_behind :
    ¬ ∀ (b : BootServices Plain), b.Documented → ∀ (e : Setup) (s : Session Plain)
      (r : Loaded Plain) (map : Nat), b.Sound s → ⟨e.bInfo, sizeofBootInfo⟩ ∈ s.obtained →
      b.ldrPeLoadPEImageAsKernel e s = .ok r → r.ready.memmap = some map → Handed b r map := by
  intro hclaim
  obtain ⟨r, hr, hkeys⟩ := ok_of_computed
    (x := (plain Nat.succ).ldrPeLoadPEImageAsKernel sampleSetup
      (sampleSession (sampleImage HHDM_OFFSET 0 16 16 0x1F0)))
    (p := fun r => r.ready.memmap.any fun map =>
      memoryMapRecord.get r.loading.mem map .mapKey + 1 == (plain Nat.succ).mapKey r.session.state)
    (by decide +kernel)
  cases hmap : r.ready.memmap with
  | none =>
    rw [hmap] at hkeys
    cases hkeys
  | some map =>
    rw [hmap, Option.any_some] at hkeys
    have hbehind : memoryMapRecord.get r.loading.mem map .mapKey + 1 =
        (plain Nat.succ).mapKey r.session.state := beq_iff_eq.mp hkeys
    have hcurrent := (hclaim _ (plain_documented _) _ _ r map (sampleSession_sound _ _)
      (sampleSession_stack _) hr hmap).current
    omega

/-- **An image that is loaded over the map.**  Its only section is zeroed where the record of the map
    is, at `0x100210`: the key is read as 0, although the allocation of the entries did no harm.  So
    the hypothesis that the map is spared cannot be dropped. -/
theorem map_overwritten :
    ∃ r map, (plain id).ldrPeLoadPEImageAsKernel sampleSetup
        (sampleSession (sampleImage 0x100000 0x210 32 0 0x1F0)) = .ok r ∧
      r.ready.memmap = some map ∧ (∀ s₁ n, (plain id).takeSnapshot r.ready.mapped = (s₁, some n) →
        Harmless (plain id) s₁.state n.entriesSize) ∧ ¬ Handed (plain id) r map := by
  obtain ⟨r, hr, hkeys⟩ := ok_of_computed
    (x := (plain id).ldrPeLoadPEImageAsKernel sampleSetup
      (sampleSession (sampleImage 0x100000 0x210 32 0 0x1F0)))
    (p := fun r => r.ready.memmap.any fun map =>
      memoryMapRecord.get r.loading.mem map .mapKey != (plain id).mapKey r.session.state)
    (by decide +kernel)
  cases hmap : r.ready.memmap with
  | none =>
    rw [hmap] at hkeys
    cases hkeys
  | some map =>
    rw [hmap, Option.any_some] at hkeys
    have hkey : memoryMapRecord.get r.loading.mem map .mapKey ≠ (plain id).mapKey r.session.state :=
      bne_iff_ne.mp hkeys
    refine ⟨r, map, hr, hmap, ?_, fun hhanded => hkey hhanded.current⟩
    intro s₁ n _
    exact plain_harmless s₁.state n.entriesSize

end plain

end Nearlands.Ldr
