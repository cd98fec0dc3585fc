/-
  Where init puts the bitmap, and what it leaves in it.

  The placement loop takes the first entry that is large enough, of whatever type, and has no answer
  for the case that there is none: `bitmap` then stays `NULL`, and `memset` writes at address 0.
  So the storage is in FREE memory exactly when that first entry happens to be
  (`placed_iff`).

  The marking passes are exact for every map of page-aligned entries, however they overlap and in
  whatever order they come (`init_clear_iff`): the pass that sets runs after the one that clears, and
  the bitmap's own pages are set last.
-/
import Nearlands.Pmm.Boot
import Nearlands.Lib.Bytes

namespace Nearlands.Pmm

open Nearlands.Lib

variable {memMap : BootMemoryMap} {mem : Nat → UInt8}

/-- The bytes of the bitmap that init makes: an eighth of the number of pages.  The remainder of the
    division has no storage. -/
def bitmapSizeOf (memMap : BootMemoryMap) : Nat := (countPages memMap.memEntries (0, 0)).1 / 8

/-- Init, by the size of the bitmap.  The placement and the marks are then functions of the map
    alone. -/
theorem init_eq (mem : Nat → UInt8) (memMap : BootMemoryMap) :
    mmInitPhysicalMemoryManager mem memMap =
      if bitmapSizeOf memMap = 0 then (afterCounting mem memMap null, .noValidMemory)
      else
        let bitmap := placeBitmap (bitmapSizeOf memMap) memMap.memEntries
        ((afterCounting mem memMap bitmap).fillBitmap.marks
          (initMarks memMap.memEntries bitmap (bitmapSizeOf memMap)), .success) := rfl

/-- What a successful init returns. -/
theorem init_success (h : (mmInitPhysicalMemoryManager mem memMap).2 = .success) :
    let bitmap := placeBitmap (bitmapSizeOf memMap) memMap.memEntries
    let s := (mmInitPhysicalMemoryManager mem memMap).1
    bitmapSizeOf memMap ≠ 0 ∧ s.bitmap = bitmap ∧ s.bitmapSize = bitmapSizeOf memMap ∧
      s = (afterCounting mem memMap bitmap).fillBitmap.marks
        (initMarks memMap.memEntries bitmap (bitmapSizeOf memMap)) := by
  rw [init_eq] at h ⊢
  by_cases h0 : bitmapSizeOf memMap = 0
  · rw [if_pos h0] at h
    have hne : NearStatus.noValidMemory ≠ .success := by decide
    exact absurd h hne
  · rw [if_neg h0]
    have hstat := statics_marks (initMarks memMap.memEntries
      (placeBitmap (bitmapSizeOf memMap) memMap.memEntries) (bitmapSizeOf memMap))
      (afterCounting mem memMap
        (placeBitmap (bitmapSizeOf memMap) memMap.memEntries)).fillBitmap
    exact ⟨h0, congrArg (fun t => t.2.2.2) hstat, congrArg (fun t => t.2.2.1) hstat, rfl⟩

/-! ## The storage -/

/-- The addresses that init writes to.  An init that fails writes nothing, as it returns before
    `memset`. -/
def initWrites (memMap : BootMemoryMap) : List Nat :=
  if bitmapSizeOf memMap = 0 then []
  else (initTouches memMap).map fun i =>
    w64 (placeBitmap (bitmapSizeOf memMap) memMap.memEntries + i)

/-- The bytes of page 0.  Where a null pointer points to. -/
def page0 : Region := ⟨0, 0x1000⟩

/-- A successful init has its bitmap in one FREE entry and outside page 0; when no FREE entry is
    large enough, init fails and has written nothing.  It is what the placement loop is for,
    including the case that it cannot be done. -/
structure PlacedWell (mem : Nat → UInt8) (memMap : BootMemoryMap) : Prop where
  inside : (mmInitPhysicalMemoryManager mem memMap).2 = .success →
    let s := (mmInitPhysicalMemoryManager mem memMap).1
    (∃ e ∈ memMap.memEntries, e.type = .free ∧
      Span.Inside ⟨s.bitmap, s.bitmapSize⟩ (entryBytes e)) ∧
    Span.Off ⟨s.bitmap, s.bitmapSize⟩ page0
  refused : (∀ e ∈ memMap.memEntries, e.type = .free → e.size < bitmapSizeOf memMap) →
    (mmInitPhysicalMemoryManager mem memMap).2 ≠ .success ∧ initWrites memMap = []

/-- The first entry with room for the bitmap.  The first in the order of the map, whatever its type
    is. -/
def firstFitting (memMap : BootMemoryMap) : Option BootMemoryMapEntry :=
  memMap.memEntries.find? fun e => decide (bitmapSizeOf memMap ≤ e.size)

/-- The placement loop is a search for it.  So the loop stops at the entry found, and has no other
    way to choose. -/
theorem placeBitmap_eq (n : Nat) (es : List BootMemoryMapEntry) :
    placeBitmap n es = ((es.find? fun e => decide (n ≤ e.size)).map (·.base)).getD null := by
  induction es with
  | nil => rfl
  | cons e es ih =>
    rw [placeBitmap, List.find?_cons]
    by_cases h : n ≤ e.size
    · rw [if_pos h, decide_eq_true h]
      rfl
    · rw [if_neg h, decide_eq_false h, ih]

/-- Bytes outside page 0 do not wrap around.  A run of bytes that wraps has a byte on page 0. -/
theorem no_wrap_of_off {base n : Nat} (h : Span.Off ⟨base, n⟩ page0) :
    w64 base + n ≤ 2 ^ 64 := by
  by_contra hwrap
  have hb := w64_lt base
  have hzero := h (2 ^ 64 - w64 base) (by dsimp only; omega)
  dsimp only at hzero
  rw [← w64_add_w64, show w64 base + (2 ^ 64 - w64 base) = 2 ^ 64 by omega,
    show w64 (2 ^ 64) = 0 from rfl] at hzero
  exact hzero (by decide)

/-- A region that holds so many bytes is as large. -/
theorem le_size_of_inside {base n : Nat} {r : Region} (h : Span.Inside ⟨base, n⟩ r)
    (hfit : w64 base + n ≤ 2 ^ 64) : n ≤ r.size := by
  rcases Nat.eq_zero_or_pos n with rfl | hn
  · exact Nat.zero_le _
  · have hfirst := h 0 hn
    have hlast := h (n - 1) (Nat.sub_lt hn Nat.one_pos)
    dsimp only at hfirst hlast
    rw [← w64_add_w64, w64_of_lt (by omega), Region.Has] at hlast
    rw [Nat.add_zero, Region.Has] at hfirst
    omega

/-- A map too small for a bitmap is refused.  It is refused before anything is written, and there is
    nothing else to ask for. -/
theorem placed_of_small (h0 : bitmapSizeOf memMap = 0) : PlacedWell mem memMap := by
  have hst : (mmInitPhysicalMemoryManager mem memMap).2 = .noValidMemory := by
    rw [init_eq, if_pos h0]
  have hne : (mmInitPhysicalMemoryManager mem memMap).2 ≠ .success := by
    rw [hst]
    decide
  exact ⟨fun h => absurd h hne, fun _ => ⟨hne, if_pos h0⟩⟩

/-- Any other map is accepted, so all depends on the place. -/
theorem placed_of_large (h0 : bitmapSizeOf memMap ≠ 0) : PlacedWell mem memMap ↔
    let bitmap := placeBitmap (bitmapSizeOf memMap) memMap.memEntries
    (∃ e ∈ memMap.memEntries, e.type = .free ∧
      Span.Inside ⟨bitmap, bitmapSizeOf memMap⟩ (entryBytes e)) ∧
    Span.Off ⟨bitmap, bitmapSizeOf memMap⟩ page0 := by
  have hok : (mmInitPhysicalMemoryManager mem memMap).2 = .success := by
    rw [init_eq, if_neg h0]
  obtain ⟨-, hbase, hsize, -⟩ := init_success hok
  dsimp only
  constructor
  · intro hplaced
    have hin := hplaced.inside hok
    dsimp only at hin
    rw [hbase, hsize] at hin
    exact hin
  · rintro ⟨⟨e, he, hfree, hin⟩, hoff⟩
    refine ⟨fun _ => ?_, fun hnone => ?_⟩
    · dsimp only
      rw [hbase, hsize]
      exact ⟨⟨e, he, hfree, hin⟩, hoff⟩
    · -- the entry that holds the bitmap is large enough
      have hfit := le_size_of_inside hin (no_wrap_of_off hoff)
      exact absurd (hnone e he hfree) (Nat.not_lt.mpr hfit)

/-- No bitmap at address 0 is outside page 0. -/
theorem not_off_null {n : Nat} (hn : n ≠ 0) : ¬ Span.Off ⟨null, n⟩ page0 := by
  intro h
  have hzero : page0.Has 0 := ⟨Nat.le_refl 0, by decide⟩
  exact h 0 (Nat.pos_of_ne_zero hn) hzero

/-- Where the entries are disjoint, the first one with room is the one that holds the bitmap.  The
    bytes at the base of the entry belong to no other entry. -/
theorem WellFormed.holds_iff (hw : WellFormed memMap) (h0 : bitmapSizeOf memMap ≠ 0)
    {f : BootMemoryMapEntry} (hf : firstFitting memMap = some f) :
    ((∃ e ∈ memMap.memEntries, e.type = .free ∧
        Span.Inside ⟨f.base, bitmapSizeOf memMap⟩ (entryBytes e)) ∧
      Span.Off ⟨f.base, bitmapSizeOf memMap⟩ page0) ↔ f.type = .free ∧ 0x1000 ≤ f.base := by
  have hfind : memMap.memEntries.find? (fun e => decide (bitmapSizeOf memMap ≤ e.size)) = some f :=
    hf
  have hmem : f ∈ memMap.memEntries := List.mem_of_find?_eq_some hfind
  have hsize : bitmapSizeOf memMap ≤ f.size := by simpa using List.find?_some hfind
  have hfits := hw.fits f hmem
  have hpos := Nat.pos_of_ne_zero h0
  have hbyte : ∀ j, j < bitmapSizeOf memMap → w64 (f.base + j) = f.base + j :=
    fun j hj => w64_of_lt (by omega)
  constructor
  · rintro ⟨⟨e, he, hfree, hin⟩, hoff⟩
    have hfirst := hin 0 hpos
    have hpage := hoff 0 hpos
    rw [hbyte 0 hpos] at hfirst hpage
    have hown : (entryBytes f).Has (f.base + 0) := by
      rw [entryBytes, Region.Has]
      dsimp only
      omega
    obtain rfl := Region.owner_unique hw.apart he hmem hfirst hown
    rw [page0, Region.Has] at hpage
    dsimp only at hpage
    exact ⟨hfree, by omega⟩
  · rintro ⟨hfree, hbase⟩
    refine ⟨⟨f, hmem, hfree, fun j hj => ?_⟩, fun j hj => ?_⟩
    · dsimp only at hj ⊢
      rw [hbyte j hj, entryBytes, Region.Has]
      dsimp only
      omega
    · dsimp only at hj ⊢
      rw [hbyte j hj, page0, Region.Has]
      dsimp only
      omega

/-- The place is right exactly when the first entry with room for the bitmap exists and its first
    bytes are FREE memory outside page 0.  For maps that overlap the type of that entry does not
    decide, since a free entry may lie over it. -/
theorem placed_iff_first (h0 : bitmapSizeOf memMap ≠ 0) : PlacedWell mem memMap ↔
    ∃ f, firstFitting memMap = some f ∧
      (∃ e ∈ memMap.memEntries, e.type = .free ∧
        Span.Inside ⟨f.base, bitmapSizeOf memMap⟩ (entryBytes e)) ∧
      Span.Off ⟨f.base, bitmapSizeOf memMap⟩ page0 := by
  rw [placed_of_large h0, placeBitmap_eq]
  rw [show memMap.memEntries.find? (fun e => decide (bitmapSizeOf memMap ≤ e.size)) =
    firstFitting memMap from rfl]
  cases hf : firstFitting memMap with
  | none =>
    constructor
    · exact fun h => absurd h.2 (not_off_null h0)
    · rintro ⟨f, hsome, -⟩
      exact absurd hsome.symm (Option.some_ne_none f)
  | some f =>
    constructor
    · exact fun h => ⟨f, rfl, h⟩
    · rintro ⟨f', hsome, h⟩
      obtain rfl := Option.some.inj hsome
      exact h

/-- **Where the bitmap is placed.**  Init behaves as it should exactly when the map has fewer than 8
    pages, or the first entry with room for the bitmap has its first bytes in a FREE entry and
    outside page 0; in a map of disjoint entries: when that entry is FREE and not at page 0.  Two
    things go wrong: the loop does not look at the type, and it has no answer for "none", which then
    is address 0.  The second half is the same condition for the maps that firmware gives, where the
    type of the first entry with room decides. -/
theorem placed_iff (mem : Nat → UInt8) (memMap : BootMemoryMap) :
    (PlacedWell mem memMap ↔ bitmapSizeOf memMap = 0 ∨ ∃ f, firstFitting memMap = some f ∧
      (∃ e ∈ memMap.memEntries, e.type = .free ∧
        Span.Inside ⟨f.base, bitmapSizeOf memMap⟩ (entryBytes e)) ∧
      Span.Off ⟨f.base, bitmapSizeOf memMap⟩ page0) ∧
    (WellFormed memMap → (PlacedWell mem memMap ↔ bitmapSizeOf memMap = 0 ∨
      ∃ f, firstFitting memMap = some f ∧ f.type = .free ∧ 0x1000 ≤ f.base)) := by
  by_cases h0 : bitmapSizeOf memMap = 0
  · have hsmall : PlacedWell mem memMap := placed_of_small h0
    exact ⟨⟨fun _ => Or.inl h0, fun _ => hsmall⟩, fun _ => ⟨fun _ => Or.inl h0, fun _ => hsmall⟩⟩
  · rw [placed_iff_first h0]
    refine ⟨⟨Or.inr, fun h => h.resolve_left h0⟩, fun hw => ?_⟩
    constructor
    · rintro ⟨f, hf, h⟩
      exact Or.inr ⟨f, hf, (hw.holds_iff h0 hf).mp h⟩
    · intro h
      obtain ⟨f, hf, h⟩ := h.resolve_left h0
      exact ⟨f, hf, (hw.holds_iff h0 hf).mpr h⟩

/-- 32 KiB of free memory, and above it 16 KiB in use. -/
def freeFirstMap : BootMemoryMap := ⟨[⟨0x1000, 0x8000, .free⟩, ⟨0x9000, 0x4000, .used⟩]⟩

/-- Two entries, aligned and apart. -/
theorem freeFirstMap_wellFormed : WellFormed freeFirstMap where
  base_mod := by decide
  size_mod := by decide
  size_lt := by decide
  fits := by decide
  apart := by decide

/-- There the bitmap is placed well. -/
theorem freeFirstMap_placed : PlacedWell (fun _ => 0) freeFirstMap :=
  ((placed_iff (fun _ => 0) freeFirstMap).2 freeFirstMap_wellFormed).mpr
    (Or.inr ⟨⟨0x1000, 0x8000, .free⟩, by decide, rfl, Nat.le_refl _⟩)

/-- 16 KiB in use below 32 KiB of free memory. -/
def usedFirstMap : BootMemoryMap := ⟨[⟨0x1000, 0x4000, .used⟩, ⟨0x5000, 0x8000, .free⟩]⟩

/-- Two entries, aligned and apart. -/
theorem usedFirstMap_wellFormed : WellFormed usedFirstMap where
  base_mod := by decide
  size_mod := by decide
  size_lt := by decide
  fits := by decide
  apart := by decide

/-- The bitmap of such a map is put where the used memory is.  The used entry has room, so the free
    one behind it is not looked at. -/
theorem bitmap_over_used_memory :
    (mmInitPhysicalMemoryManager (fun _ => 0) usedFirstMap).2 = .success ∧
      (mmInitPhysicalMemoryManager (fun _ => 0) usedFirstMap).1.bitmap = 0x1000 ∧
      ¬ PlacedWell (fun _ => 0) usedFirstMap := by
  have h0 : bitmapSizeOf usedFirstMap ≠ 0 := by decide
  have hok : (mmInitPhysicalMemoryManager (fun _ => 0) usedFirstMap).2 = .success := by
    rw [init_eq, if_neg h0]
  refine ⟨hok, ?_, fun hplaced => ?_⟩
  · rw [(init_success hok).2.1]
    decide
  · obtain ⟨f, hf, h⟩ := (placed_iff_first h0).mp hplaced
    obtain rfl : ⟨0x1000, 0x4000, .used⟩ = f := Option.some.inj hf
    exact absurd ((usedFirstMap_wellFormed.holds_iff h0 hf).mp h).1 (by decide)

/-! ## The contents -/

/-- Entries that begin and end on page boundaries; nothing is said of how they lie to each other.
    Entries may overlap, repeat, and wrap around the address space. -/
structure PageAligned (memMap : BootMemoryMap) : Prop where
  base_mod : ∀ e ∈ memMap.memEntries, e.base % 0x1000 = 0
  size_mod : ∀ e ∈ memMap.memEntries, e.size % 0x1000 = 0
  size_lt : ∀ e ∈ memMap.memEntries, e.size < 2 ^ 64

/-- Some byte of the entry is on page `p`.  It is asked byte by byte, so that an entry which wraps
    has the pages it has. -/
def OnPage (e : BootMemoryMapEntry) (p : Nat) : Prop :=
  ∃ t, t < e.size ∧ getPageLocationFromAddress (w64 (e.base + t)) = p

/-- The pages of an aligned entry are those its marks are for. -/
theorem PageAligned.touches_iff (ha : PageAligned memMap) {e : BootMemoryMapEntry}
    (he : e ∈ memMap.memEntries) (b : Bool) (p : Nat) :
    Touches (pageMarks e.base (inPages e.size) b) p ↔ OnPage e p := by
  have hbase := ha.base_mod e he
  have hsize := ha.size_mod e he
  rw [touches_pageMarks_iff, inPages_aligned hsize (ha.size_lt e he), PageOf, OnPage]
  unfold getPageLocationFromAddress pageSize w64
  constructor
  · rintro ⟨j, hj, hp⟩
    exact ⟨j * 0x1000, by omega, hp⟩
  · rintro ⟨t, ht, hp⟩
    -- the page boundary below the byte
    exact ⟨t / 0x1000, by omega, by omega⟩

/-- One pass over the entries that satisfy `sel`. -/
theorem PageAligned.used_pass (ha : PageAligned memMap) (sel : BootMemoryMapEntry → Bool) (b : Bool)
    (s : State) (p : Nat) :
    let s' := s.marks ((memMap.memEntries.filter sel).flatMap
      fun e => pageMarks e.base (inPages e.size) b)
    ((∃ e ∈ memMap.memEntries, sel e = true ∧ OnPage e p) → s'.used p = b) ∧
    ((¬ ∃ e ∈ memMap.memEntries, sel e = true ∧ OnPage e p) → s'.used p = s.used p) := by
  have htouch : Touches ((memMap.memEntries.filter sel).flatMap
      fun e => pageMarks e.base (inPages e.size) b) p ↔
      ∃ e ∈ memMap.memEntries, sel e = true ∧ OnPage e p := by
    rw [touches_pass]
    exact exists_congr fun e => and_congr_right fun he => and_congr_right fun _ =>
      ha.touches_iff he b p
  obtain ⟨hin, hout⟩ := used_marks ((memMap.memEntries.filter sel).flatMap
    fun e => pageMarks e.base (inPages e.size) b) s p fun _ hm => flag_pass hm
  exact ⟨fun h => hin (htouch.mpr h), fun h => hout fun ht => h (htouch.mp ht)⟩

/-- **What init leaves in the bitmap.**  After a successful init of a map of page-aligned entries,
    in any order and overlapping or not, the bit of a page is clear exactly when the page is part of
    a FREE entry, of no entry of another type, and holds none of the bitmap.  A page is touched by
    up to three passes, and the last one that touches it wins: the bitmap's own, then that of the
    entries in use, then that of the free ones.  What `memset` left is seen only by pages of no
    entry, and those are set, or have no storage. -/
theorem init_clear_iff (ha : PageAligned memMap)
    (hok : (mmInitPhysicalMemoryManager mem memMap).2 = .success) :
    let s := (mmInitPhysicalMemoryManager mem memMap).1
    ∀ p, p < 8 * s.bitmapSize → (s.used p = false ↔
      (∃ e ∈ memMap.memEntries, e.type = .free ∧ OnPage e p) ∧
      (∀ e ∈ memMap.memEntries, e.type ≠ .free → ¬ OnPage e p) ∧
      ¬ PageOf s.bitmap (inPages s.bitmapSize) p) := by
  intro s p hp
  obtain ⟨-, hbase, hsize, hs⟩ := init_success hok
  rw [show s.bitmap = _ from hbase, show s.bitmapSize = _ from hsize, show s = _ from hs]
  rw [show s.bitmapSize = _ from hsize] at hp
  generalize placeBitmap (bitmapSizeOf memMap) memMap.memEntries = bitmap
  -- the states before the passes and after each of them
  rw [initMarks, State.marks_append, State.marks_append]
  generalize h0 : (afterCounting mem memMap bitmap).fillBitmap = s₀
  generalize h1 : s₀.marks (clearPass memMap.memEntries) = s₁
  generalize h2 : s₁.marks (setPass memMap.memEntries) = s₂
  have hfill : s₀.used p = true := by
    have hlt : p / 8 < (afterCounting mem memMap bitmap).bitmapSize := by
      show p / 8 < bitmapSizeOf memMap
      omega
    rw [← h0, used_fillBitmap, if_pos hlt]
  have hclear := ha.used_pass (fun e => decide (e.type = .free)) false s₀ p
  have hset := ha.used_pass (fun e => decide (e.type ≠ .free)) true s₁ p
  rw [clearPass] at h1
  rw [setPass] at h2
  simp only [h1, decide_eq_true_eq] at hclear
  simp only [h2, decide_eq_true_eq] at hset
  obtain ⟨hown, hother⟩ := used_marks (pageMarks bitmap (inPages (bitmapSizeOf memMap)) true) s₂ p
    fun _ hm => flag_pageMarks hm
  rw [touches_pageMarks_iff] at hown hother
  by_cases hb : PageOf bitmap (inPages (bitmapSizeOf memMap)) p
  · rw [hown hb]
    exact ⟨fun h => absurd h (by decide), fun h => absurd hb h.2.2⟩
  rw [hother hb]
  by_cases ho : ∃ e ∈ memMap.memEntries, e.type ≠ .free ∧ OnPage e p
  · rw [hset.1 ho]
    obtain ⟨e, he, ht, hpage⟩ := ho
    exact ⟨fun h => absurd h (by decide), fun h => absurd hpage (h.2.1 e he ht)⟩
  rw [hset.2 ho]
  have hnone : ∀ e ∈ memMap.memEntries, e.type ≠ .free → ¬ OnPage e p :=
    fun e he ht hpage => ho ⟨e, he, ht, hpage⟩
  by_cases hf : ∃ e ∈ memMap.memEntries, e.type = .free ∧ OnPage e p
  · rw [hclear.1 hf]
    exact ⟨fun _ => ⟨hf, hnone, hb⟩, fun _ => rfl⟩
  · rw [hclear.2 hf, hfill]
    exact ⟨fun h => absurd h (by decide), fun h => absurd h.1 hf⟩

/-- 28 KiB of free memory, 8 KiB of which a second entry has in use. -/
def overlapMap : BootMemoryMap := ⟨[⟨0x1000, 0x7000, .free⟩, ⟨0x3000, 0x2000, .used⟩]⟩

/-- Both entries are aligned; they overlap. -/
theorem overlapMap_aligned : PageAligned overlapMap where
  base_mod := by decide
  size_mod := by decide
  size_lt := by decide

/-- Page 2 lies in the free entry only, and the bitmap is in page 1. -/
theorem overlapMap_clear : (mmInitPhysicalMemoryManager (fun _ => 0) overlapMap).1.used 2 = false := by
  have hok : (mmInitPhysicalMemoryManager (fun _ => 0) overlapMap).2 = .success := by decide
  have hplace : placeBitmap (bitmapSizeOf overlapMap) overlapMap.memEntries = 0x1000 := by decide
  have hone : inPages (bitmapSizeOf overlapMap) = 1 := by decide
  obtain ⟨-, hbase, hsize, -⟩ := init_success hok
  refine (init_clear_iff overlapMap_aligned hok 2 ?_).mpr ⟨⟨_, List.mem_cons_self, rfl, 0x1000, ?_⟩,
    fun e he ht => ?_, ?_⟩
  · rw [hsize]
    decide
  · decide
  · rcases List.mem_cons.mp he with rfl | he
    · exact absurd rfl ht
    · obtain rfl := List.mem_singleton.mp he
      rintro ⟨t, ht, hpage⟩
      rw [getPageLocationFromAddress, w64, pageSize] at hpage
      dsimp only at ht hpage
      omega
  · rw [hbase, hsize, hplace, hone]
    rintro ⟨j, hj, hpage⟩
    rw [getPageLocationFromAddress, w64, pageSize] at hpage
    omega

end Nearlands.Pmm
