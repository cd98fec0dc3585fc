/-
  `MmInitPhysicalMemoryManager`: from the boot memory map to the first bitmap.

  Init counts the pages of all entries, places the bitmap at the first entry that is large
  enough, fills it with `0xFF`, clears the bits of the FREE entries, sets those of the others,
  and last sets the bits of the bitmap's own pages.  The three marking passes are one list of
  marks (`initMarks`), carried out in order; so the bytes that init touches and the bits it
  leaves behind come from the same list.

  The map is a value here: its entries are read as they were handed over, which is the case
  when the memory that holds them is not part of what init overwrites.
-/
import Nearlands.Pmm.Bits
import Nearlands.Lib.Region

namespace Nearlands.Pmm

open Nearlands.Lib

/-! ## The program -/

/-- `n` times `c++` on a `u64`.  Written as the loop it is, since the counter wraps one by one. -/
def countLoop : Nat → Nat → Nat
  | 0, c => c
  | n + 1, c => countLoop n (w64 (c + 1))

/-- The counting pass: `pageCount` and `usablePageCount` after the entries.  Free and other pages
    alike are counted in `pageCount`. -/
def countPages : List BootMemoryMapEntry → Nat × Nat → Nat × Nat
  | [], c => c
  | e :: es, (pageCount, usablePageCount) =>
    let sizeInPages := inPages e.size
    countPages es (countLoop sizeInPages pageCount,
      if e.type = .free then countLoop sizeInPages usablePageCount else usablePageCount)

/-- The first entry of at least `bitmapSize` bytes; `bitmap` stays `NULL` when there is none.  The
    type of the entry is not looked at. -/
def placeBitmap (bitmapSize : Nat) : List BootMemoryMapEntry → Nat
  | [] => null
  | e :: es => if e.size ≥ bitmapSize then e.base else placeBitmap bitmapSize es

/-- One call of `MarkBitInBitmapFromAddress`: the address and `setOrClear`. -/
abbrev Mark := Nat × Bool

/-- The marks of `n` pages from `base` on.  Both the product and the sum may wrap, and the mark is
    then on a lower page. -/
def pageMarks (base n : Nat) (setOrClear : Bool) : List Mark :=
  (List.range n).map fun j => (w64 (base + w64 (j * pageSize)), setOrClear)

/-- The marking pass over the FREE entries. -/
def clearPass (es : List BootMemoryMapEntry) : List Mark :=
  (es.filter (·.type = .free)).flatMap fun e => pageMarks e.base (inPages e.size) false

/-- The marking pass over the entries of every other type.  Entries that overlap a free one in part
    win, since this pass comes second. -/
def setPass (es : List BootMemoryMapEntry) : List Mark :=
  (es.filter (·.type ≠ .free)).flatMap fun e => pageMarks e.base (inPages e.size) true

/-- All marks of init, in order.  The order decides where two of them are for one page: the last one
    is what stays. -/
def initMarks (es : List BootMemoryMapEntry) (bitmap bitmapSize : Nat) : List Mark :=
  clearPass es ++ setPass es ++ pageMarks bitmap (inPages bitmapSize) true

/-- Carry out marks in order. -/
def State.marks (s : State) (ms : List Mark) : State :=
  ms.foldl (fun s m => s.markBitInBitmapFromAddress m.1 m.2) s

/-- A count stays a word. -/
theorem countLoop_lt : ∀ (n c : Nat), c < 2 ^ 64 → countLoop n c < 2 ^ 64
  | 0, _, h => h
  | n + 1, _, _ => countLoop_lt n _ (w64_lt _)

/-- And so does the number of pages. -/
theorem countPages_lt : ∀ (es : List BootMemoryMapEntry) (c : Nat × Nat), c.1 < 2 ^ 64 →
    (countPages es c).1 < 2 ^ 64
  | [], _, h => h
  | _ :: es, _, h => countPages_lt es _ (countLoop_lt _ _ h)

/-- The statics after the counting pass and the placement, over the memory `mem`.  The storage is
    the memory that lies at `bitmap`, whatever it holds before `memset`. -/
def afterCounting (mem : Nat → UInt8) (memMap : BootMemoryMap) (bitmap : Nat) : State where
  pageCount := (countPages memMap.memEntries (0, 0)).1
  usablePageCount := (countPages memMap.memEntries (0, 0)).2
  bitmapSize := (countPages memMap.memEntries (0, 0)).1 / 8
  bitmap := bitmap
  bytes := fun i => mem (w64 (bitmap + i))
  pageUsed := 0
  pageCount_lt := countPages_lt _ _ (by decide)

/-- `memset(bitmap, 0xFF, bitmapSize)`.  The bits behind the end keep what was in memory. -/
def State.fillBitmap (s : State) : State :=
  { s with bytes := fun i => if i < s.bitmapSize then 0xFF else s.bytes i }

/-- `MmInitPhysicalMemoryManager(memMap)`, on statics that are still zero.  There is one way to
    fail: a map of less than eight pages has no byte of bitmap.  A bitmap that found no entry is put
    at address 0, and the call is successful. -/
def mmInitPhysicalMemoryManager (mem : Nat → UInt8) (memMap : BootMemoryMap) :
    State × NearStatus :=
  let counted := afterCounting mem memMap null
  if counted.bitmapSize = 0 then (counted, .noValidMemory)
  else
    let bitmap := placeBitmap counted.bitmapSize memMap.memEntries
    let filled := (afterCounting mem memMap bitmap).fillBitmap
    (filled.marks (initMarks memMap.memEntries bitmap counted.bitmapSize), .success)

/-! ## Well-formed maps -/

/-- The bytes of an entry. -/
def entryBytes (e : BootMemoryMapEntry) : Region := ⟨e.base, e.size⟩

/-- The page numbers of an entry. -/
def entryPages (e : BootMemoryMapEntry) : Region := ⟨e.base / 0x1000, e.size / 0x1000⟩

/-- A boot memory map: page-aligned entries of the 64-bit address space, pairwise disjoint.  Disjoint
    is meant of the extents (`Region.Apart`: one entry ends before the other begins), which for entries
    with bytes in them is the same as having no byte in common.  An entry of size 0 strictly inside
    another one is excluded, although it shares no byte with it: such an entry counts no page and its
    loops mark none, so nothing would change for it but the case distinctions. -/
structure WellFormed (memMap : BootMemoryMap) : Prop where
  base_mod : ∀ e ∈ memMap.memEntries, e.base % 0x1000 = 0
  size_mod : ∀ e ∈ memMap.memEntries, e.size % 0x1000 = 0
  size_lt : ∀ e ∈ memMap.memEntries, e.size < 2 ^ 64
  fits : ∀ e ∈ memMap.memEntries, e.base + e.size ≤ 2 ^ 64
  apart : memMap.memEntries.Pairwise fun e f => (entryBytes e).Apart (entryBytes f)

/-- Pages of all entries together.  A sum of sizes; that it is used as a limit for addresses is what
    `Pmm.Boot` is about. -/
def totalPages (memMap : BootMemoryMap) : Nat :=
  (memMap.memEntries.map fun e => e.size / 0x1000).sum

variable {memMap : BootMemoryMap}

/-- The pages of the entries are apart, as their bytes are and all are aligned. -/
theorem WellFormed.pages_apart (hw : WellFormed memMap) :
    (memMap.memEntries.map entryPages).Pairwise Region.Apart := by
  refine List.pairwise_map.mpr (hw.apart.imp_of_mem fun he hf h => ?_)
  have h1 := hw.base_mod _ he
  have h2 := hw.size_mod _ he
  have h3 := hw.base_mod _ hf
  have h4 := hw.size_mod _ hf
  unfold Region.Apart entryBytes at h
  unfold Region.Apart entryPages
  dsimp only at *
  omega

/-- There is no more memory than addresses.  By counting: the entries are apart, and all below page
    `2 ^ 52`. -/
theorem WellFormed.totalPages_le (hw : WellFormed memMap) : totalPages memMap ≤ 2 ^ 52 := by
  have h := Region.sum_size_le hw.pages_apart (n := 2 ^ 52) (by
    intro r hr q hq
    obtain ⟨e, he, rfl⟩ := List.mem_map.mp hr
    have h2 := hw.fits e he
    rw [entryPages, Region.Has] at hq
    dsimp only at hq
    omega)
  rw [List.map_map] at h
  exact h

/-- Sizes are whole pages, so rounding up changes nothing. -/
theorem WellFormed.inPages_size (hw : WellFormed memMap) {e : BootMemoryMapEntry}
    (he : e ∈ memMap.memEntries) : inPages e.size = e.size / 0x1000 :=
  inPages_aligned (hw.size_mod e he) (hw.size_lt e he)

/-! ## Counting -/

/-- Counting by ones is adding, while nothing wraps.  The induction is on the number of turns. -/
theorem countLoop_eq : ∀ (n c : Nat), c + n < 2 ^ 64 → countLoop n c = c + n := by
  intro n
  induction n with
  | zero =>
    intro c _
    rfl
  | succ n ih =>
    intro c h
    show countLoop n (w64 (c + 1)) = _
    rw [w64_of_lt (by omega), ih (c + 1) (by omega)]
    omega

/-- The counting pass adds up the entries' pages. -/
theorem countPages_eq : ∀ (es : List BootMemoryMapEntry) (c : Nat × Nat),
    (∀ e ∈ es, inPages e.size = e.size / 0x1000) →
    c.1 + (es.map fun e => e.size / 0x1000).sum < 2 ^ 64 →
    (countPages es c).1 = c.1 + (es.map fun e => e.size / 0x1000).sum := by
  intro es
  induction es with
  | nil =>
    intro c _ _
    rfl
  | cons e es ih =>
    intro c hp hlt
    rw [List.map_cons, List.sum_cons] at hlt
    have he := hp e List.mem_cons_self
    have hloop : countLoop (inPages e.size) c.1 = c.1 + e.size / 0x1000 := by
      rw [he, countLoop_eq _ _ (by omega)]
    have hrest : ∀ f ∈ es, inPages f.size = f.size / 0x1000 :=
      fun f hf => hp f (List.mem_cons_of_mem _ hf)
    unfold countPages
    dsimp only
    rw [ih _ hrest (by dsimp only; rw [hloop]; omega)]
    dsimp only
    rw [hloop, List.map_cons, List.sum_cons, Nat.add_assoc]

/-- **`pageCount` is the number of pages of the map.** -/
theorem WellFormed.countPages_eq (hw : WellFormed memMap) :
    (countPages memMap.memEntries (0, 0)).1 = totalPages memMap := by
  have hle := hw.totalPages_le
  rw [totalPages] at hle ⊢
  rw [Pmm.countPages_eq _ _ (fun e he => hw.inPages_size he) (by dsimp only; omega)]
  exact Nat.zero_add _

/-! ## Marks -/

/-- Some mark of the list is for page `q`.  Whether a mark is there is all that matters; passes of
    one kind may be read in any order. -/
def Touches (ms : List Mark) (q : Nat) : Prop :=
  ∃ m ∈ ms, getPageLocationFromAddress m.1 = q

/-- Two lists of marks are carried out one after the other. -/
theorem State.marks_append (s : State) (ms ms' : List Mark) :
    s.marks (ms ++ ms') = (s.marks ms).marks ms' := List.foldl_append

/-- Marks of one kind leave exactly the touched pages with that value.  The induction is on the
    list; a later mark of the same kind cannot undo an earlier one. -/
theorem used_marks {b : Bool} : ∀ (ms : List Mark) (s : State) (q : Nat), (∀ m ∈ ms, m.2 = b) →
    (Touches ms q → (s.marks ms).used q = b) ∧ (¬ Touches ms q → (s.marks ms).used q = s.used q) := by
  intro ms
  induction ms with
  | nil =>
    intro s q _
    exact ⟨fun ⟨m, hm, _⟩ => absurd hm List.not_mem_nil, fun _ => rfl⟩
  | cons m ms ih =>
    intro s q hb
    obtain ⟨hin, hout⟩ := ih (s.markBitInBitmapFromAddress m.1 m.2) q
      (fun m' hm' => hb m' (List.mem_cons_of_mem _ hm'))
    have hmark : (s.markBitInBitmapFromAddress m.1 m.2).used q =
        if getPageLocationFromAddress m.1 = q then b else s.used q := by
      rw [State.markBitInBitmapFromAddress]
      rw [hb m List.mem_cons_self]
      by_cases heq : getPageLocationFromAddress m.1 = q
      · cases b <;> simp [heq]
      · have hne : ¬ q = getPageLocationFromAddress m.1 := fun h => heq h.symm
        cases b <;> simp [heq, hne]
    show (Touches (m :: ms) q → ((s.markBitInBitmapFromAddress m.1 m.2).marks ms).used q = b) ∧
      (¬ Touches (m :: ms) q → ((s.markBitInBitmapFromAddress m.1 m.2).marks ms).used q = s.used q)
    by_cases hms : Touches ms q
    · exact ⟨fun _ => hin hms,
        fun hno => absurd (hms.imp fun _ h => ⟨List.mem_cons_of_mem _ h.1, h.2⟩) hno⟩
    · rw [hout hms, hmark]
      by_cases heq : getPageLocationFromAddress m.1 = q
      · rw [if_pos heq]
        exact ⟨fun _ => rfl, fun hno => absurd ⟨m, List.mem_cons_self, heq⟩ hno⟩
      · rw [if_neg heq]
        refine ⟨fun ⟨m', hm', hq⟩ => ?_, fun _ => rfl⟩
        rcases List.mem_cons.mp hm' with rfl | hm'
        · exact absurd hq heq
        · exact absurd ⟨m', hm', hq⟩ hms

/-- Marking keeps the rest of the statics. -/
@[simp] theorem statics_marks : ∀ (ms : List Mark) (s : State), (s.marks ms).statics = s.statics
  | [], _ => rfl
  | m :: ms, s => by
    show (State.marks (s.markBitInBitmapFromAddress m.1 m.2) ms).statics = _
    rw [statics_marks ms]
    rw [State.markBitInBitmapFromAddress]
    split <;> rfl

/-- Page `p` is one of the `n` pages from the address `base` on.  The page is read off the wrapped
    address, as the code does it. -/
def PageOf (base n p : Nat) : Prop :=
  ∃ j, j < n ∧ getPageLocationFromAddress (w64 (base + j * pageSize)) = p

/-- The marks of pages touch these pages. -/
theorem touches_pageMarks_iff (base n : Nat) (b : Bool) (q : Nat) :
    Touches (pageMarks base n b) q ↔ PageOf base n q := by
  have haddr : ∀ j, w64 (base + w64 (j * pageSize)) = w64 (base + j * pageSize) := by
    intro j
    rw [Nat.add_comm, w64_add_w64, Nat.add_comm]
  rw [Touches, pageMarks, PageOf]
  constructor
  · rintro ⟨m, hm, hq⟩
    obtain ⟨j, hj, rfl⟩ := List.mem_map.mp hm
    rw [haddr] at hq
    exact ⟨j, List.mem_range.mp hj, hq⟩
  · rintro ⟨j, hj, hq⟩
    rw [← haddr] at hq
    exact ⟨_, List.mem_map.mpr ⟨j, List.mem_range.mpr hj, rfl⟩, hq⟩

/-- The page marks of an aligned run touch its pages.  An aligned run that ends in the address space
    does not wrap, and its pages are consecutive. -/
theorem touches_pageMarks {base n : Nat} {b : Bool} (hb : base % 0x1000 = 0)
    (hfit : base + n * 0x1000 ≤ 2 ^ 64) (q : Nat) :
    Touches (pageMarks base n b) q ↔ Region.Has ⟨base / 0x1000, n⟩ q := by
  -- the `j`-th mark is for page `base / 0x1000 + j`
  have hpage : ∀ j, j < n →
      getPageLocationFromAddress (w64 (base + j * pageSize)) = base / 0x1000 + j := by
    intro j hj
    rw [getPageLocationFromAddress, pageSize]
    rw [w64_of_lt (by omega)]
    omega
  rw [touches_pageMarks_iff, PageOf, Region.Has]
  dsimp only
  constructor
  · rintro ⟨j, hj, hq⟩
    rw [hpage j hj] at hq
    omega
  · rintro ⟨h1, h2⟩
    refine ⟨q - base / 0x1000, by omega, ?_⟩
    rw [hpage _ (by omega)]
    omega

/-- The marks of the pass over the entries that satisfy `sel` are those of these entries. -/
theorem touches_pass (es : List BootMemoryMapEntry) (sel : BootMemoryMapEntry → Bool) (b : Bool)
    (q : Nat) : Touches ((es.filter sel).flatMap fun e => pageMarks e.base (inPages e.size) b) q ↔
      ∃ e ∈ es, sel e = true ∧ Touches (pageMarks e.base (inPages e.size) b) q := by
  constructor
  · rintro ⟨m, hm, hq⟩
    obtain ⟨e, he, hme⟩ := List.mem_flatMap.mp hm
    obtain ⟨he, hsel⟩ := List.mem_filter.mp he
    exact ⟨e, he, hsel, m, hme, hq⟩
  · rintro ⟨e, he, hsel, m, hme, hq⟩
    exact ⟨m, List.mem_flatMap.mpr ⟨e, List.mem_filter.mpr ⟨he, hsel⟩, hme⟩, hq⟩

/-- In a well-formed map these are their pages. -/
theorem WellFormed.touches_pass (hw : WellFormed memMap) (sel : BootMemoryMapEntry → Bool)
    (b : Bool) (q : Nat) :
    Touches ((memMap.memEntries.filter sel).flatMap fun e => pageMarks e.base (inPages e.size) b) q
      ↔ ∃ e ∈ memMap.memEntries, sel e = true ∧ (entryPages e).Has q := by
  have hentry : ∀ e ∈ memMap.memEntries,
      (Touches (pageMarks e.base (inPages e.size) b) q ↔ (entryPages e).Has q) := by
    intro e he
    have h1 := hw.fits e he
    have h2 := hw.size_mod e he
    rw [hw.inPages_size he]
    exact touches_pageMarks (hw.base_mod e he) (by omega) q
  rw [Pmm.touches_pass]
  exact exists_congr fun e => and_congr_right fun he => and_congr_right fun _ => hentry e he

/-! ## The bitmap after init -/

/-- Where init puts the bitmap. -/
def bitmapBase (memMap : BootMemoryMap) : Nat :=
  placeBitmap (totalPages memMap / 8) memMap.memEntries

/-- The pages holding the bitmap.  The last of them may be filled only in part. -/
def bitmapPages (memMap : BootMemoryMap) : Region :=
  ⟨bitmapBase memMap / 0x1000, inPages (totalPages memMap / 8)⟩

/-- `memset` sets every bit below its end and no other.  What is behind the end is left, also in the
    last byte that a page of memory would need. -/
theorem used_fillBitmap (s : State) (q : Nat) :
    s.fillBitmap.used q = if q / 8 < s.bitmapSize then true else s.used q := by
  unfold State.fillBitmap State.used
  by_cases h : q / 8 < s.bitmapSize
  · simp only [h, if_true]
    show Nat.testBit (2 ^ 8 - 1) (q % 8) = true
    rw [Nat.testBit_two_pow_sub_one]
    exact decide_eq_true (Nat.mod_lt _ (by decide))
  · simp only [h, if_false]

/-- The state init returns, spelled out. -/
theorem WellFormed.init_eq (hw : WellFormed memMap) (mem : Nat → UInt8)
    (hok : (mmInitPhysicalMemoryManager mem memMap).2 = .success) :
    (mmInitPhysicalMemoryManager mem memMap).1 =
        (afterCounting mem memMap (bitmapBase memMap)).fillBitmap.marks
          (initMarks memMap.memEntries (bitmapBase memMap) (totalPages memMap / 8)) ∧
      8 ≤ totalPages memMap := by
  have hcount := hw.countPages_eq
  have hsize : (afterCounting mem memMap null).bitmapSize = totalPages memMap / 8 := by
    unfold afterCounting; dsimp only; rw [hcount]
  rw [mmInitPhysicalMemoryManager] at hok ⊢
  dsimp only at hok ⊢
  rw [hsize] at hok ⊢
  by_cases h0 : totalPages memMap / 8 = 0
  · rw [if_pos h0] at hok
    exact nomatch hok
  · rw [if_neg h0]
    exact ⟨rfl, by omega⟩

/-- The marks of pages are of one kind. -/
theorem flag_pageMarks {base n : Nat} {b : Bool} {m : Mark} (h : m ∈ pageMarks base n b) :
    m.2 = b := by
  obtain ⟨j, -, rfl⟩ := List.mem_map.mp h
  rfl

/-- So are those of a pass. -/
theorem flag_pass {es : List BootMemoryMapEntry} {b : Bool} {m : Mark}
    (h : m ∈ es.flatMap fun e => pageMarks e.base (inPages e.size) b) : m.2 = b := by
  obtain ⟨e, -, hme⟩ := List.mem_flatMap.mp h
  exact flag_pageMarks hme

/-- The pass over the entries that satisfy `sel`: their pages get the value, the rest stays. -/
theorem WellFormed.used_pass (hw : WellFormed memMap) (sel : BootMemoryMapEntry → Bool)
    (b : Bool) (s : State) (q : Nat) :
    let s' := s.marks ((memMap.memEntries.filter sel).flatMap
      fun e => pageMarks e.base (inPages e.size) b)
    (∀ e ∈ memMap.memEntries, sel e = true → (entryPages e).Has q → s'.used q = b) ∧
    ((∀ e ∈ memMap.memEntries, sel e = true → ¬ (entryPages e).Has q) → s'.used q = s.used q) := by
  obtain ⟨hin, hout⟩ := used_marks ((memMap.memEntries.filter sel).flatMap
    fun e => pageMarks e.base (inPages e.size) b) s q fun _ hm => flag_pass hm
  exact ⟨fun e he hsel hq => hin ((hw.touches_pass sel b q).mpr ⟨e, he, hsel, hq⟩),
    fun hno => hout fun ht =>
      let ⟨e, he, hsel, hq⟩ := (hw.touches_pass sel b q).mp ht
      hno e he hsel hq⟩

end Nearlands.Pmm
