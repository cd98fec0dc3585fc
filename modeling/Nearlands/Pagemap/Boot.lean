/-
  What the page map lists after init.

  The pages of the storage are counted with the others and are then not listed, so that the last
  entries of the map are what the memory held before.  `lists_usable_iff` says when the map has only
  usable pages all the same: when the storage does not come out of listed pages, since the entry it
  was cut from is taken for one that ends at `2 ^ 64`, or when the memory already held pages of such
  an entry there.

  The proof looks at the FREE entries alone (`frees`).  Their pages are those of the first pass; the
  second pass shortens one of them, and the third lists what is left.
-/
import Mathlib.Data.List.Nodup
import Nearlands.Lib.Region
import Nearlands.Pagemap.Init

namespace Nearlands.Pagemap

open Nearlands.Lib

/-! ## What init is for -/

/-- The bytes of an entry. -/
def bytesOf (e : BootMemoryMapEntry) : Region := ⟨e.base, e.size⟩

/-- Page-aligned entries of the 64-bit address space, no two of which share a byte.  Nothing is
    asked of the order of the entries, nor of their types. -/
structure WellFormed (memMap : BootMemoryMap) : Prop where
  base_mod : ∀ e ∈ memMap.memEntries, e.base % 0x1000 = 0
  base_lt : ∀ e ∈ memMap.memEntries, e.base < 2 ^ 64
  size_mod : ∀ e ∈ memMap.memEntries, e.size % 0x1000 = 0
  size_lt : ∀ e ∈ memMap.memEntries, e.size < 2 ^ 64
  fits : ∀ e ∈ memMap.memEntries, e.base + e.size ≤ 2 ^ 64
  disjoint : memMap.memEntries.Pairwise fun e f => ∀ a, (bytesOf e).Has a → ¬ (bytesOf f).Has a

/-- The pages that hold a page map.  Its size is rounded up to pages, as the code does before it
    shortens the entry. -/
def storage (pageMap pageMapAmount : Nat) : Region :=
  ⟨pageMap, alignUp (w64 (pageMapAmount * sizeofPageMap))⟩

/-- A page of a FREE entry, not page 0, and none of those that hold the map. -/
structure Usable (memMap : BootMemoryMap) (map : Region) (a : Nat) : Prop where
  nonzero : a ≠ 0
  aligned : a % 0x1000 = 0
  free : ∃ e ∈ memMap.memEntries, e.type = .free ∧ Region.Within ⟨a, pageSize⟩ (bytesOf e)
  outside : Region.Apart ⟨a, pageSize⟩ map

/-- The entries of the page map have different usable pages. -/
structure ListsUsable (memMap : BootMemoryMap) (r : Initialised) : Prop where
  distinct : r.pmm.Distinct
  usable : ∀ i < r.pmm.pageMapAmount,
    Usable memMap (storage r.pageMap r.pmm.pageMapAmount) (r.pmm.address i)

/-! ## The FREE entries -/

/-- The FREE entries without page 0. -/
def frees (memMap : BootMemoryMap) : List BootMemoryMapEntry :=
  (memMap.memEntries.filter (·.type = .free)).map skipPageZero

/-- The entries whose pages are listed do not end at `2 ^ 64`.  For the others `base + size` is 0 as
    a `u64`, and the loops over their pages make no turn. -/
def Listed (e : BootMemoryMapEntry) : Prop := e.base + e.size < 2 ^ 64

instance (e : BootMemoryMapEntry) : Decidable (Listed e) := inferInstanceAs (Decidable (_ < _))

/-- The number of their pages. -/
def listedPages (memMap : BootMemoryMap) : Nat :=
  (((frees memMap).filter fun e => Listed e).map fun e => e.size / 0x1000).sum

/-- The entry the storage is cut from.  The bytes asked for are those of all listed pages, the ones
    of the storage included. -/
def storageEntry (memMap : BootMemoryMap) : Option BootMemoryMapEntry :=
  (frees memMap).find? fun e => listedPages memMap * sizeofPageMap ≤ e.size

/-- The pages of the loops. -/
def loops (es : List BootMemoryMapEntry) : List Nat :=
  es.flatMap fun e => entryLoop e.base e.size

variable {memMap : BootMemoryMap} {e f : BootMemoryMapEntry}

/-- A FREE entry without page 0, in the `u64` arithmetic of init. -/
structure Whole (e : BootMemoryMapEntry) : Prop where
  base_mod : e.base % 0x1000 = 0
  size_mod : e.size % 0x1000 = 0
  base_pos : 0 < e.base
  base_lt : e.base < 2 ^ 64
  fits : e.base + e.size ≤ 2 ^ 64

/-- What page 0 costs: nothing else, unless there is nothing to take it from, and then the entry ends
    at `2 ^ 64`. -/
theorem skip_cases (hb : e.base % 0x1000 = 0) (hblt : e.base < 2 ^ 64) (hs : e.size % 0x1000 = 0)
    (hlt : e.size < 2 ^ 64) (hfit : e.base + e.size ≤ 2 ^ 64) : Whole (skipPageZero e) ∧
      (Listed (skipPageZero e) → (skipPageZero e).base + (skipPageZero e).size = e.base + e.size ∧
        e.base ≤ (skipPageZero e).base ∧
        ∀ a, a ≠ 0 → a % 0x1000 = 0 → e.base ≤ a → (skipPageZero e).base ≤ a) ∧
      (e.base + e.size < 2 ^ 64 → e.base ≠ 0 ∨ e.size ≠ 0 → Listed (skipPageZero e)) := by
  unfold skipPageZero
  split
  · rename_i h0
    have hbase : w64 (e.base + pageSize) = 0x1000 := by rw [h0]; rfl
    rw [hbase]
    by_cases hempty : e.size = 0
    · have hsize : sub64 e.size pageSize = 2 ^ 64 - 0x1000 := by rw [hempty]; rfl
      rw [hsize]
      refine ⟨⟨?_, ?_, ?_, ?_, ?_⟩, fun h => ?_, fun _ h => ?_⟩
      all_goals simp only [Listed] at *
      all_goals omega
    · have hsize : sub64 e.size pageSize = e.size - 0x1000 :=
        sub64_of_le (by rw [pageSize]; omega) hlt
      rw [hsize]
      refine ⟨⟨?_, ?_, ?_, ?_, ?_⟩, fun _ => ⟨?_, ?_, fun a ha hmod hle => ?_⟩, fun _ _ => ?_⟩
      all_goals simp only [Listed] at *
      all_goals omega
  · rename_i h0
    exact ⟨⟨hb, hs, by omega, hblt, hfit⟩, fun _ => ⟨rfl, Nat.le_refl _, fun _ _ _ h => h⟩, fun h _ => h⟩

/-- The same for an entry of a well-formed map. -/
theorem WellFormed.skip_cases (hw : WellFormed memMap) (he : e ∈ memMap.memEntries) :
    Whole (skipPageZero e) ∧
      (Listed (skipPageZero e) → (skipPageZero e).base + (skipPageZero e).size = e.base + e.size ∧
        e.base ≤ (skipPageZero e).base ∧
        ∀ a, a ≠ 0 → a % 0x1000 = 0 → e.base ≤ a → (skipPageZero e).base ≤ a) ∧
      (e.base + e.size < 2 ^ 64 → e.base ≠ 0 ∨ e.size ≠ 0 → Listed (skipPageZero e)) :=
  Pagemap.skip_cases (hw.base_mod e he) (hw.base_lt e he) (hw.size_mod e he) (hw.size_lt e he)
    (hw.fits e he)

/-- The loop over an entry takes its pages, if it is listed. -/
theorem mem_entryLoop (hw : Whole e) {a : Nat} : a ∈ entryLoop e.base e.size ↔
    Listed e ∧ a % 0x1000 = 0 ∧ (bytesOf e).Has a := by
  obtain ⟨hb, hs, hpos, hblt, hfit⟩ := hw
  by_cases hl : Listed e
  · rw [entryLoop_eq hb hs hl, List.mem_map]
    rw [bytesOf, Region.Has]
    constructor
    · rintro ⟨k, hk, rfl⟩
      rw [List.mem_range] at hk
      exact ⟨hl, by omega, by dsimp only; omega⟩
    · rintro ⟨-, hmod, hle, hlt⟩
      dsimp only at hle hlt
      exact ⟨(a - e.base) / 0x1000, List.mem_range.mpr (by omega), by omega⟩
  · rw [entryLoop_top (by rw [Listed] at hl; omega)]
    exact iff_of_false List.not_mem_nil fun h => hl h.1

/-- So it takes `size / 0x1000` of them, or none. -/
theorem length_entryLoop (hw : Whole e) :
    (entryLoop e.base e.size).length = if Listed e then e.size / 0x1000 else 0 := by
  obtain ⟨hb, hs, hpos, hblt, hfit⟩ := hw
  by_cases hl : Listed e
  · rw [entryLoop_eq hb hs hl, List.length_map, List.length_range, if_pos hl]
  · rw [entryLoop_top (by rw [Listed] at hl; omega), if_neg hl]
    rfl

/-- And each of them once. -/
theorem nodup_entryLoop (hw : Whole e) : (entryLoop e.base e.size).Nodup := by
  obtain ⟨hb, hs, hpos, hblt, hfit⟩ := hw
  by_cases hl : Listed e
  · rw [entryLoop_eq hb hs hl]
    exact List.nodup_range.map fun j k hjk => by omega
  · rw [entryLoop_top (by rw [Listed] at hl; omega)]
    exact List.nodup_nil

/-- The FREE entries stay in the `u64` arithmetic without a wrap. -/
theorem whole_frees (hw : WellFormed memMap) : ∀ e ∈ frees memMap, Whole e := by
  intro e he
  obtain ⟨e, hmem, rfl⟩ := List.mem_map.mp he
  have hmem := (List.mem_filter.mp hmem).1
  exact (hw.skip_cases hmem).1

/-- Listed entries lie in the entries they come from. -/
theorem listed_has (hw : WellFormed memMap) (he : e ∈ memMap.memEntries)
    (hl : Listed (skipPageZero e)) {a : Nat} (ha : (bytesOf (skipPageZero e)).Has a) :
    (bytesOf e).Has a := by
  obtain ⟨hend, hle, -⟩ := (hw.skip_cases he).2.1 hl
  rw [bytesOf, Region.Has] at ha ⊢
  dsimp only at ha ⊢
  omega

/-! ## The passes -/

/-- Leaving page 0 out does not change what an entry is. -/
theorem skip_type (e : BootMemoryMapEntry) : (skipPageZero e).type = e.type := by
  unfold skipPageZero
  split <;> rfl

/-- Page 0 is left out once. -/
theorem skip_of_pos (h : 0 < e.base) : skipPageZero e = e := if_neg (Nat.ne_of_gt h)

/-- The counting pass on the FREE entries.  The amount is the number of the pages in their loops, as
    a `u64`, and the entries that are left are those without page 0: the pass has no other effect on
    what the later passes read. -/
theorem countPass_eq : ∀ (es : List BootMemoryMapEntry) (n : Nat), n < 2 ^ 64 →
    (countPass es n).2 = w64 (n + (loops ((es.filter (·.type = .free)).map skipPageZero)).length) ∧
    (countPass es n).1.filter (·.type = .free) = (es.filter (·.type = .free)).map skipPageZero
  | [], n, hn => ⟨(w64_of_lt hn).symm, rfl⟩
  | e :: es, n, hn => by
    rw [countPass]
    by_cases hfree : e.type = .free
    · obtain ⟨hcount, hrest⟩ := countPass_eq es
        (w64 (n + (entryLoop (skipPageZero e).base (skipPageZero e).size).length)) (w64_lt _)
      rw [if_neg (not_not.mpr hfree), List.filter_cons_of_pos (by simpa using hfree)]
      dsimp only
      rw [hcount, List.filter_cons_of_pos (by simpa [skip_type] using hfree), hrest, w64_add_w64]
      refine ⟨?_, rfl⟩
      simp only [loops, List.map_cons, List.flatMap_cons, List.length_append, Nat.add_assoc]
    · obtain ⟨hcount, hrest⟩ := countPass_eq es n hn
      rw [if_pos hfree, List.filter_cons_of_neg (by simpa using hfree)]
      dsimp only
      rw [List.filter_cons_of_neg (by simpa using hfree)]
      exact ⟨hcount, hrest⟩

/-- An entry without the storage of `n` entries. -/
def cut (n : Nat) (e : BootMemoryMapEntry) : BootMemoryMapEntry :=
  let pmsizeAligned := alignUp (w64 (n * sizeofPageMap))
  { e with size := sub64 e.size pmsizeAligned, base := w64 (e.base + pmsizeAligned) }

/-- The search for the storage on the FREE entries.  Either no entry is large enough and the result
    is `NULL`, or the first one that is becomes `cut n e` between its neighbours, which stay.  The
    entries are past page 0 already (`0 < e.base`), so the second look at it does nothing. -/
theorem place_cases (n : Nat) : ∀ es : List BootMemoryMapEntry,
    (∀ e ∈ es.filter (·.type = .free), 0 < e.base) →
    ((es.filter (·.type = .free)).find? (fun e => w64 (n * sizeofPageMap) ≤ e.size) = none ∧
      (placePass n es).1 = null) ∨
    ∃ l e r, es.filter (·.type = .free) = l ++ e :: r ∧
      (es.filter (·.type = .free)).find? (fun e => w64 (n * sizeofPageMap) ≤ e.size) = some e ∧
      (placePass n es).1 = e.base ∧
      (placePass n es).2.filter (·.type = .free) = l ++ cut n e :: r
  | [], _ => .inl ⟨rfl, rfl⟩
  | e :: es, hpos => by
    rw [placePass]
    by_cases hfree : e.type = .free
    · have hkeep : (e :: es).filter (·.type = .free) = e :: es.filter (·.type = .free) :=
        List.filter_cons_of_pos (by simpa using hfree)
      rw [hkeep] at hpos ⊢
      have hskip := skip_of_pos (hpos e List.mem_cons_self)
      rw [if_neg (not_not.mpr hfree), hskip]
      dsimp only
      by_cases hbig : w64 (n * sizeofPageMap) ≤ e.size
      · rw [if_pos hbig]
        refine .inr ⟨[], e, _, rfl, List.find?_cons_of_pos (by simpa using hbig), rfl, ?_⟩
        exact List.filter_cons_of_pos (by simpa using hfree)
      · rw [if_neg hbig, List.find?_cons_of_neg (by simpa using hbig)]
        rcases place_cases n es fun f hf => hpos f (List.mem_cons_of_mem e hf) with
          ⟨hnone, hnull⟩ | ⟨l, f, r, hes, hfind, hbase, hrest⟩
        · exact .inl ⟨hnone, hnull⟩
        · refine .inr ⟨e :: l, f, r, by rw [hes]; rfl, hfind, hbase, ?_⟩
          rw [List.filter_cons_of_pos (by simpa using hfree), hrest]
          rfl
    · have hdrop : (e :: es).filter (·.type = .free) = es.filter (·.type = .free) :=
        List.filter_cons_of_neg (by simpa using hfree)
      rw [hdrop] at hpos ⊢
      rw [if_pos hfree]
      dsimp only
      rw [List.filter_cons_of_neg (by simpa using hfree)]
      exact place_cases n es hpos

/-- The entries of the map behind the filling pass.  The pages are in order from `c` on, and any
    other entry is what it was, which for the last ones of the map means what the memory held. -/
theorem fillMap_address : ∀ (js : List Nat) (c : Nat) (s : State) (i : Nat),
    (fillMap js c s).pageMapAmount = s.pageMapAmount ∧
    (fillMap js c s).address i =
      if c ≤ i ∧ i < c + js.length then js.getD (i - c) 0 else s.address i
  | [], c, s, i => ⟨rfl, (if_neg (by simp)).symm⟩
  | j :: js, c, s, i => by
    obtain ⟨hsize, haddr⟩ := fillMap_address js (c + 1)
      { s with address := upd s.address c j, isFree := upd s.isFree c true } i
    rw [fillMap]
    refine ⟨hsize, haddr.trans ?_⟩
    rw [List.length_cons]
    rcases Nat.lt_trichotomy i c with hlt | rfl | hgt
    · rw [if_neg (by omega), if_neg (by omega)]
      exact upd_other (by omega)
    · rw [if_neg (by omega), if_pos (by omega), Nat.sub_self]
      exact upd_same
    · by_cases hin : i < c + 1 + js.length
      · rw [if_pos (by omega), if_pos (by omega), show i - c = i - (c + 1) + 1 by omega]
        rfl
      · rw [if_neg (by omega), if_neg (by omega)]
        exact upd_other (by omega)

/-! ## The pages counted -/

/-- The loops of two lists are made one after the other. -/
theorem loops_append (l r : List BootMemoryMapEntry) : loops (l ++ r) = loops l ++ loops r :=
  List.flatMap_append

/-- A page of the loops is one of a listed entry. -/
theorem mem_loops {es : List BootMemoryMapEntry} (hes : ∀ e ∈ es, Whole e) {a : Nat} :
    a ∈ loops es ↔ ∃ e ∈ es, Listed e ∧ a % 0x1000 = 0 ∧ (bytesOf e).Has a := by
  rw [loops, List.mem_flatMap]
  constructor
  · rintro ⟨e, he, ha⟩
    exact ⟨e, he, (mem_entryLoop (hes e he)).mp ha⟩
  · rintro ⟨e, he, ha⟩
    exact ⟨e, he, (mem_entryLoop (hes e he)).mpr ha⟩

/-- The number of pages in the loops is the sum over the listed entries. -/
theorem length_loops : ∀ {es : List BootMemoryMapEntry}, (∀ e ∈ es, Whole e) →
    (loops es).length = ((es.filter fun e => Listed e).map fun e => e.size / 0x1000).sum
  | [], _ => rfl
  | e :: es, hes => by
    have ih := length_loops fun f hf => hes f (List.mem_cons_of_mem e hf)
    have hfirst := length_entryLoop (hes e List.mem_cons_self)
    rw [loops, List.flatMap_cons, List.length_append, hfirst]
    by_cases hl : Listed e
    · rw [if_pos hl, List.filter_cons_of_pos (by simpa using hl), List.map_cons, List.sum_cons, ← ih]
      rfl
    · rw [if_neg hl, List.filter_cons_of_neg (by simpa using hl), ← ih, Nat.zero_add]
      rfl

/-- Listed entries share no byte. -/
theorem frees_disjoint (hw : WellFormed memMap) : (frees memMap).Pairwise fun e f =>
    Listed e → Listed f → ∀ a, (bytesOf e).Has a → ¬ (bytesOf f).Has a := by
  refine List.pairwise_map.mpr ((hw.disjoint.filter _).imp_of_mem fun he hf h hle hlf a ha hb => ?_)
  exact h a (listed_has hw (List.mem_filter.mp he).1 hle ha)
    (listed_has hw (List.mem_filter.mp hf).1 hlf hb)

/-- No page is counted twice, as listed entries share none. -/
theorem nodup_loops (hw : WellFormed memMap) : (loops (frees memMap)).Nodup := by
  have hwhole := whole_frees hw
  refine List.nodup_flatMap.mpr ⟨fun e he => nodup_entryLoop (hwhole e he), ?_⟩
  refine (frees_disjoint hw).imp_of_mem fun he hf h => ?_
  intro a ha hb
  obtain ⟨hle, -, hea⟩ := (mem_entryLoop (hwhole _ he)).mp ha
  obtain ⟨hlf, -, hfa⟩ := (mem_entryLoop (hwhole _ hf)).mp hb
  exact h hle hlf a hea hfa

/-- There are no more pages than addresses of pages.  The pages are different multiples of `0x1000`
    below `2 ^ 64`.  It is what keeps the size of the storage, 9 bytes for each page, a `u64`. -/
theorem listedPages_le (hw : WellFormed memMap) : listedPages memMap ≤ 2 ^ 52 := by
  have hwhole := whole_frees hw
  have haligned : ∀ a ∈ loops (frees memMap), a % 0x1000 = 0 ∧ a < 2 ^ 64 := by
    intro a ha
    obtain ⟨e, he, hl, hmod, hhas⟩ := (mem_loops hwhole).mp ha
    rw [bytesOf, Region.Has] at hhas
    rw [Listed] at hl
    exact ⟨hmod, by dsimp only at hhas; omega⟩
  have hnodup : ((loops (frees memMap)).map fun a => a / 0x1000).Nodup :=
    (nodup_loops hw).map_on fun a ha b hb hab => by
      have h1 := haligned a ha
      have h2 := haligned b hb
      omega
  have hsub : ((loops (frees memMap)).map fun a => a / 0x1000).toFinset ⊆ Finset.range (2 ^ 52) := by
    intro p hp
    obtain ⟨a, ha, rfl⟩ := List.mem_map.mp (List.mem_toFinset.mp hp)
    have h1 := haligned a ha
    exact Finset.mem_range.mpr (by omega)
  have hcard := Finset.card_le_card hsub
  rw [List.toFinset_card_of_nodup hnodup, List.length_map, Finset.card_range,
    length_loops hwhole] at hcard
  exact hcard

/-- So `pageMapAmount` is the number of the listed pages, and not that modulo `2 ^ 64`. -/
theorem countPass_amount (hw : WellFormed memMap) :
    (countPass memMap.memEntries 0).2 = listedPages memMap := by
  have hle := listedPages_le hw
  have hlength : (loops (frees memMap)).length = listedPages memMap :=
    length_loops (whole_frees hw)
  have hcount := (countPass_eq memMap.memEntries 0 (by decide)).1
  rw [Nat.zero_add] at hcount
  rw [hcount]
  show w64 (loops (frees memMap)).length = _
  rw [hlength, w64_of_lt (by omega)]

/-! ## The storage -/

/-- The bytes of the storage are whole pages of the entry it is cut from. -/
theorem storage_fits (he : Whole e) {n : Nat} (hn : 0 < n) (hle : n ≤ 2 ^ 52)
    (hroom : n * sizeofPageMap ≤ e.size) : 0 < (storage e.base n).size ∧
      (storage e.base n).size % 0x1000 = 0 ∧ (storage e.base n).size ≤ e.size := by
  obtain ⟨hb, hs, hpos, hblt, hfit⟩ := he
  rw [sizeofPageMap] at hroom
  rw [storage, alignUp, sizeofPageMap, pageSize]
  dsimp only
  rw [w64_of_lt (x := n * 9) (by omega), w64_of_lt (by omega)]
  omega

/-- The pages of an entry are those of its front part and those of the rest. -/
theorem entryLoop_split {base size k : Nat} (hb : base % 0x1000 = 0) (hs : size % 0x1000 = 0)
    (hk : k % 0x1000 = 0) (hle : k ≤ size) (hfit : base + size < 2 ^ 64) :
    entryLoop base size = entryLoop base k ++ entryLoop (base + k) (size - k) := by
  rw [entryLoop_eq hb hs hfit, entryLoop_eq hb hk (by omega), entryLoop_eq (by omega) (by omega)
    (by omega), show size / 0x1000 = k / 0x1000 + (size - k) / 0x1000 by omega, List.range_add,
    List.map_append, List.map_map]
  refine congrArg (_ ++ ·) (List.map_congr_left fun j _ => ?_)
  dsimp only [Function.comp_apply]
  omega

/-- The pages of the filling pass: the storage is left out of an entry whose pages are listed. -/
def leftPages (n : Nat) (l : List BootMemoryMapEntry) (e : BootMemoryMapEntry)
    (r : List BootMemoryMapEntry) : List Nat :=
  let pmsizeAligned := (storage e.base n).size
  loops l ++ ((if Listed e then entryLoop (e.base + pmsizeAligned) (e.size - pmsizeAligned) else [])
    ++ loops r)

/-- Whole entries stay what they are when they are aligned once more. -/
theorem fillPages_whole {es : List BootMemoryMapEntry} (hes : ∀ e ∈ es, Whole e) :
    (es.flatMap fun e => entryLoop (alignUp e.base) (alignDown e.size)) = loops es := by
  refine List.flatMap_congr fun e he => ?_
  obtain ⟨hb, hs, -, hblt, -⟩ := hes e he
  rw [alignUp_of_mod hb hblt, alignDown_of_mod hs]

/-- The entry the storage was cut from. -/
theorem fillPages_cut (he : Whole e) {n : Nat} (hn : 0 < n) (hle : n ≤ 2 ^ 52)
    (hroom : n * sizeofPageMap ≤ e.size) :
    entryLoop (alignUp (cut n e).base) (alignDown (cut n e).size) =
      if Listed e then entryLoop (e.base + (storage e.base n).size) (e.size - (storage e.base n).size)
      else [] := by
  obtain ⟨hpos, hmod, hfits⟩ := storage_fits he hn hle hroom
  obtain ⟨hb, hs, hbpos, hblt, hfit⟩ := he
  have hsize : (cut n e).size = e.size - (storage e.base n).size := sub64_of_le hfits (by omega)
  have hbase : (cut n e).base = w64 (e.base + (storage e.base n).size) := rfl
  rw [hsize, hbase, alignDown_of_mod (by omega)]
  by_cases hl : Listed e
  · rw [if_pos hl]
    rw [Listed] at hl
    rw [w64_of_lt (by omega), alignUp_of_mod (by omega) (by omega)]
  · rw [if_neg hl]
    rw [Listed] at hl
    rcases Nat.lt_or_ge (e.base + (storage e.base n).size) (2 ^ 64) with hlt | hge
    · rw [w64_of_lt hlt, alignUp_of_mod (by omega) hlt]
      exact entryLoop_top (by omega)
    · -- nothing is left of it
      have hall : e.base + (storage e.base n).size = 2 ^ 64 := by omega
      rw [hall, show e.size - (storage e.base n).size = 0 by omega]
      rfl

/-! ## The map -/

/-- The address an entry of the page map has in the memory before init. -/
def addressAt (mem : Bytes) (pageMap i : Nat) : Nat :=
  mem.read (w64 (pageMap + i * sizeofPageMap)) 8

/-- What a successful init has done.  The FREE entries are `l ++ e :: r`, the storage is cut from
    `e`, and the entries of the map are the pages that are left and behind them the memory as it
    was. -/
structure Laid (memMap : BootMemoryMap) (mem : Bytes) (l : List BootMemoryMapEntry)
    (e : BootMemoryMapEntry) (r : List BootMemoryMapEntry) (res : Initialised) : Prop where
  split : frees memMap = l ++ e :: r
  found : storageEntry memMap = some e
  pos : 0 < listedPages memMap
  room : listedPages memMap * sizeofPageMap ≤ e.size
  base : res.pageMap = e.base
  amount : res.pmm.pageMapAmount = listedPages memMap
  address : ∀ i, res.pmm.address i =
    if i < (leftPages (listedPages memMap) l e r).length then
      (leftPages (listedPages memMap) l e r).getD i 0
    else addressAt mem e.base i

/-- Every successful init is of this form.  The three passes are taken one after the other: the
    counting pass gives the amount, the search for the storage splits the entries, and the filling
    pass writes the pages that are left. -/
theorem init_laid (hw : WellFormed memMap) {mem : Bytes}
    (hs : (mmInitPhysicalMemoryManager mem memMap).status = .success) :
    ∃ l e r, Laid memMap mem l e r (mmInitPhysicalMemoryManager mem memMap) := by
  have hwhole := whole_frees hw
  have hcount := countPass_amount hw
  have hrest : (countPass memMap.memEntries 0).1.filter (·.type = .free) = frees memMap :=
    (countPass_eq memMap.memEntries 0 (by decide)).2
  have hle := listedPages_le hw
  have hsize : w64 (listedPages memMap * sizeofPageMap) = listedPages memMap * sizeofPageMap :=
    w64_of_lt (by rw [sizeofPageMap]; omega)
  rw [mmInitPhysicalMemoryManager] at hs ⊢
  -- the counting pass has found pages
  by_cases h0 : (countPass memMap.memEntries 0).2 = 0
  · rw [if_pos h0] at hs
    exact absurd hs (show NearStatus.noValidMemory ≠ .success by decide)
  rw [if_neg h0] at hs ⊢
  have hpos : 0 < listedPages memMap := by omega
  -- the search has found room
  rcases place_cases (countPass memMap.memEntries 0).2 (countPass memMap.memEntries 0).1
      (by rw [hrest]; exact fun e he => (hwhole e he).base_pos) with
    ⟨-, hnull⟩ | ⟨l, e, r, hfrees, hfind, hbase, hafter⟩
  · rw [if_pos hnull] at hs
    exact absurd hs (show NearStatus.notEnoughMemory ≠ .success by decide)
  rw [hrest] at hfrees hfind
  rw [hcount, hsize] at hfind
  have hmem : e ∈ frees memMap := by rw [hfrees]; simp
  have he := hwhole e hmem
  have hroom : listedPages memMap * sizeofPageMap ≤ e.size := by
    have := List.find?_some hfind
    exact of_decide_eq_true this
  have hne : (placePass (countPass memMap.memEntries 0).2 (countPass memMap.memEntries 0).1).1 ≠
      null := by
    rw [hbase]
    exact Nat.ne_of_gt he.base_pos
  rw [if_neg hne]
  -- the pages that are filled in are those that are left
  have hfill : fillPages (placePass (countPass memMap.memEntries 0).2
      (countPass memMap.memEntries 0).1).2 = leftPages (listedPages memMap) l e r := by
    have hl : ∀ f ∈ l, Whole f := fun f hf => hwhole f (by rw [hfrees]; simp [hf])
    have hr : ∀ f ∈ r, Whole f := fun f hf => hwhole f (by rw [hfrees]; simp [hf])
    rw [fillPages, hafter, hcount, List.flatMap_append, List.flatMap_cons, fillPages_whole hl,
      fillPages_whole hr, fillPages_cut he hpos hle hroom, leftPages]
  refine ⟨l, e, r, hfrees, hfind, hpos, hroom, hbase, ?_, fun i => ?_⟩
  · exact ((fillMap_address _ 0 _ 0).1).trans hcount
  · dsimp only
    rw [(fillMap_address _ 0 _ i).2, hfill, Nat.zero_add, Nat.sub_zero]
    simp only [Nat.zero_le, true_and]
    refine if_congr Iff.rfl rfl ?_
    show mem.read (w64 _) 8 = _
    rw [hbase]
    rfl

/-- A page of a FREE entry that ends at `2 ^ 64`. -/
def TopPage (memMap : BootMemoryMap) (a : Nat) : Prop :=
  a % 0x1000 = 0 ∧ ∃ e ∈ memMap.memEntries, e.type = .free ∧ e.base + e.size = 2 ^ 64 ∧ e.base ≤ a

/-- From entry `first` on, the memory held different pages of such entries. -/
structure HeldTopPages (memMap : BootMemoryMap) (mem : Bytes) (pageMap first n : Nat) : Prop where
  top : ∀ i, first ≤ i → i < n → TopPage memMap (addressAt mem pageMap i)
  distinct : ∀ i j, first ≤ i → i < n → first ≤ j → j < n →
    addressAt mem pageMap i = addressAt mem pageMap j → i = j

/-- All entries of the map are good: the storage does not come out of listed pages, and no listed
    page lies in it, or what is not listed was there before.  Both cases can occur: in the first one
    the storage lies in an entry that ends at `2 ^ 64`, none of whose pages are listed, so that
    nothing is missing at the end of the map. -/
def FillsMap (memMap : BootMemoryMap) (mem : Bytes) : Prop :=
  let n := listedPages memMap
  ∃ e, storageEntry memMap = some e ∧
    (¬ Listed e ∧ (∀ f ∈ frees memMap, Listed f → ∀ a, (bytesOf f).Has a →
        ¬ (storage e.base n).Has a) ∨
      Listed e ∧ HeldTopPages memMap mem e.base (n - (storage e.base n).size / 0x1000) n)

/-- Eight bytes are a `u64`. -/
theorem addressAt_lt (mem : Bytes) (pageMap i : Nat) : addressAt mem pageMap i < 2 ^ 64 :=
  mem.read_lt 8 _

/-- A byte has one entry. -/
theorem WellFormed.owner (hw : WellFormed memMap) (he : e ∈ memMap.memEntries)
    (hf : f ∈ memMap.memEntries) {a : Nat} (hea : (bytesOf e).Has a) (hfa : (bytesOf f).Has a) :
    e = f := by
  by_contra hne
  have hsymm : Std.Symm fun e f : BootMemoryMapEntry =>
      ∀ a, (bytesOf e).Has a → ¬ (bytesOf f).Has a := ⟨fun _ _ h a hf he => h a he hf⟩
  exact hw.disjoint.forall he hf hne a hea hfa

/-- A byte of a listed entry, and the entry it comes from. -/
theorem of_listed (hw : WellFormed memMap) (he : e ∈ frees memMap) (hl : Listed e) {a : Nat}
    (ha : (bytesOf e).Has a) : ∃ f ∈ memMap.memEntries, f.type = .free ∧ (bytesOf f).Has a ∧
      f.base + f.size < 2 ^ 64 := by
  obtain ⟨f, hmem, rfl⟩ := List.mem_map.mp he
  obtain ⟨hf, hfree⟩ := List.mem_filter.mp hmem
  refine ⟨f, hf, of_decide_eq_true hfree, listed_has hw hf hl ha, ?_⟩
  rw [← ((hw.skip_cases hf).2.1 hl).1]
  exact hl

/-- It is no byte of an entry that ends at `2 ^ 64`. -/
theorem not_top (hw : WellFormed memMap) (he : e ∈ frees memMap) (hl : Listed e) {a : Nat}
    (ha : (bytesOf e).Has a) (hlt : a < 2 ^ 64) : ¬ TopPage memMap a := by
  rintro ⟨-, g, hg, -, hend, hle⟩
  obtain ⟨f, hf, -, hfa, hfend⟩ := of_listed hw he hl ha
  have hga : (bytesOf g).Has a := ⟨hle, by
    rw [bytesOf]
    dsimp only
    omega⟩
  obtain rfl := hw.owner hf hg hfa hga
  omega

/-- A page and whole pages share a byte, or they are apart. -/
theorem page_apart_iff {map : Region} (hb : map.base % 0x1000 = 0) (hs : map.size % 0x1000 = 0)
    {a : Nat} (ha : a % 0x1000 = 0) : Region.Apart ⟨a, pageSize⟩ map ↔ ¬ map.Has a := by
  rw [Region.Apart, Region.Has, pageSize]
  dsimp only
  omega

section laid

variable {mem : Bytes} {l r : List BootMemoryMapEntry} {res : Initialised}

/-- The entry of the storage is a FREE one. -/
theorem Laid.whole (hw : WellFormed memMap) (h : Laid memMap mem l e r res) : Whole e :=
  whole_frees hw e (by rw [h.split]; simp)

/-- The storage, as a part of its entry. -/
theorem Laid.cut_fits (hw : WellFormed memMap) (h : Laid memMap mem l e r res) :
    (storage e.base (listedPages memMap)).size % 0x1000 = 0 ∧
    (storage e.base (listedPages memMap)).size ≤ e.size :=
  (storage_fits (h.whole hw) h.pos (listedPages_le hw) h.room).2

/-- The pages counted are those of the storage and those that are left. -/
theorem Laid.perm (hw : WellFormed memMap) (h : Laid memMap mem l e r res) (hl : Listed e) :
    (loops (frees memMap)).Perm (entryLoop e.base (storage e.base (listedPages memMap)).size ++
      leftPages (listedPages memMap) l e r) := by
  obtain ⟨hmod, hle⟩ := h.cut_fits hw
  have he := h.whole hw
  have hfrees : loops (frees memMap) = loops l ++ (entryLoop e.base e.size ++ loops r) := by
    rw [h.split, loops_append]
    rfl
  rw [hfrees, entryLoop_split he.base_mod he.size_mod hmod hle hl, leftPages, if_pos hl,
    List.append_assoc]
  exact List.perm_append_comm_assoc ..

/-- If the storage does not come out of listed pages, all the pages counted are left. -/
theorem Laid.same (hw : WellFormed memMap) (h : Laid memMap mem l e r res) (hl : ¬ Listed e) :
    loops (frees memMap) = leftPages (listedPages memMap) l e r := by
  have he := h.whole hw
  have htop : entryLoop e.base e.size = [] := entryLoop_top (by
    have := he.fits
    rw [Listed] at hl
    omega)
  rw [h.split, loops_append, leftPages, if_neg hl]
  show loops l ++ (entryLoop e.base e.size ++ loops r) = _
  rw [htop]

/-- The pages that are left are different. -/
theorem Laid.nodup (hw : WellFormed memMap) (h : Laid memMap mem l e r res) :
    (leftPages (listedPages memMap) l e r).Nodup := by
  by_cases hl : Listed e
  · exact ((h.perm hw hl).nodup_iff.mp (nodup_loops hw)).of_append_right
  · rw [← h.same hw hl]
    exact nodup_loops hw

theorem Laid.length (hw : WellFormed memMap) (h : Laid memMap mem l e r res) :
    (leftPages (listedPages memMap) l e r).length = if Listed e then
      listedPages memMap - (storage e.base (listedPages memMap)).size / 0x1000
    else listedPages memMap := by
  obtain ⟨hmod, hle⟩ := h.cut_fits hw
  have he := h.whole hw
  have hall : (loops (frees memMap)).length = listedPages memMap := length_loops (whole_frees hw)
  by_cases hl : Listed e
  · have hlength := (h.perm hw hl).length_eq
    have hfit := hl
    rw [Listed] at hfit
    rw [hall, List.length_append, entryLoop_eq he.base_mod hmod (by omega), List.length_map,
      List.length_range] at hlength
    rw [if_pos hl]
    omega
  · rw [if_neg hl, ← h.same hw hl, hall]

/-- A page is left exactly when it was counted and does not lie in a storage cut out of listed
    pages. -/
theorem Laid.mem_left (hw : WellFormed memMap) (h : Laid memMap mem l e r res) {a : Nat} :
    a ∈ leftPages (listedPages memMap) l e r ↔ a ∈ loops (frees memMap) ∧
      (Listed e → ¬ (storage e.base (listedPages memMap)).Has a) := by
  obtain ⟨hmod, hle⟩ := h.cut_fits hw
  have he := h.whole hw
  by_cases hl : Listed e
  · have hperm := h.perm hw hl
    have hnodup := hperm.nodup_iff.mp (nodup_loops hw)
    have hfront : ∀ a ∈ loops (frees memMap),
        (a ∈ entryLoop e.base (storage e.base (listedPages memMap)).size ↔
          (storage e.base (listedPages memMap)).Has a) := by
      intro a ha
      have hmod' : a % 0x1000 = 0 := by
        obtain ⟨-, -, -, hmod', -⟩ := (mem_loops (whole_frees hw)).mp ha
        exact hmod'
      have hfit := hl
      rw [Listed] at hfit
      have hwhole : Whole ⟨e.base, (storage e.base (listedPages memMap)).size, .free⟩ :=
        ⟨he.base_mod, hmod, he.base_pos, he.base_lt, by dsimp only; omega⟩
      rw [mem_entryLoop hwhole]
      exact ⟨fun h => h.2.2, fun h => ⟨by rw [Listed]; dsimp only; omega, hmod', h⟩⟩
    constructor
    · intro ha
      have hall := hperm.mem_iff.mpr (List.mem_append_right _ ha)
      refine ⟨hall, fun _ hhas => ?_⟩
      exact (List.nodup_append'.mp hnodup).2.2 ((hfront a hall).mpr hhas) ha
    · rintro ⟨hall, hout⟩
      rcases List.mem_append.mp (hperm.mem_iff.mp hall) with hin | hleft
      · exact absurd ((hfront a hall).mp hin) (hout hl)
      · exact hleft
  · rw [← h.same hw hl]
    exact ⟨fun ha => ⟨ha, fun hl' => absurd hl' hl⟩, fun ha => ha.1⟩

/-- The entries filled are the pages left. -/
theorem Laid.address_left (h : Laid memMap mem l e r res) {i : Nat}
    (hi : i < (leftPages (listedPages memMap) l e r).length) :
    res.pmm.address i = (leftPages (listedPages memMap) l e r)[i] := by
  rw [h.address, if_pos hi, List.getD_eq_getElem?_getD, List.getElem?_eq_getElem hi]
  rfl

/-- The entries behind them are what the memory held. -/
theorem Laid.address_old (h : Laid memMap mem l e r res) {i : Nat}
    (hi : (leftPages (listedPages memMap) l e r).length ≤ i) :
    res.pmm.address i = addressAt mem e.base i := by
  rw [h.address, if_neg (Nat.not_lt_of_le hi)]

/-- A listed page that is not in the storage is usable. -/
theorem Laid.usable (hw : WellFormed memMap) (h : Laid memMap mem l e r res) {a : Nat}
    (ha : a ∈ loops (frees memMap)) (hout : ¬ (storage e.base (listedPages memMap)).Has a) :
    Usable memMap (storage e.base (listedPages memMap)) a := by
  obtain ⟨f, hf, hl, hmod, hhas⟩ := (mem_loops (whole_frees hw)).mp ha
  obtain ⟨g, hg, hfree, hga, -⟩ := of_listed hw hf hl hhas
  have hgb := hw.base_mod g hg
  have hgs := hw.size_mod g hg
  have hpos := (whole_frees hw f hf).base_pos
  rw [bytesOf, Region.Has] at hhas hga
  dsimp only at hhas hga
  refine ⟨by omega, hmod, ⟨g, hg, hfree, ?_⟩, ?_⟩
  · rw [Region.Within, bytesOf, pageSize]
    dsimp only
    omega
  · exact (page_apart_iff (h.whole hw).base_mod (h.cut_fits hw).1 hmod).mpr hout

/-- So is a page of an entry that ends at `2 ^ 64`, when the storage is from a listed one. -/
theorem Laid.usable_top (hw : WellFormed memMap) (h : Laid memMap mem l e r res) (hl : Listed e)
    {a : Nat} (ha : TopPage memMap a) (hlt : a < 2 ^ 64) :
    Usable memMap (storage e.base (listedPages memMap)) a := by
  obtain ⟨hmod, g, hg, hfree, hend, hle⟩ := ha
  have hsize := hw.size_lt g hg
  refine ⟨by omega, hmod, ⟨g, hg, hfree, ?_⟩, ?_⟩
  · rw [Region.Within, bytesOf, pageSize]
    dsimp only
    omega
  · refine (page_apart_iff (h.whole hw).base_mod (h.cut_fits hw).1 hmod).mpr fun hhas => ?_
    have hmem : e ∈ frees memMap := by rw [h.split]; simp
    have hea : (bytesOf e).Has a := by
      have hfit := (h.cut_fits hw).2
      rw [Region.Has] at hhas
      rw [bytesOf, Region.Has]
      exact ⟨hhas.1, Nat.lt_of_lt_of_le hhas.2 (Nat.add_le_add_left hfit _)⟩
    exact not_top hw hmem hl hea hlt ⟨hmod, g, hg, hfree, hend, hle⟩

/-- A usable page that is not left is one of an entry that ends at `2 ^ 64`. -/
theorem Laid.top_of_usable (hw : WellFormed memMap) (h : Laid memMap mem l e r res) {a : Nat}
    (ha : Usable memMap (storage e.base (listedPages memMap)) a)
    (hleft : a ∉ leftPages (listedPages memMap) l e r) : TopPage memMap a := by
  obtain ⟨hnonzero, hmod, ⟨g, hg, hfree, hwithin⟩, hout⟩ := ha
  rw [Region.Within, bytesOf, pageSize] at hwithin
  dsimp only at hwithin
  refine ⟨hmod, g, hg, hfree, ?_, hwithin.1⟩
  by_contra hne
  have hfit := hw.fits g hg
  obtain ⟨-, hskip, hlisted⟩ := hw.skip_cases hg
  have hl := hlisted (by omega) (.inr (by omega))
  obtain ⟨hend, -, hbase⟩ := hskip hl
  have hmem : skipPageZero g ∈ frees memMap :=
    List.mem_map_of_mem (List.mem_filter.mpr ⟨hg, decide_eq_true hfree⟩)
  have hloop : a ∈ loops (frees memMap) := by
    refine (mem_loops (whole_frees hw)).mpr ⟨_, hmem, hl, hmod, ?_⟩
    have hge := hbase a hnonzero hmod hwithin.1
    rw [bytesOf, Region.Has]
    dsimp only
    omega
  refine hleft ((h.mem_left hw).mpr ⟨hloop, fun _ => ?_⟩)
  exact (page_apart_iff (h.whole hw).base_mod (h.cut_fits hw).1 hmod).mp hout

/-- A storage that is not cut out of listed pages.  Then the number of pages left is the number
    counted, every entry of the map is filled, and all that can go wrong is that a listed page lies
    in the storage. -/
theorem Laid.iff_phantom (hw : WellFormed memMap) (h : Laid memMap mem l e r res)
    (hl : ¬ Listed e) : ListsUsable memMap res ↔ ∀ f ∈ frees memMap, Listed f →
      ∀ a, (bytesOf f).Has a → ¬ (storage e.base (listedPages memMap)).Has a := by
  have hlength := h.length hw
  rw [if_neg hl] at hlength
  have hsame := h.same hw hl
  have hmap := h.cut_fits hw
  have he := h.whole hw
  constructor
  · intro hlists f hf hlf a ha hmem
    -- the page of the byte is in the map
    have hwhole := whole_frees hw f hf
    have hbmod := hwhole.base_mod
    have hsmod := hwhole.size_mod
    have hpage : a / 0x1000 * 0x1000 ∈ loops (frees memMap) := by
      refine (mem_loops (whole_frees hw)).mpr ⟨f, hf, hlf, Nat.mul_mod_left .., ?_⟩
      rw [bytesOf, Region.Has] at ha ⊢
      dsimp only at ha ⊢
      omega
    rw [hsame] at hpage
    obtain ⟨i, hi, hia⟩ := List.getElem_of_mem hpage
    have husable := hlists.usable i (by rw [h.amount]; omega)
    rw [h.address_left hi, hia, h.base, h.amount] at husable
    refine (page_apart_iff he.base_mod hmap.1 (Nat.mul_mod_left ..)).mp husable.outside ?_
    have hbase := he.base_mod
    have hsize := hmap.1
    have hstore : (storage e.base (listedPages memMap)).base = e.base := rfl
    rw [Region.Has, hstore] at hmem ⊢
    omega
  · intro hout
    refine ⟨fun i j hi hj hij => ?_, fun i hi => ?_⟩
    · rw [h.amount] at hi hj
      rw [h.address_left (by omega), h.address_left (by omega)] at hij
      exact (h.nodup hw).getElem_inj_iff.mp hij
    · rw [h.amount] at hi
      rw [h.address_left (by omega), h.base, h.amount]
      have hmem := ((h.mem_left hw).mp (List.getElem_mem
        (l := leftPages (listedPages memMap) l e r) (n := i) (by omega))).1
      obtain ⟨f, hf, hlf, -, hhas⟩ := (mem_loops (whole_frees hw)).mp hmem
      exact h.usable hw hmem (hout f hf hlf _ hhas)

/-- A storage that is cut out of listed pages.  The pages of the storage were counted and are not
    left, so that as many entries at the end of the map are not filled.  A good entry there is
    usable and not one of the pages left, which only a page of an entry that ends at `2 ^ 64` can be
    (`top_of_usable`). -/
theorem Laid.iff_listed (hw : WellFormed memMap) (h : Laid memMap mem l e r res) (hl : Listed e) :
    ListsUsable memMap res ↔ HeldTopPages memMap mem e.base (listedPages memMap -
      (storage e.base (listedPages memMap)).size / 0x1000) (listedPages memMap) := by
  have hlength := h.length hw
  rw [if_pos hl] at hlength
  rw [← hlength]
  have hle : (leftPages (listedPages memMap) l e r).length ≤ listedPages memMap := by omega
  have hleft : ∀ i, (hi : i < (leftPages (listedPages memMap) l e r).length) →
      (leftPages (listedPages memMap) l e r)[i] ∈ leftPages (listedPages memMap) l e r :=
    fun i hi => List.getElem_mem hi
  constructor
  · intro hlists
    have hold : ∀ i, (leftPages (listedPages memMap) l e r).length ≤ i → i < listedPages memMap →
        Usable memMap (storage e.base (listedPages memMap)) (addressAt mem e.base i) := by
      intro i hi hlt
      have := hlists.usable i (by rwa [h.amount])
      rwa [h.address_old hi, h.base, h.amount] at this
    refine ⟨fun i hi hlt => h.top_of_usable hw (hold i hi hlt) fun hmem => ?_,
      fun i j hi hilt hj hjlt hij => ?_⟩
    · -- the page would be listed twice
      obtain ⟨j, hj, hja⟩ := List.getElem_of_mem hmem
      have hsame : res.pmm.address j = res.pmm.address i := by
        rw [h.address_left hj, h.address_old hi, hja]
      have := hlists.distinct j i (by rw [h.amount]; omega) (by rwa [h.amount]) hsame
      omega
    · refine hlists.distinct i j (by rwa [h.amount]) (by rwa [h.amount]) ?_
      rw [h.address_old hi, h.address_old hj, hij]
  · intro hheld
    -- a page that is left is none of an entry that ends at `2 ^ 64`
    have hnot : ∀ i, (hi : i < (leftPages (listedPages memMap) l e r).length) →
        ¬ TopPage memMap (leftPages (listedPages memMap) l e r)[i] := by
      intro i hi
      obtain ⟨f, hf, hlf, -, hhas⟩ :=
        (mem_loops (whole_frees hw)).mp ((h.mem_left hw).mp (hleft i hi)).1
      have hfit := hlf
      have hend := hhas
      rw [Listed] at hfit
      rw [bytesOf, Region.Has] at hend
      dsimp only at hend
      exact not_top hw hf hlf hhas (by omega)
    refine ⟨fun i j hi hj hij => ?_, fun i hi => ?_⟩
    · rw [h.amount] at hi hj
      rcases Nat.lt_or_ge i (leftPages (listedPages memMap) l e r).length with hin | hin <;>
        rcases Nat.lt_or_ge j (leftPages (listedPages memMap) l e r).length with hjn | hjn
      · rw [h.address_left hin, h.address_left hjn] at hij
        exact (h.nodup hw).getElem_inj_iff.mp hij
      · rw [h.address_left hin, h.address_old hjn] at hij
        exact absurd (hij ▸ hheld.top j hjn hj) (hnot i hin)
      · rw [h.address_old hin, h.address_left hjn] at hij
        exact absurd (hij ▸ hheld.top i hin hi) (hnot j hjn)
      · rw [h.address_old hin, h.address_old hjn] at hij
        exact hheld.distinct i j hin hi hjn hj hij
    · rw [h.amount] at hi
      rw [h.base, h.amount]
      rcases Nat.lt_or_ge i (leftPages (listedPages memMap) l e r).length with hin | hin
      · rw [h.address_left hin]
        obtain ⟨hmem, hout⟩ := (h.mem_left hw).mp (hleft i hin)
        exact h.usable hw hmem (hout hl)
      · rw [h.address_old hin]
        exact h.usable_top hw hl (hheld.top i hin hi) (addressAt_lt mem e.base i)

end laid

/-- **Init.**  Of a map of page-aligned, disjoint entries, whatever the memory held, the page map
    that init leaves has only different usable pages exactly when the storage of the map does not
    come out of listed pages and holds none, or the entries that are not filled were good before.
    The success of the call is asked for, since otherwise there is no page map.  The crux is a
    count: the amount is taken before the storage is cut out, so the entries filled are fewer by the
    pages of the storage unless these were never listed. -/
theorem lists_usable_iff (hw : WellFormed memMap) (mem : Bytes)
    (hs : (mmInitPhysicalMemoryManager mem memMap).status = .success) :
    ListsUsable memMap (mmInitPhysicalMemoryManager mem memMap) ↔ FillsMap memMap mem := by
  obtain ⟨l, e, r, h⟩ := init_laid hw hs
  have hfills : FillsMap memMap mem ↔
      (¬ Listed e ∧ (∀ f ∈ frees memMap, Listed f → ∀ a, (bytesOf f).Has a →
        ¬ (storage e.base (listedPages memMap)).Has a) ∨
      Listed e ∧ HeldTopPages memMap mem e.base (listedPages memMap -
        (storage e.base (listedPages memMap)).size / 0x1000) (listedPages memMap)) := by
    rw [FillsMap]
    constructor
    · rintro ⟨e', he', hcases⟩
      obtain rfl := Option.some.inj (h.found.symm.trans he')
      exact hcases
    · exact fun hcases => ⟨e, h.found, hcases⟩
  rw [hfills]
  by_cases hl : Listed e
  · rw [h.iff_listed hw hl]
    simp [hl]
  · rw [h.iff_phantom hw hl]
    simp [hl]

/-- A FREE entry of two pages at the end of the address space, and one of one page. -/
def topMap : BootMemoryMap := ⟨[⟨2 ^ 64 - 0x2000, 0x2000, .free⟩, ⟨0x1000, 0x1000, .free⟩]⟩

/-- Its entries are disjoint pages. -/
theorem topMap_wellFormed : WellFormed topMap where
  base_mod := by decide
  base_lt := by decide
  size_mod := by decide
  size_lt := by decide
  fits := by decide
  disjoint := by
    refine List.pairwise_pair.mpr fun a ha hb => ?_
    rw [bytesOf, Region.Has] at ha hb
    dsimp only at ha hb
    omega

/-- The page map goes into the first entry, none of whose pages are listed. -/
theorem topMap_usable :
    ListsUsable topMap (mmInitPhysicalMemoryManager (fun _ => 7) topMap) := by
  refine (lists_usable_iff topMap_wellFormed (fun _ => 7) (by decide +kernel)).mpr ?_
  refine ⟨⟨2 ^ 64 - 0x2000, 0x2000, .free⟩, by decide +kernel, .inl ⟨by decide, ?_⟩⟩
  intro f hf hl a ha hb
  have hstore : storage (2 ^ 64 - 0x2000) (listedPages topMap) = ⟨2 ^ 64 - 0x2000, 0x1000⟩ := by
    decide +kernel
  rw [hstore, Region.Has] at hb
  rw [Listed] at hl
  rw [bytesOf, Region.Has] at ha
  -- only the second entry is listed
  rcases List.mem_cons.mp hf with rfl | hf
  · exact absurd hl (by decide)
  · obtain rfl := List.mem_singleton.mp hf
    have hend : (skipPageZero ⟨0x1000, 0x1000, .free⟩).base +
      (skipPageZero ⟨0x1000, 0x1000, .free⟩).size = 0x2000 := by decide
    dsimp only at ha hb
    omega

/-- Three free pages. -/
def threePages : BootMemoryMap := ⟨[⟨0x1000, 0x3000, .free⟩]⟩

/-- One entry of whole pages. -/
theorem threePages_wellFormed : WellFormed threePages where
  base_mod := by decide
  base_lt := by decide
  size_mod := by decide
  size_lt := by decide
  fits := by decide
  disjoint := List.pairwise_singleton _ _

/-- **The entry that is not filled.**  The first page holds the map, the other two are listed, and
    the third entry is what the memory held. -/
theorem threePages_old : WellFormed threePages ∧
    (mmInitPhysicalMemoryManager (fun _ => 7) threePages).status = .success ∧
    (mmInitPhysicalMemoryManager (fun _ => 7) threePages).pmm.pageMapAmount = 3 ∧
    (mmInitPhysicalMemoryManager (fun _ => 7) threePages).pmm.address 2 = 0x707070707070707 ∧
    ¬ ListsUsable threePages (mmInitPhysicalMemoryManager (fun _ => 7) threePages) := by
  have haddr : (mmInitPhysicalMemoryManager (fun _ => 7) threePages).pmm.address 2 =
      0x707070707070707 := by decide +kernel
  refine ⟨threePages_wellFormed, by decide +kernel, by decide +kernel, haddr, fun h => ?_⟩
  have haligned := (h.usable 2 (by decide +kernel)).aligned
  rw [haddr] at haligned
  exact absurd haligned (by decide)

end Nearlands.Pagemap
