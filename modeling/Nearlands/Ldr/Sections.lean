/-
  What the sections hold.

  `LoadSectionsIntoMemory` zeroes `VirtualSize` bytes and then copies `SizeOfRawData` of them, or a
  `BootInfo`, without comparing the two: a copy may run into the sections behind its own.  They
  are zeroed and copied later, so in a table in order every section holds its data in the end
  (`sections_laid`).  A section of no size inside an earlier one is copied too, and spoils it
  (`sections_spoiled`).

  Addresses wrap around, and all sections lie in the `2 ^ 33` bytes from `ImageBase` on; so two of
  their bytes with different offsets are different bytes.
-/
import Nearlands.Ldr.Window

namespace Nearlands.Ldr

open Nearlands.Lib

/-! ## The section table -/

section table

variable (m : Bytes) (content ntHeader bInfo i : Nat)

/-- `VirtualAddress` of section `i`. -/
def virtualAddressOf : Nat := virtualAddress.get m (sectionHeader m ntHeader i)

/-- `VirtualSize` of section `i`. -/
def virtualSizeOf : Nat := virtualSize.get m (sectionHeader m ntHeader i)

/-- The name of section `i` begins with `.ldr`. -/
def IsLdrSection : Prop := IsLdr m (sectionHeader m ntHeader i)

/-- How many bytes are copied into section `i`, and from where. -/
def copySizeOf : Nat := copySize m (sectionHeader m ntHeader i)

/-- The data of the file, or the `BootInfo` for a `.ldr` section. -/
def copySourceOf : Nat :=
  if IsLdr m (sectionHeader m ntHeader i) then bInfo
  else content + pointerToRawData.get m (sectionHeader m ntHeader i)

/-- All that is written for section `i`.  Zeros and copy begin at one address, so the longer of the
    two covers both. -/
def sectionSpan : Span :=
  ⟨imageBase.get m ntHeader + virtualAddressOf m ntHeader i,
    max (virtualSizeOf m ntHeader i) (copySizeOf m ntHeader i)⟩

/-- The sections are in ascending order.  Linkers write tables in this order; the loader does not
    check it. -/
def Ascending : Prop :=
  ∀ j < numberOfSections.get m ntHeader, ∀ i < j,
    virtualAddressOf m ntHeader i ≤ virtualAddressOf m ntHeader j

/-- No address is in two sections.  A section of no size is disjoint from everything by this, which
    is where `EmptyOutside` comes in. -/
def RangesDisjoint : Prop :=
  ∀ j < numberOfSections.get m ntHeader, ∀ i < j, ∀ x,
    ¬ ((virtualAddressOf m ntHeader i ≤ x ∧
        x < virtualAddressOf m ntHeader i + virtualSizeOf m ntHeader i) ∧
      virtualAddressOf m ntHeader j ≤ x ∧
      x < virtualAddressOf m ntHeader j + virtualSizeOf m ntHeader j)

/-- A section of no size into which something is copied does not begin inside an earlier one. -/
def EmptyOutside : Prop :=
  ∀ j < numberOfSections.get m ntHeader, ∀ i < j, virtualSizeOf m ntHeader j = 0 →
    copySizeOf m ntHeader j ≠ 0 →
    virtualAddressOf m ntHeader i + virtualSizeOf m ntHeader i ≤ virtualAddressOf m ntHeader j

/-- The number of sections, their headers and what is copied (data of the file or the `BootInfo`)
    are outside of all that is written.  Else the loader would copy what it has already overwritten,
    and no statement about the file could be made. -/
structure SourcesKept : Prop where
  number : ∀ i < numberOfSections.get m ntHeader,
    (sectionSpan m ntHeader i).Clear (numberOfSections.span ntHeader)
  headers : ∀ i < numberOfSections.get m ntHeader, ∀ j < numberOfSections.get m ntHeader,
    (sectionSpan m ntHeader i).Clear ⟨sectionHeader m ntHeader j, sizeofSectionHeader⟩
  sources : ∀ i < numberOfSections.get m ntHeader, ∀ j < numberOfSections.get m ntHeader,
    (sectionSpan m ntHeader i).Clear
      ⟨copySourceOf m content ntHeader bInfo j, copySizeOf m ntHeader j⟩

/-- Byte `k` of section `i`. -/
def sectionByte (k : Nat) : Nat :=
  w64 (imageBase.get m ntHeader + virtualAddressOf m ntHeader i + k)

/-- Section `i` holds its data and then zeros, or the `BootInfo`.  Raw data that is longer than the
    section is cut, one that is shorter is followed by zeros. -/
structure Laid (m' : Bytes) : Prop where
  data : ∀ k < virtualSizeOf m ntHeader i, ¬ IsLdrSection m ntHeader i →
    m' (sectionByte m ntHeader i k) =
      if k < sizeOfRawData.get m (sectionHeader m ntHeader i) then
        m (w64 (content + pointerToRawData.get m (sectionHeader m ntHeader i) + k))
      else 0
  bootInfo : ∀ k < min (virtualSizeOf m ntHeader i) sizeofBootInfo, IsLdrSection m ntHeader i →
    m' (sectionByte m ntHeader i k) = m (w64 (bInfo + k))

end table

variable {m m' : Bytes} {content ntHeader bInfo i j k : Nat}

/-! ## Offsets -/

/-- It has 32 bits. -/
theorem virtualAddressOf_lt (m : Bytes) (ntHeader i : Nat) :
    virtualAddressOf m ntHeader i < 2 ^ 32 := Bytes.read_lt m 4 _

/-- So has the size. -/
theorem virtualSizeOf_lt (m : Bytes) (ntHeader i : Nat) : virtualSizeOf m ntHeader i < 2 ^ 32 :=
  Bytes.read_lt m 4 _

/-- And the number of bytes copied. -/
theorem copySizeOf_lt (m : Bytes) (ntHeader i : Nat) : copySizeOf m ntHeader i < 2 ^ 32 := by
  rw [copySizeOf, copySize]
  split
  · decide
  · exact Bytes.read_lt m 4 _

/-- A section that writes something begins behind the earlier ones. -/
theorem section_after (hasc : Ascending m ntHeader) (hdis : RangesDisjoint m ntHeader)
    (hempty : EmptyOutside m ntHeader) (hj : j < numberOfSections.get m ntHeader) (hij : i < j)
    (hsize : 0 < (sectionSpan m ntHeader j).size) :
    virtualAddressOf m ntHeader i + virtualSizeOf m ntHeader i ≤ virtualAddressOf m ntHeader j := by
  have hle := hasc j hj i hij
  have hnot := hdis j hj i hij (virtualAddressOf m ntHeader j)
  have hout := hempty j hj i hij
  change 0 < max (virtualSizeOf m ntHeader j) (copySizeOf m ntHeader j) at hsize
  omega

/-- So it does not touch their bytes.  This is the crux: zeros and copies run forward from their
    beginning, so a later section cannot reach an earlier one, although an earlier copy may reach
    into later ones. -/
theorem section_clear (hasc : Ascending m ntHeader) (hdis : RangesDisjoint m ntHeader)
    (hempty : EmptyOutside m ntHeader) (hj : j < numberOfSections.get m ntHeader) (hij : i < j)
    (hk : k < virtualSizeOf m ntHeader i) :
    (sectionSpan m ntHeader j).Clear
      ⟨imageBase.get m ntHeader + virtualAddressOf m ntHeader i + k, 1⟩ := by
  intro o ho z hz
  have hafter := section_after hasc hdis hempty hj hij (Nat.lt_of_le_of_lt (Nat.zero_le o) ho)
  change o < max (virtualSizeOf m ntHeader j) (copySizeOf m ntHeader j) at ho
  have hva := virtualAddressOf_lt m ntHeader j
  have hvs := virtualSizeOf_lt m ntHeader j
  have hcs := copySizeOf_lt m ntHeader j
  change w64 (imageBase.get m ntHeader + virtualAddressOf m ntHeader j + o) ≠
    w64 (imageBase.get m ntHeader + virtualAddressOf m ntHeader i + k + z)
  replace hz : z < 1 := hz
  rw [w64, w64]
  omega

/-! ## One section -/

/-- What one turn does to memory, by the header in `m`.  The header is that of the beginning, since
    nothing was written over it. -/
theorem turn_mem (l : Loading) (content bInfo : Nat) {secHeader base : Nat}
    (h : Bytes.SameOn ⟨secHeader, sizeofSectionHeader⟩ m l.mem)
    (hclear : (zeroSpan m base secHeader).Clear ⟨secHeader, sizeofSectionHeader⟩) :
    (l.loadSection content bInfo base secHeader).mem =
      (l.mem.memset (base + virtualAddress.get m secHeader) 0 (virtualSize.get m secHeader)).memcpy
        (base + virtualAddress.get m secHeader)
        (if IsLdr m secHeader then bInfo else content + pointerToRawData.get m secHeader)
        (copySize m secHeader) := by
  have hzero : zeroed l.mem base secHeader =
      l.mem.memset (base + virtualAddress.get m secHeader) 0 (virtualSize.get m secHeader) := by
    rw [zeroed, get_sameOn h (by decide), get_sameOn h (by decide)]
  have hz : Bytes.SameOn ⟨secHeader, sizeofSectionHeader⟩ m (zeroed l.mem base secHeader) := by
    rw [hzero]
    exact h.trans (Bytes.memset_sameOn l.mem 0 hclear)
  rw [loadSection_eq]
  dsimp only
  rw [copied, get_sameOn hz (by decide), get_sameOn hz (by decide), copySize_sameOn hz,
    if_congr (isLdr_sameOn hz) rfl rfl, hzero]

/-- Memory after section `i`: its zeros, and its copy over them. -/
def afterSection (m : Bytes) (content ntHeader bInfo i : Nat) (mem : Bytes) : Bytes :=
  (mem.memset (imageBase.get m ntHeader + virtualAddressOf m ntHeader i) 0
    (virtualSizeOf m ntHeader i)).memcpy (imageBase.get m ntHeader + virtualAddressOf m ntHeader i)
    (copySourceOf m content ntHeader bInfo i) (copySizeOf m ntHeader i)

/-- What is clear of a section is clear of its zeros. -/
theorem clear_zeros {s : Span} (h : (sectionSpan m ntHeader i).Clear s) :
    Span.Clear ⟨imageBase.get m ntHeader + virtualAddressOf m ntHeader i,
      virtualSizeOf m ntHeader i⟩ s :=
  h.mono (k := 0) rfl (Nat.le_max_left _ _) rfl (Nat.le_of_eq (Nat.zero_add _))

/-- And of its copy. -/
theorem clear_copy {s : Span} (h : (sectionSpan m ntHeader i).Clear s) :
    Span.Clear ⟨imageBase.get m ntHeader + virtualAddressOf m ntHeader i,
      copySizeOf m ntHeader i⟩ s :=
  h.mono (k := 0) rfl (Nat.le_max_right _ _) rfl (Nat.le_of_eq (Nat.zero_add _))

/-- What a section does not touch. -/
theorem afterSection_sameOn {s : Span} (h : (sectionSpan m ntHeader i).Clear s)
    (content bInfo : Nat) (mem : Bytes) :
    Bytes.SameOn s mem (afterSection m content ntHeader bInfo i mem) :=
  (Bytes.memset_sameOn mem 0 (clear_zeros h)).trans (Bytes.memcpy_sameOn _ _ (clear_copy h))

/-- The bytes of a section whose source is not touched.  Within the section the copy has the last
    word as far as it goes, and then come the zeros. -/
theorem afterSection_at (mem : Bytes) (hsource : (sectionSpan m ntHeader i).Clear
    ⟨copySourceOf m content ntHeader bInfo i, copySizeOf m ntHeader i⟩)
    (hk : k < virtualSizeOf m ntHeader i) :
    afterSection m content ntHeader bInfo i mem (sectionByte m ntHeader i k) =
      if k < copySizeOf m ntHeader i then mem (w64 (copySourceOf m content ntHeader bInfo i + k))
      else 0 := by
  have hva := virtualAddressOf_lt m ntHeader i
  have hcs := copySizeOf_lt m ntHeader i
  have hvs := virtualSizeOf_lt m ntHeader i
  rw [afterSection, sectionByte]
  by_cases hcopy : k < copySizeOf m ntHeader i
  · rw [if_pos hcopy, Bytes.memcpy_at _ (by omega) (clear_copy hsource) hcopy]
    exact Bytes.memset_sameOn mem 0 (clear_zeros hsource) k hcopy
  · -- behind the copy
    have hbehind : Span.Clear ⟨imageBase.get m ntHeader + virtualAddressOf m ntHeader i,
        copySizeOf m ntHeader i⟩
        ⟨imageBase.get m ntHeader + virtualAddressOf m ntHeader i + k, 1⟩ := by
      intro o ho z hz
      replace ho : o < copySizeOf m ntHeader i := ho
      replace hz : z < 1 := hz
      change w64 (imageBase.get m ntHeader + virtualAddressOf m ntHeader i + o) ≠
        w64 (imageBase.get m ntHeader + virtualAddressOf m ntHeader i + k + z)
      rw [w64, w64]
      omega
    have hsame := Bytes.memcpy_sameOn (mem.memset
      (imageBase.get m ntHeader + virtualAddressOf m ntHeader i) 0 (virtualSizeOf m ntHeader i))
      (copySourceOf m content ntHeader bInfo i) hbehind 0 Nat.one_pos
    rw [Nat.add_zero] at hsame
    rw [if_neg hcopy, hsame]
    exact Bytes.memset_at mem 0 hk

/-- The sections below `i` are laid, and what is outside of all sections is kept.  The invariant of
    the loop.  What lies behind section `i` is not mentioned, as the copy for section `i` may have
    spoiled it. -/
structure LaidUpTo (m : Bytes) (content ntHeader bInfo i : Nat) (m' : Bytes) : Prop where
  kept : ∀ s : Span, (∀ j < numberOfSections.get m ntHeader, (sectionSpan m ntHeader j).Clear s) →
    Bytes.SameOn s m m'
  laid : ∀ j < i, ∀ k < virtualSizeOf m ntHeader j, m' (sectionByte m ntHeader j k) =
    if k < copySizeOf m ntHeader j then m (w64 (copySourceOf m content ntHeader bInfo j + k)) else 0

/-- **One section.**  The earlier ones are in front of it, and stay. -/
theorem LaidUpTo.step (hasc : Ascending m ntHeader) (hdis : RangesDisjoint m ntHeader)
    (hempty : EmptyOutside m ntHeader) (hsrc : SourcesKept m content ntHeader bInfo)
    (hi : i < numberOfSections.get m ntHeader) {l : Loading}
    (h : LaidUpTo m content ntHeader bInfo i l.mem) :
    LaidUpTo m content ntHeader bInfo (i + 1)
      (l.loadSection content bInfo (imageBase.get m ntHeader) (sectionHeader m ntHeader i)).mem := by
  have hheader := h.kept _ fun j hj => hsrc.headers j hj i hi
  rw [turn_mem l content bInfo hheader (clear_zeros (hsrc.headers i hi i hi))]
  change LaidUpTo m content ntHeader bInfo (i + 1) (afterSection m content ntHeader bInfo i l.mem)
  refine ⟨fun s hs => ?_, fun j hj k hk => ?_⟩
  · exact (h.kept s hs).trans (afterSection_sameOn (hs i hi) content bInfo l.mem)
  rcases Nat.lt_succ_iff_lt_or_eq.mp hj with hj | rfl
  · have hclear := section_clear hasc hdis hempty hi hj hk
    have hsame := afterSection_sameOn hclear content bInfo l.mem 0 Nat.one_pos
    rw [Nat.add_zero] at hsame
    exact hsame.trans (h.laid j hj k hk)
  · rw [afterSection_at l.mem (hsrc.sources j hi j hi) hk]
    split
    · rename_i hcopy
      exact h.kept _ (fun j' hj' => hsrc.sources j' hj' j hi) k hcopy
    · rfl

/-! ## The table -/

/-- **The loop.** Induction on the fuel, with the turn it has come to. -/
theorem loadSections_laid (hasc : Ascending m ntHeader) (hdis : RangesDisjoint m ntHeader)
    (hempty : EmptyOutside m ntHeader) (hsrc : SourcesKept m content ntHeader bInfo) :
    ∀ (fuel i : Nat) (l : Loading), i + fuel = 2 ^ 16 → i ≤ numberOfSections.get m ntHeader →
      LaidUpTo m content ntHeader bInfo i l.mem →
      LaidUpTo m content ntHeader bInfo (numberOfSections.get m ntHeader)
        (l.loadSections content ntHeader bInfo (imageBase.get m ntHeader) fuel i
          (sectionHeader m ntHeader i)).mem := by
  intro fuel
  induction fuel with
  | zero =>
    intro i l hsum hi _
    have hlt := numberOfSections_lt m ntHeader
    exact absurd hi (by omega)
  | succ fuel ih =>
    intro i l hsum hi h
    have hnum : numberOfSections.get l.mem ntHeader = numberOfSections.get m ntHeader :=
      Bytes.SameOn.read (h.kept _ hsrc.number)
    rw [loadSections_succ, hnum]
    split
    · rename_i hlt
      have hnext : sectionHeader m ntHeader i + sizeofSectionHeader =
          sectionHeader m ntHeader (i + 1) := by
        rw [sectionHeader, sectionHeader, Nat.succ_mul]
        exact Nat.add_assoc _ _ _
      rw [hnext]
      exact ih (i + 1) _ (by omega) hlt
        (LaidUpTo.step (l := (l.field ntHeader numberOfSections).1) hasc hdis hempty hsrc hlt h)
    · rename_i hge
      have heq : i = numberOfSections.get m ntHeader := by omega
      rw [heq] at h
      exact h

/-- **Sections.**  After `LoadSectionsIntoMemory`, in a table in ascending order without overlaps
    and with nothing copied for an empty section inside another one: every section holds its data
    and then zeros, and a `.ldr` section the `BootInfo`.  What is copied may be longer than its
    section.  The hypotheses are about the table in the memory before the call.  Without the third
    of them it is false (`sections_spoiled`). -/
theorem sections_laid (l : Loading) {content ntHeader bInfo : Nat} (hasc : Ascending l.mem ntHeader)
    (hdis : RangesDisjoint l.mem ntHeader) (hempty : EmptyOutside l.mem ntHeader)
    (hsrc : SourcesKept l.mem content ntHeader bInfo) :
    ∀ i < numberOfSections.get l.mem ntHeader, Laid l.mem content ntHeader bInfo i
      (l.loadSectionsIntoMemory content ntHeader bInfo).mem := by
  have h0 : LaidUpTo l.mem content ntHeader bInfo 0
      ((l.field ntHeader imageBase).1.getFirstSection ntHeader).1.mem :=
    ⟨fun _ _ _ _ => rfl, fun j hj => absurd hj (Nat.not_lt_zero j)⟩
  have h := loadSections_laid hasc hdis hempty hsrc (2 ^ 16) 0 _ (Nat.zero_add _) (Nat.zero_le _) h0
  rw [show sectionHeader l.mem ntHeader 0 =
    ((l.field ntHeader imageBase).1.getFirstSection ntHeader).2 by
      rw [sectionHeader, Nat.zero_mul, Nat.add_zero]; rfl] at h
  change LaidUpTo l.mem content ntHeader bInfo (numberOfSections.get l.mem ntHeader)
    (l.loadSectionsIntoMemory content ntHeader bInfo).mem at h
  intro i hi
  refine ⟨fun k hk hldr => ?_, fun k hk hldr => ?_⟩
  · have hcopy : copySizeOf l.mem ntHeader i =
        sizeOfRawData.get l.mem (sectionHeader l.mem ntHeader i) := if_neg hldr
    have hsource : copySourceOf l.mem content ntHeader bInfo i =
        content + pointerToRawData.get l.mem (sectionHeader l.mem ntHeader i) := if_neg hldr
    rw [h.laid i hi k hk, hcopy, hsource]
  · have hcopy : copySizeOf l.mem ntHeader i = sizeofBootInfo := if_pos hldr
    have hsource : copySourceOf l.mem content ntHeader bInfo i = bInfo := if_pos hldr
    rw [h.laid i hi k (by omega), hcopy, hsource, if_pos (by omega)]

/-! ## Two images -/

instance (m : Bytes) (ntHeader i : Nat) : Decidable (IsLdrSection m ntHeader i) :=
  inferInstanceAs (Decidable (IsLdr _ _))

instance (m : Bytes) (ntHeader : Nat) : Decidable (Ascending m ntHeader) :=
  inferInstanceAs (Decidable (∀ j < _, ∀ i < j, _ ≤ _))

instance (m : Bytes) (ntHeader : Nat) : Decidable (EmptyOutside m ntHeader) :=
  inferInstanceAs (Decidable (∀ j < _, ∀ i < j, _ = 0 → _ ≠ 0 → _ ≤ _))

/-- Sources that lie before or behind all that is written. -/
theorem sourcesKept_of_apart (h : ∀ i < numberOfSections.get m ntHeader,
    (sectionSpan m ntHeader i).Apart (numberOfSections.span ntHeader) ∧
      ∀ j < numberOfSections.get m ntHeader,
        (sectionSpan m ntHeader i).Apart ⟨sectionHeader m ntHeader j, sizeofSectionHeader⟩ ∧
        (sectionSpan m ntHeader i).Apart
          ⟨copySourceOf m content ntHeader bInfo j, copySizeOf m ntHeader j⟩) :
    SourcesKept m content ntHeader bInfo where
  number := fun i hi => (h i hi).1.clear
  headers := fun i hi j hj => ((h i hi).2 j hj).1.clear
  sources := fun i hi j hj => ((h i hi).2 j hj).2.clear

/-- An image at `0x10000` with four bytes of data, of which the first section takes two and copies
    `rawSize`; the second section is described by the arguments.  The `BootInfo` is at `0x8000`. -/
def twoSections (rawSize : Nat) (name : List UInt8) (address size rawSize' rawPointer : Nat) :
    Loading :=
  let second := 0x10040 + optionalHeader + 240 + sizeofSectionHeader
  let m := sampleImage 0x100000 0x1000 2 rawSize 0x1C0
  let m := m.store (0x10040 + numberOfSections.offset) (Bytes.ofNat 2 2)
  let m := m.store second name
  let m := m.store (second + virtualSize.offset) (Bytes.ofNat size 4)
  let m := m.store (second + virtualAddress.offset) (Bytes.ofNat address 4)
  let m := m.store (second + sizeOfRawData.offset) (Bytes.ofNat rawSize' 4)
  let m := m.store (second + pointerToRawData.offset) (Bytes.ofNat rawPointer 4)
  ⟨(m.store 0x101C0 [1, 2, 3, 4]).store 0x8000 [7, 8, 9], [], []⟩

/-- The second section begins behind the first, or has no size.  There is only one pair to look at. -/
theorem rangesDisjoint_two (hn : numberOfSections.get m ntHeader = 2)
    (h : virtualAddressOf m ntHeader 0 + virtualSizeOf m ntHeader 0 ≤ virtualAddressOf m ntHeader 1 ∨
      virtualSizeOf m ntHeader 1 = 0) : RangesDisjoint m ntHeader := by
  intro j hj i hij x
  obtain ⟨rfl, rfl⟩ : i = 0 ∧ j = 1 := by omega
  omega

/-- The copy for the first section runs into the second one, which is `.ldr`. -/
def overrun : Loading := twoSections 4 ldrName 0x1002 3 0 0

/-- The second byte of the first section, and the first byte of the `BootInfo` in the second. -/
theorem sections_laid_overrun :
    (overrun.loadSectionsIntoMemory 0x10000 0x10040 0x8000).mem 0x101001 = 2 ∧
      (overrun.loadSectionsIntoMemory 0x10000 0x10040 0x8000).mem 0x101002 = 7 := by
  have hdis : RangesDisjoint overrun.mem 0x10040 :=
    rangesDisjoint_two (by decide +kernel) (.inl (by decide +kernel))
  have hsrc : SourcesKept overrun.mem 0x10000 0x10040 0x8000 :=
    sourcesKept_of_apart (by decide +kernel)
  have h := sections_laid overrun (by decide +kernel) hdis (by decide +kernel) hsrc
  have hdata := (h 0 (by decide +kernel)).data 1 (by decide +kernel) (by decide +kernel)
  have hinfo := (h 1 (by decide +kernel)).bootInfo 0 (by decide +kernel) (by decide +kernel)
  exact ⟨hdata.trans (by decide +kernel), hinfo.trans (by decide +kernel)⟩

/-- The second section has no size, and begins inside the first one. -/
def emptyInside : Loading := twoSections 2 [] 0x1001 0 1 0x1C2

/-- **An empty section that spoils another one.**  The sections are in order, and no address is in
    two of them, but a byte is copied for the empty one: the second byte of the first section is
    that byte. -/
theorem sections_spoiled : ¬ ∀ (l : Loading) (content ntHeader bInfo : Nat),
    Ascending l.mem ntHeader → RangesDisjoint l.mem ntHeader →
    SourcesKept l.mem content ntHeader bInfo →
    ∀ i < numberOfSections.get l.mem ntHeader, Laid l.mem content ntHeader bInfo i
      (l.loadSectionsIntoMemory content ntHeader bInfo).mem := by
  intro hall
  have hdis : RangesDisjoint emptyInside.mem 0x10040 :=
    rangesDisjoint_two (by decide +kernel) (.inr (by decide +kernel))
  have hsrc : SourcesKept emptyInside.mem 0x10000 0x10040 0x8000 :=
    sourcesKept_of_apart (by decide +kernel)
  have h := hall emptyInside 0x10000 0x10040 0x8000 (by decide +kernel) hdis hsrc 0
    (by decide +kernel)
  have hbyte := h.data 1 (by decide +kernel) (by decide +kernel)
  have hspoiled : (emptyInside.loadSectionsIntoMemory 0x10000 0x10040 0x8000).mem
      (sectionByte emptyInside.mem 0x10040 0 1) = 3 := by decide +kernel
  rw [hspoiled] at hbyte
  exact absurd hbyte (by decide +kernel)

end Nearlands.Ldr
