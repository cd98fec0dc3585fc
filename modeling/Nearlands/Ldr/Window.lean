/-
  Where the sections go.

  `MmMapHigherHalfMemoryForKernel` maps the window of `SizeOfImage` bytes, rounded up to pages, at
  `HHDM_OFFSET`.  The sections are loaded at `ImageBase + VirtualAddress`, and nothing compares the
  two.  While all writes stay in the window the headers stay as they are, since the file is in
  physical memory and the window is not; so the sections stay in the window exactly when each of
  them, by its header, does (`writes_in_window_iff`).

  Addresses wrap modulo `2 ^ 64` here, as those of the machine do: `ImageBase` is any 64-bit
  number, and a section that begins below the window may end in it.
-/
import Nearlands.Ldr.Kernel

namespace Nearlands.Ldr

open Nearlands.Lib Nearlands.Vmm

/-- What `MmMapHigherHalfMemoryForKernel` has mapped. -/
def window (pages : Nat) : Region := ⟨HHDM_OFFSET, 4096 * pages⟩

/-- Section header `i`. -/
def sectionHeader (m : Bytes) (ntHeader i : Nat) : Nat :=
  ntHeader + optionalHeader + sizeOfOptionalHeader.get m ntHeader + i * sizeofSectionHeader

/-- The bytes of the section, zeroed or copied, lie in the region. -/
def SectionFits (m : Bytes) (base secHeader : Nat) (r : Region) : Prop :=
  let dst := w64 (base + virtualAddress.get m secHeader)
  let size := max (virtualSize.get m secHeader) (copySize m secHeader)
  size = 0 ∨ r.base ≤ dst ∧ dst + size ≤ r.base + r.size

instance (m : Bytes) (base secHeader : Nat) (r : Region) :
    Decidable (SectionFits m base secHeader r) := inferInstanceAs (Decidable (_ ∨ _))

/-! ## One section -/

section turn

variable {r : Region} {m m' : Bytes} {content bInfo base secHeader : Nat}

theorem sectionFits_iff (h0 : 0 < r.base) (hr : r.base + r.size ≤ 2 ^ 64) :
    SectionFits m base secHeader r ↔
      (zeroSpan m base secHeader).Inside r ∧ (copySpan m base secHeader).Inside r := by
  rw [Span.inside_iff h0 hr, Span.inside_iff h0 hr, SectionFits, zeroSpan, copySpan]
  generalize w64 (base + virtualAddress.get m secHeader) = dst
  generalize virtualSize.get m secHeader = zeros
  generalize copySize m secHeader = copies
  dsimp only
  omega

/-- A field of a header that was kept. -/
theorem get_sameOn {header size : Nat} (h : Bytes.SameOn ⟨header, size⟩ m m') {f : Field}
    (hf : f.offset + f.size ≤ size) : f.get m' header = f.get m header :=
  Bytes.SameOn.read (h.mono rfl hf)

theorem isLdr_sameOn (h : Bytes.SameOn ⟨secHeader, sizeofSectionHeader⟩ m m') :
    IsLdr m' secHeader ↔ IsLdr m secHeader := by
  have hname : m'.memcmp secHeader ldrName = m.memcmp secHeader ldrName :=
    Bytes.SameOn.memcmp (h.mono (k := 0) rfl (show 0 + 4 ≤ 40 by decide))
  rw [IsLdr, IsLdr, hname]

theorem copySize_sameOn (h : Bytes.SameOn ⟨secHeader, sizeofSectionHeader⟩ m m') :
    copySize m' secHeader = copySize m secHeader := by
  rw [copySize, copySize, get_sameOn h (by decide)]
  exact if_congr (isLdr_sameOn h) rfl rfl

theorem zeroSpan_sameOn (base : Nat) (h : Bytes.SameOn ⟨secHeader, sizeofSectionHeader⟩ m m') :
    zeroSpan m' base secHeader = zeroSpan m base secHeader := by
  rw [zeroSpan, zeroSpan, get_sameOn h (by decide), get_sameOn h (by decide)]

theorem copySpan_sameOn (base : Nat) (h : Bytes.SameOn ⟨secHeader, sizeofSectionHeader⟩ m m') :
    copySpan m' base secHeader = copySpan m base secHeader := by
  rw [copySpan, copySpan, get_sameOn h (by decide), copySize_sameOn h]

/-- **One section.**  In a memory that differs from `m` in the region only, the section is written
    to the region exactly when it fits by the header in `m`; and then memory still differs from `m`
    in the region only. -/
theorem turn_writes (content bInfo base : Nat) (h0 : 0 < r.base) (hr : r.base + r.size ≤ 2 ^ 64)
    (l : Loading)
    (h : Bytes.SameOff r m l.mem) (hoff : Span.Off ⟨secHeader, sizeofSectionHeader⟩ r) :
    let l' := l.loadSection content bInfo base secHeader
    ((∀ w ∈ l'.writes, w.Inside r) ↔
      SectionFits m base secHeader r ∧ ∀ w ∈ l.writes, w.Inside r) ∧
    (SectionFits m base secHeader r → Bytes.SameOff r m l'.mem) := by
  dsimp only
  rw [loadSection_eq]
  dsimp only
  rw [List.forall_mem_cons, List.forall_mem_cons, zeroSpan_sameOn base (h.sameOn hoff),
    sectionFits_iff h0 hr]
  rcases Classical.em ((zeroSpan m base secHeader).Inside r) with hzero | hzero
  · have hz : Bytes.SameOff r m (zeroed l.mem base secHeader) := by
      rw [← zeroSpan_sameOn base (h.sameOn hoff)] at hzero
      exact h.trans (Bytes.memset_sameOff l.mem 0 hzero)
    rw [copySpan_sameOn base (hz.sameOn hoff)]
    constructor
    · constructor
      · rintro ⟨hcopy, -, hold⟩
        exact ⟨⟨hzero, hcopy⟩, hold⟩
      · rintro ⟨⟨-, hcopy⟩, hold⟩
        exact ⟨hcopy, hzero, hold⟩
    · rintro ⟨-, hcopy⟩
      rw [← copySpan_sameOn base (hz.sameOn hoff)] at hcopy
      exact hz.trans (Bytes.memcpy_sameOff _ _ hcopy)
  · -- the zeroing has already left the region
    constructor
    · constructor
      · rintro ⟨-, hin, -⟩
        exact absurd hin hzero
      · rintro ⟨⟨hin, -⟩, -⟩
        exact absurd hin hzero
    · rintro ⟨hin, -⟩
      exact absurd hin hzero

end turn

/-! ## The loop -/

section loop

variable {r : Region} {m : Bytes} {content ntHeader bInfo base first : Nat}

/-- **The loop.**  Induction on the turns left; memory differs from `m` in the region only, or
    something has been written elsewhere. -/
theorem loadSections_writes_iff (m : Bytes) (content bInfo base : Nat) (h0 : 0 < r.base)
    (hr : r.base + r.size ≤ 2 ^ 64)
    (hnt : Span.Off (numberOfSections.span ntHeader) r)
    (hsec : ∀ j < 2 ^ 16, Span.Off ⟨first + j * sizeofSectionHeader, sizeofSectionHeader⟩ r) :
    ∀ (fuel i : Nat) (l : Loading), i + fuel = 2 ^ 16 → Bytes.SameOff r m l.mem →
      ((∀ w ∈ (l.loadSections content ntHeader bInfo base fuel i
          (first + i * sizeofSectionHeader)).writes, w.Inside r) ↔
        (∀ j, i ≤ j → j < numberOfSections.get m ntHeader →
          SectionFits m base (first + j * sizeofSectionHeader) r) ∧ ∀ w ∈ l.writes, w.Inside r) := by
  intro fuel
  induction fuel with
  | zero =>
    intro i l hsum _
    -- no section is left: their number is a `u16`
    have hlt := numberOfSections_lt m ntHeader
    constructor
    · intro h
      exact ⟨fun j hj hj' => by omega, h⟩
    · rintro ⟨-, h⟩
      exact h
  | succ fuel ih =>
    intro i l hsum hm
    have hnum : numberOfSections.get l.mem ntHeader = numberOfSections.get m ntHeader :=
      Bytes.SameOn.read (hm.sameOn hnt)
    rw [loadSections_succ, hnum]
    split
    · rename_i hi
      have hlt := numberOfSections_lt m ntHeader
      obtain ⟨hturn, hsame⟩ := turn_writes content bInfo base h0 hr
        (l.field ntHeader numberOfSections).1 hm (hsec i (by omega))
      rw [Loading.turn]
      generalize hl' : (l.field ntHeader numberOfSections).1.loadSection content bInfo base
        (first + i * sizeofSectionHeader) = l' at hturn hsame ⊢
      -- a section outside the window is found in the log, whatever the later turns do
      rcases Classical.em (SectionFits m base (first + i * sizeofSectionHeader) r) with hfit | hfit
      · have ih := ih (i + 1) l' (by omega) (hsame hfit)
        rw [Nat.succ_mul, ← Nat.add_assoc] at ih
        rw [ih, hturn]
        constructor
        · rintro ⟨hfits, -, hold⟩
          refine ⟨fun j hj hjn => ?_, hold⟩
          rcases Nat.eq_or_lt_of_le hj with rfl | hj
          · exact hfit
          · exact hfits j hj hjn
        · rintro ⟨hfits, hold⟩
          exact ⟨fun j hj hjn => hfits j (Nat.le_of_succ_le hj) hjn, hfit, hold⟩
      · constructor
        · intro h
          have := hturn.mp fun w hw => h w ((loadSections_grow fuel _ _ l').2 hw)
          exact absurd this.1 hfit
        · rintro ⟨hfits, -⟩
          exact absurd (hfits i (Nat.le_refl i) hi) hfit
    · rename_i hi
      constructor
      · intro h
        exact ⟨fun j hj hjn => absurd (Nat.lt_of_le_of_lt hj hjn) hi, h⟩
      · rintro ⟨-, h⟩
        exact h

end loop

/-! ## The turns -/

section turns

variable {σ : Type}

/-- `imageBase` in `LoadSectionsIntoMemory`. -/
def Ready.base (r : Ready σ) : Nat := imageBase.get r.loading.mem r.ntHeader

/-- The state before turn `i`, if the loop gets there. -/
def Ready.before (r : Ready σ) (e : Setup) : Nat → Loading
  | 0 => ((r.loading.field r.ntHeader imageBase).1.getFirstSection r.ntHeader).1
  | i + 1 => (r.before e i).turn e.content r.ntHeader e.bInfo r.base
      (sectionHeader r.loading.mem r.ntHeader i)

/-- The loop takes turn `i`. -/
def Ready.Takes (r : Ready σ) (e : Setup) (i : Nat) : Prop :=
  ∀ j ≤ i, j < numberOfSections.get (r.before e j).mem r.ntHeader

theorem loadSectionsIntoMemory_eq (r : Ready σ) (e : Setup) :
    r.loading.loadSectionsIntoMemory e.content r.ntHeader e.bInfo =
      (r.before e 0).loadSections e.content r.ntHeader e.bInfo r.base (2 ^ 16) 0
        (sectionHeader r.loading.mem r.ntHeader 0) := by
  rw [sectionHeader, Nat.zero_mul, Nat.add_zero]
  rfl

/-- **What every turn keeps, the loop keeps.**  Induction on the turns left. -/
theorem loadSections_inv (r : Ready σ) (e : Setup) {I : Bytes → Prop}
    (hturn : ∀ i, r.Takes e i → I (r.before e i).mem → I (r.before e (i + 1)).mem) :
    ∀ fuel i, (∀ j < i, j < numberOfSections.get (r.before e j).mem r.ntHeader) →
      I (r.before e i).mem →
      I ((r.before e i).loadSections e.content r.ntHeader e.bInfo r.base fuel i
        (sectionHeader r.loading.mem r.ntHeader i)).mem := by
  intro fuel
  induction fuel with
  | zero =>
    intro i _ h
    exact h
  | succ fuel ih =>
    intro i hreached h
    rw [loadSections_succ]
    split
    · rename_i hi
      have hreached' : ∀ j < i + 1, j < numberOfSections.get (r.before e j).mem r.ntHeader := by
        intro j hj
        rcases Nat.lt_succ_iff_lt_or_eq.mp hj with hj | rfl
        · exact hreached j hj
        · exact hi
      have hnext : sectionHeader r.loading.mem r.ntHeader i + sizeofSectionHeader =
          sectionHeader r.loading.mem r.ntHeader (i + 1) := by
        rw [sectionHeader, sectionHeader, Nat.succ_mul, Nat.add_assoc]
      rw [hnext]
      exact ih (i + 1) hreached'
        (hturn i (fun j hj => hreached' j (Nat.lt_succ_of_le hj)) h)
    · exact h

/-- No section is written over the bytes of the access: neither its zeros nor what is copied into it,
    both by its header as its turn finds it. -/
def Ready.Spares (r : Ready σ) (e : Setup) (t : Span) : Prop :=
  ∀ i, r.Takes e i →
    let m := (r.before e i).mem
    let secHeader := sectionHeader r.loading.mem r.ntHeader i
    (zeroSpan m r.base secHeader).Clear t ∧
      (copySpan (zeroed m r.base secHeader) r.base secHeader).Clear t

/-- So these bytes stay. -/
theorem Ready.Spares.kept {r : Ready σ} {e : Setup} {t : Span} (h : r.Spares e t) :
    Bytes.SameOn t r.loading.mem
      (r.loading.loadSectionsIntoMemory e.content r.ntHeader e.bInfo).mem := by
  rw [loadSectionsIntoMemory_eq]
  refine loadSections_inv r e (I := fun m => Bytes.SameOn t r.loading.mem m) (fun i hi hsame => ?_)
    (2 ^ 16) 0 (fun j hj => absurd hj (Nat.not_lt_zero j)) fun _ _ => rfl
  obtain ⟨hzero, hcopy⟩ := h i hi
  rw [Ready.before, Loading.turn, loadSection_eq]
  exact (hsame.trans (Bytes.memset_sameOn _ 0 hzero)).trans (Bytes.memcpy_sameOn _ _ hcopy)

end turns

/-! ## The headers are not in the window -/

section window

variable {pages content : Nat}

theorem window_base_pos (pages : Nat) : 0 < (window pages).base := by
  show 0 < HHDM_OFFSET
  decide

/-- What is less than 2 GiB before or behind physical memory is not in the window. -/
theorem off_window (hpages : pages ≤ 2 ^ 20) (hcontent : content ≤ 2 ^ 52) {x : Nat}
    (hx : x < 2 ^ 32) {k size : Nat} (hk : k + size < 2 ^ 24) :
    Span.Off ⟨content + signExtend x + k, size⟩ (window pages) := by
  intro j hj
  change j < size at hj
  rintro ⟨hlo, hhi⟩
  change 0xFFFFFF8000000000 ≤ w64 (content + signExtend x + k + j) at hlo
  change w64 (content + signExtend x + k + j) < 0xFFFFFF8000000000 + 4096 * pages at hhi
  rw [w64] at hlo hhi
  rcases Nat.lt_or_ge x (2 ^ 31) with hpos | hneg
  · rw [signExtend, if_pos hpos] at hlo
    omega
  · -- backwards: before `content`, or around, to the end of the address space
    rw [signExtend, if_neg (Nat.not_lt.mpr hneg)] at hlo hhi
    omega

end window

/-! ## The whole loader -/

section loaded

variable {σ : Type} {b : BootServices σ} {e : Setup} {s : Session σ} {r : Loaded σ}

/-- The pages of the window are at most those of 4 GiB. -/
theorem Prepared.pages_le {r : Ready σ} (h : Prepared b e s r) :
    r.amountOfPagesForImage ≤ 2 ^ 20 := by
  have hsize : sizeOfImage.get (b.memory s.state) r.ntHeader < 256 ^ 4 := Bytes.read_lt _ 4 _
  rw [h.pages]
  omega

/-- No header is in the window. -/
theorem Prepared.off {r : Ready σ} (h : Prepared b e s r) {k size : Nat}
    (hk : k + size < 2 ^ 24) :
    Span.Off ⟨r.ntHeader + k, size⟩ (window r.amountOfPagesForImage) := by
  have hx : eLfanew.get (b.memory s.state) e.content < 256 ^ 4 := Bytes.read_lt _ 4 _
  have hcontent : e.content ≤ 2 ^ 52 := Nat.le_trans (Nat.le_add_right _ _) e.physical
  rw [h.nt]
  exact off_window h.pages_le hcontent hx hk

/-- Nor is a section header. -/
theorem Prepared.section_off {r : Ready σ} (h : Prepared b e s r) {i : Nat} (hi : i < 2 ^ 16) :
    Span.Off ⟨sectionHeader r.loading.mem r.ntHeader i, sizeofSectionHeader⟩
      (window r.amountOfPagesForImage) := by
  have hopt : sizeOfOptionalHeader.get r.loading.mem r.ntHeader < 256 ^ 2 := Bytes.read_lt _ 2 _
  rw [sectionHeader, Nat.add_assoc, Nat.add_assoc]
  apply h.off
  show 4 + 20 + (sizeOfOptionalHeader.get r.loading.mem r.ntHeader + i * 40) + 40 < 2 ^ 24
  omega

/-- The window ends below `2 ^ 64`. -/
theorem Prepared.window_end {r : Ready σ} (h : Prepared b e s r) :
    (window r.amountOfPagesForImage).base + (window r.amountOfPagesForImage).size ≤ 2 ^ 64 := by
  have hpages := h.pages_le
  show 0xFFFFFF8000000000 + 4096 * r.amountOfPagesForImage ≤ 2 ^ 64
  omega

/-- What the loop over the sections writes, from a loader that is ready for it: the walk over the
    table is that of `loadSections_writes_iff`, started with nothing written. -/
theorem Prepared.writes_iff {r : Ready σ} (hprep : Prepared b e s r) :
    (∀ w ∈ (r.loading.loadSectionsIntoMemory e.content r.ntHeader e.bInfo).writes,
      w.Inside (window r.amountOfPagesForImage)) ↔
      ∀ i < numberOfSections.get r.loading.mem r.ntHeader,
        SectionFits r.loading.mem (imageBase.get r.loading.mem r.ntHeader)
          (sectionHeader r.loading.mem r.ntHeader i) (window r.amountOfPagesForImage) := by
  have hnt : Span.Off (numberOfSections.span r.ntHeader) (window r.amountOfPagesForImage) :=
    hprep.off (by decide)
  have hloop := loadSections_writes_iff r.loading.mem e.content e.bInfo
    (imageBase.get r.loading.mem r.ntHeader)
    (window_base_pos _) hprep.window_end hnt (fun j hj => hprep.section_off hj) (2 ^ 16) 0
    (((r.loading.field r.ntHeader imageBase).1.getFirstSection r.ntHeader).1)
    (Nat.zero_add _) (Bytes.SameOff.refl _)
  rw [Nat.zero_mul, Nat.add_zero] at hloop
  apply Iff.trans hloop
  constructor
  · rintro ⟨hfits, -⟩ i hi
    exact hfits i (Nat.zero_le i) hi
  · intro hfits
    refine ⟨fun j _ hj => hfits j hj, ?_⟩
    intro w hw
    rw [show (((r.loading.field r.ntHeader imageBase).1.getFirstSection
      r.ntHeader).1).writes = r.loading.writes from rfl, hprep.writes] at hw
    cases hw

/-- **The sections stay in the window exactly when their headers say so.**  All that
    `LoadSectionsIntoMemory` writes lies in the pages mapped for the image if and only if each
    section of the file, from `ImageBase + VirtualAddress` on, ends in the window: its
    `VirtualSize`, and what is copied into it. -/
theorem writes_in_window_iff (h : b.ldrPeLoadPEImageAsKernel e s = .ok r) :
    (∀ w ∈ r.loading.writes, w.Inside (window r.ready.amountOfPagesForImage)) ↔
      ∀ i < numberOfSections.get r.ready.loading.mem r.ready.ntHeader,
        SectionFits r.ready.loading.mem (imageBase.get r.ready.loading.mem r.ready.ntHeader)
          (sectionHeader r.ready.loading.mem r.ready.ntHeader i)
          (window r.ready.amountOfPagesForImage) := by
  obtain ⟨hprep, hr⟩ := load_ok h
  generalize r.ready = ready at hprep hr ⊢
  subst hr
  exact hprep.writes_iff

end loaded

/-- One section at the beginning of the window. -/
theorem writes_in_window_higher_half :
    ∃ r, (plain id).ldrPeLoadPEImageAsKernel sampleSetup
        (sampleSession (sampleImage HHDM_OFFSET 0 16 16 0x180)) = .ok r ∧
      ∀ w ∈ r.loading.writes, w.Inside (window r.ready.amountOfPagesForImage) := by
  obtain ⟨r, hr, hfits⟩ := ok_of_computed
    (x := (plain id).ldrPeLoadPEImageAsKernel sampleSetup
      (sampleSession (sampleImage HHDM_OFFSET 0 16 16 0x180)))
    (p := fun r => decide (∀ i < numberOfSections.get r.ready.loading.mem r.ready.ntHeader,
      SectionFits r.ready.loading.mem (imageBase.get r.ready.loading.mem r.ready.ntHeader)
        (sectionHeader r.ready.loading.mem r.ready.ntHeader i)
        (window r.ready.amountOfPagesForImage))) (by decide +kernel)
  exact ⟨r, hr, (writes_in_window_iff hr).mpr (of_decide_eq_true hfits)⟩

/-- **An image linked at `0x140000000`**, as linkers do, is loaded there. -/
theorem image_base_outside_window :
    ¬ ∀ (b : BootServices Plain) (e : Setup) (s : Session Plain) (r : Loaded Plain),
      b.ldrPeLoadPEImageAsKernel e s = .ok r →
      ∀ w ∈ r.loading.writes, w.Inside (window r.ready.amountOfPagesForImage) := by
  intro hclaim
  obtain ⟨r, hr, hw⟩ := ok_of_computed
    (x := (plain id).ldrPeLoadPEImageAsKernel sampleSetup
      (sampleSession (sampleImage 0x140000000 0x1000 16 16 0x180)))
    (p := fun r => decide (⟨0x140001000, 16⟩ ∈ r.loading.writes ∧ r.ready.amountOfPagesForImage = 1))
    (by decide +kernel)
  obtain ⟨hmem, hpages⟩ := of_decide_eq_true hw
  obtain ⟨hlo, -⟩ := hclaim (plain id) sampleSetup _ r hr _ hmem 0 (by decide)
  rw [hpages] at hlo
  exact absurd hlo (by decide)

end Nearlands.Ldr
