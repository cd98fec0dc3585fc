/-
  What is read of the file.

  The loader knows the length of the file and never looks at it.  So it reads the file only when the
  numbers in it allow it: the headers end in the file, and at each turn of the loop, in the memory
  this turn finds, the section header, the name and the raw data do (`reads_in_file_iff`).  That
  memory is another one at each turn, as the sections go wherever `ImageBase` says; when they all
  go into the window the file stays as it is, and its own bytes decide
  (`reads_in_file_iff_of_window`).
-/
import Nearlands.Ldr.Window

namespace Nearlands.Ldr

open Nearlands.Lib Nearlands.Vmm

/-- The DOS header up to `e_lfanew`, and the NT headers up to `SizeOfImage`, lie in the file.  The
    second field is a bound of the source's own making: `e_lfanew` is signed, and an offset from `2
    ^ 31` on points backwards, where there is no file. -/
structure HeadersInside (e : Setup) (m : Bytes) : Prop where
  dos : 64 ≤ e.length
  forward : eLfanew.get m e.content < 2 ^ 31
  nt : eLfanew.get m e.content + 84 ≤ e.length

/-- What a turn reads of the section header at `offset` of the file lies in the file, and so does
    the raw data it copies; `m` is the memory after the zeroing.  For a `.ldr` section the last two
    fields of the header are never read. -/
structure SectionInside (e : Setup) (m : Bytes) (offset : Nat) : Prop where
  header : offset + 16 ≤ e.length
  name : ∃ j, offset + j < e.length ∧ m (e.content + offset + j) = 0
  raw : ¬ IsLdr m (e.content + offset) → offset + 24 ≤ e.length ∧
    (sizeOfRawData.get m (e.content + offset) = 0 ∨
      pointerToRawData.get m (e.content + offset) + sizeOfRawData.get m (e.content + offset) ≤
        e.length)

/-! ## Accesses by their offset in the file -/

section offsets

variable {e : Setup} {x size : Nat}

/-- The file lies in memory. -/
theorem Setup.file_end (e : Setup) : e.file.base + e.file.size ≤ 2 ^ 52 := e.physical

/-- An access of no bytes reads nothing, wherever it is. -/
theorem inside_file_iff (hnull : e.content ≠ null) (hx : x < 2 ^ 63) :
    Span.Inside ⟨e.content + x, size⟩ e.file ↔ size = 0 ∨ x + size ≤ e.length := by
  have hphys := e.physical
  have hw : w64 (e.content + x) = e.content + x := w64_of_lt (by omega)
  rw [Span.inside_iff (Nat.pos_of_ne_zero hnull) (Nat.le_trans e.file_end (by decide))]
  dsimp only
  rw [hw]
  show size = 0 ∨ e.content ≤ e.content + x ∧ e.content + x + size ≤ e.content + e.length ↔ _
  omega

/-- The same for a nonempty access. -/
theorem inside_file_iff_of_pos (hnull : e.content ≠ null) (hx : x < 2 ^ 63) (hsize : 0 < size) :
    Span.Inside ⟨e.content + x, size⟩ e.file ↔ x + size ≤ e.length := by
  rw [inside_file_iff hnull hx]
  omega

/-- A field of a header at `x`. -/
theorem field_inside_iff (hnull : e.content ≠ null) (hx : x < 2 ^ 62) {f : Field}
    (hoff : f.offset < 2 ^ 62) (hsize : 0 < f.size) :
    (f.span (e.content + x)).Inside e.file ↔ x + f.offset + f.size ≤ e.length := by
  rw [Field.span, Nat.add_assoc]
  exact inside_file_iff_of_pos hnull (by omega) hsize

/-- Backwards from `content` there is no file. -/
theorem not_inside_of_negative {v : Nat} (hv : v < 2 ^ 32) (hneg : 2 ^ 31 ≤ v) (hsize : 0 < size) :
    ¬ Span.Inside ⟨e.content + signExtend v, size⟩ e.file := by
  intro h
  have hphys := e.physical
  obtain ⟨hlo, hhi⟩ := h 0 hsize
  change e.content ≤ w64 (e.content + signExtend v + 0) at hlo
  change w64 (e.content + signExtend v + 0) < e.content + e.length at hhi
  rw [w64, signExtend, if_neg (Nat.not_lt.mpr hneg)] at hlo hhi
  omega

/-- A string ends in the file. -/
theorem string_inside_iff (hnull : e.content ≠ null) (hx : x < 2 ^ 63) (m : Bytes) :
    Span.Inside ⟨e.content + x, m.strlen (e.content + x) + 1⟩ e.file ↔
      ∃ j, x + j < e.length ∧ m (e.content + x + j) = 0 := by
  have hphys := e.physical
  rw [inside_file_iff_of_pos hnull hx (Nat.succ_pos _)]
  have hlen := Bytes.strlenUpTo_lt_iff m (2 ^ 64) (e.content + x) (e.length - x) (by omega)
  change m.strlen (e.content + x) < e.length - x ↔ _ at hlen
  rw [show x + (m.strlen (e.content + x) + 1) ≤ e.length ↔
    m.strlen (e.content + x) < e.length - x by omega, hlen]
  constructor
  · rintro ⟨j, hj, hz⟩
    rw [w64_of_lt (by omega)] at hz
    exact ⟨j, by omega, hz⟩
  · rintro ⟨j, hj, hz⟩
    refine ⟨j, by omega, ?_⟩
    rw [w64_of_lt (by omega)]
    exact hz

end offsets

/-! ## One turn -/

section turn

variable {e : Setup} {content bInfo base offset : Nat}

/-- What is read of a header, and its name, is in the file. -/
theorem mem_headerReads_iff (hnull : e.content ≠ null) (hoff : offset < 2 ^ 32) (m : Bytes) :
    (∀ a ∈ headerReads m (e.content + offset) ++
        [virtualSize.span (e.content + offset), virtualAddress.span (e.content + offset)],
      a.Inside e.file) ↔
    offset + 16 ≤ e.length ∧ ∃ j, offset + j < e.length ∧ m (e.content + offset + j) = 0 := by
  have hcmp : m.memcmpReads (e.content + offset) ldrName ≤ 4 := Bytes.memcmpReads_le m ldrName _
  have hva : (virtualAddress.span (e.content + offset)).Inside e.file ↔
      offset + 12 + 4 ≤ e.length := field_inside_iff hnull (by omega) (by decide) (by decide)
  have hvs : (virtualSize.span (e.content + offset)).Inside e.file ↔ offset + 8 + 4 ≤ e.length :=
    field_inside_iff hnull (by omega) (by decide) (by decide)
  rw [headerReads]
  simp only [List.cons_append, List.nil_append, List.forall_mem_cons, List.not_mem_nil,
    IsEmpty.forall_iff, implies_true, and_true]
  rw [string_inside_iff hnull (by omega), inside_file_iff hnull (by omega), hva, hvs]
  constructor
  · rintro ⟨h16, -, hname, -, -⟩
    exact ⟨h16, hname⟩
  · rintro ⟨h16, hname⟩
    exact ⟨h16, by omega, hname, by omega, h16⟩

/-- What is read for the copy is in the file. -/
theorem mem_copyReads_iff (hnull : e.content ≠ null) (hoff : offset < 2 ^ 32) (m : Bytes) :
    (∀ a ∈ copyReads m e.content (e.content + offset), a.Inside e.file) ↔
      (¬ IsLdr m (e.content + offset) → offset + 24 ≤ e.length ∧
        (sizeOfRawData.get m (e.content + offset) = 0 ∨
          pointerToRawData.get m (e.content + offset) + sizeOfRawData.get m (e.content + offset) ≤
            e.length)) := by
  have hpointer : pointerToRawData.get m (e.content + offset) < 256 ^ 4 := Bytes.read_lt m 4 _
  have hsize : (sizeOfRawData.span (e.content + offset)).Inside e.file ↔
      offset + 16 + 4 ≤ e.length := field_inside_iff hnull (by omega) (by decide) (by decide)
  have hptr : (pointerToRawData.span (e.content + offset)).Inside e.file ↔
      offset + 20 + 4 ≤ e.length := field_inside_iff hnull (by omega) (by decide) (by decide)
  rw [copyReads]
  split
  · rename_i hldr
    exact ⟨fun _ h => absurd hldr h, fun _ a ha => absurd ha List.not_mem_nil⟩
  · rename_i hldr
    simp only [List.forall_mem_cons, List.not_mem_nil, IsEmpty.forall_iff, implies_true, and_true]
    rw [inside_file_iff hnull (by omega), hsize, hptr]
    constructor
    · rintro ⟨hraw, -, h24⟩ _
      exact ⟨h24, hraw⟩
    · intro h
      obtain ⟨h24, hraw⟩ := h hldr
      exact ⟨hraw, by omega, h24⟩

/-- **One turn** reads in the file exactly when its section header, name and raw data are there.
    The name is looked for in the memory after the zeroing, as it is printed then. -/
theorem turn_reads (bInfo base : Nat) (hnull : e.content ≠ null) (hoff : offset < 2 ^ 32)
    (l : Loading) :
    (∀ a ∈ (l.loadSection e.content bInfo base (e.content + offset)).reads, a.Inside e.file) ↔
      SectionInside e (zeroed l.mem base (e.content + offset)) offset ∧
        ∀ a ∈ l.reads, a.Inside e.file := by
  rw [loadSection_eq]
  generalize zeroed l.mem base (e.content + offset) = z
  have hheader := mem_headerReads_iff hnull hoff z
  have hcopy := mem_copyReads_iff hnull hoff z
  rw [List.forall_mem_append] at hheader
  dsimp only
  rw [List.forall_mem_append, List.forall_mem_append, List.forall_mem_cons, List.forall_mem_cons,
    hcopy]
  constructor
  · rintro ⟨hraw, hh, hvs, hva, hold⟩
    obtain ⟨h16, hname⟩ := hheader.mp ⟨hh, by
      rw [List.forall_mem_cons]
      exact ⟨hvs, by rw [List.forall_mem_singleton]; exact hva⟩⟩
    exact ⟨⟨h16, hname, hraw⟩, hold⟩
  · rintro ⟨⟨h16, hname, hraw⟩, hold⟩
    obtain ⟨hh, hfields⟩ := hheader.mpr ⟨h16, hname⟩
    exact ⟨hraw, hh, hfields _ List.mem_cons_self,
      hfields _ (List.mem_cons_of_mem _ List.mem_cons_self), hold⟩

end turn

/-! ## The loop -/

section loop

variable {σ : Type} {e : Setup} {r : Ready σ}

/-- Where the section header `i` is in the file. -/
def Ready.sectionOffset (r : Ready σ) (e : Setup) (i : Nat) : Nat :=
  sectionHeader r.loading.mem r.ntHeader i - e.content

/-- What holds of every turn reached from turn `i` on holds of turn `i`, if the loop goes into it,
    and of every turn reached from the next one on.  The loop is left at the first turn that is not
    entered, and this is how its turns are spoken of without counting them first. -/
theorem forall_reached_succ {P Q : Nat → Prop} (i : Nat) :
    (∀ k, i ≤ k → (∀ j, i ≤ j → j ≤ k → Q j) → P k) ↔
      (Q i → P i ∧ ∀ k, i + 1 ≤ k → (∀ j, i + 1 ≤ j → j ≤ k → Q j) → P k) := by
  constructor
  · refine fun h hi => ⟨h i (Nat.le_refl i) fun j hj hji => ?_, fun k hik hk => ?_⟩
    · obtain rfl : j = i := Nat.le_antisymm hji hj
      exact hi
    · refine h k (Nat.le_of_succ_le hik) fun j hj hjk => ?_
      rcases Nat.eq_or_lt_of_le hj with rfl | hj
      · exact hi
      · exact hk j hj hjk
  · intro h k hik hk
    obtain ⟨hnow, hlater⟩ := h (hk i (Nat.le_refl i) hik)
    rcases Nat.eq_or_lt_of_le hik with rfl | hik
    · exact hnow
    · exact hlater k hik fun j hj hjk => hk j (Nat.le_of_succ_le hj) hjk

/-- **The loop.**  Induction on the turns left. -/
theorem loadSections_reads_iff (hnull : e.content ≠ null)
    (hnum : (numberOfSections.span r.ntHeader).Inside e.file)
    (hfile : ∀ i < 2 ^ 16, e.content ≤ sectionHeader r.loading.mem r.ntHeader i ∧
      r.sectionOffset e i < 2 ^ 32) : ∀ fuel i, i + fuel = 2 ^ 16 →
    ((∀ a ∈ ((r.before e i).loadSections e.content r.ntHeader e.bInfo r.base fuel i
        (sectionHeader r.loading.mem r.ntHeader i)).reads, a.Inside e.file) ↔
      (∀ k, i ≤ k → (∀ j, i ≤ j → j ≤ k → j < numberOfSections.get (r.before e j).mem r.ntHeader) →
        SectionInside e (zeroed (r.before e k).mem r.base
          (sectionHeader r.loading.mem r.ntHeader k)) (r.sectionOffset e k)) ∧
      ∀ a ∈ (r.before e i).reads, a.Inside e.file) := by
  intro fuel
  induction fuel with
  | zero =>
    intro i hsum
    -- no section is left: their number is a `u16`
    constructor
    · intro h
      refine ⟨fun k hik hk => ?_, h⟩
      have := hk i (Nat.le_refl i) hik
      have hlt := numberOfSections_lt (r.before e i).mem r.ntHeader
      omega
    · rintro ⟨-, h⟩
      exact h
  | succ fuel ih =>
    intro i hsum
    rw [loadSections_succ]
    split
    · rename_i hi
      have hnext : sectionHeader r.loading.mem r.ntHeader i + sizeofSectionHeader =
          sectionHeader r.loading.mem r.ntHeader (i + 1) := by
        rw [sectionHeader, sectionHeader, Nat.succ_mul, Nat.add_assoc]
      have ih := ih (i + 1) (by omega)
      obtain ⟨hle, hoff⟩ := hfile i (by omega)
      have haddr : e.content + r.sectionOffset e i = sectionHeader r.loading.mem r.ntHeader i :=
        Nat.add_sub_cancel' hle
      have hturn := turn_reads e.bInfo r.base hnull hoff
        ((r.before e i).field r.ntHeader numberOfSections).1
      rw [haddr] at hturn
      rw [hnext]
      apply Iff.trans ih
      rw [Ready.before, Loading.turn, hturn, forall_reached_succ i]
      constructor
      · rintro ⟨hlater, hnow, hold⟩
        exact ⟨fun _ => ⟨hnow, hlater⟩, fun a ha => hold a (List.mem_cons_of_mem _ ha)⟩
      · rintro ⟨hall, hold⟩
        obtain ⟨hnow, hlater⟩ := hall hi
        refine ⟨hlater, hnow, fun a ha => ?_⟩
        rcases List.mem_cons.mp ha with rfl | ha
        · exact hnum
        · exact hold a ha
    · rename_i hi
      rw [forall_reached_succ i]
      constructor
      · intro h
        exact ⟨fun hlt => absurd hlt hi, fun a ha => h a (List.mem_cons_of_mem _ ha)⟩
      · rintro ⟨-, hold⟩ a ha
        rcases List.mem_cons.mp ha with rfl | ha
        · exact hnum
        · exact hold a ha

end loop

/-! ## The whole loader -/

section loaded

variable {σ : Type} {b : BootServices σ} {e : Setup} {s : Session σ}

/-- What is read before the first turn. -/
theorem Prepared.before_reads {r : Ready σ} (h : Prepared b e s r) :
    (r.before e 0).reads =
      [sizeOfOptionalHeader.span r.ntHeader, imageBase.span r.ntHeader,
        addressOfEntryPoint.span r.ntHeader, imageBase.span r.ntHeader,
        sizeOfImage.span r.ntHeader, ⟨r.ntHeader, 4⟩, eLfanew.span e.content, ⟨e.content, 2⟩] := by
  show sizeOfOptionalHeader.span r.ntHeader :: imageBase.span r.ntHeader :: r.loading.reads = _
  rw [h.reads]

/-- The headers are read in the file exactly when they are there. -/
theorem Prepared.headers_iff {r : Ready σ} (h : Prepared b e s r) :
    (∀ a ∈ (r.before e 0).reads, a.Inside e.file) ↔ HeadersInside e (b.memory s.state) := by
  have hv : eLfanew.get (b.memory s.state) e.content < 256 ^ 4 := Bytes.read_lt _ 4 _
  have hnt := h.nt
  have hdos : (eLfanew.span e.content).Inside e.file ↔ 0 + 60 + 4 ≤ e.length :=
    field_inside_iff (x := 0) h.nonnull (by decide) (by decide) (by decide)
  have hmz : Span.Inside ⟨e.content, 2⟩ e.file ↔ 0 + 2 ≤ e.length :=
    inside_file_iff_of_pos (x := 0) h.nonnull (by decide) (by decide)
  have hinside : HeadersInside e (b.memory s.state) ↔ 64 ≤ e.length ∧
      eLfanew.get (b.memory s.state) e.content < 2 ^ 31 ∧
      eLfanew.get (b.memory s.state) e.content + 84 ≤ e.length :=
    ⟨fun h => ⟨h.dos, h.forward, h.nt⟩, fun h => ⟨h.1, h.2.1, h.2.2⟩⟩
  rw [h.before_reads, hinside]
  simp only [List.forall_mem_cons, List.not_mem_nil, IsEmpty.forall_iff, implies_true, and_true]
  rw [hdos, hmz]
  generalize eLfanew.get (b.memory s.state) e.content = v at hv hnt
  rcases Nat.lt_or_ge v (2 ^ 31) with hpos | hneg
  · rw [signExtend, if_pos hpos] at hnt
    have hfield : ∀ f : Field, f.offset < 2 ^ 62 → 0 < f.size →
        ((f.span r.ntHeader).Inside e.file ↔ v + f.offset + f.size ≤ e.length) := by
      intro f hoff hsize
      rw [hnt]
      exact field_inside_iff h.nonnull (by omega) hoff hsize
    have hpe : Span.Inside ⟨r.ntHeader, 4⟩ e.file ↔ v + 4 ≤ e.length := by
      rw [hnt]
      exact inside_file_iff_of_pos h.nonnull (by omega) (by decide)
    rw [hfield _ (by decide) (by decide), hfield _ (by decide) (by decide),
      hfield _ (by decide) (by decide), hfield _ (by decide) (by decide), hpe]
    show v + 20 + 2 ≤ _ ∧ v + 48 + 8 ≤ _ ∧ v + 40 + 4 ≤ _ ∧ v + 48 + 8 ≤ _ ∧ v + 80 + 4 ≤ _ ∧ _ ↔ _
    omega
  · -- backwards, not even the signature is in the file
    constructor
    · rintro ⟨-, -, -, -, -, hpe, -⟩
      rw [hnt] at hpe
      exact absurd hpe (not_inside_of_negative hv hneg (by decide))
    · rintro ⟨-, hpos, -⟩
      exact absurd hpos (Nat.not_lt.mpr hneg)

/-- Where the section headers are, when the NT headers lie ahead. -/
theorem Prepared.section_bounds {r : Ready σ} (h : Prepared b e s r)
    (hpos : eLfanew.get (b.memory s.state) e.content < 2 ^ 31) {i : Nat} (hi : i < 2 ^ 16) :
    e.content ≤ sectionHeader r.loading.mem r.ntHeader i ∧ r.sectionOffset e i < 2 ^ 32 := by
  have hnt := h.nt
  have hopt : sizeOfOptionalHeader.get r.loading.mem r.ntHeader < 256 ^ 2 := Bytes.read_lt _ 2 _
  rw [signExtend, if_pos hpos] at hnt
  rw [Ready.sectionOffset, sectionHeader]
  show e.content ≤ r.ntHeader + 24 + sizeOfOptionalHeader.get r.loading.mem r.ntHeader + i * 40 ∧
    r.ntHeader + 24 + sizeOfOptionalHeader.get r.loading.mem r.ntHeader + i * 40 - e.content < 2 ^ 32
  omega

/-- What is read of the file by a loader that comes to the loop over the sections: the headers
    before it, and what its turns read.  Everything before the loop is in the headers, so two
    conditions are enough. -/
theorem Prepared.reads_iff {r : Ready σ} (hprep : Prepared b e s r) :
    (∀ a ∈ (r.loading.loadSectionsIntoMemory e.content r.ntHeader e.bInfo).reads, a.Inside e.file) ↔
      HeadersInside e (b.memory s.state) ∧
      ∀ i, r.Takes e i →
        SectionInside e (zeroed (r.before e i).mem r.base
          (sectionHeader r.loading.mem r.ntHeader i)) (r.sectionOffset e i) := by
  rw [loadSectionsIntoMemory_eq]
  have hheaders := hprep.headers_iff
  rcases Classical.em (HeadersInside e (b.memory s.state)) with hin | hout
  · have hv := hin.nt
    have hnt := hprep.nt
    rw [signExtend, if_pos hin.forward] at hnt
    have hnum : (numberOfSections.span r.ntHeader).Inside e.file := by
      rw [hnt]
      refine (field_inside_iff hprep.nonnull ?_ (by decide) (by decide)).mpr ?_
      · exact Nat.lt_trans hin.forward (by decide)
      · show _ + 6 + 2 ≤ e.length
        omega
    rw [loadSections_reads_iff hprep.nonnull hnum
      (fun i hi => hprep.section_bounds hin.forward hi) (2 ^ 16) 0 (Nat.zero_add _), hheaders]
    constructor
    · rintro ⟨hturns, -⟩
      exact ⟨hin, fun i hi => hturns i (Nat.zero_le i) fun j _ hj => hi j hj⟩
    · rintro ⟨-, hturns⟩
      exact ⟨fun i _ hi => hturns i fun j hj => hi j (Nat.zero_le j) hj, hin⟩
  · -- headers that do not lie in the file have been read before the loop
    constructor
    · intro hall
      exact absurd (hheaders.mp fun a ha => hall a ((loadSections_grow _ _ _ _).1 ha)) hout
    · rintro ⟨hin, -⟩
      exact absurd hin hout

/-- **The file is read in its bounds exactly when its numbers allow it.**  All that is read through
    the content buffer lies in the file if and only if the headers do, and at each turn the loop
    takes, in the memory this turn finds, the section header, the name and the raw data do.  The
    memory of the turn has to be named: a section whose target is the file itself replaces the
    headers of the next ones.  No bound on the number of sections is needed: the condition speaks of
    the turns that are taken. -/
theorem reads_in_file_iff {r : Loaded σ} (h : b.ldrPeLoadPEImageAsKernel e s = .ok r) :
    (∀ a ∈ r.loading.reads, a.Inside e.file) ↔
      HeadersInside e (b.memory s.state) ∧
      ∀ i, r.ready.Takes e i →
        SectionInside e (zeroed (r.ready.before e i).mem r.ready.base
          (sectionHeader r.ready.loading.mem r.ready.ntHeader i)) (r.ready.sectionOffset e i) := by
  obtain ⟨hprep, hr⟩ := load_ok h
  generalize r.ready = ready at hprep hr ⊢
  subst hr
  exact hprep.reads_iff

/-! ## When the sections go into the window -/

/-- A turn finds the same when nothing was written to the file. -/
theorem sectionInside_sameOff {m m' : Bytes} {w : Region} {offset : Nat}
    (h : Bytes.SameOff w m m') (hfile : ∀ x, x < e.length → ¬ w.Has (e.content + x))
    (hoff : Span.Off ⟨e.content + offset, sizeofSectionHeader⟩ w) :
    SectionInside e m' offset ↔ SectionInside e m offset := by
  have hname : (∃ j, offset + j < e.length ∧ m' (e.content + offset + j) = 0) ↔
      ∃ j, offset + j < e.length ∧ m (e.content + offset + j) = 0 := by
    refine exists_congr fun j => and_congr_right fun hj => ?_
    rw [h _ (by rw [Nat.add_assoc]; exact hfile _ hj)]
  have hldr := isLdr_sameOn (h.sameOn hoff)
  have hsize := get_sameOn (f := sizeOfRawData) (h.sameOn hoff) (by decide)
  have hptr := get_sameOn (f := pointerToRawData) (h.sameOn hoff) (by decide)
  constructor
  · rintro ⟨h16, hz, hraw⟩
    rw [hldr, hsize, hptr] at hraw
    exact ⟨h16, hname.mp hz, hraw⟩
  · rintro ⟨h16, hz, hraw⟩
    rw [← hldr, ← hsize, ← hptr] at hraw
    exact ⟨h16, hname.mpr hz, hraw⟩

/-- The file is not in the window.  The window lies in the last 512 GiB, and the file below `2 ^
    52`. -/
theorem file_off_window (e : Setup) (pages : Nat) {x : Nat} (hx : x < e.length) :
    ¬ (window pages).Has (e.content + x) := by
  rintro ⟨hlo, -⟩
  have hphys := e.physical
  change 0xFFFFFF8000000000 ≤ e.content + x at hlo
  omega

/-- Memory stays as it is off the window. -/
theorem before_sameOff {r : Ready σ} (h : Prepared b e s r)
    (hfits : ∀ i < numberOfSections.get r.loading.mem r.ntHeader,
      SectionFits r.loading.mem r.base (sectionHeader r.loading.mem r.ntHeader i)
        (window r.amountOfPagesForImage)) :
    ∀ i ≤ numberOfSections.get r.loading.mem r.ntHeader,
      Bytes.SameOff (window r.amountOfPagesForImage) r.loading.mem (r.before e i).mem := by
  intro i
  induction i with
  | zero =>
    intro _
    exact Bytes.SameOff.refl _
  | succ i ih =>
    intro hi
    have hlt := numberOfSections_lt r.loading.mem r.ntHeader
    have ih := ih (Nat.le_of_succ_le hi)
    exact (turn_writes _ _ _ (window_base_pos _) h.window_end
      ((r.before e i).field r.ntHeader numberOfSections).1 ih (h.section_off (by omega))).2
      (hfits i hi)

/-- **The bytes of the file decide** when the sections go into the window: the turns are those of
    `NumberOfSections`, and each finds the header that was there before.  The condition is then one
    on the bytes of the file, with no turn in it: a tool could check it before the file is loaded. -/
theorem reads_in_file_iff_of_window {r : Loaded σ} (h : b.ldrPeLoadPEImageAsKernel e s = .ok r)
    (hw : ∀ w ∈ r.loading.writes, w.Inside (window r.ready.amountOfPagesForImage)) :
    (∀ a ∈ r.loading.reads, a.Inside e.file) ↔
      HeadersInside e (b.memory s.state) ∧
      ∀ i < numberOfSections.get r.ready.loading.mem r.ready.ntHeader,
        SectionInside e r.ready.loading.mem (r.ready.sectionOffset e i) := by
  obtain ⟨hprep, hr⟩ := load_ok h
  generalize r.ready = ready at hprep hr hw ⊢
  subst hr
  have hfits := hprep.writes_iff.mp hw
  apply Iff.trans hprep.reads_iff
  have hlt := numberOfSections_lt ready.loading.mem ready.ntHeader
  -- writes in the window leave the headers alone, so each turn finds the first ones
  have hsame := before_sameOff (e := e) hprep hfits
  have hnum : ∀ i ≤ numberOfSections.get ready.loading.mem ready.ntHeader,
      numberOfSections.get (ready.before e i).mem ready.ntHeader =
        numberOfSections.get ready.loading.mem ready.ntHeader :=
    fun i hi => Bytes.SameOn.read (Bytes.SameOff.sameOn (hsame i hi) (hprep.off (k := 6) (by decide)))
  -- turns are taken for as many sections as the header said at first
  have htakes : ∀ i, ready.Takes e i ↔ i < numberOfSections.get ready.loading.mem ready.ntHeader := by
    intro i
    constructor
    · intro ht
      by_contra hge
      have := ht _ (Nat.not_lt.mp hge)
      rw [hnum _ (Nat.le_refl _)] at this
      exact Nat.lt_irrefl _ this
    · intro hi j hj
      rw [hnum j (by omega)]
      omega
  refine and_congr_right fun hin => forall_congr' fun i => ?_
  rw [htakes]
  refine imp_congr_right fun hi => ?_
  obtain ⟨hle, -⟩ := hprep.section_bounds hin.forward (i := i) (by omega)
  have haddr : e.content + ready.sectionOffset e i =
      sectionHeader ready.loading.mem ready.ntHeader i := Nat.add_sub_cancel' hle
  have hoff := hprep.section_off (i := i) (by omega)
  have hzero := ((sectionFits_iff (window_base_pos _) hprep.window_end).mp (hfits i hi)).1
  have hbefore := hsame i (Nat.le_of_lt hi)
  rw [← zeroSpan_sameOn (imageBase.get ready.loading.mem ready.ntHeader) (hbefore.sameOn hoff)] at hzero
  -- the zeros of turn `i` lie in the window as well
  have hz := hbefore.trans (Bytes.memset_sameOff _ 0 hzero)
  refine sectionInside_sameOff hz (fun x hx => file_off_window e _ hx) ?_
  rw [haddr]
  exact hoff

end loaded

/-- One section, its raw data at the end of the file. -/
theorem reads_in_file_whole :
    ∃ r, (plain id).ldrPeLoadPEImageAsKernel sampleSetup
        (sampleSession (sampleImage HHDM_OFFSET 0 16 16 0x1F0)) = .ok r ∧
      ∀ a ∈ r.loading.reads, a.Inside sampleSetup.file := by
  obtain ⟨r, hr, hp⟩ := ok_of_computed
    (x := (plain id).ldrPeLoadPEImageAsKernel sampleSetup
      (sampleSession (sampleImage HHDM_OFFSET 0 16 16 0x1F0)))
    (p := fun r => decide (
      numberOfSections.get (r.ready.before sampleSetup 1).mem r.ready.ntHeader ≤ 1 ∧
      r.ready.sectionOffset sampleSetup 0 = 0x148 ∧
      let z := zeroed (r.ready.before sampleSetup 0).mem r.ready.base
        (sectionHeader r.ready.loading.mem r.ready.ntHeader 0)
      z (0x10148 + 5) = 0 ∧ sizeOfRawData.get z 0x10148 = 16 ∧
        pointerToRawData.get z 0x10148 = 0x1F0)) (by decide +kernel)
  obtain ⟨hone, hoff, hname, hsize, hptr⟩ := of_decide_eq_true hp
  refine ⟨r, hr, (reads_in_file_iff hr).mpr ⟨⟨by decide, by decide +kernel, by decide +kernel⟩, ?_⟩⟩
  intro i hi
  obtain rfl : i = 0 := by
    by_contra hne
    have := hi 1 (Nat.one_le_iff_ne_zero.mpr hne)
    omega
  rw [hoff]
  refine ⟨by decide, ⟨5, by decide, hname⟩, fun _ => ⟨by decide, Or.inr ?_⟩⟩
  show pointerToRawData.get _ 0x10148 + sizeOfRawData.get _ 0x10148 ≤ 0x200
  rw [hsize, hptr]

/-- **A truncated file**: the raw data of its section begin where it ends. -/
theorem raw_data_behind_the_end :
    ¬ ∀ (b : BootServices Plain) (e : Setup) (s : Session Plain) (r : Loaded Plain),
      b.ldrPeLoadPEImageAsKernel e s = .ok r → ∀ a ∈ r.loading.reads, a.Inside e.file := by
  intro hclaim
  obtain ⟨r, hr, ha⟩ := ok_of_computed
    (x := (plain id).ldrPeLoadPEImageAsKernel sampleSetup
      (sampleSession (sampleImage HHDM_OFFSET 0 16 16 0x200)))
    (p := fun r => decide (⟨0x10200, 16⟩ ∈ r.loading.reads)) (by decide +kernel)
  obtain ⟨-, hhi⟩ := hclaim (plain id) sampleSetup _ r hr _ (of_decide_eq_true ha) 0 (by decide)
  exact absurd hhi (by decide)

end Nearlands.Ldr
