/-
  The list of the legacy heap, in memory.

  The links of the list are fields of headers that lie somewhere in memory.  As long as the headers
  are at different places and do not overlap (`Heads`) a write to one of them is seen there alone,
  and `AddToFreeList` and `RemoveFromFreeList` are the edits of a doubly linked list.
-/
import Nearlands.Legacy.Alloc

namespace Nearlands.Legacy

open Nearlands.Lib

/-- Addresses at which there is room for a header, that does not overlap those at the others.
    `Clean` says that a write to a field of one header changes no field of another, be it by overlap
    or by a wrap. -/
structure Heads (hs : List Nat) : Prop where
  nonnull : ∀ x ∈ hs, x ≠ null
  fits : ∀ x ∈ hs, x + sizeofFreeList < 2 ^ 64
  clean : ∀ x ∈ hs, ∀ y ∈ hs, freeList.Clean x y

namespace State

variable {s : State} {hs xs : List Nat} {x y : Nat} {f g : Field}

/-- The list with its links. -/
def list (s : State) : DList :=
  ⟨s.head, s.tail, fun x => s.field x .next, fun x => s.field x .prev⟩

/-- A write to a header changes memory only. -/
theorem setField_kept (s : State) (x : Nat) (f : Field) (v : Nat) :
    (s.setField x f v).pageLog = s.pageLog ∧ (s.setField x f v).headers = s.headers ∧
      (s.setField x f v).allocCur = s.allocCur ∧ (s.setField x f v).allocLimit = s.allocLimit := by
  simp only [setField, and_self]

/-- A write is seen by its field alone.  The value is cut to the size of the field, which for a link
    does nothing. -/
theorem field_setField (h : Heads hs) (hx : x ∈ hs) (hy : y ∈ hs) (s : State) (f : Field) (v : Nat)
    (g : Field) : (s.setField x f v).field y g =
      if y = x ∧ g = f then v % 256 ^ freeList.size f else s.field y g :=
  Layout.get_set (Nat.le_of_lt (h.fits x hx)) (Nat.le_of_lt (h.fits y hy)) (h.clean x hx y hy) _ _ _
    _

/-- So a write to one field leaves the others. -/
theorem field_other (h : Heads hs) (hx : x ∈ hs) (hy : y ∈ hs) (s : State) (v : Nat) (hne : g ≠ f) :
    (s.setField x f v).field y g = s.field y g := by
  rw [field_setField h hx hy, if_neg fun hyg => hne hyg.2]

/-- A pointer: null, or one of the headers. -/
def Pointer (hs : List Nat) (v : Nat) : Prop := v ≠ null → v ∈ hs

/-- A pointer is read as it was written. -/
theorem field_setLink (h : Heads hs) (hx : x ∈ hs) (hy : y ∈ hs) (hf : freeList.size f = 8)
    {v : Nat} (hv : Pointer hs v) (s : State) (g : Field) :
    (s.setField x f v).field y g = if y = x ∧ g = f then v else s.field y g := by
  have hlt : v + sizeofFreeList < 2 ^ 64 := by
    by_cases h0 : v = null
    · rw [h0]
      decide
    · exact h.fits v (hv h0)
  rw [field_setField h hx hy, hf, Nat.mod_eq_of_lt (by omega)]

/-- The same for a write behind a null check. -/
theorem field_setLinkAt (h : Heads hs) (hx : Pointer hs x) (hy : y ∈ hs) (hf : freeList.size f = 8)
    {v : Nat} (hv : Pointer hs v) (s : State) (g : Field) :
    (if x ≠ null then s.setField x f v else s).field y g =
      if x ≠ null ∧ y = x ∧ g = f then v else s.field y g := by
  by_cases h0 : x = null
  · rw [if_neg (not_not.mpr h0), if_neg fun hc => hc.1 h0]
  · rw [if_pos h0, field_setLink h (hx h0) hy hf hv]
    by_cases hc : y = x ∧ g = f
    · rw [if_pos hc, if_pos ⟨h0, hc⟩]
    · have hc' : ¬ (x ≠ null ∧ y = x ∧ g = f) := fun h' => hc h'.2
      rw [if_neg hc, if_neg hc']

/-- A write to another field leaves the list. -/
theorem setField_list (h : Heads hs) (hl : s.list.Is xs) (hxs : ∀ y ∈ xs, y ∈ hs) (hx : x ∈ hs)
    (hnext : f ≠ .next) (hprev : f ≠ .prev) (v : Nat) : (s.setField x f v).list.Is xs := by
  refine hl.congr rfl rfl fun y hy => ⟨?_, ?_⟩
  · exact field_other h hx (hxs y hy) s v hprev.symm
  · exact field_other h hx (hxs y hy) s v hnext.symm

/-! ## Appending -/

/-- `AddToFreeList` changes both ends of the list, and memory.  Three writes, the last of them only
    when the list was not empty. -/
theorem addToFreeList_eq (s : State) (x : Nat) : s.addToFreeList x =
    { s with
      head := if s.head = null then x else s.head
      tail := x
      mem := (if s.tail ≠ null then
          ((s.setField x .next null).setField x .prev s.tail).setField s.tail .next x
        else (s.setField x .next null).setField x .prev s.tail).mem } := by
  by_cases ht : s.tail = null <;> by_cases hh : s.head = null <;>
    simp [addToFreeList, setField, ht, hh]

/-- The rest of the statics is left alone. -/
theorem addToFreeList_kept (s : State) (x : Nat) :
    (s.addToFreeList x).pageLog = s.pageLog ∧ (s.addToFreeList x).headers = s.headers ∧
      (s.addToFreeList x).allocCur = s.allocCur ∧ (s.addToFreeList x).allocLimit = s.allocLimit := by
  rw [addToFreeList_eq]
  exact ⟨rfl, rfl, rfl, rfl⟩

/-- What it leaves in a field. -/
theorem addToFreeList_field (h : Heads hs) (ht : Pointer hs s.tail) (hx : x ∈ hs) (hy : y ∈ hs)
    (g : Field) : (s.addToFreeList x).field y g =
      if s.tail ≠ null ∧ y = s.tail ∧ g = .next then x
      else if y = x ∧ g = .prev then s.tail
      else if y = x ∧ g = .next then null
      else s.field y g := by
  rw [addToFreeList_eq, field]
  dsimp only
  refine (field_setLinkAt h ht hy rfl (fun _ => hx) _ g).trans ?_
  rw [field_setLink h hx hy rfl ht, field_setLink h hx hy rfl fun h0 => absurd rfl h0]

/-- The fields that are not links stay. -/
theorem addToFreeList_other (h : Heads hs) (ht : Pointer hs s.tail) (hx : x ∈ hs) (hy : y ∈ hs)
    (hnext : g ≠ .next) (hprev : g ≠ .prev) : (s.addToFreeList x).field y g = s.field y g := by
  rw [addToFreeList_field h ht hx hy, if_neg fun hc => hnext hc.2.2, if_neg fun hc => hprev hc.2,
    if_neg fun hc => hnext hc.2]

/-- The tail of a list of headers. -/
theorem tail_pointer (hl : s.list.Is xs) (hxs : ∀ y ∈ xs, y ∈ hs) : Pointer hs s.tail := by
  intro h0
  have htail : s.tail = xs.getLastD 0 := hl.tail
  rw [htail] at h0 ⊢
  exact hxs _ (DList.getLastD_mem h0)

/-- **Appending.** The nodes of the list before are the chunks that were in it, and the new one is
    behind them. -/
theorem addToFreeList_list (h : Heads hs) (hl : s.list.Is xs) (hxs : ∀ y ∈ xs, y ∈ hs) (hx : x ∈ hs)
    (hnew : x ∉ xs) : (s.addToFreeList x).list.Is (xs ++ [x]) := by
  have ht : Pointer hs s.tail := tail_pointer hl hxs
  have hxt : x ≠ s.tail := by
    rintro rfl
    have htail : s.tail = xs.getLastD 0 := hl.tail
    refine hnew ?_
    rw [htail]
    exact DList.getLastD_mem (by rw [← htail]; exact h.nonnull _ hx)
  refine (hl.add (h.nonnull x hx) hnew).congr ?_ ?_ fun y hy => ?_
  · rw [addToFreeList_eq]
    rfl
  · rw [addToFreeList_eq]
    rfl
  · have hyh : y ∈ hs := by
      rcases List.mem_append.mp hy with hy | hy
      · exact hxs y hy
      · rwa [List.mem_singleton.mp hy]
    have hview := addToFreeList_field h ht hx hyh
    constructor
    · show (s.addToFreeList x).field y .prev = upd s.list.prev x s.tail y
      rw [hview .prev]
      by_cases hyx : y = x <;> simp [upd, list, hyx]
    · show (s.addToFreeList x).field y .next =
        upd (if s.tail ≠ 0 then upd s.list.next s.tail x else s.list.next) x 0 y
      rw [hview .next]
      by_cases hyx : y = x
      · simp [upd, hyx, hxt]
      · by_cases h0 : s.tail = 0 <;> simp [upd, list, hyx, h0]

/-! ## Unlinking -/

/-- `RemoveFromFreeList` changes the ends of the list, and memory.  Its reads come before its
    writes, so they can be named. -/
theorem removeFromFreeList_eq (s : State) (x : Nat) : s.removeFromFreeList x =
    let prev := s.field x .prev
    let next := s.field x .next
    let t := if prev ≠ null then s.setField prev .next next else s
    let t := if next ≠ null then t.setField next .prev prev else t
    { s with
      head := if x = s.head then next else s.head
      tail := if x = s.tail then prev else s.tail
      mem := ((t.setField x .prev null).setField x .next null).mem } := by
  by_cases hh : x = s.head <;> by_cases ht : x = s.tail <;>
    by_cases hp : s.field x .prev = null <;> by_cases hn : s.field x .next = null <;>
    simp_all [removeFromFreeList, setField, field]

/-- The rest of the statics is left alone. -/
theorem removeFromFreeList_kept (s : State) (x : Nat) :
    (s.removeFromFreeList x).pageLog = s.pageLog ∧
      (s.removeFromFreeList x).headers = s.headers ∧
      (s.removeFromFreeList x).allocCur = s.allocCur ∧
      (s.removeFromFreeList x).allocLimit = s.allocLimit := by
  rw [removeFromFreeList_eq]
  exact ⟨rfl, rfl, rfl, rfl⟩

/-- What it leaves in a field. -/
theorem removeFromFreeList_field (h : Heads hs) (hp : Pointer hs (s.field x .prev))
    (hn : Pointer hs (s.field x .next)) (hx : x ∈ hs) (hy : y ∈ hs) (g : Field) :
    (s.removeFromFreeList x).field y g =
      if y = x ∧ g = .next then null
      else if y = x ∧ g = .prev then null
      else if s.field x .next ≠ null ∧ y = s.field x .next ∧ g = .prev then s.field x .prev
      else if s.field x .prev ≠ null ∧ y = s.field x .prev ∧ g = .next then s.field x .next
      else s.field y g := by
  rw [removeFromFreeList_eq, field]
  dsimp only
  refine (field_setLink h hx hy rfl (fun h0 => absurd rfl h0) _ g).trans ?_
  rw [field_setLink h hx hy rfl fun h0 => absurd rfl h0, field_setLinkAt h hn hy rfl hp,
    field_setLinkAt h hp hy rfl hn]

/-- The fields that are not links stay. -/
theorem removeFromFreeList_other (h : Heads hs) (hp : Pointer hs (s.field x .prev))
    (hn : Pointer hs (s.field x .next)) (hx : x ∈ hs) (hy : y ∈ hs) (hnext : g ≠ .next)
    (hprev : g ≠ .prev) : (s.removeFromFreeList x).field y g = s.field y g := by
  rw [removeFromFreeList_field h hp hn hx hy, if_neg fun hc => hnext hc.2,
    if_neg fun hc => hprev hc.2, if_neg fun hc => hprev hc.2.2, if_neg fun hc => hnext hc.2.2]

/-- The links of a node of a list of headers.  A link leads to a neighbour or is null, so it never
    leads out of the headers. -/
theorem link_pointers {l r : List Nat} (hl : s.list.Is (l ++ x :: r))
    (hxs : ∀ y ∈ l ++ x :: r, y ∈ hs) :
    Pointer hs (s.field x .prev) ∧ Pointer hs (s.field x .next) := by
  obtain ⟨hp, hn⟩ := hl.link l x r rfl
  constructor
  · intro h0
    have hprev : s.field x .prev = l.getLastD 0 := hp
    rw [hprev] at h0 ⊢
    exact hxs _ (List.mem_append_left _ (DList.getLastD_mem h0))
  · intro h0
    have hnext : s.field x .next = r.headD 0 := hn
    rw [hnext] at h0 ⊢
    exact hxs _ (List.mem_append_right _ (List.mem_cons_of_mem _ (DList.headD_mem h0)))

/-- **Unlinking.** What the list is without the chunk: its neighbours are linked to each other. -/
theorem removeFromFreeList_list {l r : List Nat} (h : Heads hs) (hl : s.list.Is (l ++ x :: r))
    (hxs : ∀ y ∈ l ++ x :: r, y ∈ hs) : (s.removeFromFreeList x).list.Is (l ++ r) := by
  obtain ⟨hp, hn⟩ := link_pointers hl hxs
  have hx : x ∈ hs := hxs x (List.mem_append_right _ List.mem_cons_self)
  refine hl.remove_mid.congr ?_ ?_ fun y hy => ?_
  · rw [removeFromFreeList_eq]
    simp only [list, DList.remove, eq_comm]
  · rw [removeFromFreeList_eq]
    simp only [list, DList.remove, eq_comm]
  · have hyh : y ∈ hs := by
      refine hxs y ?_
      rcases List.mem_append.mp hy with hy | hy
      · exact List.mem_append_left _ hy
      · exact List.mem_append_right _ (List.mem_cons_of_mem _ hy)
    have hview := removeFromFreeList_field h hp hn hx hyh
    constructor
    · show (s.removeFromFreeList x).field y .prev = (s.list.remove x).prev y
      rw [hview .prev]
      by_cases hyx : y = x
      · simp [DList.remove, list, upd, hyx]
      · by_cases h0 : s.field x .next = 0 <;> simp [DList.remove, list, upd, hyx, h0]
    · show (s.removeFromFreeList x).field y .next = (s.list.remove x).next y
      rw [hview .next]
      by_cases hyx : y = x
      · simp [DList.remove, list, upd, hyx]
      · by_cases h0 : s.field x .prev = 0 <;> simp [DList.remove, list, upd, hyx, h0]

/-! ## A new header -/

/-- One header overlaps no other. -/
theorem Heads.single (h0 : x ≠ null) (hfit : x + sizeofFreeList < 2 ^ 64) : Heads [x] where
  nonnull := fun y hy => by rwa [List.mem_singleton.mp hy]
  fits := fun y hy => by rwa [List.mem_singleton.mp hy]
  clean := by
    intro y hy z hz
    rw [List.mem_singleton.mp hy, List.mem_singleton.mp hz]
    exact .inl rfl

/-- Making a header changes memory and the record of headers only. -/
theorem newHeader_kept (s : State) (x : Nat) (isFree : Bool) (totalSize memSize address : Nat) :
    let t := (s.clearHeader x).initFreeList x isFree totalSize memSize address
    t.head = s.head ∧ t.tail = s.tail ∧ t.pageLog = s.pageLog ∧ t.headers = x :: s.headers := by
  simp only [initFreeList, setField, clearHeader, and_self]

/-- A header that is made is written in its own bytes.  So what is handed out is not damaged by it,
    nor is any other header. -/
theorem newHeader_sameOff (hfit : x + sizeofFreeList < 2 ^ 64) (s : State) (isFree : Bool)
    (totalSize memSize address : Nat) :
    Bytes.SameOff (freeList.region x) s.mem
      ((s.clearHeader x).initFreeList x isFree totalSize memSize address).mem := by
  have hset := Layout.set_sameOff (L := freeList) (Nat.le_of_lt hfit)
  refine (Bytes.memset_sameOff s.mem 0 ?_).trans ((((((hset _ .magic freeListHeaderMagic).trans
    (hset _ .isFree isFree.toNat)).trans (hset _ .address address)).trans
    (hset _ .size totalSize)).trans (hset _ .memSize memSize)).trans (hset _ .header x))
  exact Span.inside_prefix (Nat.le_refl _) (Nat.le_of_lt hfit)

/-- What `InitFreeList` leaves in the header. -/
theorem initFreeList_fields (h0 : x ≠ null) (hfit : x + sizeofFreeList < 2 ^ 64) (s : State)
    (isFree : Bool) (totalSize memSize address : Nat) :
    let t := s.initFreeList x isFree totalSize memSize address
    t.field x .magic = freeListHeaderMagic ∧ t.field x .address = address % 2 ^ 64 ∧
      t.field x .size = totalSize % 2 ^ 16 := by
  have h := Heads.single h0 hfit
  have hset : ∀ (s : State) f v g, (s.setField x f v).field x g =
      if g = f then v % 256 ^ freeList.size f else s.field x g := by
    intro s f v g
    rw [field_setField h List.mem_cons_self List.mem_cons_self]
    exact if_congr (and_iff_right rfl) rfl rfl
  have hmem : ∀ (s : State) hs g, State.field { s with headers := hs } x g = s.field x g :=
    fun _ _ _ => rfl
  refine ⟨?_, ?_, ?_⟩
  all_goals
    rw [initFreeList, hmem]
    simp only [hset, reduceCtorEq, if_false, if_true]
    rfl

/-! ## The walk -/

/-- The walk passes the chunks that are too small.  It goes on over a chunk that is too small, and
    in a list of free chunks over no other. -/
theorem scan_passes (hfree : ∀ x ∈ xs, s.field x .isFree = 1) (hxs : ∀ x ∈ xs, x ≠ null)
    (size : Nat) :
    DList.Passes (s.scan size) (fun x => s.field x .size < size) s.list xs where
  zero := fun _ => rfl
  pass := by
    intro x hx hskip n
    rw [scan, if_neg (hxs x hx), if_pos (hfree x hx), if_pos hskip]
    rfl

/-- **The walk** ends at the first chunk that is large enough, or behind the last one.  That it ends
    is a hypothesis: with the fuel of the source, the number of all addresses, a list without
    repetitions always does. -/
theorem scan_cases (hl : s.list.Is xs) (hfree : ∀ x ∈ xs, s.field x .isFree = 1) {size fuel cur : Nat}
    (h : s.scan size fuel s.head = some cur) :
    (cur = null ∧ ∀ x ∈ xs, s.field x .size < size) ∨
      ∃ l r, xs = l ++ cur :: r ∧ (∀ y ∈ l, s.field y .size < size) ∧ cur ≠ null ∧
        size ≤ s.field cur .size := by
  obtain ⟨n, ⟨hall, hres⟩ | ⟨l, x, r, hxs, hsmall, hx, hres⟩⟩ :=
    hl.loop_stops (scan_passes hfree hl.nonnull size) h
  · rw [scan, if_pos rfl] at hres
    exact .inl ⟨(Option.some.inj hres).symm, hall⟩
  · have hmem : x ∈ xs := hxs ▸ List.mem_append_right _ List.mem_cons_self
    rw [scan, if_neg (hl.nonnull x hmem), if_pos (hfree x hmem), if_neg hx] at hres
    obtain rfl := Option.some.inj hres
    exact .inr ⟨l, r, hxs, hsmall, hl.nonnull x hmem, Nat.le_of_not_lt hx⟩

end State

end Nearlands.Legacy
