/-
  The invariant of the legacy heap.

  A `Chunk` is a header and the memory it stands for, which need not begin behind the header: a
  chunk whose front was taken begins where its rest does.  `Inv s spare frees live` says that the
  list holds the chunks of `frees`, that the headers of all chunks are what they should be, and that
  headers, chunks and the `spare` regions are parcels of the runs of pages.

  The heap works by five operations on that division.  A chunk is handed out (`Inv.take`) or comes
  back (`Inv.give`); the front of a chunk becomes spare (`Inv.shrink`); a spare region becomes a
  header and its chunk (`Inv.place`); a run of pages is a new spare region (`Inv.grow`).
-/
import Nearlands.Legacy.Links
import Nearlands.Lib.Parcels

namespace Nearlands.Legacy

open Nearlands.Lib

/-- A header and the memory it stands for.  The header is where the chunk is known, the other two
    are the memory it stands for, without a header. -/
structure Chunk where
  header : Nat
  base : Nat
  len : Nat
  deriving DecidableEq, Repr

namespace Chunk

/-- The bytes of the header. -/
def head (k : Chunk) : Region := freeList.region k.header

/-- The bytes of the chunk. -/
def body (k : Chunk) : Region := ⟨k.base, k.len⟩

/-- Header and memory, as two parcels that need not touch. -/
def parts (k : Chunk) : List Region := [k.head, k.body]

/-- What is left when `n` bytes are taken from the front. -/
def cut (k : Chunk) (n : Nat) : Chunk := ⟨k.header, k.base + n, k.len - n⟩

end Chunk

/-- Every call of the page allocator was answered by a new run.  This is asked of the page
    allocator, and nothing is asked of it when it is not asked. -/
def FreshLog : List PageCall → Prop
  | [] => True
  | .allocate amount addr :: log => Fresh (held log) amount addr ∧ FreshLog log
  | .free _ _ :: log => FreshLog log

/-- A run that was answered is somewhere, and does not wrap. -/
theorem FreshLog.fits : ∀ {log : List PageCall}, FreshLog log → ∀ r ∈ held log,
    r.1 ≠ null ∧ r.1 + r.2 * pageSize < 2 ^ 64
  | [], _, _, hr => absurd hr List.not_mem_nil
  | .allocate amount addr :: log, h, r, hr => by
    rw [held_allocate h.1.nonnull] at hr
    rcases List.mem_cons.mp hr with rfl | hr
    · exact ⟨h.1.nonnull, h.1.fits⟩
    · exact fits h.2 r hr
  | .free addr amount :: log, h, r, hr => fits (show FreshLog log from h) r (List.mem_of_mem_erase hr)

/-- The runs of pages, as regions. -/
def State.runs (s : State) : List Region := (held s.pageLog).map runRegion

/-- The header of `k` says what `k` is. -/
structure State.Labels (s : State) (k : Chunk) : Prop where
  magic : s.field k.header .magic = freeListHeaderMagic
  address : s.field k.header .address = k.base
  size : s.field k.header .size = k.len + sizeofFreeList

/-- Three fields are all that is looked at. -/
theorem State.Labels.congr {s s' : State} {k : Chunk} (h : s.Labels k)
    (heq : ∀ f ∈ [Field.magic, .address, .size], s'.field k.header f = s.field k.header f) :
    s'.Labels k where
  magic := (heq _ (by decide)).trans h.magic
  address := (heq _ (by decide)).trans h.address
  size := (heq _ (by decide)).trans h.size

/-- The invariant.  `parcels` is the division of the pages: every byte of them is spare, or in a
    header, or in a chunk, or is lost, and never two of these.  `small` is what makes the 16 bits of
    a size enough, and `headers` says that every header ever made is still one.  The flag of a chunk
    in use is not mentioned, as nobody reads it. -/
structure Inv (s : State) (spare : List Region) (frees live : List Chunk) : Prop where
  list : s.list.Is (frees.map Chunk.header)
  free : ∀ k ∈ frees, s.field k.header .isFree = 1
  labels : ∀ k ∈ frees ++ live, s.Labels k
  small : ∀ k ∈ frees ++ live, k.len + sizeofFreeList < 2 ^ 16
  parcels : Parcels s.runs (spare ++ (frees ++ live).flatMap Chunk.parts)
  headers : ∀ x ∈ s.headers, ∃ k ∈ frees ++ live, k.header = x
  log : FreshLog s.pageLog

namespace Inv

variable {s s' : State} {spare : List Region} {frees live l r : List Chunk} {k k' : Chunk}

/-! ## What it says about addresses -/

/-- A parcel lies at nonnull addresses.  So addresses of headers and chunks can be added to without
    a wrap. -/
theorem fits (h : Inv s spare frees live) {q : Region}
    (hq : q ∈ spare ++ (frees ++ live).flatMap Chunk.parts) :
    q.base ≠ null ∧ q.base + q.size < 2 ^ 64 := by
  obtain ⟨run, hrun, hlo, hhi⟩ := h.parcels.within q hq
  obtain ⟨r, hr, rfl⟩ := List.mem_map.mp hrun
  obtain ⟨h0, hend⟩ := h.log.fits r hr
  rw [runRegion] at hlo hhi
  dsimp only at hlo hhi
  rw [null] at h0 ⊢
  omega

/-- The header of a chunk is one of the parcels. -/
theorem head_mem (hk : k ∈ frees ++ live) :
    k.head ∈ spare ++ (frees ++ live).flatMap Chunk.parts :=
  List.mem_append_right _ (List.mem_flatMap.mpr ⟨k, hk, List.mem_cons_self⟩)

/-- So is its memory. -/
theorem body_mem (hk : k ∈ frees ++ live) :
    k.body ∈ spare ++ (frees ++ live).flatMap Chunk.parts :=
  List.mem_append_right _
    (List.mem_flatMap.mpr ⟨k, hk, List.mem_cons_of_mem _ List.mem_cons_self⟩)

/-- Two chunks have different parcels. -/
theorem pairwise (h : Inv s spare frees live) :
    (frees ++ live).Pairwise fun k k' => ∀ q ∈ k.parts, ∀ q' ∈ k'.parts, q.Apart q' :=
  (List.pairwise_flatMap.mp (List.pairwise_append.mp h.parcels.apart).2.1).2

/-- The parcels of two chunks share no byte. -/
theorem parts_apart (h : Inv s spare frees live) (hk : k ∈ frees ++ live) (hk' : k' ∈ frees ++ live)
    (hne : k ≠ k') : ∀ q ∈ k.parts, ∀ q' ∈ k'.parts, q.Apart q' := by
  have hsymm : Std.Symm fun k k' : Chunk => ∀ q ∈ k.parts, ∀ q' ∈ k'.parts, q.Apart q' :=
    ⟨fun _ _ hab q hq q' hq' => (hab q' hq' q hq).symm⟩
  exact h.pairwise.forall hk hk' hne

/-- No two chunks have one header. -/
theorem nodup (h : Inv s spare frees live) : ((frees ++ live).map Chunk.header).Nodup := by
  refine List.pairwise_map.mpr (h.pairwise.imp fun {k k'} hapart heq => ?_)
  have hheads := hapart _ List.mem_cons_self _ List.mem_cons_self
  have htotal : freeList.total = 39 := rfl
  rw [Chunk.head, Chunk.head, heq, Region.Apart, Layout.region] at hheads
  dsimp only at hheads
  omega

/-- No chunk covers a header. -/
theorem head_apart (h : Inv s spare frees live) (hk : k ∈ frees ++ live)
    (hk' : k' ∈ frees ++ live) : k.head.Apart k'.body := by
  by_cases hne : k = k'
  · rw [← hne]
    have hall := (List.pairwise_flatMap.mp (List.pairwise_append.mp h.parcels.apart).2.1).1 k hk
    exact List.rel_of_pairwise_cons hall List.mem_cons_self
  · exact h.parts_apart hk hk' hne _ List.mem_cons_self _
      (List.mem_cons_of_mem _ List.mem_cons_self)

/-- The headers of the chunks are headers.  This is what makes the reasoning about single fields in
    `Legacy.Links` available. -/
theorem heads (h : Inv s spare frees live) : Heads ((frees ++ live).map Chunk.header) where
  nonnull := by
    intro x hx
    obtain ⟨k, hk, rfl⟩ := List.mem_map.mp hx
    exact (h.fits (head_mem hk)).1
  fits := by
    intro x hx
    obtain ⟨k, hk, rfl⟩ := List.mem_map.mp hx
    exact (h.fits (head_mem hk)).2
  clean := by
    intro x hx y hy
    obtain ⟨k, hk, rfl⟩ := List.mem_map.mp hx
    obtain ⟨k', hk', rfl⟩ := List.mem_map.mp hy
    by_cases hne : k = k'
    · exact .inl (congrArg Chunk.header hne)
    · exact .inr (h.parts_apart hk hk' hne _ List.mem_cons_self _ List.mem_cons_self)

/-! ## The operations -/

/-- The invariant looks at the ends of the list, the headers and the records.  Whatever else a call
    does to memory, it must leave the headers of the chunks: a client that writes into its chunk
    does. -/
theorem frame (h : Inv s spare frees live) (hhead : s'.head = s.head) (htail : s'.tail = s.tail)
    (hlog : s'.pageLog = s.pageLog) (hheaders : s'.headers = s.headers)
    (hfield : ∀ k ∈ frees ++ live, ∀ f, s'.field k.header f = s.field k.header f) :
    Inv s' spare frees live where
  list := by
    refine h.list.congr hhead htail fun x hx => ?_
    obtain ⟨k, hk, rfl⟩ := List.mem_map.mp hx
    exact ⟨hfield k (List.mem_append_left _ hk) .prev, hfield k (List.mem_append_left _ hk) .next⟩
  free := fun k hk => by rw [hfield k (List.mem_append_left _ hk)]; exact h.free k hk
  labels := fun k hk => (h.labels k hk).congr fun f _ => hfield k hk f
  small := h.small
  parcels := by rw [State.runs, hlog]; exact h.parcels
  headers := by rw [hheaders]; exact h.headers
  log := by rw [hlog]; exact h.log

/-- Nor does it look at the other statics. -/
theorem statics (h : Inv s spare frees live) (lock : Bool) (base cur limit taken : Nat) :
    Inv { s with allocSpinLock := lock, allocBase := base, allocCur := cur, allocLimit := limit,
                 taken := taken } spare frees live :=
  h.frame rfl rfl rfl rfl fun _ _ _ => rfl

/-- A spare region is left. -/
theorem drop {q : Region} (h : Inv s (q :: spare) frees live) : Inv s spare frees live :=
  { h with parcels := h.parcels.drop }

/-- **A new run** of pages is a spare region.  The run is apart from those that there are (`Fresh`),
    so its bytes are new parcels. -/
theorem grow (h : Inv s spare frees live) {amount addr : Nat} (hhead : s'.head = s.head)
    (htail : s'.tail = s.tail) (hmem : s'.mem = s.mem) (hheaders : s'.headers = s.headers)
    (hlog : s'.pageLog = .allocate amount addr :: s.pageLog)
    (hfresh : Fresh (held s.pageLog) amount addr) :
    Inv s' (runRegion (addr, amount) :: spare) frees live := by
  have hruns : s'.runs = runRegion (addr, amount) :: s.runs := by
    rw [State.runs, hlog, held_allocate hfresh.nonnull]
    rfl
  have hold : Inv { s' with pageLog := s.pageLog } spare frees live := by
    refine h.frame hhead htail rfl hheaders fun k _ f => ?_
    show freeList.get s'.mem k.header f = _
    rw [hmem]
    rfl
  refine ⟨hold.list, hold.free, fun k hk => (hold.labels k hk).congr fun _ _ => rfl, h.small, ?_,
    hold.headers, ?_⟩
  · rw [hruns]
    refine h.parcels.grow fun q hq => ?_
    obtain ⟨r, hr, rfl⟩ := List.mem_map.mp hq
    exact hfresh.apart r hr
  · rw [hlog]
    exact ⟨hfresh, h.log⟩

/-- What the list holds may change, when the records and the chunks stay what they are.  Chunks
    change hands, and the links change with them; the division of memory is the same. -/
theorem relink (h : Inv s spare frees live) {frees' live' : List Chunk}
    (hperm : (frees ++ live).Perm (frees' ++ live')) (hlog : s'.pageLog = s.pageLog)
    (hheaders : s'.headers = s.headers) (hlist : s'.list.Is (frees'.map Chunk.header))
    (hother : ∀ c ∈ frees ++ live, ∀ f, f ≠ .next → f ≠ .prev →
      s'.field c.header f = s.field c.header f)
    (hfree : ∀ c ∈ frees', s.field c.header .isFree = 1) : Inv s' spare frees' live' where
  list := hlist
  free := by
    intro c hc
    rw [hother c (hperm.mem_iff.mpr (List.mem_append_left _ hc)) _ (by decide) (by decide)]
    exact hfree c hc
  labels := by
    intro c hc
    have hc' := hperm.mem_iff.mpr hc
    refine (h.labels c hc').congr fun f hf => hother c hc' f ?_ ?_
    · rintro rfl
      exact absurd hf (by decide)
    · rintro rfl
      exact absurd hf (by decide)
  small := fun c hc => h.small c (hperm.mem_iff.mpr hc)
  parcels := by
    rw [State.runs, hlog]
    exact h.parcels.perm (List.Perm.append_left spare (hperm.flatMap_right _))
  headers := by
    intro x hx
    obtain ⟨c, hc, hcx⟩ := h.headers x (hheaders ▸ hx)
    exact ⟨c, hperm.mem_iff.mp hc, hcx⟩
  log := hlog ▸ h.log

/-- The header of a chunk among the headers. -/
theorem mem_heads (hk : k ∈ frees ++ live) : k.header ∈ (frees ++ live).map Chunk.header :=
  List.mem_map_of_mem hk

/-- Nobody looks at `isFree` of a chunk that is not in the list.  This is used between the two
    writes of an operation, when a chunk is no longer in the list and not yet in use. -/
theorem mark (h : Inv s spare frees live) (hk : k ∈ live) (v : Nat) :
    Inv (s.setField k.header .isFree v) spare frees live := by
  have hkh := mem_heads (List.mem_append_right frees hk)
  have hsub : ∀ y ∈ frees.map Chunk.header, y ∈ (frees ++ live).map Chunk.header := by
    intro y hy
    rw [List.map_append]
    exact List.mem_append_left _ hy
  refine ⟨?_, ?_, ?_, h.small, h.parcels, h.headers, h.log⟩
  · exact State.setField_list h.heads h.list hsub hkh (by decide) (by decide) v
  · intro c hc
    have hne : c.header ≠ k.header := by
      have hnodup := h.nodup
      rw [List.map_append, List.nodup_append] at hnodup
      exact hnodup.2.2 _ (List.mem_map_of_mem hc) _ (List.mem_map_of_mem hk)
    rw [State.field_setField h.heads hkh (mem_heads (List.mem_append_left live hc)),
      if_neg fun hc' => hne hc'.1]
    exact h.free c hc
  · intro c hc
    refine (h.labels c hc).congr fun f hf => State.field_other h.heads hkh (mem_heads hc) s v ?_
    rintro rfl
    exact absurd hf (by decide)

/-- The chunk leaves the list.  After it the chunk counts as in use, and its flag is cleared later. -/
theorem unlink (h : Inv s spare (l ++ k :: r) live) :
    Inv (s.removeFromFreeList k.header) spare (l ++ r) (k :: live) := by
  have hperm : ((l ++ k :: r) ++ live).Perm ((l ++ r) ++ k :: live) := by
    rw [List.append_assoc, List.append_assoc]
    exact List.Perm.append_left l List.perm_middle.symm
  have hk : k ∈ (l ++ k :: r) ++ live := hperm.mem_iff.mpr (List.mem_append_right _ List.mem_cons_self)
  have hlist : s.list.Is (l.map Chunk.header ++ k.header :: r.map Chunk.header) := by
    have := h.list
    rwa [List.map_append, List.map_cons] at this
  have hsub : ∀ y ∈ l.map Chunk.header ++ k.header :: r.map Chunk.header,
      y ∈ ((l ++ k :: r) ++ live).map Chunk.header := by
    intro y hy
    rw [List.map_append, List.map_append, List.map_cons]
    exact List.mem_append_left _ hy
  obtain ⟨hp, hn⟩ := State.link_pointers hlist hsub
  obtain ⟨hlog, hheaders, -⟩ := s.removeFromFreeList_kept k.header
  refine h.relink hperm hlog hheaders ?_ (fun c hc f => ?_) fun c hc => h.free c ?_
  · rw [List.map_append]
    exact State.removeFromFreeList_list h.heads hlist hsub
  · exact State.removeFromFreeList_other h.heads hp hn (mem_heads hk) (mem_heads hc)
  · rcases List.mem_append.mp hc with hc | hc
    · exact List.mem_append_left _ hc
    · exact List.mem_append_right _ (List.mem_cons_of_mem _ hc)

/-- The chunk joins the list.  The flag must be set before: the walk takes the chunk for a free one
    from now on. -/
theorem link (h : Inv s spare frees live) (hk : k ∈ live) (hfree : s.field k.header .isFree = 1) :
    Inv (s.addToFreeList k.header) spare (frees ++ [k]) (live.erase k) := by
  have hperm : (frees ++ live).Perm ((frees ++ [k]) ++ live.erase k) := by
    rw [List.append_assoc]
    exact List.Perm.append_left frees (List.perm_cons_erase hk)
  have hkh := mem_heads (List.mem_append_right frees hk)
  have hsub : ∀ y ∈ frees.map Chunk.header, y ∈ (frees ++ live).map Chunk.header := by
    intro y hy
    rw [List.map_append]
    exact List.mem_append_left _ hy
  obtain ⟨hlog, hheaders, -⟩ := s.addToFreeList_kept k.header
  refine h.relink hperm hlog hheaders ?_ (fun c hc f => ?_) fun c hc => ?_
  · rw [List.map_append]
    refine State.addToFreeList_list h.heads h.list hsub hkh fun hin => ?_
    have hnodup := h.nodup
    rw [List.map_append, List.nodup_append] at hnodup
    exact hnodup.2.2 _ hin _ (List.mem_map_of_mem hk) rfl
  · exact State.addToFreeList_other h.heads (State.tail_pointer h.list hsub) hkh (mem_heads hc)
  · rcases List.mem_append.mp hc with hc | hc
    · exact h.free c hc
    · rw [List.mem_singleton.mp hc]
      exact hfree

/-- A chunk of the list, and the others. -/
theorem front_perm (l r live : List Chunk) (k : Chunk) :
    ((l ++ k :: r) ++ live).Perm (k :: ((l ++ r) ++ live)) := by
  rw [List.append_assoc, List.append_assoc]
  exact List.perm_middle

/-- The parcels of a chunk of the list, and the others. -/
theorem front_parts (spare : List Region) (l r live : List Chunk) (k : Chunk) :
    (spare ++ ((l ++ k :: r) ++ live).flatMap Chunk.parts).Perm
      (k.head :: k.body :: (spare ++ ((l ++ r) ++ live).flatMap Chunk.parts)) := by
  refine (List.Perm.append_left spare ((front_perm l r live k).flatMap_right _)).trans ?_
  rw [List.flatMap_cons]
  show (spare ++ k.head :: k.body :: ((l ++ r) ++ live).flatMap Chunk.parts).Perm _
  exact List.perm_middle.trans (List.perm_middle.cons _)

/-- With `k'` for `k`, a chunk is `k'` or one of the old ones, with another header than `k`. -/
theorem front_cases (h : Inv s spare (l ++ k :: r) live) {c : Chunk}
    (hc : c ∈ (l ++ k' :: r) ++ live) :
    c = k' ∨ c ∈ (l ++ k :: r) ++ live ∧ c.header ≠ k.header := by
  rcases List.mem_cons.mp ((front_perm l r live k').mem_iff.mp hc) with hc | hc
  · exact .inl hc
  · refine .inr ⟨(front_perm l r live k).mem_iff.mpr (List.mem_cons_of_mem _ hc), fun heq => ?_⟩
    have hnodup := ((front_perm l r live k).map Chunk.header).nodup_iff.mp h.nodup
    exact (List.nodup_cons.mp hnodup).1 (heq ▸ List.mem_map_of_mem hc)

/-- The two writes to the header make it the header of the rest.  The size that is written is that
    of the rest with its header, which fits 16 bits as the size of the whole did. -/
theorem cut_labels (h : Inv s spare frees live) (hk : k ∈ frees ++ live) {n : Nat}
    (hn : n ≤ k.len) :
    ((s.setField k.header .size ((k.cut n).len + sizeofFreeList)).setField k.header .address
      (k.cut n).base).Labels (k.cut n) := by
  have hkh := mem_heads hk
  have hlast : k.base + k.len < 2 ^ 64 := (h.fits (body_mem hk)).2
  have hsmall := h.small k hk
  refine ⟨?_, ?_, ?_⟩
  · show State.field _ k.header .magic = _
    rw [State.field_other h.heads hkh hkh _ _ (by decide),
      State.field_other h.heads hkh hkh _ _ (by decide)]
    exact (h.labels k hk).magic
  · show State.field _ k.header .address = k.base + n
    rw [State.field_setField h.heads hkh hkh, if_pos ⟨rfl, rfl⟩]
    exact Nat.mod_eq_of_lt (Nat.lt_of_le_of_lt (Nat.add_le_add_left hn _) hlast)
  · show State.field _ k.header .size = k.len - n + sizeofFreeList
    rw [State.field_other h.heads hkh hkh _ _ (by decide),
      State.field_setField h.heads hkh hkh, if_pos ⟨rfl, rfl⟩]
    exact Nat.mod_eq_of_lt (Nat.lt_of_le_of_lt (Nat.add_le_add_right (Nat.sub_le _ _) _) hsmall)

/-- The front of a chunk is a parcel apart from its rest and its header.  Header, front and rest:
    where two parcels were there are three, with the same bytes. -/
theorem cut_parcels {runs : List Region} {n : Nat} (hn : n ≤ k.len)
    (h : Parcels runs (spare ++ ((l ++ k :: r) ++ live).flatMap Chunk.parts)) :
    Parcels runs ((⟨k.base, n⟩ :: spare) ++ ((l ++ k.cut n :: r) ++ live).flatMap Chunk.parts) := by
  have hhead : (k.cut n).head = k.head := rfl
  have hbody : (k.cut n).body = ⟨k.base + n, k.len - n⟩ := rfl
  have hcut : [⟨k.base, n⟩, (k.cut n).body].Pairwise Region.Apart := by
    rw [hbody]
    exact List.pairwise_pair.mpr (.inl (Nat.le_refl _))
  have hinside : ∀ q ∈ [⟨k.base, n⟩, (k.cut n).body], q.Within k.body := by
    rw [hbody]
    intro q hq
    rcases List.mem_pair.mp hq with rfl | rfl
    · exact ⟨Nat.le_refl _, Nat.add_le_add_left hn _⟩
    · refine ⟨Nat.le_add_right _ _, ?_⟩
      show k.base + n + (k.len - n) ≤ k.base + k.len
      omega
  have hparts := (h.perm ((front_parts spare l r live k).trans (List.Perm.swap _ _ _))).cut
    hcut hinside
  -- the two parts and the header, as the new chunks have them
  refine hparts.perm
    (List.Perm.trans ?_ (front_parts (⟨k.base, n⟩ :: spare) l r live (k.cut n)).symm)
  rw [hhead]
  exact (List.reverse_perm [k.head, (k.cut n).body, ⟨k.base, n⟩]).append_right _

/-- **The front of a chunk of the list** becomes spare.  The front is taken from the chunk before
    anything is written there, and `place` makes a header of it afterwards. -/
theorem shrink (h : Inv s spare (l ++ k :: r) live) {n : Nat} (hn : n ≤ k.len) :
    Inv ((s.setField k.header .size ((k.cut n).len + sizeofFreeList)).setField k.header .address
      (k.cut n).base) (⟨k.base, n⟩ :: spare) (l ++ k.cut n :: r) live := by
  have hk : k ∈ (l ++ k :: r) ++ live := (front_perm l r live k).mem_iff.mpr List.mem_cons_self
  have hkh := mem_heads hk
  -- only the size and the address of the chunk that is cut have changed
  have hother : ∀ c ∈ (l ++ k :: r) ++ live, ∀ f, f ≠ .size → f ≠ .address →
      ((s.setField k.header .size ((k.cut n).len + sizeofFreeList)).setField k.header .address
        (k.cut n).base).field c.header f = s.field c.header f := by
    intro c hc f hsize haddress
    rw [State.field_other h.heads hkh (mem_heads hc) _ _ haddress,
      State.field_other h.heads hkh (mem_heads hc) _ _ hsize]
  have hmap : (l ++ k.cut n :: r).map Chunk.header = (l ++ k :: r).map Chunk.header := by
    rw [List.map_append, List.map_append, List.map_cons, List.map_cons]
    rfl
  refine ⟨?_, ?_, ?_, ?_, cut_parcels hn h.parcels, ?_, h.log⟩
  · rw [hmap]
    refine h.list.congr rfl rfl fun y hy => ?_
    obtain ⟨c, hc, rfl⟩ := List.mem_map.mp hy
    have hc' := List.mem_append_left live hc
    exact ⟨hother c hc' _ (by decide) (by decide), hother c hc' _ (by decide) (by decide)⟩
  · intro c hc
    have hc' : c.header ∈ (l ++ k :: r).map Chunk.header := hmap ▸ List.mem_map_of_mem hc
    obtain ⟨d, hd, hdc⟩ := List.mem_map.mp hc'
    rw [← hdc, hother d (List.mem_append_left _ hd) _ (by decide) (by decide)]
    exact h.free d hd
  · intro c hc
    rcases h.front_cases hc with rfl | ⟨hc, hne⟩
    · exact h.cut_labels hk hn
    · refine (h.labels c hc).congr fun f _ => ?_
      rw [State.field_setField h.heads hkh (mem_heads hc), if_neg fun hc' => hne hc'.1,
        State.field_setField h.heads hkh (mem_heads hc), if_neg fun hc' => hne hc'.1]
  · intro c hc
    rcases h.front_cases hc with rfl | ⟨hc, -⟩
    · exact Nat.lt_of_le_of_lt (Nat.add_le_add_right (Nat.sub_le _ _) _) (h.small k hk)
    · exact h.small c hc
  · intro x hx
    obtain ⟨c, hc, hcx⟩ := h.headers x hx
    rcases List.mem_cons.mp ((front_perm l r live k).mem_iff.mp hc) with rfl | hc
    · exact ⟨c.cut n, (front_perm l r live (c.cut n)).mem_iff.mpr List.mem_cons_self, hcx⟩
    · exact ⟨c, (front_perm l r live (k.cut n)).mem_iff.mpr (List.mem_cons_of_mem _ hc), hcx⟩

/-- A region is cut into a header, a chunk, and a rest. -/
theorem cut_parts {a n m size : Nat} (hsize : n + sizeofFreeList + m ≤ size) :
    [Chunk.head ⟨a, a + sizeofFreeList, n⟩, Chunk.body ⟨a, a + sizeofFreeList, n⟩,
        ⟨a + (n + sizeofFreeList), m⟩].Pairwise Region.Apart ∧
      ∀ p ∈ [Chunk.head ⟨a, a + sizeofFreeList, n⟩, Chunk.body ⟨a, a + sizeofFreeList, n⟩,
        ⟨a + (n + sizeofFreeList), m⟩], p.Within ⟨a, size⟩ := by
  have hhead : Chunk.head ⟨a, a + sizeofFreeList, n⟩ = ⟨a, sizeofFreeList⟩ := rfl
  have hbody : Chunk.body ⟨a, a + sizeofFreeList, n⟩ = ⟨a + sizeofFreeList, n⟩ := rfl
  rw [hhead, hbody]
  simp only [List.pairwise_cons, List.mem_cons, List.not_mem_nil, or_false, forall_eq_or_imp,
    forall_eq, false_imp_iff, implies_true, List.Pairwise.nil, and_true, Region.Apart, Region.Within]
  omega

/-- **A spare region** becomes a header, its chunk, and a rest.  The three parts are cut from one
    region, which was spare, so no other parcel is damaged.  The size that is recorded is cut to 16
    bits, and must still be that of the chunk. -/
theorem place {a n m size : Nat} (h : Inv s (⟨a, size⟩ :: spare) frees live)
    (hsize : n + sizeofFreeList + m ≤ size) (hsmall : n + sizeofFreeList < 2 ^ 16) (isFree : Bool)
    {totalSize : Nat} (htotal : totalSize % 2 ^ 16 = n + sizeofFreeList) (memSize : Nat) :
    Inv ((s.clearHeader a).initFreeList a isFree totalSize memSize (a + sizeofFreeList))
      (⟨a + (n + sizeofFreeList), m⟩ :: spare) frees (⟨a, a + sizeofFreeList, n⟩ :: live) := by
  obtain ⟨hapart, hin⟩ := cut_parts (a := a) hsize
  obtain ⟨h0, hqend⟩ := h.fits (List.mem_append_left _ List.mem_cons_self)
  have hin0 : (freeList.region a).Within ⟨a, size⟩ := hin _ List.mem_cons_self
  have hfit : a + sizeofFreeList < 2 ^ 64 := Nat.lt_of_le_of_lt hin0.2 hqend
  obtain ⟨k, hk⟩ : ∃ k : Chunk, k = ⟨a, a + sizeofFreeList, n⟩ := ⟨_, rfl⟩
  have hka : a = k.header := by rw [hk]
  have hperm : (k :: (frees ++ live)).Perm (frees ++ k :: live) := List.perm_middle.symm
  rw [← hk] at hapart hin ⊢
  have hframe := s.newHeader_sameOff hfit isFree totalSize memSize (a + sizeofFreeList)
  obtain ⟨hmagic, haddress, hsz⟩ :=
    (s.clearHeader a).initFreeList_fields h0 hfit isFree totalSize memSize (a + sizeofFreeList)
  obtain ⟨hhead, htail, hlog, hheaders⟩ :=
    s.newHeader_kept a isFree totalSize memSize (a + sizeofFreeList)
  generalize (s.clearHeader a).initFreeList a isFree totalSize memSize (a + sizeofFreeList) = s'
    at hframe hmagic haddress hsz hhead htail hlog hheaders ⊢
  -- the other headers lie in other parcels
  have hold : Inv { s' with headers := s.headers } (⟨a, size⟩ :: spare) frees live := by
    refine h.frame hhead htail hlog rfl fun c hc f => ?_
    have hc' : c.head.Apart ⟨a, size⟩ := by
      refine (h.parcels.others (List.mem_append_right _ ?_)).symm
      exact List.mem_flatMap.mpr ⟨c, hc, List.mem_cons_self⟩
    exact Layout.get_sameOff hframe (Nat.le_of_lt (h.fits (head_mem hc)).2)
      (hc'.within ⟨Nat.le_refl _, Nat.le_refl _⟩ hin0) f
  refine ⟨hold.list, hold.free, ?_, ?_, ?_, ?_, hold.log⟩
  · intro c hc
    rcases List.mem_cons.mp (hperm.mem_iff.mpr hc) with rfl | hc
    · rw [hk]
      exact ⟨hmagic, haddress.trans (Nat.mod_eq_of_lt hfit), hsz.trans htotal⟩
    · exact (hold.labels c hc).congr fun _ _ => rfl
  · intro c hc
    rcases List.mem_cons.mp (hperm.mem_iff.mpr hc) with rfl | hc
    · rw [hk]
      exact hsmall
    · exact h.small c hc
  · refine (hold.parcels.cut hapart hin).perm ?_
    have hfront := front_parts (⟨a + (n + sizeofFreeList), m⟩ :: spare) frees [] live k
    rw [List.append_nil, List.append_assoc] at hfront
    exact hfront.symm
  · intro x hx
    rw [hheaders] at hx
    rcases List.mem_cons.mp hx with rfl | hx
    · exact ⟨k, hperm.mem_iff.mp List.mem_cons_self, hka.symm⟩
    · obtain ⟨c, hc, hcx⟩ := h.headers x hx
      exact ⟨c, hperm.mem_iff.mp (List.mem_cons_of_mem _ hc), hcx⟩

/-- **A chunk comes back.** -/
theorem give (h : Inv s spare frees live) (hk : k ∈ live) :
    Inv ((s.setField k.header .isFree 1).addToFreeList k.header) spare (frees ++ [k])
      (live.erase k) := by
  have hkh := mem_heads (List.mem_append_right frees hk)
  refine (h.mark hk 1).link hk ?_
  rw [State.field_setField h.heads hkh hkh, if_pos ⟨rfl, rfl⟩]
  rfl

/-- `FreeMemory` finds the header before the chunk.  This is for a chunk behind its header; one
    whose front was taken is the matter of `State.Found`. -/
theorem freeMemory_eq (h : Inv s spare frees live) (hk : k ∈ live)
    (hbase : k.base = k.header + sizeofFreeList) : s.freeMemory k.base =
      ((s.setField k.header .isFree 1).addToFreeList k.header, .success) := by
  have hmem := List.mem_append_right frees hk
  have h0 := h.heads.nonnull _ (mem_heads hmem)
  have hlt := h.heads.fits _ (mem_heads hmem)
  have hsub : sub64 k.base sizeofFreeList = k.header := by
    rw [hbase, sub64]
    omega
  have hbase0 : k.base ≠ null := by
    rw [hbase]
    exact Nat.ne_of_gt (Nat.lt_of_lt_of_le (by decide) (Nat.le_add_left _ _))
  rw [State.freeMemory, if_neg hbase0, if_neg (by decide)]
  dsimp only
  rw [hsub, if_neg h0, if_neg (not_not.mpr (h.labels k hmem).magic)]

end Inv

end Nearlands.Legacy
