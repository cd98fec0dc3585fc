/-
  The lock of the legacy heap.

  `MmAllocateGeneralMemory` leaves the lock free on each way out.  `MmFreeGeneralMemory` leaves it
  free when there is a header before the pointer (`State.HasHeader`), and held when there is none:
  then no further call comes back.  Between the calls of a run memory may change in any way, and
  the page allocator may answer anything.
-/
import Nearlands.Legacy.Links
import Nearlands.Lib.Trace

namespace Nearlands.Legacy

open Nearlands.Lib

/-- There is a header before the pointer, as far as `FreeMemory` looks.  Two bytes of memory
    decide. -/
def State.HasHeader (s : State) (address : Nat) : Prop :=
  address ≠ null ∧ sub64 address sizeofFreeList ≠ null ∧
    s.field (sub64 address sizeofFreeList) .magic = freeListHeaderMagic

/-- What happens in a run: calls with any arguments, and writes to memory.  Nothing at all is asked
    of the arguments, nor of what is written. -/
inductive HeapCall
  | alloc (allocSize : Nat) (pages : Nat → Nat)
  | free (address : Nat)
  | write (mem : Bytes)

namespace HeapCall

/-- What a call leaves, if it comes back. -/
def run (s : State) : HeapCall → Option State
  | .alloc allocSize pages => (s.mmAllocateGeneralMemory pages allocSize).map Prod.fst
  | .free address => (s.mmFreeGeneralMemory address).map Prod.fst
  | .write mem => some { s with mem := mem }

/-- The condition of a call.  Only a free can leave the lock held. -/
def Meets (s : State) : HeapCall → Prop
  | .alloc _ _ => True
  | .free address => s.HasHeader address
  | .write _ => True

end HeapCall

/-- The start of a run; `page` is what the page allocator answered. -/
def booted (mem : Bytes) (page : Nat) : State := ((State.zero mem).mmInitGeneralAllocator page).1

variable {s s' : State}

/-! ## One call -/

/-- The lock can be taken when it is free. -/
theorem acquires_iff (s : State) :
    (∃ t, s.keAcquireSpinLock = some t) ↔ s.allocSpinLock = false := by
  rw [State.keAcquireSpinLock]
  cases s.allocSpinLock <;> simp

/-- `FreeMemory` succeeds when it finds a header, and does not touch the lock. -/
theorem freeMemory_spec (s : State) (address : Nat) :
    ((s.freeMemory address).2.nrSuccess = true ↔ s.HasHeader address) ∧
      (s.freeMemory address).1.allocSpinLock = s.allocSpinLock := by
  rw [State.freeMemory, State.HasHeader]
  dsimp only
  by_cases h0 : address = null
  · rw [if_pos h0]
    exact ⟨⟨fun h => absurd h Bool.false_ne_true, fun h => absurd h0 h.1⟩, rfl⟩
  rw [if_neg h0, if_neg (by decide)]
  by_cases hh : sub64 address sizeofFreeList = null
  · rw [if_pos hh]
    exact ⟨⟨fun h => absurd h Bool.false_ne_true, fun h => absurd hh h.2.1⟩, rfl⟩
  rw [if_neg hh]
  by_cases hm : s.field (sub64 address sizeofFreeList) .magic = freeListHeaderMagic
  · rw [if_neg (not_not.mpr hm), State.addToFreeList_eq]
    exact ⟨⟨fun _ => ⟨h0, hh, hm⟩, fun _ => rfl⟩, rfl⟩
  · rw [if_pos hm]
    exact ⟨⟨fun h => absurd h Bool.false_ne_true, fun h => absurd h.2.2 hm⟩, rfl⟩

/-- An allocation that comes back took the lock, and left it free.  Whatever the walk or the page
    allocator did in between. -/
theorem alloc_lock {pages : Nat → Nat} {allocSize p : Nat}
    (h : s.mmAllocateGeneralMemory pages allocSize = some (s', p)) :
    s.allocSpinLock = false ∧ s'.allocSpinLock = false := by
  rw [State.mmAllocateGeneralMemory] at h
  obtain ⟨t, hlock, h⟩ := Option.bind_eq_some_iff.mp h
  obtain ⟨cur, -, h⟩ := Option.bind_eq_some_iff.mp h
  obtain ⟨rfl, -⟩ := Prod.mk.inj (Option.some.inj h)
  exact ⟨(acquires_iff s).mp ⟨t, hlock⟩, rfl⟩

/-- A free that comes back took the lock, and left it free if there was a header. -/
theorem free_lock {address : Nat} {status : NearStatus}
    (h : s.mmFreeGeneralMemory address = some (s', status)) :
    s.allocSpinLock = false ∧ (s'.allocSpinLock = false ↔ s.HasHeader address) := by
  rw [State.mmFreeGeneralMemory] at h
  obtain ⟨t, hlock, h⟩ := Option.bind_eq_some_iff.mp h
  have hfree := (acquires_iff s).mp ⟨t, hlock⟩
  rw [State.keAcquireSpinLock, hfree, if_neg Bool.false_ne_true] at hlock
  obtain rfl := Option.some.inj hlock
  obtain ⟨hstatus, hkeeps⟩ := freeMemory_spec { s with allocSpinLock := true } address
  refine ⟨hfree, ?_⟩
  dsimp only at h
  by_cases hok : (State.freeMemory { s with allocSpinLock := true } address).2.nrSuccess = true
  · rw [if_pos hok] at h
    obtain ⟨rfl, -⟩ := Prod.mk.inj (Option.some.inj h)
    exact ⟨fun _ => hstatus.mp hok, fun _ => rfl⟩
  · rw [if_neg hok] at h
    rw [Option.some.inj h] at hkeeps hok hstatus
    rw [hkeeps]
    exact ⟨fun hc => absurd hc.symm Bool.false_ne_true, fun hc => absurd (hstatus.mpr hc) hok⟩

/-- **A call** leaves the lock free when it was free and the call meets its condition.  The
    hypothesis is that the call comes back; a call on a held lock never does. -/
theorem call_lock {e : HeapCall} (h : e.run s = some s') :
    s'.allocSpinLock = false ↔ s.allocSpinLock = false ∧ e.Meets s := by
  cases e with
  | alloc allocSize pages =>
    obtain ⟨⟨t, p⟩, hcall, rfl⟩ := Option.map_eq_some_iff.mp h
    obtain ⟨hbefore, hafter⟩ := alloc_lock hcall
    exact ⟨fun _ => ⟨hbefore, trivial⟩, fun _ => hafter⟩
  | free address =>
    obtain ⟨⟨t, status⟩, hcall, rfl⟩ := Option.map_eq_some_iff.mp h
    obtain ⟨hbefore, hafter⟩ := free_lock hcall
    exact hafter.trans ⟨fun h => ⟨hbefore, h⟩, fun h => h.2⟩
  | write mem =>
    obtain rfl := Option.some.inj h
    exact ⟨fun h => ⟨h, trivial⟩, fun h => h.1⟩

/-! ## Runs -/

/-- Init leaves the lock free. -/
theorem booted_lock (mem : Bytes) (page : Nat) : (booted mem page).allocSpinLock = false := by
  rw [booted, State.mmInitGeneralAllocator]
  dsimp only
  split <;> rfl

/-- **The lock is free**, and can be taken, behind the runs whose calls all meet their condition,
    and behind no other.  The runs are those whose calls come back.  From left to right: a call that
    did not meet its condition would have left the lock held, and no later call would have come back
    to free it. -/
theorem lock_free_iff (mem : Bytes) (page : Nat) {es : List HeapCall}
    (h : Trace (fun s e s' => e.run s = some s') (booted mem page) es s) :
    s.allocSpinLock = false ∧ (∃ t, s.keAcquireSpinLock = some t) ↔
      Trace (fun s e s' => e.Meets s ∧ e.run s = some s') (booted mem page) es s := by
  rw [acquires_iff, and_self]
  induction h with
  | start => exact ⟨fun _ => .start, fun _ => booted_lock mem page⟩
  | @snoc es s s' e h hs ih =>
    rw [call_lock hs, ih]
    constructor
    · rintro ⟨ht, hmeets⟩
      exact ht.snoc ⟨hmeets, hs⟩
    · rintro (_ | @⟨_, s'', _, _, ht, hmeets, _⟩)
      have hrun := ht.mono fun _ _ _ hs => hs.2
      obtain rfl : s = s'' := h.unique (fun _ _ _ _ h1 h2 => Option.some.inj (h1.symm.trans h2)) hrun
      exact ⟨ht, hmeets⟩

/-- A chunk is handed out and freed. -/
theorem pair_lock_free :
    ∃ s, Trace (fun s e s' => HeapCall.run s e = some s') (booted (fun _ => 0) 0x1000)
        [.free 0x1027, .alloc 16 fun _ => null] s ∧
      s.allocSpinLock = false ∧ ∃ t, s.keAcquireSpinLock = some t := by
  have h1 : (HeapCall.run (booted (fun _ => 0) 0x1000) (.alloc 16 fun _ => null)).map
      (fun s => s.field 0x1000 .magic) = some freeListHeaderMagic := by decide +kernel
  have h2 : ((HeapCall.run (booted (fun _ => 0) 0x1000) (.alloc 16 fun _ => null)).bind fun s =>
      HeapCall.run s (.free 0x1027)).isSome = true := by decide +kernel
  obtain ⟨s1, hs1, hmagic⟩ := Option.map_eq_some_iff.mp h1
  rw [hs1, Option.bind_some] at h2
  obtain ⟨s2, hs2⟩ := Option.isSome_iff_exists.mp h2
  have hheader : HeapCall.Meets s1 (.free 0x1027) := ⟨by decide, by decide, hmagic⟩
  refine ⟨s2, (Trace.start.snoc hs1).snoc hs2, ?_⟩
  exact (lock_free_iff _ _ ((Trace.start.snoc hs1).snoc hs2)).mpr
    ((Trace.start.snoc ⟨trivial, hs1⟩).snoc ⟨hheader, hs2⟩)

/-- `NULL` is freed, and the lock stays held. -/
theorem null_holds_lock :
    ¬ ∀ mem page es s, Trace (fun s e s' => HeapCall.run s e = some s') (booted mem page) es s →
      s.allocSpinLock = false ∧ ∃ t, s.keAcquireSpinLock = some t := by
  intro hall
  have h1 : (HeapCall.run (booted (fun _ => 0) 0x1000) (.free null)).map
      (fun s => s.allocSpinLock) = some true := by decide +kernel
  obtain ⟨s, hs, hheld⟩ := Option.map_eq_some_iff.mp h1
  have hfree := (hall _ _ _ s (Trace.start.snoc hs)).1
  rw [hheld] at hfree
  exact absurd hfree.symm Bool.false_ne_true

end Nearlands.Legacy
