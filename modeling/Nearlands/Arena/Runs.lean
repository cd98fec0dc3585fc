/-
  Runs of one arena over the heap.

  The heap answers an allocation with new memory or `NULL`, frees what it handed out and refuses
  `NULL`; the calls made to it are logged, and what the arena has is what is held after them.

  A pointer from a push should lie in memory the arena has, and a destroyed arena should answer
  `NULL`.  `MmDestroyArena` keeps the status of the free, which is 0 on success, in a boolean: when
  the free succeeds it reports failure and leaves the arena as it was.  So an arena keeps its
  promises exactly until it is destroyed with memory in it (`lifetime_iff`).
-/
import Nearlands.Arena
import Nearlands.Lib.AllocLog
import Nearlands.Lib.Trace

namespace Nearlands.Arena

open Nearlands.Lib Nearlands.Lib.AllocLog

/-! ## The system -/

/-- The arena, and the calls made to the heap for it.  The log is not part of the arena; it stands
    for the heap, which knows what was given back. -/
structure Sys where
  arena : Arena
  memLog : List AllocCall

/-- A call, with its argument, what the heap answered, and what it returned.  Results are in the
    history, so that a statement about a run can speak of pointers handed out before. -/
inductive Event
  | create (size mem : Nat)
  | push (size result : Nat)
  | pop (size : Nat)
  | reset
  | destroy (status : NearStatus) (result : Bool)

/-- The address is that of memory held.  The arena has it in the sense of the heap: it was answered
    and has not been freed. -/
def Sys.Has (s : Sys) (base : Nat) : Prop := ∃ r ∈ held s.memLog, r.base = base

/-- What `MmFreeGeneralMemory` may return: it refuses `NULL`, and frees what it handed out; other
    addresses it may take for either.  These are the two ends of its body; what it does with a live
    allocation is studied in `Heap`. -/
structure Sys.Frees (s : Sys) (address : Nat) (status : NearStatus) : Prop where
  null : address = null → status = .invalidAddress
  live : s.Has address → status = .success

/-- The calls to the heap after a free with this status. -/
def Sys.freeLog (s : Sys) (status : NearStatus) : List AllocCall :=
  if status.nrSuccess then .give s.arena.base :: s.memLog else s.memLog

/-- One call.  An arena may be created again over memory it still has, as nothing in the source
    forbids it; the old memory is then lost to it, and still held in the log. -/
inductive Step : Sys → Event → Sys → Prop
  | create {s : Sys} {size mem : Nat} : size < 2 ^ 64 → Good (.take mem size :: s.memLog) →
      Step s (.create size mem) ⟨(s.arena.mmCreateArena mem size).1, .take mem size :: s.memLog⟩
  | push {s : Sys} {size : Nat} : size < 2 ^ 64 →
      Step s (.push size (s.arena.mmPushMemoryFromArena size).2)
        ⟨(s.arena.mmPushMemoryFromArena size).1, s.memLog⟩
  | pop {s : Sys} {size : Nat} : size < 2 ^ 64 →
      Step s (.pop size) ⟨s.arena.mmPopMemoryFromArena size, s.memLog⟩
  | reset {s : Sys} : Step s .reset ⟨s.arena.mmResetArena, s.memLog⟩
  | destroy {s : Sys} {status : NearStatus} : s.Frees s.arena.base status →
      Step s (.destroy status (s.arena.mmDestroyArena status).2)
        ⟨(s.arena.mmDestroyArena status).1, s.freeLog status⟩

/-- An arena without memory, as `memset` leaves it. -/
structure Started (s : Sys) : Prop where
  base : s.arena.base = null
  log : s.memLog = []

/-- What a call owes its caller.  A pointer from a push lies in memory the arena has (at its end, if
    nothing is left), and so do its bytes, unless `used + size` wraps.  A destruction that gave the
    memory back says so and clears the arena.  The two promises are those of the interface: memory
    that a push answers is there, and an arena that is destroyed is empty. -/
def Keeps (s : Sys) (s' : Sys) : Event → Prop
  | .push size p => p ≠ null → ∃ r ∈ held s.memLog, r.base ≤ p ∧ p ≤ r.base + r.size ∧
      (s.arena.used + size < 2 ^ 64 → (Region.mk p size).Within r)
  | .destroy _ result => s.Has s.arena.base → result = true ∧ s'.arena.base = null ∧
      s'.arena.size = 0 ∧ ∀ size, (s'.arena.mmPushMemoryFromArena size).2 = null
  | _ => True

/-- The arena is destroyed while it has memory.  A condition on the state before the call; what the
    call answers does not come into it. -/
def Sys.Destroys (s : Sys) : Event → Prop
  | .destroy _ _ => s.Has s.arena.base
  | _ => False

/-! ## The invariant -/

/-- The arena has no memory, or has what it says it has.  The three parts are what `push_iff` needs
    of the state. -/
structure Inv (s : Sys) : Prop where
  good : Good s.memLog
  memory : s.arena.base ≠ null → ⟨s.arena.base, s.arena.size⟩ ∈ held s.memLog
  used : s.arena.base ≠ null → s.arena.used ≤ s.arena.size

/-- The arena that `memset` leaves has no memory. -/
theorem Inv.start {s : Sys} (h : Started s) : Inv s where
  good := by rw [h.log]; trivial
  memory := fun h0 => absurd h.base h0
  used := fun h0 => absurd h.base h0

/-- A push moves the top, and nothing else. -/
theorem push_same (a : Arena) (size : Nat) :
    (a.mmPushMemoryFromArena size).1.base = a.base ∧
      (a.mmPushMemoryFromArena size).1.size = a.size ∧
      (a.used ≤ a.size → (a.mmPushMemoryFromArena size).1.used ≤ a.size) := by
  rw [mmPushMemoryFromArena]
  split
  · exact ⟨rfl, rfl, fun h => h⟩
  · split
    · exact ⟨rfl, rfl, fun h => h⟩
    · exact ⟨rfl, rfl, fun _ => Nat.le_of_not_lt ‹_›⟩

/-- A pop lowers the top, and nothing else. -/
theorem pop_same (a : Arena) (size : Nat) :
    (a.mmPopMemoryFromArena size).base = a.base ∧ (a.mmPopMemoryFromArena size).size = a.size ∧
      (a.mmPopMemoryFromArena size).used ≤ a.used := by
  rw [mmPopMemoryFromArena]
  split
  · exact ⟨rfl, rfl, Nat.zero_le _⟩
  · exact ⟨rfl, rfl, Nat.sub_le _ _⟩

/-- An edit of the top below the size. -/
theorem Inv.edit {s : Sys} (h : Inv s) {a : Arena} (hbase : a.base = s.arena.base)
    (hsize : a.size = s.arena.size) (hused : s.arena.used ≤ s.arena.size → a.used ≤ s.arena.size) :
    Inv ⟨a, s.memLog⟩ where
  good := h.good
  memory := by
    rw [hbase, hsize]
    exact h.memory
  used := by
    rw [hbase, hsize]
    exact fun h0 => hused (h.used h0)

/-- An arena without memory is cleared, and reports success. -/
theorem destroy_empty (a : Arena) {status : NearStatus} (h : status ≠ .success) :
    a.mmDestroyArena status = ({ a with size := 0, sizeInpages := 0, base := 0 }, true) := by
  have hst : (!status.nrSuccess) = true := by
    cases status <;> first | rfl | exact absurd rfl h
  rw [mmDestroyArena, hst, if_neg (by decide)]

/-- An arena with memory is left as it is, and failure is reported. -/
theorem destroy_success (a : Arena) : a.mmDestroyArena .success = (a, false) := rfl

/-- Every call but the destruction of an arena with memory keeps the invariant.  A creation gets new
    memory and takes it for its own; the others leave base and size as they are. -/
theorem inv_step {s s' : Sys} {e : Event} (h : Inv s) (hs : Step s e s') (hno : ¬ s.Destroys e) :
    Inv s' := by
  cases hs with
  | @create size mem _ hg =>
    refine ⟨hg, fun h0 => ?_, fun h0 => ?_⟩
    · by_cases hmem : mem = null
      · rw [mmCreateArena, if_pos hmem] at h0
        exact absurd hmem h0
      · rw [mmCreateArena, if_neg hmem, held_take hmem]
        exact List.mem_cons_self
    · by_cases hmem : mem = null
      · rw [mmCreateArena, if_pos hmem] at h0
        exact absurd hmem h0
      · rw [mmCreateArena, if_neg hmem]
        exact Nat.zero_le _
  | @push size _ =>
    obtain ⟨hb, hz, hu⟩ := push_same s.arena size
    exact h.edit hb hz hu
  | @pop size _ =>
    obtain ⟨hb, hz, hu⟩ := pop_same s.arena size
    exact h.edit hb hz (Nat.le_trans hu)
  | reset => exact h.edit rfl rfl fun _ => Nat.zero_le _
  | @destroy status hfree =>
    -- without memory the base is `NULL`, and the heap refuses it
    have hnull : s.arena.base = null := by
      by_contra h0
      exact hno ⟨_, h.memory h0, rfl⟩
    have hst := hfree.null hnull
    subst hst
    rw [destroy_empty s.arena (by decide)]
    exact ⟨h.good, fun h0 => absurd rfl h0, fun h0 => absurd rfl h0⟩

/-! ## Lifetime -/

/-- A push keeps its promise.  If nothing is left, the pointer may be the end of the memory, with no
    byte behind it. -/
theorem Inv.push {s : Sys} (h : Inv s) {size : Nat}
    (hp : (s.arena.mmPushMemoryFromArena size).2 ≠ null) :
    ∃ r ∈ held s.memLog, r.base ≤ (s.arena.mmPushMemoryFromArena size).2 ∧
      (s.arena.mmPushMemoryFromArena size).2 ≤ r.base + r.size ∧
      (s.arena.used + size < 2 ^ 64 →
        (Region.mk (s.arena.mmPushMemoryFromArena size).2 size).Within r) := by
  obtain ⟨h0, hle, hres⟩ := push_cases hp
  have hmem := h.memory h0
  have hused := h.used h0
  have hfits := (h.good.fits _ hmem).2
  dsimp only at hfits
  rw [hres]
  dsimp only
  rw [w64_of_lt (by omega)]
  refine ⟨_, hmem, Nat.le_add_right _ _, Nat.add_le_add_left hused _, fun hlt => ?_⟩
  rw [w64_of_lt hlt] at hle
  rw [Region.Within]
  dsimp only
  omega

/-- **Arenas and their memory.**  In every run in which no arena with memory was destroyed, the next
    call keeps its promise exactly when it does not destroy an arena with memory.  The destruction
    of an arena with memory fails its promise whenever it happens, because the status of a
    successful free is 0 and is kept as `FALSE`: the function reports failure and keeps base and
    size, and the next push hands out memory that has gone back to the heap.  Every other call keeps
    its promise, by the invariant; and destroying an arena that has none is harmless. -/
theorem lifetime_iff {s₀ : Sys} (h0 : Started s₀) {h : List Event} {s s' : Sys}
    (run : Trace (fun s e s' => Step s e s' ∧ ¬ s.Destroys e) s₀ h s) {e : Event}
    (hs : Step s e s') : Keeps s s' e ↔ ¬ s.Destroys e := by
  have hi : Inv s := run.inv (I := Inv) (Inv.start h0) fun _ _ _ hi hs => inv_step hi hs.1 hs.2
  cases hs with
  | create => exact ⟨fun _ h => h, fun _ => trivial⟩
  | push _ => exact ⟨fun _ h => h, fun _ hp => hi.push hp⟩
  | pop => exact ⟨fun _ h => h, fun _ => trivial⟩
  | reset => exact ⟨fun _ h => h, fun _ => trivial⟩
  | @destroy status hfree =>
    refine ⟨fun hkeeps hmem => ?_, fun hno hmem => absurd hmem hno⟩
    -- the free succeeds, and so failure is reported
    obtain ⟨hresult, -⟩ := hkeeps hmem
    rw [hfree.live hmem, destroy_success] at hresult
    cases hresult

/-! ## Two runs -/

/-- An arena of 100 bytes. -/
def started : Sys := ⟨zero, []⟩

def created : Sys := ⟨(zero.mmCreateArena 0x1000 100).1, [.take 0x1000 100]⟩

theorem started_started : Started started := ⟨rfl, rfl⟩

theorem step_created : Step started (.create 100 0x1000) created := .create (by decide) (by decide)

/-- A push into it keeps its promise. -/
theorem lifetime_first : Keeps created ⟨(created.arena.mmPushMemoryFromArena 10).1, created.memLog⟩
    (.push 10 0x1000) :=
  (lifetime_iff started_started (Trace.start.snoc ⟨step_created, fun h => h⟩)
    (.push (by decide))).mpr fun h => h

/-- **A destroyed arena hands out memory.**  The memory goes back to the heap, the destruction
    reports failure, and the next push answers a pointer into memory the arena no longer has. -/
theorem destroyed_arena_hands_out : ∃ s₀ s₁ s₂ s₃, Started s₀ ∧ Step s₀ (.create 100 0x1000) s₁ ∧
    Step s₁ (.destroy .success false) s₂ ∧ s₂.arena.base ≠ null ∧ s₂.arena.size ≠ 0 ∧
    Step s₂ (.push 10 0x1000) s₃ ∧ held s₂.memLog = [] := by
  have hfree : created.Frees 0x1000 .success := ⟨nofun, fun _ => rfl⟩
  exact ⟨_, _, _, _, started_started, step_created, .destroy hfree, by decide, by decide,
    .push (by decide), by decide⟩

end Nearlands.Arena
