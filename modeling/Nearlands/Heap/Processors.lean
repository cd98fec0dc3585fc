/-
  The heap under its spin lock.

  `MmAllocateGeneralMemory` and `MmFreeGeneralMemory` do all their work between
  `KeAcquireSpinLock(&allocSpinLock)`, which tests and sets the flag until it was clear, and
  `KeReleaseSpinLock(&allocSpinLock)`, which clears it; every path of both functions leaves through
  the release.  Any number of processors call them.  How the compiled code of a call is cut into
  steps is not fixed: the steps are those of any section that, run alone, does what the function
  does (`Implements`).

  Nothing of the study of the heap is lost then.  Every processor could believe that it is alone:
  in every interleaving the calls that have returned, in the order in which they left the lock, are
  calls that ONE processor makes one after the other, each with the answer it gave, and the heap is
  what that processor leaves (`calls_in_lock_order`).

  What callers keep to is `May`, and it has to be kept while calls are under way: an allocation that
  one processor is freeing is still in the log of what is held, so a second processor must not free
  it as well.  `Kept` says that this lasts, whatever the others do in the meantime.
-/
import Nearlands.Heap.Runs
import Nearlands.Lib.Mutex

namespace Nearlands.Heap

open Nearlands.Lib

/-! ## The calls -/

/-- A call; a free is of an allocation, as (pointer, requested size). -/
inductive Ask
  | alloc (allocSize : Nat)
  | free (a : Nat × Nat)
  deriving DecidableEq, Repr

/-- What a call returns. -/
inductive Reply
  | memory (addr : Nat)
  | status (st : NearStatus)

/-- What a call does when it comes back: the page allocator answers with new runs. -/
inductive Does : Ask → State → Reply → State → Prop
  | alloc {s s' : State} {fuel allocSize addr : Nat} {pages : Nat → Nat} :
      Answers (held s.pageLog) pages →
      s.mmAllocateGeneralMemory fuel pages allocSize = some (s', addr) →
      Does (.alloc allocSize) s (.memory addr) s'
  | free {s s' : State} {fuel : Nat} {a : Nat × Nat} {st : NearStatus} :
      s.mmFreeGeneralMemory fuel a.1 = some (s', st) → Does (.free a) s (.status st) s'

/-- The code of the section does what the functions do. -/
def Implements (B : Section State Ask Reply) : Prop :=
  ∀ c s r s', B.Does s c r s' → Does c s r s'

/-- The allocations held after the calls of a log. -/
def heldAfter {ι : Type} : List (ι × Ask × Reply) → List (Nat × Nat)
  | (_, .alloc allocSize, .memory addr) :: log => hold (addr, allocSize) (heldAfter log)
  | (_, .free a, _) :: log => (heldAfter log).erase a
  | (_, .alloc _, .status _) :: log => heldAfter log
  | [] => []

/-- What a call needs: a size that the arithmetic holds, or an allocation that is held. -/
def Ask.Fits (live : List (Nat × Nat)) : Ask → Prop
  | .alloc allocSize => allocSize < 2 ^ 62
  | .free a => a ∈ live

/-- What callers keep to: they free what is held, and what nobody else is freeing. -/
def May {ι Λ : Type} (s : Processors ι State Ask Reply Λ) (c : Ask) : Prop :=
  c.Fits (heldAfter s.log) ∧ ∀ a, c = .free a → ∀ j, (s.place j).call ≠ some c

/-! ## What callers keep to lasts -/

variable {ι Λ : Type}

/-- The calls that are under way still have what they need, each free an allocation of its own. -/
def Kept (s : Processors ι State Ask Reply Λ) : Prop :=
  ∀ i c, (s.place i).call = some c → c.Fits (heldAfter s.log) ∧
    ∀ a, c = .free a → ∀ j, j ≠ i → (s.place j).call ≠ some c

/-- Each call of the log had what it needed. -/
def Lawful : List (ι × Ask × Reply) → Prop
  | [] => True
  | e :: log => e.2.1.Fits (heldAfter log) ∧ Lawful log

/-- A call needs nothing that another one takes. -/
theorem fits_after {i : ι} {c c' : Ask} {r : Reply} {log : List (ι × Ask × Reply)}
    (hc : c.Fits (heldAfter log)) (hne : ∀ a, c' = .free a → c ≠ c') :
    c.Fits (heldAfter ((i, c', r) :: log)) := by
  cases c with
  | alloc n => exact hc
  | free a =>
    cases c' with
    | free b =>
      have hab : a ≠ b := fun h => hne b rfl (by rw [h])
      exact (List.mem_erase_of_ne hab).mpr hc
    | alloc n =>
      cases r with
      | status st => exact hc
      | memory addr =>
        show a ∈ hold (addr, n) (heldAfter log)
        unfold hold
        split
        · exact hc
        · exact List.mem_cons_of_mem _ hc

/-- The calls that are under way, not where they are, is what matters. -/
theorem kept_congr {s t : Processors ι State Ask Reply Λ} (hlog : t.log = s.log)
    (hcall : ∀ j, (t.place j).call = (s.place j).call) (h : Kept s) : Kept t := by
  intro i c hc
  obtain ⟨hfits, hown⟩ := h i c ((hcall i).symm.trans hc)
  exact ⟨hlog ▸ hfits, fun a ha j hj => by rw [hcall j]; exact hown a ha j hj⟩

variable [DecidableEq ι]

/-- The calls after `i` went to `p`. -/
theorem call_goes (s : Processors ι State Ask Reply Λ) (i j : ι) (p : Place Ask Λ) :
    ((s.goes i p).place j).call = if j = i then p.call else (s.place j).call := by
  by_cases h : j = i
  · rw [if_pos h, h, s.place_goes_self]
  · rw [if_neg h, s.place_goes_other h]

variable {B : Section State Ask Reply} {s s' : Processors ι State Ask Reply B.Local}

/-- A call that begins. -/
theorem kept_call {i : ι} {c : Ask} (h : Kept s) (hmay : May s c) :
    Kept (s.goes i (.waits c)) := by
  intro j c' hc'
  rw [call_goes] at hc'
  split at hc'
  · rename_i hji
    obtain rfl : c = c' := Option.some.inj hc'
    refine ⟨hmay.1, fun a ha k hk => ?_⟩
    rw [call_goes, if_neg (hji ▸ hk)]
    exact hmay.2 a ha k
  · obtain ⟨hfits, hown⟩ := h j c' hc'
    refine ⟨hfits, fun a ha k hk => ?_⟩
    rw [call_goes]
    split
    · -- the one that begins frees something else
      intro heq
      obtain rfl : c = c' := Option.some.inj heq
      exact hmay.2 a ha j hc'
    · exact hown a ha k hk

/-- A call that returns. -/
theorem kept_leave {i : ι} {c : Ask} {l : B.Local} {r : Reply} (h : Kept s)
    (hin : s.place i = .inside c l) :
    Kept ({ s.goes i .out with flag := false, log := (i, c, r) :: s.log } :
      Processors ι State Ask Reply B.Local) := by
  have hi : (s.place i).call = some c := by rw [hin]; rfl
  intro j c' hc'
  replace hc' : ((s.goes i .out).place j).call = some c' := hc'
  rw [call_goes] at hc'
  split at hc'
  · exact nomatch hc'
  · rename_i hji
    obtain ⟨hfits, hown⟩ := h j c' hc'
    refine ⟨fits_after hfits fun a ha heq => ?_, fun a ha k hk => ?_⟩
    · exact (h i c hi).2 a ha j hji (heq ▸ hc')
    · show ((s.goes i .out).place k).call ≠ _
      rw [call_goes]
      split
      · exact fun h => nomatch h
      · exact hown a ha k hk

/-- Every turn keeps it. -/
theorem kept_step {e : Turn ι Ask Reply} (h : Kept s ∧ Lawful s.log)
    (hs : Processors.Step B May s e s') : Kept s' ∧ Lawful s'.log := by
  cases hs with
  | call _ hmay => exact ⟨kept_call h.1 hmay, h.2⟩
  | spin => exact h
  | @take i c hwait =>
    have hi : (s.place i).call = some c := by rw [hwait]; rfl
    refine ⟨kept_congr (s := s) rfl (fun j => ?_) h.1, h.2⟩
    show ((s.goes i _).place j).call = _
    rw [call_goes]
    split
    · rename_i hji
      rw [hji, hi]
      rfl
    · rfl
  | @work i c l l' t hin =>
    have hi : (s.place i).call = some c := by rw [hin]; rfl
    refine ⟨kept_congr (s := s) rfl (fun j => ?_) h.1, h.2⟩
    show ((s.goes i _).place j).call = _
    rw [call_goes]
    split
    · rename_i hji
      rw [hji, hi]
      rfl
    · rfl
  | @leave i c l r hin =>
    have hi : (s.place i).call = some c := by rw [hin]; rfl
    exact ⟨kept_leave h.1 hin, (h.1 i c hi).1, h.2⟩

/-! ## The heap is that of a run of single calls -/

/-- One processor makes the calls of a log, one after the other, and each gives the answer that the
    log says. -/
def OneByOne (s₀ : State) (log : List (ι × Ask × Reply)) (t : State) : Prop :=
  Trace (fun s e s' => Does e.2.1 s e.2.2 s') s₀ log t

/-- The event of a run of the heap that a log entry is: the same call, with the pointer that it
    returned or was given. -/
inductive Records : ι × Ask × Reply → Event → Prop
  | alloc {i : ι} {allocSize addr : Nat} :
      Records (i, .alloc allocSize, .memory addr) (.alloc allocSize addr)
  | free {i : ι} {a : Nat × Nat} {st : NearStatus} : Records (i, .free a, .status st) (.free a.1)

omit [DecidableEq ι] in
/-- Sections one after the other are calls one after the other. -/
theorem oneByOne_of_serial (hB : Implements B) {s₀ t : State} {log : List (ι × Ask × Reply)}
    (run : Trace B.Serial s₀ log t) : OneByOne s₀ log t :=
  run.mono fun s e s' h => hB e.2.1 s e.2.2 s' h

omit [DecidableEq ι] in
/-- Calls one after the other that had what they needed are a run of the heap, entry by entry. -/
theorem run_of_oneByOne {s₀ t : State} {log : List (ι × Ask × Reply)} (run : OneByOne s₀ log t)
    (hlaw : Lawful log) :
    ∃ es, List.Forall₂ Records log es ∧ Trace Step ⟨s₀, []⟩ es ⟨t, heldAfter log⟩ := by
  induction run with
  | start => exact ⟨[], .nil, .start⟩
  | @snoc log t t' e _ hstep ih =>
    obtain ⟨i, c, r⟩ := e
    obtain ⟨hfits, hlaw⟩ := hlaw
    obtain ⟨es, hrec, run⟩ := ih hlaw
    cases hstep with
    | alloc hans hres => exact ⟨_, .cons .alloc hrec, run.snoc (.alloc hfits hans hres)⟩
    | free hres => exact ⟨_, .cons .free hrec, run.snoc (.free hfits hres)⟩

/-- **The lock makes the heap safe on any number of processors.**  In every interleaving of their
    steps:

    * at most one processor is inside, and a processor that waits while nobody is inside gets in;
    * the calls that have returned, in the order in which they left, are calls that one processor
      makes one after the other, with the same answers (`OneByOne`), and so they are a run of the
      heap, entry by entry (`Records`); when nobody is inside, the heap is what that run leaves;
    * so allocations that are held share no byte.

    Callers keep to `May`: sizes below `2 ^ 62`, and frees of what is held and nobody else is
    freeing; the page allocator answers with new runs, as `Does` says.  How the code of a call is
    cut into steps is free (`Implements`).  The crux is that the flag is clear exactly while nobody
    is inside: then the steps of the one inside are a call that runs alone. -/
theorem calls_in_lock_order (hB : Implements B) {s₀ : State} (h0 : Started ⟨s₀, []⟩)
    {h : List (Turn ι Ask Reply)} (run : Trace (Processors.Step B May) (.start s₀) h s) :
    (∀ i j, s.Inside i → s.Inside j → i = j) ∧
    (∀ i c, s.place i = .waits c → (∀ j, ¬ s.Inside j) →
      ∃ s', Processors.Step B May s (.take i) s' ∧ s'.Inside i) ∧
    (∃ t, OneByOne s₀ s.log t ∧
      (∃ es, List.Forall₂ Records s.log es ∧ Trace Step ⟨s₀, []⟩ es ⟨t, heldAfter s.log⟩) ∧
      ((∀ i, ¬ s.Inside i) → s.data = t)) ∧
    (heldAfter s.log).Pairwise fun a b => (payload a).Apart (payload b) := by
  have hserial := Processors.serial run
  have hstart : Kept (Processors.start s₀ : Processors ι State Ask Reply B.Local) :=
    fun _ _ h => nomatch h
  have hlaw : Lawful s.log := (run.inv (I := fun s => Kept s ∧ Lawful s.log)
    ⟨hstart, trivial⟩ fun _ _ _ hi hs => kept_step hi hs).2
  obtain ⟨t, hrun, hdata⟩ := hserial.history
  have hone := oneByOne_of_serial hB hrun
  obtain ⟨es, hrec, hcalls⟩ := run_of_oneByOne hone hlaw
  obtain ⟨B, F, hi⟩ := run_inv h0 hcalls
  exact ⟨fun i j => hserial.exclusive, fun i c => hserial.gets_in,
    ⟨t, hone, ⟨es, hrec, hcalls⟩, hdata⟩, hi.payloads_apart⟩

/-- Two processors: the first allocates 100 bytes while the second one spins, and then the second one
    allocates 200.  The two allocations are those of one processor. -/
theorem calls_in_lock_order_two : ∃ h s, Trace
      (Processors.Step (ι := Bool) (Section.atomic Does) May) (.start startedHeap) h s ∧
    heldAfter s.log = [(0x200100, 200), (0x200060, 100)] ∧ (∀ i, ¬ s.Inside i) ∧
    OneByOne startedHeap s.log s.data := by
  have hB : Implements (Section.atomic Does) := fun _ _ _ _ h => Section.atomic_does.mp h
  have hmay : ∀ n < 2 ^ 62, ∀ s : Processors Bool State Ask Reply (Section.atomic Does).Local,
      May s (.alloc n) := fun n hn s => ⟨hn, fun a ha => nomatch ha⟩
  have hdoes : Does (.alloc 100) startedHeap (.memory 0x200060) heapWithOne :=
    .alloc (answers_pagesAt (by decide) (by decide) (by decide) (by decide)) heapWithOne_eq
  have hnext : Does (.alloc 200) heapWithOne (.memory 0x200100) heapWithTwo :=
    .alloc (answers_pagesAt (by decide) (by decide) (by decide) (by decide)) heapWithTwo_eq
  have calls : Trace (Processors.Step (ι := Bool) (Section.atomic Does) May)
      (.start startedHeap) _ _ :=
    Trace.start.snoc (.call (i := false) rfl (hmay 100 (by decide) _))
  have both := calls.snoc (.call (i := true) rfl (hmay 200 (by decide) _))
  have first := ((both.snoc (.take (i := false) rfl rfl)).snoc (.spin (i := true) rfl rfl)).snoc
    (.work (i := false) rfl ⟨rfl, _, hdoes, rfl⟩)
  have second := ((first.snoc (.leave (i := false) rfl rfl)).snoc (.take (i := true) rfl rfl)).snoc
    (.work (i := true) rfl ⟨rfl, _, hnext, rfl⟩)
  have third := second.snoc (.leave (i := true) rfl rfl)
  obtain ⟨-, -, ⟨t, hone, -, hdata⟩, -⟩ := calls_in_lock_order hB startedHeap_started third
  refine ⟨_, _, third, rfl, (and_iff_left_of_imp fun hnone => ?_).mpr fun i hi => ?_⟩
  · rw [hdata hnone]
    exact hone
  · obtain ⟨c, l, hin⟩ := hi
    cases i <;> cases hin

end Nearlands.Heap
