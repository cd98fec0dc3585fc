/-
  Strings of the kernel (`qol/qstring.c`).

  A `QString` has a pointer to its bytes and their number.  The number need not be where the first
  zero byte is: `QolInitString` puts it there, but a slice keeps the bytes behind its end and
  `QolInitStringEx` takes any number.  Loops that look for a zero byte do not end when there is none;
  they return nothing then.

  `QolCopyStringHeap` and `QolCopyStringArena` allocate into the buffer pointer of the destination,
  and return `FALSE` when it is `NULL` after that.  So a refused allocation costs the destination its
  buffer, unless it had none (`copy_law_iff`).
-/
import Nearlands.Lib.Bytes
import Nearlands.Arena

namespace Nearlands.Qol

open Nearlands.Lib

/-- `QString`.  The bound is that of the type: a `u64`. -/
structure QString where
  buffer : Nat
  length : Nat
  length_lt : length < 2 ^ 64
  deriving DecidableEq, Repr

/-- The bytes of a string.  Addresses wrap, as pointers of the source do. -/
def QString.bytes (str : QString) (m : Bytes) : List UInt8 :=
  (List.range str.length).map fun i => m (w64 (str.buffer + i))

/-! ## Zero bytes -/

/-- `while(*p != '\0'){ step; p++; }` The address is cut at each read, and the fuel is the number of
    turns: a loop that has not ended after `2 ^ 64` turns has seen every byte there is. -/
def untilNul {α : Type} (m : Bytes) (step : α → α) : (fuel p : Nat) → α → Option α
  | 0, _, _ => none
  | fuel + 1, p, a => if m (w64 p) = 0 then some a else untilNul m step fuel (p + 1) (step a)

/-- The loop ends at the first zero byte. -/
theorem untilNul_eq {α : Type} (m : Bytes) (step : α → α) : ∀ (fuel p : Nat) (a : α),
    untilNul m step fuel p a =
      if m.strlenUpTo p fuel < fuel then some (step^[m.strlenUpTo p fuel] a) else none
  | 0, _, _ => rfl
  | fuel + 1, p, a => by
    rw [untilNul, Bytes.strlenUpTo]
    by_cases h0 : m (w64 p) = 0
    · rw [if_pos h0, if_pos h0, if_pos (Nat.succ_pos fuel)]
      rfl
    · rw [if_neg h0, if_neg h0, untilNul_eq m step fuel, Function.iterate_succ_apply]
      simp only [Nat.add_lt_add_iff_right]

/-- `QolGetStringLength(string)`.  A null pointer counts as the empty string, as the source has it. -/
def qolGetStringLength (m : Bytes) (string : Nat) : Option Nat :=
  if string = null then some 0 else untilNul m (fun length => w64 (length + 1)) (2 ^ 64) string 0

/-- `QolInitStringEx(str, length)`; a `length` is a `u64`.  The length is taken on trust. -/
def qolInitStringEx (str length : Nat) : QString := ⟨str, w64 length, w64_lt _⟩

/-- `QolInitString(str)`.  This looks for the end, and does not come back where there is none. -/
def qolInitString (m : Bytes) (str : Nat) : Option QString :=
  (qolGetStringLength m str).map (qolInitStringEx str)

/-- `QolSliceString(string, length)`.  The slice shares its bytes with the string: nothing is
    copied, and no zero byte is put behind it. -/
def qolSliceString (string : QString) (length : Nat) : QString :=
  if string.buffer = null then ⟨null, 0, by decide⟩
  else if string.length ≤ length then string
  else qolInitStringEx string.buffer length

/-! ## Copies -/

/-- What a copy returns, and what it leaves. -/
structure Copied where
  result : Bool
  dest : QString
  mem : Bytes

/-- A copy from the allocation on, which has answered `mem`.  The buffer is written into the
    destination before it is known not to be `NULL`, as the source does; everything that is said
    about lost buffers comes from this line. -/
def fillCopy (src dest : QString) (mem : Nat) (m : Bytes) : Copied :=
  let dest := { dest with buffer := mem }
  if dest.buffer = null then ⟨false, dest, m⟩
  else
    let m := m.memcpy dest.buffer src.buffer src.length
    let m := upd m (w64 (dest.buffer + src.length)) 0
    ⟨true, { dest with length := src.length, length_lt := src.length_lt }, m⟩

/-- `QolCopyStringHeap(src, dest)`.  The heap is what it does with a size: the memory it leaves, in
    which it has its records, and its answer. -/
def qolCopyStringHeap (heap : Bytes → Nat → Bytes × Nat) (src dest : QString) (m : Bytes) : Copied :=
  if src.buffer = null then ⟨false, dest, m⟩
  else
    let r := heap m (w64 (src.length + 1))
    fillCopy src dest r.2 r.1

/-- `QolCopyStringArena(arena, src, dest)`. -/
def qolCopyStringArena (arena : Arena) (src dest : QString) (m : Bytes) : Arena × Copied :=
  if src.buffer = null then (arena, ⟨false, dest, m⟩)
  else
    let r := arena.mmPushMemoryFromArena (w64 (src.length + 1))
    (r.1, fillCopy src dest r.2 m)

variable {src dest : QString} {m m' : Bytes} {mem : Nat}

/-- A copy that fails leaves the destination as it was; one that succeeds leaves a string of the
    same bytes, behind which is a zero byte, and the source as it was.  The bound in `copied` is
    where the length and its zero byte can be asked for without a wrap. -/
structure CopyLaw (src dest : QString) (m : Bytes) (r : Copied) : Prop where
  failed : r.result = false → r.dest = dest
  copied : r.result = true → src.length < 2 ^ 62 → r.dest.length = src.length ∧
    (∀ i < src.length, r.mem (w64 (r.dest.buffer + i)) = m (w64 (src.buffer + i))) ∧
    r.mem (w64 (r.dest.buffer + src.length)) = 0 ∧
    Bytes.SameOn ⟨src.buffer, src.length⟩ m r.mem

/-- The allocator has given new memory, and left the source alone.  Both are what an allocator
    promises: memory that nobody uses, and other memory untouched. -/
structure Granted (src : QString) (m m' : Bytes) (mem : Nat) : Prop where
  apart : Span.Clear ⟨mem, src.length + 1⟩ ⟨src.buffer, src.length⟩
  kept : Bytes.SameOn ⟨src.buffer, src.length⟩ m m'

/-- New memory is filled.  The source is apart from the new memory, so copying does not damage it,
    and the zero byte is behind the copy. -/
theorem fillCopy_granted (hmem : mem ≠ null)
    (hnew : src.length < 2 ^ 62 → Granted src m m' mem) :
    CopyLaw src dest m (fillCopy src dest mem m') := by
  have hfill : fillCopy src dest mem m' = ⟨true, ⟨mem, src.length, src.length_lt⟩,
      upd (m'.memcpy mem src.buffer src.length) (w64 (mem + src.length)) 0⟩ := if_neg hmem
  rw [hfill]
  refine ⟨fun h => absurd h Bool.true_eq_false.mp, fun _ hlen => ?_⟩
  obtain ⟨hapart, hkept⟩ := hnew hlen
  have hclear : Span.Clear ⟨mem, src.length⟩ ⟨src.buffer, src.length⟩ :=
    hapart.mono (k := 0) rfl (Nat.le_succ _) rfl (Nat.le_of_eq (Nat.zero_add _))
  refine ⟨rfl, fun i hi => ?_, upd_same, fun j hj => ?_⟩
  · have hne : w64 (mem + i) ≠ w64 (mem + src.length) := by
      rw [w64, w64]
      omega
    calc upd (m'.memcpy mem src.buffer src.length) (w64 (mem + src.length)) 0 (w64 (mem + i))
        = m'.memcpy mem src.buffer src.length (w64 (mem + i)) := upd_other hne
      _ = m' (w64 (src.buffer + i)) := Bytes.memcpy_at m' (by omega) hclear hi
      _ = m (w64 (src.buffer + i)) := hkept i hi
  · have hne : w64 (src.buffer + j) ≠ w64 (mem + src.length) :=
      (hapart src.length (Nat.lt_succ_self _) j hj).symm
    calc upd (m'.memcpy mem src.buffer src.length) (w64 (mem + src.length)) 0 (w64 (src.buffer + j))
        = m'.memcpy mem src.buffer src.length (w64 (src.buffer + j)) := upd_other hne
      _ = m' (w64 (src.buffer + j)) := Bytes.memcpy_sameOn m' src.buffer hclear j hj
      _ = m (w64 (src.buffer + j)) := hkept j hj

/-- A refused allocation leaves the destination without a buffer.  A destination that had a buffer
    now has none: the copy has failed and changed something. -/
theorem fillCopy_refused : CopyLaw src dest m (fillCopy src dest null m') ↔ dest.buffer = null := by
  have hfill : fillCopy src dest null m' = ⟨false, { dest with buffer := null }, m'⟩ := rfl
  rw [hfill]
  constructor
  · intro h
    exact (congrArg QString.buffer (h.failed rfl)).symm
  · intro h
    refine ⟨fun _ => ?_, fun htrue => absurd htrue Bool.false_ne_true⟩
    dsimp only
    rw [← h]

/-- Without a source nothing happens. -/
theorem copyLaw_none : CopyLaw src dest m ⟨false, dest, m⟩ :=
  ⟨fun _ => rfl, fun h => absurd h Bool.false_ne_true⟩

/-- From the allocation on. -/
theorem fillCopy_iff (hnew : mem ≠ null → src.length < 2 ^ 62 → Granted src m m' mem) :
    CopyLaw src dest m (fillCopy src dest mem m') ↔ mem ≠ null ∨ dest.buffer = null := by
  by_cases hmem : mem = null
  · subst hmem
    rw [fillCopy_refused]
    simp
  · exact iff_of_true (fillCopy_granted hmem (hnew hmem)) (.inl hmem)

/-- **Copies.**  When the allocators give new memory or refuse, either copy does what it should
    exactly when there is no source, the allocation is not refused, or the destination had no
    buffer.  The two hypotheses are what is asked of the allocators; both are met by the heap and
    the arena of this kernel.  The heap is left abstract because its records lie in the same memory
    as the strings. -/
theorem copy_law_iff (heap : Bytes → Nat → Bytes × Nat) (arena : Arena) (src dest : QString)
    (m : Bytes)
    (hheap : (heap m (w64 (src.length + 1))).2 ≠ null → src.length < 2 ^ 62 →
      Granted src m (heap m (w64 (src.length + 1))).1 (heap m (w64 (src.length + 1))).2)
    (harena : (arena.mmPushMemoryFromArena (w64 (src.length + 1))).2 ≠ null →
      src.length < 2 ^ 62 →
      Granted src m m (arena.mmPushMemoryFromArena (w64 (src.length + 1))).2) :
    (CopyLaw src dest m (qolCopyStringHeap heap src dest m) ↔
      src.buffer = null ∨ (heap m (w64 (src.length + 1))).2 ≠ null ∨ dest.buffer = null) ∧
    (CopyLaw src dest m (qolCopyStringArena arena src dest m).2 ↔
      src.buffer = null ∨ (arena.mmPushMemoryFromArena (w64 (src.length + 1))).2 ≠ null ∨
        dest.buffer = null) := by
  rw [qolCopyStringHeap, qolCopyStringArena]
  by_cases hsrc : src.buffer = null
  · rw [if_pos hsrc, if_pos hsrc]
    exact ⟨iff_of_true copyLaw_none (.inl hsrc), iff_of_true copyLaw_none (.inl hsrc)⟩
  · rw [if_neg hsrc, if_neg hsrc]
    simp only [hsrc, false_or]
    exact ⟨fillCopy_iff hheap, fillCopy_iff harena⟩

/-- Two bytes at an address that is not `NULL`. -/
def two : QString := qolInitStringEx 0x1000 2

/-- A byte somewhere else. -/
def one : QString := qolInitStringEx 0x3000 1

/-- Copied into the heap, and into an arena with room for them and the zero byte. -/
theorem copy_two :
    CopyLaw two one (fun _ => 7) (qolCopyStringHeap (fun m _ => (m, 0x4000)) two one fun _ => 7) ∧
    CopyLaw two one (fun _ => 7) (qolCopyStringArena ⟨0x2000, 3, 1, 0⟩ two one fun _ => 7).2 := by
  obtain ⟨hheap, harena⟩ := copy_law_iff (fun m _ => (m, 0x4000)) ⟨0x2000, 3, 1, 0⟩ two one (fun _ => 7)
    (fun _ _ => ⟨Span.Apart.clear (by decide), fun _ _ => rfl⟩)
    (fun _ _ => ⟨Span.Apart.clear (by decide), fun _ _ => rfl⟩)
  exact ⟨hheap.mpr (.inr (.inl (by decide))), harena.mpr (.inr (.inl (by decide)))⟩

/-- **The buffer that is lost.**  A heap that refuses, and an arena with two bytes left. -/
theorem copy_loses_buffer :
    ¬ CopyLaw two one (fun _ => 7) (qolCopyStringHeap (fun m _ => (m, null)) two one fun _ => 7) ∧
    ¬ CopyLaw two one (fun _ => 7) (qolCopyStringArena ⟨0x2000, 2, 1, 0⟩ two one fun _ => 7).2 :=
  ⟨fun h => absurd (h.failed (by decide)) (by decide),
    fun h => absurd (h.failed (by decide)) (by decide)⟩

end Nearlands.Qol
