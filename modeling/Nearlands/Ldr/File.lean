/-
  Reading a file (`nearmonia`, `fs/sfs.c`).

  The firmware's `Read` stores what is left of the file, up to the size asked for, at the buffer it
  is given, and moves the position on; `SetPosition` moves it back.  Any call may fail.  The reader
  keeps the buffers the loader has at the time of each `Read`: the local `buffer`, and what it
  allocated.

  `SFsReadFileContent` finds the length by reading in pieces of 16 bytes.  It declares a buffer for
  them and then passes `content`, which is still `NULL`: so every file is first read to the address
  0 (`reads_owned_iff`).  The second reading is right when no call fails (`content_whole`), as
  the length found is 16 too large, and never too small.
-/
import Nearlands.Lib.Bytes
import Nearlands.Types

namespace Nearlands.Ldr

open Nearlands.Lib

/-! ## The firmware -/

/-- An `EFI_FILE_PROTOCOL`, memory, and the calls made so far: their number, and each `Read` with
    the buffers the loader had (newest first).  The list of buffers is the loader's account of what
    it may write to. -/
structure Reader where
  bytes : List UInt8
  position : Nat
  memory : Bytes
  calls : Nat
  owned : List Region
  reads : List (Span × List Region)

namespace Reader

/-- `file->Read(file, &size, dest)`: the size it reports, if it succeeds.  What is stored is what is
    left of the file, so a size may be asked for that the file does not have. -/
def read (ok : Nat → Bool) (s : Reader) (size dest : Nat) : Reader × Option Nat :=
  let s' := { s with calls := s.calls + 1, reads := (⟨dest, size⟩, s.owned) :: s.reads }
  if ok s.calls = false then (s', none)
  else
    let chunk := (s.bytes.drop s.position).take size
    ({ s' with
        memory := s.memory.store dest chunk
        position := s.position + chunk.length }, some chunk.length)

/-- `file->SetPosition(file, position)`. -/
def setPosition (ok : Nat → Bool) (s : Reader) (position : Nat) : Reader × Bool :=
  let s' := { s with calls := s.calls + 1 }
  if ok s.calls = false then (s', false) else ({ s' with position }, true)

/-- `AllocatePool(EfiLoaderData, size, &content)`, where the firmware has the address `pool`.  The
    address is a parameter: the firmware may have any. -/
def allocatePool (ok : Nat → Bool) (pool : Nat) (s : Reader) (size : Nat) : Reader × Option Nat :=
  let s' := { s with calls := s.calls + 1 }
  if ok s.calls = false then (s', none)
  else ({ s' with owned := ⟨pool, size⟩ :: s.owned }, some pool)

/-- `FreePool(content)`. -/
def freePool (s : Reader) (content : Nat) : Reader :=
  { s with owned := s.owned.filter fun r => r.base ≠ content }

end Reader

/-! ## The program -/

/-- The loop that measures the file, with `fuel` turns at most: `content` is `NULL` in it.  The
    pieces are read and dropped; only their sizes are added up, from 16 on. -/
def probe (ok : Nat → Bool) (content : Nat) : Nat → Reader → Nat → Option (Reader × Nat)
  | 0, _, _ => none
  | fuel + 1, s, finalSize =>
    match s.read ok 16 content with
    | (s, none) => some (s, finalSize)
    | (s, some size) =>
      if size = 0 then some (s, finalSize) else probe ok content fuel s (w64 (finalSize + size))

/-- What `SFsReadFileContent` leaves: the pointer it returns, and `*length` if it was written. -/
structure FileContent where
  reader : Reader
  content : Nat
  length : Option Nat

/-- `SFsReadFileContent(file, length)`.  A failure of any call returns `NULL`, but for a failed
    `Read` in the first loop, which ends it like the end of the file does. -/
def sfsReadFileContent (ok : Nat → Bool) (pool : Nat) (s : Reader) (file : Nat) :
    Option FileContent :=
  if file = null then some ⟨s, null, none⟩
  else
    match probe ok null (s.bytes.length + 1) s 16 with
    | none => none
    | some (s, finalSize) =>
      if finalSize = 0 then some ⟨s, null, none⟩
      else
        match s.setPosition ok 0 with
        | (s, false) => some ⟨s, null, none⟩
        | (s, true) =>
          match s.allocatePool ok pool finalSize with
          | (s, none) => some ⟨s, null, none⟩
          | (s, some content) =>
            match s.read ok finalSize content with
            | (s, none) => some ⟨s.freePool content, null, none⟩
            | (s, some finalSize) => some ⟨s, content, some finalSize⟩

/-! ## What it owes -/

/-- Every `Read` went to a buffer of the loader with room for the size asked for.  A buffer of the
    time: what was freed later was still there when it was written. -/
def FileContent.Owned (r : FileContent) : Prop :=
  ∀ e ∈ r.reader.reads, ∃ o ∈ e.2, e.1.Inside o

/-- A buffer that is returned starts with the file, and the length is that of the file.  Where
    `NULL` is returned nothing is promised. -/
def FileContent.Whole (r : FileContent) (bytes : List UInt8) : Prop :=
  r.content ≠ null → r.length = some bytes.length ∧
    ∀ k, ∀ h : k < bytes.length, r.reader.memory (r.content + k) = bytes[k]

/-- The call begins: the loader has the local `buffer`, and nothing was read yet. -/
structure Reader.Opened (s : Reader) : Prop where
  reads : s.reads = []
  owned : ∃ buffer, buffer ≠ null ∧ buffer + 16 ≤ 2 ^ 64 ∧ s.owned = [⟨buffer, 16⟩]

/-! ## Measuring the file -/

variable {ok : Nat → Bool}

/-- A `Read` is logged, and does not change the file or the buffers. -/
theorem Reader.read_spec (ok : Nat → Bool) (s : Reader) (size dest : Nat) :
    (s.read ok size dest).1.reads = (⟨dest, size⟩, s.owned) :: s.reads ∧
      (s.read ok size dest).1.owned = s.owned ∧ (s.read ok size dest).1.bytes = s.bytes := by
  rw [Reader.read]
  dsimp only
  split <;> exact ⟨rfl, rfl, rfl⟩

/-- The size reported is what is left, or what was asked for.  At the end of the file it is 0, which
    is what ends the loop. -/
theorem Reader.read_size {s : Reader} {size dest n : Nat} (h : (s.read ok size dest).2 = some n) :
    n = min size (s.bytes.length - s.position) ∧
      (s.read ok size dest).1.position = s.position + n := by
  rw [Reader.read] at h ⊢
  dsimp only at h ⊢
  by_cases hok : ok s.calls = false
  · rw [if_pos hok] at h
    cases h
  · rw [if_neg hok] at h ⊢
    obtain rfl := Option.some.inj h
    refine ⟨?_, rfl⟩
    rw [List.length_take, List.length_drop]

/-- When no call fails, every `Read` succeeds. -/
theorem Reader.read_succeeds (hok : ∀ k, ok k = true) (s : Reader) (size dest : Nat) :
    ∃ n, (s.read ok size dest).2 = some n := by
  rw [Reader.read]
  dsimp only
  rw [if_neg (by simp [hok])]
  exact ⟨_, rfl⟩

/-- **The loop ends**, and its first piece is among the reads then.  When no call fails it has
    counted what was left of the file.  Induction on the fuel: each turn that goes on has read at
    least one byte. -/
theorem probe_ends (ok : Nat → Bool) (content : Nat) : ∀ (fuel : Nat) (s : Reader) (finalSize : Nat),
    s.bytes.length - s.position < fuel →
    ∃ s' n, probe ok content fuel s finalSize = some (s', n) ∧
      (⟨content, 16⟩, s.owned) ∈ s'.reads ∧ s'.owned = s.owned ∧ s'.bytes = s.bytes ∧
      ((∀ k, ok k = true) → finalSize + (s.bytes.length - s.position) < 2 ^ 64 →
        n = finalSize + (s.bytes.length - s.position)) := by
  intro fuel
  induction fuel with
  | zero => exact fun _ _ h => absurd h (Nat.not_lt_zero _)
  | succ fuel ih =>
    intro s finalSize hfuel
    obtain ⟨hreads, howned, hbytes⟩ := s.read_spec ok 16 content
    have hmem : (⟨content, 16⟩, s.owned) ∈ (s.read ok 16 content).1.reads := by
      rw [hreads]
      exact List.mem_cons_self
    have hall := fun hok : ∀ k, ok k = true => s.read_succeeds hok 16 content
    have hsize := fun n (h : (s.read ok 16 content).2 = some n) => s.read_size h
    rw [probe]
    generalize s.read ok 16 content = r at *
    obtain ⟨s₁, size⟩ := r
    dsimp only at *
    cases size with
    | none =>
      -- ?_⟩ => the read has failed, which no read of a good file does
      refine ⟨s₁, finalSize, rfl, hmem, howned, hbytes, fun hok _ => ?_⟩
      obtain ⟨n, hn⟩ := hall hok
      cases hn
    | some size =>
      obtain ⟨hn, hpos⟩ := hsize size rfl
      dsimp only
      by_cases h0 : size = 0
      · -- the end of the file
        rw [if_pos h0]
        exact ⟨s₁, finalSize, rfl, hmem, howned, hbytes, fun _ _ => by omega⟩
      · rw [if_neg h0]
        -- something was read, so the fuel is enough for what is left
        obtain ⟨s', n, heq, hmem', howned', hbytes', hcount⟩ :=
          ih s₁ (w64 (finalSize + size)) (by rw [hbytes]; omega)
        rw [howned] at hmem' howned'
        refine ⟨s', n, heq, hmem', howned', hbytes'.trans hbytes, fun hok hlt => ?_⟩
        rw [hcount hok (by rw [hbytes, hpos, w64_of_lt (by omega)]; omega), hbytes, hpos,
          w64_of_lt (by omega)]
        omega

/-! ## The result -/

/-- The call returns, and the first piece was read to `NULL`.  This happens before anything can
    fail: the first `Read` of the loop is made in any case, and later calls leave the log as it is. -/
theorem sfsReadFileContent_reads (ok : Nat → Bool) (pool : Nat) (s : Reader) {file : Nat}
    (hfile : file ≠ null) : ∃ r, sfsReadFileContent ok pool s file = some r ∧
      (⟨null, 16⟩, s.owned) ∈ r.reader.reads := by
  obtain ⟨s₁, n, heq, hmem, -⟩ :=
    probe_ends ok null (s.bytes.length + 1) s 16 (by omega)
  rw [sfsReadFileContent, if_neg hfile, heq]
  dsimp only
  by_cases h0 : n = 0
  · rw [if_pos h0]
    exact ⟨_, rfl, hmem⟩
  · rw [if_neg h0, Reader.setPosition]
    by_cases hset : ok s₁.calls = false
    · rw [if_pos hset]
      exact ⟨_, rfl, hmem⟩
    · rw [if_neg hset]
      dsimp only
      rw [Reader.allocatePool]
      dsimp only
      by_cases hpool : ok (s₁.calls + 1) = false
      · rw [if_pos hpool]
        exact ⟨_, rfl, hmem⟩
      · rw [if_neg hpool]
        dsimp only
        rw [Reader.read]
        dsimp only
        split <;> rename_i hread
        · split at hread
          · cases hread
            exact ⟨_, rfl, List.mem_cons_of_mem _ hmem⟩
          · cases hread
        · split at hread
          · cases hread
          · cases hread
            exact ⟨_, rfl, List.mem_cons_of_mem _ hmem⟩

/-- **Destinations.**  `SFsReadFileContent` returns, and it keeps to its buffers and returns the
    file exactly when it is given no file.  So there is no file for which the loader keeps to its
    buffers.  The answers of the firmware (`ok`, `pool`) are arbitrary, and the only hypothesis is
    that the local buffer is somewhere and not at `NULL`. -/
theorem reads_owned_iff (ok : Nat → Bool) (pool : Nat) {s : Reader} (hs : s.Opened) (file : Nat) :
    ∃ r, sfsReadFileContent ok pool s file = some r ∧
      (r.Owned ∧ r.Whole s.bytes ↔ file = null) := by
  by_cases hfile : file = null
  · refine ⟨⟨s, null, none⟩, by rw [sfsReadFileContent, if_pos hfile], fun _ => hfile, fun _ => ?_⟩
    refine ⟨fun e he => ?_, fun h => absurd rfl h⟩
    rw [hs.reads] at he
    cases he
  · obtain ⟨r, heq, hmem⟩ := sfsReadFileContent_reads ok pool s hfile
    refine ⟨r, heq, fun h => ?_, fun h => absurd h hfile⟩
    -- the only buffer is the local one, and it is not at `NULL`
    obtain ⟨buffer, hbuffer, -, howned⟩ := hs.owned
    obtain ⟨o, ho, hinside⟩ := h.1 _ hmem
    rw [howned] at ho
    obtain rfl := List.mem_singleton.mp ho
    exact absurd (Nat.le_zero.mp (hinside 0 (Nat.zero_lt_succ 15)).1) hbuffer

/-- **Contents.**  When no call fails, the buffer returned starts with the file, and the length is
    right: the length found is 16 too large, and `Read` corrects it.  The bound is that the buffer
    does not wrap around. -/
theorem content_whole {ok : Nat → Bool} (hok : ∀ k, ok k = true) {pool : Nat} {s : Reader}
    (hpos : s.position = 0) (hlen : pool + (16 + s.bytes.length) < 2 ^ 64) {file : Nat}
    (hfile : file ≠ null) :
    ∃ r, sfsReadFileContent ok pool s file = some r ∧ r.content = pool ∧ r.Whole s.bytes := by
  obtain ⟨s₁, n, heq, -, -, hbytes, hcount⟩ :=
    probe_ends ok null (s.bytes.length + 1) s 16 (by omega)
  have hn : n = 16 + s.bytes.length := by
    rw [hcount hok (by omega), hpos, Nat.sub_zero]
  rw [sfsReadFileContent, if_neg hfile, heq]
  dsimp only
  rw [if_neg (by omega), Reader.setPosition, if_neg (by simp [hok])]
  dsimp only
  rw [Reader.allocatePool, if_neg (by simp [hok])]
  dsimp only
  rw [Reader.read, if_neg (by simp [hok])]
  dsimp only
  have htake : (s₁.bytes.drop 0).take n = s.bytes := by
    rw [List.drop_zero, hbytes, List.take_of_length_le (by omega)]
  refine ⟨_, rfl, rfl, fun _ => ⟨?_, fun k hk => ?_⟩⟩
  · dsimp only
    rw [htake]
  · dsimp only
    rw [htake]
    exact Bytes.store_get (by omega) k hk

/-! ## An empty file -/

/-- An empty file, and a buffer on the stack. -/
def emptyFile : Reader := ⟨[], 0, fun _ => 0, 0, [⟨0x7000, 16⟩], []⟩

/-- The call can begin with it. -/
theorem emptyFile_opened : emptyFile.Opened := ⟨rfl, 0x7000, by decide, by decide, rfl⟩

/-- Without a file nothing is read. -/
theorem reads_owned_null : ∃ r, sfsReadFileContent (fun _ => true) 0x10000 emptyFile null = some r ∧
    r.Owned ∧ r.Whole [] := by
  obtain ⟨r, heq, hiff⟩ := reads_owned_iff (fun _ => true) 0x10000 emptyFile_opened null
  exact ⟨r, heq, hiff.mpr rfl⟩

/-- **The first piece goes to `NULL`.**  Sixteen bytes are asked for at the address 0, while the
    only buffer is the one on the stack. -/
theorem empty_file_reads : emptyFile.Opened ∧
    ∃ r, sfsReadFileContent (fun _ => true) 0x10000 emptyFile 0x8000 = some r ∧
      (⟨0, 16⟩, [⟨0x7000, 16⟩]) ∈ r.reader.reads ∧ ¬ r.Owned := by
  refine ⟨emptyFile_opened, _, rfl, List.mem_cons_of_mem _ List.mem_cons_self, fun h => ?_⟩
  obtain ⟨o, ho, hinside⟩ := h _ (List.mem_cons_of_mem _ List.mem_cons_self)
  obtain rfl := List.mem_singleton.mp ho
  exact absurd (hinside 0 (by decide)).1 (by decide)

end Nearlands.Ldr
