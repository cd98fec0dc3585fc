/-
  First-in first-out queues of linked nodes.

  `Fifo` is the raw data: the first and the last node and the `next` field of every address, with
  0 as the null pointer.  `push` appends a node and `pop` drops the first, with the field updates
  such code makes; `last` is not touched when the queue runs empty, so it means something only
  while there is a node.  `Is q xs` says that `q` represents the list `xs`; the two operations are
  then `xs ++ [x]` and `xs.tail`.
-/
import Nearlands.Lib.DList

namespace Nearlands.Lib

/-- A linked queue with its fields. -/
structure Fifo where
  first : Nat
  last : Nat
  next : Nat → Nat

namespace Fifo

/-- The nodes reached from `p` along `next` are `xs`, the last one with `next` null.  Nothing is
    said about `last`: following the queue from its first node never looks at it. -/
def Links (next : Nat → Nat) : Nat → List Nat → Prop
  | p, [] => p = 0
  | p, x :: xs => p = x ∧ x ≠ 0 ∧ Links next (next x) xs

/-- `q` represents the list `xs`.  In an empty queue `last` is free, since popping the last node
    does not touch it. -/
structure Is (q : Fifo) (xs : List Nat) : Prop where
  links : Links q.next q.first xs
  last : ∀ h : xs ≠ [], q.last = xs.getLast h
  nodup : xs.Nodup

/-- Append the node `x`.  The new node gets its null `next` before the old last node is linked to
    it. -/
def push (q : Fifo) (x : Nat) : Fifo :=
  if q.first = 0 then ⟨x, x, upd q.next x 0⟩ else ⟨q.first, x, upd (upd q.next x 0) q.last x⟩

/-- Drop the first node.  The node itself keeps its fields; whoever frees it has read them before. -/
def pop (q : Fifo) : Fifo := { q with first := q.next q.first }

variable {q : Fifo} {xs : List Nat} {x : Nat}

/-- A chain is a matter of the `next` fields of its own nodes.  So writes to nodes of other queues,
    and to memory that is no node, keep a queue. -/
theorem Links.congr {next next' : Nat → Nat} : ∀ {xs : List Nat} {p : Nat}, Links next p xs →
    (∀ x ∈ xs, next' x = next x) → Links next' p xs
  | [], _, h, _ => h
  | x :: _, _, ⟨hp, h0, h⟩, heq => by
    refine ⟨hp, h0, ?_⟩
    rw [heq x List.mem_cons_self]
    exact h.congr fun y hy => heq y (List.mem_cons_of_mem _ hy)

/-- A pointer leads to one chain only.  A recursion that follows `next` sees one list. -/
theorem Links.unique {next : Nat → Nat} : ∀ {xs ys : List Nat} {p : Nat}, Links next p xs →
    Links next p ys → xs = ys
  | [], [], _, _, _ => rfl
  | [], _ :: _, _, h, ⟨hp, h0, _⟩ => absurd (hp.symm.trans h) h0
  | _ :: _, [], _, ⟨hp, h0, _⟩, h => absurd (hp.symm.trans h) h0
  | x :: xs, y :: ys, _, ⟨hp, _, h⟩, ⟨hp', _, h'⟩ => by
    obtain rfl : x = y := hp.symm.trans hp'
    rw [h.unique h']

/-- The same for a whole queue. -/
theorem Is.congr (h : q.Is xs) {next' : Nat → Nat} (heq : ∀ x ∈ xs, next' x = q.next x) :
    Is { q with next := next' } xs :=
  ⟨h.links.congr heq, h.last, h.nodup⟩

/-- The empty queue, whatever `last` and the fields hold. -/
theorem is_nil (last : Nat) (next : Nat → Nat) : Is ⟨0, last, next⟩ [] :=
  ⟨rfl, fun h => absurd rfl h, List.nodup_nil⟩

/-- The test of the code for an empty queue is right. -/
theorem Is.first_eq_zero (h : q.Is xs) : q.first = 0 ↔ xs = [] := by
  cases xs with
  | nil => exact ⟨fun _ => rfl, fun _ => h.links⟩
  | cons x xs =>
    obtain ⟨hp, h0, -⟩ := h.links
    exact ⟨fun hz => absurd (hp.symm.trans hz) h0, fun hn => nomatch hn⟩

/-- **Popping.** The list is not empty, which is what the caller has tested. -/
theorem Is.pop (h : q.Is (x :: xs)) : q.first = x ∧ q.pop.Is xs := by
  obtain ⟨hp, h0, hl⟩ := h.links
  refine ⟨hp, ?_, fun hne => ?_, (List.nodup_cons.mp h.nodup).2⟩
  · show Links q.next (q.next q.first) xs
    rw [hp]
    exact hl
  · show q.last = _
    rw [h.last (List.cons_ne_nil _ _), List.getLast_cons hne]

/-- A chain grows at its end when the last node is linked to a new one.  The induction is on the
    chain; the pointer in front of the last node is the only one that changes. -/
theorem Links.append {next : Nat → Nat} : ∀ {xs : List Nat} {p : Nat} (hne : xs ≠ []),
    Links next p xs → xs.Nodup → x ≠ 0 → x ∉ xs →
    Links (upd (upd next x 0) (xs.getLast hne) x) p (xs ++ [x])
  | [], _, hne, _, _, _, _ => absurd rfl hne
  | [y], p, _, ⟨hp, hy0, _⟩, _, h0, hx => by
    have hxy : x ≠ y := fun h => hx (h ▸ List.mem_cons_self)
    refine ⟨hp, hy0, ?_, h0, ?_⟩
    · exact upd_same
    · show upd (upd next x 0) y x x = 0
      rw [upd_other hxy, upd_same]
  | y :: z :: xs, p, _, ⟨hp, hy0, hl⟩, hnd, h0, hx => by
    obtain ⟨hy, hnd'⟩ := List.nodup_cons.mp hnd
    have hxy : y ≠ x := fun h => hx (h ▸ List.mem_cons_self)
    have hylast : y ≠ (z :: xs).getLast (List.cons_ne_nil _ _) := fun h =>
      hy (h ▸ List.getLast_mem _)
    have ih := hl.append (List.cons_ne_nil z xs) hnd' h0 fun h => hx (List.mem_cons_of_mem _ h)
    refine ⟨hp, hy0, ?_⟩
    rw [List.getLast_cons (List.cons_ne_nil z xs), upd_other hylast, upd_other hxy]
    exact ih

/-- **Pushing.** The new node must not be in the queue already, or the chain would be closed to a
    circle. -/
theorem Is.push (h : q.Is xs) (h0 : x ≠ 0) (hx : x ∉ xs) : (q.push x).Is (xs ++ [x]) := by
  have hnd : (xs ++ [x]).Nodup := by
    refine List.nodup_append.mpr ⟨h.nodup, by simp, fun a ha b hb => ?_⟩
    rw [List.mem_singleton.mp hb]
    exact fun hax => hx (hax ▸ ha)
  rw [Fifo.push]
  by_cases hnil : xs = []
  · subst hnil
    rw [if_pos (h.first_eq_zero.mpr rfl)]
    exact ⟨⟨rfl, h0, upd_same⟩, fun _ => rfl, hnd⟩
  · rw [if_neg fun hz => hnil (h.first_eq_zero.mp hz)]
    refine ⟨?_, fun _ => by simp, hnd⟩
    rw [h.last hnil]
    exact h.links.append hnil h.nodup h0 hx

end Fifo

end Nearlands.Lib
