/-
  Doubly linked lists in a store of nodes.

  `DList` is the raw data: a head, a tail, and the `next` and `prev` fields of every address,
  with 0 as the null pointer.  `add` appends a node and `remove` unlinks one, each with the
  field updates such code makes, in its order.  `Is d xs` says that `d` represents the
  list `xs`: the nodes are distinct and nonnull, and the fields of each are its neighbours.

  The two edits are then `xs ++ [x]` (`Is.add`) and `xs.erase x` (`Is.remove`).  A loop along `next`
  that passes some nodes ends at the first node it does not pass (`Is.loop_stops`), and it ends when
  it has one more turn than `xs` has nodes (`Is.loop_total`).
-/
import Mathlib.Data.List.Basic

namespace Nearlands.Lib

/-- A doubly linked list with its fields.  Fields of addresses that are no nodes are there too, and
    may hold anything. -/
structure DList where
  head : Nat
  tail : Nat
  next : Nat → Nat
  prev : Nat → Nat

section upd

variable {β : Type} {f : Nat → β} {a x : Nat} {v : β}

/-- The function `f` with the value at `a` replaced.  Memory, registers and fields of records are
    all changed with it. -/
def upd (f : Nat → β) (a : Nat) (v : β) : Nat → β := fun x => if x = a then v else f x

@[simp] theorem upd_same : upd f a v a = v := if_pos rfl

theorem upd_other (h : x ≠ a) : upd f a v x = f x := if_neg h

end upd

namespace DList

/-- Append the node `x`.  The old tail is linked only if there is one; the new node is at the end
    whatever its own fields held. -/
def add (d : DList) (x : Nat) : DList where
  head := if d.head = 0 then x else d.head
  tail := x
  next := upd (if d.tail ≠ 0 then upd d.next d.tail x else d.next) x 0
  prev := upd d.prev x d.tail

/-- Unlink the node `x`.  The fields of the node itself are cleared last; its neighbours have been
    linked to each other by then. -/
def remove (d : DList) (x : Nat) : DList where
  head := if d.head = x then d.next x else d.head
  tail := if d.tail = x then d.prev x else d.tail
  next := upd (if d.prev x ≠ 0 then upd d.next (d.prev x) (d.next x) else d.next) x 0
  prev := upd (if d.next x ≠ 0 then upd d.prev (d.next x) (d.prev x) else d.prev) x 0

/-- `d` represents the list `xs`.  `link` quantifies over all ways to split the list at a node, so
    that the neighbours of each node are read off the split and no indices are needed. -/
structure Is (d : DList) (xs : List Nat) : Prop where
  nonnull : ∀ x ∈ xs, x ≠ 0
  nodup : xs.Nodup
  head : d.head = xs.headD 0
  tail : d.tail = xs.getLastD 0
  link : ∀ l x r, xs = l ++ x :: r → d.prev x = l.getLastD 0 ∧ d.next x = r.headD 0

variable {d : DList} {xs : List Nat}

/-- A last node that is not null is one of the list. -/
theorem getLastD_mem {l : List Nat} (h : l.getLastD 0 ≠ 0) : l.getLastD 0 ∈ l := by
  rcases List.eq_nil_or_concat l with rfl | ⟨l', a, rfl⟩
  · exact absurd rfl h
  · simp

/-- And so is a first one. -/
theorem headD_mem {l : List Nat} (h : l.headD 0 ≠ 0) : l.headD 0 ∈ l := by
  cases l with
  | nil => exact absurd rfl h
  | cons a l => exact List.mem_cons_self

/-- The first node of two lists, one behind the other. -/
theorem headD_append {l r : List Nat} : (l ++ r).headD 0 = l.headD (r.headD 0) := by
  cases l <;> rfl

/-- The last node of them. -/
theorem getLastD_append {l r : List Nat} : (l ++ r).getLastD 0 = r.getLastD (l.getLastD 0) := by
  rcases List.eq_nil_or_concat r with rfl | ⟨r', a, rfl⟩
  · simp
  · rw [List.concat_eq_append, ← List.append_assoc]; simp

/-- The empty list, whatever the fields hold. -/
theorem is_nil (next prev : Nat → Nat) : Is ⟨0, 0, next, prev⟩ [] where
  nonnull := fun _ h => absurd h List.not_mem_nil
  nodup := List.nodup_nil
  head := rfl
  tail := rfl
  link := fun l x r h => by simp at h

/-- One list is represented.  A loop that follows `next` therefore sees one list, and two
    descriptions of a state may be compared by it.  The induction is on the first list; the tail
    without its first node is again a list of the same fields. -/
theorem Is.unique : ∀ {d : DList} {xs ys : List Nat}, d.Is xs → d.Is ys → xs = ys := by
  -- along both lists at once, from equal prefixes
  have hsuf : ∀ {d : DList} {xs ys : List Nat}, d.Is xs → d.Is ys → ∀ r l r', xs = l ++ r →
      ys = l ++ r' → r.headD 0 = r'.headD 0 → r = r' := by
    intro d xs ys hx hy r
    induction r with
    | nil =>
      intro l r' _ hys hhead
      cases r' with
      | nil => rfl
      | cons y r' => exact absurd hhead.symm (hy.nonnull y (by simp [hys]))
    | cons x r ih =>
      intro l r' hxs hys hhead
      cases r' with
      | nil => exact absurd hhead (hx.nonnull x (by simp [hxs]))
      | cons y r' =>
        obtain rfl : x = y := hhead
        have hn := (hx.link l x r hxs).2.symm.trans (hy.link l x r' hys).2
        rw [ih (l ++ [x]) r' (by simp [hxs]) (by simp [hys]) hn]
  intro d xs ys hx hy
  exact hsuf hx hy xs [] ys rfl rfl (hx.head.symm.trans hy.head)

/-- Which list is represented depends on the links of its nodes alone.  A function that changes
    other fields of the nodes, or fields of other nodes, keeps the list. -/
theorem Is.congr {d' : DList} (h : d.Is xs) (hhead : d'.head = d.head) (htail : d'.tail = d.tail)
    (hlink : ∀ x ∈ xs, d'.prev x = d.prev x ∧ d'.next x = d.next x) : d'.Is xs where
  nonnull := h.nonnull
  nodup := h.nodup
  head := hhead.trans h.head
  tail := htail.trans h.tail
  link := by
    intro l x r hxs
    obtain ⟨hp, hn⟩ := hlink x (by rw [hxs]; exact List.mem_append_right _ List.mem_cons_self)
    rw [hp, hn]
    exact h.link l x r hxs

/-- **Appending.** The four cases are whether there was a tail, and whether a node asked about is
    old or new. -/
theorem Is.add (h : d.Is xs) {x : Nat} (h0 : x ≠ 0) (hx : x ∉ xs) : (d.add x).Is (xs ++ [x]) where
  nonnull := by
    intro y hy
    rcases List.mem_append.mp hy with hy | hy
    · exact h.nonnull y hy
    · rw [List.mem_singleton.mp hy]; exact h0
  nodup := by
    refine List.nodup_append.mpr ⟨h.nodup, by simp, fun a ha b hb => ?_⟩
    rw [List.mem_singleton.mp hb]
    exact fun hax => hx (hax ▸ ha)
  head := by
    rw [DList.add]
    dsimp only
    rw [h.head]
    cases xs with
    | nil => rfl
    | cons a xs => exact if_neg (h.nonnull a List.mem_cons_self)
  tail := by simp [DList.add]
  link := by
    intro l y r hsplit
    rw [DList.add]
    dsimp only
    rw [h.tail]
    rcases List.eq_nil_or_concat r with rfl | ⟨r', z, rfl⟩
    · -- the new node
      obtain ⟨rfl, hy⟩ := List.append_inj' hsplit rfl
      obtain rfl : x = y := List.head_eq_of_cons_eq hy
      simp
    · -- an old node: its next changes if it was the last one
      rw [List.concat_eq_append, ← List.cons_append, ← List.append_assoc] at hsplit
      obtain ⟨hxs, hz⟩ := List.append_inj' hsplit rfl
      obtain rfl : x = z := List.head_eq_of_cons_eq hz
      obtain ⟨hp, hn⟩ := h.link l y r' hxs
      have hyx : y ≠ x := fun hyx => hx (by rw [hxs, hyx]; simp)
      have hlast : xs.getLastD 0 = r'.getLastD y := by
        rw [hxs, getLastD_append, List.getLastD_cons]
      rw [upd_other hyx, upd_other hyx, hp, hlast, List.concat_eq_append, headD_append]
      refine ⟨rfl, ?_⟩
      rcases List.eq_nil_or_concat r' with rfl | ⟨r'', z, rfl⟩
      · have hy0 : y ≠ 0 := h.nonnull y (by simp [hxs])
        simp [hy0]
      · have hzy : y ≠ z := by
          have hnd := h.nodup
          rw [hxs, List.nodup_append] at hnd
          have := (List.nodup_cons.mp hnd.2.1).1
          exact fun hyz => this (by simp [hyz])
        have hlz : (r''.concat z).getLastD y = z := by simp
        rw [hlz]
        split
        · rw [upd_other hzy, hn]
          cases r'' <;> rfl
        · rw [hn]
          cases r'' <;> rfl

section remove

variable {l r : List Nat} {x : Nat}

/-- The fields of a node before the one unlinked. -/
theorem Is.remove_before (h : d.Is (l ++ x :: r)) {l' m : List Nat} {y : Nat}
    (hl : l = l' ++ y :: m) :
    (d.remove x).prev y = l'.getLastD 0 ∧ (d.remove x).next y = (m ++ r).headD 0 := by
  obtain ⟨hp, hn⟩ := h.link l x r rfl
  obtain ⟨hndl, hndr, hlr⟩ := List.nodup_append.mp h.nodup
  have hyl : y ∈ l := by rw [hl]; simp
  have hyx : y ≠ x := hlr y hyl x List.mem_cons_self
  have hy0 : y ≠ 0 := h.nonnull y (List.mem_append_left _ hyl)
  obtain ⟨hpy, hny⟩ := h.link l' y (m ++ x :: r) (by rw [hl]; simp)
  rw [DList.remove]
  dsimp only
  rw [hp, hn, upd_other hyx, upd_other hyx]
  constructor
  · -- `y` is not the successor of `x`
    split
    · rename_i h0
      have hyr : y ≠ r.headD 0 := hlr y hyl _ (List.mem_cons_of_mem _ (headD_mem h0))
      rw [upd_other hyr, hpy]
    · exact hpy
  · rw [headD_append] at hny ⊢
    rw [hl, getLastD_append, List.getLastD_cons]
    rcases List.eq_nil_or_concat m with rfl | ⟨m', z, rfl⟩
    · show (if y ≠ 0 then upd d.next y (r.headD 0) else d.next) y = _
      rw [if_pos hy0, upd_same]
      rfl
    · have hyz : y ≠ z := by
        rw [hl] at hndl
        have hnot := (List.nodup_cons.mp (List.nodup_append.mp hndl).2.1).1
        exact fun hyz => hnot (by simp [hyz])
      have hsame : d.next y = (m'.concat z).headD (r.headD 0) := by
        rw [hny]; cases m' <;> rfl
      rw [show (m'.concat z).getLastD y = z by simp]
      split
      · rw [upd_other hyz, hsame]
      · exact hsame

/-- The fields of a node after the one unlinked. -/
theorem Is.remove_after (h : d.Is (l ++ x :: r)) {m r' : List Nat} {y : Nat}
    (hr : r = m ++ y :: r') :
    (d.remove x).prev y = (l ++ m).getLastD 0 ∧ (d.remove x).next y = r'.headD 0 := by
  obtain ⟨hp, hn⟩ := h.link l x r rfl
  obtain ⟨-, hndr, hlr⟩ := List.nodup_append.mp h.nodup
  obtain ⟨hxr, hndr⟩ := List.nodup_cons.mp hndr
  have hyr : y ∈ r := by rw [hr]; simp
  have hyx : y ≠ x := fun hyx => hxr (hyx ▸ hyr)
  have hy0 : y ≠ 0 := h.nonnull y (List.mem_append_right _ (List.mem_cons_of_mem _ hyr))
  obtain ⟨hpy, hny⟩ := h.link (l ++ x :: m) y r' (by rw [hr]; simp)
  rw [DList.remove]
  dsimp only
  rw [hp, hn, upd_other hyx, upd_other hyx]
  constructor
  · rw [getLastD_append, List.getLastD_cons] at hpy
    rw [hr, getLastD_append]
    cases m with
    | nil =>
      show (if y ≠ 0 then upd d.prev y (l.getLastD 0) else d.prev) y = _
      rw [if_pos hy0, upd_same]
      rfl
    | cons a m =>
      have hya : y ≠ a := by
        rw [hr] at hndr
        have hnot := (List.nodup_cons.mp hndr).1
        exact fun hya => hnot (by simp [hya])
      rw [List.getLastD_cons] at hpy ⊢
      show (if a ≠ 0 then upd d.prev a (l.getLastD 0) else d.prev) y = _
      split
      · rw [upd_other hya, hpy]
      · exact hpy
  · -- `y` is not the predecessor of `x`
    split
    · rename_i h0
      have hyl : y ≠ l.getLastD 0 :=
        fun hyl => hlr _ (getLastD_mem h0) y (List.mem_cons_of_mem _ hyr) hyl.symm
      rw [upd_other hyl, hny]
    · exact hny

/-- **Unlinking**, in the middle of the list. -/
theorem Is.remove_mid (h : d.Is (l ++ x :: r)) : (d.remove x).Is (l ++ r) := by
  obtain ⟨hp, hn⟩ := h.link l x r rfl
  have hsub : (l ++ r).Sublist (l ++ x :: r) :=
    List.Sublist.append_left (List.sublist_cons_self x r) l
  obtain ⟨-, hndr, hlr⟩ := List.nodup_append.mp h.nodup
  have hxr := (List.nodup_cons.mp hndr).1
  refine ⟨fun y hy => h.nonnull y (hsub.mem hy), h.nodup.sublist hsub, ?_, ?_, ?_⟩
  · -- the head moves when `x` was first
    rw [DList.remove]
    dsimp only
    rw [h.head, hn]
    cases l with
    | nil => exact if_pos rfl
    | cons a l => exact if_neg (hlr a List.mem_cons_self x List.mem_cons_self)
  · -- the tail moves when `x` was last
    rw [DList.remove]
    dsimp only
    rw [h.tail, hp]
    rcases List.eq_nil_or_concat r with rfl | ⟨r', z, rfl⟩
    · simp
    · have hzx : z ≠ x := fun hzx => hxr (by simp [hzx])
      have hlast : ∀ l' : List Nat, (l' ++ r'.concat z).getLastD 0 = z := by simp
      rw [← List.singleton_append, ← List.append_assoc, hlast, hlast, if_neg hzx]
  · intro l' y r' hsplit
    rcases List.append_eq_append_iff.mp hsplit with ⟨m, rfl, hr⟩ | ⟨m, hl, hr⟩
    · exact h.remove_after hr
    · cases m with
      | nil =>
        rw [List.append_nil] at hl
        have := h.remove_after (m := []) hr.symm
        rwa [List.append_nil, hl] at this
      | cons y' m =>
        obtain ⟨rfl, rfl⟩ := List.cons.inj hr
        exact h.remove_before hl

end remove

/-- **Unlinking.** The position of the node is hidden: with distinct nodes it does not matter where
    it was. -/
theorem Is.remove (h : d.Is xs) {x : Nat} (hx : x ∈ xs) : (d.remove x).Is (xs.erase x) := by
  obtain ⟨l, r, rfl⟩ := List.append_of_mem hx
  have hxl : x ∉ l := fun hxl =>
    (List.nodup_append.mp h.nodup).2.2 x hxl x List.mem_cons_self rfl
  rw [List.erase_append_right _ hxl, List.erase_cons_head]
  exact h.remove_mid

/-! ## Loops along `next` -/

section loop

variable {α : Type} (loop : Nat → Nat → Option α) (skip : Nat → Prop)

/-- The loop goes on behind the nodes that are skipped, and only there.  It is a property of the
    code of the loop, checked once; what the loop is for is said by `skip`. -/
structure Passes (d : DList) (xs : List Nat) : Prop where
  zero : ∀ x, loop 0 x = none
  pass : ∀ x ∈ xs, skip x → ∀ n, loop (n + 1) x = loop n (d.next x)

variable {loop skip}

/-- **Where a loop ends**: behind the last node, when all are skipped, or at the first node that is
    not.  Induction on the turns; `l` are the nodes passed. -/
theorem Is.loop_stops (h : d.Is xs) (hloop : Passes loop skip d xs) {fuel : Nat} {res : α}
    (hres : loop fuel d.head = some res) :
    ∃ n, ((∀ x ∈ xs, skip x) ∧ loop (n + 1) 0 = some res) ∨
      ∃ l x r, xs = l ++ x :: r ∧ (∀ y ∈ l, skip y) ∧ ¬ skip x ∧ loop (n + 1) x = some res := by
  have hfrom : ∀ fuel l r, xs = l ++ r → (∀ x ∈ l, skip x) → loop fuel (r.headD 0) = some res →
      ∃ n, ((∀ x ∈ xs, skip x) ∧ loop (n + 1) 0 = some res) ∨
        ∃ l x r, xs = l ++ x :: r ∧ (∀ y ∈ l, skip y) ∧ ¬ skip x ∧
          loop (n + 1) x = some res := by
    intro fuel
    induction fuel with
    | zero =>
      intro l r _ _ hres
      rw [hloop.zero] at hres
      cases hres
    | succ n ih =>
      intro l r hxs hl hres
      cases r with
      | nil =>
        rw [List.append_nil] at hxs
        exact ⟨n, Or.inl ⟨hxs ▸ hl, hres⟩⟩
      | cons x r =>
        have hx : x ∈ xs := by rw [hxs]; simp
        by_cases hskip : skip x
        · have hstep : loop (n + 1) x = some res := hres
          rw [hloop.pass x hx hskip, (h.link l x r hxs).2] at hstep
          refine ih (l ++ [x]) r (by rw [hxs]; simp) (fun y hy => ?_) hstep
          rcases List.mem_append.mp hy with hy | hy
          · exact hl y hy
          · rw [List.mem_singleton.mp hy]
            exact hskip
        · exact ⟨n, Or.inr ⟨l, x, r, hxs, hl, hskip, hres⟩⟩
  apply hfrom fuel [] xs rfl
  · intro x hx
    exact absurd hx List.not_mem_nil
  · rw [← h.head]
    exact hres

/-- The same, without the nodes passed. -/
theorem Is.loop_ends (h : d.Is xs) (hloop : Passes loop skip d xs) {fuel : Nat} {res : α}
    (hres : loop fuel d.head = some res) :
    ∃ n, ((∀ x ∈ xs, skip x) ∧ loop (n + 1) 0 = some res) ∨
      ∃ x ∈ xs, ¬ skip x ∧ loop (n + 1) x = some res := by
  obtain ⟨n, hall | ⟨l, x, r, rfl, -, hx, hres⟩⟩ := h.loop_stops hloop hres
  · exact ⟨n, Or.inl hall⟩
  · exact ⟨n, Or.inr ⟨x, List.mem_append_right _ List.mem_cons_self, hx, hres⟩⟩

/-- **A loop ends.**  Induction on the nodes left, each of which takes one turn.  One turn more is
    needed than there are nodes, for the null pointer at the end. -/
theorem Is.loop_total (h : d.Is xs) (hloop : Passes loop skip d xs)
    (hstop : ∀ x ∈ xs, ¬ skip x → ∀ n, ∃ res, loop (n + 1) x = some res)
    (hend : ∀ n, ∃ res, loop (n + 1) 0 = some res) {fuel : Nat} (hfuel : xs.length < fuel) :
    ∃ res, loop fuel d.head = some res := by
  have hfrom : ∀ r l n, xs = l ++ r → r.length ≤ n → ∃ res, loop (n + 1) (r.headD 0) = some res := by
    intro r
    induction r with
    | nil =>
      intro l n _ _
      exact hend n
    | cons x r ih =>
      intro l n hxs hn
      have hx : x ∈ xs := by rw [hxs]; simp
      show ∃ res, loop (n + 1) x = some res
      by_cases hskip : skip x
      · obtain ⟨m, rfl⟩ := Nat.exists_eq_add_one_of_ne_zero (Nat.ne_zero_of_lt hn)
        rw [hloop.pass x hx hskip, (h.link l x r hxs).2]
        exact ih (l ++ [x]) m (by rw [hxs]; simp) (Nat.le_of_succ_le_succ hn)
      · exact hstop x hx hskip n
  obtain ⟨n, rfl⟩ := Nat.exists_eq_add_one_of_ne_zero (Nat.ne_zero_of_lt hfuel)
  rw [h.head]
  exact hfrom xs [] n rfl (Nat.le_of_lt_succ hfuel)

end loop

end DList

end Nearlands.Lib
