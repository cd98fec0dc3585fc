/-
  Radix trees in a store of nodes.

  A node is a row of entries, found at an address; an entry is 0 (empty) or leads, through
  `child`, to another node.  A path is a list of slots, and `node mem root p` is the node it
  leads to.  `Tree mem root d` says that no node is reached by two paths of length at most `d`:
  then a write to one entry is seen by the paths through it and by no other (`node_write`).

  Two edits are enough for a tree of fixed depth.  `hang` puts an empty node into an empty slot of an
  inner node; a write to a leaf changes a slot of a node at depth `d`, which no path of that length
  reads.  In both cases the lemmas say what EVERY lookup gives afterwards, and that what is so of
  all entries (`Entries`) stays so when it is so of the new one.
-/
import Mathlib.Data.List.Basic

namespace Nearlands.Lib.Radix

variable {child : Nat → Nat} {mem : Nat → Nat → Nat} {root : Nat}

/-- The node that the path leads to from the node at `a`.  An empty entry on the way ends the walk;
    the last node may have any entries. -/
def node (child : Nat → Nat) (mem : Nat → Nat → Nat) : Nat → List Nat → Option Nat
  | a, [] => some a
  | a, i :: p => if mem a i = 0 then none else node child mem (child (mem a i)) p

/-- Write one entry.  Memory is a function of node and slot, so a write is a change at one pair. -/
def write (mem : Nat → Nat → Nat) (a i e : Nat) : Nat → Nat → Nat :=
  fun b j => if b = a ∧ j = i then e else mem b j

/-- Empty a node.  It is what `memset` does to a new page of entries. -/
def clear (mem : Nat → Nat → Nat) (b : Nat) : Nat → Nat → Nat :=
  fun c j => if c = b then 0 else mem c j

@[simp] theorem write_same (mem : Nat → Nat → Nat) (a i e : Nat) : write mem a i e a i = e :=
  if_pos ⟨rfl, rfl⟩

@[simp] theorem clear_same (mem : Nat → Nat → Nat) (b j : Nat) : clear mem b b j = 0 := if_pos rfl

/-- Every other entry is as it was. -/
theorem write_other {a i e b j : Nat} (h : ¬ (b = a ∧ j = i)) : write mem a i e b j = mem b j :=
  if_neg h

/-- The entry at the end of a path, when it leads there and the entry is not empty.  The slot at the
    end is separate from the path, because the entry there is read and not followed. -/
def lookup (child : Nat → Nat) (mem : Nat → Nat → Nat) (root : Nat) (p : List Nat) (i : Nat) :
    Option Nat :=
  (node child mem root p).bind fun a => if mem a i = 0 then none else some (mem a i)

/-- The entries of the node at the end of a path.  All of the entries at once, for a page table that
    is copied or compared as a whole. -/
def row (child : Nat → Nat) (mem : Nat → Nat → Nat) (root : Nat) (p : List Nat) :
    Option (Nat → Nat) :=
  (node child mem root p).map mem

/-- Entries, one of them replaced. -/
def setEntry (entries : Nat → Nat) (i e : Nat) : Nat → Nat := fun j => if j = i then e else entries j

/-- Seen as a row, a write replaces one entry of its node. -/
theorem write_row (mem : Nat → Nat → Nat) (a i e : Nat) :
    write mem a i e a = setEntry (mem a) i e := by
  funext j
  exact if_congr (and_iff_right rfl) rfl rfl

/-- And leaves the rows of the other nodes. -/
theorem write_row_other {a b : Nat} (i e : Nat) (h : b ≠ a) : write mem a i e b = mem b := by
  funext j
  exact write_other fun hb => h hb.1

/-- The row at a path whose node is known. -/
theorem row_of_node {p : List Nat} {a : Nat} (h : node child mem root p = some a) :
    row child mem root p = some (mem a) := by
  rw [row, h]
  rfl

/-- A walk along two paths, one behind the other. -/
theorem node_append : ∀ (p q : List Nat) (a : Nat),
    node child mem a (p ++ q) = (node child mem a p).bind fun b => node child mem b q
  | [], _, _ => rfl
  | i :: p, q, a => by
    show (if mem a i = 0 then none else node child mem (child (mem a i)) (p ++ q)) = _
    by_cases h : mem a i = 0
    · rw [if_pos h]
      show none = Option.bind (if mem a i = 0 then none else _) _
      rw [if_pos h]
      rfl
    · rw [if_neg h, node_append p q]
      show _ = Option.bind (if mem a i = 0 then none else _) _
      rw [if_neg h]

/-- One step beyond a node. -/
theorem node_snoc {p : List Nat} {a : Nat} (h : node child mem root p = some a) (i : Nat)
    (q : List Nat) : node child mem root (p ++ i :: q) =
      if mem a i = 0 then none else node child mem (child (mem a i)) q := by
  rw [node_append, h]
  rfl

/-- The entry at the end of a path leads one step beyond it.  The same entry is read in two ways: as
    a value at a leaf, and as a pointer inside the tree. -/
theorem lookup_map (p : List Nat) (i : Nat) :
    (lookup child mem root p i).map child = node child mem root (p ++ [i]) := by
  rw [lookup, node_append]
  cases node child mem root p with
  | none => rfl
  | some a =>
    show Option.map child (if mem a i = 0 then none else some (mem a i)) =
      if mem a i = 0 then none else some (child (mem a i))
    split
    · rfl
    · rfl

/-- Paths see only the entries they go through.  It is the frame rule of walks.  The induction is on
    the path, and the hypothesis follows it: a prefix of the rest is a prefix of the whole. -/
theorem node_congr {mem' : Nat → Nat → Nat} : ∀ (q : List Nat) (a : Nat),
    (∀ q' i r, q = q' ++ i :: r → ∀ b, node child mem a q' = some b → mem' b i = mem b i) →
    node child mem' a q = node child mem a q
  | [], _, _ => rfl
  | i :: q, a, h => by
    have hhere : mem' a i = mem a i := h [] i q rfl a rfl
    show (if mem' a i = 0 then none else node child mem' (child (mem' a i)) q) = _
    rw [hhere]
    show _ = if mem a i = 0 then none else node child mem (child (mem a i)) q
    by_cases h0 : mem a i = 0
    · rw [if_pos h0, if_pos h0]
    · rw [if_neg h0, if_neg h0]
      refine node_congr q _ fun q' j r hq b hb => ?_
      refine h (i :: q') j r (by rw [hq]; rfl) b ?_
      show (if mem a i = 0 then none else node child mem (child (mem a i)) q') = some b
      rw [if_neg h0, hb]

/-- No node is reached by two paths of length at most `d`.  It is the one invariant that a radix
    tree in raw memory needs: sharing of nodes would make a write visible elsewhere. -/
def Tree (child : Nat → Nat) (mem : Nat → Nat → Nat) (root d : Nat) : Prop :=
  ∀ p q a, p.length ≤ d → q.length ≤ d → node child mem root p = some a →
    node child mem root q = some a → p = q

variable {d : Nat} {p : List Nat} {a i : Nat}

/-- A write to slot `i` of the node at `p` is seen only by paths through that slot.  Only entries on
    the way count, so the written memory is asked to agree with the old one at reachable nodes and
    nowhere else. -/
theorem Tree.node_write (ht : Tree child mem root d) (hp : p.length ≤ d)
    (ha : node child mem root p = some a) {mem' : Nat → Nat → Nat}
    (hw : ∀ b j, (∃ q, q.length ≤ d ∧ node child mem root q = some b) → ¬ (b = a ∧ j = i) →
      mem' b j = mem b j)
    {q : List Nat} (hq : q.length ≤ d + 1) (hno : ∀ r, q ≠ p ++ i :: r) :
    node child mem' root q = node child mem root q := by
  refine node_congr q root fun q' j r hsplit b hb => ?_
  have hlen : q'.length ≤ d := by
    have := congrArg List.length hsplit
    rw [List.length_append, List.length_cons] at this
    omega
  refine hw b j ⟨q', hlen, hb⟩ ?_
  rintro ⟨rfl, rfl⟩
  exact hno r (by rw [hsplit, ht p q' b hp hlen ha hb])

section leaf

/-- Writing a slot of a node at depth `d` moves no node.  A path of length `d` ends at such a node
    and reads none of its slots. -/
theorem Tree.node_write_leaf (ht : Tree child mem root d) (hp : p.length = d)
    (ha : node child mem root p = some a) (e : Nat) {q : List Nat} (hq : q.length ≤ d) :
    node child (write mem a i e) root q = node child mem root q := by
  refine ht.node_write (Nat.le_of_eq hp) ha (fun b j _ h => write_other h) (by omega) fun r hr => ?_
  have := congrArg List.length hr
  rw [List.length_append, List.length_cons] at this
  omega

/-- The invariant is kept: the nodes are where they were. -/
theorem Tree.write_leaf (ht : Tree child mem root d) (hp : p.length = d)
    (ha : node child mem root p = some a) (e : Nat) :
    Tree child (write mem a i e) root d := by
  intro q q' b hq hq' hb hb'
  rw [ht.node_write_leaf hp ha e hq] at hb
  rw [ht.node_write_leaf hp ha e hq'] at hb'
  exact ht q q' b hq hq' hb hb'

/-- **What every lookup gives after a write to a leaf.** With entry 0 it is the removal of a
    mapping, with any other entry its replacement. -/
theorem Tree.lookup_write_leaf (ht : Tree child mem root d) (hp : p.length = d)
    (ha : node child mem root p = some a) (e : Nat) {q : List Nat} (hq : q.length = d) (j : Nat) :
    lookup child (write mem a i e) root q j =
      if q = p ∧ j = i then (if e = 0 then none else some e) else lookup child mem root q j := by
  unfold lookup
  rw [ht.node_write_leaf hp ha e (Nat.le_of_eq hq)]
  by_cases h : q = p ∧ j = i
  · obtain ⟨rfl, rfl⟩ := h
    rw [ha, if_pos ⟨rfl, rfl⟩, Option.bind_some, write_same]
  · rw [if_neg h]
    cases hb : node child mem root q with
    | none => rfl
    | some b =>
      have hne : ¬ (b = a ∧ j = i) := fun ⟨hba, hji⟩ =>
        h ⟨ht q p a (Nat.le_of_eq hq) (Nat.le_of_eq hp) (hba ▸ hb) ha, hji⟩
      rw [Option.bind_some, Option.bind_some, write_other hne]

/-- **Every row after a write to a leaf.** Rows of inner nodes are covered as well, since `q` may be
    shorter. -/
theorem Tree.row_write_leaf (ht : Tree child mem root d) (hp : p.length = d)
    (ha : node child mem root p = some a) (e : Nat) {q : List Nat} (hq : q.length ≤ d) :
    row child (write mem a i e) root q =
      if q = p then some (setEntry (mem a) i e) else row child mem root q := by
  rw [row, row, ht.node_write_leaf hp ha e hq]
  by_cases h : q = p
  · rw [if_pos h, h, ha, Option.map_some, write_row]
  · rw [if_neg h]
    cases hb : node child mem root q with
    | none => rfl
    | some b =>
      have hne : b ≠ a := fun hba => h (ht q p a hq (Nat.le_of_eq hp) (hba ▸ hb) ha)
      rw [Option.map_some, Option.map_some, write_row_other _ _ hne]

end leaf

section grow

variable {b e : Nat}

/-- The memory after hanging the new node `b` into slot `i` of the node `a`, by the entry `e`.  The
    new node is emptied first, as its memory may hold anything. -/
def hang (mem : Nat → Nat → Nat) (a i b e : Nat) : Nat → Nat → Nat := write (clear mem b) a i e

/-- **Where every path leads after hanging in a new node.** One path is added, the one to the new
    node.  The hypotheses say that the slot was empty, that the new node was nowhere in the tree,
    and that its entry leads to it. -/
theorem Tree.node_hang (ht : Tree child mem root d) (hp : p.length < d)
    (ha : node child mem root p = some a) (hempty : mem a i = 0)
    (hfresh : ∀ q, q.length ≤ d → node child mem root q ≠ some b) (he : e ≠ 0)
    (hchild : child e = b) {q : List Nat} (hq : q.length ≤ d) :
    node child (hang mem a i b e) root q =
      if q = p ++ [i] then some b else node child mem root q := by
  have hab : a ≠ b := fun h => hfresh p (by omega) (h ▸ ha)
  have hsame : ∀ q, q.length ≤ d + 1 → (∀ r, q ≠ p ++ i :: r) →
      node child (hang mem a i b e) root q = node child mem root q := by
    intro q hq hno
    refine ht.node_write (Nat.le_of_lt hp) ha (fun c j hc h => ?_) hq hno
    obtain ⟨q', hq', hc⟩ := hc
    have hcb : c ≠ b := fun h => hfresh q' hq' (h ▸ hc)
    rw [hang]
    rw [write_other h]
    exact if_neg hcb
  have ha' : node child (hang mem a i b e) root p = some a := by
    rw [hsame p (by omega) fun r hr => ?_, ha]
    have := congrArg List.length hr
    rw [List.length_append, List.length_cons] at this
    omega
  have hslot : hang mem a i b e a i = e := write_same _ _ _ _
  by_cases hthrough : ∃ r, q = p ++ i :: r
  · obtain ⟨r, rfl⟩ := hthrough
    rw [node_snoc ha', hslot, if_neg he, hchild, node_snoc ha, if_pos hempty]
    cases r with
    | nil => rw [if_pos rfl]; rfl
    | cons j r =>
      -- the new node is empty
      have hzero : hang mem a i b e b j = 0 := by
        rw [hang]
        rw [write_other fun h => hab h.1.symm]
        exact if_pos rfl
      have hne : p ++ i :: j :: r ≠ p ++ [i] := by simp
      rw [if_neg hne]
      exact if_pos hzero
  · have hno : ∀ r, q ≠ p ++ i :: r := fun r hr => hthrough ⟨r, hr⟩
    rw [hsame q (by omega) hno, if_neg (hno [])]

/-- The invariant is kept: the new node has one path, and the others have those they had. -/
theorem Tree.of_hang (ht : Tree child mem root d) (hp : p.length < d)
    (ha : node child mem root p = some a) (hempty : mem a i = 0)
    (hfresh : ∀ q, q.length ≤ d → node child mem root q ≠ some b) (he : e ≠ 0)
    (hchild : child e = b) : Tree child (hang mem a i b e) root d := by
  intro q q' c hq hq' hc hc'
  rw [ht.node_hang hp ha hempty hfresh he hchild hq] at hc
  rw [ht.node_hang hp ha hempty hfresh he hchild hq'] at hc'
  by_cases h1 : q = p ++ [i]
  · by_cases h2 : q' = p ++ [i]
    · rw [h1, h2]
    · rw [if_pos h1] at hc
      rw [if_neg h2] at hc'
      exact absurd (hc'.trans hc.symm) (hfresh q' hq')
  · rw [if_neg h1] at hc
    by_cases h2 : q' = p ++ [i]
    · rw [if_pos h2] at hc'
      exact absurd (hc.trans hc'.symm) (hfresh q hq)
    · rw [if_neg h2] at hc'
      exact ht q q' c hq hq' hc hc'

/-- **No lookup changes when an empty node is hung in.** The paths through the new slot found
    nothing before, and find nothing in the empty node now. -/
theorem Tree.lookup_hang (ht : Tree child mem root d) (hp : p.length < d)
    (ha : node child mem root p = some a) (hempty : mem a i = 0)
    (hfresh : ∀ q, q.length ≤ d → node child mem root q ≠ some b) (he : e ≠ 0)
    (hchild : child e = b) {q : List Nat} (hq : q.length = d) (j : Nat) :
    lookup child (hang mem a i b e) root q j = lookup child mem root q j := by
  have hab : a ≠ b := fun h => hfresh p (by omega) (h ▸ ha)
  unfold lookup
  rw [ht.node_hang hp ha hempty hfresh he hchild (Nat.le_of_eq hq)]
  by_cases hnew : q = p ++ [i]
  · have hzero : hang mem a i b e b j = 0 := by
      rw [hang]
      rw [write_other fun h => hab h.1.symm]
      exact if_pos rfl
    rw [if_pos hnew, hnew, node_snoc ha, if_pos hempty, Option.bind_some, if_pos hzero]
    rfl
  · rw [if_neg hnew]
    cases hc : node child mem root q with
    | none => rfl
    | some c =>
      have hca : c ≠ a := by
        intro hca
        have := ht q p a (Nat.le_of_eq hq) (by omega) (hca ▸ hc) ha
        rw [this] at hq
        omega
      have hcb : c ≠ b := fun h => hfresh q (Nat.le_of_eq hq) (h ▸ hc)
      have hsame : hang mem a i b e c j = mem c j := by
        rw [hang]
        rw [write_other fun h => hca h.1]
        exact if_neg hcb
      rw [Option.bind_some, Option.bind_some, hsame]

/-- **Every row after an empty node is hung in.** The new node, its parent, and all others. -/
theorem Tree.row_hang (ht : Tree child mem root d) (hp : p.length < d)
    (ha : node child mem root p = some a) (hempty : mem a i = 0)
    (hfresh : ∀ q, q.length ≤ d → node child mem root q ≠ some b) (he : e ≠ 0)
    (hchild : child e = b) {q : List Nat} (hq : q.length ≤ d) :
    row child (hang mem a i b e) root q = if q = p ++ [i] then some fun _ => 0
      else if q = p then some (setEntry (mem a) i e) else row child mem root q := by
  have hab : a ≠ b := fun h => hfresh p (by omega) (h ▸ ha)
  have hclear : ∀ c, c ≠ b → clear mem b c = mem c := fun c hc => funext fun _ => if_neg hc
  rw [row, row, ht.node_hang hp ha hempty hfresh he hchild hq, hang]
  by_cases hnew : q = p ++ [i]
  · rw [if_pos hnew, if_pos hnew, Option.map_some, write_row_other _ _ hab.symm]
    exact congrArg some (funext fun _ => if_pos rfl)
  · rw [if_neg hnew, if_neg hnew]
    by_cases hqp : q = p
    · rw [if_pos hqp, hqp, ha, Option.map_some, write_row, hclear a hab]
    · rw [if_neg hqp]
      cases hc : node child mem root q with
      | none => rfl
      | some c =>
        have hca : c ≠ a := fun hca => hqp (ht q p a hq (by omega) (hca ▸ hc) ha)
        have hcb : c ≠ b := fun hcb => hfresh q hq (hcb ▸ hc)
        rw [Option.map_some, Option.map_some, write_row_other _ _ hca, hclear c hcb]

end grow

/-! ## What the entries are like -/

section entries

variable {P : Nat → Prop}

/-- Every entry that is not empty, of a node at depth at most `d`, is as `P` says.  It is used for
    flags that every entry must carry, and for targets that every entry must have. -/
def Entries (child : Nat → Nat) (mem : Nat → Nat → Nat) (root d : Nat) (P : Nat → Prop) : Prop :=
  ∀ p a i, p.length ≤ d → node child mem root p = some a → mem a i ≠ 0 → P (mem a i)

/-- An entry replaced by one that is as `P` says, or by none.  With `e = 0` there is nothing to show
    about the new entry. -/
theorem setEntry_of_all {entries : Nat → Nat} (h : ∀ j, entries j ≠ 0 → P (entries j)) {e : Nat}
    (he : e ≠ 0 → P e) (i j : Nat) : setEntry entries i e j ≠ 0 → P (setEntry entries i e j) := by
  rw [setEntry]
  split
  · exact he
  · exact h j

/-- A row that is there belongs to a node. -/
theorem Entries.row (h : Entries child mem root d P) {q : List Nat} (hq : q.length ≤ d)
    {r : Nat → Nat} (hr : row child mem root q = some r) (j : Nat) : r j ≠ 0 → P (r j) := by
  obtain ⟨b, hb, rfl⟩ := Option.map_eq_some_iff.mp hr
  exact h q b j hq hb

/-- The property survives a write to a leaf, if the new entry has it. -/
theorem Entries.write_leaf (h : Entries child mem root d P) (ht : Tree child mem root d)
    (hp : p.length = d) (ha : node child mem root p = some a) {e : Nat} (he : e ≠ 0 → P e) :
    Entries child (write mem a i e) root d P := by
  intro q b j hq hb
  have hrow := row_of_node hb
  rw [ht.row_write_leaf hp ha e hq] at hrow
  split at hrow
  · rw [← Option.some.inj hrow]
    exact setEntry_of_all (fun j => h p a j (Nat.le_of_eq hp) ha) he i j
  · exact h.row hq hrow j

/-- And hanging in a node, if the entry that leads to it has it; the new node has no entries. -/
theorem Entries.hang (h : Entries child mem root d P) (ht : Tree child mem root d)
    (hp : p.length < d) (ha : node child mem root p = some a) (hempty : mem a i = 0) {b e : Nat}
    (hfresh : ∀ q, q.length ≤ d → node child mem root q ≠ some b) (he : e ≠ 0)
    (hchild : child e = b) (hP : P e) : Entries child (Radix.hang mem a i b e) root d P := by
  intro q c j hq hc
  have hrow := row_of_node hc
  rw [ht.row_hang hp ha hempty hfresh he hchild hq] at hrow
  split at hrow
  · rw [← Option.some.inj hrow]
    exact fun h0 => absurd rfl h0
  · split at hrow
    · rw [← Option.some.inj hrow]
      exact setEntry_of_all (fun j => h p a j (Nat.le_of_lt hp) ha) (fun _ => hP) i j
    · exact h.row hq hrow j

end entries

end Nearlands.Lib.Radix
