/-
Radix tables threaded through a flat memory.

A table is named by a pointer, an index selects one of its cells, and the value
in a cell may name the table one level down.  A walk follows a path of indices
from the root and reads the cell it ends in.

Two tables reached by different paths must not share cells, or a write through
one path would show through another.  `Labelled` says so with a ghost labelling:
every table in use is labelled with the path that leads to it, and a pointer
found in a table labelled `path` at index `i` is labelled `path ++ [i]`.  Under
that invariant `Labelled.read_write` and `Labelled.read_link` say what the two
mutations do: a write to a bottom cell changes the one path that ends there, and
linking a fresh empty table under an absent entry changes no path at all.
-/
import Mathlib.Logic.Function.Basic
import Mathlib.Data.List.Basic

namespace Radix

/-- How tables are laid out in memory: the address of a cell, the table a cell
value points to, and the value that stands for an absent entry. -/
structure Layout (P I A V : Type) where
  cell : P → I → A
  next : V → Option P
  absent : V
  next_absent : next absent = none

variable {P I A V : Type} (L : Layout P I A V)

/-- The table at the end of the path from `p`. -/
def walk (mem : A → V) : P → List I → Option P
  | p, [] => some p
  | p, i :: path => (L.next (mem (L.cell p i))).bind fun q => walk mem q path

/-- The value in cell `k` of the table at the end of the path; below a missing
table every entry is absent. -/
def read (mem : A → V) (root : P) (path : List I) (k : I) : V :=
  match walk L mem root path with
  | none => L.absent
  | some q => mem (L.cell q k)

/-- Every table in use carries the path that leads to it, and different tables
have no cell in common.  Indices are those that meet `idx`; pointers are followed
from tables whose path is shorter than `depth`. -/
structure Labelled (idx : I → Prop) (depth : Nat) (mem : A → V) (root : P)
    (label : P → Option (List I)) : Prop where
  root : label root = some []
  child : ∀ {p path i q}, label p = some path → path.length < depth → idx i →
    L.next (mem (L.cell p i)) = some q → label q = some (path ++ [i])
  inj : ∀ {p q i j}, label p ≠ none → label q ≠ none → idx i → idx j →
    L.cell p i = L.cell q j → p = q ∧ i = j

section
variable {L} {idx : I → Prop} {depth : Nat} {mem mem' : A → V} {root : P}
  {label : P → Option (List I)}

/-- A root without entries is the only table in use. -/
theorem labelled_root [DecidableEq P] (habsent : ∀ {i}, idx i → mem (L.cell root i) = L.absent)
    (hinj : ∀ {i j}, idx i → idx j → L.cell root i = L.cell root j → i = j) :
    Labelled L idx depth mem root fun q => if q = root then some [] else none := by
  have honly : ∀ {q : P}, (if q = root then some ([] : List I) else none) ≠ none → q = root := by
    intro q hq
    by_contra hne
    exact hq (if_neg hne)
  refine ⟨if_pos rfl, ?_, ?_⟩
  · intro q path i r hq _ hi hnext
    have hqr : q = root := honly (ne_of_eq_of_ne hq (Option.some_ne_none path))
    rw [hqr, habsent hi, L.next_absent] at hnext
    cases hnext
  · intro q r i j hq hr hi hj hcell
    rw [honly hq, honly hr] at hcell ⊢
    exact ⟨rfl, hinj hi hj hcell⟩

/-- A walk ends in a table labelled with the path it took. -/
theorem Labelled.label_of_walk (h : Labelled L idx depth mem root label) {p q : P}
    {done path : List I} (hp : label p = some done) (hlen : done.length + path.length ≤ depth)
    (hpath : ∀ i ∈ path, idx i) (hwalk : walk L mem p path = some q) :
    label q = some (done ++ path) := by
  induction path generalizing p done with
  | nil =>
    cases hwalk
    rw [List.append_nil]
    exact hp
  | cons i path ih =>
    obtain ⟨t, ht, hrest⟩ := Option.bind_eq_some_iff.mp hwalk
    rw [List.length_cons] at hlen
    have hlabel : label t = some (done ++ [i]) :=
      h.child hp (by omega) (hpath i List.mem_cons_self) ht
    have hlen' : (done ++ [i]).length + path.length ≤ depth := by
      rw [List.length_append, List.length_singleton]
      omega
    have := ih hlabel hlen' (fun j hj => hpath j (List.mem_cons_of_mem i hj)) hrest
    rw [this, List.append_assoc, List.singleton_append]

/-- A walk only looks at tables above the bottom, so it does not see writes
elsewhere. -/
theorem Labelled.walk_congr (h : Labelled L idx depth mem root label)
    (hsame : ∀ {q path j}, label q = some path → path.length < depth → idx j →
      mem' (L.cell q j) = mem (L.cell q j))
    {p : P} {done path : List I} (hp : label p = some done)
    (hlen : done.length + path.length ≤ depth) (hpath : ∀ i ∈ path, idx i) :
    walk L mem' p path = walk L mem p path := by
  induction path generalizing p done with
  | nil => rfl
  | cons i path ih =>
    have hi : idx i := hpath i List.mem_cons_self
    rw [List.length_cons] at hlen
    simp only [walk, hsame hp (by omega) hi]
    cases hnext : L.next (mem (L.cell p i)) with
    | none => rfl
    | some q =>
      refine ih (h.child hp (by omega) hi hnext) ?_ (fun j hj => hpath j (List.mem_cons_of_mem i hj))
      rw [List.length_append, List.length_singleton]
      omega

/-- Memory that differs only outside the tables holds the same tree. -/
theorem Labelled.congr (h : Labelled L idx depth mem root label)
    (hsame : ∀ {q j}, label q ≠ none → idx j → mem' (L.cell q j) = mem (L.cell q j)) :
    Labelled L idx depth mem' root label where
  root := h.root
  inj := h.inj
  child := by
    intro p path i q hp hlen hi hnext
    rw [hsame (by simp [hp]) hi] at hnext
    exact h.child hp hlen hi hnext

theorem Labelled.read_congr (h : Labelled L idx depth mem root label)
    (hsame : ∀ {q j}, label q ≠ none → idx j → mem' (L.cell q j) = mem (L.cell q j))
    {path : List I} (hlen : path.length = depth) (hpath : ∀ i ∈ path, idx i) {k : I} (hk : idx k) :
    read L mem' root path k = read L mem root path k := by
  have hwalk : walk L mem' root path = walk L mem root path :=
    h.walk_congr (fun hq _ hj => hsame (by simp [hq]) hj) h.root (by simp [hlen]) hpath
  simp only [read, hwalk]
  cases hw : walk L mem root path with
  | none => rfl
  | some q =>
    have hq : label q = some path := h.label_of_walk h.root (by simp [hlen]) hpath hw
    exact hsame (by simp [hq]) hk

theorem read_of_empty {t : P} (hempty : ∀ i, idx i → mem (L.cell t i) = L.absent)
    {path : List I} (hpath : ∀ i ∈ path, idx i) {k : I} (hk : idx k) :
    read L mem t path k = L.absent := by
  cases path with
  | nil => exact hempty k hk
  | cons i path =>
    have hnext : L.next (mem (L.cell t i)) = none := by
      rw [hempty i (hpath i List.mem_cons_self)]
      exact L.next_absent
    simp only [read, walk, hnext, Option.bind_none]

theorem read_cons_of_none {p : P} {i : I} (h : L.next (mem (L.cell p i)) = none) (path : List I)
    (k : I) : read L mem p (i :: path) k = L.absent := by
  simp only [read, walk, h, Option.bind_none]

theorem read_cons_of_some {p q : P} {i : I} (h : L.next (mem (L.cell p i)) = some q)
    (path : List I) (k : I) : read L mem p (i :: path) k = read L mem q path k := by
  simp only [read, walk, h, Option.bind_some]

theorem walk_concat {p q : P} {path : List I} (h : walk L mem p path = some q) (i : I) :
    walk L mem p (path ++ [i]) = L.next (mem (L.cell q i)) := by
  induction path generalizing p with
  | nil =>
    cases h
    exact Option.bind_fun_some _
  | cons j path ih =>
    obtain ⟨r, hr, hrest⟩ := Option.bind_eq_some_iff.mp h
    simp only [List.cons_append, walk, hr, Option.bind_some]
    exact ih hrest

/-! ### Writing a bottom cell -/

section Write

variable [DecidableEq A]

theorem Labelled.write (h : Labelled L idx depth mem root label) {p : P} {path : List I} {k : I}
    (hp : label p = some path) (hdepth : path.length = depth) (hk : idx k) (v : V) :
    Labelled L idx depth (Function.update mem (L.cell p k) v) root label where
  root := h.root
  inj := h.inj
  child := by
    intro q done i t hq hlen hi hnext
    have hne : L.cell q i ≠ L.cell p k := by
      intro heq
      have hqp := (h.inj (by simp [hq]) (by simp [hp]) hi hk heq).1
      rw [hqp, hp] at hq
      cases hq
      omega
    rw [Function.update_of_ne hne] at hnext
    exact h.child hq hlen hi hnext

/-- A write to a cell of a bottom table is seen through one path only. -/
theorem Labelled.read_write [DecidableEq I] (h : Labelled L idx depth mem root label) {p : P} {dest : List I}
    {k : I} (hwalk : walk L mem root dest = some p) (hdepth : dest.length = depth)
    (hto : ∀ i ∈ dest, idx i) (hk : idx k) (v : V) {path : List I} (hlen : path.length = depth)
    (hpath : ∀ i ∈ path, idx i) {j : I} (hj : idx j) :
    read L (Function.update mem (L.cell p k) v) root path j =
      if path = dest ∧ j = k then v else read L mem root path j := by
  have hp : label p = some dest := h.label_of_walk h.root (by simp [hdepth]) hto hwalk
  have hsame : walk L (Function.update mem (L.cell p k) v) root path = walk L mem root path := by
    refine h.walk_congr ?_ h.root (by simp [hlen]) hpath
    intro q done i hq hshort hi
    refine Function.update_of_ne ?_ _ _
    intro heq
    rw [(h.inj (by simp [hq]) (by simp [hp]) hi hk heq).1, hp] at hq
    cases hq
    omega
  simp only [read, hsame]
  cases hw : walk L mem root path with
  | none =>
    have hne : path ≠ dest := by
      intro heq
      rw [heq, hwalk] at hw
      cases hw
    rw [if_neg fun hc => hne hc.1]
  | some q =>
    have hq : label q = some path := h.label_of_walk h.root (by simp [hlen]) hpath hw
    by_cases hc : path = dest ∧ j = k
    · obtain ⟨rfl, rfl⟩ := hc
      rw [hwalk] at hw
      cases hw
      rw [if_pos ⟨rfl, rfl⟩]
      exact Function.update_self ..
    · rw [if_neg hc]
      refine Function.update_of_ne ?_ _ _
      intro heq
      obtain ⟨hqp, hjk⟩ := h.inj (by simp [hq]) (by simp [hp]) hj hk heq
      rw [hqp, hp] at hq
      cases hq
      exact hc ⟨rfl, hjk⟩

end Write

/-! ### Linking a fresh table -/

section Link

variable [DecidableEq P]

/-- What linking does to memory: entry `i` of `p`, absent before, points to the
empty table `t`, and the other cells in use keep their values. -/
structure Links (L : Layout P I A V) (idx : I → Prop) (label : P → Option (List I))
    (mem mem' : A → V) (p : P) (i : I) (t : P) : Prop where
  was_absent : L.next (mem (L.cell p i)) = none
  linked : L.next (mem' (L.cell p i)) = some t
  fresh : label t = none
  empty : ∀ j, idx j → mem' (L.cell t j) = L.absent
  other : ∀ {q j}, label q ≠ none → idx j → (q ≠ p ∨ j ≠ i) →
    mem' (L.cell q j) = mem (L.cell q j)

theorem Labelled.link (h : Labelled L idx depth mem root label) {p t : P} {path : List I} {i : I}
    (hp : label p = some path) (hlink : Links L idx label mem mem' p i t)
    (hinj : ∀ {q j k}, label q ≠ none → idx j → idx k → L.cell q j ≠ L.cell t k)
    (hself : ∀ {j k}, idx j → idx k → L.cell t j = L.cell t k → j = k) :
    Labelled L idx depth mem' root (Function.update label t (some (path ++ [i]))) := by
  have hne : ∀ {q}, label q ≠ none → q ≠ t := by
    intro q hq heq
    rw [heq] at hq
    exact hq hlink.fresh
  refine ⟨?_, ?_, ?_⟩
  · rw [Function.update_of_ne (hne (by simp [h.root]))]
    exact h.root
  · intro q done j r hq hlen hj hnext
    by_cases hqt : q = t
    · subst hqt
      rw [hlink.empty j hj, L.next_absent] at hnext
      cases hnext
    rw [Function.update_of_ne hqt] at hq
    by_cases hcell : q = p ∧ j = i
    · obtain ⟨rfl, rfl⟩ := hcell
      rw [hlink.linked] at hnext
      cases hnext
      rw [hp] at hq
      cases hq
      exact Function.update_self ..
    · rw [hlink.other (by simp [hq]) hj (not_and_or.mp hcell)] at hnext
      have hr := h.child hq hlen hj hnext
      rw [Function.update_of_ne (hne (by simp [hr]))]
      exact hr
  · intro q r j k hq hr hj hk heq
    by_cases hqt : q = t <;> by_cases hrt : r = t
    · subst hqt
      subst hrt
      exact ⟨rfl, hself hj hk heq⟩
    · rw [Function.update_of_ne hrt] at hr
      rw [hqt] at heq
      exact absurd heq.symm (hinj hr hk hj)
    · rw [Function.update_of_ne hqt] at hq
      rw [hrt] at heq
      exact absurd heq (hinj hq hj hk)
    · rw [Function.update_of_ne hqt] at hq
      rw [Function.update_of_ne hrt] at hr
      exact h.inj hq hr hj hk heq

/-- Linking a fresh empty table is not seen by any read of full depth. -/
theorem Labelled.read_link (h : Labelled L idx depth mem root label) {p t : P} {dest : List I}
    {i : I} (hp : label p = some dest) (hto : dest.length < depth)
    (hlink : Links L idx label mem mem' p i t) {q : P} {done path : List I}
    (hq : label q = some done) (hlen : done.length + path.length = depth)
    (hpath : ∀ j ∈ path, idx j) {k : I} (hk : idx k) :
    read L mem' q path k = read L mem q path k := by
  induction path generalizing q done with
  | nil =>
    have hne : q ≠ p := by
      intro heq
      rw [heq, hp] at hq
      cases hq
      simp only [List.length_nil] at hlen
      omega
    exact hlink.other (by simp [hq]) hk (Or.inl hne)
  | cons j path ih =>
    have hj : idx j := hpath j List.mem_cons_self
    have hrest : ∀ l ∈ path, idx l := fun l hl => hpath l (List.mem_cons_of_mem j hl)
    rw [List.length_cons] at hlen
    by_cases hcell : q = p ∧ j = i
    · -- the new table is empty, and the old entry led nowhere
      obtain ⟨rfl, rfl⟩ := hcell
      have hnew : read L mem' q (j :: path) k = read L mem' t path k := by
        simp only [read, walk, hlink.linked, Option.bind_some]
      have hold : read L mem q (j :: path) k = L.absent := by
        simp only [read, walk, hlink.was_absent, Option.bind_none]
      rw [hnew, hold]
      exact read_of_empty hlink.empty hrest hk
    · have hsame := hlink.other (by simp [hq]) hj (not_and_or.mp hcell)
      simp only [read, walk, hsame]
      cases hnext : L.next (mem (L.cell q j)) with
      | none => rfl
      | some r =>
        refine ih (h.child hq (by omega) hj hnext) ?_ hrest
        rw [List.length_append, List.length_singleton]
        omega

/-- Where a walk from `q` ends after the link.  The table `p` that was extended is the one
a walk from `q` finds under its path. -/
theorem Labelled.walk_link_from [DecidableEq I] (h : Labelled L idx depth mem root label) {p t : P}
    {dest : List I} {i : I} (hp : label p = some dest) (hlink : Links L idx label mem mem' p i t)
    {q : P} {done path : List I} (hq : label q = some done)
    (hlen : done.length + path.length ≤ depth) (hpath : ∀ j ∈ path, idx j)
    (hnew : done ≠ dest ++ [i])
    (hreach : ∀ rest, done ++ rest = dest → walk L mem q rest = some p) :
    walk L mem' q path = if done ++ path = dest ++ [i] then some t else walk L mem q path := by
  induction path generalizing q done with
  | nil =>
    rw [List.append_nil, if_neg hnew]
    rfl
  | cons j path ih =>
    have hj : idx j := hpath j List.mem_cons_self
    have hrest : ∀ l ∈ path, idx l := fun l hl => hpath l (List.mem_cons_of_mem j hl)
    rw [List.length_cons] at hlen
    by_cases hcell : q = p ∧ j = i
    · -- this is the entry that was linked, and the table behind it is empty
      obtain ⟨rfl, rfl⟩ := hcell
      obtain rfl : dest = done := Option.some.inj (hp.symm.trans hq)
      have hold : walk L mem q (j :: path) = none := by
        simp only [walk, hlink.was_absent, Option.bind_none]
      have hstep : walk L mem' q (j :: path) = walk L mem' t path := by
        simp only [walk, hlink.linked, Option.bind_some]
      rw [hold, hstep]
      cases path with
      | nil => exact (if_pos rfl).symm
      | cons k path =>
        rw [if_neg (by simp)]
        simp only [walk, hlink.empty k (hrest k List.mem_cons_self), L.next_absent,
          Option.bind_none]
    · have hsame := hlink.other (by simp [hq]) hj (not_and_or.mp hcell)
      have hstop : done ≠ dest ∨ j ≠ i := by
        by_contra hboth
        simp only [not_or, not_not] at hboth
        have hqp : walk L mem q [] = some p := hreach [] (by rw [List.append_nil, hboth.1])
        exact hcell ⟨Option.some.inj hqp, hboth.2⟩
      simp only [walk, hsame]
      cases hnext : L.next (mem (L.cell q j)) with
      | none =>
        rw [if_neg, Option.bind_none, Option.bind_none]
        intro heq
        rcases List.eq_nil_or_concat path with rfl | ⟨init, last, rfl⟩
        · obtain ⟨hdone, hji⟩ := List.append_inj' heq rfl
          exact hstop.elim (fun hne => hne hdone) (fun hne => hne (List.head_eq_of_cons_eq hji))
        · have hcut : (done ++ j :: init) ++ [last] = dest ++ [i] := by
            rw [← heq, List.append_assoc, List.cons_append, List.concat_eq_append]
          have hwalk := hreach (j :: init) (List.append_inj' hcut rfl).1
          simp only [walk, hnext, Option.bind_none] at hwalk
          cases hwalk
      | some r =>
        have hlabel := h.child hq (by omega) hj hnext
        have hsplit : done ++ j :: path = (done ++ [j]) ++ path := by simp
        rw [hsplit]
        refine ih hlabel ?_ hrest ?_ ?_
        · rw [List.length_append, List.length_singleton]
          omega
        · intro heq
          obtain ⟨hdone, hji⟩ := List.append_inj' heq rfl
          exact hstop.elim (fun hne => hne hdone) (fun hne => hne (List.head_eq_of_cons_eq hji))
        · intro rest heq
          have hwalk := hreach (j :: rest) (by rw [← heq, List.append_assoc, List.singleton_append])
          simpa only [walk, hnext, Option.bind_some] using hwalk

/-- Linking a table adds the one path that leads to it. -/
theorem Labelled.walk_link [DecidableEq I] (h : Labelled L idx depth mem root label) {p t : P}
    {dest : List I} {i : I} (hwalk : walk L mem root dest = some p) (hdepth : dest.length < depth)
    (hdest : ∀ j ∈ dest, idx j) (hlink : Links L idx label mem mem' p i t) {path : List I}
    (hlen : path.length ≤ depth) (hpath : ∀ j ∈ path, idx j) :
    walk L mem' root path = if path = dest ++ [i] then some t else walk L mem root path := by
  have hp : label p = some dest := h.label_of_walk h.root (by simp; omega) hdest hwalk
  refine h.walk_link_from hp hlink h.root (by simpa using hlen) hpath (by simp) ?_
  rintro rest rfl
  exact hwalk

end Link
end
end Radix
