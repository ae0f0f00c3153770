import Mathlib.Data.Finite.Sigma
import Mathlib.Data.Fintype.Card
import Mathlib.Data.List.Nodup
import Mathlib.Logic.Relation
import Mathlib.Order.WellFounded
import Mathlib.Data.Set.Finite.Basic
import Mathlib.Data.Fintype.EquivFin

/-!
# Forests threaded through arrays of links

A forest is stored in three link functions, `parent`, `first` and `next`, with a
value `nil` that ends every chain, and a predicate `V` for the nodes in use.
`Linked` reads a chain of `next` links as a list, and `Threaded` says that the
three functions describe one forest on `V`: parents stay inside `V` and lead to
`nil`, and the list at `first i` holds the nodes whose parent is `i`.

The rules at the end are the three ways such a forest changes: a new leaf is
hung below a node, everything below a node is dropped, and a leaf is unlinked.
-/

namespace Threaded

open Relation

variable {ι : Type}

/-! ## Chains of links -/

/-- The chain that starts at `a` visits `l` and ends in `nil`. -/
inductive Linked (next : ι → ι) (nil : ι) : ι → List ι → Prop
  | nil : Linked next nil nil []
  | cons {a : ι} {l : List ι} : a ≠ nil → Linked next nil (next a) l → Linked next nil a (a :: l)

namespace Linked

variable {next next' : ι → ι} {nil a : ι} {l l' : List ι}

theorem unique (h : Linked next nil a l) (h' : Linked next nil a l') : l = l' := by
  induction h generalizing l' with
  | nil =>
    cases h' with
    | nil => rfl
    | cons hne _ => exact absurd rfl hne
  | cons hne _ ih =>
    cases h' with
    | nil => exact absurd rfl hne
    | cons _ hrest => rw [ih hrest]

theorem congr (h : Linked next nil a l) (heq : ∀ x ∈ l, next' x = next x) :
    Linked next' nil a l := by
  induction h with
  | nil => exact .nil
  | @cons a l hne _ ih =>
    refine .cons hne ?_
    rw [heq a List.mem_cons_self]
    exact ih fun x hx => heq x (List.mem_cons_of_mem a hx)

/-- From a member of a chain the rest of the chain continues. -/
theorem suffix_of_mem (h : Linked next nil a l) {x : ι} (hx : x ∈ l) :
    ∃ s, Linked next nil x s ∧ s.length ≤ l.length := by
  induction h with
  | nil => exact absurd hx List.not_mem_nil
  | @cons a l hne hrest ih =>
    rcases List.mem_cons.mp hx with rfl | hx
    · exact ⟨x :: l, .cons hne hrest, Nat.le_refl _⟩
    · obtain ⟨s, hs, hlen⟩ := ih hx
      exact ⟨s, hs, Nat.le_succ_of_le hlen⟩

/-- A chain that ends never visits a node twice: the second visit would start
the same chain again. -/
theorem nodup (h : Linked next nil a l) : l.Nodup := by
  induction h with
  | nil => exact List.nodup_nil
  | @cons a l hne hrest ih =>
    refine List.nodup_cons.mpr ⟨fun ha => ?_, ih⟩
    obtain ⟨s, hs, hlen⟩ := hrest.suffix_of_mem ha
    have heq : s = a :: l := hs.unique (.cons hne hrest)
    rw [heq, List.length_cons] at hlen
    omega

theorem split {pre post : List ι} {x : ι} (h : Linked next nil a (pre ++ x :: post)) :
    Linked next nil x (x :: post) := by
  induction pre generalizing a with
  | nil =>
    cases h with
    | cons hne hrest => exact .cons hne hrest
  | cons y pre ih =>
    cases h with
    | cons _ hrest => exact ih hrest

/-- A node occurs once, so dropping it leaves the other nodes. -/
theorem mem_drop_iff {pre post : List ι} {x : ι} (h : Linked next nil a (pre ++ x :: post))
    (j : ι) : j ∈ pre ++ post ↔ j ∈ pre ++ x :: post ∧ j ≠ x := by
  have hx : x ∉ pre ++ post := by
    have hnodup := h.nodup
    rw [List.nodup_middle] at hnodup
    exact (List.nodup_cons.mp hnodup).1
  constructor
  · intro hj
    refine ⟨?_, fun heq => hx (heq ▸ hj)⟩
    rcases List.mem_append.mp hj with hj | hj
    · exact List.mem_append_left _ hj
    · exact List.mem_append_right _ (List.mem_cons_of_mem x hj)
  · rintro ⟨hj, hne⟩
    rcases List.mem_append.mp hj with hj | hj
    · exact List.mem_append_left _ hj
    · exact List.mem_append_right _ ((List.mem_cons.mp hj).resolve_left hne)

/-- Redirecting the link of `y` past its successor `x` removes `x`. -/
theorem unlink [DecidableEq ι] {pre post : List ι} {x y : ι}
    (h : Linked next nil a (pre ++ y :: x :: post)) :
    Linked (Function.update next y (next x)) nil a (pre ++ y :: post) := by
  have hnodup := h.nodup
  induction pre generalizing a with
  | nil =>
    rw [List.nil_append] at h hnodup ⊢
    cases h with
    | cons hne hrest =>
      have hxpost : next y = x ∧ Linked next nil (next x) post := by
        generalize hz : next y = z at hrest
        cases hrest with
        | cons _ hrest' => exact ⟨rfl, hrest'⟩
      refine .cons hne ?_
      rw [Function.update_self]
      refine hxpost.2.congr fun z hz => Function.update_of_ne (fun hzy => ?_) ..
      subst hzy
      exact (List.nodup_cons.mp hnodup).1 (List.mem_cons_of_mem x hz)
  | cons w pre ih =>
    rw [List.cons_append] at h hnodup ⊢
    cases h with
    | cons hne hrest =>
      have hwy : w ≠ y := fun hwy => (List.nodup_cons.mp hnodup).1 (by simp [hwy])
      refine .cons hne ?_
      rw [Function.update_of_ne hwy]
      exact ih hrest (List.nodup_cons.mp hnodup).2

end Linked

/-! ## Parents -/

/-- One step from a node to its parent. -/
def Up (parent : ι → ι) (nil : ι) (j i : ι) : Prop := parent j = i ∧ i ≠ nil

/-- Following parents from the node ends in `nil`. -/
inductive Rooted (parent : ι → ι) (nil : ι) : ι → Prop
  | nil : Rooted parent nil nil
  | step {i : ι} : Rooted parent nil (parent i) → Rooted parent nil i

section Up

variable {parent : ι → ι} {nil : ι}

theorem Rooted.acyclic {i : ι} (h : Rooted parent nil i) (hi : i ≠ nil) :
    ¬ TransGen (Up parent nil) i i := by
  induction h with
  | nil => exact absurd rfl hi
  | @step i _ ih =>
    intro hcycle
    -- The first step of the cycle leads to the parent, which is then on the same cycle.
    obtain ⟨p, ⟨hp, hpne⟩, hback⟩ := TransGen.head'_iff.mp hcycle
    subst hp
    exact ih hpne (TransGen.tail' hback ⟨rfl, hpne⟩)

/-- A chain of parents only sees the nodes it visits. -/
theorem Rooted.congr {parent' : ι → ι} {K : ι → Prop}
    (hclosed : ∀ j, K j → parent j = nil ∨ K (parent j))
    (hparent : ∀ j, K j → parent' j = parent j) {i : ι} (h : Rooted parent nil i) (hi : K i) :
    Rooted parent' nil i := by
  induction h with
  | nil => exact .nil
  | @step i _ ih =>
    refine .step ?_
    rw [hparent i hi]
    rcases hclosed i hi with hnil | hK
    · rw [hnil]
      exact .nil
    · exact ih hK

theorem up_rightUnique : Relator.RightUnique (Up parent nil) := by
  intro j i i' h h'
  exact h.1.symm.trans h'.1

/-- Two distinct children of one node have nothing below them in common. -/
theorem siblings_disjoint {i c c' j : ι} (hi : i ≠ nil) (hc : parent c = i) (hc' : parent c' = i)
    (hne : c ≠ c') (hac : ¬ TransGen (Up parent nil) c c)
    (hac' : ¬ TransGen (Up parent nil) c' c') (h : ReflTransGen (Up parent nil) j c)
    (h' : ReflTransGen (Up parent nil) j c') : False := by
  rcases ReflTransGen.total_of_right_unique up_rightUnique h h' with hcc | hcc
  · rcases ReflTransGen.cases_head hcc with heq | ⟨p, hp, hrest⟩
    · exact hne heq
    · have hpi : p = i := hp.1.symm.trans hc
      subst hpi
      exact hac' (TransGen.head' ⟨hc', hi⟩ hrest)
  · rcases ReflTransGen.cases_head hcc with heq | ⟨p, hp, hrest⟩
    · exact hne heq.symm
    · have hpi : p = i := hp.1.symm.trans hc'
      subst hpi
      exact hac (TransGen.head' ⟨hc, hi⟩ hrest)

end Up

/-! ## Threaded forests -/

end Threaded

open Threaded Relation in
/-- The links describe a forest on the nodes in `V`. -/
structure Threaded {ι : Type} (V : ι → Prop) (parent first next : ι → ι) (nil : ι) : Prop where
  nil_not : ¬ V nil
  closed : ∀ i, V i → parent i = nil ∨ V (parent i)
  rooted : ∀ i, V i → Rooted parent nil i
  children : ∀ i, V i → ∃ l, Linked next nil (first i) l ∧ l.Nodup ∧
    ∀ j, j ∈ l ↔ V j ∧ parent j = i

namespace Threaded

open Relation

variable {ι : Type} {V V' : ι → Prop} {parent parent' first first' next next' : ι → ι} {nil : ι}

theorem ne_nil (h : Threaded V parent first next nil) {i : ι} (hi : V i) : i ≠ nil :=
  fun heq => h.nil_not (heq ▸ hi)

theorem acyclic (h : Threaded V parent first next nil) {i : ι} (hi : V i) :
    ¬ TransGen (Up parent nil) i i := (h.rooted i hi).acyclic (h.ne_nil hi)

theorem up_mem (h : Threaded V parent first next nil) {j i : ι} (hj : V j)
    (hji : Up parent nil j i) : V i := by
  obtain ⟨rfl, hne⟩ := hji
  exact (h.closed j hj).resolve_left hne

theorem above_mem (h : Threaded V parent first next nil) {j i : ι} (hj : V j)
    (hji : ReflTransGen (Up parent nil) j i) : V i := by
  induction hji with
  | refl => exact hj
  | tail _ hstep ih => exact h.up_mem ih hstep

/-! ### The traversal -/

/-- Post-order traversal of the siblings from `a`, each after everything below
it. -/
inductive Walk (first next : ι → ι) (nil : ι) : ι → List ι → Prop
  | nil : Walk first next nil nil []
  | cons {a : ι} {l₁ l₂ : List ι} : a ≠ nil → Walk first next nil (first a) l₁ →
      Walk first next nil (next a) l₂ → Walk first next nil a (l₁ ++ a :: l₂)

theorem walk_of_linked {a : ι} {l : List ι} (h : Linked next nil a l) (f : ι → List ι)
    (hf : ∀ c ∈ l, Walk first next nil (first c) (f c)) :
    Walk first next nil a (l.flatMap fun c => f c ++ [c]) := by
  induction h with
  | nil => exact .nil
  | @cons a l hne _ ih =>
    have hrest := ih fun c hc => hf c (List.mem_cons_of_mem a hc)
    have hwalk := Walk.cons hne (hf a List.mem_cons_self) hrest
    simpa using hwalk

/-- Below every node of a finite forest there is a traversal, and it visits
exactly the strict descendants, each once. -/
theorem exists_walk (h : Threaded V parent first next nil) (hfin : Finite {i // V i}) (i : ι)
    (hi : V i) :
    ∃ l, Walk first next nil (first i) l ∧ l.Nodup ∧
      ∀ j, j ∈ l ↔ V j ∧ TransGen (Up parent nil) j i := by
  classical
  -- Descending in a finite acyclic forest is well-founded.
  let below : {i // V i} → {i // V i} → Prop := fun c p => TransGen (Up parent nil) c.1 p.1
  have : IsTrans _ below := ⟨fun _ _ _ hab hbc => hab.trans hbc⟩
  have : Std.Irrefl below := ⟨fun a ha => h.acyclic a.2 ha⟩
  have hwf : WellFounded below := Finite.wellFounded_of_trans_of_irrefl below
  suffices hall : ∀ p : {i // V i}, ∃ l, Walk first next nil (first p.1) l ∧ l.Nodup ∧
      ∀ j, j ∈ l ↔ V j ∧ TransGen (Up parent nil) j p.1 from hall ⟨i, hi⟩
  intro p
  induction p using hwf.induction with
  | h p ih =>
    obtain ⟨i, hi⟩ := p
    have hne := h.ne_nil hi
    obtain ⟨cs, hlinked, hnodup, hmem⟩ := h.children i hi
    have hchild : ∀ c, c ∈ cs → V c ∧ Up parent nil c i := fun c hc =>
      ⟨((hmem c).mp hc).1, ((hmem c).mp hc).2, hne⟩
    have hsub : ∀ c, ∃ l, c ∈ cs → Walk first next nil (first c) l ∧ l.Nodup ∧
        ∀ j, j ∈ l ↔ V j ∧ TransGen (Up parent nil) j c := by
      intro c
      by_cases hc : c ∈ cs
      · obtain ⟨hV, hup⟩ := hchild c hc
        obtain ⟨l, hl⟩ := ih ⟨c, hV⟩ (TransGen.single hup)
        exact ⟨l, fun _ => hl⟩
      · exact ⟨[], fun hc' => absurd hc' hc⟩
    choose f hf using hsub
    have hfc : ∀ c j, c ∈ cs → (j ∈ f c ++ [c] ↔ V j ∧ ReflTransGen (Up parent nil) j c) := by
      intro c j hc
      rw [List.mem_append, List.mem_singleton, (hf c hc).2.2 j, reflTransGen_iff_eq_or_transGen]
      constructor
      · rintro (⟨hV, hj⟩ | rfl)
        · exact ⟨hV, Or.inr hj⟩
        · exact ⟨(hchild j hc).1, Or.inl rfl⟩
      · rintro ⟨hV, heq | hj⟩
        · exact Or.inr heq.symm
        · exact Or.inl ⟨hV, hj⟩
    refine ⟨cs.flatMap fun c => f c ++ [c], walk_of_linked hlinked f fun c hc => (hf c hc).1,
      ?_, fun j => ?_⟩
    · refine List.nodup_flatMap.mpr ⟨fun c hc => ?_, ?_⟩
      · refine List.nodup_append.mpr ⟨(hf c hc).2.1, List.nodup_singleton c, ?_⟩
        intro j hj c' hc' heq
        rw [List.mem_singleton] at hc'
        subst heq hc'
        exact h.acyclic (hchild j hc).1 (((hf j hc).2.2 j).mp hj).2
      · refine List.Pairwise.imp_of_mem (fun {c c'} hc hc' hcc' => ?_) hnodup
        intro j hj hj'
        exact siblings_disjoint hne (hchild c hc).2.1 (hchild c' hc').2.1 hcc'
          (h.acyclic (hchild c hc).1) (h.acyclic (hchild c' hc').1)
          ((hfc c j hc).mp hj).2 ((hfc c' j hc').mp hj').2
    · rw [List.mem_flatMap]
      constructor
      · rintro ⟨c, hc, hj⟩
        obtain ⟨hV, hjc⟩ := (hfc c j hc).mp hj
        exact ⟨hV, TransGen.tail' hjc (hchild c hc).2⟩
      · rintro ⟨hV, hji⟩
        obtain ⟨c, hjc, hci⟩ := TransGen.tail'_iff.mp hji
        have hc : c ∈ cs := (hmem c).mpr ⟨h.above_mem hV hjc, hci.1⟩
        exact ⟨c, hc, (hfc c j hc).mpr ⟨hV, hjc⟩⟩

/-! ### The three changes -/

/-- A fresh node `x` is hung at the front of the children of `p`, or made a
root. -/
theorem insert (h : Threaded V parent first next nil) {x p : ι} (hx : ¬ V x) (hxnil : x ≠ nil)
    (hp : p = nil ∨ V p) (hV' : ∀ j, V' j ↔ V j ∨ j = x) (hparentx : parent' x = p)
    (hparent : ∀ j, V j → parent' j = parent j) (hnext : ∀ j, V j → next' j = next j)
    (hfirstx : first' x = nil) (hfirst : ∀ j, V j → j ≠ p → first' j = first j)
    (hlink : V p → first' p = x ∧ next' x = first p) :
    Threaded V' parent' first' next' nil := by
  have hxne : ∀ {j}, V j → j ≠ x := fun hj heq => hx (heq ▸ hj)
  refine ⟨fun hn => ?_, fun i hi => ?_, fun i hi => ?_, fun i hi => ?_⟩
  · rcases (hV' nil).mp hn with hn | hn
    · exact h.nil_not hn
    · exact hxnil hn.symm
  · rcases (hV' i).mp hi with hi | rfl
    · rw [hparent i hi]
      exact (h.closed i hi).imp_right fun hV => (hV' _).mpr (Or.inl hV)
    · rw [hparentx]
      exact hp.imp_right fun hV => (hV' _).mpr (Or.inl hV)
  · rcases (hV' i).mp hi with hi | rfl
    · exact (h.rooted i hi).congr h.closed hparent hi
    · refine .step ?_
      rw [hparentx]
      rcases hp with rfl | hV
      · exact .nil
      · exact (h.rooted p hV).congr h.closed hparent hV
  · rcases (hV' i).mp hi with hVi | rfl
    · obtain ⟨l, hl, hnodup, hmem⟩ := h.children i hVi
      have hlx : x ∉ l := fun hxl => hx ((hmem x).mp hxl).1
      have hl' : Linked next' nil (first i) l := hl.congr fun j hj => hnext j ((hmem j).mp hj).1
      by_cases hip : i = p
      · subst hip
        obtain ⟨hfx, hnx⟩ := hlink hVi
        refine ⟨x :: l, ?_, List.nodup_cons.mpr ⟨hlx, hnodup⟩, fun j => ?_⟩
        · rw [hfx]
          exact .cons hxnil (hnx ▸ hl')
        · rw [List.mem_cons, hV' j]
          constructor
          · rintro (rfl | hj)
            · exact ⟨Or.inr rfl, hparentx⟩
            · obtain ⟨hVj, hpj⟩ := (hmem j).mp hj
              exact ⟨Or.inl hVj, (hparent j hVj).trans hpj⟩
          · rintro ⟨hVj | rfl, hpj⟩
            · exact Or.inr ((hmem j).mpr ⟨hVj, (hparent j hVj).symm.trans hpj⟩)
            · exact Or.inl rfl
      · refine ⟨l, hfirst i hVi hip ▸ hl', hnodup, fun j => ?_⟩
        rw [hV' j]
        constructor
        · intro hj
          obtain ⟨hVj, hpj⟩ := (hmem j).mp hj
          exact ⟨Or.inl hVj, (hparent j hVj).trans hpj⟩
        · rintro ⟨hVj | rfl, hpj⟩
          · exact (hmem j).mpr ⟨hVj, (hparent j hVj).symm.trans hpj⟩
          · exact absurd (hpj.symm.trans hparentx) hip
    · -- The fresh node has no children: every parent was a node in use.
      refine ⟨[], hfirstx ▸ .nil, List.nodup_nil, fun j => ?_⟩
      refine ⟨fun hj => absurd hj List.not_mem_nil, ?_⟩
      rintro ⟨hVj, hpj⟩
      rcases (hV' j).mp hVj with hVj | rfl
      · rw [hparent j hVj] at hpj
        rcases h.closed j hVj with hnil | hV
        · exact absurd (hpj.symm.trans hnil) hxnil
        · exact absurd (hpj ▸ hV) hx
      · rcases hp with rfl | hV
        · exact absurd (hpj.symm.trans hparentx) hxnil
        · exact absurd (hpj.symm.trans hparentx ▸ hV) hx

/-- Everything strictly below `x` is dropped. -/
theorem prune (h : Threaded V parent first next nil) {x : ι}
    (hV' : ∀ j, V' j ↔ V j ∧ ¬ TransGen (Up parent nil) j x)
    (hparent : ∀ j, V' j → parent' j = parent j) (hnext : ∀ j, V' j → next' j = next j)
    (hfirstx : first' x = nil) (hfirst : ∀ j, V' j → j ≠ x → first' j = first j) :
    Threaded V' parent' first' next' nil := by
  have hsub : ∀ {j}, V' j → V j := fun hj => ((hV' _).mp hj).1
  -- A parent of a kept node is kept, since the node would be below `x` with it.
  have hkeep : ∀ {j}, V' j → parent j = nil ∨ V' (parent j) := by
    intro j hj
    obtain ⟨hVj, hnot⟩ := (hV' j).mp hj
    refine (h.closed j hVj).imp_right fun hV => (hV' _).mpr ⟨hV, fun hbelow => hnot ?_⟩
    exact TransGen.head ⟨rfl, h.ne_nil hV⟩ hbelow
  refine ⟨fun hn => h.nil_not (hsub hn), fun i hi => ?_, fun i hi => ?_, fun i hi => ?_⟩
  · rw [hparent i hi]
    exact hkeep hi
  · exact (h.rooted i (hsub hi)).congr (fun j => hkeep) hparent hi
  · by_cases hix : i = x
    · subst hix
      refine ⟨[], hfirstx ▸ .nil, List.nodup_nil, fun j => ?_⟩
      refine ⟨fun hj => absurd hj List.not_mem_nil, ?_⟩
      rintro ⟨hVj, hpj⟩
      rw [hparent j hVj] at hpj
      exact absurd (TransGen.single ⟨hpj, h.ne_nil (hsub hi)⟩) ((hV' j).mp hVj).2
    · obtain ⟨l, hl, hnodup, hmem⟩ := h.children i (hsub hi)
      have hmem' : ∀ j, j ∈ l ↔ V' j ∧ parent j = i := by
        intro j
        rw [hmem j, hV' j, and_assoc]
        refine ⟨fun ⟨hVj, hpj⟩ => ⟨hVj, fun hbelow => ?_, hpj⟩, fun ⟨hVj, _, hpj⟩ => ⟨hVj, hpj⟩⟩
        obtain ⟨p, hp, hrest⟩ := TransGen.head'_iff.mp hbelow
        have hpi : p = i := hp.1.symm.trans hpj
        subst hpi
        rcases reflTransGen_iff_eq_or_transGen.mp hrest with heq | hbelow'
        · exact hix heq.symm
        · exact ((hV' p).mp hi).2 hbelow'
      refine ⟨l, hfirst i hi hix ▸ hl.congr fun j hj => hnext j ((hmem' j).mp hj).1, hnodup,
        fun j => ?_⟩
      rw [hmem' j]
      exact and_congr_right fun hVj => by rw [hparent j hVj]

/-- A node `x` without children is taken out, and the list of its parent has
been relinked without it. -/
theorem removeLeaf (h : Threaded V parent first next nil) {x : ι} (hx : V x)
    (hleaf : first x = nil) (hV' : ∀ j, V' j ↔ V j ∧ j ≠ x)
    (hparent : ∀ j, V' j → parent' j = parent j)
    (hnext : ∀ j, V' j → parent j ≠ parent x → next' j = next j)
    (hfirst : ∀ j, V' j → j ≠ parent x → first' j = first j)
    (hrelink : ∀ l, V (parent x) → Linked next nil (first (parent x)) l → x ∈ l →
      ∃ l', Linked next' nil (first' (parent x)) l' ∧ ∀ j, j ∈ l' ↔ j ∈ l ∧ j ≠ x) :
    Threaded V' parent' first' next' nil := by
  have hsub : ∀ {j}, V' j → V j := fun hj => ((hV' _).mp hj).1
  have hnochild : ∀ {j}, V j → parent j ≠ x := by
    intro j hj hpj
    obtain ⟨l, hl, -, hmem⟩ := h.children x hx
    rw [hleaf] at hl
    have hlnil : l = [] := hl.unique .nil
    have hjl := (hmem j).mpr ⟨hj, hpj⟩
    rw [hlnil] at hjl
    exact absurd hjl List.not_mem_nil
  have hkeep : ∀ {j}, V' j → parent j = nil ∨ V' (parent j) := fun {j} hj =>
    (h.closed j (hsub hj)).imp_right fun hV => (hV' _).mpr ⟨hV, hnochild (hsub hj)⟩
  refine ⟨fun hn => h.nil_not (hsub hn), fun i hi => ?_, fun i hi => ?_, fun i hi => ?_⟩
  · rw [hparent i hi]
    exact hkeep hi
  · exact (h.rooted i (hsub hi)).congr (fun j => hkeep) hparent hi
  · obtain ⟨l, hl, hnodup, hmem⟩ := h.children i (hsub hi)
    have hcount : ∀ j, j ∈ l ∧ j ≠ x ↔ V' j ∧ parent' j = i := by
      intro j
      rw [hmem j, hV' j, and_right_comm]
      refine and_congr_right fun hVj => ?_
      rw [hparent j ((hV' j).mpr hVj)]
    by_cases hip : i = parent x
    · subst hip
      obtain ⟨l', hl', hmem'⟩ := hrelink l (hsub hi) hl ((hmem x).mpr ⟨hx, rfl⟩)
      exact ⟨l', hl', hl'.nodup, fun j => (hmem' j).trans (hcount j)⟩
    · have hxl : ∀ {j}, j ∈ l → j ≠ x := fun hj heq => hip (heq ▸ ((hmem _).mp hj).2).symm
      refine ⟨l, hfirst i hi hip ▸ hl.congr fun j hj => ?_, hnodup, fun j => ?_⟩
      · obtain ⟨hVj, hpj⟩ := (hmem j).mp hj
        exact hnext j ((hV' j).mpr ⟨hVj, hxl hj⟩) (hpj ▸ hip)
      · rw [← hcount j]
        exact ⟨fun hj => ⟨hj, hxl hj⟩, fun hj => hj.1⟩

end Threaded
