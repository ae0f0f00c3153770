import Moonlight.Capability.Mdb
import Moonlight.Lib.Threaded

/-!
# The mapping database is a forest

`Mdb.Forest` instantiates the threaded forests of the library at the link fields
of the node array.  Insertion, revocation and deletion are the library's three
changes; the work here is to show that the walks of the code perform them.

Revocation clears nodes while it walks over them, but only their `valid` flag
and capability.  The links it follows are those of the initial array, so its
effect is a fold of `Mdb.clear` over the traversal of the subtree.
-/

namespace Moonlight

open Mdb (nil)
open Relation Threaded

namespace Mdb

def parentOf (mdb : Mdb) (i : Nat) : Nat := (mdb.nodes i).parent

def firstOf (mdb : Mdb) (i : Nat) : Nat := (mdb.nodes i).firstChild

def nextOf (mdb : Mdb) (i : Nat) : Nat := (mdb.nodes i).nextSibling

/-- The valid nodes form a forest: parents are valid and lead to `nil`, and each
list of children is finite, without repetition and exact. -/
def Forest (mdb : Mdb) : Prop :=
  Threaded mdb.Valid mdb.parentOf mdb.firstOf mdb.nextOf nil

/-- One step from a node to its parent. -/
def Parent (mdb : Mdb) : Nat → Nat → Prop := Up mdb.parentOf nil

theorem not_valid_nil (mdb : Mdb) : ¬ mdb.Valid nil := fun h => absurd h.1 (by decide)

theorem finite_valid (mdb : Mdb) : Finite {i // mdb.Valid i} :=
  Finite.of_injective (fun i : {i // mdb.Valid i} => (⟨i.1, i.2.1⟩ : Fin maxMdbNodes))
    fun _ _ h => Subtype.ext (Fin.mk.inj h)

/-! ### Clearing a traversal -/

theorem clear_nodes (mdb : Mdb) (i j : Nat) :
    (mdb.clear i).nodes j =
      if j = i then { mdb.nodes j with cap := Cap.zero, valid := false } else mdb.nodes j := by
  by_cases h : j = i
  · subst h
    simp [clear]
  · simp [clear, h]

theorem clearAll_nodes (l : List Nat) (mdb : Mdb) (j : Nat) :
    (l.foldl clear mdb).nodes j =
      if j ∈ l then { mdb.nodes j with cap := Cap.zero, valid := false } else mdb.nodes j := by
  induction l generalizing mdb with
  | nil => simp
  | cons i l ih =>
    rw [List.foldl_cons, ih, clear_nodes]
    by_cases hji : j = i
    · subst hji
      simp
    · simp [hji]

theorem clearAll_count (l : List Nat) (mdb : Mdb) :
    (l.foldl clear mdb).count = mdb.count - UInt32.ofNat l.length := by
  induction l generalizing mdb with
  | nil => simp
  | cons i l ih =>
    rw [List.foldl_cons, ih]
    show mdb.count - 1 - UInt32.ofNat l.length = mdb.count - UInt32.ofNat (l.length + 1)
    have hlen : UInt32.ofNat (l.length + 1) = UInt32.ofNat l.length + 1 := UInt32.ofNat_add ..
    rw [hlen]
    grind

theorem clearAll_firstOf (l : List Nat) (mdb : Mdb) : (l.foldl clear mdb).firstOf = mdb.firstOf := by
  funext j
  simp only [firstOf, clearAll_nodes]
  split_ifs <;> rfl

theorem clearAll_nextOf (l : List Nat) (mdb : Mdb) : (l.foldl clear mdb).nextOf = mdb.nextOf := by
  funext j
  simp only [nextOf, clearAll_nodes]
  split_ifs <;> rfl

end Mdb

/-- The revocation loop clears the traversal of the links it starts with. -/
theorem mdbRevokeSiblings_yields {first next : Nat → Nat} {a : Nat} {l : List Nat}
    (h : Walk first next nil a l) (mdb : Mdb) (hfirst : mdb.firstOf = first)
    (hnext : mdb.nextOf = next) :
    Fuel.Yields (fun fuel => mdbRevokeSiblings fuel mdb a) (l.foldl Mdb.clear mdb) := by
  induction h generalizing mdb with
  | nil =>
    refine Fuel.Yields.unfold (g := fun _ => some mdb) (fun fuel => ?_)
      (Fuel.yields_of_forall fun _ => rfl)
    simp [mdbRevokeSiblings]
  | @cons a l₁ l₂ hne _ _ ih₁ ih₂ =>
    have hbelow := ih₁ mdb hfirst hnext
    have hself : Fuel.Yields (fun fuel => mdbRevokeRecursive fuel mdb a)
        ((l₁.foldl Mdb.clear mdb).clear a) := by
      refine Fuel.Yields.unfold (fun fuel => ?_) (hbelow.map fun mdb' => mdb'.clear a)
      rw [mdbRevokeRecursive, ← hfirst]
      rfl
    have hlinks : (l₁.foldl Mdb.clear mdb).clear a = (l₁ ++ [a]).foldl Mdb.clear mdb := by
      rw [List.foldl_append]
      rfl
    rw [hlinks] at hself
    have hrest := ih₂ ((l₁ ++ [a]).foldl Mdb.clear mdb)
      ((Mdb.clearAll_firstOf _ _).trans hfirst) ((Mdb.clearAll_nextOf _ _).trans hnext)
    rw [← List.foldl_append, List.append_assoc, List.singleton_append] at hrest
    refine Fuel.Yields.unfold (fun fuel => ?_)
      (hself.bind (g := fun mdb' fuel => mdbRevokeSiblings fuel mdb' (next a)) hrest)
    rw [mdbRevokeSiblings, if_neg hne, ← hnext]
    rfl

/-! ### Ancestors -/

theorem mdbIsDescendant_stop {mdb : Mdb} (ancestor : Nat) {j : Nat}
    (hstop : ¬ (j ≠ nil ∧ j < maxMdbNodes)) :
    Fuel.Yields (fun fuel => mdbIsDescendant fuel mdb ancestor j) false := by
  refine Fuel.Yields.unfold (g := fun _ => some false) (fun fuel => ?_)
    (Fuel.yields_of_forall fun _ => rfl)
  rw [mdbIsDescendant, if_neg hstop]

theorem mdbIsDescendant_found {mdb : Mdb} {ancestor j : Nat} (hlive : j ≠ nil ∧ j < maxMdbNodes)
    (heq : j = ancestor) : Fuel.Yields (fun fuel => mdbIsDescendant fuel mdb ancestor j) true := by
  refine Fuel.Yields.unfold (g := fun _ => some true) (fun fuel => ?_)
    (Fuel.yields_of_forall fun _ => rfl)
  rw [mdbIsDescendant, if_pos hlive, if_pos heq]

theorem mdbIsDescendant_up {mdb : Mdb} {ancestor j : Nat} {b : Bool}
    (hlive : j ≠ nil ∧ j < maxMdbNodes) (hne : j ≠ ancestor)
    (h : Fuel.Yields (fun fuel => mdbIsDescendant fuel mdb ancestor (mdb.parentOf j)) b) :
    Fuel.Yields (fun fuel => mdbIsDescendant fuel mdb ancestor j) b := by
  refine Fuel.Yields.unfold (fun fuel => ?_) h
  rw [mdbIsDescendant, if_pos hlive, if_neg hne]
  rfl

theorem mdbIsDescendant_yields {mdb : Mdb} (hf : mdb.Forest) (ancestor : Nat) {j : Nat}
    (hj : j = nil ∨ mdb.Valid j) :
    ∃ b, Fuel.Yields (fun fuel => mdbIsDescendant fuel mdb ancestor j) b ∧
      (b = true ↔ j ≠ nil ∧ ReflTransGen mdb.Parent j ancestor) := by
  have hrooted : Rooted mdb.parentOf nil j := by
    rcases hj with rfl | hj
    · exact .nil
    · exact hf.rooted j hj
  have hstop : Fuel.Yields (fun fuel => mdbIsDescendant fuel mdb ancestor nil) false :=
    mdbIsDescendant_stop ancestor fun hlive => hlive.1 rfl
  -- Induction along the chain of parents, which is what the loop follows.
  induction hrooted with
  | nil => exact ⟨false, hstop, by simp⟩
  | @step j _ ih =>
    rcases hj with rfl | hj
    · exact ⟨false, hstop, by simp⟩
    have hne : j ≠ nil := hf.ne_nil hj
    by_cases heq : j = ancestor
    · refine ⟨true, mdbIsDescendant_found ⟨hne, hj.1⟩ heq, ?_⟩
      subst heq
      exact ⟨fun _ => ⟨hne, .refl⟩, fun _ => rfl⟩
    · obtain ⟨b, hb, hiff⟩ := ih (hf.closed j hj)
      refine ⟨b, mdbIsDescendant_up ⟨hne, hj.1⟩ heq hb, ?_⟩
      rw [hiff]
      constructor
      · rintro ⟨hpne, hrest⟩
        exact ⟨hne, .head ⟨rfl, hpne⟩ hrest⟩
      · rintro ⟨-, hall⟩
        rcases ReflTransGen.cases_head hall with hja | ⟨p, ⟨rfl, hpne⟩, hrest⟩
        · exact absurd hja heq
        · exact ⟨hpne, hrest⟩

theorem mdbIsDescendant_true_iff {mdb : Mdb} (hf : mdb.Forest) {ancestor j : Nat}
    (hj : mdb.Valid j) :
    Fuel.Yields (fun fuel => mdbIsDescendant fuel mdb ancestor j) true ↔
      ReflTransGen mdb.Parent j ancestor := by
  obtain ⟨b, hb, hiff⟩ := mdbIsDescendant_yields hf ancestor (Or.inr hj)
  constructor
  · intro htrue
    exact (hiff.mp (hb.unique htrue)).2
  · intro hanc
    rw [← hiff.mpr ⟨hf.ne_nil hj, hanc⟩]
    exact hb

/-! ### Revocation -/

/-- Revoking a valid node clears the traversal of its children. -/
theorem mdbRevoke_walk_yields {mdb : Mdb} {idx : Nat} (hidx : mdb.Valid idx) {l : List Nat}
    (hwalk : Walk mdb.firstOf mdb.nextOf nil (mdb.firstOf idx) l) :
    Fuel.Yields (fun fuel => mdbRevoke fuel mdb idx)
      (.ok, (l.foldl Mdb.clear mdb).setNode idx
        { (l.foldl Mdb.clear mdb).nodes idx with firstChild := nil }) := by
  refine Fuel.Yields.congr (fun fuel => ?_) ((mdbRevokeSiblings_yields hwalk mdb rfl rfl).map
    fun mdb' => (KError.ok, mdb'.setNode idx { mdb'.nodes idx with firstChild := nil }))
  simp [mdbRevoke, hidx.1, hidx.2, Mdb.firstOf]

/-- Revoking a valid node of a forest clears the nodes strictly below it. -/
theorem mdbRevoke_yields {mdb : Mdb} (hf : mdb.Forest) {idx : Nat} (hidx : mdb.Valid idx) :
    ∃ (removed : List Nat) (mdb' : Mdb), Fuel.Yields (fun fuel => mdbRevoke fuel mdb idx) (.ok, mdb') ∧
      removed.Nodup ∧ (∀ j, j ∈ removed ↔ mdb.Valid j ∧ TransGen mdb.Parent j idx) ∧
      (∀ j, j ∈ removed → mdb'.nodes j =
        { mdb.nodes j with cap := Cap.zero, valid := false }) ∧
      (∀ j, j ∉ removed → j ≠ idx → mdb'.nodes j = mdb.nodes j) ∧
      mdb'.nodes idx = { mdb.nodes idx with firstChild := nil } ∧
      mdb'.count = mdb.count - UInt32.ofNat removed.length := by
  obtain ⟨l, hwalk, hnodup, hmem⟩ := hf.exists_walk mdb.finite_valid idx hidx
  have hidxl : idx ∉ l := fun h => hf.acyclic hidx ((hmem idx).mp h).2
  refine ⟨l, _, mdbRevoke_walk_yields hidx hwalk, hnodup, hmem, fun j hj => ?_,
    fun j hj hne => ?_, ?_, ?_⟩
  · have hne : j ≠ idx := fun heq => hidxl (heq ▸ hj)
    rw [Mdb.setNode_ne hne, Mdb.clearAll_nodes, if_pos hj]
  · rw [Mdb.setNode_ne hne, Mdb.clearAll_nodes, if_neg hj]
  · rw [Mdb.setNode_self, Mdb.clearAll_nodes, if_neg hidxl]
  · exact Mdb.clearAll_count l mdb

theorem mdbRevoke_forest {mdb mdb' : Mdb} (hf : mdb.Forest) {idx : Nat} (hidx : mdb.Valid idx)
    (h : Fuel.Yields (fun fuel => mdbRevoke fuel mdb idx) (.ok, mdb')) : mdb'.Forest := by
  obtain ⟨removed, mdb₁, hy, -, hmem, hgone, hkept, hself, -⟩ := mdbRevoke_yields hf hidx
  obtain rfl : mdb' = mdb₁ := (Prod.mk.inj (h.unique hy)).2
  have hidxr : idx ∉ removed := fun hr => hf.acyclic hidx ((hmem idx).mp hr).2
  have hV' : ∀ j, mdb'.Valid j ↔ mdb.Valid j ∧ ¬ TransGen mdb.Parent j idx := by
    intro j
    by_cases hj : j ∈ removed
    · have hinv : ¬ mdb'.Valid j := fun hv => by
        have hvalid := hv.2
        rw [hgone j hj] at hvalid
        exact absurd hvalid Bool.false_ne_true
      exact ⟨fun hv => absurd hv hinv, fun hv => absurd ((hmem j).mp hj).2 hv.2⟩
    · have hsame : (mdb'.nodes j).valid = (mdb.nodes j).valid := by
        by_cases hne : j = idx
        · rw [hne, hself]
        · rw [hkept j hj hne]
      have hiff : mdb'.Valid j ↔ mdb.Valid j := by rw [Mdb.Valid, Mdb.Valid, hsame]
      rw [hiff]
      exact ⟨fun hv => ⟨hv, fun hb => hj ((hmem j).mpr ⟨hv, hb⟩)⟩, fun hv => hv.1⟩
  have hkeep : ∀ j, mdb'.Valid j → j ≠ idx → mdb'.nodes j = mdb.nodes j := by
    intro j hj hne
    exact hkept j (fun hr => ((hV' j).mp hj).2 ((hmem j).mp hr).2) hne
  refine Threaded.prune hf hV' (fun j hj => ?_) (fun j hj => ?_) ?_ (fun j hj hne => ?_)
  · by_cases hne : j = idx
    · subst hne
      simp [Mdb.parentOf, hself]
    · simp [Mdb.parentOf, hkeep j hj hne]
  · by_cases hne : j = idx
    · subst hne
      simp [Mdb.nextOf, hself]
    · simp [Mdb.nextOf, hkeep j hj hne]
  · simp [Mdb.firstOf, hself]
  · simp [Mdb.firstOf, hkeep j hj hne]

/-! ### Deletion -/

/-- The cell the unlinking loop has reached after passing the nodes in `pre`. -/
def LinkPtr.after (p : LinkPtr) : List Nat → LinkPtr
  | [] => p
  | i :: pre => LinkPtr.after (.nextSibling i) pre

theorem LinkPtr.after_append (p : LinkPtr) (pre : List Nat) (y : Nat) :
    p.after (pre ++ [y]) = .nextSibling y := by
  induction pre generalizing p with
  | nil => rfl
  | cons i pre ih => exact ih (.nextSibling i)

/-- On a list that contains `idx` the loop redirects the cell in front of it. -/
theorem mdbUnlink_yields {mdb : Mdb} {idx : Nat} {pre post : List Nat} {p : LinkPtr}
    (h : Linked mdb.nextOf nil (mdb.readLink p) (pre ++ idx :: post)) (hpre : idx ∉ pre) :
    Fuel.Yields (fun fuel => mdbUnlink fuel mdb idx p)
      (mdb.writeLink (p.after pre) (mdb.nextOf idx)) := by
  induction pre generalizing p with
  | nil =>
    rw [List.nil_append] at h
    generalize hr : mdb.readLink p = a at h
    cases h with
    | cons hne _ =>
      refine Fuel.Yields.unfold (g := fun _ => some (mdb.writeLink p (mdb.nextOf idx)))
        (fun fuel => ?_) (Fuel.yields_of_forall fun _ => rfl)
      rw [mdbUnlink, hr, if_neg hne, if_pos rfl]
      rfl
  | cons i pre ih =>
    rw [List.cons_append] at h
    generalize hr : mdb.readLink p = a at h
    cases h with
    | cons hne hrest =>
      have hi : i ≠ idx := fun heq => hpre (heq ▸ List.mem_cons_self)
      refine Fuel.Yields.unfold (fun fuel => ?_)
        (ih (p := .nextSibling i) hrest fun hm => hpre (List.mem_cons_of_mem i hm))
      rw [mdbUnlink, hr, if_neg hne, if_neg hi]

/-- The array after `mdb_delete` has freed node `idx`. -/
def Mdb.free (mdb : Mdb) (idx : Nat) : Mdb :=
  { nodes := Function.update mdb.nodes idx MdbNode.freed
    count := mdb.count - 1
    freeHead := if idx < mdb.freeHead then idx else mdb.freeHead }

theorem Mdb.free_ne {i j : Nat} (h : j ≠ i) (mdb : Mdb) : (mdb.free i).nodes j = mdb.nodes j :=
  Function.update_of_ne h ..

/-- Past its checks `mdb_delete` unlinks the node, unless it is a root, and frees it. -/
theorem mdbDelete_leaf {mdb : Mdb} {idx : Nat} (hidx : mdb.Valid idx)
    (hleaf : mdb.firstOf idx = nil) (fuel : Nat) :
    mdbDelete fuel mdb idx =
      (if mdb.parentOf idx ≠ nil then mdbUnlink fuel mdb idx (.firstChild (mdb.parentOf idx))
        else some mdb).map fun mdb' => (KError.ok, mdb'.free idx) := by
  have hleaf' : (mdb.nodes idx).firstChild = nil := hleaf
  rw [mdbDelete, if_neg (Nat.not_le.mpr hidx.1), if_neg (by simp [hidx.2]),
    if_neg (by simp [hleaf'])]
  rfl

theorem mdbDelete_root_yields {mdb : Mdb} {idx : Nat} (hidx : mdb.Valid idx)
    (hleaf : mdb.firstOf idx = nil) (hroot : mdb.parentOf idx = nil) :
    Fuel.Yields (fun fuel => mdbDelete fuel mdb idx) (.ok, mdb.free idx) := by
  refine Fuel.yields_of_forall fun fuel => ?_
  rw [mdbDelete_leaf hidx hleaf, if_neg (by simp [hroot])]
  rfl

/-- Below a parent exactly one link is redirected: the first-child link of the
parent, or the sibling link of the node in front. -/
theorem mdbDelete_child_yields {mdb : Mdb} {idx : Nat} (hidx : mdb.Valid idx)
    (hleaf : mdb.firstOf idx = nil) (hparent : mdb.parentOf idx ≠ nil) {pre post : List Nat}
    (hl : Linked mdb.nextOf nil (mdb.firstOf (mdb.parentOf idx)) (pre ++ idx :: post)) :
    Fuel.Yields (fun fuel => mdbDelete fuel mdb idx)
      (.ok, (mdb.writeLink ((LinkPtr.firstChild (mdb.parentOf idx)).after pre)
        (mdb.nextOf idx)).free idx) := by
  have hpre : idx ∉ pre := fun hm =>
    (List.nodup_append.mp hl.nodup).2.2 idx hm idx List.mem_cons_self rfl
  refine Fuel.Yields.congr (fun fuel => ?_)
    ((mdbUnlink_yields (p := .firstChild (mdb.parentOf idx)) hl hpre).map fun mdb' =>
      (KError.ok, mdb'.free idx))
  rw [mdbDelete_leaf hidx hleaf, if_pos hparent]

theorem mdbDelete_yields {mdb : Mdb} (hf : mdb.Forest) {idx : Nat} (hidx : mdb.Valid idx)
    (hleaf : mdb.firstOf idx = nil) :
    ∃ linked, Fuel.Yields (fun fuel => mdbDelete fuel mdb idx) (.ok, linked.free idx) ∧
      (mdb.parentOf idx = nil → linked = mdb) ∧
      (mdb.Valid (mdb.parentOf idx) → ∃ pre post,
        Linked mdb.nextOf nil (mdb.firstOf (mdb.parentOf idx)) (pre ++ idx :: post) ∧
        linked = mdb.writeLink ((LinkPtr.firstChild (mdb.parentOf idx)).after pre)
          (mdb.nextOf idx)) := by
  rcases hf.closed idx hidx with hroot | hparent
  · refine ⟨mdb, mdbDelete_root_yields hidx hleaf hroot, fun _ => rfl, fun hv => ?_⟩
    rw [hroot] at hv
    exact absurd hv mdb.not_valid_nil
  · have hpne : mdb.parentOf idx ≠ nil := hf.ne_nil hparent
    obtain ⟨l, hl, -, hmem⟩ := hf.children _ hparent
    obtain ⟨pre, post, rfl⟩ := List.append_of_mem ((hmem idx).mpr ⟨hidx, rfl⟩)
    exact ⟨_, mdbDelete_child_yields hidx hleaf hpne hl, fun hroot => absurd hroot hpne,
      fun _ => ⟨pre, post, hl, rfl⟩⟩

theorem Mdb.writeLink_nodes (mdb : Mdb) (p : LinkPtr) (v : Nat) :
    ((mdb.writeLink p v).nodes = fun j => { mdb.nodes j with
      firstChild := if p = .firstChild j then v else (mdb.nodes j).firstChild
      nextSibling := if p = .nextSibling j then v else (mdb.nodes j).nextSibling }) := by
  funext j
  cases p with
  | firstChild i =>
    by_cases h : j = i
    · subst h
      simp [writeLink]
    · simp [writeLink, setNode_ne h, Ne.symm h]
  | nextSibling i =>
    by_cases h : j = i
    · subst h
      simp [writeLink]
    · simp [writeLink, setNode_ne h, Ne.symm h]

theorem Mdb.valid_free_iff {mdb linked : Mdb} (idx : Nat)
    (hvalid : ∀ j, (linked.nodes j).valid = (mdb.nodes j).valid) (j : Nat) :
    (linked.free idx).Valid j ↔ mdb.Valid j ∧ j ≠ idx := by
  by_cases hj : j = idx
  · subst hj
    simp [Mdb.Valid, Mdb.free, MdbNode.freed]
  · simp [Mdb.Valid, Mdb.free_ne hj, hvalid, hj]

/-- Only a node passed by the loop can be the one whose sibling link it redirects. -/
theorem LinkPtr.after_ne_nextSibling {p j : Nat} {pre : List Nat} (hj : j ∉ pre) :
    (LinkPtr.firstChild p).after pre ≠ .nextSibling j := by
  rcases List.eq_nil_or_concat pre with rfl | ⟨pre, y, rfl⟩
  · simp [LinkPtr.after]
  · rw [List.concat_eq_append, LinkPtr.after_append]
    intro heq
    obtain rfl : y = j := by simpa using heq
    exact hj (by simp)

theorem LinkPtr.after_ne_firstChild {p j : Nat} (hj : j ≠ p) (pre : List Nat) :
    (LinkPtr.firstChild p).after pre ≠ .firstChild j := by
  rcases List.eq_nil_or_concat pre with rfl | ⟨pre, y, rfl⟩
  · simpa [LinkPtr.after] using Ne.symm hj
  · rw [List.concat_eq_append, LinkPtr.after_append]
    simp

/-- With the link redirected and the node freed, the parent's list is the old one
without the node. -/
theorem Mdb.linked_free {mdb linked : Mdb} {p idx : Nat} {pre post : List Nat} (hp : p ≠ idx)
    (hl : Linked mdb.nextOf nil (mdb.firstOf p) (pre ++ idx :: post))
    (hlinked : linked = mdb.writeLink ((LinkPtr.firstChild p).after pre) (mdb.nextOf idx)) :
    Linked (linked.free idx).nextOf nil ((linked.free idx).firstOf p) (pre ++ post) := by
  have hnodes := mdb.writeLink_nodes ((LinkPtr.firstChild p).after pre) (mdb.nextOf idx)
  rw [← hlinked] at hnodes
  have hidx : idx ∉ pre ++ post := fun hm => ((hl.mem_drop_iff idx).mp hm).2 rfl
  rcases List.eq_nil_or_concat pre with rfl | ⟨pre, y, rfl⟩
  · have hfirst : (linked.free idx).firstOf p = mdb.nextOf idx := by
      simp [Mdb.firstOf, Mdb.free_ne hp, hnodes, LinkPtr.after]
    cases hl.split with
    | cons _ hrest =>
      rw [hfirst]
      refine hrest.congr fun j hj => ?_
      have hji : j ≠ idx := fun heq => hidx (by simpa [heq] using hj)
      simp [Mdb.nextOf, Mdb.free_ne hji, hnodes, LinkPtr.after]
  · rw [List.concat_eq_append] at hl hnodes hidx ⊢
    rw [LinkPtr.after_append] at hnodes
    rw [List.append_assoc, List.singleton_append] at hl ⊢
    have hfirst : (linked.free idx).firstOf p = mdb.firstOf p := by
      simp [Mdb.firstOf, Mdb.free_ne hp, hnodes]
    rw [hfirst]
    refine hl.unlink.congr fun j hj => ?_
    have hji : j ≠ idx := fun heq => hidx (by simpa [heq] using hj)
    by_cases hjy : j = y
    · subst hjy
      simp [Mdb.nextOf, Mdb.free_ne hji, hnodes]
    · simp [Mdb.nextOf, Mdb.free_ne hji, hnodes, Function.update_of_ne hjy, Ne.symm hjy]

theorem mdbDelete_forest {mdb mdb' : Mdb} (hf : mdb.Forest) {idx : Nat} (hidx : mdb.Valid idx)
    (hleaf : mdb.firstOf idx = nil)
    (h : Fuel.Yields (fun fuel => mdbDelete fuel mdb idx) (.ok, mdb')) : mdb'.Forest := by
  obtain ⟨linked, hy, hroot, hinner⟩ := mdbDelete_yields hf hidx hleaf
  obtain rfl : mdb' = linked.free idx := (Prod.mk.inj (h.unique hy)).2
  rcases hf.closed idx hidx with hp | hp
  · obtain rfl := hroot hp
    have hV' : ∀ j, (linked.free idx).Valid j ↔ linked.Valid j ∧ j ≠ idx :=
      Mdb.valid_free_iff idx fun _ => rfl
    have hsame : ∀ j, (linked.free idx).Valid j → (linked.free idx).nodes j = linked.nodes j :=
      fun j hj => Mdb.free_ne ((hV' j).mp hj).2 linked
    refine Threaded.removeLeaf hf hidx hleaf hV' (fun j hj => ?_) (fun j hj _ => ?_)
      (fun j hj _ => ?_) (fun l hv => ?_)
    · simp [Mdb.parentOf, hsame j hj]
    · simp [Mdb.nextOf, hsame j hj]
    · simp [Mdb.firstOf, hsame j hj]
    · rw [hp] at hv
      exact absurd hv linked.not_valid_nil
  · obtain ⟨pre, post, hl, hlinked⟩ := hinner hp
    have hmem : ∀ j, j ∈ pre ++ idx :: post ↔ mdb.Valid j ∧ mdb.parentOf j = mdb.parentOf idx := by
      obtain ⟨l, hl', -, hmem⟩ := hf.children _ hp
      rw [← hl.unique hl'] at hmem
      exact hmem
    have hnodes := mdb.writeLink_nodes ((LinkPtr.firstChild (mdb.parentOf idx)).after pre)
      (mdb.nextOf idx)
    rw [← hlinked] at hnodes
    have hV' : ∀ j, (linked.free idx).Valid j ↔ mdb.Valid j ∧ j ≠ idx :=
      Mdb.valid_free_iff idx fun j => by rw [hnodes]
    have hfree : ∀ j, (linked.free idx).Valid j → (linked.free idx).nodes j = linked.nodes j :=
      fun j hj => Mdb.free_ne ((hV' j).mp hj).2 linked
    have hpne : mdb.parentOf idx ≠ idx := fun heq =>
      hf.acyclic hidx (TransGen.single ⟨heq, hf.ne_nil hidx⟩)
    refine Threaded.removeLeaf hf hidx hleaf hV' (fun j hj => ?_) (fun j hj hne => ?_)
      (fun j hj hne => ?_) (fun l _ hl' _ => ?_)
    · simp [Mdb.parentOf, hfree j hj, hnodes]
    · -- Only siblings of `idx` can lie in front of it.
      have hpre : j ∉ pre := fun hm => hne ((hmem j).mp (List.mem_append_left _ hm)).2
      have hcell := LinkPtr.after_ne_nextSibling (p := mdb.parentOf idx) hpre
      simp [Mdb.nextOf, hfree j hj, hnodes, hcell]
    · have hcell := LinkPtr.after_ne_firstChild hne pre
      simp [Mdb.firstOf, hfree j hj, hnodes, hcell]
    · rw [hl'.unique hl]
      exact ⟨pre ++ post, Mdb.linked_free hpne hl hlinked, hl.mem_drop_iff⟩

/-! ### Insertion -/

/-- Below a valid parent or at the top, an accepted insertion adds one valid node,
which takes over the parent's list of children, and redirects the first-child
link of the parent. -/
theorem mdbInsert_spec {mdb : Mdb} {parentIdx : Nat}
    (hparent : parentIdx = nil ∨ mdb.Valid parentIdx) (cptr : UInt32) (cap : Cap) :
    (∃ e, mdbInsert mdb parentIdx cptr cap = (e, none, mdb)) ∨
    ∃ idx mdb', mdbInsert mdb parentIdx cptr cap = (.ok, some idx, mdb') ∧
      idx < maxMdbNodes ∧ ¬ mdb.Valid idx ∧
      (∃ next, mdb'.nodes idx = MdbNode.fresh parentIdx next cptr cap ∧
        (mdb.Valid parentIdx → next = mdb.firstOf parentIdx)) ∧
      ∀ j, j ≠ idx → ∃ first, mdb'.nodes j = { mdb.nodes j with firstChild := first } ∧
        (j ≠ parentIdx → first = mdb.firstOf j) ∧
        (j = parentIdx → mdb.Valid j → first = idx) := by
  rcases mdbInsert_cases mdb parentIdx cptr cap with
    ⟨e, -, heq⟩ | ⟨idx, mdb', heq, hlt, hfree, horphan, hchild⟩
  · exact Or.inl ⟨e, heq⟩
  refine Or.inr ⟨idx, mdb', heq, hlt, hfree, ?_⟩
  rcases hparent with rfl | hp
  · rw [horphan (Or.inl rfl)]
    refine ⟨⟨nil, Function.update_self .., fun hv => absurd hv mdb.not_valid_nil⟩, fun j hj => ?_⟩
    refine ⟨mdb.firstOf j, Function.update_of_ne hj .., fun _ => rfl, fun hnil hv => ?_⟩
    rw [hnil] at hv
    exact absurd hv mdb.not_valid_nil
  · have hpx : idx ≠ parentIdx := fun h => hfree (h ▸ hp)
    rw [hchild hp]
    refine ⟨⟨mdb.firstOf parentIdx, ?_, fun _ => rfl⟩, fun j hj => ?_⟩
    · rw [Function.update_of_ne hpx, Function.update_self]
      rfl
    · by_cases hjp : j = parentIdx
      · subst hjp
        exact ⟨idx, Function.update_self .., fun hne => absurd rfl hne, fun _ _ => rfl⟩
      · rw [Function.update_of_ne hjp, Function.update_of_ne hj]
        exact ⟨mdb.firstOf j, rfl, fun _ => rfl, fun h => absurd h hjp⟩

theorem Mdb.valid_insert_iff {mdb mdb' : Mdb} {parentIdx idx next : Nat} {cptr : UInt32} {cap : Cap}
    {P : Nat → Nat → Prop} (hlt : idx < maxMdbNodes)
    (hat : mdb'.nodes idx = MdbNode.fresh parentIdx next cptr cap)
    (hother : ∀ j, j ≠ idx →
      ∃ first, mdb'.nodes j = { mdb.nodes j with firstChild := first } ∧ P j first) (j : Nat) :
    mdb'.Valid j ↔ mdb.Valid j ∨ j = idx := by
  by_cases hj : j = idx
  · subst hj
    simp [Mdb.Valid, hat, MdbNode.fresh, hlt]
  · obtain ⟨first, hsame, -⟩ := hother j hj
    simp [Mdb.Valid, hsame, hj]

theorem mdbInsert_forest {mdb : Mdb} (hf : mdb.Forest) {parentIdx : Nat}
    (hparent : parentIdx = nil ∨ mdb.Valid parentIdx) (cptr : UInt32) (cap : Cap) :
    (mdbInsert mdb parentIdx cptr cap).2.2.Forest := by
  rcases mdbInsert_spec hparent cptr cap with
    ⟨e, heq⟩ | ⟨idx, mdb', heq, hlt, hfree, ⟨next, hat, hnext⟩, hother⟩
  · rw [heq]
    exact hf
  rw [heq]
  show mdb'.Forest
  have hxnil : idx ≠ nil := fun h => absurd hlt (by rw [h]; decide)
  have hxne : ∀ {j}, mdb.Valid j → j ≠ idx := fun hj h => hfree (h ▸ hj)
  have hvalid := Mdb.valid_insert_iff hlt hat hother
  refine Threaded.insert hf hfree hxnil hparent hvalid ?_ (fun j hj => ?_) (fun j hj => ?_) ?_
    (fun j hj hjp => ?_) (fun hp => ⟨?_, ?_⟩)
  · simp [Mdb.parentOf, hat, MdbNode.fresh]
  · obtain ⟨first, hsame, -⟩ := hother j (hxne hj)
    simp [Mdb.parentOf, hsame]
  · obtain ⟨first, hsame, -⟩ := hother j (hxne hj)
    simp [Mdb.nextOf, hsame]
  · simp [Mdb.firstOf, hat, MdbNode.fresh, nil]
  · obtain ⟨first, hsame, hkeep, -⟩ := hother j (hxne hj)
    rw [Mdb.firstOf, hsame]
    exact hkeep hjp
  · obtain ⟨first, hsame, -, hredirect⟩ := hother parentIdx (hxne hp)
    rw [Mdb.firstOf, hsame]
    exact hredirect rfl hp
  · rw [← hnext hp]
    simp [Mdb.nextOf, hat, MdbNode.fresh]

/-- Insertion keeps valid nodes valid, and the node it makes is valid. -/
theorem mdbInsert_valid {mdb : Mdb} {parentIdx : Nat}
    (hparent : parentIdx = nil ∨ mdb.Valid parentIdx) (cptr : UInt32) (cap : Cap) :
    (∀ j, mdb.Valid j → (mdbInsert mdb parentIdx cptr cap).2.2.Valid j) ∧
      ∀ n, (mdbInsert mdb parentIdx cptr cap).2.1 = some n →
        (mdbInsert mdb parentIdx cptr cap).2.2.Valid n := by
  rcases mdbInsert_spec hparent cptr cap with
    ⟨e, heq⟩ | ⟨idx, mdb', heq, hlt, hfree, ⟨next, hat, -⟩, hother⟩
  · rw [heq]
    exact ⟨fun j hj => hj, fun n hn => by cases hn⟩
  rw [heq]
  have hvalid := Mdb.valid_insert_iff hlt hat hother
  refine ⟨fun j hj => (hvalid j).mpr (Or.inl hj), fun n hn => ?_⟩
  cases hn
  exact (hvalid idx).mpr (Or.inr rfl)

/-! ### Runs -/

/-- One call on the database.  An insertion names no parent or a valid one, and
the two walking functions step to the result they yield. -/
inductive MdbCall : Mdb → Mdb → Prop
  | insert {mdb : Mdb} (parentIdx : Nat) (cptr : UInt32) (cap : Cap) :
      parentIdx = nil ∨ mdb.Valid parentIdx →
      MdbCall mdb (mdbInsert mdb parentIdx cptr cap).2.2
  | revoke {mdb mdb' : Mdb} {e : KError} (idx : Nat) :
      Fuel.Yields (fun fuel => mdbRevoke fuel mdb idx) (e, mdb') → MdbCall mdb mdb'
  | delete {mdb mdb' : Mdb} {e : KError} (idx : Nat) :
      Fuel.Yields (fun fuel => mdbDelete fuel mdb idx) (e, mdb') → MdbCall mdb mdb'

theorem mdbInit_forest : mdbInit.Forest :=
  ⟨mdbInit.not_valid_nil, fun i hi => absurd hi.2 (by simp [mdbInit]),
    fun i hi => absurd hi.2 (by simp [mdbInit]), fun i hi => absurd hi.2 (by simp [mdbInit])⟩

/-- A rejected revoke leaves the database alone; an accepted one had a valid
index. -/
theorem mdbRevoke_cases {mdb mdb' : Mdb} {idx : Nat} {e : KError}
    (h : Fuel.Yields (fun fuel => mdbRevoke fuel mdb idx) (e, mdb')) :
    mdb' = mdb ∨ (mdb.Valid idx ∧ e = .ok) := by
  obtain ⟨n, hn⟩ := h
  have hres := hn n (Nat.le_refl n)
  unfold mdbRevoke at hres
  split_ifs at hres with hlt hvalid
  · exact Or.inl (Prod.mk.inj (Option.some.inj hres)).2.symm
  · exact Or.inl (Prod.mk.inj (Option.some.inj hres)).2.symm
  · obtain ⟨mdb₁, -, heq⟩ := Option.map_eq_some_iff.mp hres
    exact Or.inr ⟨⟨Nat.not_le.mp hlt, by simpa using hvalid⟩, (Prod.mk.inj heq).1.symm⟩

theorem mdbDelete_cases {mdb mdb' : Mdb} {idx : Nat} {e : KError}
    (h : Fuel.Yields (fun fuel => mdbDelete fuel mdb idx) (e, mdb')) :
    mdb' = mdb ∨ (mdb.Valid idx ∧ mdb.firstOf idx = nil ∧ e = .ok) := by
  obtain ⟨n, hn⟩ := h
  have hres := hn n (Nat.le_refl n)
  simp only [mdbDelete] at hres
  split at hres
  · exact Or.inl (Prod.mk.inj (Option.some.inj hres)).2.symm
  split at hres
  · exact Or.inl (Prod.mk.inj (Option.some.inj hres)).2.symm
  split at hres
  · exact Or.inl (Prod.mk.inj (Option.some.inj hres)).2.symm
  rename_i hlt hvalid hleaf
  obtain ⟨mdb₁, -, heq⟩ := Option.map_eq_some_iff.mp hres
  exact Or.inr ⟨⟨Nat.not_le.mp hlt, by simpa using hvalid⟩, not_not.mp hleaf,
    (Prod.mk.inj heq).1.symm⟩

theorem mdbCall_forest {mdb mdb' : Mdb} (hf : mdb.Forest) (h : MdbCall mdb mdb') :
    mdb'.Forest := by
  cases h with
  | insert parentIdx cptr cap hparent => exact mdbInsert_forest hf hparent cptr cap
  | revoke idx hy =>
    rcases mdbRevoke_cases hy with rfl | ⟨hidx, rfl⟩
    · exact hf
    · exact mdbRevoke_forest hf hidx hy
  | delete idx hy =>
    rcases mdbDelete_cases hy with rfl | ⟨hidx, hleaf, rfl⟩
    · exact hf
    · exact mdbDelete_forest hf hidx hleaf hy

/-- On a forest every revoke and every delete terminates. -/
theorem mdbRevoke_total {mdb : Mdb} (hf : mdb.Forest) (idx : Nat) :
    ∃ r, Fuel.Yields (fun fuel => mdbRevoke fuel mdb idx) r := by
  by_cases hlt : idx ≥ maxMdbNodes
  · exact ⟨_, Fuel.yields_of_forall fun fuel => by rw [mdbRevoke, if_pos hlt]⟩
  by_cases hv : (mdb.nodes idx).valid = false
  · exact ⟨_, Fuel.yields_of_forall fun fuel => by rw [mdbRevoke, if_neg hlt, if_pos hv]⟩
  · have hidx : mdb.Valid idx := ⟨Nat.not_le.mp hlt, by simpa using hv⟩
    obtain ⟨-, mdb', hy, -⟩ := mdbRevoke_yields hf hidx
    exact ⟨_, hy⟩

theorem mdbDelete_total {mdb : Mdb} (hf : mdb.Forest) (idx : Nat) :
    ∃ r, Fuel.Yields (fun fuel => mdbDelete fuel mdb idx) r := by
  by_cases hlt : idx ≥ maxMdbNodes
  · exact ⟨_, Fuel.yields_of_forall fun fuel => by rw [mdbDelete, if_pos hlt]⟩
  by_cases hv : (mdb.nodes idx).valid = false
  · exact ⟨_, Fuel.yields_of_forall fun fuel => by rw [mdbDelete, if_neg hlt, if_pos hv]⟩
  by_cases hleaf : (mdb.nodes idx).firstChild = nil
  · have hidx : mdb.Valid idx := ⟨Nat.not_le.mp hlt, by simpa using hv⟩
    obtain ⟨linked, hy, -⟩ := mdbDelete_yields hf hidx hleaf
    exact ⟨_, hy⟩
  · exact ⟨_, Fuel.yields_of_forall fun fuel => by
      rw [mdbDelete, if_neg hlt, if_neg hv, if_pos hleaf]⟩

/-- In every state reached from `mdb_init` the valid nodes form a forest, no
chain of parents returns to its start, and every further revoke or delete
terminates. -/
theorem mdb_forest_of_reachable {mdb : Mdb} (h : ReflTransGen MdbCall mdbInit mdb) :
    mdb.Forest ∧ (∀ i, mdb.Valid i → ¬ TransGen mdb.Parent i i) ∧
      ∀ idx, (∃ r, Fuel.Yields (fun fuel => mdbRevoke fuel mdb idx) r) ∧
        ∃ r, Fuel.Yields (fun fuel => mdbDelete fuel mdb idx) r := by
  have hf : mdb.Forest := by
    induction h with
    | refl => exact mdbInit_forest
    | tail _ hstep ih => exact mdbCall_forest ih hstep
  exact ⟨hf, fun i hi => hf.acyclic hi, fun idx => ⟨mdbRevoke_total hf idx, mdbDelete_total hf idx⟩⟩

/-- A root, a child and a grandchild, inserted into the empty database. -/
def mdbChain : Mdb :=
  let m₀ := (mdbInsert mdbInit nil 0 Cap.zero).2.2
  let m₁ := (mdbInsert m₀ 0 1 Cap.zero).2.2
  (mdbInsert m₁ 1 2 Cap.zero).2.2

theorem mdbChain_reachable : ReflTransGen MdbCall mdbInit mdbChain := by
  refine .tail (.tail (.tail .refl (.insert nil 0 Cap.zero (Or.inl rfl)))
    (.insert 0 1 Cap.zero (Or.inr ?_)))
    (.insert 1 2 Cap.zero (Or.inr ?_))
  · exact ⟨by decide, by decide⟩
  · exact ⟨by decide, by decide⟩

theorem mdb_forest_of_chain :
    ReflTransGen MdbCall mdbInit mdbChain ∧ mdbChain.Forest :=
  ⟨mdbChain_reachable, (mdb_forest_of_reachable mdbChain_reachable).1⟩

/-- Revoking a valid node of any forest terminates with `ERR_OK`, frees exactly
the valid nodes `mdb_is_descendant` reports below it, zeroes their capabilities,
changes no other node except for the first-child link of the revoked one, lowers
`count` by the number of freed nodes, and makes the node deletable. -/
theorem mdbRevoke_exact {mdb : Mdb} (hf : mdb.Forest) {idx : Nat} (hidx : mdb.Valid idx) :
    ∃ (removed : List Nat) (mdb' mdb'' : Mdb),
      Fuel.Yields (fun fuel => mdbRevoke fuel mdb idx) (.ok, mdb') ∧
      removed.Nodup ∧
      (∀ j, j ∈ removed ↔ mdb.Valid j ∧ j ≠ idx ∧
        Fuel.Yields (fun fuel => mdbIsDescendant fuel mdb idx j) true) ∧
      (∀ j, j ∈ removed → mdb'.nodes j =
        { mdb.nodes j with cap := Cap.zero, valid := false }) ∧
      (∀ j, j ∉ removed → j ≠ idx → mdb'.nodes j = mdb.nodes j) ∧
      mdb'.nodes idx = { mdb.nodes idx with firstChild := nil } ∧
      mdb'.count = mdb.count - UInt32.ofNat removed.length ∧
      Fuel.Yields (fun fuel => mdbDelete fuel mdb' idx) (.ok, mdb'') := by
  obtain ⟨removed, mdb', hy, hnodup, hmem, hgone, hkept, hself, hcount⟩ :=
    mdbRevoke_yields hf hidx
  have hvalid' : mdb'.Valid idx := ⟨hidx.1, by rw [hself]; exact hidx.2⟩
  have hleaf : mdb'.firstOf idx = nil := by rw [Mdb.firstOf, hself]
  obtain ⟨linked, hdel, -⟩ := mdbDelete_yields (mdbRevoke_forest hf hidx hy) hvalid' hleaf
  refine ⟨removed, mdb', linked.free idx, hy, hnodup, fun j => ?_, hgone, hkept, hself, hcount,
    hdel⟩
  rw [hmem j]
  refine and_congr_right fun hj => ?_
  rw [mdbIsDescendant_true_iff hf hj, reflTransGen_iff_eq_or_transGen]
  constructor
  · intro hbelow
    exact ⟨fun heq => hf.acyclic hidx (heq ▸ hbelow), Or.inr hbelow⟩
  · rintro ⟨hne, heq | hbelow⟩
    · exact absurd heq.symm hne
    · exact hbelow

theorem mdbRevoke_exact_chain :
    mdbChain.Forest ∧ mdbChain.Valid 0 ∧
      ∃ mdb', Fuel.Yields (fun fuel => mdbRevoke fuel mdbChain 0) (.ok, mdb') := by
  have hforest : mdbChain.Forest := by
    refine mdbInsert_forest (mdbInsert_forest (mdbInsert_forest mdbInit_forest (Or.inl rfl) _ _)
      (Or.inr ⟨by decide, by decide⟩) _ _) (Or.inr ⟨by decide, by decide⟩) _ _
  have hvalid : mdbChain.Valid 0 := ⟨by decide, by decide⟩
  obtain ⟨-, mdb', -, hy, -⟩ := mdbRevoke_exact hforest hvalid
  exact ⟨hforest, hvalid, mdb', hy⟩

end Moonlight
