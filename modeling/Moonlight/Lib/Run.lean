/-
Runs of a deterministic machine.

A run is the left fold of a step function over a list of inputs.  `Guarded`
records that every input of the run met a condition in the state it was given
to, and `exec_invariant` is the induction rule for runs of that kind.

`Steps` is the same for a machine whose steps are a relation, with `Throughout` for
the condition, and `execM` and `Along` for one whose step function may have no result.
-/
import Mathlib.Logic.Basic
import Mathlib.Data.List.Basic

namespace Run

variable {σ α : Type}

/-- The state after the inputs have been processed in order. -/
def exec (step : σ → α → σ) (s : σ) (as : List α) : σ := as.foldl step s

/-- Every input met `ok` in the state it was processed in. -/
def Guarded (step : σ → α → σ) (ok : σ → α → Prop) : σ → List α → Prop
  | _, [] => True
  | s, a :: as => ok s a ∧ Guarded step ok (step s a) as

variable {step : σ → α → σ} {ok : σ → α → Prop}

@[simp] theorem exec_nil (s : σ) : exec step s [] = s := rfl

@[simp] theorem exec_cons (s : σ) (a : α) (as : List α) :
    exec step s (a :: as) = exec step (step s a) as := rfl

/-- A property that every guarded step preserves holds all along every guarded run
that starts with it. -/
theorem exec_invariant_prefix {Inv : σ → Prop}
    (hstep : ∀ s a, ok s a → Inv s → Inv (step s a)) {s : σ} {as : List α}
    (hg : Guarded step ok s as) (hs : Inv s) {bs : List α} (hbs : bs <+: as) :
    Inv (exec step s bs) := by
  induction bs generalizing s as with
  | nil => exact hs
  | cons b bs ih =>
    obtain ⟨rest, rfl⟩ := hbs
    obtain ⟨hb, hrest⟩ := hg
    exact ih hrest (hstep s b hb hs) (List.prefix_append bs rest)

theorem exec_invariant {Inv : σ → Prop}
    (hstep : ∀ s a, ok s a → Inv s → Inv (step s a)) {s : σ} {as : List α}
    (hg : Guarded step ok s as) (hs : Inv s) : Inv (exec step s as) :=
  exec_invariant_prefix hstep hg hs (List.prefix_refl as)

/-- The same rule for a condition that every input meets. -/
theorem exec_invariant_of_forall {Inv : σ → Prop}
    (hstep : ∀ s a, Inv s → Inv (step s a)) {s : σ} (as : List α) (hs : Inv s) :
    Inv (exec step s as) := by
  induction as generalizing s with
  | nil => exact hs
  | cons a as ih => exact ih (hstep s a hs)

/-- A condition on the inputs alone guards the run wherever it starts. -/
theorem guarded_of_forall {P : α → Prop} {as : List α} (h : ∀ a ∈ as, P a) (s : σ) :
    Guarded step (fun _ a => P a) s as := by
  induction as generalizing s with
  | nil => trivial
  | cons a as ih =>
    exact ⟨h a List.mem_cons_self, ih (fun b hb => h b (List.mem_cons_of_mem a hb)) (step s a)⟩

/-- Two conditions that agree in every state with the invariant guard the same runs. -/
theorem guarded_congr_of_inv (Inv : σ → Prop) {ok' : σ → α → Prop}
    (hstep : ∀ s a, Inv s → Inv (step s a)) (hok : ∀ s a, Inv s → (ok s a ↔ ok' s a)) {s : σ}
    (hs : Inv s) (as : List α) : Guarded step ok s as ↔ Guarded step ok' s as := by
  induction as generalizing s with
  | nil => exact Iff.rfl
  | cons a as ih => exact and_congr (hok s a hs) (ih (hstep s a hs))

/-- The rule for an exact condition on runs whose inputs meet `pre`: steps that meet the
condition keep the invariant, the invariant gives the property, and a step that misses it
breaks the property at once. -/
theorem exec_forall_prefix_iff_of_guarded {pre : σ → α → Prop} (Inv : σ → Prop) {P : σ → Prop}
    (hP : ∀ s, Inv s → P s) (hkeep : ∀ s a, pre s a → Inv s → ok s a → Inv (step s a))
    (hbreak : ∀ s a, pre s a → Inv s → P (step s a) → ok s a) {s : σ} (hs : Inv s) {as : List α}
    (hpre : Guarded step pre s as) :
    (∀ bs, bs <+: as → P (exec step s bs)) ↔ Guarded step ok s as := by
  induction as generalizing s with
  | nil =>
    refine ⟨fun _ => trivial, fun _ bs hbs => ?_⟩
    rw [List.prefix_nil.mp hbs]
    exact hP s hs
  | cons a as ih =>
    obtain ⟨ha, hpre⟩ := hpre
    constructor
    · intro h
      have hok : ok s a := hbreak s a ha hs (h [a] (by simp))
      refine ⟨hok, (ih (hkeep s a ha hs hok) hpre).mp fun bs hbs => ?_⟩
      exact h (a :: bs) (List.cons_prefix_cons.mpr ⟨rfl, hbs⟩)
    · rintro ⟨hok, hrest⟩ bs hbs
      cases bs with
      | nil => exact hP s hs
      | cons b bs =>
        obtain ⟨rfl, htail⟩ := List.cons_prefix_cons.mp hbs
        exact (ih (hkeep s b ha hs hok) hpre).mpr hrest bs htail

/-- The same rule for runs of any inputs. -/
theorem exec_forall_prefix_iff_of_inv (Inv : σ → Prop) {P : σ → Prop} (hP : ∀ s, Inv s → P s)
    (hkeep : ∀ s a, Inv s → ok s a → Inv (step s a))
    (hbreak : ∀ s a, Inv s → P (step s a) → ok s a) {s : σ} (hs : Inv s) (as : List α) :
    (∀ bs, bs <+: as → P (exec step s bs)) ↔ Guarded step ok s as :=
  exec_forall_prefix_iff_of_guarded Inv hP (fun s a _ => hkeep s a) (fun s a _ => hbreak s a) hs
    (guarded_of_forall (fun _ _ => trivial) s : Guarded step (fun _ _ => True) s as)

/-- The same rule where the property itself is what a step keeps. -/
theorem exec_forall_prefix_iff {P : σ → Prop} (hstep : ∀ s a, P s → (P (step s a) ↔ ok s a))
    {s : σ} (hs : P s) (as : List α) :
    (∀ bs, bs <+: as → P (exec step s bs)) ↔ Guarded step ok s as :=
  exec_forall_prefix_iff_of_inv P (fun _ h => h) (fun s a h => (hstep s a h).mpr)
    (fun s a h => (hstep s a h).mp) hs as

/-! ### Steps given by a relation -/

/-- The inputs lead from one state to the other. -/
inductive Steps (R : σ → α → σ → Prop) : σ → List α → σ → Prop
  | nil {s : σ} : Steps R s [] s
  | cons {s s' s'' : σ} {a : α} {as : List α} : R s a s' → Steps R s' as s'' → Steps R s (a :: as) s''

/-- Every input that is processed meets `ok` in the state it is processed in. -/
def Throughout (R : σ → α → σ → Prop) (ok : σ → α → Prop) : σ → List α → Prop
  | _, [] => True
  | s, a :: as => ok s a ∧ ∀ s', R s a s' → Throughout R ok s' as

variable {R : σ → α → σ → Prop}

theorem Steps.invariant {Inv : σ → Prop} (hstep : ∀ s a s', R s a s' → Inv s → Inv s') {s s' : σ}
    {as : List α} (h : Steps R s as s') (hs : Inv s) : Inv s' := by
  induction h with
  | nil => exact hs
  | cons hR _ ih => exact ih (hstep _ _ _ hR hs)

/-- The same rule for a condition on the inputs alone. -/
theorem Steps.invariant_of_forall {P : α → Prop} {Inv : σ → Prop}
    (hstep : ∀ s a s', P a → R s a s' → Inv s → Inv s') {s s' : σ} {as : List α}
    (h : Steps R s as s') (hP : ∀ a ∈ as, P a) (hs : Inv s) : Inv s' := by
  induction h with
  | nil => exact hs
  | cons hR _ ih =>
    exact ih (fun b hb => hP b (List.mem_cons_of_mem _ hb))
      (hstep _ _ _ (hP _ List.mem_cons_self) hR hs)

/-- Where every input has a successor from every state of the invariant, every sequence of
inputs leads somewhere. -/
theorem exists_steps {Inv : σ → Prop} (hstep : ∀ s a s', R s a s' → Inv s → Inv s')
    (hexists : ∀ s a, Inv s → ∃ s', R s a s') {s : σ} (hs : Inv s) (as : List α) :
    ∃ s', Steps R s as s' := by
  induction as generalizing s with
  | nil => exact ⟨s, .nil⟩
  | cons a as ih =>
    obtain ⟨s', hR⟩ := hexists s a hs
    obtain ⟨s'', hrest⟩ := ih (hstep s a s' hR hs)
    exact ⟨s'', .cons hR hrest⟩

/-- The rule for an exact condition: steps that meet it keep the invariant, the
invariant gives the property, and a step that misses it breaks the property at
once. -/
theorem steps_forall_prefix_iff (Inv : σ → Prop) {P : σ → Prop} (hP : ∀ s, Inv s → P s)
    (hkeep : ∀ s a s', Inv s → ok s a → R s a s' → Inv s')
    (hbreak : ∀ s a, Inv s → ¬ ok s a → ∃ s', R s a s' ∧ ¬ P s') {s : σ} (hs : Inv s)
    (as : List α) :
    (∀ bs, bs <+: as → ∀ s', Steps R s bs s' → P s') ↔ Throughout R ok s as := by
  induction as generalizing s with
  | nil =>
    refine ⟨fun _ => trivial, fun _ bs hbs s' hrun => ?_⟩
    rw [List.prefix_nil.mp hbs] at hrun
    cases hrun
    exact hP s hs
  | cons a as ih =>
    constructor
    · intro h
      have hok : ok s a := by
        by_contra hnot
        obtain ⟨s', hstep, hbad⟩ := hbreak s a hs hnot
        exact hbad (h [a] (by simp) s' (.cons hstep .nil))
      refine ⟨hok, fun s' hstep => (ih (hkeep s a s' hs hok hstep)).mp fun bs hbs t hrun => ?_⟩
      exact h (a :: bs) (List.cons_prefix_cons.mpr ⟨rfl, hbs⟩) t (.cons hstep hrun)
    · rintro ⟨hok, hrest⟩ bs hbs t hrun
      cases hrun with
      | nil => exact hP _ hs
      | @cons _ s' _ b bs hstep hrun =>
        obtain ⟨rfl, htail⟩ := List.cons_prefix_cons.mp hbs
        exact (ih (hkeep s b s' hs hok hstep)).mpr (hrest s' hstep) bs htail t hrun

/-- The same rule where the property itself is what a step keeps, beside facts that every
step keeps. -/
theorem steps_forall_prefix_iff_of_exact (Aux : σ → Prop) {P : σ → Prop}
    (haux : ∀ s a s', Aux s → R s a s' → Aux s')
    (hexact : ∀ s a s', Aux s → P s → R s a s' → (P s' ↔ ok s a))
    (hexists : ∀ s a, ¬ ok s a → ∃ s', R s a s') {s : σ} (hs : Aux s) (hP : P s) (as : List α) :
    (∀ bs, bs <+: as → ∀ s', Steps R s bs s' → P s') ↔ Throughout R ok s as := by
  refine steps_forall_prefix_iff (fun s => Aux s ∧ P s) (fun s h => h.2) (fun s a s' h hok hstep => ?_)
    (fun s a h hnot => ?_) ⟨hs, hP⟩ as
  · exact ⟨haux s a s' h.1 hstep, (hexact s a s' h.1 h.2 hstep).mpr hok⟩
  · obtain ⟨s', hstep⟩ := hexists s a hnot
    exact ⟨s', hstep, fun hP' => hnot ((hexact s a s' h.1 h.2 hstep).mp hP')⟩

/-! ### Steps without a successor -/

/-- The state after the inputs, if every step has a successor. -/
def execM (step : σ → α → Option σ) : σ → List α → Option σ
  | s, [] => some s
  | s, a :: as => (step s a).bind fun s' => execM step s' as

/-- Every input that is processed meets `ok` in the state it is processed in. -/
def Along (step : σ → α → Option σ) (ok : σ → α → Prop) : σ → List α → Prop
  | _, [] => True
  | s, a :: as => ok s a ∧ ∀ s', step s a = some s' → Along step ok s' as

theorem execM_cons {step : σ → α → Option σ} {s s' : σ} {a : α} (h : step s a = some s')
    (as : List α) : execM step s (a :: as) = execM step s' as := by
  rw [execM, h, Option.bind_some]

theorem steps_execM_iff {step : σ → α → Option σ} {s s' : σ} {as : List α} :
    Steps (fun s a s' => step s a = some s') s as s' ↔ execM step s as = some s' := by
  constructor
  · intro h
    induction h with
    | nil => rfl
    | cons hstep _ ih => exact (execM_cons hstep _).trans ih
  · intro h
    induction as generalizing s with
    | nil =>
      cases h
      exact .nil
    | cons a as ih =>
      obtain ⟨t, hstep, hrest⟩ := Option.bind_eq_some_iff.mp h
      exact .cons hstep (ih hrest)

theorem throughout_along_iff {step : σ → α → Option σ} {s : σ} {as : List α} :
    Throughout (fun s a s' => step s a = some s') ok s as ↔ Along step ok s as := by
  induction as generalizing s with
  | nil => exact Iff.rfl
  | cons a as ih => exact and_congr_right fun _ => forall_congr' fun s' => imp_congr_right fun _ => ih

theorem execM_forall_prefix_iff (Inv : σ → Prop) {step : σ → α → Option σ} {ok : σ → α → Prop}
    {P : σ → Prop} (hP : ∀ s, Inv s → P s)
    (hkeep : ∀ s a s', Inv s → ok s a → step s a = some s' → Inv s')
    (hbreak : ∀ s a, Inv s → ¬ ok s a → ∃ s', step s a = some s' ∧ ¬ P s')
    {s : σ} (hs : Inv s) (as : List α) :
    (∀ bs, bs <+: as → ∀ s', execM step s bs = some s' → P s') ↔ Along step ok s as := by
  have hrule := steps_forall_prefix_iff Inv hP hkeep hbreak hs as
  simp only [steps_execM_iff] at hrule
  exact hrule.trans throughout_along_iff

end Run
