/-
Forward simulation between two deterministic machines.

The concrete machine may have no successor.  A relation between its states and those of
the abstract machine that every admitted step keeps, with a successor each time, carries
over to whole runs: the concrete run has a result, and it is related to the abstract one.

`Steps.simulate` is the rule for relations where a concrete step may be no step of the
abstract machine.
-/
import Moonlight.Lib.Run

namespace Run

variable {σ τ α : Type}

/-- From related states an admitted input leads to related states. -/
structure Simulation (step : σ → α → Option σ) (spec : τ → α → τ) (ok : α → Prop)
    (Rel : σ → τ → Prop) : Prop where
  step : ∀ {s t a}, Rel s t → ok a → ∃ s', step s a = some s' ∧ Rel s' (spec t a)

variable {step : σ → α → Option σ} {spec : τ → α → τ} {ok : α → Prop} {Rel : σ → τ → Prop}

theorem Simulation.run (h : Simulation step spec ok Rel) {s : σ} {t : τ} (hst : Rel s t)
    {as : List α} (hok : ∀ a ∈ as, ok a) :
    ∃ s', execM step s as = some s' ∧ Rel s' (exec spec t as) := by
  induction as generalizing s t with
  | nil => exact ⟨s, rfl, hst⟩
  | cons a as ih =>
    obtain ⟨s', hstep, hst'⟩ := h.step hst (hok a List.mem_cons_self)
    obtain ⟨s'', hrun, hend⟩ := ih hst' fun b hb => hok b (List.mem_cons_of_mem a hb)
    exact ⟨s'', (execM_cons hstep as).trans hrun, hend⟩

/-- Each concrete step is the abstract step that `label` reads off it, or none. -/
theorem Steps.simulate {β : Type} {R : σ → α → σ → Prop} {R' : τ → β → τ → Prop} (f : σ → τ)
    (label : σ → α → Option β) {Inv : σ → Prop} (hinv : ∀ s a s', R s a s' → Inv s → Inv s')
    (hnone : ∀ s a s', R s a s' → label s a = none → f s' = f s)
    (hsome : ∀ s a s' b, R s a s' → Inv s → label s a = some b → R' (f s) b (f s')) {s s' : σ}
    {as : List α} (h : Steps R s as s') (hs : Inv s) :
    ∃ bs, Steps R' (f s) bs (f s') ∧ ∀ b ∈ bs, ∃ s a, label s a = some b := by
  induction h with
  | nil => exact ⟨[], .nil, fun b hb => nomatch hb⟩
  | @cons s s' _ a _ hR _ ih =>
    obtain ⟨bs, hrest, hbs⟩ := ih (hinv s a s' hR hs)
    cases hlabel : label s a with
    | none =>
      rw [hnone s a s' hR hlabel] at hrest
      exact ⟨bs, hrest, hbs⟩
    | some b =>
      refine ⟨b :: bs, .cons (hsome s a s' b hR hs hlabel) hrest, fun c hc => ?_⟩
      rcases List.mem_cons.mp hc with rfl | hc
      · exact ⟨s, a, hlabel⟩
      · exact hbs c hc

end Run
