/-
Runs as one observer sees them.

The observer sees part of the state, through `view`, and takes part in some of the inputs,
the visible ones.  When the other inputs leave the view alone, and the visible ones have an
outcome that the view decides, the other inputs can be left out of any run: the observer
gets the same answers and ends with the same view.
-/
import Mathlib.Logic.Function.Basic
import Moonlight.Lib.Run

namespace Run

/-! ### Tables seen in part -/

section Masked

variable {ι β : Type} {p : ι → Bool} {z : β} {f : ι → β} {i : ι}

/-- A table with the entries outside `p` blanked out. -/
def masked (p : ι → Bool) (z : β) (f : ι → β) (i : ι) : β := if p i then f i else z

variable [DecidableEq ι]

end Masked

/-! ### Runs seen in part -/

variable {σ τ α ω : Type}

variable {step : σ → α → Option σ} {out : σ → α → ω} {visible : α → Bool} {view : σ → τ}
  {ok : α → Prop} {Inv : σ → Prop}

end Run
