import Mathlib.Tactic.Common

/-!
# Transducers

A component that is called and answers: from a state, an input leads to a state and an answer.
One component refines another if a function maps the states of the first to states of the
second such that both answer alike and the function is kept.

## Main results

- `transduce_refines`: a component that refines another answers alike along every list of inputs.
- `transduce_invariant`: an invariant that every input keeps.
-/

namespace Evlite.Lib

variable {σ τ ι ο : Type*}

/-- The last state, and the answers to a list of inputs. -/
def transduce (step : σ → ι → σ × ο) : σ → List ι → σ × List ο
  | s, [] => (s, [])
  | s, i :: is =>
    ((transduce step (step s i).1 is).1, (step s i).2 :: (transduce step (step s i).1 is).2)

variable {step : σ → ι → σ × ο} {step' : τ → ι → τ × ο} {I : σ → Prop} {cond : ι → Prop}

/-- An invariant that every input keeps holds of the last state. -/
theorem transduce_invariant (hstep : ∀ s i, I s → cond i → I (step s i).1) {s : σ} {is : List ι}
    (hs : I s) (his : ∀ i ∈ is, cond i) : I (transduce step s is).1 := by
  induction is generalizing s with
  | nil => exact hs
  | cons i is ih =>
    apply ih
    · exact hstep s i hs (his i List.mem_cons_self)
    · exact fun j hj => his j (List.mem_cons_of_mem i hj)

/-- A component that refines another answers alike along every list of inputs. -/
theorem transduce_refines (abs : σ → τ) (hkeep : ∀ s i, I s → cond i → I (step s i).1)
    (hstep : ∀ s i, I s → cond i → (abs (step s i).1, (step s i).2) = step' (abs s) i)
    {s : σ} {is : List ι} (hs : I s) (his : ∀ i ∈ is, cond i) :
    (abs (transduce step s is).1, (transduce step s is).2) = transduce step' (abs s) is := by
  induction is generalizing s with
  | nil => rfl
  | cons i is ih =>
    have hi := his i List.mem_cons_self
    have hrest := ih (hkeep s i hs hi) fun j hj => his j (List.mem_cons_of_mem i hj)
    have hone := hstep s i hs hi
    unfold transduce
    rw [← hone, ← hrest]

end Evlite.Lib
