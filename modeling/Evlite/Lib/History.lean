import Mathlib.Tactic.Common

/-!
# Properties of the Entries of a Log

A log is read from its beginning, and what was read is summed up in a state. `AllAlong` says
that every entry has a property in the state that the entries before it lead to.

## Main results

- `allAlong_append`: a log that goes on.
-/

namespace Evlite.Lib

variable {σ ε : Type*}

/-- Every entry of a log has a property, in the state that the entries before it lead to. -/
def AllAlong (record : σ → ε → σ) (P : σ → ε → Prop) : σ → List ε → Prop
  | _, [] => True
  | s, e :: log => P s e ∧ AllAlong record P (record s e) log

variable {record : σ → ε → σ} {P : σ → ε → Prop} {s : σ} {log log' : List ε}

/-- The later entries are read in the state the earlier ones lead to. -/
theorem allAlong_append :
    AllAlong record P s (log ++ log') ↔
      AllAlong record P s log ∧ AllAlong record P (log.foldl record s) log' := by
  induction log generalizing s with
  | nil => simp [AllAlong]
  | cons e log ih => simp only [List.cons_append, AllAlong, List.foldl_cons, ih, and_assoc]

/-- A log of entries that have the property in any state. -/
theorem allAlong_of_forall (h : ∀ e ∈ log, ∀ s, P s e) : AllAlong record P s log := by
  induction log generalizing s with
  | nil => trivial
  | cons e log ih =>
    refine ⟨h e List.mem_cons_self s, ih fun e' he' => h e' ?_⟩
    exact List.mem_cons_of_mem e he'

/-- Entries that change nothing. -/
theorem foldl_eq_of_forall (h : ∀ e ∈ log, ∀ s, record s e = s) : log.foldl record s = s := by
  induction log with
  | nil => rfl
  | cons e log ih =>
    rw [List.foldl_cons, h e List.mem_cons_self]
    exact ih fun e' he' => h e' (List.mem_cons_of_mem e he')

end Evlite.Lib
