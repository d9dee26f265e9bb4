import Mathlib.Data.List.Basic

/-!
# Draining a Source

A `Source` yields values one at a time for as long as there are any, and each value that is
taken leaves less in it. `drain` takes them all. A loop that stops at the first value it has
no use for is `drainWhile`, and it empties the source only if there is no such value.

## Main results

- `next_drain`: nothing is left to take after a drain.
- `drainWhile_eq_drain`: a loop that never stops early drains the source.
- `next_drainWhile_iff`: and only such a loop leaves nothing to take.
-/

namespace Evlite.Lib

/-- Something that values are taken from, one at a time. -/
structure Source (σ α : Type*) where
  next : σ → Option (α × σ)
  size : σ → Nat
  shrinks : ∀ {s a t}, next s = some (a, t) → size t < size s

namespace Source

variable {σ α : Type*} (src : Source σ α)

/-- Take all values, in order. -/
def drain (s : σ) : List α × σ :=
  match _ : src.next s with
  | none => ([], s)
  | some (a, t) => (a :: (drain t).1, (drain t).2)
termination_by src.size s
decreasing_by all_goals exact src.shrinks ‹_›

/-- Take values up to the first that is not wanted, which stays. -/
def drainWhile (p : α → Prop) [DecidablePred p] (s : σ) : List α × σ :=
  match _ : src.next s with
  | none => ([], s)
  | some (a, t) => if p a then (a :: (drainWhile p t).1, (drainWhile p t).2) else ([], s)
termination_by src.size s
decreasing_by all_goals exact src.shrinks ‹_›

section

variable {src} {s t : σ} {a : α}

theorem drain_none (h : src.next s = none) : src.drain s = ([], s) := by
  rw [drain]
  split
  · rfl
  · rename_i hsome
    rw [h] at hsome
    cases hsome

theorem drain_some (h : src.next s = some (a, t)) :
    src.drain s = (a :: (src.drain t).1, (src.drain t).2) := by
  rw [drain]
  split
  · rename_i hnone
    rw [h] at hnone
    cases hnone
  · rename_i hsome
    rw [h] at hsome
    cases hsome
    rfl

variable {p : α → Prop} [DecidablePred p]

theorem drainWhile_none (h : src.next s = none) : src.drainWhile p s = ([], s) := by
  rw [drainWhile]
  split
  · rfl
  · rename_i hsome
    rw [h] at hsome
    cases hsome

theorem drainWhile_some (h : src.next s = some (a, t)) (ha : p a) :
    src.drainWhile p s = (a :: (src.drainWhile p t).1, (src.drainWhile p t).2) := by
  rw [drainWhile]
  split
  · rename_i hnone
    rw [h] at hnone
    cases hnone
  · rename_i hsome
    rw [h] at hsome
    cases hsome
    rw [if_pos ha]

theorem drainWhile_stop (h : src.next s = some (a, t)) (ha : ¬p a) :
    src.drainWhile p s = ([], s) := by
  rw [drainWhile]
  split
  · rfl
  · rename_i hsome
    rw [h] at hsome
    cases hsome
    rw [if_neg ha]

end

/-- Induction along the values that a source yields. -/
theorem induct {motive : σ → Prop} (done : ∀ s, src.next s = none → motive s)
    (take : ∀ s a t, src.next s = some (a, t) → motive t → motive s) (s : σ) : motive s := by
  induction hn : src.size s using Nat.strongRecOn generalizing s with
  | ind n ih =>
    cases hnext : src.next s with
    | none => exact done s hnext
    | some r =>
      obtain ⟨a, t⟩ := r
      have hless := src.shrinks hnext
      rw [hn] at hless
      exact take s a t hnext (ih _ hless t rfl)

/-- A drained source has nothing left. -/
theorem next_drain (s : σ) : src.next (src.drain s).2 = none := by
  induction s using src.induct with
  | done s h => rwa [drain_none h]
  | take s a t h ih => rwa [drain_some h]

variable (p : α → Prop) [DecidablePred p]

/-- If all values are wanted, the loop is a drain. -/
theorem drainWhile_eq_drain (s : σ) (h : ∀ a ∈ (src.drain s).1, p a) :
    src.drainWhile p s = src.drain s := by
  induction s using src.induct with
  | done s hnext => rw [drainWhile_none hnext, drain_none hnext]
  | take s a t hnext ih =>
    rw [drain_some hnext] at h
    have htail := ih fun b hb => h b (List.mem_cons_of_mem a hb)
    rw [drainWhile_some hnext (h a List.mem_cons_self), drain_some hnext, htail]

/-- The loop leaves nothing to take if and only if all values are wanted. -/
theorem next_drainWhile_iff (s : σ) :
    src.next (src.drainWhile p s).2 = none ↔ ∀ a ∈ (src.drain s).1, p a := by
  refine ⟨fun h => ?_, fun h => ?_⟩
  · induction s using src.induct with
    | done s hnext =>
      rw [drain_none hnext]
      exact fun _ ha => absurd ha List.not_mem_nil
    | take s a t hnext ih =>
      by_cases hwanted : p a
      · rw [drainWhile_some hnext hwanted] at h
        rw [drain_some hnext]
        intro b hb
        rcases List.mem_cons.mp hb with rfl | hb
        · exact hwanted
        · exact ih h b hb
      · -- the unwanted value is still there
        rw [drainWhile_stop hnext hwanted, hnext] at h
        cases h
  · rw [src.drainWhile_eq_drain p s h]
    exact src.next_drain s

end Source

end Evlite.Lib
