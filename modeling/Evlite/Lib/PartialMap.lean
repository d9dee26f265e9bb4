import Mathlib.Logic.Function.Basic

/-!
# Partial Maps

A memory that holds objects by address is a function to `Option`. These are the case splits
for what a map holds after one address has changed.
-/

namespace Evlite.Lib

variable {α β : Type*} [DecidableEq α] {f : α → Option β} {a x : α} {y : β}

/-- What a changed map holds is the new value or was there before. -/
theorem update_eq_some {b : Option β} (h : Function.update f a b x = some y) :
    (x = a ∧ b = some y) ∨ (x ≠ a ∧ f x = some y) := by
  by_cases hx : x = a
  · rw [hx, Function.update_self] at h
    exact .inl ⟨hx, h⟩
  · rw [Function.update_of_ne hx] at h
    exact .inr ⟨hx, h⟩

/-- What is left of a map was there before. -/
theorem of_update_none (h : Function.update f a none x = some y) : x ≠ a ∧ f x = some y := by
  rcases update_eq_some h with ⟨-, hnone⟩ | hkept
  · exact nomatch hnone
  · exact hkept

end Evlite.Lib
