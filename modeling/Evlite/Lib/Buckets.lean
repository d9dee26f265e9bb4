import Mathlib.Algebra.BigOperators.Group.Finset.Basic
import Mathlib.Data.Finset.Range
import Mathlib.Logic.Function.Basic

/-!
# The Members of All Buckets

A table has a list for each of its `n` buckets, and often a counter for the members of all of them.
The operations replace one bucket at a time.

## Main results

- `total_update`: what the replacement of one bucket means for the total.
- `total_eq_zero_iff`: a total of zero is a table of empty buckets.
-/

namespace Evlite.Lib

variable {α : Type*}

/-- How many members the first `n` buckets have. -/
def total (bucket : Nat → List α) (n : Nat) : Nat := ∑ b ∈ Finset.range n, (bucket b).length

/-- Replacing one bucket changes the total by the difference of the lengths. -/
theorem total_update {b n : Nat} (hb : b < n) (bucket : Nat → List α) (l : List α) :
    total (Function.update bucket b l) n + (bucket b).length = total bucket n + l.length := by
  have hmem : b ∈ Finset.range n := Finset.mem_range.mpr hb
  -- outside of the bucket nothing changes
  have hrest : ∑ c ∈ (Finset.range n).erase b, (Function.update bucket b l c).length =
      ∑ c ∈ (Finset.range n).erase b, (bucket c).length := by
    apply Finset.sum_congr rfl
    intro c hc
    rw [Function.update_of_ne (Finset.ne_of_mem_erase hc)]
  have hnew := Finset.add_sum_erase _ (fun c => (Function.update bucket b l c).length) hmem
  have hold := Finset.add_sum_erase _ (fun c => (bucket c).length) hmem
  simp only [Function.update_self] at hnew
  unfold total
  omega

/-- A table without members has only empty buckets. -/
theorem total_eq_zero_iff {bucket : Nat → List α} {n : Nat} :
    total bucket n = 0 ↔ ∀ b, b < n → bucket b = [] := by
  unfold total
  rw [Finset.sum_eq_zero_iff]
  simp

end Evlite.Lib
