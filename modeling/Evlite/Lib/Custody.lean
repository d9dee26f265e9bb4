import Mathlib.Algebra.BigOperators.Group.List.Basic
import Mathlib.Algebra.Ring.Int.Defs
import Mathlib.Data.List.Basic

/-!
# Who Has a Resource

A procedure acquires resources on its way, and in the end each of them has to be released, or to
belong to somebody who releases it later. What happens is written down in a log of entries, and
the `balance` of a resource is how often it was acquired and neither released nor given to an
owner. A log is `Settled` if all balances are zero.

## Main results

- `balance_append`: balances of a log add up.
- `not_settled`: a resource that is kept spoils the log.
- `settled_append_iff`: so do the parts of a log, if nothing is released that was not acquired.
-/

namespace Evlite.Lib

/-- What happens to a resource. -/
inductive Custody (ρ : Type*) where
  | acquire (r : ρ)
  | release (r : ρ)
  /-- The resource belongs to somebody from now on. -/
  | own (r : ρ)
deriving DecidableEq, Repr

namespace Custody

variable {ρ : Type*} [DecidableEq ρ]

/-- `1` for the resource itself, and `0` for any other. -/
def unit (r r' : ρ) : Int := if r' = r then 1 else 0

/-- What an entry means for the balance of `r`. -/
def weight (r : ρ) : Custody ρ → Int
  | .acquire r' => unit r r'
  | .release r' => -unit r r'
  | .own r' => -unit r r'

/-- How often `r` was acquired and neither released nor given to an owner. -/
def balance (r : ρ) (log : List (Custody ρ)) : Int := (log.map (weight r)).sum

/-- Every resource that was acquired is released or owned, and that once. -/
def Settled (log : List (Custody ρ)) : Prop := ∀ r, balance r log = 0

@[simp] theorem unit_self (r : ρ) : unit r r = 1 := if_pos rfl

theorem unit_of_ne {r r' : ρ} (h : r' ≠ r) : unit r r' = 0 := if_neg h

@[simp] theorem balance_nil (r : ρ) : balance r [] = 0 := rfl

@[simp] theorem balance_cons (r : ρ) (e : Custody ρ) (log : List (Custody ρ)) :
    balance r (e :: log) = weight r e + balance r log := by
  simp [balance]

/-- Balances add up. -/
@[simp] theorem balance_append (r : ρ) (log log' : List (Custody ρ)) :
    balance r (log ++ log') = balance r log + balance r log' := by
  simp [balance]

theorem settled_nil : Settled ([] : List (Custody ρ)) := fun _ => rfl

/-- A resource that is kept spoils the log. -/
theorem not_settled {log : List (Custody ρ)} {r : ρ} (h : balance r log ≠ 0) : ¬Settled log :=
  fun hsettled => h (hsettled r)

/-- Nothing is released or given away that was not acquired. -/
def Covered (log : List (Custody ρ)) : Prop := ∀ r, 0 ≤ balance r log

theorem covered_nil : Covered ([] : List (Custody ρ)) := fun _ => Int.le_refl 0

theorem Covered.append {log log' : List (Custody ρ)} (h : Covered log) (h' : Covered log') :
    Covered (log ++ log') := by
  intro r
  rw [balance_append]
  exact Int.add_nonneg (h r) (h' r)

/-- What one part of a log leaves behind, the other one does not take away. -/
theorem settled_append_iff {log log' : List (Custody ρ)} (h : Covered log) (h' : Covered log') :
    Settled (log ++ log') ↔ Settled log ∧ Settled log' := by
  unfold Settled
  rw [← forall_and]
  apply forall_congr'
  intro r
  have hr := h r
  have hr' := h' r
  rw [balance_append]
  omega

end Custody

end Evlite.Lib
