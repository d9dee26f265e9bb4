import Mathlib.Tactic.Common

/-!
# Polling When Told

A component is polled at a time, and says for how long polling it again would be of no use. What
would have been polled in between is left out. Nothing is missed by that if a poll that comes
too early has no output, and leaves a state that no later poll tells from the one before.

## Main results

- `Patient.pollEach_eq_pollAsTold`: polling at every time, and only when told, have the same output.
-/

namespace Evlite.Lib.Polling

variable {σ ο : Type*}

/-- Polls at `n` times, one after the other from `t` on. -/
def pollEach (poll : σ → Nat → σ × List ο) : σ → Nat → Nat → σ × List ο
  | s, _, 0 => (s, [])
  | s, t, n + 1 =>
    let r := poll s t
    let rest := pollEach poll r.1 (t + 1) n
    (rest.1, r.2 ++ rest.2)

/-- Polls at those of `n` times that it is told, the first of them `t`. -/
def pollAsTold (poll : σ → Nat → σ × List ο) (wait : σ → Nat → Nat) :
    σ → Nat → Nat → σ × List ο
  | s, _, 0 => (s, [])
  | s, t, n + 1 =>
    let r := poll s t
    let early := wait r.1 t - 1
    let rest := pollAsTold poll wait r.1 (t + 1 + early) (n - early)
    (rest.1, r.2 ++ rest.2)
termination_by _ _ n => n
decreasing_by exact Nat.lt_succ_of_le (Nat.sub_le _ _)

/-- A poll that comes too early has no output, and changes nothing that a later one sees. -/
structure Patient (poll : σ → Nat → σ × List ο) (wait : σ → Nat → Nat) (same : σ → σ → Prop) :
    Prop where
  refl : ∀ s, same s s
  trans : ∀ {s s' s''}, same s s' → same s' s'' → same s s''
  poll_eq : ∀ {s s'} (t : Nat), same s s' → poll s t = poll s' t
  early : ∀ {s t k}, k < wait s t → (poll s (t + k)).2 = [] ∧ same s (poll s (t + k)).1

variable {poll : σ → Nat → σ × List ο} {wait : σ → Nat → Nat} {same : σ → σ → Prop}

theorem pollEach_add (s : σ) (t m n : Nat) :
    pollEach poll s t (m + n) =
      ((pollEach poll (pollEach poll s t m).1 (t + m) n).1,
        (pollEach poll s t m).2 ++ (pollEach poll (pollEach poll s t m).1 (t + m) n).2) := by
  induction m generalizing s t with
  | zero => simp [pollEach]
  | succ m ih =>
    rw [Nat.add_right_comm m 1 n]
    simp only [pollEach, ih, List.append_assoc]
    rw [Nat.add_assoc t 1 m, Nat.add_comm 1 m]

/-- From states that are not told apart, polling has the same output, and ends alike. -/
theorem Patient.pollEach_same (h : Patient poll wait same) {s s' : σ} (hsame : same s s')
    (t n : Nat) : (pollEach poll s' t n).2 = (pollEach poll s t n).2 ∧
      ∀ r, same r (pollEach poll s t n).1 → same r (pollEach poll s' t n).1 := by
  cases n with
  | zero => exact ⟨rfl, fun r hr => h.trans hr hsame⟩
  | succ n =>
    unfold pollEach
    rw [h.poll_eq t hsame]
    exact ⟨rfl, fun r hr => hr⟩

/-- The polls that come too early have no output. -/
theorem Patient.pollEach_early (h : Patient poll wait same) {s : σ} {t k n : Nat}
    (hn : ∀ j < n, k + j < wait s t) :
    (pollEach poll s (t + k) n).2 = [] ∧ same s (pollEach poll s (t + k) n).1 := by
  induction n with
  | zero => exact ⟨rfl, h.refl s⟩
  | succ n ih =>
    obtain ⟨hquiet, hsame⟩ := ih fun j hj => hn j (Nat.lt_succ_of_lt hj)
    -- the last of them is polled in a state that is not told apart from `s`
    have hlast : pollEach poll (pollEach poll s (t + k) n).1 (t + k + n) 1 =
        ((poll s (t + (k + n))).1, (poll s (t + (k + n))).2 ++ []) := by
      rw [Nat.add_assoc t k n, h.poll_eq _ hsame]
      rfl
    obtain ⟨hnone, hkept⟩ := h.early (hn n (Nat.lt_succ_self n))
    rw [pollEach_add, hlast, hquiet, hnone]
    exact ⟨rfl, hkept⟩

/-- Polling at every time, and only when told, have the same output, and leave states that no
later poll tells apart. -/
theorem Patient.pollEach_eq_pollAsTold (h : Patient poll wait same) (s : σ) (t n : Nat) :
    (pollEach poll s t n).2 = (pollAsTold poll wait s t n).2 ∧
      same (pollAsTold poll wait s t n).1 (pollEach poll s t n).1 := by
  induction n using Nat.strongRecOn generalizing s t with
  | ind n ih =>
    cases n with
    | zero =>
      rw [pollAsTold]
      exact ⟨rfl, h.refl s⟩
    | succ n =>
      rw [pollAsTold]
      unfold pollEach
      dsimp only
      generalize poll s t = r
      generalize hearly : wait r.1 t - 1 = early
      have hin : ∀ j < min early n, 1 + j < wait r.1 t := by omega
      obtain ⟨hquiet, hsame⟩ := h.pollEach_early hin
      have hsplit := @pollEach_add _ _ poll r.1 (t + 1) (min early n) (n - min early n)
      rw [Nat.add_sub_cancel' (Nat.min_le_right early n)] at hsplit
      rw [hsplit, hquiet, List.nil_append]
      obtain ⟨hout, hstate⟩ := h.pollEach_same hsame (t + 1 + min early n) (n - min early n)
      rw [hout]
      by_cases hshort : early ≤ n
      · -- the next poll that is told is the first after what was left out
        rw [Nat.min_eq_left hshort] at hstate ⊢
        obtain ⟨hrest, hend⟩ := ih (n - early) (by omega) r.1 (t + 1 + early)
        rw [hrest]
        exact ⟨rfl, hstate _ hend⟩
      · -- there is none
        rw [Nat.min_eq_right (by omega), Nat.sub_self] at hstate ⊢
        rw [Nat.sub_eq_zero_of_le (by omega), pollAsTold]
        exact ⟨rfl, hstate _ (h.refl r.1)⟩

end Evlite.Lib.Polling
