import Mathlib.Data.List.Nodup

/-!
# Walking a List That Shrinks Underneath

A loop over a linked list that deletes as it goes fetches the successor of an element
before it visits the element. The list is part of a state `σ` and read through `link`;
`visit` may change the state in any way, as long as what it does to the list is to take out
the element it visits.

## Main results

- `walk_eq_foldl`: every element is visited once, in order, and the fetched successors are
  never stale.
- `walk_spec`: what every visit keeps holds at the end, when the list is empty.
-/

namespace Evlite.Lib.Traversal

variable {α σ : Type*} [DecidableEq α]

/-- The element that follows `a`. -/
def next (a : α) : List α → Option α
  | [] => none
  | b :: l => if b = a then l.head? else next a l

/-- The loop, from the element `cur` on. It ends after at most `fuel` visits. -/
def loop (link : σ → List α) (visit : σ → α → σ) : Nat → Option α → σ → σ
  | 0, _, s => s
  | _ + 1, none, s => s
  | fuel + 1, some a, s => loop link visit fuel (next a (link s)) (visit s a)

/-- The loop from the first element on. -/
def walk (link : σ → List α) (visit : σ → α → σ) (s : σ) : σ :=
  loop link visit (link s).length (link s).head? s

section

variable {link : σ → List α} {visit : σ → α → σ}

/-- With enough fuel the loop visits every element of the list once, in order. -/
theorem loop_eq_foldl {I : σ → Prop} {s : σ} {fuel : Nat} (hI : I s) (hnodup : (link s).Nodup)
    (hvisit : ∀ t a, I t → a ∈ link t → I (visit t a) ∧ link (visit t a) = (link t).erase a)
    (hfuel : (link s).length ≤ fuel) :
    loop link visit fuel (link s).head? s = (link s).foldl visit s := by
  generalize hl : link s = l at hnodup hfuel
  induction l generalizing s fuel with
  | nil => cases fuel <;> rfl
  | cons a rest ih =>
    obtain ⟨fuel, rfl⟩ : ∃ k, fuel = k + 1 := ⟨fuel - 1, by rw [List.length_cons] at hfuel; omega⟩
    obtain ⟨hkeep, hlink⟩ := hvisit s a hI (by rw [hl]; exact List.mem_cons_self ..)
    rw [hl, List.erase_cons_head] at hlink
    -- the successor fetched before the visit is still the first element after it
    have hnext : next a (link s) = rest.head? := by rw [hl, next, if_pos rfl]
    show loop link visit fuel (next a (link s)) (visit s a) = _
    rw [hnext, List.foldl_cons]
    exact ih hkeep hlink (List.nodup_cons.mp hnodup).2 (by rw [List.length_cons] at hfuel; omega)

/-- What every visit keeps, the visits of a whole list keep, and the list is empty then. -/
theorem foldl_spec {I : σ → Prop} {s : σ} (hI : I s)
    (hvisit : ∀ t a, I t → a ∈ link t → I (visit t a) ∧ link (visit t a) = (link t).erase a) :
    I ((link s).foldl visit s) ∧ link ((link s).foldl visit s) = [] := by
  generalize hl : link s = l
  induction l generalizing s with
  | nil => exact ⟨hI, hl⟩
  | cons a rest ih =>
    obtain ⟨hkeep, hlink⟩ := hvisit s a hI (by rw [hl]; exact List.mem_cons_self ..)
    rw [hl, List.erase_cons_head] at hlink
    exact ih hkeep hlink

/-- Every element of the list is visited once, in order. -/
theorem walk_eq_foldl {I : σ → Prop} {s : σ} (hI : I s) (hnodup : (link s).Nodup)
    (hvisit : ∀ t a, I t → a ∈ link t → I (visit t a) ∧ link (visit t a) = (link t).erase a) :
    walk link visit s = (link s).foldl visit s :=
  loop_eq_foldl hI hnodup hvisit (Nat.le_refl _)

/-- What every visit keeps holds after the walk, and nothing is left in the list. -/
theorem walk_spec {I : σ → Prop} {s : σ} (hI : I s) (hnodup : (link s).Nodup)
    (hvisit : ∀ t a, I t → a ∈ link t → I (visit t a) ∧ link (visit t a) = (link t).erase a) :
    I (walk link visit s) ∧ link (walk link visit s) = [] := by
  rw [walk_eq_foldl hI hnodup hvisit]
  exact foldl_spec hI hvisit

end

end Evlite.Lib.Traversal
