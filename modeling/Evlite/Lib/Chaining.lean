import Mathlib.Data.List.Perm.Basic
import Mathlib.Data.List.Nodup
import Mathlib.Logic.Function.Basic

/-!
# Hashing with Chaining

Entries that are spread over chains by the index of their key, against one list of all entries,
the newest one first. `Chained` says that every chain is the part of the list that has its
index. A search of one chain is then a search of the whole list, whatever the index makes
collide.

## Main results

- `filter_eraseP_self`, `filter_eraseP_of_disjoint`: what the removal of the first match leaves.
- `perm_find?_append_eraseP`, `find?_eraseP_of_disjoint`: the rest is the list without it.
- `Chained.find?_chain`: what a search of the chain of a key finds.
- `Chained.push`, `Chained.forget`: a new entry, and the removal of the newest one of a key.
- `Chained.flatMap_perm`: the chains hold all entries, and nothing else.
-/

namespace Evlite.Lib

variable {ε κ β : Type*}

/-! ## A list without its first match -/

section EraseP

variable {p q : ε → Bool}

/-- The first match is gone from the matches. -/
theorem filter_eraseP_self (p : ε → Bool) (l : List ε) :
    (l.eraseP p).filter p = (l.filter p).tail := by
  induction l with
  | nil => rfl
  | cons a l ih =>
    by_cases ha : p a
    · rw [List.eraseP_cons_of_pos ha, List.filter_cons_of_pos ha, List.tail_cons]
    · rw [List.eraseP_cons_of_neg ha, List.filter_cons_of_neg ha, List.filter_cons_of_neg ha, ih]

/-- What does not match stays. -/
theorem filter_eraseP_of_disjoint (hdisjoint : ∀ a, p a → ¬ q a) (l : List ε) :
    (l.eraseP p).filter q = l.filter q := by
  induction l with
  | nil => rfl
  | cons a l ih =>
    by_cases ha : p a
    · rw [List.eraseP_cons_of_pos ha, List.filter_cons_of_neg (hdisjoint a ha)]
    · rw [List.eraseP_cons_of_neg ha, List.filter_cons, List.filter_cons, ih]

/-- Where all matches are in a part of the list, the first one is the first one of the part. -/
theorem filter_eraseP_of_subset (hsubset : ∀ a, p a → q a) (l : List ε) :
    (l.eraseP p).filter q = (l.filter q).eraseP p := by
  induction l with
  | nil => rfl
  | cons a l ih =>
    by_cases ha : p a
    · rw [List.eraseP_cons_of_pos ha, List.filter_cons_of_pos (hsubset a ha),
        List.eraseP_cons_of_pos ha]
    · rw [List.eraseP_cons_of_neg ha, List.filter_cons, List.filter_cons, ih]
      split
      · rw [List.eraseP_cons_of_neg ha]
      · rfl

/-- The first match and the others are the whole list. -/
theorem perm_find?_append_eraseP (p : ε → Bool) (l : List ε) :
    l.Perm ((l.find? p).toList ++ l.eraseP p) := by
  induction l with
  | nil => rfl
  | cons b l ih =>
    by_cases hb : p b
    · rw [List.find?_cons_of_pos hb, List.eraseP_cons_of_pos hb]
      rfl
    · rw [List.find?_cons_of_neg hb, List.eraseP_cons_of_neg hb]
      exact (ih.cons b).trans List.perm_middle.symm

/-- A search for something else does not see that the first match is gone. -/
theorem find?_eraseP_of_disjoint (hdisjoint : ∀ a, p a → ¬ q a) (l : List ε) :
    (l.eraseP p).find? q = l.find? q := by
  rw [← List.head?_filter, ← List.head?_filter, filter_eraseP_of_disjoint hdisjoint]

end EraseP

/-! ## Chains -/

variable [DecidableEq β]

/-- Every chain is the part of the list that has its index. -/
def Chained (key : ε → κ) (index : κ → β) (chains : β → List ε) (live : List ε) : Prop :=
  ∀ b, chains b = live.filter fun e => index (key e) = b

namespace Chained

variable {key : ε → κ} {index : κ → β} {chains : β → List ε} {live : List ε}

theorem nil (key : ε → κ) (index : κ → β) : Chained key index (fun _ => []) [] :=
  fun _ => rfl

/-- A new entry goes to the front of its chain. -/
theorem push (h : Chained key index chains live) (e : ε) :
    Chained key index
      (Function.update chains (index (key e)) (e :: chains (index (key e)))) (e :: live) := by
  intro b
  by_cases hb : b = index (key e)
  · subst hb
    rw [Function.update_self, List.filter_cons_of_pos (by simp), h]
  · rw [Function.update_of_ne hb, List.filter_cons_of_neg (by simpa using Ne.symm hb), h]

/-- The chains of a list of indices hold the entries of these indices. -/
theorem flatMap_filter_perm (h : Chained key index chains live) {indices : List β}
    (hnodup : indices.Nodup) :
    (indices.flatMap chains).Perm (live.filter fun e => index (key e) ∈ indices) := by
  induction indices with
  | nil => simp
  | cons b bs ih =>
    obtain ⟨hb, hbs⟩ := List.nodup_cons.mp hnodup
    have hsplit := List.filter_append_perm (fun e => decide (index (key e) = b))
      (live.filter fun e => index (key e) ∈ b :: bs)
    rw [List.filter_filter, List.filter_filter] at hsplit
    refine List.Perm.trans ?_ hsplit
    rw [List.flatMap_cons]
    refine List.Perm.append (.of_eq ?_) ((ih hbs).trans (.of_eq ?_))
    · rw [h b]
      refine List.filter_congr fun e _ => ?_
      by_cases he : index (key e) = b <;> simp [he]
    · refine List.filter_congr fun e _ => ?_
      by_cases he : index (key e) = b
      · simp [he, hb]
      · simp [he]

/-- The chains hold all entries, and nothing else. -/
theorem flatMap_perm (h : Chained key index chains live) {indices : List β}
    (hnodup : indices.Nodup) (hall : ∀ k, index k ∈ indices) :
    (indices.flatMap chains).Perm live := by
  refine (h.flatMap_filter_perm hnodup).trans (.of_eq ?_)
  rw [List.filter_eq_self]
  exact fun e _ => decide_eq_true (hall (key e))

/-! ### Searches -/

variable {k : κ} {p : ε → Bool}

/-- A search for a key in its chain is a search of the whole list. -/
theorem find?_chain (h : Chained key index chains live) (hkey : ∀ e, p e → key e = k) :
    (chains (index k)).find? p = live.find? p := by
  rw [h, List.find?_filter]
  congr 1
  funext e
  cases he : p e with
  | false => simp
  | true => simp [hkey e he]

/-- The newest entry of a key leaves its chain. -/
theorem forget (h : Chained key index chains live) (hkey : ∀ e, p e → key e = k) :
    Chained key index (Function.update chains (index k) ((chains (index k)).eraseP p))
      (live.eraseP p) := by
  intro b
  by_cases hb : b = index k
  · subst hb
    rw [Function.update_self, h]
    refine (filter_eraseP_of_subset (fun e he => ?_) live).symm
    simp [hkey e he]
  · rw [Function.update_of_ne hb, h]
    refine (filter_eraseP_of_disjoint (fun e he => ?_) live).symm
    simpa [hkey e he] using Ne.symm hb

/-- A key without an entry has nothing to remove. -/
theorem eraseP_of_find?_eq_none (h : Chained key index chains live)
    (hkey : ∀ e, p e → key e = k) (hnone : (chains (index k)).find? p = none) :
    live.eraseP p = live := by
  rw [h.find?_chain hkey, List.find?_eq_none] at hnone
  exact List.eraseP_of_forall_not hnone

end Chained

end Evlite.Lib
