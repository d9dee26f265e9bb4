import Mathlib.Data.List.Basic

/-!
# Counted and Released by Hand

An object is handed to a number of receivers. Whoever is done with one of them counts a
success or a failure, and after that releases the object, which destroys it if as many
were counted as there are receivers. Nothing ties a count to a receiver: whether the object
is destroyed once, and only when nobody holds it any more, depends on the discipline of
everyone who counts.

A `Tally` is the object's counters, with the number of times it was destroyed. It is
`Balanced` with the number of receivers that still hold the object.

## Main results

- `Balanced.leaves`: holders that count themselves once and then release keep the balance.
- `Tally.balanced_iff_of_release`: the first release of an object that was not destroyed.
-/

namespace Evlite.Lib

/-- What is done to the counters of the object. -/
inductive Entry where
  | receiver
  | success
  | failure
  | release
  | destroy
deriving DecidableEq, Repr

/-- The counters of an object, and how often it was destroyed. -/
structure Tally where
  receivers : Nat := 0
  nsuccess : Nat := 0
  nfailure : Nat := 0
  destroyed : Nat := 0
deriving DecidableEq, Repr

namespace Tally

/-- The receivers that were counted. -/
def counted (t : Tally) : Nat := t.nsuccess + t.nfailure

/-- One entry. -/
def enter (t : Tally) : Entry → Tally
  | .receiver => { t with receivers := t.receivers + 1 }
  | .success => { t with nsuccess := t.nsuccess + 1 }
  | .failure => { t with nfailure := t.nfailure + 1 }
  | .release => if t.receivers = t.counted then { t with destroyed := t.destroyed + 1 } else t
  | .destroy => { t with destroyed := t.destroyed + 1 }

/-- A list of entries, one after the other. -/
def book (t : Tally) (es : List Entry) : Tally := es.foldl enter t

@[simp] theorem book_nil (t : Tally) : t.book [] = t := rfl

@[simp] theorem book_cons (t : Tally) (e : Entry) (es : List Entry) :
    t.book (e :: es) = (t.enter e).book es := rfl

theorem book_append (t : Tally) (es fs : List Entry) : t.book (es ++ fs) = (t.book es).book fs :=
  List.foldl_append

/-- Counting a receiver leaves everything else as it was. -/
theorem enter_counted (t : Tally) {e : Entry} (he : e = .success ∨ e = .failure) :
    (t.enter e).receivers = t.receivers ∧ (t.enter e).destroyed = t.destroyed ∧
      (t.enter e).counted = t.counted + 1 := by
  rcases he with rfl | rfl
  · exact ⟨rfl, rfl, Nat.add_right_comm t.nsuccess 1 t.nfailure⟩
  · exact ⟨rfl, rfl, rfl⟩

end Tally

/-- Every receiver either holds the object or was counted once, and the object was destroyed
once if nobody holds it, and not at all otherwise. -/
structure Balanced (t : Tally) (holders : Nat) : Prop where
  counted : t.counted + holders = t.receivers
  destroyed : t.destroyed = if holders = 0 then 1 else 0

namespace Balanced

variable {t : Tally} {n k : Nat}

/-- A holder counts itself and then releases the object. -/
theorem leave (h : Balanced t (n + 1)) {e : Entry} (he : e = .success ∨ e = .failure) :
    Balanced (t.book [e, .release]) n := by
  have hnone : t.destroyed = 0 := by simpa using h.destroyed
  obtain ⟨hreceivers, hdestroyed, hcount⟩ := t.enter_counted he
  have hcounted : (t.enter e).counted + n = (t.enter e).receivers := by
    have hall := h.counted
    omega
  have hkept : (t.enter e).destroyed = 0 := hdestroyed.trans hnone
  show Balanced ((t.enter e).enter .release) n
  generalize t.enter e = u at hcounted hkept
  unfold Tally.enter
  by_cases hlast : n = 0
  · -- the last one
    subst hlast
    rw [if_pos (by omega)]
    exact ⟨hcounted, by simp [hkept]⟩
  · rw [if_neg (by omega)]
    exact ⟨hcounted, by simp [hkept, hlast]⟩

/-- Several holders leave, one after the other. -/
theorem leaves (h : Balanced t (n + k)) {e : Entry} (he : e = .success ∨ e = .failure) :
    Balanced (t.book (List.replicate n [e, .release]).flatten) k := by
  induction n generalizing t with
  | zero => simpa using h
  | succ n ih =>
    have hfirst : Balanced (t.book [e, .release]) (n + k) := by
      apply leave _ he
      rwa [show n + k + 1 = n + 1 + k by omega]
    rw [List.replicate_succ, List.flatten_cons, Tally.book_append]
    exact ih hfirst

end Balanced

/-- The first release leaves the object balanced exactly if everyone who does not hold it
was counted once. -/
theorem Tally.balanced_iff_of_release {t : Tally} {holders : Nat} (h : t.destroyed = 0) :
    Balanced (t.book [.release]) holders ↔ t.counted + holders = t.receivers := by
  have hsame : (t.book [.release]).counted = t.counted ∧
      (t.book [.release]).receivers = t.receivers := by
    simp only [book_cons, book_nil, enter]
    split <;> exact ⟨rfl, rfl⟩
  constructor
  · intro hbalanced
    have hall := hbalanced.counted
    rwa [hsame.1, hsame.2] at hall
  · intro hall
    refine ⟨by rw [hsame.1, hsame.2, hall], ?_⟩
    simp only [book_cons, book_nil, enter]
    by_cases hlast : holders = 0
    · rw [if_pos (by omega), if_pos hlast, h]
    · rw [if_neg (by omega), if_neg hlast, h]

end Evlite.Lib
