import Mathlib.Data.List.Nodup
import Mathlib.Logic.Function.Basic

/-!
# Chains of Links

Cells that name the next cell, up to an end marker. `Chain next stop a l` says that following
`next` from `a` passes the cells of `l` and ends at `stop`.

## Main results

- `Chain.congr`: only the links of the passed cells matter.
- `Chain.push`, `Chain.unlink`: a new first cell, and a cell that is linked around.
- `Chain.follow_eq`: following the links finds the cells.
- `chain_range'`: cells that each name their successor.
-/

namespace Evlite.Lib

variable {α : Type*} {next next' : α → α} {stop a b : α} {l : List α}

/-- Following `next` from a cell passes the cells of a list and ends at `stop`. -/
inductive Chain (next : α → α) (stop : α) : α → List α → Prop where
  | nil : Chain next stop stop []
  | cons {a : α} {l : List α} (hne : a ≠ stop) (hrest : Chain next stop (next a) l) :
      Chain next stop a (a :: l)

/-- Only the links of the passed cells matter. -/
theorem Chain.congr (h : Chain next stop a l) (heq : ∀ b ∈ l, next' b = next b) :
    Chain next' stop a l := by
  induction h with
  | nil => exact .nil
  | cons hne _ ih =>
    refine .cons hne ?_
    rw [heq _ List.mem_cons_self]
    exact ih fun b hb => heq b (List.mem_cons_of_mem _ hb)

/-- A chain that starts at the end marker passes no cell. -/
theorem Chain.eq_nil (h : Chain next stop stop l) : l = [] := by
  cases h with
  | nil => rfl
  | cons hne => exact absurd rfl hne

/-- A chain that does not start at the end marker passes its first cell. -/
theorem Chain.exists_cons (h : Chain next stop a l) (hne : a ≠ stop) :
    ∃ rest, l = a :: rest ∧ Chain next stop (next a) rest := by
  cases h with
  | nil => exact absurd rfl hne
  | cons _ hrest => exact ⟨_, rfl, hrest⟩

/-- A new first cell in front of a chain. -/
theorem Chain.push (h : Chain next stop a l) (hne : b ≠ stop) (hb : b ∉ l)
    (hlink : next' b = a) (heq : ∀ c, c ≠ b → next' c = next c) :
    Chain next' stop b (b :: l) := by
  refine .cons hne ?_
  rw [hlink]
  refine h.congr fun c hc => heq c ?_
  rintro rfl
  exact hb hc

/-- The end marker is no cell. -/
theorem Chain.ne_stop (h : Chain next stop a l) : ∀ b ∈ l, b ≠ stop := by
  induction h with
  | nil => exact fun _ hb => absurd hb List.not_mem_nil
  | cons hne _ ih =>
    intro b hb
    rcases List.mem_cons.mp hb with rfl | hb
    · exact hne
    · exact ih b hb

/-- The rest of a chain, from one of its cells on. -/
theorem Chain.drop {done : List α} (h : Chain next stop a (done ++ b :: l)) :
    Chain next stop (next b) l := by
  induction done generalizing a with
  | nil =>
    cases h with
    | cons _ hrest => exact hrest
  | cons d done ih =>
    cases h with
    | cons _ hrest => exact ih hrest

/-- A cell leaves the chain when the one before it names the one behind it. -/
theorem Chain.unlink [DecidableEq α] {done : List α} {c : α}
    (h : Chain next stop a (done ++ c :: b :: l)) (hnodup : (done ++ c :: b :: l).Nodup) :
    Chain (Function.update next c (next b)) stop a (done ++ c :: l) := by
  induction done generalizing a with
  | nil =>
    cases h with
    | cons hne hrest =>
      refine .cons hne ?_
      rw [Function.update_self]
      have hc : c ∉ b :: l := (List.nodup_cons.mp hnodup).1
      have hrest' : Chain next stop (next b) l := by
        cases hrest with
        | cons _ hrest => exact hrest
      refine hrest'.congr fun d hd => Function.update_of_ne ?_ _ _
      rintro rfl
      exact hc (List.mem_cons_of_mem _ hd)
  | cons d done ih =>
    cases h with
    | cons hne hrest =>
      obtain ⟨hd, hnodup⟩ := List.nodup_cons.mp hnodup
      refine .cons hne ?_
      rw [Function.update_of_ne]
      · exact ih hrest hnodup
      · rintro rfl
        exact hd (List.mem_append_right _ List.mem_cons_self)

/-- The cells passed by following the links, at most so many. -/
def follow [DecidableEq α] (next : α → α) (stop : α) : Nat → α → List α
  | 0, _ => []
  | fuel + 1, a => if a = stop then [] else a :: follow next stop fuel (next a)

/-- Following the links of a chain finds its cells. -/
theorem Chain.follow_eq [DecidableEq α] (h : Chain next stop a l) {fuel : Nat}
    (hfuel : l.length ≤ fuel) : follow next stop fuel a = l := by
  induction h generalizing fuel with
  | nil =>
    cases fuel with
    | zero => rfl
    | succ fuel => exact if_pos rfl
  | cons hne _ ih =>
    cases fuel with
    | zero => cases hfuel
    | succ fuel => rw [follow, if_neg hne, ih (Nat.le_of_succ_le_succ hfuel)]

/-- Cells from `lo` on that each name their successor, the last one the end marker. -/
theorem chain_range' {next : Nat → Nat} {stop : Nat} (lo n : Nat) (hn : 0 < n)
    (hlink : ∀ i, lo ≤ i → i + 1 < lo + n → next i = i + 1) (hlast : next (lo + n - 1) = stop)
    (hstop : lo + n ≤ stop) : Chain next stop lo (List.range' lo n) := by
  induction n generalizing lo with
  | zero => omega
  | succ n ih =>
    rw [List.range'_succ]
    refine .cons (by omega) ?_
    cases n with
    | zero =>
      rw [show next lo = stop from hlast]
      exact .nil
    | succ n =>
      rw [hlink lo (Nat.le_refl lo) (by omega)]
      refine ih (lo + 1) (by omega) (fun i hi hi' => hlink i (by omega) (by omega)) ?_ (by omega)
      rw [← hlast]
      congr 1
      omega

end Evlite.Lib
