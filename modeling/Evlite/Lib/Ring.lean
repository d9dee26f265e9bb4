import Mathlib.Data.List.Rotate
import Mathlib.Data.Nat.ModEq

/-!
# Rings of Cells

A queue kept in a fixed array of cells reads them in a circle: its `c` elements are the
cells from position `h` on, where positions count on without bound and are taken modulo
the number of cells.

## Main results

- `window_set`: writing the cell behind the window makes the window one longer.
- `window_eq_cons`: the first cell of a window and the window behind it.
- `window_eq_append`: a window as the two straight pieces of the array it covers.
- `getElem?_window`: the cells of a window.
-/

namespace Evlite.Lib.Ring

variable {α : Type*} {cells : List α} {h c : Nat}

/-- The `c` cells from position `h` on. -/
def window (cells : List α) (h c : Nat) : List α := (cells.rotate h).take c

@[simp] theorem window_zero (cells : List α) (h : Nat) : window cells h 0 = [] := by
  simp [window]

/-- Positions count modulo the number of cells. -/
theorem window_mod (cells : List α) (h c : Nat) :
    window cells (h % cells.length) c = window cells h c := by
  rw [window, window, List.rotate_mod]

theorem length_window (hc : c ≤ cells.length) : (window cells h c).length = c := by
  rw [window, List.length_take, List.length_rotate, Nat.min_eq_left hc]

theorem getElem?_window {i : Nat} (hi : i < c) (hc : c ≤ cells.length) :
    (window cells h c)[i]? = cells[(h + i) % cells.length]? := by
  rw [window, List.getElem?_take_of_lt hi, List.getElem?_rotate (by omega), Nat.add_comm]

/-- Writing the cell behind the window makes the window one longer. -/
theorem window_set (x : α) (hc : c < cells.length) :
    window (cells.set ((h + c) % cells.length) x) h (c + 1) = window cells h c ++ [x] := by
  apply List.ext_getElem?
  intro i
  have hlen : (cells.set ((h + c) % cells.length) x).length = cells.length := List.length_set ..
  have hlast : (h + c) % cells.length < cells.length := Nat.mod_lt _ (by omega)
  rcases Nat.lt_trichotomy i c with hi | rfl | hi
  · -- an old cell: its position differs from the written one, as the window is not full
    rw [getElem?_window (by omega) (by omega), hlen, List.getElem?_append_left
      (by rw [length_window hc.le]; exact hi), getElem?_window hi hc.le]
    refine List.getElem?_set_ne fun heq => ?_
    have hmod : c ≡ i [MOD cells.length] := Nat.ModEq.add_left_cancel' h heq
    unfold Nat.ModEq at hmod
    rw [Nat.mod_eq_of_lt hc, Nat.mod_eq_of_lt (by omega)] at hmod
    omega
  · rw [getElem?_window (by omega) (by omega), hlen, List.getElem?_append_right
      (by rw [length_window hc.le]), length_window hc.le, List.getElem?_set_self hlast]
    simp
  · rw [List.getElem?_eq_none (by rw [length_window (by omega)]; omega),
      List.getElem?_eq_none (by rw [List.length_append, length_window hc.le]; exact hi)]

/-- The first cell of a window and the window behind it. -/
theorem window_eq_cons {x : α} (hx : cells[h % cells.length]? = some x)
    (hc : c + 1 ≤ cells.length) : window cells h (c + 1) = x :: window cells (h + 1) c := by
  apply List.ext_getElem?
  intro i
  cases i with
  | zero => rw [getElem?_window (by omega) hc, Nat.add_zero, hx, List.getElem?_cons_zero]
  | succ i =>
    rw [List.getElem?_cons_succ]
    rcases Nat.lt_or_ge i c with hi | hi
    · rw [getElem?_window (by omega) hc, getElem?_window hi (by omega),
        show h + (i + 1) = h + 1 + i by omega]
    · rw [List.getElem?_eq_none (by rw [length_window hc]; omega),
        List.getElem?_eq_none (by rw [length_window (by omega)]; exact hi)]

/-- A window as the two straight pieces of the array it covers: up to the end of the array,
and the rest from its beginning. -/
theorem window_eq_append (hh : h < cells.length) (hc : c ≤ cells.length) :
    window cells h c =
      (cells.drop h).take (min (cells.length - h) c) ++
        cells.take (c - min (cells.length - h) c) := by
  rw [window, List.rotate_eq_drop_append_take hh.le, List.take_append, List.length_drop,
    List.take_take]
  congr 1
  · rcases Nat.le_total c (cells.length - h) with hle | hle
    · rw [Nat.min_eq_right hle]
    · rw [Nat.min_eq_left hle, List.take_of_length_le (by rw [List.length_drop]; exact hle),
        List.take_of_length_le (by rw [List.length_drop])]
  · congr 1
    omega

/-- A window that starts at the first cell. -/
theorem window_origin (cells : List α) (c : Nat) : window cells 0 c = cells.take c := by
  rw [window, List.rotate_zero]

end Evlite.Lib.Ring
