import Mathlib.Data.List.Basic

/-!
# Blocks of Memory

A block of memory is the list of its cells. `memcpy dst pos src` copies `src` over the cells
of `dst` from position `pos` on.

## Main results

- `length_memcpy`: copying inside a block keeps its length.
- `take_memcpy`: a copy behind a prefix extends the prefix.
- `take_memcpy_memcpy`: two copies one behind the other.
- `take_drop_memcpy`: a copy behind a piece of a block extends the piece.
-/

namespace Evlite.Lib

variable {α : Type*} {dst src : List α} {pos : Nat}

/-- `memcpy` of `src` to position `pos` of `dst`. -/
def memcpy (dst : List α) (pos : Nat) (src : List α) : List α :=
  dst.take pos ++ src ++ dst.drop (pos + src.length)

/-- Copying inside a block keeps its length. -/
theorem length_memcpy (h : pos + src.length ≤ dst.length) :
    (memcpy dst pos src).length = dst.length := by
  simp only [memcpy, List.length_append, List.length_take, List.length_drop]
  omega

/-- A copy behind a prefix extends the prefix. -/
theorem take_memcpy (h : pos ≤ dst.length) :
    (memcpy dst pos src).take (pos + src.length) = dst.take pos ++ src := by
  rw [memcpy, List.take_left' (by rw [List.length_append, List.length_take, Nat.min_eq_left h])]

/-- Two pieces copied one behind the other to the beginning of a block. -/
theorem take_memcpy_memcpy (fst snd : List α) (h : fst.length + snd.length ≤ dst.length) :
    (memcpy (memcpy dst 0 fst) fst.length snd).take (fst.length + snd.length) = fst ++ snd := by
  have hfst : (memcpy dst 0 fst).length = dst.length := length_memcpy (by omega)
  have htake : (memcpy dst 0 fst).take fst.length = fst := by
    simpa using take_memcpy (Nat.zero_le dst.length)
  rw [take_memcpy (by omega), htake]

/-- A copy behind a piece of a block extends the piece. -/
theorem take_drop_memcpy {off len : Nat} (h : off + len + src.length ≤ dst.length) :
    ((memcpy dst (off + len) src).drop off).take (len + src.length) =
      (dst.drop off).take len ++ src := by
  have hpiece : (memcpy dst (off + len) src).drop off = memcpy (dst.drop off) len src := by
    rw [memcpy, memcpy, List.append_assoc, List.drop_append_of_le_length (by
      rw [List.length_take]; omega), List.drop_take, List.drop_drop, Nat.add_sub_cancel_left,
      List.append_assoc, Nat.add_assoc]
  rw [hpiece, take_memcpy (by rw [List.length_drop]; omega)]

end Evlite.Lib
