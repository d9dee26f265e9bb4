import Evlite.Lib.Blocks
import Evlite.Lib.Ring
import Mathlib.Data.BitVec

/-!
# Generated Queues

The functions `QUEUE_GENERATE` produces for a queue of elements of type `α` (`queue.h`).
The elements sit in an array of `size` cells between the two 32-bit counters `head` and
`tail`, which run freely and are masked with `size - 1` to find a cell.

Whether an allocation succeeds is an input. Reading a cell outside the array, or of a queue
without one, yields `none`; writing one has no effect.

## Main results

- `WellFormed`: what `QUEUE_INIT` establishes and every other function keeps.
- `contents`: the list of elements a well-formed queue holds.
- `push_contents`, `pop_contents`, `get_eq`, `shrink_contents`: what each function does to
  this list. Growth does not change it (`grow_contents`).
-/

namespace Evlite

open Lib

/-! ## The functions of the source -/

/-- `QUEUE_HEAD`. `entries` is `none` for `NULL`. -/
structure Queue (α : Type) where
  size : BitVec 32
  entries : Option (List α)
  head : BitVec 32
  tail : BitVec 32
deriving Repr, DecidableEq

namespace Queue

variable {α : Type}

/-- The cell of the counter `c`: `c & (size - 1)`. -/
def index (q : Queue α) (c : BitVec 32) : Nat := (c &&& (q.size - 1)).toNat

/-- The array, empty for `NULL`. -/
def cells (q : Queue α) : List α := q.entries.getD []

/-- `QUEUE_COUNT` -/
def count (q : Queue α) : BitVec 32 := q.tail - q.head

/-- `QUEUE_INIT` -/
def init [Inhabited α] (size : BitVec 32) (alloc : Bool) : Queue α × Int :=
  let size := if size ≠ 0 then size else 8
  ({ size := size
     entries := if alloc then some (List.replicate size.toNat default) else none
     head := 0
     tail := 0 },
   if alloc then 0 else -1)

/-- `len` of `QUEUE_GROW`: how many elements lie before the end of the array. -/
def growLen (q : Queue α) : BitVec 32 :=
  let count := q.tail - q.head
  let len := q.size - (q.head &&& (q.size - 1))
  if len > count then count else len

/-- `QUEUE_GROW` -/
def grow [Inhabited α] (q : Queue α) (alloc : Bool) : Queue α × Int :=
  let newsize := q.size <<< 1
  let count := q.tail - q.head
  if !alloc then (q, -1)
  else
    let len := q.growLen
    let newentries := memcpy (List.replicate newsize.toNat default) 0
      ((q.cells.drop (q.index q.head)).take len.toNat)
    let newentries := memcpy newentries len.toNat (q.cells.take (count - len).toNat)
    ({ size := newsize, entries := some newentries, head := 0, tail := count }, 0)

/-- Store `data` in the cell of `tail` and count it. -/
def store (q : Queue α) (data : α) : Queue α :=
  { q with entries := q.entries.map fun es => es.set (q.index q.tail) data, tail := q.tail + 1 }

/-- `QUEUE_PUSH` -/
def push [Inhabited α] (q : Queue α) (data : α) (alloc : Bool) : Queue α × Int :=
  if q.size + q.head - q.tail ≤ 0 then
    let grown := q.grow alloc
    if grown.2 ≠ 0 then (grown.1, -1) else (grown.1.store data, 0)
  else (q.store data, 0)

/-- `QUEUE_POP`: the queue, the answer and the element read. -/
def pop (q : Queue α) : Queue α × Int × Option α :=
  let count := q.tail - q.head
  if count > 0 then ({ q with head := q.head + 1 }, 1, q.cells[q.index q.head]?)
  else (q, 0, none)

/-- `QUEUE_GET`: the answer and the element read. -/
def get (q : Queue α) (i : BitVec 32) : Int × Option α :=
  let count := q.tail - q.head
  if i < count then (0, q.cells[q.index (q.head + i)]?) else (-1, none)

/-- `QUEUE_TOP` -/
def top (q : Queue α) : Int × Option α := q.get 0

/-- `QUEUE_RESET` -/
def reset (q : Queue α) : Queue α := { q with head := 0, tail := 0 }

/-- `QUEUE_SHRINK`: the queue and the size it answers with. -/
def shrink (q : Queue α) (size : BitVec 32) (alloc : Bool) : Queue α × BitVec 32 :=
  if q.entries.isNone ∨ q.size ≤ size ∨ q.count ≠ 0 then (q, q.size)
  else if !alloc then (q, q.size)
  else
    ({ size := size
       entries := some (q.cells.take size.toNat)
       head := 0
       tail := 0 }, size)

/-- `QUEUE_SWAP`: the new values of `self` and `q`. -/
def swap (self q : Queue α) : Queue α × Queue α :=
  ({ head := q.head, tail := q.tail, size := q.size, entries := q.entries },
   { head := self.head, tail := self.tail, size := self.size, entries := self.entries })

/-! ## Well-formed queues -/

/-- The list of elements a queue holds. -/
def contents (q : Queue α) : List α := Ring.window q.cells q.head.toNat q.count.toNat

/-- What `QUEUE_INIT` establishes and every other function keeps: the array has `size`
cells, a power of two of them, and at most so many elements are counted. -/
structure WellFormed (q : Queue α) : Prop where
  allocated : q.entries = some q.cells
  length : q.cells.length = q.size.toNat
  pow : ∃ k, q.size.toNat = 2 ^ k
  small : q.size.toNat < 2 ^ 31
  count_le : q.count.toNat ≤ q.size.toNat

/-- A queue whose counters stand at the start is empty. -/
theorem count_start (size : BitVec 32) (entries : Option (List α)) :
    (Queue.mk size entries 0 0).count.toNat = 0 := by
  simp [count]

variable {q : Queue α}

/-- The size divides the number of values of a counter, so that a counter may wrap. -/
theorem WellFormed.dvd (hq : q.WellFormed) : q.size.toNat ∣ 2 ^ 32 := by
  obtain ⟨k, hk⟩ := hq.pow
  have hlt : 2 ^ k < 2 ^ 32 := hk ▸ q.size.isLt
  rw [hk]
  exact Nat.pow_dvd_pow 2 ((Nat.pow_lt_pow_iff_right (by omega)).mp hlt).le

theorem WellFormed.size_pos (hq : q.WellFormed) : 0 < q.size.toNat := by
  obtain ⟨k, hk⟩ := hq.pow
  rw [hk]
  exact Nat.two_pow_pos k

/-- Masking a counter is taking it modulo the size. -/
theorem WellFormed.index_eq (hq : q.WellFormed) (c : BitVec 32) :
    q.index c = c.toNat % q.size.toNat := by
  obtain ⟨k, hk⟩ := hq.pow
  have hmask : (q.size - 1).toNat = 2 ^ k - 1 := by
    have hpos := hq.size_pos
    rw [← hk]
    bv_omega
  rw [index, BitVec.toNat_and, hmask, Nat.and_two_pow_sub_one_eq_mod, hk]

/-- The cell `i` counts behind the counter `c`, whether or not the sum wraps. -/
theorem WellFormed.index_add (hq : q.WellFormed) (c i : BitVec 32) :
    q.index (c + i) = (c.toNat + i.toNat) % q.size.toNat := by
  rw [hq.index_eq, BitVec.toNat_add, Nat.mod_mod_of_dvd _ hq.dvd]

theorem WellFormed.index_tail (hq : q.WellFormed) :
    q.index q.tail = (q.head.toNat + q.count.toNat) % q.size.toNat := by
  have htail : q.tail = q.head + q.count := by
    rw [count]
    bv_omega
  rw [← hq.index_add, ← htail]

/-- The test of `QUEUE_PUSH` finds exactly the full queues. -/
theorem WellFormed.full_iff (hq : q.WellFormed) :
    q.size + q.head - q.tail ≤ 0 ↔ q.count.toNat = q.size.toNat := by
  have hle := hq.count_le
  have hsmall := hq.small
  simp only [count] at hle ⊢
  bv_omega

/-- `QUEUE_COUNT` is the number of elements. -/
theorem WellFormed.length_contents (hq : q.WellFormed) : q.contents.length = q.count.toNat :=
  Ring.length_window (by rw [hq.length]; exact hq.count_le)

/-! ## What the functions do to the contents -/

/-- Storing an element in a queue that is not full appends it. -/
theorem WellFormed.store (hq : q.WellFormed) (data : α)
    (hroom : q.count.toNat < q.size.toNat) :
    (q.store data).WellFormed ∧ (q.store data).contents = q.contents ++ [data] := by
  have hsmall := hq.small
  have hcells : (q.store data).cells = q.cells.set (q.index q.tail) data := by
    simp only [cells, Queue.store]
    rw [hq.allocated]
    rfl
  -- the counters are unsigned and may wrap, their difference does not
  have hcount : (q.store data).count.toNat = q.count.toNat + 1 := by
    have hsize : (q.tail - q.head).toNat < 2 ^ 31 := by
      simp only [count] at hroom
      omega
    simp only [count, Queue.store]
    bv_omega
  refine ⟨⟨?_, ?_, hq.pow, hsmall, ?_⟩, ?_⟩
  · rw [hcells]
    simp only [Queue.store]
    rw [hq.allocated]
    rfl
  · rw [hcells, List.length_set]
    exact hq.length
  · rw [hcount]
    exact hroom
  · rw [contents, hcells, hcount, hq.index_tail, ← hq.length]
    exact Ring.window_set data (by rw [hq.length]; exact hroom)

/-- The first piece of the elements ends at the end of the array or with the last element. -/
theorem WellFormed.growLen_toNat (hq : q.WellFormed) :
    q.growLen.toNat = min (q.size.toNat - q.index q.head) q.count.toNat := by
  have hlt : q.index q.head < q.size.toNat := by
    rw [hq.index_eq]
    exact Nat.mod_lt _ hq.size_pos
  have hmask : (q.size - (q.head &&& (q.size - 1))).toNat = q.size.toNat - q.index q.head := by
    rw [index] at hlt ⊢
    bv_omega
  have hle := hq.count_le
  simp only [growLen, count] at *
  split
  · bv_omega
  · bv_omega

section Init

variable [Inhabited α]

/-- The sizes `QUEUE_INIT` accepts: `0`, which stands for `8`, and the powers of two. -/
def InitialSize (size : BitVec 32) : Prop := size = 0 ∨ ∃ k, size.toNat = 2 ^ k

theorem init_size {size : BitVec 32} {alloc : Bool} (hne : size ≠ 0) :
    (init size alloc : Queue α × Int).1.size = size :=
  if_pos hne

theorem init_wellFormed {size : BitVec 32} (hsize : InitialSize size)
    (hsmall : size.toNat < 2 ^ 31) :
    (init size true : Queue α × Int).1.WellFormed ∧
      (init size true : Queue α × Int).1.contents = [] := by
  have hcount : (init size true : Queue α × Int).1.count.toNat = 0 := count_start _ _
  have hempty : (init size true : Queue α × Int).1.contents = [] := by
    rw [contents, hcount, Ring.window_zero]
  refine ⟨⟨rfl, List.length_replicate, ?_, ?_, by omega⟩, hempty⟩
  · by_cases hne : size = 0
    · subst hne
      exact ⟨3, rfl⟩
    · rw [init_size hne]
      exact hsize.resolve_left hne
  · by_cases hne : size = 0
    · subst hne
      exact Nat.lt_of_sub_ne_zero (by decide : 2 ^ 31 - 8 ≠ 0)
    · rw [init_size hne]
      exact hsmall

/-- Growing doubles the array and lays the elements out from its beginning. -/
theorem WellFormed.grow (hq : q.WellFormed) (hsmall : q.size.toNat * 2 < 2 ^ 31) :
    (q.grow true).1.WellFormed ∧ (q.grow true).1.contents = q.contents ∧
      (q.grow true).1.size.toNat = q.size.toNat * 2 ∧ (q.grow true).1.count = q.count := by
  have hsize : (q.grow true).1.size.toNat = q.size.toNat * 2 := by
    change (q.size <<< 1).toNat = _
    rw [BitVec.toNat_shiftLeft, Nat.shiftLeft_eq]
    omega
  have hle := hq.count_le
  have hlt : q.index q.head < q.cells.length := by
    rw [hq.index_eq, hq.length]
    exact Nat.mod_lt _ hq.size_pos
  have hlen := hq.growLen_toNat
  have hrest : (q.count - q.growLen).toNat = q.count.toNat - q.growLen.toNat := by
    bv_omega
  let fst := (q.cells.drop (q.index q.head)).take q.growLen.toNat
  let snd := q.cells.take (q.count - q.growLen).toNat
  have hfst : fst.length = q.growLen.toNat := by
    rw [List.length_take, List.length_drop, hq.length]
    omega
  have hsnd : snd.length = q.count.toNat - q.growLen.toNat := by
    rw [List.length_take, hq.length]
    omega
  -- the two pieces that are copied make up the window
  have hwindow : q.contents = fst ++ snd := by
    rw [contents, ← Ring.window_mod, hq.length, ← hq.index_eq,
      Ring.window_eq_append hlt (by rw [hq.length]; exact hle), hq.length, ← hlen, ← hrest]
  have hblock : (List.replicate (q.size <<< 1).toNat (default : α)).length = q.size.toNat * 2 := by
    rw [List.length_replicate]
    exact hsize
  have hcells : (q.grow true).1.cells =
      memcpy (memcpy (List.replicate (q.size <<< 1).toNat default) 0 fst) fst.length snd := by
    rw [hfst]
    rfl
  have hcount : (q.grow true).1.count = q.count := by
    change q.tail - q.head - 0 = q.tail - q.head
    bv_omega
  have hlength : (q.grow true).1.cells.length = q.size.toNat * 2 := by
    rw [hcells, length_memcpy (by rw [length_memcpy (by omega)]; omega),
      length_memcpy (by omega), hblock]
  have htake : (q.grow true).1.cells.take q.count.toNat = fst ++ snd := by
    rw [hcells, show q.count.toNat = fst.length + snd.length by omega]
    exact take_memcpy_memcpy fst snd (by omega)
  refine ⟨⟨rfl, hlength.trans hsize.symm, ?_, hsize.trans_lt hsmall, ?_⟩, ?_, hsize, hcount⟩
  · obtain ⟨k, hk⟩ := hq.pow
    exact ⟨k + 1, by rw [pow_succ, ← hk]; exact hsize⟩
  · rw [hcount]
    omega
  · rw [contents, hcount, show (q.grow true).1.head.toNat = 0 from rfl, Ring.window_origin, htake,
      hwindow]

/-- `QUEUE_PUSH` appends, growing when the queue is full. -/
theorem WellFormed.push (hq : q.WellFormed) (data : α)
    (hgrow : q.count.toNat = q.size.toNat → q.size.toNat * 2 < 2 ^ 31) :
    (q.push data true).1.WellFormed ∧ (q.push data true).1.contents = q.contents ++ [data] ∧
      (q.push data true).2 = 0 := by
  have hpos := hq.size_pos
  unfold Queue.push
  split
  · rename_i hfull
    rw [hq.full_iff] at hfull
    obtain ⟨hwf, hcontents, hsize, hcount⟩ := hq.grow (hgrow hfull)
    have hstore := hwf.store data (by rw [hsize, hcount]; omega)
    rw [hcontents] at hstore
    exact ⟨hstore.1, hstore.2, rfl⟩
  · rename_i hroom
    rw [hq.full_iff] at hroom
    have hle := hq.count_le
    have hstore := hq.store data (by omega)
    exact ⟨hstore.1, hstore.2, rfl⟩

end Init

/-- Counting `head` on drops the first element, which is the one in the cell of `head`. -/
theorem WellFormed.advance (hq : q.WellFormed) (hsome : 0 < q.count.toNat) :
    ({ q with head := q.head + 1 } : Queue α).WellFormed ∧
      ∃ x, q.cells[q.index q.head]? = some x ∧
        q.contents = x :: ({ q with head := q.head + 1 } : Queue α).contents := by
  have hsmall := hq.small
  have hle := hq.count_le
  have hcount : ({ q with head := q.head + 1 } : Queue α).count.toNat + 1 = q.count.toNat := by
    simp only [count] at hle hsome ⊢
    bv_omega
  have hlt : q.head.toNat % q.cells.length < q.cells.length :=
    Nat.mod_lt _ (by rw [hq.length]; exact hq.size_pos)
  have hfst := List.getElem?_eq_getElem hlt
  have hle' : ({ q with head := q.head + 1 } : Queue α).count.toNat ≤ q.size.toNat := by omega
  refine ⟨⟨hq.allocated, hq.length, hq.pow, hsmall, hle'⟩,
    q.cells[q.head.toNat % q.cells.length], ?_, ?_⟩
  · rw [hq.index_eq, ← hq.length]
    exact hfst
  · -- the counter may wrap, which its cell does not notice
    have hwrap : (q.head + 1).toNat % q.cells.length = (q.head.toNat + 1) % q.cells.length := by
      rw [hq.length, BitVec.toNat_add, Nat.mod_mod_of_dvd _ hq.dvd]
      rfl
    rw [contents, ← hcount, Ring.window_eq_cons hfst (by rw [hq.length]; omega), contents,
      ← Ring.window_mod _ (q.head + 1).toNat, ← Ring.window_mod _ (q.head.toNat + 1), ← hwrap]
    rfl

/-- `QUEUE_POP` takes the first element. -/
theorem WellFormed.pop (hq : q.WellFormed) :
    q.pop.1.WellFormed ∧ q.pop.1.contents = q.contents.tail ∧
      q.pop.2 = if q.contents = [] then (0, none) else (1, q.contents.head?) := by
  unfold Queue.pop
  simp only
  split
  · rename_i hcount
    have hsome : 0 < q.count.toNat := by
      simp only [count]
      bv_omega
    obtain ⟨hwf, x, hx, hcons⟩ := hq.advance hsome
    refine ⟨hwf, ?_, ?_⟩
    · rw [hcons, List.tail_cons]
    · rw [hcons, hx, if_neg (List.cons_ne_nil _ _), List.head?_cons]
  · rename_i hcount
    have hnone : q.contents = [] := by
      apply List.eq_nil_of_length_eq_zero
      rw [hq.length_contents, count]
      bv_omega
    refine ⟨hq, ?_, ?_⟩
    · rw [hnone, List.tail_nil]
    · rw [if_pos hnone]

/-- `QUEUE_GET` reads the element at the given place, if there is one. -/
theorem WellFormed.get_eq (hq : q.WellFormed) (i : BitVec 32) :
    q.get i = if i.toNat < q.contents.length then (0, q.contents[i.toNat]?) else (-1, none) := by
  rw [hq.length_contents, Queue.get]
  split
  · rename_i hlt
    have hlt : i.toNat < q.count.toNat := by
      simp only [count]
      bv_omega
    rw [if_pos hlt, contents, Ring.getElem?_window hlt (by rw [hq.length]; exact hq.count_le),
      hq.index_add, hq.length]
  · rename_i hge
    have hge : ¬i.toNat < q.count.toNat := by
      simp only [count]
      bv_omega
    rw [if_neg hge]

/-- `QUEUE_RESET` drops every element. -/
theorem WellFormed.reset (hq : q.WellFormed) : q.reset.WellFormed ∧ q.reset.contents = [] := by
  have hcount : q.reset.count.toNat = 0 := count_start _ _
  refine ⟨⟨hq.allocated, hq.length, hq.pow, hq.small, by omega⟩, ?_⟩
  rw [contents, hcount, Ring.window_zero]

/-- `QUEUE_SHRINK` changes only queues that are empty. -/
theorem WellFormed.shrink (hq : q.WellFormed) {size : BitVec 32} (hsize : ∃ k, size.toNat = 2 ^ k)
    (alloc : Bool) :
    (q.shrink size alloc).1.WellFormed ∧ (q.shrink size alloc).1.contents = q.contents := by
  unfold Queue.shrink
  split
  · exact ⟨hq, rfl⟩
  · rename_i hskip
    obtain ⟨-, hlt, hcount⟩ := not_or.mp hskip |>.imp_right not_or.mp
    have hlt : size.toNat < q.size.toNat := by bv_omega
    have hempty : q.count.toNat = 0 := by
      rw [not_not.mp hcount]
      rfl
    split
    · exact ⟨hq, rfl⟩
    · refine ⟨⟨rfl, ?_, hsize, hlt.trans hq.small, ?_⟩, ?_⟩
      · change (q.cells.take size.toNat).length = _
        rw [List.length_take, hq.length, Nat.min_eq_left hlt.le]
      · exact (count_start _ _).trans_le (Nat.zero_le _)
      · rw [contents, contents, hempty, Ring.window_zero]
        exact (congrArg _ (count_start _ _)).trans (Ring.window_zero _ _)

end Queue

end Evlite
