import Mathlib.Data.List.Basic

/-!
# A Byte Stream Held as a Queue of Chunks

A sender keeps what it still has to write as a first-in first-out queue of chunks together
with one offset into the first chunk. `pending` is the stream this represents. The
operations are those of a gathered write:

- `gather` collects the first few nonempty remainders into a vector,
- `advance` drops what a write of `k` elements covered, chunk by chunk.

Chunks are values of any type `β` with contents `f : β → List α`, so that a chunk can carry
more than its contents.

## Main results

- `gather_isPrefix`: a gathered vector is a prefix of the pending stream.
- `advance_pending`: advancing by `k` drops exactly the first `k` elements of the stream,
  and the new offset is `Aligned`.
- `pending_append`: appending a chunk appends its contents to the stream.
-/

namespace Evlite.Lib.ChunkQueue

variable {α β : Type*} (f : β → List α)

/-! ## The represented stream -/

/-- The elements that are still to be written. -/
def pending (off : Nat) (q : List β) : List α := ((q.map f).flatten).drop off

/-- The offset points into the first chunk, and is `0` when there is none. -/
def Aligned (off : Nat) : List β → Prop
  | [] => off = 0
  | c :: _ => off = 0 ∨ off < (f c).length

/-- Collect the remainders of at most `slots` chunks, passing over the first `off`
elements and over chunks that have nothing left. -/
def gather : Nat → Nat → List β → List (List α)
  | _, _, [] => []
  | 0, _, _ :: _ => []
  | slots + 1, off, c :: q =>
    if (f c).length ≤ off then gather (slots + 1) (off - (f c).length) q
    else (f c).drop off :: gather slots 0 q

/-- Drop the chunks that the first `k` elements cover completely: the dropped chunks, the
offset into the first remaining one, and the remaining ones. -/
def advance : Nat → List β → List β × Nat × List β
  | k, [] => ([], k, [])
  | k, c :: q =>
    if k < (f c).length then ([], k, c :: q)
    else
      let r := advance (k - (f c).length) q
      (c :: r.1, r.2)

/-! ## Lemmas -/

variable {f}

theorem Aligned.le_length {off : Nat} {q : List β} (h : Aligned f off q) :
    off ≤ (q.map f).flatten.length := by
  cases q with
  | nil => simpa [Aligned] using Nat.le_of_eq h
  | cons c q =>
    simp only [List.map_cons, List.flatten_cons, List.length_append]
    rcases h with h | h <;> omega

theorem Aligned.append {off : Nat} {q : List β} (h : Aligned f off q) (q' : List β) :
    Aligned f off (q ++ q') := by
  cases q with
  | nil =>
    obtain rfl : off = 0 := h
    cases q' with
    | nil => rfl
    | cons c q' => exact Or.inl rfl
  | cons c q => exact h

@[simp] theorem pending_nil (off : Nat) : pending f off [] = [] := by simp [pending]

/-- Appending chunks appends their contents. -/
theorem pending_append {off : Nat} {q : List β} (h : Aligned f off q) (q' : List β) :
    pending f off (q ++ q') = pending f off q ++ (q'.map f).flatten := by
  simp only [pending, List.map_append, List.flatten_append]
  exact List.drop_append_of_le_length h.le_length

/-- A gathered vector is a prefix of the pending stream. -/
theorem gather_isPrefix (slots off : Nat) (q : List β) :
    (gather f slots off q).flatten <+: pending f off q := by
  induction q generalizing slots off with
  | nil => simp [gather]
  | cons c q ih =>
    cases slots with
    | zero => simp [gather]
    | succ slots =>
      simp only [gather, pending, List.map_cons, List.flatten_cons]
      split
      · rename_i hle
        -- the chunk is covered by the offset
        rw [List.drop_append, List.drop_eq_nil_of_le hle, List.nil_append]
        exact ih _ _
      · rename_i hlt
        have hle : off ≤ (f c).length := by omega
        rw [List.drop_append_of_le_length hle, List.flatten_cons]
        simpa [pending] using ih slots 0

/-- With a slot to fill, a vector is gathered if anything is pending. -/
theorem gather_ne_nil {slots off : Nat} {q : List β} (hslots : 0 < slots) (h : pending f off q ≠ []) :
    (gather f slots off q).flatten ≠ [] := by
  induction q generalizing slots off with
  | nil => exact absurd (pending_nil off) h
  | cons c q ih =>
    obtain ⟨slots, rfl⟩ : ∃ n, slots = n + 1 := ⟨slots - 1, by omega⟩
    simp only [gather, pending, List.map_cons, List.flatten_cons] at h ⊢
    split
    · rename_i hle
      apply ih (Nat.succ_pos slots)
      rwa [List.drop_append, List.drop_eq_nil_of_le hle, List.nil_append] at h
    · rename_i hlt
      intro hnone
      have hhead := (List.append_eq_nil_iff.mp (List.flatten_cons ▸ hnone)).1
      have hlength := congrArg List.length hhead
      rw [List.length_drop, List.length_nil] at hlength
      omega

/-- A gathered vector covers what is left of the first chunk. -/
theorem gather_covers_head {slots off : Nat} (c : β) (q : List β) (hslots : 0 < slots) :
    (f c).length ≤ off + (gather f slots off (c :: q)).flatten.length := by
  obtain ⟨slots, rfl⟩ : ∃ n, slots = n + 1 := ⟨slots - 1, by omega⟩
  simp only [gather]
  split
  · omega
  · rw [List.flatten_cons, List.length_append, List.length_drop]
    omega

/-- Advancing splits the queue: the dropped chunks come first. -/
theorem advance_append (k : Nat) (q : List β) :
    (advance f k q).1 ++ (advance f k q).2.2 = q := by
  induction q generalizing k with
  | nil => rfl
  | cons c q ih =>
    simp only [advance]
    split
    · rfl
    · simpa using ih _

/-- A chunk that is covered is dropped. -/
theorem advance_shorter {k : Nat} {c : β} {q : List β} (h : (f c).length ≤ k) :
    (advance f k (c :: q)).2.2.length < (c :: q).length := by
  have hsplit := congrArg List.length (advance_append (f := f) (k - (f c).length) q)
  rw [List.length_append] at hsplit
  unfold advance
  rw [if_neg (by omega), List.length_cons]
  dsimp only
  omega

/-- Advancing ends at a chunk of which something is left. -/
theorem advance_stops (k : Nat) (q : List β) :
    (advance f k q).2.2 = [] ∨ pending f (advance f k q).2.1 (advance f k q).2.2 ≠ [] := by
  induction q generalizing k with
  | nil => exact .inl rfl
  | cons c q ih =>
    simp only [advance]
    split
    · rename_i hlt
      right
      intro hnone
      have hlength := congrArg List.length hnone
      simp only [pending, List.map_cons, List.flatten_cons, List.length_drop, List.length_append,
        List.length_nil] at hlength
      omega
    · exact ih _

/-- Advancing by `k` drops exactly the first `k` elements of the stream. -/
theorem advance_pending (k : Nat) (q : List β) (hk : k ≤ (q.map f).flatten.length) :
    pending f (advance f k q).2.1 (advance f k q).2.2 = ((q.map f).flatten).drop k ∧
      Aligned f (advance f k q).2.1 (advance f k q).2.2 := by
  induction q generalizing k with
  | nil =>
    obtain rfl : k = 0 := by simpa using hk
    exact ⟨rfl, rfl⟩
  | cons c q ih =>
    simp only [List.map_cons, List.flatten_cons, List.length_append] at hk ⊢
    simp only [advance]
    split
    · rename_i hlt
      exact ⟨by simp [pending], Or.inr hlt⟩
    · rename_i hge
      obtain ⟨hp, ha⟩ := ih (k - (f c).length) (by omega)
      refine ⟨?_, ha⟩
      rw [List.drop_append, List.drop_eq_nil_of_le (by omega), List.nil_append]
      exact hp

end Evlite.Lib.ChunkQueue
