import Evlite.Lib.Blocks

/-!
# Receive Buffers

`struct buffer` (`message.c`): a block of memory of which a piece in the middle is valid.
Erasing moves the piece's beginning, appending moves its end, and when the block gets too
short the piece slides to the front or the block is replaced by one of twice its size.

Sizes are natural numbers: as long as they stay below `2 ^ 62` the arithmetic of `size_t` and
`ssize_t` does not wrap. Whether `realloc` succeeds and what the kernel delivers are inputs.

## Main results

- `WellFormed`: the piece lies in the block.
- `contents`: the valid data.
- `expand_spec`, `append_spec`, `erase_spec`, `take_spec`, `readv_spec`, `receive_spec`: what
  each function does to the data.
-/

namespace Evlite

open Lib

/-! ## The functions of the source -/

/-- `MIN_BUFFER_LENGTH` -/
def minBufferLength : Nat := 128

/-- `MAX_BUFFER_LENGTH` -/
def maxBufferLength : Nat := 65536

/-- `struct buffer`. The pointer `buffer` is `offset` cells into the block `orignbuffer`,
which is empty for `NULL`. -/
structure Buffer (β : Type) where
  length : Nat := 0
  capacity : Nat := 0
  offset : Nat := 0
  orignbuffer : List β := []
deriving DecidableEq, Repr

namespace Buffer

variable {β : Type}

/-- The valid data. -/
def contents (b : Buffer β) : List β := (b.orignbuffer.drop b.offset).take b.length

/-- `_align` -/
def align (b : Buffer β) : Buffer β :=
  { b with orignbuffer := memcpy b.orignbuffer 0 b.contents, offset := 0 }

/-- `_left` -/
def left (b : Buffer β) : Nat := b.capacity - b.offset - b.length

/-- The loop of `_expand` that doubles the capacity, for at most `fuel` rounds. -/
def doubled : Nat → Nat → Nat → Nat
  | 0, newcapacity, _ => newcapacity
  | fuel + 1, newcapacity, needlength =>
    if newcapacity < needlength then doubled fuel (newcapacity * 2) needlength else newcapacity

/-- `_expand` -/
def expand [Inhabited β] (b : Buffer β) (length : Nat) (alloc : Bool) : Buffer β × Int :=
  let needlength := b.offset + b.length + length
  if needlength ≤ b.capacity then (b, 0)
  else if b.capacity - b.length ≥ length then (b.align, 0)
  else
    let newcapacity := if b.capacity < minBufferLength then minBufferLength else b.capacity
    let newcapacity := doubled needlength newcapacity needlength
    let b := if b.offset ≠ 0 then b.align else b
    if !alloc then (b, -1)
    else
      -- `realloc` keeps the old cells
      ({ b with
          capacity := newcapacity
          offset := 0
          orignbuffer := b.orignbuffer ++ List.replicate (newcapacity - b.capacity) default }, 0)

/-- `buffer_erase` -/
def erase (b : Buffer β) (length : Nat) : Buffer β :=
  if b.length ≤ length then { b with length := 0, offset := 0 }
  else { b with offset := b.offset + length, length := b.length - length }

/-- `data` is written behind the valid data and counted. -/
def fill (b : Buffer β) (data : List β) : Buffer β :=
  { b with
    orignbuffer := memcpy b.orignbuffer (b.offset + b.length) data
    length := b.length + data.length }

/-- `buffer_append` -/
def append [Inhabited β] (b : Buffer β) (buf : List β) (alloc : Bool) : Buffer β × Int :=
  let needlength := b.offset + b.length + buf.length
  if needlength > b.capacity then
    let r := b.expand buf.length alloc
    if r.2 = -1 then (r.1, -1) else (r.1.fill buf, 0)
  else (b.fill buf, 0)

/-- `buffer_append2` -/
def append2 [Inhabited β] (b buffer : Buffer β) (alloc : Bool) : Buffer β × Int :=
  b.append buffer.contents alloc

/-- `buffer_take`: the buffer and the bytes taken. -/
def take (b : Buffer β) (length : Nat) : Buffer β × List β :=
  let length := if length > b.length then b.length else length
  (b.erase length, (b.orignbuffer.drop b.offset).take length)

/-- `buffer_reserve` -/
def reserve [Inhabited β] (b : Buffer β) (length : Nat) (alloc : Bool) : Buffer β × Int :=
  b.expand length alloc

/-- `buffer_swap` -/
def swap (buf1 buf2 : Buffer β) : Buffer β × Buffer β := (buf2, buf1)

/-- How much `readv` can deliver: what is left in the block, and the spill area when that is
less than its size. -/
def readable (b : Buffer β) : Nat :=
  b.left + if b.left < maxBufferLength then maxBufferLength else 0

/-- `_read_withvector`. `readv` answers with an error or with the bytes it delivers. -/
def readWithvector [Inhabited β] (b : Buffer β) (readv : Option (List β)) (alloc : Bool) :
    Buffer β × Int :=
  match readv with
  | none => (b, -1)
  | some data =>
    let left := b.left
    if data.length > left then
      let r := (b.fill (data.take left)).append (data.drop left) alloc
      if r.2 ≠ 0 then (r.1, -2) else (r.1, data.length)
    else (b.fill data, data.length)

/-- `buffer_receive`. `recvfrom` answers with an error or with a datagram. -/
def receive [Inhabited β] (b : Buffer β) (recvfrom : Option (List β)) (alloc : Bool) :
    Buffer β × Int :=
  let r := b.expand maxBufferLength alloc
  if r.2 ≠ 0 then (r.1, -2)
  else
    match recvfrom with
    | none => (r.1, -1)
    | some data => (r.1.fill data, data.length)

/-! ## What the functions do to the data -/

/-- The valid piece lies in the block. -/
structure WellFormed (b : Buffer β) : Prop where
  block : b.orignbuffer.length = b.capacity
  fits : b.offset + b.length ≤ b.capacity

variable {b : Buffer β}

/-- The buffer of `buffer_init`. -/
theorem init_wellFormed : ({} : Buffer β).WellFormed := ⟨rfl, Nat.le_refl _⟩

theorem WellFormed.length_contents (h : b.WellFormed) : b.contents.length = b.length := by
  have hblock := h.block
  have hfits := h.fits
  rw [contents, List.length_take, List.length_drop]
  omega

/-- Sliding to the front changes no data. -/
theorem WellFormed.align (h : b.WellFormed) : b.align.WellFormed ∧ b.align.contents = b.contents := by
  have hblock := h.block
  have hfits := h.fits
  have hlen := h.length_contents
  refine ⟨⟨?_, ?_⟩, ?_⟩
  · exact (length_memcpy (by omega)).trans hblock
  · simp only [Buffer.align]
    omega
  · change ((memcpy b.orignbuffer 0 b.contents).drop 0).take b.length = b.contents
    have htake : (memcpy b.orignbuffer 0 b.contents).take b.contents.length = b.contents := by
      simpa using take_memcpy (Nat.zero_le b.orignbuffer.length)
    rw [List.drop_zero, ← hlen]
    exact htake

/-- Writing behind the data where there is room extends it. -/
theorem WellFormed.fill (h : b.WellFormed) (data : List β)
    (hroom : b.offset + b.length + data.length ≤ b.capacity) :
    (b.fill data).WellFormed ∧ (b.fill data).contents = b.contents ++ data := by
  have hblock := h.block
  refine ⟨⟨?_, ?_⟩, ?_⟩
  · exact (length_memcpy (by omega)).trans hblock
  · simp only [Buffer.fill]
    omega
  · exact take_drop_memcpy (by rw [hblock]; exact hroom)

/-- Doubling often enough reaches every length. -/
theorem le_doubled (fuel newcapacity needlength : Nat) (hpos : 0 < newcapacity)
    (hfuel : needlength ≤ newcapacity + fuel) :
    needlength ≤ doubled fuel newcapacity needlength := by
  induction fuel generalizing newcapacity with
  | zero => simpa [doubled] using hfuel
  | succ fuel ih =>
    rw [doubled]
    split
    · exact ih _ (by omega) (by omega)
    · omega

theorem doubled_ge (fuel newcapacity needlength : Nat) :
    newcapacity ≤ doubled fuel newcapacity needlength := by
  induction fuel generalizing newcapacity with
  | zero => exact Nat.le_refl _
  | succ fuel ih =>
    rw [doubled]
    split
    · exact Nat.le_trans (by omega) (ih _)
    · exact Nat.le_refl _

/-- A block whose data starts at its beginning is replaced by a longer one. -/
theorem WellFormed.realloc (h : b.WellFormed) (hoffset : b.offset = 0) (newcapacity : Nat)
    (hle : b.capacity ≤ newcapacity) (fresh : List β)
    (hfresh : fresh.length = newcapacity - b.capacity) :
    let b' : Buffer β :=
      { b with capacity := newcapacity, offset := 0, orignbuffer := b.orignbuffer ++ fresh }
    b'.WellFormed ∧ b'.contents = b.contents := by
  have hblock := h.block
  have hfits := h.fits
  refine ⟨⟨?_, ?_⟩, ?_⟩
  · simp only [List.length_append]
    omega
  · simp only
    omega
  · simp only [contents, hoffset, List.drop_zero]
    exact List.take_append_of_le_length (by omega)

variable [Inhabited β]

/-- `_expand` changes no data and makes room behind it. -/
theorem WellFormed.expand (h : b.WellFormed) (n : Nat) :
    (b.expand n true).1.WellFormed ∧ (b.expand n true).1.contents = b.contents ∧
      (b.expand n true).2 = 0 ∧
      (b.expand n true).1.offset + (b.expand n true).1.length + n ≤ (b.expand n true).1.capacity := by
  have hfits := h.fits
  unfold Buffer.expand
  simp only
  split
  · -- there is room already
    rename_i hroom
    exact ⟨h, rfl, rfl, hroom⟩
  · split
    · -- there is room once the data has slid to the front
      rename_i hroom
      obtain ⟨hwf, hcontents⟩ := h.align
      refine ⟨hwf, hcontents, rfl, ?_⟩
      simp only [Buffer.align]
      omega
    · -- the block is replaced
      rename_i hfull hshort
      have hslid : (if b.offset ≠ 0 then b.align else b).WellFormed ∧
          (if b.offset ≠ 0 then b.align else b).contents = b.contents ∧
          (if b.offset ≠ 0 then b.align else b).offset = 0 ∧
          (if b.offset ≠ 0 then b.align else b).length = b.length ∧
          (if b.offset ≠ 0 then b.align else b).capacity = b.capacity := by
        split
        · exact ⟨h.align.1, h.align.2, rfl, rfl, rfl⟩
        · rename_i hzero
          exact ⟨h, rfl, not_not.mp hzero, rfl, rfl⟩
      generalize (if b.offset ≠ 0 then b.align else b) = slid at hslid ⊢
      obtain ⟨hwf, hcontents, hoffset, hlength, hcapacity⟩ := hslid
      generalize hstart : (if b.capacity < minBufferLength then minBufferLength else b.capacity) =
        start
      have hpos : 0 < start ∧ b.capacity ≤ start := by
        rw [← hstart, minBufferLength]
        split <;> omega
      have hneed := le_doubled (b.offset + b.length + n) start (b.offset + b.length + n) hpos.1
        (by omega)
      have hgrown := doubled_ge (b.offset + b.length + n) start (b.offset + b.length + n)
      obtain ⟨hwf', hcontents'⟩ := hwf.realloc hoffset
        (doubled (b.offset + b.length + n) start (b.offset + b.length + n)) (by omega) (List.replicate _ default) List.length_replicate
      refine ⟨hwf', hcontents'.trans hcontents, rfl, ?_⟩
      simp only [Bool.not_true, Bool.false_eq_true, if_false]
      omega

/-- `buffer_append` appends. -/
theorem WellFormed.append (h : b.WellFormed) (buf : List β) :
    (b.append buf true).1.WellFormed ∧ (b.append buf true).1.contents = b.contents ++ buf ∧
      (b.append buf true).2 = 0 := by
  unfold Buffer.append
  simp only
  split
  · obtain ⟨hwf, hcontents, hrc, hroom⟩ := h.expand buf.length
    rw [hrc, if_neg (by decide)]
    obtain ⟨hwf', hcontents'⟩ := hwf.fill buf hroom
    exact ⟨hwf', by rw [hcontents', hcontents], rfl⟩
  · rename_i hroom
    obtain ⟨hwf, hcontents⟩ := h.fill buf (by omega)
    exact ⟨hwf, hcontents, rfl⟩

omit [Inhabited β] in
/-- `buffer_erase` drops data from the front. -/
theorem WellFormed.erase (h : b.WellFormed) (n : Nat) :
    (b.erase n).WellFormed ∧ (b.erase n).contents = b.contents.drop n := by
  have hfits := h.fits
  have hlen := h.length_contents
  unfold Buffer.erase
  split
  · rename_i hall
    refine ⟨⟨h.block, by simp only; omega⟩, ?_⟩
    rw [List.drop_eq_nil_of_le (by omega)]
    simp [contents]
  · rename_i hsome
    refine ⟨⟨h.block, by simp only; omega⟩, ?_⟩
    simp only [contents]
    rw [List.drop_take, List.drop_drop]

omit [Inhabited β] in
/-- `buffer_take` moves data from the front out. -/
theorem WellFormed.take (h : b.WellFormed) (n : Nat) :
    (b.take n).1.WellFormed ∧ (b.take n).1.contents = b.contents.drop n ∧
      (b.take n).2 = b.contents.take n := by
  have hlen := h.length_contents
  unfold Buffer.take
  simp only
  split
  · rename_i hmore
    obtain ⟨hwf, hcontents⟩ := h.erase b.length
    refine ⟨hwf, ?_, ?_⟩
    · rw [hcontents, List.drop_eq_nil_of_le (by omega), List.drop_eq_nil_of_le (by omega)]
    · rw [List.take_of_length_le (by omega : b.contents.length ≤ n), contents]
  · rename_i hsome
    obtain ⟨hwf, hcontents⟩ := h.erase n
    refine ⟨hwf, hcontents, ?_⟩
    rw [contents, List.take_take, Nat.min_eq_left (by omega)]

/-- `buffer_readv` appends what `readv` delivers, the spill area included. -/
theorem WellFormed.readWithvector (h : b.WellFormed) (data : List β) :
    (b.readWithvector (some data) true).1.WellFormed ∧
      (b.readWithvector (some data) true).1.contents = b.contents ++ data ∧
      (b.readWithvector (some data) true).2 = data.length := by
  have hfits := h.fits
  unfold Buffer.readWithvector
  simp only
  split
  · -- the block is filled to its end, and the spill area is appended
    rename_i hspill
    have hroom : b.offset + b.length + (data.take b.left).length ≤ b.capacity := by
      rw [List.length_take, left]
      omega
    obtain ⟨hwf, hcontents⟩ := h.fill _ hroom
    obtain ⟨hwf', hcontents', hrc⟩ := hwf.append (data.drop b.left)
    rw [hrc, if_neg (by decide)]
    refine ⟨hwf', ?_, rfl⟩
    rw [hcontents', hcontents, List.append_assoc, List.take_append_drop]
  · rename_i hfit
    obtain ⟨hwf, hcontents⟩ := h.fill data (by rw [left] at hfit; omega)
    exact ⟨hwf, hcontents, rfl⟩

/-- `buffer_receive` appends the datagram. -/
theorem WellFormed.receive (h : b.WellFormed) {data : List β}
    (hdata : data.length ≤ maxBufferLength) :
    (b.receive (some data) true).1.WellFormed ∧
      (b.receive (some data) true).1.contents = b.contents ++ data ∧
      (b.receive (some data) true).2 = data.length := by
  obtain ⟨hwf, hcontents, hrc, hroom⟩ := h.expand maxBufferLength
  unfold Buffer.receive
  simp only
  rw [hrc, if_neg (by decide)]
  obtain ⟨hwf', hcontents'⟩ := hwf.fill data (by omega)
  exact ⟨hwf', by rw [hcontents', hcontents], rfl⟩

/-- `buffer_receive` without a datagram only makes room. -/
theorem WellFormed.receive_none (h : b.WellFormed) :
    (b.receive none true).1.WellFormed ∧ (b.receive none true).1.contents = b.contents ∧
      (b.receive none true).2 = -1 := by
  have hexpand := h.expand maxBufferLength
  unfold Buffer.receive
  simp only
  -- named, so that nothing computes the new capacity
  rcases hresult : b.expand maxBufferLength true with ⟨c, rc⟩
  rw [hresult] at hexpand
  obtain ⟨hwf, hcontents, hrc, -⟩ := hexpand
  rw [if_neg (not_not.mpr hrc)]
  exact ⟨hwf, hcontents, rfl⟩

end Buffer

end Evlite
