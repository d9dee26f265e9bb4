import Evlite.Lib.TransitionSystem
import Evlite.Message.Buffer
import Mathlib.Logic.Function.Basic

/-!
# Buffers Hold Byte Streams

Any number of buffers are used through any sequence of calls, with whatever `readv` and
`recvfrom` deliver and the logic layer consumes. Beside each buffer runs a stream: all the
bytes that ever came in, and how many of them have gone from the front. The buffer holds the
rest of its stream.

## Main results

- `buffers_hold_streams`: the simulation over every run. In particular `_process` offers
  exactly what has come in and has not been reported as consumed.
-/

namespace Evlite

open Lib

/-- The calls on a family of buffers. -/
inductive BufferCall (ι β : Type) where
  | append (self : ι) (buf : List β)
  | append2 (self buffer : ι)
  | erase (self : ι) (length : Nat)
  | take (self : ι) (length : Nat)
  | reserve (self : ι) (length : Nat)
  | swap (buf1 buf2 : ι)
  | readv (self : ι) (readv : Option (List β))
  | receive (self : ι) (recvfrom : Option (List β))
  /-- `_process` of a session. `nprocess` is the answer of `service.process`. -/
  | process (self : ι) (nprocess : Int)
deriving Repr, DecidableEq

/-- What a call answers. -/
inductive BufferAnswer (β : Type) where
  | rc (rc : Int)
  | taken (buf : List β)
  /-- The data `service.process` was called with. -/
  | offered (data : List β)
  | silent
deriving Repr, DecidableEq

/-! ## The buffers and the streams they stand for -/

/-- A family of buffers, and the answers of the calls. -/
structure Buffers (ι β : Type) where
  buffer : ι → Buffer β := fun _ => {}
  answers : List (BufferAnswer β) := []

/-- All the bytes that came in, and how many have gone from the front. -/
structure ByteStream (β : Type) where
  all : List β := []
  gone : Nat := 0
deriving Repr, DecidableEq

namespace ByteStream

variable {β : Type}

/-- What has not gone. -/
def rest (t : ByteStream β) : List β := t.all.drop t.gone

def arrive (t : ByteStream β) (data : List β) : ByteStream β := { t with all := t.all ++ data }

/-- `n` bytes go from the front, or all if there are fewer. -/
def leave (t : ByteStream β) (n : Nat) : ByteStream β :=
  { t with gone := min (t.gone + n) t.all.length }

/-- Only bytes that came in have gone. -/
def Sound (t : ByteStream β) : Prop := t.gone ≤ t.all.length

theorem Sound.arrive {t : ByteStream β} (h : t.Sound) (data : List β) :
    (t.arrive data).Sound ∧ (t.arrive data).rest = t.rest ++ data := by
  refine ⟨?_, List.drop_append_of_le_length h⟩
  rw [Sound, ByteStream.arrive, List.length_append]
  exact Nat.le_trans h (Nat.le_add_right _ _)

theorem Sound.leave {t : ByteStream β} (n : Nat) :
    (t.leave n).Sound ∧ (t.leave n).rest = t.rest.drop n := by
  refine ⟨Nat.min_le_right _ _, ?_⟩
  simp only [rest, ByteStream.leave, List.drop_drop]
  rcases Nat.le_total (t.gone + n) t.all.length with hle | hle
  · rw [Nat.min_eq_left hle]
  · rw [Nat.min_eq_right hle, List.drop_length, List.drop_eq_nil_of_le hle]

end ByteStream

/-- A family of streams, and the answers they call for. -/
structure ByteStreams (ι β : Type) where
  stream : ι → ByteStream β := fun _ => {}
  answers : List (BufferAnswer β) := []

variable {ι β : Type} [DecidableEq ι]

/-- Store a new state for one buffer and record an answer. -/
def Buffers.set (s : Buffers ι β) (i : ι) (b : Buffer β) (answer : BufferAnswer β) :
    Buffers ι β where
  buffer := Function.update s.buffer i b
  answers := s.answers ++ [answer]

/-- `_process`: the buffer, and the data `service.process` was called with. -/
def Buffer.process (b : Buffer β) (nprocess : Int) : Buffer β × Option (List β) :=
  if b.length > 0 then
    (if nprocess > 0 then b.erase nprocess.toNat else b, some b.contents)
  else (b, none)

/-- A call on the buffers, every allocation succeeding. The kernel delivers no more than it
was given room for. -/
def Buffers.step [Inhabited β] (s : Buffers ι β) : BufferCall ι β → Option (Buffers ι β)
  | .append i buf =>
    let r := (s.buffer i).append buf true
    some (s.set i r.1 (.rc r.2))
  | .append2 i j =>
    let r := (s.buffer i).append2 (s.buffer j) true
    if i = j then none else some (s.set i r.1 (.rc r.2))
  | .erase i n => some (s.set i ((s.buffer i).erase n) (.rc 0))
  | .take i n =>
    let r := (s.buffer i).take n
    some (s.set i r.1 (.taken r.2))
  | .reserve i n =>
    let r := (s.buffer i).reserve n true
    some (s.set i r.1 (.rc r.2))
  | .swap i j =>
    let r := (s.buffer i).swap (s.buffer j)
    some
      { buffer := Function.update (Function.update s.buffer i r.1) j r.2
        answers := s.answers ++ [.silent] }
  | .readv i readv =>
    let r := (s.buffer i).readWithvector readv true
    if ∀ data ∈ readv, data.length ≤ (s.buffer i).readable then some (s.set i r.1 (.rc r.2))
    else none
  | .receive i recvfrom =>
    let r := (s.buffer i).receive recvfrom true
    if ∀ data ∈ recvfrom, data.length ≤ maxBufferLength then some (s.set i r.1 (.rc r.2))
    else none
  | .process i nprocess =>
    let r := (s.buffer i).process nprocess
    some (s.set i r.1 (match r.2 with
      | some data => .offered data
      | none => .silent))

/-- Store a new stream and record an answer. -/
def ByteStreams.set (t : ByteStreams ι β) (i : ι) (u : ByteStream β) (answer : BufferAnswer β) :
    ByteStreams ι β where
  stream := Function.update t.stream i u
  answers := t.answers ++ [answer]

/-- What came in from the kernel. -/
def ByteStreams.deliver (t : ByteStreams ι β) (i : ι) : Option (List β) → ByteStreams ι β
  | none => t.set i (t.stream i) (.rc (-1))
  | some data => t.set i ((t.stream i).arrive data) (.rc data.length)

/-- A call on the streams: what buffers are to do. -/
def ByteStreams.call (t : ByteStreams ι β) : BufferCall ι β → ByteStreams ι β
  | .append i buf => t.set i ((t.stream i).arrive buf) (.rc 0)
  | .append2 i j => t.set i ((t.stream i).arrive (t.stream j).rest) (.rc 0)
  | .erase i n => t.set i ((t.stream i).leave n) (.rc 0)
  | .take i n => t.set i ((t.stream i).leave n) (.taken ((t.stream i).rest.take n))
  | .reserve i _ => t.set i (t.stream i) (.rc 0)
  | .swap i j =>
    { stream := Function.update (Function.update t.stream i (t.stream j)) j (t.stream i)
      answers := t.answers ++ [.silent] }
  | .readv i readv => t.deliver i readv
  | .receive i recvfrom => t.deliver i recvfrom
  | .process i nprocess =>
    if (t.stream i).rest = [] then t.set i (t.stream i) .silent
    else t.set i ((t.stream i).leave nprocess.toNat) (.offered (t.stream i).rest)

/-! ## The simulation -/

/-- A buffer holds what is left of a stream. -/
structure Buffer.Holds (b : Buffer β) (u : ByteStream β) : Prop where
  wellFormed : b.WellFormed
  contents : b.contents = u.rest
  sound : u.Sound

/-- Every buffer holds what is left of its stream, and the answers were the same. -/
structure Buffers.Hold (s : Buffers ι β) (t : ByteStreams ι β) : Prop where
  holds : ∀ i, (s.buffer i).Holds (t.stream i)
  answers : s.answers = t.answers

variable {s s' : Buffers ι β} {t : ByteStreams ι β}

/-- A call that works on one buffer. -/
theorem Buffers.Hold.set (h : s.Hold t) {i : ι} {b : Buffer β} {u : ByteStream β}
    {answer answer' : BufferAnswer β} (hb : b.Holds u) (hanswer : answer = answer') :
    (s.set i b answer).Hold (t.set i u answer') where
  holds j := by
    rcases eq_or_ne j i with rfl | hne
    · simpa [Buffers.set, ByteStreams.set] using hb
    · simpa [Buffers.set, ByteStreams.set, hne] using h.holds j
  answers := by rw [Buffers.set, ByteStreams.set, h.answers, hanswer]

/-- Bytes that come in. -/
theorem Buffer.Holds.arrive {b b' : Buffer β} {u : ByteStream β} (h : b.Holds u) {data : List β}
    (hwf : b'.WellFormed) (hcontents : b'.contents = b.contents ++ data) :
    b'.Holds (u.arrive data) :=
  ⟨hwf, by rw [hcontents, h.contents, (h.sound.arrive data).2], (h.sound.arrive data).1⟩

/-- Bytes that go from the front. -/
theorem Buffer.Holds.leave {b b' : Buffer β} {u : ByteStream β} (h : b.Holds u) {n : Nat}
    (hwf : b'.WellFormed) (hcontents : b'.contents = b.contents.drop n) : b'.Holds (u.leave n) :=
  ⟨hwf, by rw [hcontents, h.contents, (ByteStream.Sound.leave n).2], (ByteStream.Sound.leave n).1⟩

/-- The data a buffer holds is offered, and what the logic layer has consumed goes. -/
theorem Buffers.Hold.process (h : s.Hold t) (i : ι) (nprocess : Int) :
    (s.set i ((s.buffer i).process nprocess).1 (match ((s.buffer i).process nprocess).2 with
      | some data => .offered data
      | none => .silent)).Hold (t.call (.process i nprocess)) := by
  have hi := h.holds i
  have hlen := hi.wellFormed.length_contents
  rw [hi.contents] at hlen
  simp only [ByteStreams.call, Buffer.process]
  by_cases hsome : (s.buffer i).length > 0
  · have hne : (t.stream i).rest ≠ [] := by
      intro hnil
      rw [hnil, List.length_nil] at hlen
      omega
    rw [if_pos hsome, if_neg hne]
    refine h.set ?_ (by rw [hi.contents])
    split
    · obtain ⟨hwf, hcontents⟩ := hi.wellFormed.erase nprocess.toNat
      exact hi.leave hwf hcontents
    · -- an answer that is not positive consumes nothing
      rename_i hnone
      refine hi.leave hi.wellFormed ?_
      rw [Int.toNat_of_nonpos (by omega), List.drop_zero]
  · have hnil : (t.stream i).rest = [] := List.eq_nil_of_length_eq_zero (by omega)
    rw [if_neg hsome, if_pos hnil]
    exact h.set hi rfl

/-- One call keeps the buffers and the streams together. -/
theorem Buffers.Hold.step [Inhabited β] (h : s.Hold t) {c : BufferCall ι β}
    (hstep : s.step c = some s') : s'.Hold (t.call c) := by
  cases c with
  | append i buf =>
    cases hstep
    obtain ⟨hwf, hcontents, hrc⟩ := (h.holds i).wellFormed.append buf
    exact h.set ((h.holds i).arrive hwf hcontents) (by rw [hrc])
  | append2 i j =>
    simp only [Buffers.step] at hstep
    split at hstep
    · cases hstep
    · cases hstep
      obtain ⟨hwf, hcontents, hrc⟩ := (h.holds i).wellFormed.append (s.buffer j).contents
      -- what is appended is what the other stream still has
      have hrest : (s.buffer i).contents ++ (s.buffer j).contents =
          (s.buffer i).contents ++ (t.stream j).rest := by rw [(h.holds j).contents]
      refine h.set ((h.holds i).arrive hwf (hcontents.trans hrest)) ?_
      rw [Buffer.append2, hrc]
  | erase i n =>
    cases hstep
    obtain ⟨hwf, hcontents⟩ := (h.holds i).wellFormed.erase n
    exact h.set ((h.holds i).leave hwf hcontents) rfl
  | take i n =>
    cases hstep
    obtain ⟨hwf, hcontents, htaken⟩ := (h.holds i).wellFormed.take n
    refine h.set ((h.holds i).leave hwf hcontents) ?_
    rw [htaken, (h.holds i).contents]
  | reserve i n =>
    cases hstep
    obtain ⟨hwf, hcontents, hrc, -⟩ := (h.holds i).wellFormed.expand n
    refine h.set ⟨hwf, hcontents.trans (h.holds i).contents, (h.holds i).sound⟩ ?_
    rw [Buffer.reserve, hrc]
  | swap i j =>
    cases hstep
    refine ⟨fun k => ?_, ?_⟩
    · simp only [ByteStreams.call, Buffer.swap, Function.update_apply]
      split
      · exact h.holds i
      · split
        · exact h.holds j
        · exact h.holds k
    · simp only [ByteStreams.call, h.answers]
  | readv i readv =>
    simp only [Buffers.step] at hstep
    split at hstep
    · cases hstep
      cases readv with
      | none => exact h.set (h.holds i) rfl
      | some data =>
        obtain ⟨hwf, hcontents, hrc⟩ := (h.holds i).wellFormed.readWithvector data
        exact h.set ((h.holds i).arrive hwf hcontents) (by rw [hrc])
    · cases hstep
  | receive i recvfrom =>
    simp only [Buffers.step] at hstep
    split at hstep
    · rename_i hdata
      cases hstep
      cases recvfrom with
      | none =>
        obtain ⟨hwf, hcontents, hrc⟩ := (h.holds i).wellFormed.receive_none
        refine h.set ⟨hwf, hcontents.trans (h.holds i).contents, (h.holds i).sound⟩ ?_
        rw [hrc]
      | some data =>
        obtain ⟨hwf, hcontents, hrc⟩ := (h.holds i).wellFormed.receive (hdata data rfl)
        exact h.set ((h.holds i).arrive hwf hcontents) (by rw [hrc])
    · cases hstep
  | process i nprocess =>
    cases hstep
    exact h.process i nprocess

/-- Buffers hold byte streams: over every run they answer as their streams call for, the data
offered to `service.process` included. Afterwards each buffer's data lies in its block and is
what came in less what has gone, and reserving space leaves that much room behind it. -/
theorem buffers_hold_streams [Inhabited β] {calls : List (BufferCall ι β)} {s : Buffers ι β}
    (hrun : Run Buffers.step {} calls s) :
    let t : ByteStreams ι β := calls.foldl ByteStreams.call {}
    s.answers = t.answers ∧ ∀ i,
      (s.buffer i).offset + (s.buffer i).length ≤ (s.buffer i).capacity ∧
      (s.buffer i).contents = (t.stream i).all.drop (t.stream i).gone ∧
      ∀ n, let b := ((s.buffer i).reserve n true).1
        b.contents = (s.buffer i).contents ∧ b.offset + b.length + n ≤ b.capacity := by
  have hhold : s.Hold (calls.foldl ByteStreams.call {}) := by
    -- induction on the run, which grows at its end
    induction hrun with
    | nil => exact ⟨fun _ => ⟨Buffer.init_wellFormed, rfl, Nat.le_refl _⟩, rfl⟩
    | snoc _ _ hs ih =>
      rw [List.foldl_append]
      exact ih.step hs
  refine ⟨hhold.answers, fun i => ⟨(hhold.holds i).wellFormed.fits, (hhold.holds i).contents, ?_⟩⟩
  intro n b
  obtain ⟨-, hcontents, -, hroom⟩ := (hhold.holds i).wellFormed.expand n
  exact ⟨hcontents, hroom⟩

/-- A datagram is partly erased, the rest moves to another buffer, and the logic layer
consumes two bytes of it. -/
def eraseAndProcess : List (BufferCall Bool Nat) :=
  [.append false [1, 2, 3, 4], .erase false 1, .append2 true false, .swap false true,
    .readv false (some [5]), .process false 2]

theorem buffers_hold_streams_eraseAndProcess :
    ∃ s, Run Buffers.step {} eraseAndProcess s ∧
      s.answers = [.rc 0, .rc 0, .rc 0, .silent, .rc 1, .offered [2, 3, 4, 5]] ∧
      (s.buffer false).contents = [4, 5] := by
  have hrun : exec Buffers.step {} eraseAndProcess = some _ := rfl
  obtain ⟨hanswers, hbuffers⟩ := buffers_hold_streams (run_iff_exec.mpr hrun)
  exact ⟨_, run_iff_exec.mpr hrun, hanswers.trans (by decide),
    (hbuffers false).2.1.trans (by decide)⟩

end Evlite
