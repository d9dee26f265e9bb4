import Evlite.Session.Ops

/-!
# Emptying the Send Queue

Each round of `channel_transmit` gathers what is pending, writes it and pops the messages
that were written. Empty messages are popped together with what was written before them. When
only empty messages are left in the queue from the start, there is nothing to write, `writev`
returns `0`, and the function returns without popping them.

## Main results

- `channelTransmitLoop_drains`: a round with something pending makes the queue shorter, and
  leaves it empty or with something pending.
- `transmit_drains_iff`: one call empties the queue exactly when something is pending, or the
  queue is empty.
-/

namespace Evlite.Session

open Lib

/-! ## What a transmission counts -/

/-- How often the message `id` was counted as sent. -/
def successes (s : Session) (id : Nat) : Nat := s.trace.count (.messageAddSuccess id)

/-- How many of the messages have the address `id`. -/
def queued (q : List Message) (id : Nat) : Nat := (q.map Message.id).count id

theorem queued_append (q q' : List Message) (id : Nat) :
    queued (q ++ q') id = queued q id + queued q' id := by
  rw [queued, List.map_append, List.count_append]
  rfl

theorem sentEffects_count (q : List Message) (id : Nat) :
    (q.flatMap sentEffects).count (.messageAddSuccess id) = queued q id := by
  induction q with
  | nil => rfl
  | cons m q ih =>
    have hone : (sentEffects m).count (.messageAddSuccess id) = [m.id].count id := by
      by_cases h : m.id = id <;> simp [sentEffects, h]
    rw [List.flatMap_cons, List.count_append, ih, hone]
    exact (queued_append [m] q id).symm

/-- What was counted and what is queued: one success for each message that was popped. -/
theorem transmitted_successes (s : Session) (iov : List (List UInt8)) (n id : Nat) :
    (s.transmitted iov n).successes id + queued (s.transmitted iov n).sendqueue id =
      s.successes id + queued s.sendqueue id := by
  have hsplit : (popSent (s.msgoffset + n) s.sendqueue).1 ++
      (popSent (s.msgoffset + n) s.sendqueue).2.2 = s.sendqueue := ChunkQueue.advance_append _ _
  have htrace : (s.transmitted iov n).trace =
      s.trace ++ .wrote (iov.flatten.take n) ::
        (popSent (s.msgoffset + n) s.sendqueue).1.flatMap sentEffects := by
    simp only [transmitted, emit, emits, List.append_assoc, List.singleton_append]
  have hcount : (s.transmitted iov n).successes id =
      s.successes id + queued (popSent (s.msgoffset + n) s.sendqueue).1 id := by
    rw [successes, htrace, List.count_append, List.count_cons_of_ne (by simp), sentEffects_count]
    rfl
  rw [hcount, Nat.add_assoc]
  congr 1
  show _ + queued (popSent (s.msgoffset + n) s.sendqueue).2.2 id = _
  rw [← queued_append, hsplit]

/-! ## A round -/

/-- Every answer takes all of `n` bytes. -/
def AcceptsAll (n : Nat) (ios : List IoResult) : Prop := ∀ io ∈ ios, ∃ k, io = .wrote k ∧ n ≤ k

theorem AcceptsAll.mono {n m : Nat} {ios : List IoResult} (h : AcceptsAll n ios) (hle : m ≤ n) :
    AcceptsAll m ios := fun io hio => by
  obtain ⟨k, hk, hn⟩ := h io hio
  exact ⟨k, hk, Nat.le_trans hle hn⟩

/-- A transmission can write to the descriptor, and the offset points into the first message. -/
structure Writable (s : Session) : Prop where
  fd : 0 ≤ s.fd
  established : s.established = true
  aligned : ChunkQueue.Aligned Message.buffer s.msgoffset s.sendqueue

theorem Writable.kernelTakes {s : Session} (h : s.Writable) (buf : List UInt8) (k : Nat) :
    s.kernelTakes buf (.wrote k) = .ok (min k buf.length) := by
  have hfd : ¬((s.fd < 0 || !s.established) = true) := by
    have hopen := h.fd
    simp [h.established]
    omega
  unfold Session.kernelTakes
  rw [if_neg hfd]

/-- A round that writes something. -/
theorem channelTransmitLoop_round {s : Session} {iovMax n : Nat} {io : IoResult} (ios : List IoResult)
    (total : Int) (hqueue : s.sendqueue ≠ []) (hpos : 0 < n)
    (htakes : s.kernelTakes (iovArray iovMax s.msgoffset s.sendqueue).flatten io = .ok n) :
    channelTransmitLoop iovMax (io :: ios) total s =
      channelTransmitLoop iovMax ios (total + n)
        (s.transmitted (iovArray iovMax s.msgoffset s.sendqueue) n) := by
  obtain ⟨n, rfl⟩ : ∃ m, n = m + 1 := ⟨n - 1, by omega⟩
  rw [channelTransmitLoop, if_neg (by simpa using hqueue)]
  dsimp only
  rw [htakes]
  rfl

/-- What one `writev` of everything that was gathered leaves. -/
theorem Writable.transmitted {s : Session} (h : s.Writable) {iovMax : Nat} (hiov : 0 < iovMax)
    (hqueue : s.sendqueue ≠ []) :
    let iov := iovArray iovMax s.msgoffset s.sendqueue
    let t := s.transmitted iov iov.flatten.length
    t.Writable ∧ t.sendqueue.length < s.sendqueue.length ∧
      t.unsent.length + iov.flatten.length = s.unsent.length ∧ (t.sendqueue = [] ∨ t.unsent ≠ []) := by
  dsimp only
  have hprefix : (iovArray iovMax s.msgoffset s.sendqueue).flatten <+: s.unsent :=
    ChunkQueue.gather_isPrefix iovMax s.msgoffset s.sendqueue
  have hunsent : s.unsent.length = (s.sendqueue.map Message.buffer).flatten.length - s.msgoffset :=
    List.length_drop
  have hoffset := h.aligned.le_length
  generalize hlen : (iovArray iovMax s.msgoffset s.sendqueue).flatten.length = n
  have hle : n ≤ s.unsent.length := hlen ▸ hprefix.length_le
  obtain ⟨hpending, haligned⟩ := ChunkQueue.advance_pending (f := Message.buffer)
    (s.msgoffset + n) s.sendqueue (by omega)
  refine ⟨⟨h.fd, h.established, haligned⟩, ?_, ?_, ChunkQueue.advance_stops _ _⟩
  · -- what was gathered covers the first message, which is therefore popped
    obtain ⟨m, q, hcons⟩ := List.exists_cons_of_ne_nil hqueue
    have hcovers : m.buffer.length ≤ s.msgoffset +
        (ChunkQueue.gather Message.buffer iovMax s.msgoffset (m :: q)).flatten.length :=
      ChunkQueue.gather_covers_head m q hiov
    rw [← hcons] at hcovers
    show (popSent (s.msgoffset + n) s.sendqueue).2.2.length < _
    rw [hcons]
    exact ChunkQueue.advance_shorter (Nat.le_trans hcovers (Nat.add_le_add_left (Nat.le_of_eq hlen) _))
  · -- and the bytes that are left are those that were not gathered
    have hleft := congrArg List.length hpending
    rw [List.length_drop] at hleft
    show (ChunkQueue.pending Message.buffer (popSent (s.msgoffset + n) s.sendqueue).2.1
      (popSent (s.msgoffset + n) s.sendqueue).2.2).length + n = _
    rw [hunsent]
    refine (congrArg (· + n) hleft).trans ?_
    omega

/-! ## The loop -/

/-- The outcome that empties the queue. -/
structure Drained (s : Session) (r : Session × Int) : Prop where
  sendqueue : r.1.sendqueue = []
  returns : r.2 = s.unsent.length
  counted : ∀ id, r.1.successes id = s.successes id + queued s.sendqueue id

/-- Rounds in which everything is taken empty the queue, if something is pending. -/
theorem channelTransmitLoop_drains {iovMax : Nat} (hiov : 0 < iovMax) (ios : List IoResult)
    (total : Int) (s : Session) (h : s.Writable) (haccepts : AcceptsAll s.unsent.length ios)
    (henough : s.sendqueue.length ≤ ios.length) (hpending : s.sendqueue = [] ∨ s.unsent ≠ []) :
    (channelTransmitLoop iovMax ios total s).1.sendqueue = [] ∧
      (channelTransmitLoop iovMax ios total s).2 = total + s.unsent.length ∧
      ∀ id, (channelTransmitLoop iovMax ios total s).1.successes id =
        s.successes id + queued s.sendqueue id := by
  -- each round takes one answer and shortens the queue, so the answers last
  induction ios generalizing total s with
  | nil =>
    have hempty : s.sendqueue = [] := List.length_eq_zero_iff.mp (Nat.le_zero.mp henough)
    refine ⟨hempty, ?_, fun id => ?_⟩
    · simp [channelTransmitLoop, unsent, hempty]
    · simp [channelTransmitLoop, hempty, queued]
  | cons io ios ih =>
    by_cases hempty : s.sendqueue = []
    · have hdone : channelTransmitLoop iovMax (io :: ios) total s = (s, total) := by
        unfold channelTransmitLoop
        rw [if_pos (by rw [hempty]; rfl)]
      rw [hdone]
      refine ⟨hempty, ?_, fun id => ?_⟩
      · simp [unsent, hempty]
      · simp [hempty, queued]
    · have hbytes := hpending.resolve_left hempty
      obtain ⟨hwritable, hshorter, hlength, hleft⟩ := h.transmitted hiov hempty
      have hgathered : (iovArray iovMax s.msgoffset s.sendqueue).flatten ≠ [] :=
        ChunkQueue.gather_ne_nil hiov hbytes
      have hpos := List.length_pos_iff.mpr hgathered
      obtain ⟨k, rfl, hk⟩ := haccepts io List.mem_cons_self
      -- the whole vector is taken, and it is not empty
      have htakes : s.kernelTakes (iovArray iovMax s.msgoffset s.sendqueue).flatten (.wrote k) =
          .ok (iovArray iovMax s.msgoffset s.sendqueue).flatten.length := by
        rw [h.kernelTakes, Nat.min_eq_right (by omega)]
      have hround := channelTransmitLoop_round ios total hempty hpos htakes
      have hsuccesses := s.transmitted_successes (iovArray iovMax s.msgoffset s.sendqueue)
        (iovArray iovMax s.msgoffset s.sendqueue).flatten.length
      rw [hround]
      generalize s.transmitted (iovArray iovMax s.msgoffset s.sendqueue)
        (iovArray iovMax s.msgoffset s.sendqueue).flatten.length = t
        at hwritable hshorter hlength hleft hsuccesses
      have hmono : AcceptsAll t.unsent.length ios := AcceptsAll.mono
        (fun io hio => haccepts io (List.mem_cons_of_mem _ hio)) (by omega)
      have hlong : t.sendqueue.length ≤ ios.length := by
        rw [List.length_cons] at henough
        omega
      obtain ⟨hqueue, hreturns, hcounted⟩ := ih
        (total + (iovArray iovMax s.msgoffset s.sendqueue).flatten.length) t hwritable hmono hlong hleft
      refine ⟨hqueue, ?_, fun id => (hcounted id).trans (hsuccesses id)⟩
      rw [hreturns]
      omega

/-- With nothing pending, nothing is offered to `writev`, and the call returns at once. -/
theorem channelTransmit_stuck {s : Session} (iovMax : Nat) {ios : List IoResult} (h : s.Writable)
    (hqueue : s.sendqueue ≠ []) (hnone : s.unsent = []) (haccepts : AcceptsAll s.unsent.length ios)
    (hios : ios ≠ []) : s.channelTransmit iovMax ios = (s, 0) := by
  obtain ⟨io, ios, rfl⟩ := List.exists_cons_of_ne_nil hios
  obtain ⟨k, rfl, -⟩ := haccepts io List.mem_cons_self
  have hoffered : (iovArray iovMax s.msgoffset s.sendqueue).flatten = [] := by
    have hprefix : (iovArray iovMax s.msgoffset s.sendqueue).flatten <+: s.unsent :=
      ChunkQueue.gather_isPrefix iovMax s.msgoffset s.sendqueue
    rw [hnone] at hprefix
    exact List.prefix_nil.mp hprefix
  unfold channelTransmit channelTransmitLoop
  rw [if_neg (by simpa using hqueue)]
  dsimp only
  rw [hoffered, h.kernelTakes, List.length_nil, Nat.min_zero]
  rfl

/-! ## Main result -/

/-- The write event is not registered again. -/
def NotRegistered (s : Session) : Prop := s.freed = true ∨ s.status.writing = false

/-- What `channel_on_write` does after a transmission that empties the queue. -/
theorem channelOnWrite_drained {s : Session} (iovMax : Nat) (env : Env) (htype : s.type ≠ .shared)
    (h : Drained s.clearWriting (s.clearWriting.channelTransmit iovMax env.writev)) :
    (s.channelOnWrite iovMax .evWrite env).NotRegistered := by
  unfold channelOnWrite
  dsimp only
  rw [if_pos (show EvMask.evWrite.write = true from rfl)]
  split
  · have htransmit : s.clearWriting.settingTransmit iovMax env.writev =
        s.clearWriting.channelTransmit iovMax env.writev := if_neg htype
    have hframe := settingTransmit_frame s.clearWriting iovMax env.writev
    rw [htransmit] at hframe ⊢
    generalize s.clearWriting.channelTransmit iovMax env.writev = r at h hframe
    have hpos : ¬r.2 < 0 := by
      rw [h.returns]
      omega
    rw [if_neg hpos]
    unfold afterTransmit
    rw [if_neg (by rw [h.sendqueue]; decide)]
    split
    · -- the session was shutting down, and waited for its queue
      exact .inl (channelShutdown_freed ..)
    · obtain ⟨q, off, es, -, hr⟩ := hframe
      rw [hr]
      exact .inr rfl
  · exact .inr rfl

/-- Let every `writev` take all it is offered. Then one call of `channel_transmit` empties the
queue, counts every message and returns the number of bytes, and `channel_on_write` does not
register the write event again, exactly when the queue is empty or holds a byte to send. -/
theorem transmit_drains_iff (s : Session) (iovMax : Nat) (env : Env) (h : s.Writable)
    (htype : s.type ≠ .shared) (hiov : 0 < iovMax) (haccepts : AcceptsAll s.unsent.length env.writev)
    (henough : s.sendqueue.length ≤ env.writev.length) :
    (Drained s (s.channelTransmit iovMax env.writev) ∧
      (s.channelOnWrite iovMax .evWrite env).NotRegistered) ↔ (s.sendqueue = [] ∨ s.unsent ≠ []) := by
  constructor
  · -- otherwise only empty messages are queued, and they stay
    rintro ⟨hdrained, -⟩
    by_contra hneither
    obtain ⟨hqueue, hbytes⟩ := not_or.mp hneither
    have hnone : s.unsent = [] := not_not.mp hbytes
    have hios : env.writev ≠ [] := by
      intro hnil
      rw [hnil] at henough
      exact hqueue (List.length_eq_zero_iff.mp (Nat.le_zero.mp henough))
    have hstuck := channelTransmit_stuck iovMax h hqueue hnone haccepts hios
    rw [hstuck] at hdrained
    exact hqueue hdrained.sendqueue
  · intro hpending
    have hdrains : ∀ t : Session, t.Writable → t.sendqueue = s.sendqueue → t.unsent = s.unsent →
        Drained t (t.channelTransmit iovMax env.writev) := by
      intro t ht hqueue hunsent
      obtain ⟨hleft, hreturns, hcounted⟩ := channelTransmitLoop_drains hiov env.writev 0 t ht
        (by rwa [hunsent]) (by rwa [hqueue]) (by rwa [hqueue, hunsent])
      exact ⟨hleft, by rw [channelTransmit, hreturns, Int.zero_add], hcounted⟩
    -- the event handler transmits with the bit of the write event cleared
    refine ⟨hdrains s h rfl rfl, channelOnWrite_drained iovMax env htype ?_⟩
    exact hdrains s.clearWriting ⟨h.fd, h.established, h.aligned⟩ rfl rfl

/-- Data around empty messages, more of them than there are vectors. -/
def mixedQueue : Session :=
  { fd := 5, msgoffset := 1
    sendqueue := [⟨1, [1, 2], []⟩, ⟨2, [], []⟩, ⟨3, [3], []⟩, ⟨4, [], []⟩] }

/-- A socket buffer with room for all. -/
def roomyEnv : Env := { writev := [.wrote 100, .wrote 100, .wrote 100, .wrote 100] }

theorem transmit_drains_iff_mixedQueue :
    (Drained mixedQueue (mixedQueue.channelTransmit 1 roomyEnv.writev) ∧
      (mixedQueue.channelOnWrite 1 .evWrite roomyEnv).NotRegistered) ↔
      (mixedQueue.sendqueue = [] ∨ mixedQueue.unsent ≠ []) :=
  transmit_drains_iff mixedQueue 1 roomyEnv ⟨by decide, rfl, .inr (by decide)⟩ (by decide) (by decide)
    (fun io hio => ⟨100, by simpa [roomyEnv] using hio, by decide⟩) (by decide)

/-- An idle session that was sent an empty broadcast. -/
def emptyBroadcast : Session := { fd := 5, sendqueue := [⟨1, [], []⟩] }

/-- The empty message stays in the queue, and the write event is registered again. -/
theorem transmit_emptyBroadcast_stuck :
    AcceptsAll emptyBroadcast.unsent.length roomyEnv.writev ∧
      ¬Drained emptyBroadcast (emptyBroadcast.channelTransmit 128 roomyEnv.writev) ∧
      ¬(emptyBroadcast.channelOnWrite 128 .evWrite roomyEnv).NotRegistered :=
  ⟨fun io hio => ⟨100, by simpa [roomyEnv] using hio, by decide⟩,
    fun h => absurd h.sendqueue (by decide), fun h => absurd h (by unfold NotRegistered; decide)⟩

end Evlite.Session
