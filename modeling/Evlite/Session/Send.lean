import Evlite.Session.Events

/-!
# Sending

The two ways data leaves a session: the direct write of `_send_only`, tried when nothing
is queued, and the gathered write of `channel_transmit`, which empties the send queue when
the descriptor becomes writable. Both share the queue and the one offset `msgoffset` into
its first message.

The kernel's answer to each system call is an argument. A `write` of `n` bytes is told how
many of them are taken (`IoResult.wrote`), so an answer beyond `n` means all of them.
`_send_buffer` and `QUEUE_PUSH` ask the allocator, and go on without memory in ways of their own.
-/

namespace Evlite

/-! ## Answers from outside -/

/-- The answer to one `write`, `writev` or datagram send. -/
inductive IoResult where
  /-- That many bytes are taken, as far as there are so many. -/
  | wrote (n : Nat)
  /-- `EAGAIN` or `EWOULDBLOCK` -/
  | again
  /-- `EINTR` -/
  | interrupted
  /-- Any other error. -/
  | failure
deriving DecidableEq, Repr

/-- At least `n` bytes are taken, if there are so many. -/
def IoResult.takes (io : IoResult) (n : Nat) : Bool :=
  match io with
  | .wrote k => decide (n ≤ k)
  | _ => false

/-- The answer of a `transform` function: there is none, or it returns the buffer it was
given, a new one, or `NULL`. -/
inductive Transform where
  | absent
  | same
  | fresh (bytes : List UInt8)
  | null
deriving DecidableEq, Repr

/-- What is left to send after a transformation, `none` if it failed. -/
def Transform.apply (t : Transform) (buf : List UInt8) : Option (List UInt8) :=
  match t with
  | .absent => some buf
  | .same => some buf
  | .fresh bytes => some bytes
  | .null => none

/-- The effects of a transmission: bytes are written, and messages are done with. -/
def Effect.ofTransmission : Effect → Bool
  | .wrote _ | .messageAddSuccess _ | .messageRelease _ => true
  | _ => false

/-- A transmission has nothing to do with tasks. -/
theorem Effect.ticket_of_transmission {e : Effect} (h : e.ofTransmission = true) :
    e.ticket = none := by
  cases e <;> first | rfl | cases h

namespace Session

/-- The number of bytes of `buf` that a system call on the session's descriptor takes, or
the error. A descriptor without a connection takes nothing. -/
def kernelTakes (s : Session) (buf : List UInt8) (io : IoResult) : Except IoResult Nat :=
  if s.fd < 0 || !s.established then .error .failure
  else match io with
    | .wrote n => .ok (min n buf.length)
    | e => .error e

theorem kernelTakes_ok {s : Session} {buf : List UInt8} {io : IoResult} {n : Nat}
    (h : s.kernelTakes buf io = .ok n) : s.established = true ∧ n ≤ buf.length := by
  unfold kernelTakes at h
  split at h
  · cases h
  · rename_i hopen
    have hest : s.established = true := by simp only [Bool.or_eq_true, not_or] at hopen; simpa using hopen.2
    cases io with
    | wrote k =>
      cases h
      exact ⟨hest, Nat.min_le_right _ _⟩
    | _ => cases h

/-! ## The direct path -/

/-- `channel_send`, and `driver_send` as far as the session can tell: how many bytes of
`buf` the transport takes at once. -/
def channelSend (s : Session) (buf : List UInt8) (io : IoResult) : Session × Int :=
  match s.kernelTakes buf io with
  | .ok n => (s.emit (.wrote (buf.take n)), n)
  | .error .again => (s, 0)
  | .error .interrupted => (s, 0)
  | .error _ => (s, -1)

/-- `_send_only` -/
def sendOnly (s : Session) (buf : List UInt8) (io : IoResult) : Session × Int :=
  if s.status.exiting then (s, -1)
  -- with data on its way, the new data has to wait behind it
  else if !s.status.writing && s.sendqueue.isEmpty then
    let r := s.channelSend buf io
    -- an error queues the whole packet; the write event will meet it again
    (r.1, if r.2 < 0 then 0 else r.2)
  else (s, 0)

/-- `QUEUE_PUSH( sendqueue )`: the queue has room or grows, or the result is `-1`. -/
def queuePush (s : Session) (m : Message) : Session × Int :=
  let r := s.allocate
  ({ r.1 with sendqueue := if r.2 then s.sendqueue ++ [m] else s.sendqueue }, if r.2 then 0 else -1)

theorem queuePush_of_memory {s : Session} (m : Message) (h : s.allocate.2 = true) :
    s.queuePush m = ({ s.allocate.1 with sendqueue := s.sendqueue ++ [m] }, 0) := by
  simp only [queuePush, h, if_true]

theorem queuePush_of_none {s : Session} (m : Message) (h : s.allocate.2 = false) :
    s.queuePush m = (s.allocate.1, -1) := by
  simp only [queuePush, h, Bool.false_eq_true, if_false]
  rfl

/-- A message that finds no memory leaves the queue as it is. -/
theorem queuePush_ne_nil {s : Session} (m : Message) (h : s.sendqueue ≠ []) :
    (s.queuePush m).1.sendqueue ≠ [] := by
  cases hmemory : s.allocate.2 with
  | true =>
    rw [queuePush_of_memory m hmemory]
    exact List.append_ne_nil_of_left_ne_nil h [m]
  | false =>
    rw [queuePush_of_none m hmemory]
    exact h

/-- `_send_buffer` of `session.c`; `msg` is the address `message_create` returns, if there is
memory. -/
def sendBuffer (s : Session) (buf : List UInt8) (msg : Nat) (io : IoResult) : Session × Int :=
  let r := s.sendOnly buf io
  if 0 ≤ r.2 ∧ r.2 < buf.length then
    let ntry := r.2.toNat
    let created := r.1.allocate
    if !created.2 then (created.1, -2)
    else
      let message : Message := { id := msg, buffer := buf.drop ntry, sent := buf.take ntry }
      -- whether the queue took it is not looked at
      (((created.1.emit (.messageCreate msg)).queuePush message).1.sessionAddEvent .evWrite, r.2)
  else r

/-- The outcomes of `_send_only` on a session that is not exiting: how many bytes are on
the wire, and the session after that. -/
inductive SentDirectly (s : Session) (buf : List UInt8) : Nat → Session → Prop where
  | nothing : SentDirectly s buf 0 s
  | bytes (n : Nat) (hn : n ≤ buf.length) (hidle : s.status.writing = false)
      (hqueue : s.sendqueue = []) (hfd : 0 ≤ s.fd) (hest : s.established = true) :
      SentDirectly s buf n (s.emit (.wrote (buf.take n)))

/-- The direct write takes nothing from the session but what it writes. -/
theorem SentDirectly.fixed {s t : Session} {buf : List UInt8} {n : Nat} (h : SentDirectly s buf n t) :
    t.freed = s.freed ∧ t.type = s.type ∧ t.reattach = s.reattach ∧
      t.established = s.established := by
  cases h <;> exact ⟨rfl, rfl, rfl, rfl⟩

theorem SentDirectly.le_length {s t : Session} {buf : List UInt8} {n : Nat}
    (h : SentDirectly s buf n t) : n ≤ buf.length := by
  cases h with
  | nothing => exact Nat.zero_le _
  | bytes _ hn => exact hn

/-- The allocator is not asked. -/
theorem SentDirectly.memory {s t : Session} {buf : List UInt8} {n : Nat} (h : SentDirectly s buf n t) :
    t.memory = s.memory := by
  cases h <;> rfl

/-- What it will answer stays as it was. -/
theorem SentDirectly.allocate {s t : Session} {buf : List UInt8} {n : Nat} (h : SentDirectly s buf n t) :
    t.allocate.2 = s.allocate.2 ∧ t.allocate.1.allocate.2 = s.allocate.1.allocate.2 :=
  ⟨congrArg (fun m : List Bool => m.headD true) h.memory,
    congrArg (fun m : List Bool => m.tail.headD true) h.memory⟩

/-- What the direct write records. -/
theorem SentDirectly.records {s t : Session} {buf : List UInt8} {n : Nat} (h : SentDirectly s buf n t) :
    t.sendqueue = s.sendqueue ∧ ∃ es, t.trace = s.trace ++ es ∧
      (es = [] ∧ n = 0 ∨ es = [.wrote (buf.take n)]) := by
  cases h with
  | nothing => exact ⟨rfl, [], by rw [List.append_nil], .inl ⟨rfl, rfl⟩⟩
  | bytes => exact ⟨rfl, _, rfl, .inr rfl⟩

/-- On an idle session, `channel_send` either fails and writes nothing, or reports what it
put on the wire. -/
private theorem channelSend_cases (s : Session) (buf : List UInt8) (io : IoResult)
    (hidle : s.status.writing = false) (hqueue : s.sendqueue = []) :
    (s.channelSend buf io = (s, -1)) ∨
      ∃ (n : Nat) (t : Session), SentDirectly s buf n t ∧ s.channelSend buf io = (t, (n : Int)) := by
  unfold channelSend kernelTakes
  by_cases hfd : (s.fd < 0 || !s.established) = true
  · left
    simp only [hfd, if_true]
  · have hopen : 0 ≤ s.fd ∧ s.established = true := by simpa using hfd
    cases io with
    | wrote n =>
      right
      refine ⟨min n buf.length, _, .bytes _ (Nat.min_le_right _ _) hidle hqueue hopen.1 hopen.2, ?_⟩
      simp only [hfd, if_false, Bool.false_eq_true]
    | again => exact .inr ⟨0, s, .nothing, by simp only [hfd]; rfl⟩
    | interrupted => exact .inr ⟨0, s, .nothing, by simp only [hfd]; rfl⟩
    | failure => exact .inl (by simp only [hfd]; rfl)

theorem sendOnly_cases (s : Session) (buf : List UInt8) (io : IoResult)
    (hexit : s.status.exiting = false) :
    ∃ (n : Nat) (t : Session), SentDirectly s buf n t ∧ s.sendOnly buf io = (t, (n : Int)) := by
  by_cases hidle : (!s.status.writing && s.sendqueue.isEmpty) = true
  · have hfree : s.status.writing = false ∧ s.sendqueue = [] := by simpa using hidle
    rcases channelSend_cases s buf io hfree.1 hfree.2 with hfail | ⟨n, t, hsent, hrun⟩
    · -- an error counts as nothing sent
      exact ⟨0, s, .nothing, by simp [sendOnly, hexit, hidle, hfail]⟩
    · have hpos : ¬(n : Int) < 0 := by omega
      exact ⟨n, t, hsent, by simp [sendOnly, hexit, hidle, hrun, hpos]⟩
  · exact ⟨0, s, .nothing, by simp [sendOnly, hexit, hidle]⟩

/-- The direct write takes at least `n` bytes, if it is offered so many: nothing is on its way
before them, the session has a connection, and the kernel takes them. -/
def WritesDirectly (s : Session) (n : Nat) (io : IoResult) : Prop :=
  s.status.writing = false ∧ s.sendqueue = [] ∧ 0 ≤ s.fd ∧ s.established = true ∧ io.takes n = true

instance (s : Session) (n : Nat) (io : IoResult) : Decidable (s.WritesDirectly n io) :=
  inferInstanceAs (Decidable (s.status.writing = false ∧ s.sendqueue = [] ∧ 0 ≤ s.fd ∧
    s.established = true ∧ io.takes n = true))

theorem le_sendOnly_iff (s : Session) (buf : List UInt8) (io : IoResult) {n : Nat}
    (hexit : s.status.exiting = false) (hpos : 0 < n) (hn : n ≤ buf.length) :
    (n : Int) ≤ (s.sendOnly buf io).2 ↔ s.WritesDirectly n io := by
  unfold sendOnly
  rw [if_neg (by rw [hexit]; decide)]
  by_cases hidle : (!s.status.writing && s.sendqueue.isEmpty) = true
  · rw [if_pos hidle]
    obtain ⟨hwriting, hqueue⟩ : s.status.writing = false ∧ s.sendqueue = [] := by simpa using hidle
    unfold channelSend kernelTakes
    by_cases hclosed : (s.fd < 0 || !s.established) = true
    · -- no connection, and nothing that is written
      rw [if_pos hclosed]
      have hnot : ¬s.WritesDirectly n io := by
        rintro ⟨-, -, hfd, hest, -⟩
        rw [hest] at hclosed
        simp at hclosed
        omega
      simp only [hnot, iff_false]
      omega
    · rw [if_neg hclosed]
      obtain ⟨hfd, hest⟩ : 0 ≤ s.fd ∧ s.established = true := by simpa using hclosed
      have hasked : s.WritesDirectly n io ↔ io.takes n = true := by
        simp [WritesDirectly, hwriting, hqueue, hfd, hest]
      rw [hasked]
      cases io with
      | wrote k =>
        simp only [IoResult.takes, decide_eq_true_eq]
        omega
      | again => simp [IoResult.takes]; omega
      | interrupted => simp [IoResult.takes]; omega
      | failure => simp [IoResult.takes]; omega
  · -- `_send_only` returns 0 without trying
    rw [if_neg hidle]
    have hnot : ¬s.WritesDirectly n io := by
      rintro ⟨hwriting, hqueue, -⟩
      exact hidle (by simp [hwriting, hqueue])
    simp only [hnot, iff_false]
    omega

/-- The direct write leaves a rest of `buf`. -/
def LeavesRest (s : Session) (buf : List UInt8) (io : IoResult) : Prop :=
  buf ≠ [] ∧ ¬s.WritesDirectly buf.length io

instance (s : Session) (buf : List UInt8) (io : IoResult) : Decidable (s.LeavesRest buf io) :=
  inferInstanceAs (Decidable (buf ≠ [] ∧ ¬s.WritesDirectly buf.length io))

theorem leavesRest_iff (s : Session) (buf : List UInt8) (io : IoResult)
    (hexit : s.status.exiting = false) : s.LeavesRest buf io ↔ (s.sendOnly buf io).2 < buf.length := by
  obtain ⟨n, t, hsent, honly⟩ := sendOnly_cases s buf io hexit
  by_cases hempty : buf = []
  · refine iff_of_false (fun h => h.1 hempty) ?_
    rw [honly, hempty, List.length_nil]
    dsimp only
    omega
  · have hpos : 0 < buf.length := List.length_pos_iff.mpr hempty
    rw [LeavesRest, ← le_sendOnly_iff s buf io hexit hpos (Nat.le_refl _)]
    exact ⟨fun h => Int.not_le.mp h.2, fun h => ⟨hempty, Int.not_le.mpr h⟩⟩

/-- There is memory for a message and for its place in the queue. -/
def StoresRest (s : Session) : Prop := s.allocate.2 = true ∧ s.allocate.1.allocate.2 = true

instance (s : Session) : Decidable s.StoresRest :=
  inferInstanceAs (Decidable (s.allocate.2 = true ∧ s.allocate.1.allocate.2 = true))

/-- The remainder of a payload, as `_send_buffer` queues it. -/
def remainder (buf : List UInt8) (msg n : Nat) : Message :=
  { id := msg, buffer := buf.drop n, sent := buf.take n }

/-- The session when `_send_buffer` has made a message of the rest: it waits for its write event,
with the message in the queue if there is memory for it. -/
def queueRest (s : Session) (buf : List UInt8) (msg n : Nat) : Session :=
  ((s.allocate.1.emit (.messageCreate msg)).queuePush (remainder buf msg n)).1.sessionAddEvent .evWrite

section QueueRest

variable (s : Session) (buf : List UInt8) (msg n : Nat)

@[simp] theorem queueRest_freed : (s.queueRest buf msg n).freed = s.freed := sessionAddEvent_freed _ _

@[simp] theorem queueRest_exiting : (s.queueRest buf msg n).status.exiting = s.status.exiting :=
  sessionAddEvent_exiting _ _

@[simp] theorem queueRest_setting : (s.queueRest buf msg n).setting = s.setting :=
  sessionAddEvent_setting _ _

@[simp] theorem queueRest_trace : (s.queueRest buf msg n).trace = s.trace ++ [.messageCreate msg] :=
  sessionAddEvent_trace _ _

@[simp] theorem queueRest_memory : (s.queueRest buf msg n).memory = s.memory.tail.tail :=
  sessionAddEvent_memory _ _

theorem queueRest_sendqueue : (s.queueRest buf msg n).sendqueue =
    if s.allocate.1.allocate.2 then s.sendqueue ++ [remainder buf msg n] else s.sendqueue :=
  sessionAddEvent_sendqueue _ _

end QueueRest

/-- The outcomes of `_send_buffer`: a beginning of the payload is put on the wire, and a message
is made of the rest, if there is any. -/
inductive SentBuffer (s : Session) (buf : List UInt8) (msg : Nat) (io : IoResult) :
    Session → Int → Prop where
  | refused (hexit : s.status.exiting = true) : SentBuffer s buf msg io s (-1)
  | whole (hexit : s.status.exiting = false) (n : Nat) (t : Session) (hsent : SentDirectly s buf n t)
      (honly : s.sendOnly buf io = (t, (n : Int))) (hall : buf.length ≤ n) : SentBuffer s buf msg io t n
  /-- `message_create` fails, and so does the call, after the direct write. -/
  | noMessage (hexit : s.status.exiting = false) (n : Nat) (t : Session)
      (hsent : SentDirectly s buf n t) (honly : s.sendOnly buf io = (t, (n : Int)))
      (hrest : n < buf.length) (hmemory : t.allocate.2 = false) :
      SentBuffer s buf msg io t.allocate.1 (-2)
  | queued (hexit : s.status.exiting = false) (n : Nat) (t : Session) (hsent : SentDirectly s buf n t)
      (honly : s.sendOnly buf io = (t, (n : Int))) (hrest : n < buf.length)
      (hmemory : t.allocate.2 = true) : SentBuffer s buf msg io (t.queueRest buf msg n) n

theorem sendBuffer_cases (s : Session) (buf : List UInt8) (msg : Nat) (io : IoResult) :
    SentBuffer s buf msg io (s.sendBuffer buf msg io).1 (s.sendBuffer buf msg io).2 := by
  cases hexit : s.status.exiting with
  | true =>
    have hrun : s.sendBuffer buf msg io = (s, -1) := by simp [sendBuffer, sendOnly, hexit]
    rw [hrun]
    exact .refused hexit
  | false =>
    obtain ⟨n, t, hsent, honly⟩ := sendOnly_cases s buf io hexit
    by_cases hrest : n < buf.length
    · have hcast : (0 : Int) ≤ n ∧ (n : Int) < buf.length := by omega
      cases hmemory : t.allocate.2 with
      | false =>
        have hrun : s.sendBuffer buf msg io = (t.allocate.1, -2) := by
          simp only [sendBuffer, honly, hcast, and_self, if_true, hmemory, Bool.not_false]
        rw [hrun]
        exact .noMessage hexit n t hsent honly hrest hmemory
      | true =>
        have hrun : s.sendBuffer buf msg io = (t.queueRest buf msg n, (n : Int)) := by
          simp only [sendBuffer, honly, hcast, and_self, if_true, hmemory, Bool.not_true,
            Bool.false_eq_true, if_false, Int.toNat_natCast]
          rfl
        rw [hrun]
        exact .queued hexit n t hsent honly hrest hmemory
    · have hcast : ¬((0 : Int) ≤ n ∧ (n : Int) < buf.length) := by omega
      have hrun : s.sendBuffer buf msg io = (t, (n : Int)) := by
        simp only [sendBuffer, honly, hcast, if_false]
      rw [hrun]
      exact .whole hexit n t hsent honly (Nat.le_of_not_lt hrest)

/-- Record that `payload` was accepted, if the call that sent it did not fail. -/
def accept (r : Session × Int) (payload : List UInt8) : Session × Int :=
  if 0 ≤ r.2 then (r.1.emit (.accepted payload), r.2) else r

@[simp] theorem accept_memory (r : Session × Int) (payload : List UInt8) :
    (accept r payload).1.memory = r.1.memory := by
  unfold accept
  split <;> rfl

/-- `session_send` -/
def sessionSend (s : Session) (buf : List UInt8) (transform : Transform) (msg : Nat)
    (io : IoResult) : Session × Int :=
  match transform.apply buf with
  | some buf' => accept (s.sendBuffer buf' msg io) buf'
  | none => (s, -1)

/-- `session_sendmessage` -/
def sessionSendmessage (s : Session) (message : Message) (transform : Transform) (msg : Nat)
    (io : IoResult) : Session × Int :=
  let r :=
    match transform with
    | .fresh bytes =>
      let r := accept (s.sendBuffer bytes msg io) bytes
      -- the transformed copy went out on its own
      (if 0 ≤ r.2 then r.1.emit (.messageAddSuccess message.id) else r.1, r.2)
    | .null => (s, -1)
    | _ =>
      let r := s.queuePush message
      accept (if r.2 = 0 then r.1.sessionAddEvent .evWrite else r.1, r.2) message.buffer
  (if r.2 < 0 then r.1.emit (.messageAddFailure message.id) else r.1, r.2)

/-! ### The answers that are used up -/

theorem sendBuffer_memory (s : Session) (buf : List UInt8) (msg : Nat) (io : IoResult) :
    (s.sendBuffer buf msg io).1.memory <:+ s.memory := by
  have hrun := sendBuffer_cases s buf msg io
  generalize s.sendBuffer buf msg io = r at hrun
  obtain ⟨u, rc⟩ := r
  dsimp only at hrun ⊢
  cases hrun with
  | refused => exact List.suffix_rfl
  | whole _ n _ hsent => exact hsent.memory ▸ List.suffix_rfl
  | noMessage _ n t hsent => exact hsent.memory ▸ List.tail_suffix _
  | queued _ n t hsent =>
    rw [queueRest_memory, hsent.memory]
    exact (List.tail_suffix _).trans (List.tail_suffix _)

theorem sessionSendmessage_memory (s : Session) (message : Message) (transform : Transform) (msg : Nat)
    (io : IoResult) : (s.sessionSendmessage message transform msg io).1.memory <:+ s.memory := by
  -- what is counted does not concern the allocator
  have hcount : ∀ (r : Session × Int) (e : Effect),
      (if r.2 < 0 then r.1.emit e else r.1).memory = r.1.memory := fun r e => by
    split <;> rfl
  unfold sessionSendmessage
  rw [hcount]
  have hpush : (accept (if (s.queuePush message).2 = 0 then
      (s.queuePush message).1.sessionAddEvent .evWrite else (s.queuePush message).1,
      (s.queuePush message).2) message.buffer).1.memory <:+ s.memory := by
    rw [accept_memory]
    dsimp only
    split
    · rw [sessionAddEvent_memory]
      exact List.tail_suffix _
    · exact List.tail_suffix _
  cases transform with
  | absent => exact hpush
  | same => exact hpush
  | null => exact List.suffix_rfl
  | fresh bytes =>
    have hsent : (accept (s.sendBuffer bytes msg io) bytes).1.memory <:+ s.memory := by
      rw [accept_memory]
      exact sendBuffer_memory s bytes msg io
    dsimp only
    split <;> exact hsent

/-! ## The queued path -/

/-- The vectors `channel_transmit` builds from the queue: at most `slots` of them, the
first `offset` bytes skipped, and no vector for a message that has nothing left. -/
def iovArray (slots offset : Nat) (q : List Message) : List (List UInt8) :=
  Lib.ChunkQueue.gather Message.buffer slots offset q

/-- The messages that are sent completely once `offset` bytes of the queue are, the offset
into the first remaining message, and the remaining messages. -/
def popSent (offset : Nat) (q : List Message) : List Message × Nat × List Message :=
  Lib.ChunkQueue.advance Message.buffer offset q

/-- Count a message that left the queue and release it if it was the last. -/
def sentEffects (m : Message) : List Effect := [.messageAddSuccess m.id, .messageRelease m.id]

/-- What one successful `writev` of `n` bytes does to the session. -/
def transmitted (s : Session) (iov : List (List UInt8)) (n : Nat) : Session :=
  let r := popSent (s.msgoffset + n) s.sendqueue
  { (s.emit (.wrote (iov.flatten.take n))).emits (r.1.flatMap sentEffects) with
    sendqueue := r.2.2
    msgoffset := r.2.1 }

/-- The loop of `channel_transmit`; one answer of the list is used up by each `writev`,
and after the last one the socket buffer is full. -/
def channelTransmitLoop (iovMax : Nat) : List IoResult → Int → Session → Session × Int
  | [], total, s => (s, total)
  | io :: ios, total, s =>
    if s.sendqueue.isEmpty then (s, total)
    else
      let iov := iovArray iovMax s.msgoffset s.sendqueue
      match s.kernelTakes iov.flatten io with
      | .ok 0 => (s, 0)
      | .ok n => channelTransmitLoop iovMax ios (total + n) (s.transmitted iov n)
      | .error .again => (s, total)
      | .error _ => (s, -1)

/-- `channel_transmit` -/
def channelTransmit (s : Session) (iovMax : Nat) (ios : List IoResult) : Session × Int :=
  channelTransmitLoop iovMax ios 0 s

/-- `driver_transmit` as far as the send queue is concerned: messages are handed over one
at a time for as long as the driver takes them. -/
def driverTransmit : List IoResult → Int → Session → Session × Int
  | [], written, s => (s, written)
  | io :: ios, written, s =>
    match s.sendqueue, io with
    | [], _ => (s, written)
    | m :: q, .wrote n =>
      driverTransmit ios (written + n)
        { (s.emit (.wrote m.buffer)).emits (sentEffects m) with sendqueue := q }
    | _ :: _, _ => (s, written)

/-- `setting.transmit` -/
def settingTransmit (s : Session) (iovMax : Nat) (ios : List IoResult) : Session × Int :=
  if s.type = .shared then driverTransmit ios 0 s else s.channelTransmit iovMax ios

/-- What a transmission can change: the queue, the offset and the trace, where it records
what it wrote and which messages it is done with. -/
def SentFrame (s t : Session) : Prop :=
  ∃ sendqueue msgoffset effects, (∀ e ∈ effects, e.ofTransmission = true) ∧ t =
    { s with sendqueue := sendqueue, msgoffset := msgoffset, trace := s.trace ++ effects }

theorem SentFrame.refl (s : Session) : SentFrame s s :=
  ⟨s.sendqueue, s.msgoffset, [], by simp, by rw [List.append_nil]⟩

theorem SentFrame.trans {s t u : Session} (h₁ : SentFrame s t) (h₂ : SentFrame t u) :
    SentFrame s u := by
  obtain ⟨q₁, off₁, es₁, hes₁, rfl⟩ := h₁
  obtain ⟨q₂, off₂, es₂, hes₂, rfl⟩ := h₂
  refine ⟨q₂, off₂, es₁ ++ es₂, fun e he => ?_, by simp only [List.append_assoc]⟩
  exact (List.mem_append.mp he).elim (hes₁ e) (hes₂ e)

theorem sentEffects_ofTransmission (m : Message) :
    ∀ e ∈ sentEffects m, e.ofTransmission = true := by
  simp [sentEffects, Effect.ofTransmission]

theorem transmitted_frame (s : Session) (iov : List (List UInt8)) (n : Nat) :
    SentFrame s (s.transmitted iov n) := by
  refine ⟨(popSent (s.msgoffset + n) s.sendqueue).2.2, (popSent (s.msgoffset + n) s.sendqueue).2.1,
    .wrote (iov.flatten.take n) :: (popSent (s.msgoffset + n) s.sendqueue).1.flatMap sentEffects,
    fun e he => ?_, by simp only [transmitted, emit, emits, List.append_assoc, List.singleton_append]⟩
  rcases List.mem_cons.mp he with rfl | he
  · rfl
  · obtain ⟨m, -, hm⟩ := List.mem_flatMap.mp he
    exact sentEffects_ofTransmission m e hm

theorem channelTransmitLoop_frame (iovMax : Nat) (ios : List IoResult) (total : Int) (s : Session) :
    SentFrame s (channelTransmitLoop iovMax ios total s).1 := by
  induction ios generalizing s total with
  | nil => exact .refl s
  | cons io ios ih =>
    unfold channelTransmitLoop
    split
    · exact .refl s
    · dsimp only
      split
      · exact .refl s
      · exact (transmitted_frame s _ _).trans (ih _ _)
      · exact .refl s
      · exact .refl s

theorem driverTransmit_frame (ios : List IoResult) (written : Int) (s : Session) :
    SentFrame s (driverTransmit ios written s).1 := by
  induction ios generalizing s written with
  | nil => exact .refl s
  | cons io ios ih =>
    unfold driverTransmit
    split
    · exact .refl s
    · rename_i m q n hqueue
      have hsent : SentFrame s
          { (s.emit (.wrote m.buffer)).emits (sentEffects m) with sendqueue := q } := by
        refine ⟨q, s.msgoffset, .wrote m.buffer :: sentEffects m, fun e he => ?_,
          by simp only [emit, emits, List.append_assoc, List.singleton_append]⟩
        rcases List.mem_cons.mp he with rfl | he
        · rfl
        · exact sentEffects_ofTransmission m e he
      exact hsent.trans (ih _ _)
    · exact .refl s

/-- A transmission changes the queue, the offset and the trace only. -/
theorem settingTransmit_frame (s : Session) (iovMax : Nat) (ios : List IoResult) :
    SentFrame s (s.settingTransmit iovMax ios).1 := by
  unfold settingTransmit
  split
  · exact driverTransmit_frame ios 0 s
  · exact channelTransmitLoop_frame iovMax ios 0 s

end Session

end Evlite
