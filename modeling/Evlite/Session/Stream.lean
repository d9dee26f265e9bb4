import Evlite.Session.Ops

/-!
# The Byte Stream of a Session

What a session puts on its connections, compared with the payloads it accepted. The
direct path and the queued path share the queue and its one offset; both are shown to
`Carries` the stream: the bytes on the wire followed by the bytes still unsent grow by the
newly accepted payloads and by nothing else, as long as there is memory for what has to wait.

## Main results

- `opRun_carries`: every primitive operation carries the stream.
- `transmitted_carries`: so does one gathered write of any length.
- `step_stream`: a step of a TCP session carries the stream, opens a new connection, or
  takes the queue away to send it anew.
-/

namespace Evlite

open Lib.ChunkQueue

/-! ## Wires -/

/-- What a session's connections have carried so far, and the payloads accepted. -/
structure Wires where
  closed : List (List UInt8) := []
  wire : List UInt8 := []
  accepted : List (List UInt8) := []
deriving DecidableEq, Repr

/-- Record one effect. -/
def Wires.record (w : Wires) : Effect → Wires
  | .wrote bytes => { w with wire := w.wire ++ bytes }
  | .accepted payload => { w with accepted := w.accepted ++ [payload] }
  | .connect _ => { w with closed := w.closed ++ [w.wire], wire := [] }
  | _ => w

theorem Wires.record_note (w : Wires) {e : Effect} (h : e.isNote = true) : w.record e = w := by
  cases e <;> first | rfl | simp [Effect.isNote] at h

theorem Wires.foldl_note (w : Wires) {es : List Effect} (h : ∀ e ∈ es, e.isNote = true) :
    es.foldl Wires.record w = w := by
  induction es with
  | nil => rfl
  | cons e es ih =>
    rw [List.foldl_cons, Wires.record_note w (h e List.mem_cons_self)]
    exact ih fun e' he' => h e' (List.mem_cons_of_mem _ he')

namespace Session

/-- The wires of a session, read off its trace. -/
def wires (s : Session) : Wires := s.trace.foldl Wires.record {}

/-- The bytes written on each of the session's connections. -/
def connections (s : Session) : List (List UInt8) := s.wires.closed ++ [s.wires.wire]

theorem wires_of_trace {s t : Session} (h : t.trace = s.trace) : t.wires = s.wires := by
  rw [wires, wires, h]

theorem wires_append {s t : Session} (es : List Effect) (h : t.trace = s.trace ++ es) :
    t.wires = es.foldl Wires.record s.wires := by
  rw [wires, h, List.foldl_append, wires]

@[simp] theorem wires_emit (s : Session) (e : Effect) : (s.emit e).wires = s.wires.record e :=
  wires_append [e] rfl

/-- The offset of the session points into the first message of its queue. -/
def QueueAligned (s : Session) : Prop := Aligned Message.buffer s.msgoffset s.sendqueue

/-! ## Waiting for a connection

`_reconnected` is installed on `evwrite` by `channel_on_reconnect` only, and gives way to
`channel_on_write` at the next registration of the write event. -/

/-- A step after which no event newly waits for `_reconnected`. -/
structure WaitsOnly (s t : Session) : Prop where
  awaits : ∀ w, (t.event w).cb = some .reconnected → (s.event w).cb = some .reconnected
  held : t.evwrite.cb = some .reconnected → t.status.writing = true → s.status.writing = true

theorem WaitsOnly.refl (s : Session) : WaitsOnly s s := ⟨fun _ => id, fun _ => id⟩

/-- A step that leaves the events and `SESSION_WRITING` alone. -/
theorem WaitsOnly.same {s t : Session}
    (h : (t.evread, t.evwrite, t.evkeepalive, t.status.writing) =
      (s.evread, s.evwrite, s.evkeepalive, s.status.writing)) : WaitsOnly s t := by
  simp only [Prod.mk.injEq] at h
  obtain ⟨hread, hwrite, hkeep, hwriting⟩ := h
  refine ⟨fun w => ?_, fun _ => ?_⟩
  · cases w <;> simp only [event, hread, hwrite, hkeep] <;> exact id
  · rw [hwriting]; exact id

theorem WaitsOnly.trans {s t u : Session} (h₁ : WaitsOnly s t) (h₂ : WaitsOnly t u) :
    WaitsOnly s u :=
  ⟨fun w hw => h₁.awaits w (h₂.awaits w hw),
    fun hw hu => h₁.held (h₂.awaits .evwrite hw) (h₂.held hw hu)⟩

theorem addReadEvent_waits (s : Session) (ev : EvMask) : WaitsOnly s (s.addReadEvent ev) := by
  unfold addReadEvent
  split
  · refine ⟨fun w => ?_, fun _ => id⟩
    cases w with
    | evread => simp [event]
    | _ => exact id
  · exact .refl s

theorem addWriteEvent_waits (s : Session) (ev : EvMask) : WaitsOnly s (s.addWriteEvent ev) := by
  unfold addWriteEvent
  split
  · refine ⟨fun w => ?_, by simp⟩
    cases w with
    | evwrite => simp [event]
    | _ => exact id
  · exact .refl s

theorem sessionAddEvent_waits (s : Session) (ev : EvMask) : WaitsOnly s (s.sessionAddEvent ev) :=
  (addReadEvent_waits s ev).trans (addWriteEvent_waits _ ev)

theorem sessionDelEvent_waits (s : Session) (ev : EvMask) : WaitsOnly s (s.sessionDelEvent ev) := by
  unfold sessionDelEvent delWriteEvent delReadEvent
  refine ⟨fun w => ?_, ?_⟩
  · cases w <;> split <;> split <;> exact id
  · split <;> split <;> simp

theorem sessionReaddEvent_waits (s : Session) : WaitsOnly s (s.sessionReaddEvent .evRead) := by
  refine WaitsOnly.trans ⟨fun w => ?_, fun _ h => ?_⟩ (sessionAddEvent_waits _ .evRead)
  · cases w <;> exact id
  · simp only [EvMask.evRead, Bool.not_false, Bool.and_true] at h
    exact h

theorem sessionStartKeepalive_waits (s : Session) : WaitsOnly s s.sessionStartKeepalive := by
  unfold sessionStartKeepalive
  split
  · refine ⟨fun w => ?_, fun _ => id⟩
    cases w with
    | evkeepalive => simp [event]
    | _ => exact id
  · exact .refl s

theorem stopEvents_waits (s : Session) : WaitsOnly s s.stopEvents := by
  refine ⟨fun w => ?_, by simp [stopEvents]⟩
  cases w <;> simp only [stopEvents, event] <;> split <;> exact id

/-! ## Carrying the stream -/

/-- A step on one connection: if there is memory, no byte is lost, duplicated or reordered, as
long as the session lives, and none that was not accepted is written. -/
structure Carries (s t : Session) : Prop where
  closed : t.wires.closed = s.wires.closed
  established : t.established = s.established
  type : t.type = s.type
  memory : t.memory <:+ s.memory
  idle : s.established = false → t.wires.wire = s.wires.wire
  waits : WaitsOnly s t
  alive : t.freed = false → s.freed = false
  gone : s.freed = true → t.wires = s.wires ∧ t.sendqueue = s.sendqueue
  stream : s.HasMemory → s.QueueAligned → ∃ new : List (List UInt8),
    t.wires.accepted = s.wires.accepted ++ new ∧
    (∀ m ∈ t.sendqueue, m ∈ s.sendqueue ∨ m.payload ∈ new) ∧ t.QueueAligned ∧
    t.wires.wire <+: s.wires.wire ++ s.unsent ++ new.flatten ∧
    (t.freed = false → t.wires.wire ++ t.unsent = s.wires.wire ++ s.unsent ++ new.flatten)

/-- A step that leaves the queue and the wires alone. -/
theorem Carries.quiet {s t : Session} (hwires : t.wires = s.wires)
    (hqueue : t.sendqueue = s.sendqueue) (hoffset : t.msgoffset = s.msgoffset)
    (hest : t.established = s.established) (hfreed : t.freed = s.freed) (htype : t.type = s.type)
    (hmemory : t.memory <:+ s.memory) (hwaits : WaitsOnly s t) : Carries s t where
  closed := by rw [hwires]
  established := hest
  type := htype
  memory := hmemory
  idle _ := by rw [hwires]
  waits := hwaits
  alive := hfreed ▸ id
  gone _ := ⟨hwires, hqueue⟩
  stream _ hal := by
    have hunsent : t.unsent = s.unsent := by rw [unsent, unsent, hqueue, hoffset]
    refine ⟨[], by simp [hwires], fun m hm => .inl (hqueue ▸ hm), ?_, ?_, fun _ => ?_⟩
    · rwa [QueueAligned, hqueue, hoffset]
    · rw [hwires]
      simp
    · rw [hwires, hunsent]
      simp

/-- Accepting a payload: a beginning of it goes on the wire if nothing else is waiting, and
the rest, if there is any, into the queue if there is memory for it. -/
theorem Carries.accepted {s t : Session} (payload : List UInt8) (n : Nat) (rest : List Message)
    (halive : s.freed = false) (hdirect : 0 < n → s.sendqueue = [] ∧ s.established = true)
    (hwires : t.wires = { s.wires with
      wire := s.wires.wire ++ payload.take n
      accepted := s.wires.accepted ++ [payload] })
    (hqueue : s.HasMemory → t.sendqueue = s.sendqueue ++ rest)
    (hrest : (rest.map Message.buffer).flatten = payload.drop n)
    (hpayload : ∀ m ∈ rest, m.payload = payload)
    (hoffset : t.msgoffset = s.msgoffset) (hest : t.established = s.established)
    (hfreed : t.freed = s.freed) (htype : t.type = s.type) (hmemory : t.memory <:+ s.memory)
    (hwaits : WaitsOnly s t) : Carries s t where
  closed := by rw [hwires]
  established := hest
  type := htype
  memory := hmemory
  idle hidle := by
    -- without a connection nothing is written
    have hzero : n = 0 := by
      rcases Nat.eq_zero_or_pos n with h | h
      · exact h
      · simp [(hdirect h).2] at hidle
    simp [hwires, hzero]
  waits := hwaits
  alive := hfreed ▸ id
  gone h := by simp [halive] at h
  stream hmem hal := by
    have hqueue := hqueue hmem
    have hal' : t.QueueAligned := by
      rw [QueueAligned, hqueue, hoffset]
      exact hal.append rest
    have hstream : t.wires.wire ++ t.unsent = s.wires.wire ++ s.unsent ++ [payload].flatten := by
      have hunsent : t.unsent = s.unsent ++ payload.drop n := by
        rw [unsent, unsent, hqueue, hoffset, pending_append hal, hrest]
      rw [hunsent, hwires]
      rcases Nat.eq_zero_or_pos n with h | h
      · simp [h]
      · -- bytes are written directly only past an empty queue
        have hempty : s.unsent = [] := by rw [unsent, (hdirect h).1, pending_nil]
        simp [hempty]
    refine ⟨[payload], by rw [hwires], ?_, hal', ?_, fun _ => hstream⟩
    · intro m hm
      rw [hqueue, List.mem_append] at hm
      exact hm.imp_right fun hm => by simp [hpayload m hm]
    · rw [← hstream]
      exact List.prefix_append _ _

/-! ## The primitive operations -/

theorem lostEffects_note (q : List Message) : ∀ e ∈ q.flatMap lostEffects, e.isNote = true := by
  intro e he
  obtain ⟨m, -, hm⟩ := List.mem_flatMap.mp he
  rcases List.mem_cons.mp hm with rfl | hm
  · rfl
  · rw [List.mem_singleton.mp hm]; rfl

theorem stopEffects_note (s : Session) : ∀ e ∈ s.stopEffects, e.isNote = true := by
  intro e he
  rcases List.mem_append.mp he with he | he
  · obtain ⟨t, -, rfl⟩ := List.mem_map.mp he
    rfl
  · unfold closeEffects at he
    split at he
    · rw [List.mem_singleton.mp he]; rfl
    · cases he

theorem endEffects_note (s : Session) : ∀ e ∈ s.endEffects, e.isNote = true := by
  intro e he
  rcases List.mem_append.mp he with he | he
  · exact lostEffects_note _ e he
  · exact stopEffects_note s e he

/-- Registering events is quiet. -/
theorem Carries.registered {s t : Session} (hcore : t.core = s.core) (hwaits : WaitsOnly s t) :
    Carries s t :=
  .quiet (wires_of_trace (core_trace hcore)) (core_sendqueue hcore) (core_msgoffset hcore)
    (core_established hcore) (core_freed hcore) (core_type hcore)
    (core_memory hcore ▸ List.suffix_rfl) hwaits

/-- What the direct write puts on the wire. -/
theorem SentDirectly.wires {s t : Session} {buf : List UInt8} {n : Nat} (h : SentDirectly s buf n t) :
    t.wires = { s.wires with wire := s.wires.wire ++ buf.take n } := by
  cases h with
  | nothing => simp
  | bytes => simp [Wires.record]

/-- Bytes are written directly only past an empty queue, and on a connection. -/
theorem SentDirectly.idle {s t : Session} {buf : List UInt8} {n : Nat} (h : SentDirectly s buf n t)
    (hpos : 0 < n) : s.sendqueue = [] ∧ s.established = true := by
  cases h with
  | nothing => omega
  | bytes _ _ _ hqueue _ hest => exact ⟨hqueue, hest⟩

/-- Sending carries the stream, whatever way the bytes go. -/
private theorem run_send_carries (s : Session) (halive : s.freed = false) (buf : List UInt8)
    (msg : Nat) (io : IoResult) : Carries s ((Op.send buf msg io).run s) := by
  have hrun := Op.run_send s buf msg io
  generalize (Op.send buf msg io).run s = u at hrun ⊢
  have hsame : ∀ {n t}, SentDirectly s buf n t → t.sendqueue = s.sendqueue ∧
      t.msgoffset = s.msgoffset ∧ t.memory = s.memory ∧ WaitsOnly s t := by
    intro n t hsent
    cases hsent <;> exact ⟨rfl, rfl, rfl, .same rfl⟩
  cases hrun with
  | refused => exact .quiet rfl rfl rfl rfl rfl rfl List.suffix_rfl (.same rfl)
  | whole _ n t hsent hall =>
    -- everything is on the wire
    obtain ⟨hqueue, hoffset, hmemory, hwaits⟩ := hsame hsent
    obtain ⟨hfreed, htype, -, hest⟩ := hsent.fixed
    refine .accepted buf n [] halive hsent.idle ?_ (fun _ => ?_) ?_ (by simp) hoffset hest hfreed
      htype (hmemory ▸ List.suffix_rfl) (hwaits.trans (.same rfl))
    · simp [Wires.record, hsent.wires]
    · simpa [emit] using hqueue
    · simpa using (List.drop_eq_nil_of_le hall).symm
  | noMessage n t hsent _ hnone =>
    obtain ⟨hqueue, hoffset, hmemory, hwaits⟩ := hsame hsent
    obtain ⟨hfreed, htype, -, hest⟩ := hsent.fixed
    have hwires : t.allocate.1.wires = t.wires := rfl
    refine ⟨?_, hest, htype, hmemory ▸ List.tail_suffix _, fun hidle => ?_, hwaits.trans (.same rfl),
      fun h => hfreed.symm.trans h, fun h => by simp [halive] at h, fun hmem _ => ?_⟩
    · rw [hwires, hsent.wires]
    · have hzero : n = 0 := by
        rcases Nat.eq_zero_or_pos n with h | h
        · exact h
        · simp [(hsent.idle h).2] at hidle
      simp [hwires, hsent.wires, hzero]
    · -- with memory, this does not happen
      have hthere := (hmem.of_suffix (t := t) (hmemory ▸ List.suffix_rfl)).allocate
      simp [hnone] at hthere
  | queued _ n t hsent hrest =>
    -- the rest is queued
    obtain ⟨hqueue, hoffset, hmemory, hwaits⟩ := hsame hsent
    obtain ⟨hfreed, htype, -, hest⟩ := hsent.fixed
    have hmade : t.allocate.1.memory <:+ s.memory := hmemory ▸ List.tail_suffix _
    have hwires : (t.queueRest buf msg n).wires = t.wires := by
      rw [queueRest, wires_of_trace (sessionAddEvent_trace _ _)]
      exact wires_emit t.allocate.1 (.messageCreate msg)
    refine .accepted buf n [remainder buf msg n] halive hsent.idle ?_ (fun hmem => ?_) ?_ ?_ ?_ ?_
      ?_ ?_ ?_ ?_
    · rw [wires_emit, hwires, hsent.wires]
      rfl
    · have hroom : (t.allocate.1.emit (.messageCreate msg)).allocate.2 = true :=
        (hmem.of_suffix (t := t.allocate.1) hmade).allocate
      show (t.queueRest buf msg n).sendqueue = _
      rw [queueRest, sessionAddEvent_sendqueue, queuePush_of_memory _ hroom, ← hqueue]
      rfl
    · simp [remainder]
    · intro m hm
      rw [List.mem_singleton.mp hm, Message.payload, remainder]
      exact List.take_append_drop n buf
    · exact (sessionAddEvent_msgoffset _ _).trans hoffset
    · exact (sessionAddEvent_established _ _).trans hest
    · exact (sessionAddEvent_freed _ _).trans hfreed
    · exact (sessionAddEvent_type _ _).trans htype
    · show (t.queueRest buf msg n).memory <:+ s.memory
      rw [queueRest, sessionAddEvent_memory]
      exact (List.tail_suffix _).trans hmade
    · have hqueued : WaitsOnly t
          ((t.allocate.1.emit (.messageCreate msg)).queuePush (remainder buf msg n)).1 := .same rfl
      exact (hwaits.trans hqueued).trans ((sessionAddEvent_waits _ .evWrite).trans (.same rfl))

/-- Ending a session writes nothing. -/
theorem sessionEnd_carries (s : Session) (halive : s.freed = false) : Carries s s.sessionEnd := by
  have hwires : s.sessionEnd.wires = s.wires := by
    rw [wires_append (s := s) s.endEffects (by rw [sessionEnd_eq])]
    exact Wires.foldl_note _ (endEffects_note s)
  refine ⟨by rw [hwires], by rw [sessionEnd_eq]; rfl, by rw [sessionEnd_eq]; rfl,
    by rw [sessionEnd_eq]; exact List.suffix_rfl, fun _ => by rw [hwires], ?_, ?_,
    fun h => by simp [halive] at h, fun _ => ?_⟩
  · rw [sessionEnd_eq]
    exact ⟨(stopEvents_waits s).awaits, by simp⟩
  · simp [sessionEnd_eq]
  · intro _
    refine ⟨[], by simp [hwires], ?_, ?_, ?_, ?_⟩
    · simp [sessionEnd_eq]
    · simp [sessionEnd_eq, QueueAligned, Aligned]
    · simp [hwires]
    · simp [sessionEnd_eq]

/-- Every primitive operation carries the stream. -/
theorem opRun_carries (op : Op) (s : Session) (hen : op.Enabled s) : Carries s (op.run s) := by
  cases op with
  | note e =>
    refine .quiet ?_ rfl rfl rfl rfl rfl List.suffix_rfl (.same rfl)
    exact (wires_emit s e).trans (Wires.record_note _ hen.1)
  | configure setting => exact .quiet rfl rfl rfl rfl rfl rfl List.suffix_rfl (.same rfl)
  | buffer bytes => exact .quiet rfl rfl rfl rfl rfl rfl List.suffix_rfl (.same rfl)
  | schedule t => exact .quiet rfl rfl rfl rfl rfl rfl List.suffix_rfl (.same rfl)
  | cancel t => exact .quiet rfl rfl rfl rfl rfl rfl List.suffix_rfl (.same rfl)
  | close => exact .quiet rfl rfl rfl rfl rfl rfl List.suffix_rfl (.same rfl)
  | addRead => exact .registered (sessionAddEvent_core s _) (sessionAddEvent_waits s _)
  | addWrite => exact .registered (sessionAddEvent_core s _) (sessionAddEvent_waits s _)
  | readdRead => exact .registered (sessionReaddEvent_core s _) (sessionReaddEvent_waits s)
  | startKeepalive =>
    exact .registered (sessionStartKeepalive_core s) (sessionStartKeepalive_waits s)
  | send buf msg io => exact run_send_carries s hen buf msg io
  | push m =>
    -- a broadcast message is queued as a whole
    have hsent : m.sent = [] := hen.2
    rcases Op.run_push s m with ⟨-, hrun⟩ | ⟨-, hrun⟩
    · rw [hrun]
      refine .accepted m.buffer 0 [m] hen.1 (by simp) ?_ (fun hmem => ?_) (by simp) ?_ ?_ ?_ ?_ ?_ ?_ ?_
      · rw [wires_emit, wires_of_trace (sessionAddEvent_trace _ _)]
        show s.wires.record (.accepted m.buffer) = _
        simp [Wires.record]
      · show ((s.queuePush m).1.sessionAddEvent .evWrite).sendqueue = _
        rw [sessionAddEvent_sendqueue, queuePush_of_memory m hmem.allocate]
      · intro m' hm'
        rw [List.mem_singleton.mp hm', Message.payload, hsent, List.nil_append]
      · exact sessionAddEvent_msgoffset _ _
      · exact sessionAddEvent_established _ _
      · exact sessionAddEvent_freed _ _
      · exact sessionAddEvent_type _ _
      · show ((s.queuePush m).1.sessionAddEvent .evWrite).memory <:+ s.memory
        rw [sessionAddEvent_memory]
        exact List.tail_suffix _
      · have hpush : WaitsOnly s (s.queuePush m).1 := .same rfl
        exact hpush.trans ((sessionAddEvent_waits _ .evWrite).trans (.same rfl))
    · -- or not at all
      rw [hrun]
      exact .quiet rfl rfl rfl rfl rfl rfl (List.tail_suffix _) (.same rfl)
  | drain =>
    refine .quiet ?_ ?_ ?_ ?_ ?_ ?_ ?_ ?_
    · rw [Op.run, wires_of_trace (sessionAddEvent_trace _ _), wires_of_trace (sessionDelEvent_trace _ _)]
      exact wires_emit s _
    · simp [Op.run, emit]
    · simp [Op.run, emit]
    · simp [Op.run, emit]
    · simp [Op.run, emit]
    · simp [Op.run, emit]
    · rw [Op.run, sessionAddEvent_memory, core_memory (sessionDelEvent_core _ _)]
      exact List.suffix_rfl
    · have hexit : WaitsOnly s { s.emit (.drain s.status s.evwrite.cb) with
          status := { s.status with exiting := true } } := .same rfl
      exact hexit.trans ((sessionDelEvent_waits _ _).trans (sessionAddEvent_waits _ _))
  | finish => exact sessionEnd_carries s hen

/-! ## Transmitting -/

/-- One `writev` of the gathered vector carries the stream. -/
theorem transmitted_carries (s : Session) (halive : s.freed = false) (slots n : Nat)
    (hest : s.established = true)
    (hn : n ≤ (iovArray slots s.msgoffset s.sendqueue).flatten.length) :
    Carries s (s.transmitted (iovArray slots s.msgoffset s.sendqueue) n) := by
  have hnotes : ∀ e ∈ (popSent (s.msgoffset + n) s.sendqueue).1.flatMap sentEffects,
      e.isNote = true := by
    intro e he
    obtain ⟨m, -, hm⟩ := List.mem_flatMap.mp he
    rcases List.mem_cons.mp hm with rfl | hm
    · rfl
    · rw [List.mem_singleton.mp hm]; rfl
  -- the vector is the beginning of what is unsent
  have hprefix : (iovArray slots s.msgoffset s.sendqueue).flatten <+: s.unsent :=
    gather_isPrefix slots s.msgoffset s.sendqueue
  have htake : (iovArray slots s.msgoffset s.sendqueue).flatten.take n = s.unsent.take n := by
    obtain ⟨rest, hrest⟩ := hprefix
    rw [← hrest, List.take_append_of_le_length hn]
  have hwires : (s.transmitted (iovArray slots s.msgoffset s.sendqueue) n).wires =
      { s.wires with wire := s.wires.wire ++ s.unsent.take n } := by
    rw [← htake, wires_append (s := s.emit (.wrote _)) _ rfl, Wires.foldl_note _ hnotes, wires_emit]
    rfl
  refine ⟨by rw [hwires], rfl, rfl, List.suffix_rfl, fun h => absurd hest (by simp [h]), .same rfl, id,
    fun h => by simp [halive] at h, fun _ hal => ?_⟩
  have hbound : s.msgoffset + n ≤ ((s.sendqueue.map Message.buffer).flatten).length := by
    have hoffset := hal.le_length
    have hunsent := Nat.le_trans hn hprefix.length_le
    rw [unsent, pending, List.length_drop] at hunsent
    omega
  obtain ⟨hpending, halign⟩ := advance_pending (f := Message.buffer) _ s.sendqueue hbound
  have hrest : (s.transmitted (iovArray slots s.msgoffset s.sendqueue) n).unsent =
      s.unsent.drop n := by
    have hdrop : s.unsent.drop n = ((s.sendqueue.map Message.buffer).flatten).drop (s.msgoffset + n) := by
      rw [unsent, pending, List.drop_drop]
    rw [hdrop]
    exact hpending
  refine ⟨[], by simp [hwires], ?_, halign, ?_, fun _ => ?_⟩
  · intro m hm
    left
    have hsplit := advance_append (f := Message.buffer) (s.msgoffset + n) s.sendqueue
    rw [← hsplit]
    exact List.mem_append_right _ hm
  · rw [hwires]
    simpa using List.take_prefix n s.unsent
  · rw [hwires, hrest]
    simp

/-- A whole transmission is a sequence of such writes. -/
theorem channelTransmit_carries (s : Session) (halive : s.freed = false) (iovMax : Nat) (ios : List IoResult) :
    Relation.ReflTransGen Carries s (s.channelTransmit iovMax ios).1 := by
  unfold channelTransmit
  generalize (0 : Int) = total
  induction ios generalizing s total with
  | nil => exact .refl
  | cons io ios ih =>
    unfold channelTransmitLoop
    split
    · exact .refl
    · dsimp only
      cases hkernel : s.kernelTakes (iovArray iovMax s.msgoffset s.sendqueue).flatten io with
      | error e => cases e <;> exact .refl
      | ok n =>
        cases n with
        | zero => exact .refl
        | succ n =>
          obtain ⟨hest, hn⟩ := kernelTakes_ok hkernel
          exact .head (transmitted_carries s halive iovMax (n + 1) hest hn) (ih (s.transmitted _ _) halive _)

/-! ## Steps of the system -/

/-- A sequence of steps that carry the stream. -/
abbrev Carried : Session → Session → Prop := Relation.ReflTransGen Carries

theorem Carried.waits {s t : Session} (h : Carried s t) : WaitsOnly s t := by
  induction h with
  | refl => exact .refl s
  | tail _ hstep ih => exact ih.trans hstep.waits

theorem Carried.closed {s t : Session} (h : Carried s t) : t.wires.closed = s.wires.closed := by
  induction h with
  | refl => rfl
  | tail _ hstep ih => exact hstep.closed.trans ih

theorem Carried.established {s t : Session} (h : Carried s t) :
    t.established = s.established := by
  induction h with
  | refl => rfl
  | tail _ hstep ih => exact hstep.established.trans ih

theorem Carried.idle {s t : Session} (h : Carried s t) (hest : s.established = false) :
    t.wires.wire = s.wires.wire := by
  induction h with
  | refl => rfl
  | tail hpre hstep ih => exact (hstep.idle ((Carried.established hpre).trans hest)).trans ih

theorem Carried.type {s t : Session} (h : Carried s t) : t.type = s.type := by
  induction h with
  | refl => rfl
  | tail _ hstep ih => exact hstep.type.trans ih

theorem Carried.memory {s t : Session} (h : Carried s t) : t.memory <:+ s.memory := by
  induction h with
  | refl => exact List.suffix_rfl
  | tail _ hstep ih => exact hstep.memory.trans ih

theorem Carried.alive {s t : Session} (h : Carried s t) (ht : t.freed = false) :
    s.freed = false := by
  induction h with
  | refl => exact ht
  | tail _ hstep ih => exact ih (hstep.alive ht)

theorem Ops.carried {s t : Session} (h : Ops s t) : Carried s t := by
  induction h with
  | refl => exact .refl
  | tail _ hop ih =>
    obtain ⟨op, hen, rfl⟩ := hop
    exact ih.tail (opRun_carries op _ hen)

theorem sessionStartReconnect_carries (s : Session) : Carries s s.sessionStartReconnect.1 := by
  by_cases h : s.status.exiting = true ∨ s.status.writing = true
  · rw [sessionStartReconnect_refused s h]
    exact .quiet (wires_emit s _) rfl rfl rfl rfl rfl List.suffix_rfl (.same rfl)
  · have hfree : s.status.exiting = false ∧ s.status.writing = false := by simpa using h
    rw [sessionStartReconnect_eq s hfree.1 hfree.2]
    refine .quiet ?_ rfl rfl rfl rfl rfl List.suffix_rfl ⟨fun w => ?_, by simp [reconnectEvent]⟩
    · rw [wires_append (s := s) _ rfl, List.foldl_cons]
      exact Wires.foldl_note s.wires (stopEffects_note _)
    · cases w with
      | evwrite => simp [event, reconnectEvent]
      | evread => exact (stopEvents_waits s).awaits .evread
      | evkeepalive => exact (stopEvents_waits s).awaits .evkeepalive

theorem Outcome.carried {s t : Session} (h : Outcome s t) : Carried s t := by
  cases h with
  | settled h => exact h.carried
  | reconnect u h _ _ ht => exact h.carried.tail (ht ▸ sessionStartReconnect_carries u)

/-- Taking an event off the active list, or putting it there, is quiet. -/
theorem Carries.setEvent (s : Session) (w : Which) (e : EventView Handler)
    (hcb : e.cb = (s.event w).cb) : Carries s (s.setEvent w e) := by
  cases w <;> refine .quiet rfl rfl rfl rfl rfl rfl List.suffix_rfl ⟨fun w' => ?_, fun _ => id⟩ <;>
    cases w' <;> simp only [Session.setEvent, event] at hcb ⊢ <;>
    first | exact id | (rw [hcb]; exact id)

theorem clearReading_carries (s : Session) : Carries s s.clearReading := by
  unfold clearReading
  split
  · exact .quiet rfl rfl rfl rfl rfl rfl List.suffix_rfl (.refl s)
  · exact .quiet rfl rfl rfl rfl rfl rfl List.suffix_rfl (.same rfl)

theorem delPersistentRead_carries (s : Session) : Carries s s.delPersistentRead := by
  unfold delPersistentRead
  split
  · exact .registered (sessionDelEvent_core s _) (sessionDelEvent_waits s _)
  · exact .quiet rfl rfl rfl rfl rfl rfl List.suffix_rfl (.refl s)

theorem clearWriting_carries (s : Session) : Carries s s.clearWriting := by
  refine .quiet rfl rfl rfl rfl rfl rfl List.suffix_rfl ⟨fun w => ?_, by simp [clearWriting]⟩
  cases w <;> exact id

theorem channelOnRead_carried (s : Session) (halive : s.freed = false) (ev : EvMask) (env : Env) :
    Carried s (s.channelOnRead ev env) := by
  refine .head (clearReading_carries s) ?_
  cases channelOnRead_course s halive ev env with
  | ended h => exact h.carried
  | rearmed _ _ u h hu ht =>
    rw [ht]
    split
    · exact h.carried
    · exact h.carried.trans (Ops.single .addRead hu).carried
  | failed u h _ ht =>
    exact (h.carried.tail (delPersistentRead_carries u)).trans ht.carried

theorem settingTransmit_carried (s : Session) (halive : s.freed = false) (htype : s.type ≠ .shared) (iovMax : Nat)
    (ios : List IoResult) : Carried s (s.settingTransmit iovMax ios).1 := by
  unfold settingTransmit
  rw [if_neg htype]
  exact channelTransmit_carries s halive iovMax ios

theorem channelOnWrite_carried (s : Session) (halive : s.freed = false) (htype : s.type ≠ .shared)
    (iovMax : Nat) (ev : EvMask) (env : Env) : Carried s (s.channelOnWrite iovMax ev env) := by
  refine .head (clearWriting_carries s) ?_
  unfold channelOnWrite
  have hcleared : s.clearWriting.freed = false ∧ s.clearWriting.type ≠ .shared := ⟨halive, htype⟩
  generalize s.clearWriting = s at hcleared
  dsimp only
  split
  · split
    · have hsent := settingTransmit_carried s hcleared.1 hcleared.2 iovMax env.writev
      have hfreed : (s.settingTransmit iovMax env.writev).1.freed = false := by
        obtain ⟨_, _, _, -, h⟩ := settingTransmit_frame s iovMax env.writev
        rw [h]
        exact hcleared.1
      generalize s.settingTransmit iovMax env.writev = r at hsent hfreed
      split
      · exact hsent.trans (channelErrorIn_outcome r.1 env .writeFailure).carried
      · rcases afterTransmit_cases r.1 env with ⟨-, h⟩ | h | ⟨-, -, h⟩
        · rw [h]
          exact hsent.trans (Ops.single .addWrite hfreed).carried
        · exact hsent.trans h.carried
        · rw [h]
          exact hsent
    · exact .refl
  · exact (channelShutdown_ops s (runCalls_ops env.shutdown)).carried

/-- A new descriptor: what follows is written on a connection of its own. -/
structure Connects (s t : Session) : Prop where
  wires : t.wires = { s.wires with closed := s.wires.closed ++ [s.wires.wire], wire := [] }
  queue : t.sendqueue = s.sendqueue
  offset : t.msgoffset = s.msgoffset
  established : t.established = false
  type : t.type = s.type
  alive : t.freed = s.freed
  others : ∀ w, w ≠ .evwrite → (t.event w).cb = (s.event w).cb

/-- The delivery that resumes sending on a new connection. -/
def Resumes (s : Session) (i : Input) : Prop :=
  ∃ w env, i = .deliver w env ∧ (s.event w).cb = some .reconnected ∧
    (s.event w).results.write = true ∧ env.connected = true

/-- What one step of the system can do to the stream. -/
inductive StreamStep (s : Session) (i : Input) (t : Session) : Prop where
  | carried (h : Carried s t)
  | connected (u : Session) (h : Carried s u) (hconn : Connects u t)
  /-- The service ends the session when it starts anew. -/
  | abandoned (hi : Resumes s i) (u : Session) (h : Carried s u) (hstart : Carried u.takeQueue t)
      (hfreed : t.freed = true)
  /-- The queue taken away is put behind what the service sent. -/
  | resumed (hi : Resumes s i) (u v : Session) (h : Carried s u)
      (hqueue : u.sendqueue = s.sendqueue) (hstart : Carried u.takeQueue v)
      (halive : v.freed = false) (hidle : v.evwrite.cb = some .reconnected → v.status.writing = false)
      (ht : t = v.resume u.sendqueue)
  /-- The allocator and the poller change their minds. -/
  | answered (memory poller : List Bool) (ht : t = { s with memory := memory, poller := poller })

theorem channelOnReconnect_stream (s : Session) (env : Env) :
    Carried s (s.channelOnReconnect env) ∨
      ∃ u, Carried s u ∧ Connects u (s.channelOnReconnect env) := by
  have hclear := clearWriting_carries s
  unfold channelOnReconnect
  generalize s.clearWriting = s' at hclear
  have hfd : Carries s' (s'.reconnectFd env) := by
    unfold reconnectFd
    split
    · exact .quiet rfl rfl rfl rfl rfl rfl List.suffix_rfl (.same rfl)
    · exact .quiet (wires_emit s' _) rfl rfl rfl rfl rfl List.suffix_rfl (.same rfl)
    · exact .quiet rfl rfl rfl rfl rfl rfl List.suffix_rfl (.refl s')
  have hcarried : Carried s (s'.reconnectFd env) := (Relation.ReflTransGen.single hclear).tail hfd
  generalize s'.reconnectFd env = u at hcarried
  dsimp only
  split
  · exact .inl (hcarried.trans (channelErrorIn_outcome u env .connectFailure).carried)
  · refine .inr ⟨u, hcarried, ?_, rfl, rfl, rfl, rfl, rfl, ?_⟩
    · exact wires_emit u _
    · intro w hw
      cases w with
      | evwrite => exact absurd rfl hw
      | _ => rfl

theorem resume_carried (s : Session) (halive : s.freed = false) (q : List Message) :
    Carried (s.sessionSendqueueMerge q) (s.resume q) :=
  (resume_ops s halive q).carried

/-- After a reconnect the write event waits for the queue, not for the connection. -/
theorem resume_cb (s : Session) (q : List Message)
    (h : s.evwrite.cb = some .reconnected → s.status.writing = false) :
    (s.resume q).evwrite.cb ≠ some .reconnected := by
  intro hcb
  unfold resume at hcb
  have hmerge : (s.sessionSendqueueMerge q).evwrite.cb = some .reconnected →
      (s.sessionSendqueueMerge q).status.writing = false := by
    obtain ⟨q', memory, -, -, hmerged⟩ := sessionSendqueueMerge_frame s q
    rw [hmerged]
    exact h
  generalize s.sessionSendqueueMerge q = s at hcb hmerge
  have hwrite := (sessionStartKeepalive_waits _).awaits .evwrite hcb
  generalize hu : s.sessionAddEvent .evRead = u at hwrite
  have hread := (sessionAddEvent_waits u .evWrite).awaits .evwrite hwrite
  have hwaits : WaitsOnly s u := hu ▸ sessionAddEvent_waits s .evRead
  have hbefore := hmerge (hwaits.awaits .evwrite hread)
  have hidle : u.status.writing = false := by
    cases hw : u.status.writing with
    | false => rfl
    | true => exact absurd (hwaits.held hread hw) (by simp [hbefore])
  -- so this registration was the one that set `SESSION_WRITING`
  simp [event, sessionAddEvent, addReadEvent, addWriteEvent, EvMask.evWrite, hidle] at hwrite

theorem reconnected_stream (s : Session) (ev : EvMask) (env : Env) :
    Carried s (s.reconnected ev env) ∨
      (ev.write = true ∧ env.connected = true ∧ ∃ u v, Carried s u ∧
        u.sendqueue = s.sendqueue ∧ Carried u.takeQueue v ∧
        ((v.freed = true ∧ s.reconnected ev env = v) ∨
          (v.freed = false ∧ (v.evwrite.cb = some .reconnected → v.status.writing = false) ∧
            s.reconnected ev env = v.resume u.sendqueue))) := by
  have hclear := Relation.ReflTransGen.single (clearWriting_carries s)
  cases hwrite : ev.write with
  | false =>
    rw [reconnected_timeout s env hwrite]
    exact .inl (hclear.trans (timeout_outcome _ env).carried)
  | true =>
    cases hconn : env.connected with
    | false =>
      rw [reconnected_failed s hwrite hconn]
      exact .inl (hclear.trans (channelErrorIn_outcome _ env .connectStatus).carried)
    | true =>
      rw [reconnected_connected s hwrite hconn]
      right
      have hstart : Carried s.clearWriting.takeQueue (env.start.run s.clearWriting.takeQueue) :=
        Ops.carried (Callback.run_ops env.start _)
      refine ⟨rfl, rfl, s.clearWriting, _, hclear, rfl, hstart, ?_⟩
      generalize env.start.run s.clearWriting.takeQueue = v at hstart
      cases hfreed : v.freed with
      | true => exact .inl ⟨rfl, whenAlive_freed hfreed _⟩
      | false =>
        refine .inr ⟨rfl, fun hcb => ?_, whenAlive_alive hfreed _⟩
        cases hw : v.status.writing with
        | false => rfl
        | true => cases hstart.waits.held hcb hw

/-- Every step of a TCP session is one of the kinds above. -/
theorem step_stream {iovMax : Nat} {s t : Session} {i : Input} (htype : s.type ≠ .shared)
    (h : step iovMax s i = some t) : StreamStep s i t := by
  cases i with
  | report w res =>
    simp only [step] at h
    split at h
    · cases h
      exact .carried (.single (Carries.setEvent s w _ (by simp)))
    · cases h
  | expire w =>
    simp only [step] at h
    split at h
    · cases h
      exact .carried (.single (Carries.setEvent s w _ (by simp)))
    · cases h
  | deliver w env =>
    simp only [step] at h
    split at h
    · rename_i hen
      cases h
      have hset : Carries s (s.setEvent w (s.event w).processActive) :=
        Carries.setEvent s w _ (by simp)
      have halive : (s.setEvent w (s.event w).processActive).freed = false := by
        have hs : s.freed = false := by simp only [Bool.and_eq_true] at hen; simpa using hen.1
        cases w <;> exact hs
      have htype' : (s.setEvent w (s.event w).processActive).type ≠ .shared := by
        cases w <;> exact htype
      have hqueue : (s.setEvent w (s.event w).processActive).sendqueue = s.sendqueue := by
        cases w <;> rfl
      -- taking the event off the active list concerns no byte
      generalize s.setEvent w (s.event w).processActive = u at hset halive htype' hqueue
      cases hcb : (s.event w).cb with
      | none => exact .carried (.single hset)
      | some cb =>
        cases cb with
        | onRead => exact .carried (.head hset (channelOnRead_carried u halive _ env))
        | onWrite => exact .carried (.head hset (channelOnWrite_carried u halive htype' iovMax _ env))
        | onKeepalive =>
          have hclear : Carries u { u with status := { u.status with keepaliving := false } } :=
            .quiet rfl rfl rfl rfl rfl rfl List.suffix_rfl (.same rfl)
          exact .carried (.head hset (.head hclear (channelOnKeepalive_ops u env).carried))
        | onReconnect =>
          rcases channelOnReconnect_stream u env with h | ⟨v, h, hconn⟩
          · exact .carried (.head hset h)
          · exact .connected v (.head hset h) hconn
        | reconnected =>
          -- the one handler that takes the queue away for a while
          rcases reconnected_stream u (s.event w).results env with
            h | ⟨hwrite, hconn, v, x, hv, hvq, hx, ⟨hfreed, h⟩ | ⟨hfreed, hidle, h⟩⟩
          · exact .carried (.head hset h)
          · refine .abandoned ⟨w, env, rfl, hcb, hwrite, hconn⟩ v (.head hset hv) ?_ ?_
            · exact (congrArg (Carried _) h).mpr hx
            · exact (congrArg Session.freed h).trans hfreed
          · exact .resumed ⟨w, env, rfl, hcb, hwrite, hconn⟩ v x (.head hset hv)
              (hvq.trans hqueue) hx hfreed hidle h
        | onSchedule => exact .carried (.single hset)
    · cases h
  | datagram bytes env =>
    simp [step, htype] at h
  | schedule t env =>
    simp only [step] at h
    split at h
    · cases h
      exact .carried (channelOnSchedule_ops s t env).carried
    · cases h
  | call c =>
    simp only [step] at h
    split at h
    · cases h
    · cases h
      exact .carried (runCall_ops c s).carried
  | shutdown env =>
    simp only [step] at h
    split at h
    · cases h
    · rename_i halive
      cases h
      exact .carried (closeAndShutdown_ops s (by simpa using halive) (runCalls_ops env.shutdown)).carried
  | answers memory poller =>
    simp only [step] at h
    split at h
    · cases h
    · cases h
      exact .answered memory poller rfl

theorem takeQueue_waits (s : Session) : WaitsOnly s s.takeQueue := .same rfl

theorem StreamStep.type {s t : Session} {i : Input} (h : StreamStep s i t) : t.type = s.type := by
  cases h with
  | carried h => exact h.type
  | connected u h hconn => exact hconn.type.trans h.type
  | abandoned _ u h hstart => exact hstart.type.trans h.type
  | resumed _ u v h _ hstart halive _ ht =>
    have hmerge : (v.sessionSendqueueMerge u.sendqueue).type = v.type := by
      obtain ⟨q', memory, -, -, hmerged⟩ := sessionSendqueueMerge_frame v u.sendqueue
      rw [hmerged]
    rw [ht]
    exact (resume_carried v halive _).type.trans (hmerge.trans (hstart.type.trans h.type))
  | answered memory poller ht => rw [ht]

end Session

end Evlite
