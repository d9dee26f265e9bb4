import Evlite.Kcp.Driver
import Evlite.Lib.TransitionSystem
import Evlite.Session.Stream

/-!
# Sending through a Driver

A session with a driver hands its payloads to `ikcp_send`: directly in `driver_send`, and
message by message from the send queue in `driver_transmit`. The direct path keeps what was
not taken. `driver_transmit` removes a message whenever `ikcp_send` did not fail, although in
stream mode it may have taken a part only, the part that filled up its last segment; and the
length it passes is that of an `int32_t`. A direct send that finds no memory for the rest loses it.

## Main results

- `driverTransmit_eq`: `driver_transmit` never calls itself.
- `driverTransmit_handsOver_iff`: it hands over whole messages if and only if none is split.
- `driverTransmit_keeps_bytes`: this, and the bytes that all runs keep.
-/

namespace Evlite

/-- The cast to `int32_t`. -/
def int32 (n : Nat) : Int := (BitVec.ofNat 32 n).toInt

theorem int32_le (n : Nat) : int32 n ≤ n := by
  have hmod := Nat.mod_le n (2 ^ 32)
  unfold int32
  rw [BitVec.toInt_eq_toNat_cond, BitVec.toNat_ofNat]
  split <;> omega

namespace Kcp

/-! ## Sending directly -/

/-- `_kcp_can_send` -/
def kcpCanSend (kcp : Kcp) : Bool := decide (BitVec.ofNat 32 kcp.ikcpWaitsnd < 4 * kcp.sndWnd)

/-- `driver_send` at the time `now`. -/
def driverSend (kcp : Kcp) (now : BitVec 32) (buf : List UInt8) : Kcp × Int :=
  let r :=
    if kcp.kcpCanSend then
      let r := kcp.ikcpSend buf (int32 buf.length)
      (r.1.ikcpFlush, r.2)
    else (kcp, 0)
  (r.1.kcpRefreshState now, if r.2 < 0 then 0 else r.2)

/-- What `ikcp_send` takes is a beginning of the buffer, and it returns how much. -/
theorem ikcpSend_takes (kcp : Kcp) (buffer : List UInt8) (len : Int) (hlen : len ≤ buffer.length) :
    ((kcp.ikcpSend buffer len).2 < 0 ∧ (kcp.ikcpSend buffer len).1 = kcp) ∨
    ∃ n ≤ buffer.length, (kcp.ikcpSend buffer len).2 = n ∧
      (kcp.ikcpSend buffer len).1.outgoing = kcp.outgoing ++ buffer.take n := by
  by_cases hneg : len < 0
  · left
    unfold ikcpSend
    rw [if_pos hneg]
    exact ⟨by show (-1 : Int) < 0; decide, rfl⟩
  · obtain ⟨n, rfl⟩ := Int.eq_ofNat_of_zero_le (Int.not_lt.mp hneg)
    have hle : n ≤ buffer.length := Int.ofNat_le.mp hlen
    rcases kcp.ikcpSend_cases buffer n hle with ⟨-, hrc, hbytes⟩ | ⟨hlong, -, hrc, hbytes⟩ | ⟨-, -, hrun⟩
    · exact .inr ⟨n, hle, hrc, hbytes⟩
    · have hroom : kcp.streamRoom ≤ kcp.capacity := Nat.le_add_right _ _
      exact .inr ⟨kcp.streamRoom, by omega, hrc, hbytes⟩
    · rw [hrun]
      exact .inl ⟨by show (-2 : Int) < 0; decide, rfl⟩

@[simp] theorem kcpRefreshState_outgoing (kcp : Kcp) (now : BitVec 32) :
    (kcp.kcpRefreshState now).outgoing = kcp.outgoing := by
  rw [kcpRefreshState, ikcpFlush_outgoing, ikcpUpdate_outgoing]

/-- `driver_send` returns how many bytes of the buffer KCP has taken. -/
theorem driverSend_takes (kcp : Kcp) (now : BitVec 32) (buf : List UInt8) :
    ∃ n ≤ buf.length, (kcp.driverSend now buf).2 = n ∧
      (kcp.driverSend now buf).1.outgoing = kcp.outgoing ++ buf.take n := by
  have hnothing : kcp.outgoing = kcp.outgoing ++ buf.take 0 := by simp
  unfold driverSend
  dsimp only
  split
  · -- a failed `ikcp_send` counts as nothing sent
    rcases kcp.ikcpSend_takes buf (int32 buf.length) (int32_le _) with ⟨hneg, hsame⟩ | ⟨n, hn, hrc, hbytes⟩
    · refine ⟨0, Nat.zero_le _, by rw [if_pos hneg]; rfl, ?_⟩
      rw [kcpRefreshState_outgoing, ikcpFlush_outgoing, hsame]
      exact hnothing
    · refine ⟨n, hn, by rw [hrc, if_neg (by omega)], ?_⟩
      rw [kcpRefreshState_outgoing, ikcpFlush_outgoing, hbytes]
  · refine ⟨0, Nat.zero_le _, rfl, ?_⟩
    rw [kcpRefreshState_outgoing]
    exact hnothing

end Kcp

/-! ## The session -/

/-- A session and the KCP of its driver. -/
structure KcpSession where
  session : Session := {}
  kcp : Kcp := {}
deriving DecidableEq, Repr

namespace KcpSession

/-- `_send_only` with `driver_send` as `setting.send`. -/
def sendOnly (s : KcpSession) (now : BitVec 32) (buf : List UInt8) : KcpSession × Int :=
  if s.session.status.exiting then (s, -1)
  else if !s.session.status.writing && s.session.sendqueue.isEmpty then
    let r := s.kcp.driverSend now buf
    ({ session := s.session.emit (.wrote (buf.take r.2.toNat)), kcp := r.1 }, if r.2 < 0 then 0 else r.2)
  else (s, 0)

/-- `_send_buffer` -/
def sendBuffer (s : KcpSession) (now : BitVec 32) (buf : List UInt8) (msg : Nat) : KcpSession × Int :=
  let r := s.sendOnly now buf
  if 0 ≤ r.2 ∧ r.2 < buf.length then
    let created := r.1.session.allocate
    if !created.2 then ({ r.1 with session := created.1 }, -2)
    else
      let message := Session.remainder buf msg r.2.toNat
      -- whether the queue took it is not looked at
      let session :=
        ((created.1.emit (.messageCreate msg)).queuePush message).1.sessionAddEvent .evWrite
      ({ r.1 with session := session }, r.2)
  else r

/-- Record that `payload` was accepted, if the call that sent it did not fail. -/
def accept (r : KcpSession × Int) (payload : List UInt8) : KcpSession × Int :=
  if 0 ≤ r.2 then ({ r.1 with session := r.1.session.emit (.accepted payload) }, r.2) else r

/-- `session_send` -/
def sessionSend (s : KcpSession) (now : BitVec 32) (buf : List UInt8) (transform : Transform)
    (msg : Nat) : KcpSession × Int :=
  match transform.apply buf with
  | some buf' => accept (s.sendBuffer now buf' msg) buf'
  | none => (s, -1)

/-- `session_sendmessage` -/
def sessionSendmessage (s : KcpSession) (now : BitVec 32) (message : Message) (transform : Transform)
    (msg : Nat) : KcpSession × Int :=
  let r :=
    match transform with
    | .fresh bytes =>
      let r := accept (s.sendBuffer now bytes msg) bytes
      let session := if 0 ≤ r.2 then r.1.session.emit (.messageAddSuccess message.id) else r.1.session
      ({ r.1 with session := session }, r.2)
    | .null => (s, -1)
    | _ =>
      let r := s.session.queuePush message
      let session := if r.2 = 0 then r.1.sessionAddEvent .evWrite else r.1
      accept ({ s with session := session }, r.2) message.buffer
  let session := if r.2 < 0 then r.1.session.emit (.messageAddFailure message.id) else r.1.session
  ({ r.1 with session := session }, r.2)

/-- The first message leaves the queue, after `ikcp_send` took `rc` bytes of it. -/
def popMessage (s : KcpSession) (m : Message) (q : List Message) (rc : Int) : KcpSession :=
  { s with session :=
      { (s.session.emit (.wrote (m.buffer.take rc.toNat))).emits (Session.sentEffects m) with
        sendqueue := q } }

/-- The loop of `driver_transmit`, over the send queue: the last result, and the bytes written. -/
def transmitLoop : List Message → Int → Int → KcpSession → KcpSession × Int × Int
  | [], rc, writen, s => (s, rc, writen)
  | m :: q, _, writen, s =>
    if !s.kcp.kcpCanSend then (s, -3, writen)
    else
      let r := s.kcp.ikcpSend m.buffer (int32 m.buffer.length)
      let s := { s with kcp := r.1.ikcpFlush }
      if r.2 < 0 then (s, r.2, writen)
      else transmitLoop q r.2 (writen + r.2) (s.popMessage m q r.2)

/-- The last result of the loop is positive only if the queue has run empty. -/
theorem transmitLoop_positive (q : List Message) (rc writen : Int) (s : KcpSession)
    (hqueue : s.session.sendqueue = q) (h : 0 < (transmitLoop q rc writen s).2.1) :
    (transmitLoop q rc writen s).1.session.sendqueue = [] := by
  induction q generalizing s rc writen with
  | nil => exact hqueue
  | cons m q ih =>
    unfold transmitLoop at h ⊢
    dsimp only at h ⊢
    split
    · rename_i hfull
      rw [if_pos hfull] at h
      exact absurd h (by show ¬(0 : Int) < -3; decide)
    · rename_i hfree
      rw [if_neg hfree] at h
      split
      · rename_i hfailed
        rw [if_pos hfailed] at h
        exact absurd h (Int.not_lt.mpr (Int.le_of_lt hfailed))
      · rename_i htaken
        rw [if_neg htaken] at h
        exact ih _ _ _ rfl h

/-- `driver_transmit` at the time `now`. -/
def driverTransmit (s : KcpSession) (now : BitVec 32) : KcpSession × Int :=
  let r := transmitLoop s.session.sendqueue 0 0 s
  let t : KcpSession := { r.1 with kcp := r.1.kcp.kcpRefreshState now }
  if 0 < r.2.1 ∧ t.kcp.kcpCanSend = true ∧ t.session.sendqueue ≠ [] then
    let againlen := driverTransmit t now
    (againlen.1, if 0 < againlen.2 then r.2.2 + againlen.2 else r.2.2)
  else (t, r.2.2)
termination_by s.session.sendqueue.length
decreasing_by
  rename_i hagain
  exact absurd (transmitLoop_positive _ 0 0 s rfl hagain.1) hagain.2.2

/-- `driver_transmit` never calls itself. -/
theorem driverTransmit_eq (s : KcpSession) (now : BitVec 32) :
    s.driverTransmit now =
      ({ (transmitLoop s.session.sendqueue 0 0 s).1 with
          kcp := (transmitLoop s.session.sendqueue 0 0 s).1.kcp.kcpRefreshState now },
        (transmitLoop s.session.sendqueue 0 0 s).2.2) := by
  rw [driverTransmit]
  exact if_neg fun hagain => hagain.2.2 (transmitLoop_positive _ 0 0 s rfl hagain.1)

/-! ## Whole messages -/

/-- `ikcp_send` refuses a length: it is negative, or too long for KCP where there is no last
segment to fill up. -/
def Refuses (kcp : Kcp) (len : Int) : Prop :=
  len < 0 ∨ (kcp.streamRoom = 0 ∧ kcp.capacity < len)

/-- `ikcp_send` takes a message as a whole: its length is that of an `int32_t`, and KCP can
take as much. -/
def TakesWhole (kcp : Kcp) (m : Message) : Prop :=
  int32 m.buffer.length = m.buffer.length ∧ m.buffer.length ≤ kcp.capacity

/-- Each message of the queue that KCP meets is taken as a whole, or refused. -/
def NoneSplit : Kcp → List Message → Prop
  | _, [] => True
  | kcp, m :: q =>
    kcp.kcpCanSend = false ∨ Refuses kcp (int32 m.buffer.length) ∨
      (TakesWhole kcp m ∧ NoneSplit (kcp.ikcpSend m.buffer m.buffer.length).1.ikcpFlush q)

/-- What happens for a message that is handed over as a whole. -/
def handOver (m : Message) : List Effect := .wrote m.buffer :: Session.sentEffects m

/-- The messages that left the queue are those that were counted as sent, and KCP has taken all
of their bytes, in order. -/
def HandsOver (s t : KcpSession) : Prop :=
  ∃ taken, s.session.sendqueue = taken ++ t.session.sendqueue ∧
    t.session.trace = s.session.trace ++ taken.flatMap handOver ∧
    t.kcp.outgoing = s.kcp.outgoing ++ (taken.map Message.buffer).flatten

/-- The bytes of the send queue. -/
def waiting (s : KcpSession) : List UInt8 := (s.session.sendqueue.map Message.buffer).flatten

/-- The number of bytes that KCP has taken or that wait in the queue. -/
def volume (s : KcpSession) : Nat := s.kcp.outgoing.length + s.waiting.length

theorem HandsOver.volume_eq {s t : KcpSession} (h : HandsOver s t) : t.volume = s.volume := by
  obtain ⟨taken, hqueue, -, hbytes⟩ := h
  unfold volume waiting
  rw [hqueue, hbytes]
  simp only [List.map_append, List.flatten_append, List.length_append]
  omega

/-- What `ikcp_send` makes of the first message. -/
theorem ikcpSend_message (kcp : Kcp) (m : Message) :
    (Refuses kcp (int32 m.buffer.length) ∧ (kcp.ikcpSend m.buffer (int32 m.buffer.length)).2 < 0 ∧
      (kcp.ikcpSend m.buffer (int32 m.buffer.length)).1 = kcp) ∨
    (¬Refuses kcp (int32 m.buffer.length) ∧ TakesWhole kcp m ∧
      (kcp.ikcpSend m.buffer (int32 m.buffer.length)).2 = m.buffer.length ∧
      (kcp.ikcpSend m.buffer (int32 m.buffer.length)).1.outgoing = kcp.outgoing ++ m.buffer) ∨
    (¬Refuses kcp (int32 m.buffer.length) ∧ ¬TakesWhole kcp m ∧
      ∃ n < m.buffer.length, (kcp.ikcpSend m.buffer (int32 m.buffer.length)).2 = n ∧
        (kcp.ikcpSend m.buffer (int32 m.buffer.length)).1.outgoing =
          kcp.outgoing ++ m.buffer.take n) := by
  have hcast := int32_le m.buffer.length
  unfold TakesWhole
  generalize int32 m.buffer.length = len at hcast
  unfold Refuses
  by_cases hneg : len < 0
  · left
    unfold Kcp.ikcpSend
    rw [if_pos hneg]
    exact ⟨.inl hneg, by show (-1 : Int) < 0; decide, rfl⟩
  · obtain ⟨n, rfl⟩ := Int.eq_ofNat_of_zero_le (Int.not_lt.mp hneg)
    have hle : n ≤ m.buffer.length := Int.ofNat_le.mp hcast
    have hroom : kcp.streamRoom ≤ kcp.capacity := Nat.le_add_right _ _
    rcases kcp.ikcpSend_cases m.buffer n hle with
      ⟨hfits, hrc, hbytes⟩ | ⟨hlong, hpos, hrc, hbytes⟩ | ⟨hlong, hnone, hrun⟩
    · right
      by_cases hwhole : n = m.buffer.length
      · left
        rw [List.take_of_length_le (Nat.le_of_eq hwhole.symm)] at hbytes
        exact ⟨by omega, ⟨by omega, by omega⟩, by rw [hrc]; omega, hbytes⟩
      · -- the length was cut off by the cast
        right
        exact ⟨by omega, by omega, n, by omega, hrc, hbytes⟩
    · -- the last segment took a part
      right; right
      exact ⟨by omega, by omega, kcp.streamRoom, by omega, hrc, hbytes⟩
    · left
      rw [hrun]
      exact ⟨.inr ⟨hnone, by omega⟩, by show (-2 : Int) < 0; decide, rfl⟩

/-! ## The loop -/

theorem HandsOver.of_kcp {s : KcpSession} {kcp : Kcp} (h : kcp.outgoing = s.kcp.outgoing) :
    HandsOver s { s with kcp := kcp } :=
  ⟨[], rfl, by simp, by simp [h]⟩

theorem HandsOver.trans {s t u : KcpSession} (h₁ : HandsOver s t) (h₂ : HandsOver t u) :
    HandsOver s u := by
  obtain ⟨ms₁, hqueue₁, htrace₁, hbytes₁⟩ := h₁
  obtain ⟨ms₂, hqueue₂, htrace₂, hbytes₂⟩ := h₂
  refine ⟨ms₁ ++ ms₂, ?_, ?_, ?_⟩
  · rw [hqueue₁, hqueue₂, List.append_assoc]
  · rw [htrace₂, htrace₁, List.flatMap_append, List.append_assoc]
  · rw [hbytes₂, hbytes₁, List.map_append, List.flatten_append, List.append_assoc]

/-- The session after the first message was taken from the queue. -/
def sentMessage (s : KcpSession) (m : Message) (q : List Message) : KcpSession :=
  { s with kcp := (s.kcp.ikcpSend m.buffer (int32 m.buffer.length)).1.ikcpFlush }.popMessage m q
    (s.kcp.ikcpSend m.buffer (int32 m.buffer.length)).2

/-- What one round of the loop does: it stops because KCP cannot send or refuses the message, or
the message leaves the queue and the loop goes on. -/
theorem transmitLoop_cons (m : Message) (q : List Message) (rc writen : Int) (s : KcpSession) :
    (s.kcp.kcpCanSend = false ∧ transmitLoop (m :: q) rc writen s = (s, -3, writen)) ∨
    (s.kcp.kcpCanSend = true ∧ Refuses s.kcp (int32 m.buffer.length) ∧ ∃ rc',
      transmitLoop (m :: q) rc writen s = ({ s with kcp := s.kcp.ikcpFlush }, rc', writen)) ∨
    (s.kcp.kcpCanSend = true ∧ ¬Refuses s.kcp (int32 m.buffer.length) ∧
      transmitLoop (m :: q) rc writen s =
        transmitLoop q (s.kcp.ikcpSend m.buffer (int32 m.buffer.length)).2
          (writen + (s.kcp.ikcpSend m.buffer (int32 m.buffer.length)).2) (s.sentMessage m q)) := by
  rw [transmitLoop]
  dsimp only
  cases hcan : s.kcp.kcpCanSend with
  | false => exact .inl ⟨rfl, rfl⟩
  | true =>
    right
    rw [if_neg (by decide)]
    rcases ikcpSend_message s.kcp m with ⟨href, hneg, hsame⟩ | ⟨href, -, hrc, -⟩ | ⟨href, -, n, -, hrc, -⟩
    · left
      rw [if_pos hneg, hsame]
      exact ⟨rfl, href, _, rfl⟩
    · right
      rw [if_neg (by rw [hrc]; omega)]
      exact ⟨rfl, href, rfl⟩
    · -- a message that is split leaves the queue as well
      right
      rw [if_neg (by rw [hrc]; omega)]
      exact ⟨rfl, href, rfl⟩

/-- Where no message is split, KCP takes the first message as a whole, unless it cannot send or
refuses it, and splits none of the others. -/
theorem NoneSplit.taken {kcp : Kcp} {m : Message} {q : List Message} (h : NoneSplit kcp (m :: q))
    (hcan : kcp.kcpCanSend = true) (hgo : ¬Refuses kcp (int32 m.buffer.length)) :
    (kcp.ikcpSend m.buffer (int32 m.buffer.length)).2 = m.buffer.length ∧
      (kcp.ikcpSend m.buffer (int32 m.buffer.length)).1.outgoing = kcp.outgoing ++ m.buffer ∧
      NoneSplit (kcp.ikcpSend m.buffer (int32 m.buffer.length)).1.ikcpFlush q := by
  obtain ⟨hwhole, hrest⟩ : TakesWhole kcp m ∧
      NoneSplit (kcp.ikcpSend m.buffer m.buffer.length).1.ikcpFlush q := by
    rcases h with hfull | hrefused | hwhole
    · rw [hcan] at hfull
      cases hfull
    · exact absurd hrefused hgo
    · exact hwhole
  rcases ikcpSend_message kcp m with ⟨href, -⟩ | ⟨-, -, hrc, hbytes⟩ | ⟨-, hpart, -⟩
  · exact absurd href hgo
  · refine ⟨hrc, hbytes, ?_⟩
    rw [hwhole.1]
    exact hrest
  · exact absurd hwhole hpart

/-- If no message is split, the loop hands over whole messages. -/
theorem transmitLoop_handsOver (q : List Message) (rc writen : Int) (s : KcpSession)
    (hqueue : s.session.sendqueue = q) (h : NoneSplit s.kcp q) :
    HandsOver s (transmitLoop q rc writen s).1 := by
  induction q generalizing s rc writen with
  | nil => exact .of_kcp rfl
  | cons m q ih =>
    rcases transmitLoop_cons m q rc writen s with ⟨-, hrun⟩ | ⟨-, -, rc', hrun⟩ | ⟨hcan, hgo, hrun⟩
    · rw [hrun]
      exact .of_kcp rfl
    · rw [hrun]
      exact .of_kcp (Kcp.ikcpFlush_outgoing _)
    · -- one message is handed over, and the rest by induction
      obtain ⟨hrc, hbytes, hrest⟩ := h.taken hcan hgo
      have hone : HandsOver s (s.sentMessage m q) := by
        refine ⟨[m], hqueue, ?_, ?_⟩
        · unfold sentMessage popMessage
          rw [hrc]
          simp [Session.emit, Session.emits, handOver]
        · show (s.kcp.ikcpSend m.buffer (int32 m.buffer.length)).1.ikcpFlush.outgoing = _
          rw [Kcp.ikcpFlush_outgoing, hbytes]
          simp
      rw [hrun]
      exact hone.trans (ih _ _ _ rfl hrest)

/-- A message that leaves the queue takes its bytes with it, and KCP has at most these. -/
theorem sentMessage_volume {s : KcpSession} {m : Message} {q : List Message}
    (hqueue : s.session.sendqueue = m :: q) (hgo : ¬Refuses s.kcp (int32 m.buffer.length)) :
    (s.sentMessage m q).volume ≤ s.volume ∧
      (¬TakesWhole s.kcp m → (s.sentMessage m q).volume < s.volume) := by
  have hafter : (s.sentMessage m q).volume =
      (s.kcp.ikcpSend m.buffer (int32 m.buffer.length)).1.outgoing.length +
        (q.map Message.buffer).flatten.length := by
    show (s.kcp.ikcpSend m.buffer (int32 m.buffer.length)).1.ikcpFlush.outgoing.length + _ = _
    rw [Kcp.ikcpFlush_outgoing]
    rfl
  have hbefore : s.volume = s.kcp.outgoing.length + m.buffer.length +
      (q.map Message.buffer).flatten.length := by
    unfold volume waiting
    rw [hqueue]
    simp only [List.map_cons, List.flatten_cons, List.length_append]
    omega
  rw [hafter, hbefore]
  rcases ikcpSend_message s.kcp m with ⟨href, -⟩ | ⟨-, hwhole, -, hbytes⟩ | ⟨-, -, n, hn, -, hbytes⟩
  · exact absurd href hgo
  · rw [hbytes, List.length_append]
    exact ⟨Nat.le_refl _, fun hpart => absurd hwhole hpart⟩
  · rw [hbytes, List.length_append, List.length_take_of_le (Nat.le_of_lt hn)]
    exact ⟨by omega, fun _ => by omega⟩

/-- The loop never adds bytes, and it loses some if a message is split. -/
theorem transmitLoop_volume (q : List Message) (rc writen : Int) (s : KcpSession)
    (hqueue : s.session.sendqueue = q) :
    (transmitLoop q rc writen s).1.volume ≤ s.volume ∧
      (¬NoneSplit s.kcp q → (transmitLoop q rc writen s).1.volume < s.volume) := by
  induction q generalizing s rc writen with
  | nil => exact ⟨Nat.le_refl _, fun h => absurd trivial h⟩
  | cons m q ih =>
    rcases transmitLoop_cons m q rc writen s with
      ⟨hcan, hrun⟩ | ⟨-, href, rc', hrun⟩ | ⟨-, hgo, hrun⟩
    · rw [hrun]
      exact ⟨Nat.le_refl _, fun h => absurd (.inl hcan) h⟩
    · rw [hrun]
      refine ⟨Nat.le_of_eq ?_, fun h => absurd (.inr (.inl href)) h⟩
      unfold volume
      rw [Kcp.ikcpFlush_outgoing]
      rfl
    · obtain ⟨hle, hlt⟩ := sentMessage_volume hqueue hgo
      obtain ⟨ihle, ihlt⟩ := ih (s.kcp.ikcpSend m.buffer (int32 m.buffer.length)).2
        (writen + (s.kcp.ikcpSend m.buffer (int32 m.buffer.length)).2) (s.sentMessage m q) rfl
      rw [hrun]
      refine ⟨Nat.le_trans ihle hle, fun hsplit => ?_⟩
      by_cases hwhole : TakesWhole s.kcp m
      · -- a later message is split
        have hrest : ¬NoneSplit (s.sentMessage m q).kcp q := by
          intro hnone
          refine hsplit (.inr (.inr ⟨hwhole, ?_⟩))
          rw [← hwhole.1]
          exact hnone
        exact Nat.lt_of_lt_of_le (ihlt hrest) hle
      · exact Nat.lt_of_le_of_lt ihle (hlt hwhole)

/-- `driver_transmit` hands over whole messages if and only if no message is split. -/
theorem driverTransmit_handsOver_iff (s : KcpSession) (now : BitVec 32) :
    HandsOver s (s.driverTransmit now).1 ↔ NoneSplit s.kcp s.session.sendqueue := by
  rw [driverTransmit_eq]
  dsimp only
  refine ⟨fun h => ?_, fun h => ?_⟩
  · -- bytes that were lost are missed in the sum
    by_contra hsplit
    have hlost := (transmitLoop_volume s.session.sendqueue 0 0 s rfl).2 hsplit
    have hkept := h.volume_eq
    unfold volume at hkept hlost
    rw [Kcp.kcpRefreshState_outgoing] at hkept
    exact absurd hkept (Nat.ne_of_lt hlost)
  · exact (transmitLoop_handsOver _ 0 0 s rfl h).trans (.of_kcp (Kcp.kcpRefreshState_outgoing _ now))

/-- For the session, a `driver_transmit` that splits no message is `Session.driverTransmit`, with
the answers that KCP gives. -/
theorem driverTransmit_refines (s : KcpSession) (now : BitVec 32)
    (h : NoneSplit s.kcp s.session.sendqueue) :
    ∃ ios, Session.driverTransmit ios 0 s.session =
      ((s.driverTransmit now).1.session, (s.driverTransmit now).2) := by
  have hloop : ∀ (q : List Message) (rc writen : Int) (s : KcpSession), s.session.sendqueue = q →
      NoneSplit s.kcp q → ∃ ios, Session.driverTransmit ios writen s.session =
        ((transmitLoop q rc writen s).1.session, (transmitLoop q rc writen s).2.2) := by
    intro q
    induction q with
    | nil => exact fun _ _ _ _ _ => ⟨[], rfl⟩
    | cons m q ih =>
      intro rc writen s hqueue hnone
      rcases transmitLoop_cons m q rc writen s with ⟨-, hrun⟩ | ⟨-, -, rc', hrun⟩ | ⟨hcan, hgo, hrun⟩
      · rw [hrun]
        exact ⟨[], rfl⟩
      · rw [hrun]
        exact ⟨[], rfl⟩
      · obtain ⟨hrc, -, hrest⟩ := hnone.taken hcan hgo
        obtain ⟨ios, hios⟩ := ih (s.kcp.ikcpSend m.buffer (int32 m.buffer.length)).2
          (writen + (s.kcp.ikcpSend m.buffer (int32 m.buffer.length)).2) (s.sentMessage m q) rfl hrest
        -- the answer to this message is its length
        refine ⟨.wrote m.buffer.length :: ios, ?_⟩
        rw [hrun, ← hios]
        unfold sentMessage popMessage
        conv_lhs => unfold Session.driverTransmit
        dsimp only
        rw [hqueue, hrc, Int.toNat_natCast, List.take_length]
  rw [driverTransmit_eq]
  exact hloop s.session.sendqueue 0 0 s rfl h

/-! ## The bytes of a run -/

/-- What happens to a session with a driver between the calls that end it. -/
inductive KcpInput where
  | send (now : BitVec 32) (buf : List UInt8) (transform : Transform) (msg : Nat)
  | sendmessage (now : BitVec 32) (message : Message) (transform : Transform) (msg : Nat)
  | transmit (now : BitVec 32)
  /-- `driver_input` -/
  | datagram (now : BitVec 32) (data : List UInt8)
  /-- `_kcp_timer` -/
  | timer (now : BitVec 32)
  | setMtu (mtu : Int)
  | setMinrto (minrto : BitVec 32)
  | setWndsize (sndwnd rcvwnd : Int)
  /-- Whatever the rest of the session does to its status. -/
  | status (status : Status)
  /-- What the allocator will answer next. -/
  | answers (memory : List Bool)
deriving DecidableEq, Repr

/-- One step of the session. -/
def step (s : KcpSession) : KcpInput → KcpSession
  | .send now buf transform msg => (s.sessionSend now buf transform msg).1
  | .sendmessage now message transform msg => (s.sessionSendmessage now message transform msg).1
  | .transmit now => (s.driverTransmit now).1
  | .datagram now data =>
    let r := s.kcp.driverInput now data s.session.inbuffer
    { session := { s.session with inbuffer := r.2.1 }, kcp := r.1 }
  | .timer now => { s with kcp := s.kcp.kcpRefreshState now }
  | .setMtu mtu => { s with kcp := s.kcp.ikcpSetmtu mtu }
  -- the time that is set does not concern the queues
  | .setMinrto _ => s
  | .setWndsize sndwnd rcvwnd => { s with kcp := s.kcp.ikcpWndsize sndwnd rcvwnd }
  | .status status => { s with session := { s.session with status := status } }
  | .answers memory => { s with session := { s.session with memory := memory } }

/-- No message is split, in case that messages are handed over, and there is memory for one, in
case that a payload is sent. -/
def KeepsWhole (s : KcpSession) : KcpInput → Prop
  | .send _ _ _ _ | .sendmessage _ _ _ _ => s.session.HasMemory
  | .transmit _ => NoneSplit s.kcp s.session.sendqueue
  | _ => True

/-- The bytes handed to KCP. -/
def handed (s : KcpSession) : List UInt8 := s.session.wires.wire

/-- The bytes handed to KCP and the bytes in the send queue are those of the accepted payloads,
in order. -/
def Ledger (s : KcpSession) : Prop := s.handed ++ s.waiting = s.session.wires.accepted.flatten

/-- The bytes handed to KCP are bytes that KCP has taken, the stream grows by `payload`, and no
payload is accepted on the way. -/
structure Carries (payload : List UInt8) (s t : KcpSession) : Prop where
  took : ∃ bytes, t.handed = s.handed ++ bytes ∧ t.kcp.outgoing = s.kcp.outgoing ++ bytes
  stream : t.handed ++ t.waiting = s.handed ++ s.waiting ++ payload
  accepted : t.session.wires.accepted = s.session.wires.accepted

/-- What `_send_only` hands over: the first `n` bytes, which come after all others. -/
theorem sendOnly_cases (s : KcpSession) (now : BitVec 32) (buf : List UInt8) :
    s.sendOnly now buf = (s, -1) ∨
    ∃ n ≤ buf.length, (s.sendOnly now buf).2 = n ∧ (n = 0 ∨ s.waiting = []) ∧
      (s.sendOnly now buf).1.session.sendqueue = s.session.sendqueue ∧
      (s.sendOnly now buf).1.session.memory = s.session.memory ∧
      (s.sendOnly now buf).1.session.wires =
        { s.session.wires with wire := s.session.wires.wire ++ buf.take n } ∧
      (s.sendOnly now buf).1.kcp.outgoing = s.kcp.outgoing ++ buf.take n := by
  unfold sendOnly
  split
  · exact .inl rfl
  · right
    split
    · -- the queue is empty, so what is handed over comes after everything else
      rename_i hidle
      have hqueue : s.session.sendqueue = [] := by
        simp only [Bool.and_eq_true, List.isEmpty_iff] at hidle
        exact hidle.2
      obtain ⟨n, hn, hrc, hbytes⟩ := s.kcp.driverSend_takes now buf
      refine ⟨n, hn, ?_, .inr ?_, rfl, rfl, ?_, hbytes⟩
      · dsimp only
        rw [hrc, if_neg (by omega)]
      · rw [waiting, hqueue]
        rfl
      · dsimp only
        rw [Session.wires_emit, hrc, Int.toNat_natCast]
        rfl
    · refine ⟨0, Nat.zero_le _, rfl, .inl rfl, rfl, rfl, ?_, ?_⟩ <;> simp

/-- With memory, a direct send keeps what KCP did not take. -/
theorem sendBuffer_carries {s : KcpSession} (hmemory : s.session.HasMemory) (now : BitVec 32)
    (buf : List UInt8) (msg : Nat) :
    ((s.sendBuffer now buf msg).2 < 0 ∧ (s.sendBuffer now buf msg).1 = s) ∨
    (0 ≤ (s.sendBuffer now buf msg).2 ∧ Carries buf s (s.sendBuffer now buf msg).1) := by
  unfold sendBuffer
  dsimp only
  rcases s.sendOnly_cases now buf with hexit | ⟨n, hn, hrc, hfirst, hqueue, hasked, hwires, hbytes⟩
  · left
    rw [hexit, if_neg (by simp)]
    exact ⟨by show (-1 : Int) < 0; decide, rfl⟩
  · right
    generalize s.sendOnly now buf = r at hrc hqueue hasked hwires hbytes
    have hwire : r.1.handed = s.handed ++ buf.take n := by rw [handed, hwires]; rfl
    have haccepted : r.1.session.wires.accepted = s.session.wires.accepted := by rw [hwires]
    by_cases hrest : n < buf.length
    · -- the rest of the payload waits
      have hr : r.1.session.HasMemory := fun b hb => hmemory b (hasked ▸ hb)
      have hcreated : r.1.session.allocate.1.HasMemory := hr.of_suffix (List.tail_suffix _)
      rw [if_pos (by rw [hrc]; omega), hr.allocate]
      have hkept : (r.1.session.queueRest buf msg r.2.toNat).wires = r.1.session.wires :=
        Session.wires_append [.messageCreate msg] (by simp)
      have hlonger : (r.1.session.queueRest buf msg r.2.toNat).sendqueue =
          s.session.sendqueue ++ [Session.remainder buf msg n] := by
        rw [hrc, Int.toNat_natCast, ← hqueue, Session.queueRest_sendqueue, hcreated.allocate, if_pos rfl]
      show 0 ≤ r.2 ∧ Carries buf s { r.1 with session := r.1.session.queueRest buf msg r.2.toNat }
      refine ⟨by rw [hrc]; omega, ⟨buf.take n, ?_, hbytes⟩, ?_, ?_⟩
      · rw [← hwire, handed, hkept]
        rfl
      · rw [handed, hkept, waiting, hlonger]
        show r.1.handed ++ _ = _
        rw [hwire, List.map_append, List.flatten_append]
        show s.handed ++ buf.take n ++ (s.waiting ++ ([buf.drop n] : List (List UInt8)).flatten) = _
        rw [List.flatten_singleton]
        rcases hfirst with rfl | hempty
        · simp
        · simp [hempty]
      · rw [hkept]
        exact haccepted
    · -- KCP has taken everything
      have hall : buf.take n = buf := List.take_of_length_le (by omega)
      rw [if_neg (by rw [hrc]; omega)]
      refine ⟨by rw [hrc]; omega, ⟨buf.take n, hwire, hbytes⟩, ?_, haccepted⟩
      rw [hwire, hall, waiting, hqueue]
      rcases hfirst with rfl | hempty
      · have hnil : buf = [] := List.length_eq_zero_iff.mp (by omega)
        simp [hnil, waiting]
      · rw [waiting] at hempty
        simp [hempty, waiting]

/-- A payload that is accepted as it is carried keeps the ledger. -/
theorem Carries.accept {s t : KcpSession} {payload : List UInt8} (hs : s.Ledger)
    (h : Carries payload s t) :
    Ledger { t with session := t.session.emit (.accepted payload) } := by
  have hwires := t.session.wires_emit (.accepted payload)
  have hstream := h.stream
  unfold Ledger handed waiting at *
  dsimp only
  rw [hwires]
  show t.session.wires.wire ++ _ = (t.session.wires.accepted ++ [payload]).flatten
  rw [h.accepted, List.flatten_append, ← hs, List.flatten_singleton]
  exact hstream

/-- An effect that is no write and no acceptance keeps the ledger. -/
theorem Ledger.of_wires {s t : KcpSession} (hs : s.Ledger) (hwires : t.session.wires = s.session.wires)
    (hqueue : t.session.sendqueue = s.session.sendqueue) : t.Ledger := by
  unfold Ledger handed waiting at *
  rw [hwires, hqueue]
  exact hs

theorem sendBuffer_ledger {s : KcpSession} (h : s.Ledger) (hmemory : s.session.HasMemory)
    (now : BitVec 32) (buf : List UInt8) (msg : Nat) :
    (accept (s.sendBuffer now buf msg) buf).1.Ledger := by
  unfold accept
  rcases sendBuffer_carries hmemory now buf msg with ⟨hneg, hsame⟩ | ⟨hpos, hcarries⟩
  · rw [if_neg (by omega), hsame]
    exact h
  · rw [if_pos hpos]
    exact hcarries.accept h

theorem sessionSend_ledger {s : KcpSession} (h : s.Ledger) (hmemory : s.session.HasMemory)
    (now : BitVec 32) (buf : List UInt8) (transform : Transform) (msg : Nat) :
    (s.sessionSend now buf transform msg).1.Ledger := by
  unfold sessionSend
  split
  · exact sendBuffer_ledger h hmemory now _ msg
  · exact h

theorem sessionSendmessage_ledger {s : KcpSession} (h : s.Ledger) (hmemory : s.session.HasMemory)
    (now : BitVec 32) (message : Message) (transform : Transform) (msg : Nat) :
    (s.sessionSendmessage now message transform msg).1.Ledger := by
  have hqueued : Ledger (accept ({ s with session :=
      if (s.session.queuePush message).2 = 0 then
        (s.session.queuePush message).1.sessionAddEvent .evWrite
      else (s.session.queuePush message).1 }, (s.session.queuePush message).2) message.buffer).1 := by
    rw [Session.queuePush_of_memory message hmemory.allocate]
    let queued : Session :=
      { s.session.allocate.1 with sendqueue := s.session.sendqueue ++ [message] }
    have hwires : (queued.sessionAddEvent .evWrite).wires = s.session.wires :=
      Session.wires_of_trace (by simp [queued, Session.allocate])
    refine Carries.accept (t := { s with session := queued.sessionAddEvent .evWrite }) h
      ⟨⟨[], ?_, by simp⟩, ?_, congrArg Wires.accepted hwires⟩
    · rw [handed, hwires, List.append_nil]
      rfl
    · rw [handed, hwires]
      simp [handed, waiting, queued]
  -- counting a success or a failure does not matter
  have hnote : ∀ (t : KcpSession) (e : Effect), t.Ledger → e.isNote = true →
      Ledger { t with session := t.session.emit e } := by
    intro t e ht he
    exact ht.of_wires (by rw [Session.wires_emit, Wires.record_note _ he]) rfl
  have hfail : ∀ r : KcpSession × Int, r.1.Ledger →
      Ledger { r.1 with session :=
        if r.2 < 0 then r.1.session.emit (.messageAddFailure message.id) else r.1.session } := by
    intro r hr
    split
    · exact hnote _ _ hr rfl
    · exact hr
  unfold sessionSendmessage
  cases transform with
  | fresh bytes =>
    refine hfail (_, _) ?_
    dsimp only
    have hsent := sendBuffer_ledger h hmemory now bytes msg
    split
    · exact hnote _ _ hsent rfl
    · exact hsent
  | null => exact hfail (s, -1) h
  | absent => exact hfail _ hqueued
  | same => exact hfail _ hqueued

/-- Messages that are handed over as a whole go from the queue to KCP. -/
theorem HandsOver.ledger {s t : KcpSession} (hs : s.Ledger) (h : HandsOver s t) : t.Ledger := by
  -- what the trace says of the messages that were handed over
  have hfold : ∀ (ms : List Message) (w : Wires), (ms.flatMap handOver).foldl Wires.record w =
      { w with wire := w.wire ++ (ms.map Message.buffer).flatten } := by
    intro ms
    induction ms with
    | nil => intro w; simp
    | cons m ms ih =>
      intro w
      rw [List.flatMap_cons, List.foldl_append, ih]
      simp [handOver, Session.sentEffects, Wires.record]
  obtain ⟨taken, hqueue, htrace, -⟩ := h
  have hwires : t.session.wires = { s.session.wires with
      wire := s.session.wires.wire ++ (taken.map Message.buffer).flatten } := by
    rw [Session.wires_append _ htrace, hfold]
  unfold Ledger handed waiting at *
  rw [hwires]
  rw [hqueue, List.map_append, List.flatten_append] at hs
  rw [← hs, List.append_assoc]

theorem step_ledger {s : KcpSession} {i : KcpInput} (h : s.Ledger) (hwhole : s.KeepsWhole i) :
    (s.step i).Ledger := by
  cases i with
  | send now buf transform msg => exact sessionSend_ledger h hwhole now buf transform msg
  | sendmessage now message transform msg =>
    exact sessionSendmessage_ledger h hwhole now message transform msg
  | transmit now => exact ((s.driverTransmit_handsOver_iff now).mpr hwhole).ledger h
  | datagram now data => exact h.of_wires rfl rfl
  | timer now => exact h
  | setMtu mtu => exact h
  | setMinrto minrto => exact h
  | setWndsize sndwnd rcvwnd => exact h
  | status status => exact h.of_wires rfl rfl
  | answers memory => exact h.of_wires rfl rfl

/-! ## Main result -/

/-- A session that has sent a payload and has a broadcast in its queue. -/
def broadcastWaits : KcpSession :=
  (({} : KcpSession).step (.send 0 [1, 2, 3] .absent 1)).step
    (.sendmessage 0 ⟨2, [4, 5], []⟩ .absent 0)

/-- KCP in stream mode, when the peer's window is closed and a segment of one byte waits. -/
def closedWindow : Kcp :=
  { stream := true, updated := true, rmtWnd := 0, sndQueue := [{ frg := 0, data := [7] }] }

/-- A session with one message in its queue meanwhile. -/
def closedWindowSession (buffer : List UInt8) : KcpSession where
  session := { type := .shared, sendqueue := [⟨1, buffer, []⟩] }
  kcp := closedWindow

theorem closedWindowSession_split {buffer : List UInt8} (hlength : buffer.length = 200000) :
    ((closedWindowSession buffer).driverTransmit 0).1.session.sendqueue = [] ∧
      ¬HandsOver (closedWindowSession buffer) ((closedWindowSession buffer).driverTransmit 0).1 := by
  have hgo : ¬Refuses closedWindow (int32 buffer.length) := by
    rw [hlength]
    rintro (hneg | ⟨hroom, -⟩)
    · exact absurd hneg (by decide)
    · exact absurd hroom (by decide)
  have hpart : ¬TakesWhole closedWindow ⟨1, buffer, []⟩ := by
    rintro ⟨-, hfits⟩
    dsimp only at hfits
    rw [hlength] at hfits
    exact absurd hfits (by decide)
  have hcan : closedWindow.kcpCanSend = true := by decide
  constructor
  · rw [driverTransmit_eq]
    rcases transmitLoop_cons ⟨1, buffer, []⟩ [] 0 0 (closedWindowSession buffer) with
      ⟨hfull, -⟩ | ⟨-, hrefused, -⟩ | ⟨-, -, hrun⟩
    · exact absurd (hcan.symm.trans hfull) (by decide)
    · exact absurd hrefused hgo
    · exact congrArg (fun r => r.1.session.sendqueue) hrun
  · rw [driverTransmit_handsOver_iff]
    rintro (hfull | hrefused | ⟨hwhole, -⟩)
    · exact absurd (hcan.symm.trans hfull) (by decide)
    · exact hgo hrefused
    · exact hpart hwhole

end KcpSession

end Evlite
