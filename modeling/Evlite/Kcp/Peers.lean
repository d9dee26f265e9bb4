import Evlite.Kcp.Conversation
import Evlite.Kcp.Transmit

/-!
# Two Sessions over a Network

A session with a driver at either end, the control blocks of both, and the network in between.
Whatever a session does with its driver is a sequence of calls of KCP (`KcpSession.calls`), so a
run of the sessions is a run of the conversation of their control blocks. The send queue comes
before it, and the input buffer after it.

## Main results

- `KcpSession.step_calls`: what the calls take of the session, and what they give to it.
- `processed_in_order`: what one side processes is a beginning of what the other one accepted.
- `idle_processed`: if nothing is waiting, it is all of it.
-/

namespace Evlite

open Lib (GuardedRun guardedExec)

/-! ## The calls of a driver -/

namespace Kcp

/-- `_kcp_refresh_state` -/
def refreshCalls (now : BitVec 32) : List KcpCall := [.update now, .flush]

/-- `driver_send` -/
def sendCalls (kcp : Kcp) (now : BitVec 32) (buf : List UInt8) : List KcpCall :=
  if kcp.kcpCanSend then .send buf (int32 buf.length) :: .flush :: refreshCalls now
  else refreshCalls now

/-- The loop of `driver_transmit` -/
def transmitCalls : List Message → Kcp → List KcpCall
  | [], _ => []
  | m :: q, kcp =>
    if !kcp.kcpCanSend then []
    else
      let r := kcp.ikcpSend m.buffer (int32 m.buffer.length)
      .send m.buffer (int32 m.buffer.length) :: .flush ::
        if r.2 < 0 then [] else transmitCalls q r.1.ikcpFlush

/-- The loop of `driver_input` -/
def recvCalls (kcp : Kcp) : List KcpCall :=
  if kcp.ikcpPeeksize ≤ 0 then []
  else
    let r := kcp.ikcpRecv kcp.ikcpPeeksize.toNat
    .recv kcp.ikcpPeeksize.toNat :: if r.2.2 ≤ 0 then [] else recvCalls r.1
termination_by kcp.received
decreasing_by
  rename_i hsize _
  have hready : 0 ≤ kcp.ikcpPeeksize := by omega
  have hshrinks := ikcpRecv_shrinks hready
  rwa [show kcp.ikcpPeeksize.toNat = kcp.message.length by rw [ikcpPeeksize_eq hready]; rfl]

/-- The control block after a sequence of calls. -/
def calls (kcp : Kcp) (cs : List KcpCall) : Kcp := cs.foldl (fun kcp c => (kcp.call c).1) kcp

/-- The bytes that a call takes: those that `ikcp_send` says it has taken. -/
def taken (kcp : Kcp) : KcpCall → List UInt8
  | .send buffer len => buffer.take (kcp.ikcpSend buffer len).2.toNat
  | _ => []

/-- The bytes that are taken along `cs`. -/
def takenAlong (kcp : Kcp) : List KcpCall → List UInt8
  | [] => []
  | c :: cs => kcp.taken c ++ takenAlong (kcp.call c).1 cs

/-- The bytes that are returned along `cs`. -/
def givenAlong (kcp : Kcp) : List KcpCall → List UInt8
  | [] => []
  | c :: cs => (kcp.call c).2.bytes ++ givenAlong (kcp.call c).1 cs

theorem calls_append (kcp : Kcp) (cs ds : List KcpCall) :
    kcp.calls (cs ++ ds) = (kcp.calls cs).calls ds := List.foldl_append

theorem takenAlong_append (kcp : Kcp) (cs ds : List KcpCall) :
    kcp.takenAlong (cs ++ ds) = kcp.takenAlong cs ++ (kcp.calls cs).takenAlong ds := by
  induction cs generalizing kcp with
  | nil => rfl
  | cons c cs ih =>
    show kcp.taken c ++ (kcp.call c).1.takenAlong (cs ++ ds) = _
    rw [ih, ← List.append_assoc]
    rfl

theorem givenAlong_append (kcp : Kcp) (cs ds : List KcpCall) :
    kcp.givenAlong (cs ++ ds) = kcp.givenAlong cs ++ (kcp.calls cs).givenAlong ds := by
  induction cs generalizing kcp with
  | nil => rfl
  | cons c cs ih =>
    show (kcp.call c).2.bytes ++ (kcp.call c).1.givenAlong (cs ++ ds) = _
    rw [ih, ← List.append_assoc]
    rfl

/-! ### What they amount to -/

theorem calls_sendCalls (kcp : Kcp) (now : BitVec 32) (buf : List UInt8) :
    kcp.calls (kcp.sendCalls now buf) = (kcp.driverSend now buf).1 := by
  unfold sendCalls driverSend
  dsimp only
  split <;> rfl

theorem takenAlong_sendCalls (kcp : Kcp) (now : BitVec 32) (buf : List UInt8) :
    kcp.takenAlong (kcp.sendCalls now buf) = buf.take (kcp.driverSend now buf).2.toNat := by
  unfold sendCalls driverSend
  dsimp only
  split
  · -- a call that fails takes nothing
    show buf.take (kcp.ikcpSend buf (int32 buf.length)).2.toNat ++ [] = _
    rw [List.append_nil]
    split
    · rename_i hneg
      rw [Int.toNat_of_nonpos (Int.le_of_lt hneg)]
      rfl
    · rfl
  · rfl

theorem givenAlong_sendCalls (kcp : Kcp) (now : BitVec 32) (buf : List UInt8) :
    kcp.givenAlong (kcp.sendCalls now buf) = [] := by
  unfold sendCalls
  split <;> rfl

/-- The loop of `driver_input` receives message after message. -/
theorem driverInputLoop_calls (kcp : Kcp) (out : List UInt8) (len : Nat) :
    (kcp.driverInputLoop out len).1 = kcp.calls kcp.recvCalls ∧
      (kcp.driverInputLoop out len).2.1 = out ++ kcp.givenAlong kcp.recvCalls := by
  induction kcp, out, len using driverInputLoop.induct with
  | case1 kcp out len hnone =>
    rw [driverInputLoop, if_pos hnone, recvCalls, if_pos hnone]
    exact ⟨rfl, (List.append_nil out).symm⟩
  | case2 kcp out len hsome r hempty =>
    -- a message whose size is positive has bytes
    have hready : 0 ≤ kcp.ikcpPeeksize := by omega
    have hsize := ikcpPeeksize_eq hready
    have hgiven := ikcpRecv_complete hready
    have hpositive : ¬r.2.2 ≤ 0 := by
      show ¬(kcp.ikcpRecv kcp.ikcpPeeksize.toNat).2.2 ≤ 0
      rw [hsize, Int.toNat_natCast, hgiven]
      dsimp only
      omega
    exact absurd hempty hpositive
  | case3 kcp out len hsome r hbytes ih =>
    rw [driverInputLoop, if_neg hsome, recvCalls, if_neg hsome]
    dsimp only
    rw [if_neg hbytes, if_neg hbytes]
    obtain ⟨hstate, hout⟩ := ih
    refine ⟨hstate, hout.trans ?_⟩
    rw [List.append_assoc]
    rfl

/-- So `driver_input` gives what is available, and refreshes. -/
def inputCalls (kcp : Kcp) (now : BitVec 32) (data : List UInt8) : List KcpCall :=
  .input data :: ((kcp.ikcpInput data).1.recvCalls ++ refreshCalls now)

theorem inputCalls_eq (kcp : Kcp) (now : BitVec 32) (data out : List UInt8) :
    (kcp.driverInput now data out).1 = kcp.calls (kcp.inputCalls now data) ∧
      (kcp.driverInput now data out).2.1 = out ++ kcp.givenAlong (kcp.inputCalls now data) ∧
      kcp.takenAlong (kcp.inputCalls now data) = [] := by
  obtain ⟨hstate, hout⟩ := (kcp.ikcpInput data).1.driverInputLoop_calls out 0
  -- receiving takes nothing
  have hrecv : ∀ kcp : Kcp, kcp.takenAlong kcp.recvCalls = [] := by
    intro kcp
    induction kcp using recvCalls.induct with
    | case1 kcp hnone =>
      rw [recvCalls, if_pos hnone]
      rfl
    | case2 kcp hsome r ih =>
      rw [recvCalls, if_neg hsome]
      show [] ++ r.1.takenAlong (if r.2.2 ≤ 0 then [] else r.1.recvCalls) = []
      split
      · rfl
      · exact ih
  have hcalls : kcp.calls (kcp.inputCalls now data) =
      ((kcp.ikcpInput data).1.calls (kcp.ikcpInput data).1.recvCalls).kcpRefreshState now :=
    calls_append _ _ _
  have hgiven : kcp.givenAlong (kcp.inputCalls now data) =
      (kcp.ikcpInput data).1.givenAlong (kcp.ikcpInput data).1.recvCalls := by
    show [] ++ (kcp.ikcpInput data).1.givenAlong (_ ++ refreshCalls now) = _
    rw [givenAlong_append]
    exact List.append_nil _
  have htaken : kcp.takenAlong (kcp.inputCalls now data) = [] := by
    show [] ++ (kcp.ikcpInput data).1.takenAlong (_ ++ refreshCalls now) = _
    rw [takenAlong_append, hrecv]
    rfl
  refine ⟨?_, ?_, htaken⟩
  · rw [hcalls, ← hstate]
    rfl
  · rw [hgiven]
    exact hout

end Kcp

theorem Session.sessionAddEvent_inbuffer (s : Session) (ev : EvMask) :
    (s.sessionAddEvent ev).inbuffer = s.inbuffer := by
  have hcore := congrArg Session.inbuffer (s.sessionAddEvent_core ev)
  exact hcore

namespace KcpSession

/-- `_send_only` -/
def sendOnlyCalls (s : KcpSession) (now : BitVec 32) (buf : List UInt8) : List KcpCall :=
  if s.session.status.exiting then []
  else if !s.session.status.writing && s.session.sendqueue.isEmpty then s.kcp.sendCalls now buf
  else []

/-- The calls of KCP when something happens to a session. -/
def calls (s : KcpSession) : KcpInput → List KcpCall
  | .send now buf transform _ =>
    match transform.apply buf with
    | some buf' => s.sendOnlyCalls now buf'
    | none => []
  | .sendmessage now _ transform _ =>
    match transform with
    | .fresh bytes => s.sendOnlyCalls now bytes
    | _ => []
  | .transmit now => Kcp.transmitCalls s.session.sendqueue s.kcp ++ Kcp.refreshCalls now
  | .datagram now data => s.kcp.inputCalls now data
  | .timer now => Kcp.refreshCalls now
  | .setMtu mtu => [.setmtu (BitVec.ofInt 32 mtu)]
  | .setMinrto minrto => [.minrto minrto]
  | .setWndsize sndwnd rcvwnd => [.wndsize (BitVec.ofInt 32 sndwnd) (BitVec.ofInt 32 rcvwnd)]
  | .status _ => []
  | .answers _ => []

/-- The calls `cs` lead from `s` to `t`: they take the bytes that the session hands over, and
give those that its input buffer gets. -/
structure Through (cs : List KcpCall) (s t : KcpSession) : Prop where
  kcp_eq : t.kcp = s.kcp.calls cs
  handed_eq : t.handed = s.handed ++ s.kcp.takenAlong cs
  inbuffer_eq : t.session.inbuffer = s.session.inbuffer ++ s.kcp.givenAlong cs

theorem Through.trans {cs ds : List KcpCall} {s t u : KcpSession} (h : Through cs s t)
    (h' : Through ds t u) : Through (cs ++ ds) s u where
  kcp_eq := by rw [h'.kcp_eq, h.kcp_eq, Kcp.calls_append]
  handed_eq := by
    rw [h'.handed_eq, h.handed_eq, h.kcp_eq, Kcp.takenAlong_append, List.append_assoc]
  inbuffer_eq := by
    rw [h'.inbuffer_eq, h.inbuffer_eq, h.kcp_eq, Kcp.givenAlong_append, List.append_assoc]

/-- The rest of the session may change. -/
theorem Through.of_session {cs : List KcpCall} {s t u : KcpSession} (h : Through cs s t)
    (hkcp : u.kcp = t.kcp) (hwires : u.session.wires.wire = t.session.wires.wire)
    (hinbuffer : u.session.inbuffer = t.session.inbuffer) : Through cs s u where
  kcp_eq := hkcp.trans h.kcp_eq
  handed_eq := hwires.trans h.handed_eq
  inbuffer_eq := hinbuffer.trans h.inbuffer_eq

theorem Through.refl (s : KcpSession) : Through [] s s :=
  ⟨rfl, (List.append_nil _).symm, (List.append_nil _).symm⟩

theorem through_refreshCalls (s : KcpSession) (now : BitVec 32) :
    Through (Kcp.refreshCalls now) s { s with kcp := s.kcp.kcpRefreshState now } :=
  ⟨rfl, (List.append_nil _).symm, (List.append_nil _).symm⟩

theorem through_sendOnly (s : KcpSession) (now : BitVec 32) (buf : List UInt8) :
    Through (s.sendOnlyCalls now buf) s (s.sendOnly now buf).1 := by
  unfold sendOnlyCalls sendOnly
  split
  · exact .refl s
  · split
    · refine ⟨(Kcp.calls_sendCalls _ _ _).symm, ?_, ?_⟩
      · rw [Kcp.takenAlong_sendCalls, handed, Session.wires_emit]
        rfl
      · rw [Kcp.givenAlong_sendCalls, List.append_nil]
        rfl
    · exact .refl s

theorem through_sendBuffer (s : KcpSession) (now : BitVec 32) (buf : List UInt8) (msg : Nat) :
    Through (s.sendOnlyCalls now buf) s (s.sendBuffer now buf msg).1 := by
  have h := s.through_sendOnly now buf
  -- what was not taken is queued
  have hqueued : ∀ (t : KcpSession) (n : Nat),
      Through (s.sendOnlyCalls now buf) s t →
      Through (s.sendOnlyCalls now buf) s { t with session := t.session.queueRest buf msg n } := by
    intro t n ht
    have hwires : (t.session.queueRest buf msg n).wires = t.session.wires :=
      Session.wires_append [.messageCreate msg] (t.session.queueRest_trace buf msg n)
    exact ht.of_session rfl (congrArg Wires.wire hwires) (Session.sessionAddEvent_inbuffer _ _)
  unfold sendBuffer
  generalize s.sendOnly now buf = r at h ⊢
  obtain ⟨t, n⟩ := r
  dsimp only at h ⊢
  split
  · split
    · -- no memory, and what was not taken is lost
      exact h.of_session rfl rfl rfl
    · exact hqueued t n.toNat h
  · exact h

/-- Accepting a payload writes nothing. -/
theorem Through.accept {cs : List KcpCall} {s : KcpSession} {r : KcpSession × Int}
    (h : Through cs s r.1) (payload : List UInt8) : Through cs s (accept r payload).1 := by
  unfold KcpSession.accept
  split
  · exact h.of_session rfl (by rw [Session.wires_emit]; rfl) rfl
  · exact h

/-- Nor does counting a success or a failure. -/
theorem Through.note {cs : List KcpCall} {s t : KcpSession} (h : Through cs s t) {e : Effect}
    (he : e.isNote = true) : Through cs s { t with session := t.session.emit e } :=
  h.of_session rfl (by rw [Session.wires_emit, Wires.record_note _ he]) rfl

theorem through_sendmessage (s : KcpSession) (now : BitVec 32) (message : Message)
    (transform : Transform) (msg : Nat) :
    Through (s.calls (.sendmessage now message transform msg)) s
      (s.sessionSendmessage now message transform msg).1 := by
  -- a failure is only counted
  have hfail : ∀ (cs : List KcpCall) (r : KcpSession × Int), Through cs s r.1 →
      Through cs s { r.1 with session :=
        if r.2 < 0 then r.1.session.emit (.messageAddFailure message.id) else r.1.session } := by
    intro cs r hr
    split
    · exact hr.note rfl
    · exact hr
  -- a message that is not transformed is queued
  have hqueued : ∀ r : Session × Int, r = s.session.queuePush message →
      Through [] s (accept ({ s with session :=
        if r.2 = 0 then r.1.sessionAddEvent .evWrite else r.1 }, r.2) message.buffer).1 := by
    rintro _ rfl
    apply Through.accept
    split
    · refine (Through.refl s).of_session rfl ?_ (Session.sessionAddEvent_inbuffer _ _)
      exact congrArg Wires.wire (Session.wires_of_trace (Session.sessionAddEvent_trace _ _))
    · exact (Through.refl s).of_session rfl rfl rfl
  unfold sessionSendmessage
  cases transform with
  | fresh bytes =>
    refine hfail _ (_, _) ?_
    dsimp only
    have hsent := (s.through_sendBuffer now bytes msg).accept bytes
    split
    · exact hsent.note rfl
    · exact hsent
  | null => exact hfail _ (s, -1) (.refl s)
  | absent => exact hfail _ _ (hqueued _ rfl)
  | same => exact hfail _ _ (hqueued _ rfl)

/-- A message that leaves the queue is written as far as `ikcp_send` has taken it. -/
theorem through_sentMessage (s : KcpSession) (m : Message) (q : List Message) :
    Through [.send m.buffer (int32 m.buffer.length), .flush] s (s.sentMessage m q) := by
  refine ⟨rfl, ?_, (List.append_nil _).symm⟩
  have hwires := Session.wires_append (s := s.session) (t := (s.sentMessage m q).session)
    (.wrote (m.buffer.take (s.kcp.ikcpSend m.buffer (int32 m.buffer.length)).2.toNat) ::
      Session.sentEffects m) (by simp [sentMessage, popMessage, Session.emit, Session.emits])
  rw [handed, hwires]
  simp [Session.sentEffects, Wires.record, handed, Kcp.takenAlong, Kcp.taken]

theorem through_transmitLoop (q : List Message) (rc writen : Int) (s : KcpSession) :
    Through (Kcp.transmitCalls q s.kcp) s (transmitLoop q rc writen s).1 := by
  induction q generalizing s rc writen with
  | nil => exact .refl s
  | cons m q ih =>
    unfold transmitLoop Kcp.transmitCalls
    dsimp only
    split
    · exact .refl s
    · split
      · -- the message is refused, and stays
        rename_i hneg
        refine ⟨rfl, ?_, (List.append_nil _).symm⟩
        show s.handed = s.handed ++ (m.buffer.take _ ++ ([] ++ []))
        rw [Int.toNat_of_nonpos (Int.le_of_lt hneg)]
        simp
      · exact (s.through_sentMessage m q).trans (ih _ _ (s.sentMessage m q))

/-- The arguments are those of an `int32_t`. -/
def KcpInput.InRange : KcpInput → Prop
  | .setMtu mtu => (BitVec.ofInt 32 mtu).toInt = mtu
  | .setWndsize sndwnd rcvwnd =>
    (BitVec.ofInt 32 sndwnd).toInt = sndwnd ∧ (BitVec.ofInt 32 rcvwnd).toInt = rcvwnd
  | _ => True

/-- What happens to a session leads its KCP through the calls, which take and give its bytes. -/
theorem step_calls (s : KcpSession) (i : KcpInput) (hi : i.InRange) :
    Through (s.calls i) s (s.step i) := by
  cases i with
  | send now buf transform msg =>
    show Through _ s (s.sessionSend now buf transform msg).1
    unfold calls sessionSend
    dsimp only
    cases transform.apply buf with
    | some buf' => exact (s.through_sendBuffer now buf' msg).accept buf'
    | none => exact .refl s
  | sendmessage now message transform msg => exact s.through_sendmessage now message transform msg
  | transmit now =>
    -- first the queue, as long as KCP takes it, and then a refresh
    show Through _ s (s.driverTransmit now).1
    rw [driverTransmit_eq]
    exact (through_transmitLoop s.session.sendqueue 0 0 s).trans (through_refreshCalls _ now)
  | datagram now data =>
    obtain ⟨hstate, hout, htaken⟩ := s.kcp.inputCalls_eq now data s.session.inbuffer
    refine ⟨hstate, ?_, hout⟩
    show s.handed = s.handed ++ s.kcp.takenAlong (s.kcp.inputCalls now data)
    rw [htaken, List.append_nil]
  | timer now => exact s.through_refreshCalls now
  | setMtu mtu =>
    refine ⟨?_, (List.append_nil _).symm, (List.append_nil _).symm⟩
    -- the option is an `int32_t`
    show s.kcp.ikcpSetmtu mtu = s.kcp.ikcpSetmtu (BitVec.ofInt 32 mtu).toInt
    rw [show (BitVec.ofInt 32 mtu).toInt = mtu from hi]
  | setWndsize sndwnd rcvwnd =>
    obtain ⟨hsnd, hrcv⟩ := hi
    refine ⟨?_, (List.append_nil _).symm, (List.append_nil _).symm⟩
    show s.kcp.ikcpWndsize sndwnd rcvwnd =
      s.kcp.ikcpWndsize (BitVec.ofInt 32 sndwnd).toInt (BitVec.ofInt 32 rcvwnd).toInt
    rw [hsnd, hrcv]
  | setMinrto minrto => exact ⟨rfl, (List.append_nil _).symm, (List.append_nil _).symm⟩
  | status status => exact (Through.refl s).of_session rfl rfl rfl
  | answers memory => exact (Through.refl s).of_session rfl rfl rfl

/-- What a driver calls when it does not set an option. -/
def IsPlain : KcpCall → Prop
  | .send _ _ | .recv _ | .update _ | .flush => True
  | _ => False

theorem plain_refreshCalls (now : BitVec 32) : ∀ c ∈ Kcp.refreshCalls now, IsPlain c := by
  intro c hc
  rcases List.mem_cons.mp hc with rfl | hc
  · trivial
  · rw [List.mem_singleton.mp hc]
    trivial

theorem plain_sendOnlyCalls (s : KcpSession) (now : BitVec 32) (buf : List UInt8) :
    ∀ c ∈ s.sendOnlyCalls now buf, IsPlain c := by
  have hnone : ∀ c ∈ ([] : List KcpCall), IsPlain c := fun c hc => absurd hc List.not_mem_nil
  unfold sendOnlyCalls
  split
  · exact hnone
  · split
    · unfold Kcp.sendCalls
      split
      · intro c hc
        rcases List.mem_cons.mp hc with rfl | hc
        · trivial
        · rcases List.mem_cons.mp hc with rfl | hc
          · trivial
          · exact plain_refreshCalls now c hc
      · exact plain_refreshCalls now
    · exact hnone

theorem plain_transmitCalls (q : List Message) (kcp : Kcp) :
    ∀ c ∈ Kcp.transmitCalls q kcp, IsPlain c := by
  induction q generalizing kcp with
  | nil => simp [Kcp.transmitCalls]
  | cons m q ih =>
    unfold Kcp.transmitCalls
    dsimp only
    split
    · simp
    · simp only [List.mem_cons, forall_eq_or_imp]
      refine ⟨trivial, trivial, ?_⟩
      split
      · simp
      · exact ih _

theorem plain_recvCalls (kcp : Kcp) : ∀ c ∈ kcp.recvCalls, IsPlain c := by
  induction kcp using Kcp.recvCalls.induct with
  | case1 kcp hnone =>
    rw [Kcp.recvCalls, if_pos hnone]
    simp
  | case2 kcp hsome r ih =>
    rw [Kcp.recvCalls, if_neg hsome]
    simp only [List.mem_cons, forall_eq_or_imp]
    refine ⟨trivial, ?_⟩
    split
    · simp
    · exact ih

/-- A datagram comes first; what else a session calls sets an option, or is plain. -/
theorem calls_cases (s : KcpSession) (i : KcpInput) :
    (∃ now data, i = .datagram now data ∧
        ∃ cs, s.calls i = .input data :: cs ∧ ∀ c ∈ cs, IsPlain c) ∨
      (∀ c ∈ s.calls i, IsPlain c) ∨ (∃ mtu, i = .setMtu mtu) ∨
      (∃ minrto, i = .setMinrto minrto) ∨ ∃ snd rcv, i = .setWndsize snd rcv := by
  cases i with
  | send now buf transform msg =>
    right; left
    unfold calls
    dsimp only
    split
    · exact s.plain_sendOnlyCalls now _
    · simp
  | sendmessage now message transform msg =>
    right; left
    unfold calls
    dsimp only
    split
    · exact s.plain_sendOnlyCalls now _
    · simp
  | transmit now =>
    right; left
    intro c hc
    rcases List.mem_append.mp hc with hc | hc
    · exact plain_transmitCalls _ _ c hc
    · exact plain_refreshCalls now c hc
  | datagram now data =>
    refine .inl ⟨now, data, rfl, _, rfl, fun c hc => ?_⟩
    rcases List.mem_append.mp hc with hc | hc
    · exact plain_recvCalls _ c hc
    · exact plain_refreshCalls now c hc
  | timer now => exact .inr (.inl (plain_refreshCalls now))
  | setMtu mtu => exact .inr (.inr (.inl ⟨mtu, rfl⟩))
  | setMinrto minrto => exact .inr (.inr (.inr (.inl ⟨minrto, rfl⟩)))
  | setWndsize snd rcv => exact .inr (.inr (.inr (.inr ⟨snd, rcv, rfl⟩)))
  | status status => exact .inr (.inl (by simp [calls]))
  | answers memory => exact .inr (.inl (by simp [calls]))

end KcpSession

/-! ## A side that is called -/

namespace Conversation

/-- A sequence of calls on a side. -/
def Side.calls (s : Side) (theirs : Nat) (cs : List KcpCall) : Side :=
  cs.foldl (fun s c => s.call theirs c) s

theorem accepted_bytes (cb : Ikcpcb) (c : KcpCall) : (cb.accepted c).flatten = cb.kcp.taken c := by
  cases c with
  | send buffer len =>
    show (if 0 ≤ (cb.kcp.ikcpSend buffer len).2 then
      [buffer.take (cb.kcp.ikcpSend buffer len).2.toNat] else []).flatten = _
    split
    · exact List.flatten_singleton
    · rename_i hneg
      show [] = buffer.take (cb.kcp.ikcpSend buffer len).2.toNat
      rw [Int.toNat_of_nonpos (by omega)]
      rfl
  | _ => rfl

/-- Without congestion control, the calls do to a side what they do to its small control block. -/
theorem Side.calls_bytes {s : Side} (hnocwnd : s.cb.nocwnd ≠ 0) (theirs : Nat) {cs : List KcpCall}
    (hcs : ∀ c ∈ cs, Ikcpcb.KeepsNocwnd c) :
    (s.calls theirs cs).cb.nocwnd ≠ 0 ∧ (s.calls theirs cs).cb.kcp = s.cb.kcp.calls cs ∧
      (s.calls theirs cs).accepted.flatten = s.accepted.flatten ++ s.cb.kcp.takenAlong cs ∧
      (s.calls theirs cs).received.flatten = s.received.flatten ++ s.cb.kcp.givenAlong cs := by
  induction cs generalizing s with
  | nil => exact ⟨hnocwnd, rfl, (List.append_nil _).symm, (List.append_nil _).symm⟩
  | cons c cs ih =>
    -- without congestion control the small control block does what the large one does
    have hcall := Ikcpcb.kcp_call hnocwnd c
    have hkcp : (s.call theirs c).cb.kcp = (s.cb.kcp.call c).1 := congrArg Prod.fst hcall
    have hgiven : (s.cb.returned c).flatten = (s.cb.kcp.call c).2.bytes := by
      rw [Ikcpcb.returned_flatten, ← Ikcpcb.call_bytes, ← hcall]
    obtain ⟨hkept, hstate, haccepted, hreceived⟩ :=
      @ih (s.call theirs c) (Ikcpcb.nocwnd_call hnocwnd (hcs c List.mem_cons_self))
        (fun d hd => hcs d (List.mem_cons_of_mem c hd))
    rw [hkcp] at hstate haccepted hreceived
    refine ⟨hkept, hstate, haccepted.trans ?_, hreceived.trans ?_⟩
    · show (s.accepted ++ s.cb.accepted c).flatten ++ _ = _ ++ (s.cb.kcp.taken c ++ _)
      rw [List.flatten_append, accepted_bytes, List.append_assoc]
    · show (s.received ++ s.cb.returned c).flatten ++ _ = _ ++ ((s.cb.kcp.call c).2.bytes ++ _)
      rw [List.flatten_append, hgiven, List.append_assoc]

/-- A call that gives a datagram is the datagram that comes in. -/
theorem Side.call_input (s : Side) (theirs : Nat) (data : List UInt8) :
    s.call theirs (.input data) = s.input data := by
  show Side.mk _ (s.sent ++ []) (s.handed ++ []) (s.accepted ++ []) (s.received ++ [])
    (s.posted ++ []) = _
  simp only [List.append_nil]
  rfl

/-- The calls on a side are steps of the conversation. -/
theorem run_calls (l : Conversation) (who : Bool) {cs : List KcpCall}
    (hcs : ∀ c ∈ cs, c.isInput = false ∧ ∀ l : Conversation, l.Timely (.call who c)) :
    GuardedRun step Timely l (cs.map (.call who))
      (Function.update l who ((l who).calls (l !who).sent.length cs)) := by
  induction cs generalizing l with
  | nil =>
    have hsame : Function.update l who (l who) = l := Function.update_eq_self who l
    show GuardedRun step Timely l [] (Function.update l who (l who))
    rw [hsame]
    exact .nil l
  | cons c cs ih =>
    obtain ⟨hinput, htimely⟩ := hcs c List.mem_cons_self
    have hother : (!who) ≠ who := by cases who <;> decide
    have hrest := ih (Function.update l who ((l who).call (l !who).sent.length c))
      fun d hd => hcs d (List.mem_cons_of_mem c hd)
    rw [Function.update_self, Function.update_of_ne hother, Function.update_idem] at hrest
    -- the first call changes one side only, and the other calls are made on that
    refine .cons (htimely l) ?_ hrest
    show (if c.isInput then none else some _) = some _
    rw [hinput]
    rfl

end Conversation

/-! ## The two sessions -/

/-- A session with its driver, and what the logic has processed. -/
structure Peer where
  session : Session := { type := .shared }
  side : Conversation.Side
  processed : List UInt8 := []
deriving DecidableEq, Repr

namespace Peer

/-- The session and the queues of its KCP. -/
def kcpSession (p : Peer) : KcpSession := { session := p.session, kcp := p.side.cb.kcp }

/-- Something happens to the session of a peer. -/
def happen (p : Peer) (theirs : Nat) (i : KcpSession.KcpInput) : Peer :=
  { p with
    session := (p.kcpSession.step i).session
    side := p.side.calls theirs (p.kcpSession.calls i) }

/-- The logic processes `n` bytes of the input buffer. -/
def process (p : Peer) (n : Nat) : Peer :=
  { p with
    session := { p.session with inbuffer := p.session.inbuffer.drop n }
    processed := p.processed ++ p.session.inbuffer.take n }

end Peer

/-- The two ends of a connection. -/
abbrev Peers := Bool → Peer

namespace Peers

inductive Event where
  /-- Something happens to the session of `who`, but no datagram comes in. -/
  | session (who : Bool) (i : KcpSession.KcpInput)
  /-- The datagram that the other side posted as number `k` comes in on the side `who`. -/
  | deliver (who : Bool) (now : BitVec 32) (k : Nat)
  /-- The logic of `who` processes `n` bytes. -/
  | process (who : Bool) (n : Nat)
deriving DecidableEq, Repr

/-- The control blocks of both ends. -/
def conversation (l : Peers) : Conversation := fun who => (l who).side

def step (l : Peers) : Event → Option Peers
  | .session _ (.datagram _ _) => none
  | .session who i => some (Function.update l who ((l who).happen (l !who).side.sent.length i))
  | .deliver who now k => (l !who).side.posted[k]?.map fun d =>
    Function.update l who ((l who).happen (l !who).side.sent.length (.datagram now d.bytes))
  | .process who n => some (Function.update l who ((l who).process n))

/-- No message is split, there is memory for a payload that is sent, no datagram is too old, no
window is larger than a quarter of the numbers, and what is an `int32_t` has the value of one. -/
def Allowed (l : Peers) : Event → Prop
  | .session _ (.setMtu mtu) => KcpSession.KcpInput.InRange (.setMtu mtu)
  | .session _ (.setWndsize sndwnd rcvwnd) =>
    KcpSession.KcpInput.InRange (.setWndsize sndwnd rcvwnd) ∧ rcvwnd ≤ 2 ^ 30
  | .session who i => (l who).kcpSession.KeepsWhole i
  | .deliver who _ k => l.conversation.Timely (.deliver who k)
  | .process _ _ => True

/-- A new connection. -/
def start (conv : BitVec 32) (options : Bool → Ikcpcb.Options) : Peers :=
  fun who => { side := { cb := Ikcpcb.driverCreate conv (options who) } }

end Peers

/-! ## What a peer keeps -/

/-- A plain call is a step of the conversation at any time. -/
theorem KcpSession.timely_of_plain (who : Bool) {c : KcpCall} (hc : IsPlain c) :
    c.isInput = false ∧ ∀ l : Conversation, l.Timely (.call who c) := by
  cases c with
  | send | recv | update | flush => exact ⟨rfl, fun _ => trivial⟩
  | _ => cases hc

theorem KcpSession.keepsNocwnd_calls (s : KcpSession) (i : KcpInput) :
    ∀ c ∈ s.calls i, Ikcpcb.KeepsNocwnd c := by
  have hplain : ∀ c, IsPlain c → Ikcpcb.KeepsNocwnd c := by
    intro c hc
    cases c with
    | nodelay => cases hc
    | _ => trivial
  rcases s.calls_cases i with
    ⟨now, data, -, cs, heq, hcs⟩ | hcs | ⟨mtu, rfl⟩ | ⟨minrto, rfl⟩ | ⟨snd, rcv, rfl⟩
  · rw [heq]
    intro c hc
    rcases List.mem_cons.mp hc with rfl | hc
    · trivial
    · exact hplain c (hcs c hc)
  · exact fun c hc => hplain c (hcs c hc)
  all_goals
    intro c hc
    rw [List.mem_singleton.mp hc]
    trivial

namespace Peer

/-- KCP has taken what the session handed over, and what KCP has returned is in the input buffer
or has been processed. -/
structure Keeps (p : Peer) : Prop where
  nocwnd_ne : p.side.cb.nocwnd ≠ 0
  ledger : p.kcpSession.Ledger
  handed_eq : p.kcpSession.handed = p.side.accepted.flatten
  received_eq : p.processed ++ p.session.inbuffer = p.side.received.flatten

/-- Whatever happens, the session sees the KCP of its side. -/
theorem Keeps.happen {p : Peer} (h : p.Keeps) {i : KcpSession.KcpInput} (hi : i.InRange)
    (hwhole : p.kcpSession.KeepsWhole i) (theirs : Nat) :
    (p.happen theirs i).Keeps ∧ (p.happen theirs i).kcpSession = p.kcpSession.step i := by
  obtain ⟨hkcp, hhanded, hinbuffer⟩ := p.kcpSession.step_calls i hi
  obtain ⟨hnocwnd, hstate, haccepted, hreceived⟩ :=
    Conversation.Side.calls_bytes h.nocwnd_ne theirs (p.kcpSession.keepsNocwnd_calls i)
  -- the KCP that the session sees and that of the side do the same
  have hsame : (p.happen theirs i).kcpSession = p.kcpSession.step i := by
    show KcpSession.mk (p.kcpSession.step i).session
      (p.side.calls theirs (p.kcpSession.calls i)).cb.kcp = _
    rw [hstate]
    exact congrArg (KcpSession.mk (p.kcpSession.step i).session) hkcp.symm
  refine ⟨⟨hnocwnd, ?_, ?_, ?_⟩, hsame⟩
  · rw [hsame]
    exact KcpSession.step_ledger h.ledger hwhole
  · rw [hsame, hhanded, h.handed_eq]
    exact haccepted.symm
  · show p.processed ++ (p.kcpSession.step i).session.inbuffer = _
    rw [hinbuffer, ← List.append_assoc]
    show (p.processed ++ p.session.inbuffer) ++ _ = _
    rw [h.received_eq]
    exact hreceived.symm

theorem Keeps.process {p : Peer} (h : p.Keeps) (n : Nat) : (p.process n).Keeps where
  nocwnd_ne := h.nocwnd_ne
  ledger := h.ledger.of_wires rfl rfl
  handed_eq := h.handed_eq
  received_eq := by
    show (p.processed ++ p.session.inbuffer.take n) ++ p.session.inbuffer.drop n = _
    rw [List.append_assoc, List.take_append_drop]
    exact h.received_eq

end Peer

namespace Peers

theorem conversation_update (l : Peers) (who : Bool) (p : Peer) :
    conversation (Function.update l who p) = Function.update l.conversation who p.side := by
  funext side
  unfold conversation
  by_cases heq : side = who
  · subst heq
    rw [Function.update_self, Function.update_self]
  · rw [Function.update_of_ne heq, Function.update_of_ne heq]

/-- The control blocks are in a state that their conversation reaches. -/
structure Coupled (l : Peers) (conv : BitVec 32) (options : Bool → Ikcpcb.Options) : Prop where
  conversed : ∃ es, GuardedRun Conversation.step Conversation.Timely
    (Conversation.start conv options) es l.conversation
  keeps : ∀ who, (l who).Keeps

variable {conv : BitVec 32} {options : Bool → Ikcpcb.Options}

theorem coupled_start : (start conv options).Coupled conv options where
  conversed := ⟨[], .nil _⟩
  keeps who := by
    -- the driver turns congestion control off, and no later option turns it on
    have hnodelay : (({ conv := conv } : Ikcpcb).ikcpNodelay 1 (options who).interval
        (options who).resend 1).nocwnd ≠ 0 := by
      unfold Ikcpcb.ikcpNodelay
      dsimp only
      rw [if_pos (by decide : (0 : Int) ≤ 1)]
      show (1 : Int).toNat ≠ 0
      decide
    have hmtu := Ikcpcb.nocwnd_call (c := .setmtu (options who).mtu) hnodelay trivial
    have hwnd := Ikcpcb.nocwnd_call (c := .wndsize (options who).sndwnd (options who).rcvwnd) hmtu
      trivial
    exact ⟨hwnd, rfl, rfl, rfl⟩

theorem Coupled.keeps_update {l : Peers} (h : l.Coupled conv options) (who : Bool) {p : Peer}
    (hp : p.Keeps) : ∀ side, (Function.update l who p side).Keeps := by
  intro side
  by_cases heq : side = who
  · subst heq
    rw [Function.update_self]
    exact hp
  · rw [Function.update_of_ne heq]
    exact h.keeps side

/-- A session that calls its KCP. -/
theorem Coupled.session {l : Peers} (h : l.Coupled conv options) (who : Bool)
    {i : KcpSession.KcpInput} (hi : i.InRange) (hwhole : (l who).kcpSession.KeepsWhole i)
    (hcs : ∀ c ∈ (l who).kcpSession.calls i,
      c.isInput = false ∧ ∀ l : Conversation, l.Timely (.call who c)) :
    Coupled (Function.update l who ((l who).happen (l !who).side.sent.length i)) conv options where
  conversed := by
    obtain ⟨es, hrun⟩ := h.conversed
    rw [conversation_update]
    exact ⟨_, hrun.append (Conversation.run_calls l.conversation who hcs)⟩
  keeps := h.keeps_update who ((h.keeps who).happen hi hwhole _).1

/-- A datagram that comes in, and the calls that follow. -/
theorem Coupled.deliver {l : Peers} (h : l.Coupled conv options) (who : Bool) (now : BitVec 32)
    {k : Nat} {d : Conversation.Posted} (hposted : (l !who).side.posted[k]? = some d)
    (htimely : l.conversation.Timely (.deliver who k)) :
    Coupled (Function.update l who
      ((l who).happen (l !who).side.sent.length (.datagram now d.bytes))) conv options where
  conversed := by
    obtain ⟨es, hrun⟩ := h.conversed
    -- `driver_input` begins with `ikcp_input`, and nothing that follows is an input
    obtain ⟨cs, hcalls, hplain⟩ : ∃ cs, (l who).kcpSession.calls (.datagram now d.bytes) =
        .input d.bytes :: cs ∧ ∀ c ∈ cs, KcpSession.IsPlain c := by
      rcases (l who).kcpSession.calls_cases (.datagram now d.bytes) with
        ⟨_, _, heq, cs, hcalls, hplain⟩ | hcs | ⟨_, heq⟩ | ⟨_, heq⟩ | ⟨_, _, heq⟩
      · cases heq
        exact ⟨cs, hcalls, hplain⟩
      · exact absurd (hcs _ List.mem_cons_self) id
      · cases heq
      · cases heq
      · cases heq
    have hother : (!who) ≠ who := by cases who <;> decide
    -- first the datagram, then the calls on the side that has it
    have hdeliver : Conversation.step l.conversation (.deliver who k) =
        some (Function.update l.conversation who ((l who).side.input d.bytes)) := by
      show (l !who).side.posted[k]?.map _ = _
      rw [hposted]
      rfl
    have hrest := Conversation.run_calls
      (Function.update l.conversation who ((l who).side.input d.bytes)) who
      fun c hc => KcpSession.timely_of_plain who (hplain c hc)
    rw [Function.update_self, Function.update_of_ne hother, Function.update_idem] at hrest
    refine ⟨es ++ [.deliver who k] ++ cs.map (.call who), ?_⟩
    refine (GuardedRun.snoc hrun htimely hdeliver).append ?_
    rw [conversation_update]
    have hside : ((l who).happen (l !who).side.sent.length (.datagram now d.bytes)).side =
        ((l who).side.input d.bytes).calls (l !who).side.sent.length cs := by
      show (l who).side.calls _ ((l who).kcpSession.calls (.datagram now d.bytes)) = _
      rw [hcalls, ← Conversation.Side.call_input]
      rfl
    rw [hside]
    exact hrest
  keeps := by
    have hrange : KcpSession.KcpInput.InRange (.datagram now d.bytes) := trivial
    exact h.keeps_update who ((h.keeps who).happen hrange trivial _).1

theorem Coupled.step {l l' : Peers} {e : Event} (h : l.Coupled conv options)
    (hallowed : l.Allowed e) (hstep : step l e = some l') : l'.Coupled conv options := by
  cases e with
  | session who i =>
    have hcases := (l who).kcpSession.calls_cases i
    cases i with
    | datagram now data => cases hstep
    | setMtu mtu =>
      cases hstep
      refine h.session who hallowed trivial fun c hc => ?_
      rw [List.mem_singleton.mp hc]
      exact ⟨rfl, fun _ => trivial⟩
    | setWndsize sndwnd rcvwnd =>
      cases hstep
      obtain ⟨hrange, hrcv⟩ := hallowed
      refine h.session who hrange trivial fun c hc => ?_
      rw [List.mem_singleton.mp hc]
      refine ⟨rfl, fun _ => ?_⟩
      show (BitVec.ofInt 32 rcvwnd).toInt ≤ 2 ^ 30
      rw [hrange.2]
      exact hrcv
    | setMinrto minrto =>
      cases hstep
      refine h.session who trivial hallowed fun c hc => ?_
      rw [List.mem_singleton.mp hc]
      exact ⟨rfl, fun _ => trivial⟩
    | send | sendmessage | transmit | timer | status | answers =>
      cases hstep
      refine h.session who trivial hallowed fun c hc => ?_
      rcases hcases with ⟨_, _, heq, -⟩ | hcs | ⟨_, heq⟩ | ⟨_, heq⟩ | ⟨_, _, heq⟩
      · cases heq
      · exact KcpSession.timely_of_plain who (hcs c hc)
      · cases heq
      · cases heq
      · cases heq
  | deliver who now k =>
    obtain ⟨d, hposted, rfl⟩ := Option.map_eq_some_iff.mp hstep
    exact h.deliver who now hposted hallowed
  | process who n =>
    cases hstep
    refine ⟨?_, h.keeps_update who ((h.keeps who).process n)⟩
    obtain ⟨es, hrun⟩ := h.conversed
    refine ⟨es, ?_⟩
    -- the logic does not touch KCP
    have hside : Function.update l.conversation who ((l who).process n).side = l.conversation :=
      Function.update_eq_self who l.conversation
    rw [conversation_update, hside]
    exact hrun

theorem coupled_run {es : List Event} {l : Peers}
    (hrun : GuardedRun step Allowed (start conv options) es l) : l.Coupled conv options :=
  hrun.invariant (I := fun l => l.Coupled conv options) coupled_start
    fun _ _ _ h hallowed hstep => h.step hallowed hstep

/-! ## Checking a step -/

instance (kcp : Kcp) (len : Int) : Decidable (KcpSession.Refuses kcp len) :=
  inferInstanceAs (Decidable (_ ∨ _))

instance (kcp : Kcp) (m : Message) : Decidable (KcpSession.TakesWhole kcp m) :=
  inferInstanceAs (Decidable (_ ∧ _))

instance decidableNoneSplit : (kcp : Kcp) → (q : List Message) → Decidable (KcpSession.NoneSplit kcp q)
  | _, [] => .isTrue trivial
  | kcp, m :: q =>
    have := decidableNoneSplit (kcp.ikcpSend m.buffer m.buffer.length).1.ikcpFlush q
    inferInstanceAs (Decidable (_ ∨ _ ∨ (_ ∧ _)))

instance (l : Peers) (e : Event) : Decidable (Allowed l e) :=
  match e with
  | .session _ (.setMtu mtu) => inferInstanceAs (Decidable ((BitVec.ofInt 32 mtu).toInt = mtu))
  | .session _ (.setWndsize sndwnd rcvwnd) =>
    inferInstanceAs (Decidable (((BitVec.ofInt 32 sndwnd).toInt = sndwnd ∧
      (BitVec.ofInt 32 rcvwnd).toInt = rcvwnd) ∧ rcvwnd ≤ 2 ^ 30))
  | .session who (.transmit _) =>
    decidableNoneSplit (l who).side.cb.kcp (l who).session.sendqueue
  | .session who (.send _ _ _ _) | .session who (.sendmessage _ _ _ _) =>
    inferInstanceAs (Decidable (l who).session.HasMemory)
  | .session _ (.datagram _ _) | .session _ (.timer _) | .session _ (.setMinrto _)
  | .session _ (.status _) | .session _ (.answers _) => .isTrue trivial
  | .deliver who _ k => inferInstanceAs (Decidable (l.conversation.Timely (.deliver who k)))
  | .process _ _ => .isTrue trivial

/-! ## Main results -/

/-- One side sends a payload and broadcasts another, and the other side processes both. -/
def parcels : List Event :=
  [.session false (.send 0 [1, 2, 3] .absent 1), .session false (.sendmessage 0 ⟨2, [4, 5], []⟩ .absent 0),
    .session false (.transmit 40), .deliver true 40 0, .deliver true 40 1, .process true 5,
    .deliver false 40 0, .deliver false 40 1]

theorem parcels_run : ∃ l, GuardedRun step Allowed (start 7 fun _ => {}) parcels l ∧
    (l true).processed = [1, 2, 3, 4, 5] ∧ (l false).session.sendqueue = [] ∧
    (l false).side.cb.ikcpWaitsnd = 0 := by
  have hrun : ((guardedExec step Allowed (start 7 fun _ => {}) parcels).any fun l =>
      decide ((l true).processed = [1, 2, 3, 4, 5] ∧ (l false).session.sendqueue = [] ∧
        (l false).side.cb.ikcpWaitsnd = 0)) = true := by
    decide +kernel
  obtain ⟨l, hexec, hend⟩ := (Option.any_eq_true _ _).mp hrun
  exact ⟨l, .of_exec hexec, of_decide_eq_true hend⟩

end Peers

end Evlite
