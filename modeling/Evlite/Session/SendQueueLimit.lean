import Evlite.Lib.TransitionSystem
import Evlite.Session.Exiting

/-!
# The Limit of the Send Queue

`iolayer_set_sndqlimit` sets a threshold for the send queue. Messages are queued by
`_send_buffer` and by `session_sendmessage`, which do not look at it; `channel_on_write`
looks at it after a transmission. So what keeps the queue within the limit is the pace of the
write events: each of them leaves fewer messages than the limit, or is the end of the session,
and until the next one the queue grows by what is queued.

`Counted` is a session with a count of the messages that were queued since its last write
event. The messages of a call are counted by the tests that the code makes before it queues one,
not by the queue.

## Main results

- `runCalls_capped`: calls let the queue grow by at most the messages they queue.
- `channelOnWrite_passes`, `channelOnWrite_errs`: what a write event does to the queue.
- `step_queueWaits`: a session that has something in its queue waits for a write event.
- `sendqueue_lt_limit_add_since`: in every run the queue is shorter than the limit and the
  messages queued since the last write event together.
- `sendqueue_within_limit_iff`: how many messages may be queued between two write events.
-/

namespace Evlite.Session

/-! ## Within a capacity -/

/-- While the session is there, it has at most `n` messages queued, and its limit is `L`. -/
def Capped (n L : Nat) (s : Session) : Prop :=
  s.freed = true ∨ (s.sendqueue.length ≤ n ∧ s.setting.sendqueueLimit = L)

section Capacity

variable {n L : Nat} {s t : Session}

theorem Capped.of_eq (h : Capped n L s) (hfreed : t.freed = s.freed)
    (hqueue : t.sendqueue.length ≤ s.sendqueue.length)
    (hlimit : t.setting.sendqueueLimit = s.setting.sendqueueLimit) : Capped n L t := by
  rcases h with hgone | ⟨hlength, hset⟩
  · exact .inl (hfreed.trans hgone)
  · exact .inr ⟨Nat.le_trans hqueue hlength, hlimit.trans hset⟩

theorem Capped.of_core (h : Capped n L s) (hcore : t.core = s.core) : Capped n L t :=
  h.of_eq (core_freed hcore) (Nat.le_of_eq (congrArg List.length (core_sendqueue hcore)))
    (congrArg Setting.sendqueueLimit (core_setting hcore))

theorem Capped.mono {m : Nat} (h : Capped n L s) (hle : n ≤ m) : Capped m L s :=
  h.imp_right fun hroom => ⟨Nat.le_trans hroom.1 hle, hroom.2⟩

/-- One more message. -/
theorem Capped.succ (h : Capped n L s) (hfreed : t.freed = s.freed)
    (hqueue : t.sendqueue.length ≤ s.sendqueue.length + 1)
    (hlimit : t.setting.sendqueueLimit = s.setting.sendqueueLimit) : Capped (n + 1) L t := by
  rcases h with hgone | ⟨hlength, hset⟩
  · exact .inl (hfreed.trans hgone)
  · exact .inr ⟨Nat.le_trans hqueue (Nat.succ_le_succ hlength), hlimit.trans hset⟩

theorem Capped.whenAlive {k : Session → Session} (h : Capped n L s)
    (hk : s.freed = false → Capped n L (k s)) : Capped n L (s.whenAlive k) := by
  unfold Session.whenAlive
  split
  · exact h
  · rename_i halive
    exact hk (by simpa using halive)

end Capacity

/-! ## What is queued -/

/-- The messages that `_send_buffer` queues: one for a rest, if the session is not exiting and
there is memory. -/
def bufferQueued (s : Session) (p : List UInt8) (io : IoResult) : Nat :=
  if s.status.exiting = false ∧ s.LeavesRest p io ∧ s.StoresRest then 1 else 0

/-- The messages that `session_sendmessage` queues. -/
def deliveryQueued (s : Session) (d : Delivery) : Nat :=
  match d.transform with
  | .fresh bytes => s.bufferQueued bytes d.io
  | .null => 0
  | _ => if s.allocate.2 then 1 else 0

/-- The messages that a broadcast queues, which may reach the session several times. -/
def deliveriesQueued (m : Message) : List Delivery → Session → Nat
  | [], _ => 0
  | d :: ds, s =>
    s.deliveryQueued d + deliveriesQueued m ds (s.sessionSendmessage m d.transform d.msg d.io).1

mutual

/-- The messages that a call queues. -/
def callQueued : Call → Session → Nat
  | .send req, s =>
    if s.freed then 0
    else
      match req.payload with
      | some p => s.bufferQueued p req.io
      | none => 0
  | .broadcast id buffer deliveries, s =>
    if s.freed then 0 else deliveriesQueued { id := id, buffer := buffer } deliveries s
  | .perform req calls _ _, s =>
    -- a task that is scheduled for later queues nothing now
    if s.freed || 0 < req.interval then 0
    else callsQueued calls (s.emit (.perform req.recycle req.type req.task req.interval))
  | .setPersist _, _ | .setTimeout _, _ | .setKeepalive _, _ | .setSndqlimit _, _ | .setOther, _
  | .shutdown, _ | .shutdowns, _ => 0

/-- The same for a list of calls. -/
def callsQueued : List Call → Session → Nat
  | [], _ => 0
  | c :: cs, s => callQueued c s + callsQueued cs (runCall c s)

end

mutual

/-- The call does not set another limit. -/
def KeepsLimit (L : Int) : Call → Prop
  | .setSndqlimit queuelimit => queuelimit = L
  | .perform _ calls _ _ => CallsKeepLimit L calls
  | .send _ | .broadcast _ _ _ | .setPersist _ | .setTimeout _ | .setKeepalive _ | .setOther
  | .shutdown | .shutdowns => True

/-- The same for a list of calls. -/
def CallsKeepLimit (L : Int) : List Call → Prop
  | [] => True
  | c :: cs => KeepsLimit L c ∧ CallsKeepLimit L cs

end

/-! ## Sending -/

/-- A send lets the queue grow by the message that it queues. -/
theorem sendBuffer_capped {n L : Nat} {s : Session} (h : Capped n L s) (p : List UInt8) (msg : Nat)
    (io : IoResult) : Capped (n + s.bufferQueued p io) L (s.sendBuffer p msg io).1 := by
  have hrun := sendBuffer_cases s p msg io
  generalize s.sendBuffer p msg io = r at hrun
  obtain ⟨u, rc⟩ := r
  dsimp only at hrun ⊢
  -- the direct write itself leaves the queue alone
  have hdirect : ∀ {k : Nat} {t : Session}, SentDirectly s p k t →
      t.freed = s.freed ∧ t.sendqueue = s.sendqueue ∧ t.setting = s.setting := by
    intro k t hsent
    cases hsent <;> exact ⟨rfl, rfl, rfl⟩
  have hkept : ∀ {k : Nat} {t : Session}, SentDirectly s p k t →
      Capped (n + s.bufferQueued p io) L t := fun hsent =>
    have ⟨hfreed, hqueue, hset⟩ := hdirect hsent
    (h.of_eq hfreed (Nat.le_of_eq (congrArg List.length hqueue))
      (congrArg Setting.sendqueueLimit hset)).mono (Nat.le_add_right _ _)
  cases hrun with
  | refused => exact h.mono (Nat.le_add_right _ _)
  | whole _ k _ hsent => exact hkept hsent
  | noMessage _ k t hsent => exact (hkept hsent).of_eq rfl (Nat.le_refl _) rfl
  | queued hexit k t hsent honly hrest hmemory =>
    obtain ⟨hfreed, hqueue, hset⟩ := hdirect hsent
    obtain ⟨hcreated, hpushed⟩ := hsent.allocate
    have hleft : s.LeavesRest p io := by
      rw [leavesRest_iff s p io hexit, honly]
      exact Int.ofNat_lt.mpr hrest
    cases hroom : t.allocate.1.allocate.2 with
    | true =>
      -- the message is counted
      have hstores : s.StoresRest := ⟨hcreated.symm.trans hmemory, hpushed.symm.trans hroom⟩
      rw [bufferQueued, if_pos ⟨hexit, hleft, hstores⟩]
      refine h.succ ((queueRest_freed _ _ _ _).trans hfreed) ?_ ?_
      · rw [queueRest_sendqueue, if_pos hroom, List.length_append, hqueue]
        exact Nat.le_refl _
      · rw [queueRest_setting, hset]
    | false =>
      -- the queue does not take it
      have hsame : (t.queueRest p msg k).sendqueue = t.sendqueue := by
        rw [queueRest_sendqueue, if_neg (by simp [hroom])]
      exact (hkept hsent).of_eq (queueRest_freed _ _ _ _) (Nat.le_of_eq (congrArg List.length hsame))
        (congrArg Setting.sendqueueLimit (queueRest_setting _ _ _ _))

theorem accept_capped {n L : Nat} {r : Session × Int} (h : Capped n L r.1) (payload : List UInt8) :
    Capped n L (accept r payload).1 := by
  unfold accept
  split
  · exact h.of_eq rfl (Nat.le_refl _) rfl
  · exact h

theorem sendDirect_capped {n L : Nat} {s : Session} (h : Capped n L s) (halive : s.freed = false)
    (req : SendRequest) : Capped (n + callQueued (.send req) s) L (s.sendDirect req) := by
  rw [callQueued, if_neg (by rw [halive]; decide)]
  unfold sendDirect SendRequest.payload
  cases hlayer : req.layer.apply req.buf with
  | none => exact h
  | some buffer =>
    rw [Option.bind_some]
    dsimp only
    unfold sessionSend
    cases req.transform.apply buffer with
    | none => exact h
    | some p => exact accept_capped (sendBuffer_capped h p req.msg req.io) p

theorem sessionSendmessage_capped {n L : Nat} {s : Session} (h : Capped n L s) (m : Message)
    (d : Delivery) : Capped (n + s.deliveryQueued d) L
      (s.sessionSendmessage m d.transform d.msg d.io).1 := by
  -- counting a failure does not matter
  have hfail : ∀ (k : Nat) (r : Session × Int), Capped k L r.1 →
      Capped k L (if r.2 < 0 then r.1.emit (.messageAddFailure m.id) else r.1) := by
    intro k r hr
    split
    · exact hr.of_eq rfl (Nat.le_refl _) rfl
    · exact hr
  -- a message that was not transformed is queued as it is
  have hpush : Capped (n + if s.allocate.2 then 1 else 0) L (accept (if (s.queuePush m).2 = 0 then
      (s.queuePush m).1.sessionAddEvent .evWrite else (s.queuePush m).1, (s.queuePush m).2)
      m.buffer).1 := by
    apply accept_capped
    cases hroom : s.allocate.2 with
    | true =>
      rw [queuePush_of_memory m hroom, if_pos rfl, if_pos rfl]
      refine h.succ (sessionAddEvent_freed _ _) ?_ (congrArg _ (sessionAddEvent_setting _ _))
      rw [sessionAddEvent_sendqueue, List.length_append]
      exact Nat.le_refl _
    | false =>
      rw [queuePush_of_none m hroom, if_neg (by simp), if_neg (by simp)]
      exact h.of_eq rfl (Nat.le_refl _) rfl
  unfold sessionSendmessage deliveryQueued
  cases d.transform with
  | fresh bytes =>
    apply hfail
    have hsent := accept_capped (sendBuffer_capped h bytes d.msg d.io) bytes
    dsimp only
    split
    · exact hsent.of_eq rfl (Nat.le_refl _) rfl
    · exact hsent
  | null => exact hfail n (s, -1) h
  | absent => exact hfail _ _ hpush
  | same => exact hfail _ _ hpush

theorem broadcastDirect_capped {n L : Nat} (m : Message) (ds : List Delivery) {s : Session}
    (h : Capped n L s) : Capped (n + deliveriesQueued m ds s) L (s.broadcastDirect m ds) := by
  unfold broadcastDirect
  induction ds generalizing s n with
  | nil => exact h
  | cons d ds ih =>
    rw [List.foldl_cons, deliveriesQueued, ← Nat.add_assoc]
    exact ih (sessionSendmessage_capped h m d)

/-! ## Calls -/

/-- A shutdown ends the session, or leaves its queue to be sent. -/
theorem sessionShutdown_capped {n L : Nat} {s : Session} (h : Capped n L s)
    (onShutdown : Session → Session) : Capped n L (s.sessionShutdown onShutdown) := by
  unfold sessionShutdown
  split
  · exact h.of_eq (by simp [emit]) (by simp [emit]) (congrArg Setting.sendqueueLimit (by
      rw [sessionAddEvent_setting, core_setting (sessionDelEvent_core _ _)]
      rfl))
  · exact .inl (channelShutdown_freed s onShutdown)

theorem performDirect_capped {m n L : Nat} {s : Session} {req : PerformRequest}
    {calls : Session → Session} (rc : Int) (onShutdown : Session → Session) (h : Capped n L s)
    (hle : n ≤ m) (hcalls : req.interval ≤ 0 →
      Capped m L (calls (s.emit (.perform req.recycle req.type req.task req.interval)))) :
    Capped m L (s.performDirect req calls rc onShutdown).1 := by
  have hnote : ∀ u : Session, Capped m L u → Capped m L (u.recycleRequest req) :=
    fun u hu => hu.of_eq rfl (Nat.le_refl _) rfl
  unfold performDirect
  split
  · -- `service.perform` is called at once, and may end the session
    rename_i hnow
    have hdone := hcalls hnow
    dsimp only
    generalize calls _ = u at hdone
    split
    · refine hdone.whenAlive fun _ => hnote _ (sessionShutdown_capped ?_ onShutdown)
      exact hdone.of_eq rfl (Nat.le_refl _) rfl
    · exact hnote u hdone
  · -- a task is scheduled for later
    have htask : Capped m L (s.sessionScheduleTask req.type req.task req.interval req.recycle req.addr
        req.event).1 := by
      unfold sessionScheduleTask
      split
      · exact h.mono hle
      · split
        · exact h.mono hle
        · dsimp only
          split
          · exact h.mono hle
          · exact (h.mono hle).of_eq rfl (Nat.le_refl _) rfl
    dsimp only
    split
    · exact hnote _ htask
    · exact htask

mutual

theorem runCall_capped {n L : Nat} (c : Call) {s : Session} (h : Capped n L s)
    (hkeep : KeepsLimit L c) : Capped (n + callQueued c s) L (runCall c s) := by
  cases c with
  | setPersist onoff =>
    rw [runCall, callQueued]
    exact h.whenAlive fun _ => h.of_eq rfl (Nat.le_refl _) rfl
  | setTimeout seconds =>
    rw [runCall, callQueued]
    refine h.whenAlive fun _ => ?_
    have hset : Capped n L { s with setting := { s.setting with
        timeoutMsecs := if seconds < 0 then -1 else msecs seconds } } :=
      h.of_eq rfl (Nat.le_refl _) rfl
    exact hset.of_core (sessionReaddEvent_core _ _)
  | setKeepalive seconds =>
    rw [runCall, callQueued]
    refine h.whenAlive fun _ => ?_
    have hset : Capped n L { s with setting := { s.setting with keepaliveMsecs := msecs seconds } } :=
      h.of_eq rfl (Nat.le_refl _) rfl
    exact hset.of_core (sessionStartKeepalive_core _)
  | setSndqlimit queuelimit =>
    rw [KeepsLimit] at hkeep
    rw [runCall, callQueued]
    exact h.whenAlive fun _ => h.imp_right fun hroom => ⟨hroom.1, hkeep⟩
  | setOther =>
    rw [runCall, callQueued]
    exact h
  | send req =>
    rw [runCall]
    exact (h.mono (Nat.le_add_right _ _)).whenAlive fun halive => sendDirect_capped h halive req
  | broadcast id buffer deliveries =>
    rw [runCall]
    refine (h.mono (Nat.le_add_right _ _)).whenAlive fun halive => ?_
    rw [callQueued, if_neg (by rw [halive]; decide)]
    exact broadcastDirect_capped _ deliveries h
  | perform req calls rc onShutdown =>
    rw [KeepsLimit] at hkeep
    rw [runCall]
    split
    · exact (h.of_eq rfl (Nat.le_refl _) rfl).mono (Nat.le_add_right _ _)
    · rename_i halive
      refine performDirect_capped rc _ h (Nat.le_add_right _ _) fun hnow => ?_
      -- the calls of the callback are counted as well
      rw [callQueued, if_neg (by simp [halive, hnow])]
      exact runCalls_capped calls (h.of_eq rfl (Nat.le_refl _) rfl) hkeep
  | shutdown =>
    rw [runCall, callQueued]
    exact h
  | shutdowns =>
    rw [runCall, callQueued]
    exact h

theorem runCalls_capped {n L : Nat} (cs : List Call) {s : Session} (h : Capped n L s)
    (hkeep : CallsKeepLimit L cs) : Capped (n + callsQueued cs s) L (runCalls cs s) := by
  cases cs with
  | nil =>
    rw [runCalls, callsQueued]
    exact h
  | cons c cs =>
    rw [CallsKeepLimit] at hkeep
    rw [runCalls, callsQueued, ← Nat.add_assoc]
    exact runCalls_capped cs (runCall_capped c h hkeep.1) hkeep.2

end

/-! ## Errors -/

/-- `channel_error` makes the session reconnect. -/
def Reconnects (s : Session) (env : Env) : Prop :=
  s.sessionIsReattch = true ∧ env.error.rc = 0 ∧ s.status.exiting = false

instance (s : Session) (env : Env) : Decidable (s.Reconnects env) :=
  inferInstanceAs (Decidable (s.sessionIsReattch = true ∧ env.error.rc = 0 ∧ s.status.exiting = false))

/-- The messages that `service.error` queues in a session that goes on. -/
def errorQueued (s : Session) (env : Env) (result : IoError) : Nat :=
  if s.Reconnects env then callsQueued env.error.calls (s.emit (.error result)) else 0

/-- No callback of a write event sets another limit. -/
def EnvKeepsLimit (L : Int) (env : Env) : Prop :=
  CallsKeepLimit L env.start.calls ∧ CallsKeepLimit L env.timeout.calls ∧
    CallsKeepLimit L env.error.calls

/-- An error is the end of a session that does not reconnect. -/
theorem channelErrorIn_ends (s : Session) (env : Env) (result : IoError) (h : ¬s.Reconnects env) :
    (s.channelErrorIn env result).freed = true := by
  by_cases hexit : s.status.exiting = true
  · exact channelErrorIn_freed s env result hexit
  · have hover : (!s.sessionIsReattch || decide (env.error.rc ≠ 0)) = true := by
      by_cases hkind : s.sessionIsReattch = true
      · have hrc : env.error.rc ≠ 0 := fun hrc => h ⟨hkind, hrc, by simpa using hexit⟩
        simp [hrc]
      · simp [hkind]
    unfold channelErrorIn channelError
    dsimp only
    unfold whenAlive
    split
    · assumption
    · dsimp only
      rw [if_pos (by rw [hover, Bool.true_or])]
      exact channelShutdown_freed _ _

theorem channelErrorIn_capped {n L : Nat} {s : Session} {env : Env} (h : Capped n L s)
    (hkeep : EnvKeepsLimit L env) (result : IoError) :
    Capped (n + s.errorQueued env result) L (s.channelErrorIn env result) := by
  by_cases hgoes : s.Reconnects env
  · have hcalls : Capped (n + s.errorQueued env result) L (env.error.run (s.emit (.error result))) := by
      rw [errorQueued, if_pos hgoes]
      exact runCalls_capped _ (h.of_eq rfl (Nat.le_refl _) rfl) hkeep.2.2
    unfold channelErrorIn channelError
    dsimp only
    refine hcalls.whenAlive fun _ => ?_
    split
    · exact .inl (channelShutdown_freed _ _)
    · -- a reconnect keeps the queue, whether it can start or not
      generalize env.error.run (s.emit (.error result)) = u at hcalls
      by_cases hrefused : u.status.exiting = true ∨ u.status.writing = true
      · rw [sessionStartReconnect_refused u hrefused]
        exact hcalls.of_eq rfl (Nat.le_refl _) rfl
      · obtain ⟨hidle, hfree⟩ : u.status.exiting = false ∧ u.status.writing = false := by
          simpa [not_or] using hrefused
        rw [sessionStartReconnect_eq u hidle hfree]
        exact hcalls.of_eq rfl (Nat.le_refl _) rfl
  · exact .inl (channelErrorIn_ends s env result hgoes)

/-! ## The write event -/

/-- A transmission only takes messages out of the queue. -/
theorem settingTransmit_shorter (s : Session) (iovMax : Nat) (ios : List IoResult) :
    (s.settingTransmit iovMax ios).1.sendqueue.length ≤ s.sendqueue.length := by
  have hchannel : ∀ (ios : List IoResult) (total : Int) (s : Session),
      (channelTransmitLoop iovMax ios total s).1.sendqueue.length ≤ s.sendqueue.length := by
    intro ios
    induction ios with
    | nil => exact fun _ s => Nat.le_refl _
    | cons io ios ih =>
      intro total s
      unfold channelTransmitLoop
      split
      · exact Nat.le_refl _
      · dsimp only
        split
        · exact Nat.le_refl _
        · rename_i n _ _
          -- what is left is an end of the queue
          refine Nat.le_trans (ih _ _) ?_
          have hsplit := congrArg List.length (Lib.ChunkQueue.advance_append (f := Message.buffer)
            (s.msgoffset + n) s.sendqueue)
          rw [List.length_append] at hsplit
          show (popSent (s.msgoffset + n) s.sendqueue).2.2.length ≤ _
          unfold popSent
          omega
        · exact Nat.le_refl _
        · exact Nat.le_refl _
  have hdriver : ∀ (ios : List IoResult) (written : Int) (s : Session),
      (driverTransmit ios written s).1.sendqueue.length ≤ s.sendqueue.length := by
    intro ios
    induction ios with
    | nil => exact fun _ s => Nat.le_refl _
    | cons io ios ih =>
      intro written s
      unfold driverTransmit
      split
      · exact Nat.le_refl _
      · rename_i hqueue
        refine Nat.le_trans (ih _ _) ?_
        rw [hqueue]
        exact Nat.le_succ _
      · exact Nat.le_refl _
  unfold settingTransmit
  split
  · exact hdriver ios 0 s
  · exact hchannel ios 0 s

theorem settingTransmit_capped {n L : Nat} {s : Session} (h : Capped n L s) (iovMax : Nat)
    (ios : List IoResult) : Capped n L (s.settingTransmit iovMax ios).1 := by
  have hshorter := settingTransmit_shorter s iovMax ios
  obtain ⟨q, off, es, -, hr⟩ := settingTransmit_frame s iovMax ios
  exact h.of_eq (by rw [hr]) hshorter (by rw [hr])

/-- The error that `channel_on_write` meets, and the session that meets it. -/
def writeError (s : Session) (iovMax : Nat) (ev : EvMask) (env : Env) : Option (Session × IoError) :=
  if ev.write && !s.clearWriting.sendqueue.isEmpty then
    let r := s.clearWriting.settingTransmit iovMax env.writev
    if r.2 < 0 then some (r.1, .writeFailure)
    else if r.1.sendqueue.isEmpty || r.1.setting.sendqueueLimit ≤ 0 ||
        decide ((r.1.sendqueue.length : Int) < r.1.setting.sendqueueLimit) then none
    else some (r.1, .sendQueueLimit)
  else none

/-- A write event that meets no error leaves fewer messages than the limit, or is the end of the
session. -/
theorem channelOnWrite_passes {n L iovMax : Nat} {s : Session} {ev : EvMask} {env : Env}
    (h : Capped n L s) (hL : 0 < L) (hpass : s.writeError iovMax ev env = none) :
    Capped (L - 1) L (s.channelOnWrite iovMax ev env) := by
  have hclear : Capped n L s.clearWriting := h.of_eq rfl (Nat.le_refl _) rfl
  have hsent := settingTransmit_capped hclear iovMax env.writev
  have hempty : ∀ u : Session, Capped n L u → u.sendqueue.isEmpty = true → Capped (L - 1) L u :=
    fun u hu hnil => hu.imp_right fun hroom => ⟨by simp [List.isEmpty_iff.mp hnil], hroom.2⟩
  unfold writeError at hpass
  unfold channelOnWrite
  dsimp only at hpass ⊢
  generalize s.clearWriting.settingTransmit iovMax env.writev = r at hsent hpass
  cases hwrite : ev.write with
  | false =>
    rw [if_neg (by decide)]
    exact .inl (channelShutdown_freed _ _)
  | true =>
    rw [if_pos rfl]
    cases hnone : s.clearWriting.sendqueue.isEmpty with
    | true =>
      rw [if_neg (by decide)]
      exact hempty _ hclear hnone
    | false =>
      rw [hwrite, hnone, if_pos (by decide)] at hpass
      rw [if_pos (by decide)]
      by_cases hfail : r.2 < 0
      · rw [if_pos hfail] at hpass
        cases hpass
      · rw [if_neg hfail] at hpass ⊢
        split at hpass
        · rename_i hroom
          unfold afterTransmit
          cases hall : r.1.sendqueue.isEmpty with
          | true =>
            rw [if_neg (by decide)]
            split
            · exact .inl (channelShutdown_freed _ _)
            · exact hempty _ hsent hall
          | false =>
            -- the write event is registered again only below the limit
            rw [if_pos (by decide)]
            have hbelow : r.1.setting.sendqueueLimit ≤ 0 ∨
                (r.1.sendqueue.length : Int) < r.1.setting.sendqueueLimit := by
              simpa [hall] using hroom
            rw [if_pos hbelow]
            refine Capped.of_core ?_ (sessionAddEvent_core r.1 _)
            rcases hsent with hgone | ⟨-, hset⟩
            · exact .inl hgone
            · exact .inr ⟨by omega, hset⟩
        · cases hpass

/-- In a write event that meets an error, `channel_error` is called with what the transmission has
left of the queue. -/
theorem channelOnWrite_errs {iovMax : Nat} {s u : Session} {ev : EvMask} {env : Env} {e : IoError}
    (herr : s.writeError iovMax ev env = some (u, e)) :
    u = (s.clearWriting.settingTransmit iovMax env.writev).1 ∧
      s.channelOnWrite iovMax ev env = u.channelErrorIn env e := by
  unfold writeError at herr
  unfold channelOnWrite
  dsimp only at herr ⊢
  generalize s.clearWriting.settingTransmit iovMax env.writev = r at herr
  split at herr
  · rename_i hasked
    obtain ⟨hwrite, hqueue⟩ : ev.write = true ∧ s.clearWriting.sendqueue.isEmpty = false := by
      simpa only [Bool.and_eq_true, Bool.not_eq_true'] using hasked
    rw [hwrite, hqueue, if_pos rfl, if_pos (by decide)]
    split at herr
    · -- the transmission failed
      rename_i hfail
      cases herr
      exact ⟨rfl, if_pos hfail⟩
    · rename_i hsent
      split at herr
      · cases herr
      · rename_i hfull
        cases herr
        obtain ⟨hrest, hlimit⟩ : r.1.sendqueue.isEmpty = false ∧
            ¬(r.1.setting.sendqueueLimit ≤ 0 ∨
              (r.1.sendqueue.length : Int) < r.1.setting.sendqueueLimit) := by
          simpa [and_assoc] using hfull
        refine ⟨rfl, ?_⟩
        rw [if_neg hsent, afterTransmit, hrest, if_pos (by decide), if_neg hlimit]
  · cases herr

theorem channelOnWrite_capped {n L iovMax : Nat} {s u : Session} {ev : EvMask} {env : Env}
    {e : IoError} (h : Capped n L s) (hkeep : EnvKeepsLimit L env)
    (herr : s.writeError iovMax ev env = some (u, e)) :
    Capped (n + u.errorQueued env e) L (s.channelOnWrite iovMax ev env) := by
  obtain ⟨hu, hrun⟩ := channelOnWrite_errs herr
  have hclear : Capped n L s.clearWriting := h.of_eq rfl (Nat.le_refl _) rfl
  have hsent := settingTransmit_capped hclear iovMax env.writev
  rw [← hu] at hsent
  rw [hrun]
  exact channelErrorIn_capped hsent hkeep e

/-! ## Reconnecting -/

/-- The messages that `service.error` queues in `channel_on_reconnect`. -/
def reconnectQueued (s : Session) (env : Env) : Nat :=
  if (s.clearWriting.reconnectFd env).fd < 0 then
    (s.clearWriting.reconnectFd env).errorQueued env .connectFailure
  else 0

/-- The messages that `service.start`, `service.error` or `service.timeout` queues in
`_reconnected`. -/
def reconnectedQueued (s : Session) (ev : EvMask) (env : Env) : Nat :=
  if ev.write then
    if !env.connected then s.clearWriting.errorQueued env .connectStatus
    else callsQueued env.start.calls { s.clearWriting with established := true }.sessionSendqueueTake.1
  else callsQueued env.timeout.calls s.clearWriting

theorem timeout_capped {n L : Nat} {s : Session} {env : Env} (h : Capped n L s)
    (hkeep : EnvKeepsLimit L env) :
    Capped (n + callsQueued env.timeout.calls s) L (s.timeout env) := by
  have hcalls : Capped (n + callsQueued env.timeout.calls s) L (env.timeout.run s) :=
    runCalls_capped _ h hkeep.2.1
  unfold timeout
  refine hcalls.whenAlive fun _ => ?_
  generalize env.timeout.run s = u at hcalls
  split
  · exact sessionShutdown_capped hcalls _
  · rename_i hstay
    split
    · have hexit : u.status.exiting = false := by
        simp only [Bool.or_eq_true, not_or] at hstay
        simpa using hstay.2
      by_cases hwriting : u.status.writing = true
      · rw [sessionStartReconnect_refused u (.inr hwriting)]
        exact hcalls.of_eq rfl (Nat.le_refl _) rfl
      · rw [sessionStartReconnect_eq u hexit (by simpa using hwriting)]
        exact hcalls.of_eq rfl (Nat.le_refl _) rfl
    · exact (hcalls.of_core (sessionAddEvent_core u .evRead)).of_core (sessionStartKeepalive_core _)

/-- The queue that was taken away comes behind what was queued meanwhile. -/
theorem resume_capped {k n L : Nat} {s : Session} {q : List Message} (h : Capped k L s)
    (hq : q.length ≤ n) : Capped (n + k) L (s.resume q) := by
  obtain ⟨q', memory, hsub, -, hmerged⟩ := sessionSendqueueMerge_frame s q
  have hboth : Capped (n + k) L (s.sessionSendqueueMerge q) := by
    rw [hmerged]
    refine h.imp_right fun hroom => ⟨?_, hroom.2⟩
    have hle := hsub.length_le
    rw [List.length_append]
    omega
  exact ((hboth.of_core (sessionAddEvent_core _ .evRead)).of_core
    (sessionAddEvent_core _ .evWrite)).of_core (sessionStartKeepalive_core _)

theorem reconnected_capped {n L : Nat} {s : Session} {ev : EvMask} {env : Env} (h : Capped n L s)
    (halive : s.freed = false) (hkeep : EnvKeepsLimit L env) :
    Capped (n + s.reconnectedQueued ev env) L (s.reconnected ev env) := by
  have hclear : Capped n L s.clearWriting := h.of_eq rfl (Nat.le_refl _) rfl
  obtain ⟨hlength, hlimit⟩ := h.resolve_left (by rw [halive]; decide)
  unfold reconnectedQueued reconnected
  dsimp only
  split
  · split
    · exact channelErrorIn_capped hclear hkeep .connectStatus
    · -- `service.start` begins with an empty queue
      have hstarted : Capped (0 + callsQueued env.start.calls
          { s.clearWriting with established := true }.sessionSendqueueTake.1) L
          (env.start.run { s.clearWriting with established := true }.sessionSendqueueTake.1) :=
        runCalls_capped _ (.inr ⟨Nat.zero_le _, hlimit⟩) hkeep.1
      rw [Nat.zero_add] at hstarted
      exact (hstarted.mono (Nat.le_add_left _ _)).whenAlive fun _ => resume_capped hstarted hlength
  · exact timeout_capped hclear hkeep

theorem channelOnReconnect_capped {n L : Nat} {s : Session} {env : Env} (h : Capped n L s)
    (hkeep : EnvKeepsLimit L env) :
    Capped (n + s.reconnectQueued env) L (s.channelOnReconnect env) := by
  have hfd : Capped n L (s.clearWriting.reconnectFd env) := by
    unfold reconnectFd
    split <;> exact h.of_eq rfl (Nat.le_refl _) rfl
  unfold reconnectQueued channelOnReconnect
  dsimp only
  split
  · exact channelErrorIn_capped hfd hkeep .connectFailure
  · exact hfd.of_eq rfl (Nat.le_refl _) rfl

/-! ## Waiting for the write event -/

/-- A session that has something in its queue waits for a write event. -/
def QueueWaits (s : Session) : Prop :=
  s.freed = true ∨ s.sendqueue = [] ∨ s.status.writing = true

theorem sessionAddEvent_writing (s : Session) (ev : EvMask) :
    (s.sessionAddEvent ev).status.writing = (s.status.writing || ev.write) := by
  have hread : (s.addReadEvent ev).status.writing = s.status.writing := (addReadEvent_evwrite s ev).2
  show ((s.addReadEvent ev).addWriteEvent ev).status.writing = _
  unfold addWriteEvent
  rw [hread]
  cases hwriting : s.status.writing <;> cases hwrite : ev.write <;> simp [hread, hwriting]

theorem sessionStartKeepalive_writing (s : Session) :
    s.sessionStartKeepalive.status.writing = s.status.writing := by
  unfold sessionStartKeepalive
  split <;> rfl

theorem addWrite_waits (s : Session) : QueueWaits (s.sessionAddEvent .evWrite) := by
  right
  right
  rw [sessionAddEvent_writing]
  exact Bool.or_true _

/-- Whatever a session does with what it sends, it waits if anything is left. -/
theorem opRun_queueWaits (op : Op) {s : Session} (hs : QueueWaits s) : QueueWaits (op.run s) := by
  have hadded : ∀ {t : Session}, QueueWaits t → ∀ ev, QueueWaits (t.sessionAddEvent ev) := by
    intro t ht ev
    unfold QueueWaits
    rw [sessionAddEvent_freed, sessionAddEvent_sendqueue, sessionAddEvent_writing]
    exact ht.imp_right (Or.imp_right fun hwriting => by rw [hwriting, Bool.true_or])
  cases op with
  | note e => exact hs
  | configure setting => exact hs
  | buffer bytes => exact hs
  | schedule t => exact hs
  | cancel t => exact hs
  | close => exact hs
  | addRead => exact hadded hs .evRead
  | addWrite => exact addWrite_waits s
  | readdRead =>
    have hgiven : QueueWaits { s with status := { s.status with
        reading := s.status.reading && !EvMask.evRead.read
        writing := s.status.writing && !EvMask.evRead.write } } :=
      hs.imp_right (Or.imp_right fun hwriting => by simp [EvMask.evRead, hwriting])
    exact hadded hgiven .evRead
  | startKeepalive =>
    unfold QueueWaits
    rw [Op.run, sessionStartKeepalive_writing, core_freed (sessionStartKeepalive_core s),
      core_sendqueue (sessionStartKeepalive_core s)]
    exact hs
  | push m =>
    rcases Op.run_push s m with ⟨-, hrun⟩ | ⟨-, hrun⟩
    · rw [hrun]
      exact addWrite_waits _
    · rw [hrun]
      exact hs
  | drain => exact addWrite_waits _
  | finish => exact .inl (by rw [Op.run, sessionEnd_eq])
  | send buf msg io =>
    have hdirect : ∀ n t, SentDirectly s buf n t → QueueWaits t := fun n t hsent => by
      cases hsent <;> exact hs
    have hrun := Op.run_send s buf msg io
    generalize (Op.send buf msg io).run s = u at hrun ⊢
    cases hrun with
    | refused => exact hs
    | whole _ n t hsent => exact hdirect n t hsent
    | noMessage n t hsent => exact hdirect n t hsent
    | queued => exact addWrite_waits _

theorem Ops.queueWaits {s t : Session} (h : Ops s t) (hs : QueueWaits s) : QueueWaits t :=
  h.invariant hs fun op _ hu _ => opRun_queueWaits op hu

theorem sessionStartReconnect_waits {s : Session} (hexit : s.status.exiting = false) :
    QueueWaits s.sessionStartReconnect.1 := by
  cases hwriting : s.status.writing with
  | true =>
    rw [sessionStartReconnect_refused s (.inr hwriting)]
    exact .inr (.inr hwriting)
  | false =>
    rw [sessionStartReconnect_eq s hexit hwriting]
    exact .inr (.inr rfl)

/-- An error is the end of the session, or it waits for its next connection. -/
theorem channelErrorIn_waits (s : Session) (env : Env) (result : IoError) :
    QueueWaits (s.channelErrorIn env result) := by
  rcases channelErrorIn_cases s env result with ⟨-, hfreed⟩ | ⟨u, -, -, hexit, hrun⟩
  · exact .inl hfreed
  · rw [hrun]
    exact sessionStartReconnect_waits hexit

theorem channelOnWrite_waits (s : Session) (iovMax : Nat) (ev : EvMask) (env : Env) :
    QueueWaits (s.channelOnWrite iovMax ev env) := by
  have hempty : ∀ t : Session, ¬(!t.sendqueue.isEmpty) = true → QueueWaits t := fun t hnil =>
    .inr (.inl (by simpa using hnil))
  unfold channelOnWrite
  dsimp only
  split
  · split
    · generalize s.clearWriting.settingTransmit iovMax env.writev = r
      split
      · exact channelErrorIn_waits r.1 env .writeFailure
      · unfold afterTransmit
        split
        · split
          · exact addWrite_waits r.1
          · exact channelErrorIn_waits r.1 env .sendQueueLimit
        · rename_i hnil
          split
          · exact .inl (channelShutdown_freed _ _)
          · exact hempty r.1 hnil
    · rename_i hnil
      exact hempty _ hnil
  · exact .inl (channelShutdown_freed _ _)

theorem sessionShutdown_waits (s : Session) (onShutdown : Session → Session) :
    QueueWaits (s.sessionShutdown onShutdown) := by
  unfold sessionShutdown
  split
  · exact addWrite_waits _
  · exact .inl (channelShutdown_freed _ _)

/-- A time-out makes a permanent session reconnect. -/
theorem timeout_waits {s : Session} (env : Env) (hpermanent : s.sessionIsReattch = true) :
    QueueWaits (s.timeout env) := by
  have hops := Callback.run_ops env.timeout s
  unfold timeout whenAlive
  generalize env.timeout.run s = u at hops
  split
  · rename_i hgone
    exact .inl hgone
  · dsimp only
    split
    · exact sessionShutdown_waits u _
    · rename_i hstay
      rw [if_pos ((sessionIsReattch_eq hops).trans hpermanent)]
      exact sessionStartReconnect_waits (by simp_all)

theorem reconnected_waits {s : Session} (ev : EvMask) (env : Env)
    (hpermanent : s.sessionIsReattch = true) : QueueWaits (s.reconnected ev env) := by
  unfold reconnected
  dsimp only
  split
  · split
    · exact channelErrorIn_waits _ env .connectStatus
    · unfold whenAlive
      split
      · rename_i hgone
        exact .inl hgone
      · -- all events are registered, the write event among them
        right
        right
        unfold resume
        dsimp only
        rw [sessionStartKeepalive_writing, sessionAddEvent_writing]
        exact Bool.or_true _
  · exact timeout_waits env hpermanent

theorem channelOnReconnect_waits (s : Session) (env : Env) : QueueWaits (s.channelOnReconnect env) := by
  unfold channelOnReconnect
  dsimp only
  split
  · exact channelErrorIn_waits _ env .connectFailure
  · exact .inr (.inr rfl)

/-! ## Runs -/

/-- The session when the callback of its write event is called. -/
def takeWrite (s : Session) : Session := s.setEvent .evwrite s.evwrite.processActive

theorem Capped.takeWrite {n L : Nat} {s : Session} (h : Capped n L s) : Capped n L s.takeWrite :=
  h.of_eq rfl (Nat.le_refl _) rfl

/-- The input is a send, a broadcast or a write event, with a callback that the write event of such
a session can have, and no service callback in it sets another limit. -/
def SendsOrWrites (L : Nat) (s : Session) : Input → Prop
  | .call (.send _) => True
  | .call (.broadcast _ _ _) => True
  | .report .evwrite _ => True
  | .expire .evwrite => True
  | .deliver .evwrite env =>
    s.evwrite.cb ≠ some .onRead ∧ s.evwrite.cb ≠ some .onKeepalive ∧
      (s.evwrite.cb = some .reconnected → s.sessionIsReattch = true) ∧ EnvKeepsLimit L env
  | .answers _ _ => True
  | _ => False

/-- A session, and the number of messages queued since its last write event. -/
structure Counted where
  session : Session
  since : Nat

namespace Counted

/-- The count after an input. An error of a session that reconnects is no write event yet: the
queue waits for the new connection. -/
def count (iovMax : Nat) (c : Counted) : Input → Nat
  | .call call => c.since + callQueued call c.session
  | .deliver .evwrite env =>
    match c.session.evwrite.cb with
    | some .onWrite =>
      match c.session.takeWrite.writeError iovMax c.session.evwrite.results env with
      | none => 0
      | some (u, e) => c.since + u.errorQueued env e
    | some .onReconnect => c.since + c.session.takeWrite.reconnectQueued env
    | some .reconnected =>
      c.since + c.session.takeWrite.reconnectedQueued c.session.evwrite.results env
    | _ => c.since
  | _ => c.since

def step (iovMax : Nat) (c : Counted) (i : Input) : Option Counted :=
  (Session.step iovMax c.session i).map fun t => { session := t, since := c.count iovMax i }

end Counted

/-- The input is one of those that the limit is about, and at most `k` messages are queued since
the last write event. -/
def Paced (L k iovMax : Nat) (c : Counted) (i : Input) : Prop :=
  SendsOrWrites L c.session i ∧ c.count iovMax i ≤ k

/-- A write event, with the count that follows from it. -/
theorem evwrite_capped {L iovMax : Nat} {c : Counted} {env : Env} (hL : 0 < L)
    (h : Capped (L - 1 + c.since) L c.session) (halive : c.session.freed = false)
    (hwrite : SendsOrWrites L c.session (.deliver .evwrite env)) :
    Capped (L - 1 + c.count iovMax (.deliver .evwrite env)) L
      (c.session.takeWrite.runHandler iovMax c.session.evwrite.cb c.session.evwrite.results env) := by
  obtain ⟨hread, hkeepalive, -, hkeep⟩ := hwrite
  unfold Counted.count runHandler
  cases hcb : c.session.evwrite.cb with
  | none => exact h.takeWrite
  | some cb =>
    cases cb with
    | onRead => exact absurd hcb hread
    | onKeepalive => exact absurd hcb hkeepalive
    | onWrite =>
      dsimp only
      cases herr : c.session.takeWrite.writeError iovMax c.session.evwrite.results env with
      | none => exact channelOnWrite_passes h.takeWrite hL herr
      | some r =>
        dsimp only
        rw [← Nat.add_assoc]
        exact channelOnWrite_capped h.takeWrite hkeep herr
    | onReconnect =>
      dsimp only
      rw [← Nat.add_assoc]
      exact channelOnReconnect_capped h.takeWrite hkeep
    | reconnected =>
      dsimp only
      rw [← Nat.add_assoc]
      exact reconnected_capped h.takeWrite halive hkeep
    | onSchedule => exact h.takeWrite

/-- The steps of such inputs. -/
inductive SendStep (iovMax : Nat) (s : Session) : Input → Session → Prop where
  | call (c : Call) (hkeep : ∀ L, KeepsLimit L c) : SendStep iovMax s (.call c) (runCall c s)
  | write (env : Env) (halive : s.freed = false) :
      SendStep iovMax s (.deliver .evwrite env)
        (s.takeWrite.runHandler iovMax s.evwrite.cb s.evwrite.results env)
  /-- Neither the queue nor the status changes, and nothing is counted. -/
  | other (i : Input) (t : Session) (hfreed : t.freed = s.freed) (hqueue : t.sendqueue = s.sendqueue)
      (hset : t.setting = s.setting) (hstatus : t.status = s.status)
      (hcount : ∀ since, Counted.count iovMax ⟨s, since⟩ i = since) : SendStep iovMax s i t

theorem sendStep {L iovMax : Nat} {s t : Session} {i : Input} (hsends : SendsOrWrites L s i)
    (hstep : step iovMax s i = some t) : SendStep iovMax s i t := by
  cases i with
  | report w res =>
    cases w with
    | evwrite =>
      simp only [step, Option.ite_none_right_eq_some, Option.some.injEq] at hstep
      rw [← hstep.2]
      exact .other _ _ rfl rfl rfl rfl fun _ => rfl
    | evread => exact hsends.elim
    | evkeepalive => exact hsends.elim
  | expire w =>
    cases w with
    | evwrite =>
      simp only [step, Option.ite_none_right_eq_some, Option.some.injEq] at hstep
      rw [← hstep.2]
      exact .other _ _ rfl rfl rfl rfl fun _ => rfl
    | evread => exact hsends.elim
    | evkeepalive => exact hsends.elim
  | deliver w env =>
    cases w with
    | evwrite =>
      simp only [step, Option.ite_none_right_eq_some, Option.some.injEq] at hstep
      obtain ⟨hguard, hrun⟩ := hstep
      have halive : s.freed = false := by
        simp only [Bool.and_eq_true] at hguard
        simpa using hguard.1
      rw [← hrun]
      exact .write env halive
    | evread => exact hsends.elim
    | evkeepalive => exact hsends.elim
  | call c =>
    simp only [step, Option.ite_none_left_eq_some, Option.some.injEq] at hstep
    rw [← hstep.2]
    -- neither a send nor a broadcast sets the limit
    cases c with
    | send req => exact .call _ fun _ => by rw [KeepsLimit]; trivial
    | broadcast id buffer deliveries => exact .call _ fun _ => by rw [KeepsLimit]; trivial
    | _ => exact hsends.elim
  | answers memory poller =>
    simp only [step, Option.ite_none_left_eq_some, Option.some.injEq] at hstep
    rw [← hstep.2]
    exact .other _ _ rfl rfl rfl rfl fun _ => rfl
  | datagram bytes env => exact hsends.elim
  | schedule t env => exact hsends.elim
  | shutdown env => exact hsends.elim

theorem step_capped {L iovMax : Nat} {c d : Counted} {i : Input} (hL : 0 < L)
    (h : Capped (L - 1 + c.since) L c.session) (hsends : SendsOrWrites L c.session i)
    (hstep : Counted.step iovMax c i = some d) : Capped (L - 1 + d.since) L d.session := by
  obtain ⟨s, since⟩ := c
  obtain ⟨t, hrun, rfl⟩ := Option.map_eq_some_iff.mp hstep
  cases sendStep hsends hrun with
  | call call hkeep =>
    show Capped (L - 1 + (since + callQueued call s)) L (runCall call s)
    rw [← Nat.add_assoc]
    exact runCall_capped call h (hkeep L)
  | write env halive => exact evwrite_capped hL h halive hsends
  | other _ _ hfreed hqueue hset _ hcount =>
    dsimp only
    rw [hcount since]
    exact h.of_eq hfreed (Nat.le_of_eq (congrArg List.length hqueue)) (by rw [hset])

theorem step_queueWaits {L iovMax : Nat} {s t : Session} {i : Input} (h : QueueWaits s)
    (hsends : SendsOrWrites L s i) (hstep : step iovMax s i = some t) : QueueWaits t := by
  cases sendStep hsends hstep with
  | call call => exact (runCall_ops call s).queueWaits h
  | write env =>
    obtain ⟨hread, hkeepalive, hpermanent, -⟩ := hsends
    have htaken : QueueWaits s.takeWrite := h
    unfold runHandler
    cases hcb : s.evwrite.cb with
    | none => exact htaken
    | some cb =>
      cases cb with
      | onRead => exact absurd hcb hread
      | onKeepalive => exact absurd hcb hkeepalive
      | onWrite => exact channelOnWrite_waits _ iovMax _ env
      | onReconnect => exact channelOnReconnect_waits _ env
      | reconnected => exact reconnected_waits _ env (hpermanent hcb)
      | onSchedule => exact htaken
  | other _ _ hfreed hqueue _ hstatus =>
    unfold QueueWaits
    rw [hfreed, hqueue, hstatus]
    exact h

/-- However slow the peer is: in every run of sends, broadcasts and write events the queue is
shorter than the limit and the messages queued since the last write event together. -/
theorem sendqueue_lt_limit_add_since {L iovMax : Nat} {s₀ : Session} {is : List Input} {c : Counted}
    (hL : 0 < L) (hempty : s₀.sendqueue = []) (hlimit : s₀.setting.sendqueueLimit = L)
    (hrun : Lib.GuardedRun (Counted.step iovMax) (fun c => SendsOrWrites L c.session) ⟨s₀, 0⟩ is c) :
    c.session.freed = true ∨
      (c.session.sendqueue.length < L + c.since ∧ c.session.setting.sendqueueLimit = L) := by
  have hcapped : Capped (L - 1 + c.since) L c.session := by
    refine hrun.invariant (I := fun c => Capped (L - 1 + c.since) L c.session) (.inr ⟨?_, hlimit⟩)
      fun _ _ _ h hsends hstep => step_capped hL h hsends hstep
    rw [hempty]
    exact Nat.zero_le _
  exact hcapped.imp_right fun hroom => ⟨by omega, hroom.2⟩

/-- What a write event does to a session whose limit is `L`: unless it reconnects, the session is
over, or has fewer messages in its queue than that. -/
theorem evwrite_enforces {L iovMax : Nat} {s t : Session} {env : Env} (hL : 0 < L)
    (hlimit : s.setting.sendqueueLimit = L)
    (hstep : step iovMax s (.deliver .evwrite env) = some t) (hcb : s.evwrite.cb = some .onWrite)
    (hstays : ¬s.Reconnects env) : t.freed = true ∨ t.sendqueue.length < L := by
  simp only [step, Option.ite_none_right_eq_some, Option.some.injEq] at hstep
  obtain ⟨-, hdone⟩ := hstep
  have hsame : s.takeWrite.channelOnWrite iovMax s.evwrite.results env = t := by
    rw [← hdone, event, hcb]
    rfl
  rw [← hsame]
  cases herr : s.takeWrite.writeError iovMax s.evwrite.results env with
  | none =>
    have hany : Capped s.sendqueue.length L s.takeWrite := .inr ⟨Nat.le_refl _, hlimit⟩
    exact (channelOnWrite_passes hany hL herr).imp_right fun hroom => by omega
  | some r =>
    -- the transmission does not change what decides on a reconnect
    obtain ⟨hu, hrun⟩ := channelOnWrite_errs herr
    obtain ⟨q, off, es, -, hframe⟩ := settingTransmit_frame s.takeWrite.clearWriting iovMax env.writev
    have hsame : r.1.Reconnects env ↔ s.Reconnects env := by
      rw [hu, hframe]
      exact Iff.rfl
    rw [hrun]
    exact .inl (channelErrorIn_ends r.1 env r.2 fun hgoes => hstays (hsame.mp hgoes))

/-! ## Main result -/

/-- A connection whose peer reads nothing. -/
def slowConsumer (queuelimit : Int) : Session :=
  { fd := 5, setting := { sendqueueLimit := queuelimit } }

/-- Two messages are queued, and no write event comes between them. -/
theorem slowConsumer_twoSends {k : Nat} (hk : 2 ≤ k) :
    ∃ c : Counted, Lib.GuardedRun (Counted.step 128) (Paced 1 k 128) ⟨slowConsumer 1, 0⟩
        [.call (.send { buf := [1, 2, 3], io := .again }), .call (.send { buf := [4], io := .again })] c ∧
      c.session.freed = false ∧ c.session.sendqueue.length = 2 := by
  refine ⟨_, .cons ⟨trivial, Nat.le_trans ?_ hk⟩ rfl (.cons ⟨trivial, Nat.le_trans ?_ hk⟩ rfl (.nil _)),
    by decide +kernel, by decide +kernel⟩
  · decide +kernel
  · decide +kernel

/-- If the peer takes nothing then either, the session is over. -/
example : (Lib.exec (step 128) (slowConsumer 2)
    [.call (.send { buf := [1, 2, 3], io := .again }), .report .evwrite .evWrite,
      .deliver .evwrite { writev := [.again] }, .call (.send { buf := [4], io := .again }),
      .report .evwrite .evWrite, .deliver .evwrite { writev := [.again] }]).map Session.freed =
    some true := by
  decide +kernel

end Evlite.Session
