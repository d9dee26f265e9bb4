import Evlite.Lib.TransitionSystem
import Evlite.Session.Ops

/-!
# Sessions that Wait for their End

`session_shutdown` on a session with data left to send makes it EXITING and lets it live
until the data is out. A peer that stopped reading would keep it for ever, so the write
event of an EXITING session gets a timer of `MAX_SECONDS_WAIT_FOR_SHUTDOWN`. But the timer
comes with the registration of the event, and `session_add_event` registers nothing while
`SESSION_WRITING` is set.

The delay before a reconnect is a timer of its own on the same event, and a shorter one.

## Main results

- `opRun_timed`: every primitive operation but a shutdown during a write keeps the timer.
- `exiting_has_timer`: in every run in which no shutdown meets a registered write event,
  and no attempt to reconnect an EXITING session obtains a descriptor, the timer of an
  EXITING session is pending, and its expiry closes the session.
-/

namespace Evlite.Session

/-! ## Timers -/

/-- The timer of the event is pending and no longer than the wait for a shutdown, or it has
expired and the event waits for its callback. -/
def TimerPending (e : EventView Handler) : Prop :=
  (e.timer = true ∧ 0 ≤ e.timerMsecs ∧ e.timerMsecs ≤ maxSecondsWaitForShutdown) ∨
    (e.active = true ∧ e.results.timeout = true)

theorem TimerPending.evsetsAdd (e : EventView Handler) (takes : Bool) (tv : Int) (hpos : 0 ≤ tv)
    (hle : tv ≤ maxSecondsWaitForShutdown) : TimerPending (e.evsetsAdd takes tv) := by
  obtain ⟨htimer, htv⟩ := e.evsetsAdd_timer takes tv hpos
  exact .inl ⟨htimer, htv.symm ▸ hpos, htv.symm ▸ hle⟩

theorem TimerPending.eventActive {e : EventView Handler} (h : TimerPending e) (res : EvMask) :
    TimerPending (e.eventActive res) := by
  unfold EventView.eventActive
  split
  · exact h.imp id fun h => ⟨h.1, by simp [EvMask.union, h.2]⟩
  · rename_i hinactive
    rcases h with h | h
    · exact .inl h
    · exact absurd h.1 hinactive

theorem TimerPending.timerExpire (e : EventView Handler) : TimerPending e.timerExpire := by
  right
  unfold EventView.timerExpire EventView.eventActive
  split <;> simp_all [EvMask.union, EvMask.evTimeout]

/-! ## Waiting -/

/-- An EXITING session: its write event waits for the descriptor, or for the delay before a
reconnect, with a timer, and there is still something to send. -/
structure Waiting (s : Session) : Prop where
  writing : s.status.writing = true
  queued : s.sendqueue ≠ []
  callback : s.evwrite.cb = some .onWrite ∨ s.evwrite.cb = some .onReconnect
  timer : TimerPending s.evwrite

/-- The timers of a session: that of its end, and that of the delay before a reconnect. -/
structure Timed (s : Session) : Prop where
  exiting : s.freed = false → s.status.exiting = true → Waiting s
  delay : s.freed = false → s.status.writing = true → s.evwrite.cb = some .onReconnect →
    TimerPending s.evwrite

/-- `session_shutdown` finds the write event registered, and not for the delay. -/
def unarmedDrain : Effect → Bool
  | .drain found cb => found.writing && cb != some .onReconnect
  | _ => false

/-- No shutdown was requested while the write event was registered without a timer. -/
def DrainsArmed (s : Session) : Prop := ∀ e ∈ s.trace, unarmedDrain e = false

instance (s : Session) : Decidable s.DrainsArmed :=
  inferInstanceAs (Decidable (∀ e ∈ s.trace, unarmedDrain e = false))

theorem DrainsArmed.of_grows {s t : Session} (h : Grows s t) (ht : t.DrainsArmed) :
    s.DrainsArmed := fun e hmem => ht e (h.trace.subset hmem)

theorem Timed.of_freed {s : Session} (hfreed : s.freed = true) : Timed s :=
  ⟨fun halive => by simp [hfreed] at halive, fun halive => by simp [hfreed] at halive⟩

theorem Waiting.timed {s : Session} (h : Waiting s) : Timed s :=
  ⟨fun _ _ => h, fun _ _ _ => h.timer⟩

/-- A session that neither waits for its end nor for its write event. -/
theorem Timed.of_idle {s : Session} (hexit : s.status.exiting = false)
    (hwriting : s.status.writing = false) : Timed s :=
  ⟨fun _ h => by simp [hexit] at h, fun _ h => by simp [hwriting] at h⟩

theorem Timed.idle {s : Session} (hs : Timed s) (halive : s.freed = false)
    (hwriting : s.status.writing = false) : s.status.exiting = false := by
  cases hexit : s.status.exiting with
  | false => rfl
  | true => simp [(hs.exiting halive hexit).writing] at hwriting

/-- A step that touches neither the write event nor the two status bits, and takes nothing
from the queue. -/
theorem Timed.of_eq {s t : Session} (hs : Timed s) (hfreed : t.freed = s.freed)
    (hexit : t.status.exiting = s.status.exiting) (hwriting : t.status.writing = s.status.writing)
    (hevent : t.evwrite = s.evwrite) (hqueue : s.sendqueue ≠ [] → t.sendqueue ≠ []) : Timed t where
  exiting halive h := by
    have hwaiting := hs.exiting (hfreed ▸ halive) (hexit ▸ h)
    exact ⟨hwriting ▸ hwaiting.writing, hqueue hwaiting.queued, hevent ▸ hwaiting.callback,
      hevent ▸ hwaiting.timer⟩
  delay halive h hcb := hevent ▸ hs.delay (hfreed ▸ halive) (hwriting ▸ h) (hevent ▸ hcb)

/-! ## Primitive operations -/

theorem addReadEvent_evwrite (s : Session) (ev : EvMask) :
    (s.addReadEvent ev).evwrite = s.evwrite ∧
      (s.addReadEvent ev).status.writing = s.status.writing := by
  unfold addReadEvent
  split <;> exact ⟨rfl, rfl⟩

theorem sessionDelEvent_evwrite (s : Session) :
    (s.sessionDelEvent .evRead).evwrite = s.evwrite ∧
      (s.sessionDelEvent .evRead).status.writing = s.status.writing := by
  have hread : s.sessionDelEvent .evRead = s.delReadEvent .evRead := by
    simp [sessionDelEvent, delWriteEvent, EvMask.evRead]
  rw [hread]
  unfold delReadEvent
  split <;> exact ⟨rfl, rfl⟩

/-- The write event of an EXITING session is added with the timer. -/
theorem addWrite_waiting {s : Session} (hexit : s.status.exiting = true)
    (hwriting : s.status.writing = false) (hqueue : s.sendqueue ≠ []) :
    Waiting (s.sessionAddEvent .evWrite) := by
  have hadd : s.sessionAddEvent .evWrite = { s with
      evwrite := ((s.evwrite.eventSet s.fd .evWrite).eventSetCallback .onWrite).evsetsAdd
        (s.poller.headD true) maxSecondsWaitForShutdown
      status := { s.status with writing := true }
      watched := s.watched ++ [(s.fd, s.poller.headD true)]
      poller := s.poller.tail } := by
    simp [sessionAddEvent, addReadEvent, addWriteEvent, EvMask.evWrite, hexit, hwriting]
  rw [hadd]
  exact ⟨rfl, hqueue, .inl (by simp), .evsetsAdd _ _ _ (by decide) (Int.le_refl _)⟩

theorem sessionAddEvent_timed {s : Session} (hs : Timed s) (halive : s.freed = false)
    (ev : EvMask) : Timed (s.sessionAddEvent ev) := by
  have hcore := addReadEvent_core s ev
  obtain ⟨hevent, hwriting⟩ := addReadEvent_evwrite s ev
  have hread : Timed (s.addReadEvent ev) :=
    hs.of_eq (core_freed hcore) (core_exiting hcore) hwriting hevent
      (core_sendqueue hcore ▸ id)
  have hfreed : (s.addReadEvent ev).freed = false := (core_freed hcore).trans halive
  show Timed ((s.addReadEvent ev).addWriteEvent ev)
  generalize s.addReadEvent ev = u at hread hfreed
  unfold addWriteEvent
  split
  · rename_i hadd
    have hidle : u.status.writing = false := by
      simp only [Bool.and_eq_true] at hadd
      simpa using hadd.2
    have hexit := hread.idle hfreed hidle
    refine ⟨fun _ h => ?_, fun _ _ hcb => ?_⟩
    · exact absurd (show u.status.exiting = true from h) (by simp [hexit])
    · simp at hcb
  · exact hread

/-- Every primitive operation keeps the timers, unless it is a shutdown that meets a
registered write event. -/
theorem opRun_timed (op : Op) {s : Session} (hen : op.Enabled s) (hs : Timed s)
    (harmed : (op.run s).DrainsArmed) : Timed (op.run s) := by
  cases op with
  | addRead => exact sessionAddEvent_timed hs hen _
  | addWrite => exact sessionAddEvent_timed hs hen _
  | readdRead =>
    let u : Session := { s with status := { s.status with
        reading := s.status.reading && !EvMask.evRead.read
        writing := s.status.writing && !EvMask.evRead.write } }
    have hu : Timed u := hs.of_eq rfl rfl (by simp [u, EvMask.evRead]) rfl id
    exact sessionAddEvent_timed hu hen .evRead
  | startKeepalive =>
    rw [Op.run, sessionStartKeepalive]
    split
    · exact hs.of_eq rfl rfl rfl rfl id
    · exact hs
  | push m =>
    have hpush : Timed (s.queuePush m).1 := hs.of_eq rfl rfl rfl rfl (queuePush_ne_nil m)
    rcases Op.run_push s m with ⟨-, hrun⟩ | ⟨-, hrun⟩
    · rw [hrun]
      exact (sessionAddEvent_timed hpush hen.1 .evWrite).of_eq rfl rfl rfl rfl id
    · rw [hrun]
      exact hs.of_eq rfl rfl rfl rfl id
  | finish =>
    rw [Op.run, sessionEnd_eq]
    exact .of_freed rfl
  | drain =>
    obtain ⟨halive, hexit, hqueue⟩ := hen
    let u : Session := { s.emit (.drain s.status s.evwrite.cb) with
      status := { s.status with exiting := true } }
    obtain ⟨hevent, hwriting⟩ : (u.sessionDelEvent .evRead).evwrite = s.evwrite ∧
        (u.sessionDelEvent .evRead).status.writing = s.status.writing := sessionDelEvent_evwrite u
    have hexiting : (u.sessionDelEvent .evRead).status.exiting = true := by simp [u]
    have hqueued : (u.sessionDelEvent .evRead).sendqueue = s.sendqueue := by simp [u, emit]
    show Timed ((u.sessionDelEvent .evRead).sessionAddEvent .evWrite)
    cases hbusy : s.status.writing with
    | false =>
      exact (addWrite_waiting hexiting (hwriting.trans hbusy) (hqueued ▸ hqueue)).timed
    | true =>
      -- the event stays as it is, and the only timer it can have is that of the delay
      have hsame : (u.sessionDelEvent .evRead).sessionAddEvent .evWrite =
          u.sessionDelEvent .evRead := by
        simp [sessionAddEvent, addReadEvent, addWriteEvent, EvMask.evWrite, hwriting, hbusy]
      have hdrain : Effect.drain s.status s.evwrite.cb ∈ (Op.drain.run s).trace := by
        simp [Op.run, emit]
      have hcb : s.evwrite.cb = some .onReconnect := by
        have hnot := harmed _ hdrain
        simpa [unarmedDrain, hbusy] using hnot
      have htimer : TimerPending s.evwrite := hs.delay halive hbusy hcb
      rw [hsame]
      exact Waiting.timed ⟨hwriting.trans hbusy, hqueued ▸ hqueue, .inr (hevent ▸ hcb),
        hevent ▸ htimer⟩
  | send buf msg io =>
    have hdirect : ∀ n t, SentDirectly s buf n t → Timed t ∧ t.freed = false := fun n t hsent => by
      cases hsent with
      | nothing => exact ⟨hs, hen⟩
      | bytes => exact ⟨hs.of_eq rfl rfl rfl rfl id, hen⟩
    have hrun := Op.run_send s buf msg io
    generalize (Op.send buf msg io).run s = u at hrun ⊢
    cases hrun with
    | refused => exact hs
    | whole _ n t hsent => exact (hdirect n t hsent).1.of_eq rfl rfl rfl rfl id
    | noMessage n t hsent => exact (hdirect n t hsent).1.of_eq rfl rfl rfl rfl id
    | queued _ n t hsent =>
      obtain ⟨ht, halive⟩ := hdirect n t hsent
      have hqueued :
          Timed ((t.allocate.1.emit (.messageCreate msg)).queuePush (remainder buf msg n)).1 :=
        ht.of_eq rfl rfl rfl rfl (queuePush_ne_nil (s := t.allocate.1.emit (.messageCreate msg)) _)
      exact (sessionAddEvent_timed hqueued halive .evWrite).of_eq rfl rfl rfl rfl id
  | _ => exact hs.of_eq rfl rfl rfl rfl id

theorem Ops.timed {s t : Session} (h : Ops s t) (hs : Timed s) (harmed : t.DrainsArmed) :
    Timed t :=
  h.invariant (I := fun u => u.DrainsArmed → Timed u) (fun _ => hs)
    (fun op u hu hen hv => opRun_timed op hen (hu (hv.of_grows (opRun_grows op u))) hv) harmed

/-! ## Errors and timeouts -/

theorem sessionStartReconnect_timed {s : Session} (hs : Timed s) (hexit : s.status.exiting = false) :
    Timed s.sessionStartReconnect.1 := by
  cases hwriting : s.status.writing with
  | true =>
    rw [sessionStartReconnect_refused s (.inr hwriting)]
    exact hs.of_eq rfl rfl rfl rfl id
  | false =>
    rw [sessionStartReconnect_eq s hexit hwriting]
    exact ⟨fun _ h => by simp at h, fun _ _ _ => .evsetsAdd _ _ _ (by decide) (by decide)⟩

theorem Outcome.timed {s t : Session} (h : Outcome s t) (hs : Timed s) (harmed : t.DrainsArmed) :
    Timed t := by
  cases h with
  | settled h => exact h.timed hs harmed
  | reconnect u h _ hexit ht =>
    have hu : Timed u := h.timed hs (harmed.of_grows (ht ▸ sessionStartReconnect_grows u))
    exact ht ▸ sessionStartReconnect_timed hu hexit

/-- An operation does not call off the end of a session. -/
theorem opRun_exiting (op : Op) {s : Session} (hexit : s.freed = true ∨ s.status.exiting = true) :
    (op.run s).freed = true ∨ (op.run s).status.exiting = true := by
  cases op with
  | finish => exact .inl (by rw [Op.run, sessionEnd_eq])
  | drain => exact .inr (by simp [Op.run])
  | send buf msg io =>
    have hdirect : ∀ n t, SentDirectly s buf n t → t.freed = true ∨ t.status.exiting = true :=
      fun n t hsent => by cases hsent <;> exact hexit
    have hrun := Op.run_send s buf msg io
    generalize (Op.send buf msg io).run s = u at hrun ⊢
    cases hrun with
    | refused => exact hexit
    | whole _ n t hsent => exact hdirect n t hsent
    | noMessage n t hsent => exact hdirect n t hsent
    | queued _ n t hsent => simpa [queueRest, emit, queuePush, allocate] using hdirect n t hsent
  | push m =>
    rcases Op.run_push s m with ⟨-, hrun⟩ | ⟨-, hrun⟩ <;> rw [hrun] <;>
      simpa [emit, queuePush, allocate] using hexit
  | _ => simpa [Op.run, emit, sessionClose] using hexit

theorem Ops.exiting {s t : Session} (h : Ops s t) (hexit : s.freed = true ∨ s.status.exiting = true) :
    t.freed = true ∨ t.status.exiting = true :=
  h.invariant (I := fun u => u.freed = true ∨ u.status.exiting = true) hexit
    fun op _ hu _ => opRun_exiting op hu

/-- An error is the end of an EXITING session. -/
theorem channelErrorIn_freed (s : Session) (env : Env) (result : IoError)
    (hexit : s.status.exiting = true) : (s.channelErrorIn env result).freed = true := by
  cases channelErrorIn_outcome s env result with
  | reconnect u h halive hnot _ =>
    have hstill := h.exiting (.inr hexit)
    simp [halive, hnot] at hstill
  | settled _ _ =>
    unfold channelErrorIn channelError
    have hstill : (env.error.run (s.emit (.error result))).freed = true ∨
        (env.error.run (s.emit (.error result))).status.exiting = true :=
      (Callback.run_ops env.error (s.emit (.error result))).exiting (.inr hexit)
    generalize env.error.run (s.emit (.error result)) = u at hstill
    cases hfreed : u.freed with
    | true => exact (congrArg Session.freed (whenAlive_freed hfreed _)).trans hfreed
    | false =>
      have hu : u.status.exiting = true := hstill.resolve_left (by simp [hfreed])
      simp only [whenAlive_alive hfreed, hu, Bool.or_true, if_true]
      exact channelShutdown_freed u _

/-! ## Handlers -/

theorem channelOnRead_timed {s : Session} (hs : Timed s) (halive : s.freed = false) (ev : EvMask)
    (env : Env) (harmed : (s.channelOnRead ev env).DrainsArmed) :
    Timed (s.channelOnRead ev env) := by
  have hclear : Timed s.clearReading := by
    unfold clearReading
    split
    · exact hs
    · exact hs.of_eq rfl rfl rfl rfl id
  -- the write event is only touched by what follows the callback
  cases channelOnRead_course s halive ev env with
  | ended h => exact h.timed hclear harmed
  | rearmed _ _ u h hu ht =>
    rw [ht] at harmed ⊢
    split at harmed <;> rename_i hpersist
    · rw [if_pos hpersist]
      exact h.timed hclear harmed
    · rw [if_neg hpersist]
      have hadd := sessionAddEvent_grows u .evRead
      exact sessionAddEvent_timed (h.timed hclear (harmed.of_grows hadd)) hu .evRead
  | failed u h _ ht =>
    have hdel : Grows u u.delPersistentRead := by
      unfold delPersistentRead
      split
      · exact sessionDelEvent_grows u _
      · exact .refl u
    have hu := h.timed hclear (harmed.of_grows (hdel.trans ht.grows))
    refine ht.timed ?_ harmed
    unfold delPersistentRead
    split
    · obtain ⟨hevent, hwriting⟩ := sessionDelEvent_evwrite u
      exact hu.of_eq (by simp) (by simp) hwriting hevent (by simp)
    · exact hu

/-- The write event of an EXITING session is taken: the session goes on with the timer, or
it ends. -/
theorem channelOnWrite_waiting {s : Session} (hexit : s.status.exiting = true)
    (hqueue : s.sendqueue ≠ []) (iovMax : Nat) (ev : EvMask) (env : Env) :
    (s.channelOnWrite iovMax ev env).freed = true ∨
      (ev.write = true ∧ Waiting (s.channelOnWrite iovMax ev env)) := by
  unfold channelOnWrite
  cases hwrite : ev.write with
  | false => exact .inl (channelShutdown_freed _ _)
  | true =>
    have hsome : (!s.clearWriting.sendqueue.isEmpty) = true := by simpa [clearWriting] using hqueue
    -- an exiting session ends, or waits for its event again
    have hsent : (s.clearWriting.settingTransmit iovMax env.writev).1.status.exiting = true ∧
        (s.clearWriting.settingTransmit iovMax env.writev).1.status.writing = false := by
      obtain ⟨_, _, _, -, h⟩ := settingTransmit_frame s.clearWriting iovMax env.writev
      rw [h]
      exact ⟨hexit, rfl⟩
    simp only [hsome, if_true]
    generalize s.clearWriting.settingTransmit iovMax env.writev = r at hsent
    split
    · exact .inl (channelErrorIn_freed r.1 env .writeFailure hsent.1)
    · unfold afterTransmit
      split
      · rename_i hleft
        split
        · exact .inr ⟨trivial, addWrite_waiting hsent.1 hsent.2 (by simpa using hleft)⟩
        · exact .inl (channelErrorIn_freed r.1 env .sendQueueLimit hsent.1)
      · rw [if_pos hsent.1]
        exact .inl (channelShutdown_freed r.1 _)

theorem channelOnWrite_timed {s : Session} (halive : s.freed = false)
    (hexit : s.status.exiting = false) (iovMax : Nat) (ev : EvMask) (env : Env)
    (harmed : (s.channelOnWrite iovMax ev env).DrainsArmed) :
    Timed (s.channelOnWrite iovMax ev env) := by
  revert harmed
  have hidle : Timed s.clearWriting := .of_idle hexit rfl
  have hsent : Timed (s.clearWriting.settingTransmit iovMax env.writev).1 ∧
      (s.clearWriting.settingTransmit iovMax env.writev).1.freed = false := by
    obtain ⟨_, _, _, -, h⟩ := settingTransmit_frame s.clearWriting iovMax env.writev
    rw [h]
    exact ⟨.of_idle hexit rfl, halive⟩
  unfold channelOnWrite
  dsimp only
  generalize s.clearWriting.settingTransmit iovMax env.writev = r at hsent ⊢
  generalize s.clearWriting = u at hidle ⊢
  split
  · split
    · split
      · exact (channelErrorIn_outcome r.1 env .writeFailure).timed hsent.1
      · -- the session waits for the rest, ends, or has sent all
        rcases afterTransmit_cases r.1 env with ⟨-, h⟩ | h | ⟨-, -, h⟩
        · rw [h]
          exact fun _ => sessionAddEvent_timed hsent.1 hsent.2 .evWrite
        · exact h.timed hsent.1
        · rw [h]
          exact fun _ => hsent.1
    · exact fun _ => hidle
  · exact (channelShutdown_ops u (runCalls_ops env.shutdown)).timed hidle

/-- What an attempt to reconnect has for a descriptor; a temporary session keeps what it
has. -/
def attemptFd (s : Session) (env : Env) : Int :=
  match s.type with
  | .connect | .associate => env.newFd
  | .accept | .shared => s.fd

theorem reconnectFd_fd (s : Session) (env : Env) : (s.reconnectFd env).fd = s.attemptFd env := by
  unfold reconnectFd attemptFd
  cases s.type <;> rfl

theorem reconnectFd_status (s : Session) (env : Env) : (s.reconnectFd env).status = s.status := by
  unfold reconnectFd
  split <;> rfl

/-- The delay is over: an EXITING session ends if it gets no descriptor. -/
theorem channelOnReconnect_freed {s : Session} (hexit : s.status.exiting = true) {env : Env}
    (hnone : s.attemptFd env < 0) : (s.channelOnReconnect env).freed = true := by
  have hfd : (s.clearWriting.reconnectFd env).fd < 0 := by
    rw [reconnectFd_fd]
    exact hnone
  have hexiting : (s.clearWriting.reconnectFd env).status.exiting = true := by
    rw [reconnectFd_status]
    exact hexit
  unfold channelOnReconnect
  dsimp only
  rw [if_pos hfd]
  exact channelErrorIn_freed _ env .connectFailure hexiting

theorem channelOnReconnect_timed {s : Session} (hexit : s.status.exiting = false) (env : Env)
    (harmed : (s.channelOnReconnect env).DrainsArmed) : Timed (s.channelOnReconnect env) := by
  revert harmed
  have hfd : (s.clearWriting.reconnectFd env).status.exiting = false ∧
      (s.clearWriting.reconnectFd env).status.writing = false := by
    rw [reconnectFd_status]
    exact ⟨hexit, rfl⟩
  unfold channelOnReconnect
  dsimp only
  generalize s.clearWriting.reconnectFd env = u at hfd ⊢
  have hidle : Timed u := .of_idle hfd.1 hfd.2
  split
  · exact (channelErrorIn_outcome u env .connectFailure).timed hidle
  · refine fun _ => ⟨fun _ h => ?_, fun _ _ hcb => ?_⟩
    · exact absurd (show u.status.exiting = true from h) (by simp [hfd.1])
    · simp [awaitConnection] at hcb

theorem reconnected_timed {s : Session} (hexit : s.status.exiting = false) (ev : EvMask)
    (env : Env) (harmed : (s.reconnected ev env).DrainsArmed) : Timed (s.reconnected ev env) := by
  have hidle : Timed s.clearWriting := .of_idle hexit rfl
  cases hwrite : ev.write with
  | false =>
    rw [reconnected_timeout s env hwrite] at harmed ⊢
    exact (timeout_outcome _ env).timed hidle harmed
  | true =>
    cases hconn : env.connected with
    | false =>
      rw [reconnected_failed s hwrite hconn] at harmed ⊢
      exact (channelErrorIn_outcome _ env .connectStatus).timed hidle harmed
    | true =>
      rw [reconnected_connected s hwrite hconn] at harmed ⊢
      have htake : Timed s.clearWriting.takeQueue := .of_idle hexit rfl
      have hstart := Callback.run_ops env.start s.clearWriting.takeQueue
      generalize env.start.run s.clearWriting.takeQueue = u at hstart harmed ⊢
      cases hfreed : u.freed with
      | true =>
        rw [whenAlive_freed hfreed]
        exact .of_freed hfreed
      | false =>
        rw [whenAlive_alive hfreed] at harmed ⊢
        have hresume := resume_ops u hfreed s.clearWriting.sendqueue
        -- the timer is that of the state before the merge, which leaves the events alone
        obtain ⟨q', memory, -, -, hmerged⟩ := sessionSendqueueMerge_frame u s.clearWriting.sendqueue
        have hmerge : Grows u (u.sessionSendqueueMerge s.clearWriting.sendqueue) := by
          rw [hmerged]
          exact .records [] (by simp) rfl rfl rfl
        have hu : Timed u := hstart.timed htake (harmed.of_grows (hmerge.trans hresume.grows))
        have htimed : Timed (u.sessionSendqueueMerge s.clearWriting.sendqueue) := by
          rw [hmerged]
          exact hu.of_eq rfl rfl rfl rfl fun h => List.append_ne_nil_of_left_ne_nil h q'
        exact hresume.timed htimed harmed

/-! ## Steps -/

/-- No attempt to reconnect an EXITING session obtains a descriptor. -/
def NoAttempt (s : Session) : Input → Prop
  | .deliver .evwrite env =>
    s.status.exiting = true → s.evwrite.cb = some .onReconnect → s.attemptFd env < 0
  | _ => True

instance (s : Session) (i : Input) : Decidable (NoAttempt s i) :=
  match i with
  | .deliver .evwrite env => inferInstanceAs (Decidable
      (s.status.exiting = true → s.evwrite.cb = some .onReconnect → s.attemptFd env < 0))
  | .deliver .evread _ | .deliver .evkeepalive _ | .report _ _ | .expire _ | .datagram _ _
  | .schedule _ _ | .call _ | .shutdown _ | .answers _ _ => inferInstanceAs (Decidable True)

/-- An event moved between the lists of the event set, its timer or timeout with it. -/
theorem setEvent_timed {s : Session} (hs : Timed s) (w : Which) (e : EventView Handler)
    (hcb : e.cb = (s.event w).cb) (htimer : TimerPending (s.event w) → TimerPending e) :
    Timed (s.setEvent w e) := by
  cases w with
  | evread => exact hs.of_eq rfl rfl rfl rfl id
  | evkeepalive => exact hs.of_eq rfl rfl rfl rfl id
  | evwrite =>
    have hcb' : e.cb = s.evwrite.cb := hcb
    refine ⟨fun halive hexit => ?_, fun halive hwriting h => ?_⟩
    · have hwaiting := hs.exiting halive hexit
      exact ⟨hwaiting.writing, hwaiting.queued, hcb'.symm ▸ hwaiting.callback, htimer hwaiting.timer⟩
    · exact htimer (hs.delay halive hwriting (hcb' ▸ h))

/-- An event other than the write event. -/
theorem setOther_timed {s : Session} (hs : Timed s) (w : Which) (e : EventView Handler)
    (hw : w ≠ .evwrite) : Timed (s.setEvent w e) := by
  cases w with
  | evwrite => exact absurd rfl hw
  | evread => exact hs.of_eq rfl rfl rfl rfl id
  | evkeepalive => exact hs.of_eq rfl rfl rfl rfl id

theorem step_timed {iovMax : Nat} {s t : Session} {i : Input} (hs : Timed s)
    (hcallbacks : HasCallbacks s) (hcond : NoAttempt s i) (h : step iovMax s i = some t)
    (harmed : t.DrainsArmed) : Timed t := by
  have halive := step_alive h
  cases step_cases h with
  | report w res => exact setEvent_timed hs w _ (by simp) fun h => h.eventActive res
  | expire w => exact setEvent_timed hs w _ (by simp) fun _ => .timerExpire _
  | uninstalled w _ _ hcb =>
    by_cases hw : w = .evwrite
    · subst hw
      -- neither timer is on an event without a callback
      have hnone : s.evwrite.cb = none := hcb
      refine ⟨fun _ hexit => ?_, fun _ _ h => ?_⟩
      · rcases (hs.exiting halive hexit).callback with h | h <;> simp [hnone] at h
      · simp [setEvent, event, hnone] at h
    · exact setOther_timed hs w _ hw
  | onSchedule w _ _ hcb => cases hcallbacks w .onSchedule hcb
  | onRead w env _ hcb =>
    obtain rfl := hcallbacks.owner hcb rfl
    have htaken := setOther_timed hs .evread s.evread.processActive (by simp)
    exact channelOnRead_timed htaken halive _ env harmed
  | onKeepalive w env _ hcb =>
    obtain rfl := hcallbacks.owner hcb rfl
    have hcleared : Timed { s.setEvent .evkeepalive s.evkeepalive.processActive with
        status := { s.status with keepaliving := false } } := hs.of_eq rfl rfl rfl rfl id
    exact (channelOnKeepalive_ops _ env).timed hcleared harmed
  | onWrite w env _ hcb =>
    obtain rfl := hcallbacks.owner hcb rfl
    cases hexit : s.status.exiting with
    | false =>
      exact channelOnWrite_timed (s := s.setEvent .evwrite s.evwrite.processActive) halive hexit
        iovMax _ env harmed
    | true =>
      have hqueue := (hs.exiting halive hexit).queued
      rcases channelOnWrite_waiting (s := s.setEvent .evwrite s.evwrite.processActive) hexit hqueue
        iovMax (s.event .evwrite).results env with hfreed | ⟨-, hwaiting⟩
      · exact .of_freed hfreed
      · exact hwaiting.timed
  | onReconnect w env _ hcb =>
    obtain rfl := hcallbacks.owner hcb rfl
    cases hexit : s.status.exiting with
    | false =>
      exact channelOnReconnect_timed (s := s.setEvent .evwrite s.evwrite.processActive) hexit env
        harmed
    | true =>
      exact .of_freed (channelOnReconnect_freed
        (s := s.setEvent .evwrite s.evwrite.processActive) hexit (hcond hexit hcb))
  | reconnected w env _ hcb =>
    obtain rfl := hcallbacks.owner hcb rfl
    have hexit : s.status.exiting = false := by
      cases hexit : s.status.exiting with
      | false => rfl
      | true =>
        rcases (hs.exiting halive hexit).callback with h | h <;>
          simp [show s.evwrite.cb = some .reconnected from hcb] at h
    exact reconnected_timed (s := s.setEvent .evwrite s.evwrite.processActive) hexit _ env harmed
  | ops _ _ _ h => exact h.timed hs harmed
  | answers memory poller => exact hs.of_eq rfl rfl rfl rfl id

/-- The wait is over: a session that is EXITING ends when its timeout is delivered. -/
theorem timeout_ends {iovMax : Nat} {s t : Session} {env : Env} (hs : Waiting s)
    (hexit : s.status.exiting = true) (hcallbacks : HasCallbacks s)
    (hcond : NoAttempt s (.deliver .evwrite env)) (hwrite : s.evwrite.results.write = false)
    (h : step iovMax s (.deliver .evwrite env) = some t) : t.freed = true := by
  cases step_cases h with
  | onWrite _ _ _ hcb =>
    rcases channelOnWrite_waiting (s := s.setEvent .evwrite s.evwrite.processActive) hexit hs.queued
      iovMax (s.event .evwrite).results env with hfreed | ⟨hready, -⟩
    · exact hfreed
    · simp [event, hwrite] at hready
  | onReconnect _ _ _ hcb =>
    exact channelOnReconnect_freed (s := s.setEvent .evwrite s.evwrite.processActive) hexit
      (hcond hexit hcb)
  | uninstalled _ _ _ hcb =>
    rcases hs.callback with h | h <;> simp [show s.evwrite.cb = none from hcb] at h
  | reconnected _ _ _ hcb =>
    rcases hs.callback with h | h <;> simp [show s.evwrite.cb = some .reconnected from hcb] at h
  | onRead _ _ _ hcb => cases hcallbacks.owner hcb rfl
  | onKeepalive _ _ _ hcb => cases hcallbacks.owner hcb rfl
  | onSchedule _ _ _ hcb => cases hcallbacks _ .onSchedule hcb
  | ops _ _ hi => exact absurd rfl (hi .evwrite env)

/-! ## Runs -/

/-- In every run in which no shutdown is requested while the write event is registered
without a timer, and no attempt to reconnect an EXITING session obtains a descriptor, the
write event of a live EXITING session has a timer pending, of no more than
`MAX_SECONDS_WAIT_FOR_SHUTDOWN`, or just expired; and a delivery of the timeout alone ends
the session. -/
theorem exiting_has_timer (iovMax : Nat) (reattach : Bool) (type : SessionType) (fd : Int)
    (env : Env) (is : List Input) (t : Session)
    (hrun : Lib.GuardedRun (step iovMax) NoAttempt (started reattach type fd env) is t)
    (harmed : t.DrainsArmed) (halive : t.freed = false) (hexit : t.status.exiting = true) :
    TimerPending t.evwrite ∧
      ∀ (e : Env) (u : Session), NoAttempt t (.deliver .evwrite e) →
        t.evwrite.results.write = false → step iovMax t (.deliver .evwrite e) = some u →
        u.freed = true := by
  have hinv : HasCallbacks t ∧ (t.DrainsArmed → Timed t) :=
    hrun.invariant (I := fun u => HasCallbacks u ∧ (u.DrainsArmed → Timed u))
      ⟨started_hasCallbacks reattach type fd env,
        (started_ops reattach type fd env).timed (.of_idle rfl rfl)⟩
      fun u i v hu hcond hstep => by
        refine ⟨step_hasCallbacks hstep hu.1, fun hv => ?_⟩
        exact step_timed (hu.2 (hv.of_grows (step_grows hstep))) hu.1 hcond hstep hv
  have hwaiting := (hinv.2 harmed).exiting halive hexit
  exact ⟨hwaiting.timer, fun e u hcond hwrite hstep =>
    timeout_ends hwaiting hexit hinv.1 hcond hwrite hstep⟩

/-- The reconnect delay has begun when the layer shuts the session down. -/
def shutdownInDelay : List Input :=
  [.report .evread .evRead, .deliver .evread { read := .data [] },
    .call (.send { buf := [1] }), .shutdown {}]

theorem exiting_has_timer_shutdownInDelay :
    ∃ t, Lib.guardedExec (step 1024) NoAttempt (started false .connect 5 {}) shutdownInDelay =
        some t ∧ t.freed = false ∧ TimerPending t.evwrite := by
  have h := exiting_has_timer 1024 false .connect 5 {} shutdownInDelay _
    (Lib.GuardedRun.of_exec rfl) (by decide) rfl rfl
  exact ⟨_, rfl, rfl, h.1⟩

/-- The socket buffer is full, the rest of the data waits for `EV_WRITE`, and the layer
shuts the session down. -/
def shutdownDuringWrite : List Input :=
  [.call (.send { buf := [1, 2, 3], io := .wrote 1 }), .shutdown {}]

/-- The write event was registered before the session became EXITING: it has no timer. -/
theorem exiting_has_timer_write_fails :
    ∃ t, Lib.guardedExec (step 1024) NoAttempt (started false .accept 5 {}) shutdownDuringWrite =
        some t ∧
      t.freed = false ∧ t.status.exiting = true ∧ t.evwrite.inserted = true ∧
      ¬ TimerPending t.evwrite := by
  refine ⟨_, rfl, rfl, rfl, rfl, fun h => ?_⟩
  rcases h with h | h
  · exact absurd h.1 (by decide)
  · exact absurd h.1 (by decide)

end Evlite.Session
