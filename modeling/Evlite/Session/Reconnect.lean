import Evlite.Session.Flags

/-!
# Attended Sessions

A permanent session is reconnected when its connection breaks. Between two connections it
waits on `evwrite`, first for the delay and then for the outcome of the attempt; while it
is connected it has to be polled for reading, or it would not notice the end of the
connection. It is attended if it does one of the two.

`session_start_reconnect` refuses to do anything while `SESSION_WRITING` is set, and none
of its callers looks at what it returns. By then `channel_on_read` has given up the read
event. `service.error` runs in between and can register events itself, so that the condition
on the entry of `session_start_reconnect` is read off the log of the run (`NeverRefused`).

## Main results

- `Outcome.attended`: an error or a timeout leaves a session attended unless the reconnect
  is refused to a session that gave up its read event.
- `attended_unless_refused`: so does every run, from the start of the session on.
-/

namespace Evlite.Session

/-! ## Attended -/

/-- Polled for reading, or with no need to be: about to end, or not permanent. -/
def Listening (s : Session) : Prop :=
  (s.status.reading = true ∨ s.status.exiting = true ∨ s.freed = true) ∨
    s.sessionIsReattch = false

/-- A reconnect is pending or in progress on the write event. -/
def Reconnecting (s : Session) : Prop :=
  s.status.writing = true ∧
    (s.evwrite.cb = some .onReconnect ∨ s.evwrite.cb = some .reconnected)

/-- The session is polled for reading or reconnecting. -/
def Attended (s : Session) : Prop := s.Listening ∨ s.Reconnecting

/-- `session_start_reconnect` was entered while the write event was registered, and after
the read event had been given up. -/
def deafReconnect : Effect → Bool
  | .startReconnect found => found.writing && !found.reading
  | _ => false

/-- No reconnect was refused to a session that had given up its read event. -/
def NeverRefused (s : Session) : Prop := ∀ e ∈ s.trace, deafReconnect e = false

instance (s : Session) : Decidable s.NeverRefused :=
  inferInstanceAs (Decidable (∀ e ∈ s.trace, deafReconnect e = false))

theorem NeverRefused.of_grows {s t : Session} (h : Grows s t) (ht : t.NeverRefused) :
    s.NeverRefused :=
  fun e hmem => ht e (h.trace.subset hmem)

theorem Listening.of_reading {s : Session} (h : s.status.reading = true) : Listening s :=
  .inl (.inl h)

theorem Listening.of_exiting {s : Session} (h : s.status.exiting = true) : Listening s :=
  .inl (.inr (.inl h))

theorem Listening.of_freed {s : Session} (h : s.freed = true) : Listening s :=
  .inl (.inr (.inr h))

theorem Listening.of_temporary {s : Session} (h : s.sessionIsReattch = false) : Listening s :=
  .inr h

/-! ## Primitive operations -/

theorem opRun_listening (op : Op) {s : Session} (hen : op.Enabled s) (hs : Listening s) :
    Listening (op.run s) :=
  hs.imp (opRun_keepsReading op hen) fun h => (opRun_grows op s).sessionIsReattch.trans h

theorem Ops.listening {s t : Session} (h : Ops s t) (hs : Listening s) : Listening t :=
  h.invariant hs fun op _ hu hen => opRun_listening op hen hu

/-- While `SESSION_WRITING` is set nothing is added on the write event. -/
theorem sessionAddEvent_reconnecting {s : Session} (hs : Reconnecting s) (ev : EvMask) :
    Reconnecting (s.sessionAddEvent ev) := by
  have hread : Reconnecting (s.addReadEvent ev) := by
    unfold addReadEvent
    split <;> exact hs
  have hwrite : (ev.write && !(s.addReadEvent ev).status.writing) = false := by simp [hread.1]
  have hsame : (s.addReadEvent ev).addWriteEvent ev = s.addReadEvent ev := by
    unfold addWriteEvent
    rw [hwrite]
    rfl
  show Reconnecting ((s.addReadEvent ev).addWriteEvent ev)
  rw [hsame]
  exact hread

/-- A primitive operation ends a session or leaves a reconnect alone. -/
theorem opRun_attended (op : Op) {s : Session} (hen : op.Enabled s) (hs : Attended s) :
    Attended (op.run s) := by
  rcases hs with hs | hs
  · exact .inl (opRun_listening op hen hs)
  cases op with
  | note e => exact .inr hs
  | configure setting => exact .inr hs
  | buffer bytes => exact .inr hs
  | schedule t => exact .inr hs
  | cancel t => exact .inr hs
  | close => exact .inr hs
  | addRead => exact .inr (sessionAddEvent_reconnecting hs .evRead)
  | addWrite => exact .inr (sessionAddEvent_reconnecting hs .evWrite)
  | readdRead =>
    right
    let u : Session := { s with status := { s.status with
        reading := s.status.reading && !EvMask.evRead.read
        writing := s.status.writing && !EvMask.evRead.write } }
    -- the timer of the delay is the write event, which this does not touch
    have hu : Reconnecting u := ⟨by simp [u, EvMask.evRead, hs.1], hs.2⟩
    exact sessionAddEvent_reconnecting hu .evRead
  | startKeepalive =>
    right
    rw [Op.run, sessionStartKeepalive]
    split <;> exact hs
  | push m =>
    right
    have hpush : Reconnecting (s.queuePush m).1 := hs
    rcases Op.run_push s m with ⟨-, hrun⟩ | ⟨-, hrun⟩
    · rw [hrun]
      exact sessionAddEvent_reconnecting hpush .evWrite
    · rw [hrun]
      exact hs
  | drain => exact .inl (.of_exiting (by simp [Op.run]))
  | finish => exact .inl (.of_freed (by rw [Op.run, sessionEnd_eq]))
  | send buf msg io =>
    right
    have hdirect : ∀ n t, SentDirectly s buf n t → Reconnecting t := fun n t hsent => by
      cases hsent <;> exact hs
    have hrun := Op.run_send s buf msg io
    generalize (Op.send buf msg io).run s = u at hrun ⊢
    cases hrun with
    | refused => exact hs
    | whole _ n t hsent => exact hdirect n t hsent
    | noMessage n t hsent => exact hdirect n t hsent
    | queued _ n t hsent =>
      have hqueued : Reconnecting
          ((t.allocate.1.emit (.messageCreate msg)).queuePush (remainder buf msg n)).1 :=
        hdirect n t hsent
      exact sessionAddEvent_reconnecting hqueued .evWrite

theorem Ops.attended {s t : Session} (h : Ops s t) (hs : Attended s) : Attended t :=
  h.invariant hs fun op _ hu hen => opRun_attended op hen hu

/-! ## Errors and timeouts -/

theorem sessionStartReconnect_attended {s : Session} (hexit : s.status.exiting = false)
    (hnever : s.sessionStartReconnect.1.NeverRefused) : Attended s.sessionStartReconnect.1 := by
  cases hwriting : s.status.writing with
  | true =>
    -- refused, which is harmless as long as the session still listens
    rw [sessionStartReconnect_refused s (.inr hwriting)] at hnever ⊢
    have hentered : Effect.startReconnect s.status ∈ (s.emit (.startReconnect s.status)).trace := by
      simp [emit]
    have hreading : s.status.reading = true := by
      simpa [deafReconnect, hwriting] using hnever _ hentered
    exact .inl (.of_reading hreading)
  | false =>
    rw [sessionStartReconnect_eq s hexit hwriting]
    exact .inr ⟨rfl, .inl (by simp [reconnectEvent])⟩

/-- Whatever state an error or a timeout finds a session in, it leaves it attended. -/
theorem Outcome.attended {s t : Session} (h : Outcome s t) (hnever : t.NeverRefused) :
    Attended t := by
  cases h with
  | settled h hend =>
    rcases hend with hfreed | hexit | htemporary
    · exact .inl (.of_freed hfreed)
    · exact .inl (.of_exiting hexit)
    · exact .inl (.of_temporary ((sessionIsReattch_eq h).trans htemporary))
  | reconnect u h _ hexit ht =>
    rw [ht] at hnever ⊢
    exact sessionStartReconnect_attended hexit hnever

/-! ## Handlers -/

theorem addRead_listening (s : Session) : Listening (s.sessionAddEvent .evRead) := by
  cases hexit : s.status.exiting with
  | true => exact .of_exiting (by rw [sessionAddEvent_exiting, hexit])
  | false =>
    refine .of_reading ?_
    cases hreading : s.status.reading <;>
      simp [sessionAddEvent, addReadEvent, addWriteEvent, EvMask.evRead, hexit, hreading]

theorem channelOnWrite_attended {s : Session} (hs : Listening s) (halive : s.freed = false)
    (iovMax : Nat) (ev : EvMask) (env : Env)
    (hnever : (s.channelOnWrite iovMax ev env).NeverRefused) :
    Attended (s.channelOnWrite iovMax ev env) := by
  revert hnever
  unfold channelOnWrite
  have hclear : Listening s.clearWriting := hs
  have hfreed : s.clearWriting.freed = false := halive
  generalize s.clearWriting = u at hclear hfreed
  dsimp only
  split
  · split
    · -- a transmission takes no event out
      have hsent : Listening (u.settingTransmit iovMax env.writev).1 ∧
          (u.settingTransmit iovMax env.writev).1.freed = false := by
        obtain ⟨_, _, _, -, h⟩ := settingTransmit_frame u iovMax env.writev
        rw [h]
        exact ⟨hclear, hfreed⟩
      generalize u.settingTransmit iovMax env.writev = r at hsent
      split
      · intro hnever
        exact (channelErrorIn_outcome r.1 env .writeFailure).attended hnever
      · intro hnever
        rcases afterTransmit_cases r.1 env with ⟨-, h⟩ | h | ⟨-, -, h⟩
        · rw [h]
          have hadd : Ops r.1 (r.1.sessionAddEvent .evWrite) := Ops.single .addWrite hsent.2
          exact .inl (hadd.listening hsent.1)
        · exact h.attended hnever
        · rw [h]
          exact .inl hsent.1
    · intro _
      exact .inl hclear
  · intro _
    exact .inl (.of_freed (channelShutdown_freed u _))

theorem channelOnReconnect_attended {s : Session} (env : Env)
    (hnever : (s.channelOnReconnect env).NeverRefused) : Attended (s.channelOnReconnect env) := by
  unfold channelOnReconnect at hnever ⊢
  generalize s.clearWriting.reconnectFd env = u at hnever ⊢
  dsimp only at hnever ⊢
  split at hnever
  · rename_i hfd
    rw [if_pos hfd]
    exact (channelErrorIn_outcome u env .connectFailure).attended hnever
  · rename_i hfd
    rw [if_neg hfd]
    exact .inr ⟨rfl, .inr (by simp [awaitConnection])⟩

theorem resume_listening (s : Session) (halive : s.freed = false) (q : List Message) :
    Listening (s.resume q) := by
  let u := s.sessionSendqueueMerge q
  let v := u.sessionAddEvent .evRead
  have hu : u.freed = false := (sessionSendqueueMerge_freed s q).trans halive
  have hv : v.freed = false := (sessionAddEvent_freed u _).trans hu
  have hadd : Ops v (v.sessionAddEvent .evWrite) := Ops.single .addWrite hv
  have hkeep : Ops (v.sessionAddEvent .evWrite) (v.sessionAddEvent .evWrite).sessionStartKeepalive :=
    Ops.single .startKeepalive ((sessionAddEvent_freed v _).trans hv)
  exact hkeep.listening (hadd.listening (addRead_listening u))

theorem reconnected_attended {s : Session} (ev : EvMask) (env : Env)
    (hnever : (s.reconnected ev env).NeverRefused) : Attended (s.reconnected ev env) := by
  cases hwrite : ev.write with
  | false =>
    rw [reconnected_timeout s env hwrite] at hnever ⊢
    exact (timeout_outcome _ env).attended hnever
  | true =>
    cases hconn : env.connected with
    | false =>
      rw [reconnected_failed s hwrite hconn] at hnever ⊢
      exact (channelErrorIn_outcome _ env .connectStatus).attended hnever
    | true =>
      rw [reconnected_connected s hwrite hconn]
      generalize env.start.run s.clearWriting.takeQueue = u
      cases hfreed : u.freed with
      | true =>
        rw [whenAlive_freed hfreed]
        exact .inl (.of_freed hfreed)
      | false =>
        rw [whenAlive_alive hfreed]
        exact .inl (resume_listening u hfreed s.clearWriting.sendqueue)

/-- A read event is taken: the session goes on reading, or the outcome is that of an error
or a timeout. -/
theorem readEvent_attended {s t : Session} {env : Env} (hs : Sound s) (hpos : s.Positive)
    (halive : s.freed = false) (hactive : s.evread.active = true)
    (hmode : SteadyMode s (.deliver .evread env))
    (ht : t = (s.setEvent .evread s.evread.processActive).channelOnRead s.evread.results env)
    (hnever : t.NeverRefused) : Attended t := by
  cases hfreed : t.freed with
  | true => exact .inl (.of_freed hfreed)
  | false =>
    cases hexit : t.status.exiting with
    | true => exact .inl (.of_exiting hexit)
    | false =>
      have hcourse := channelOnRead_course (s.setEvent .evread s.evread.processActive) halive
        s.evread.results env
      rw [← ht] at hcourse
      cases hcourse with
      | ended _ hend => simp [hfreed] at hend
      | rearmed hread hok _ _ _ _ =>
        have hreading := read_rearmed hs hpos halive hactive hmode ht hread hok hfreed hexit
        exact .inl (.of_reading hreading)
      | failed u _ _ h => exact h.attended hnever

/-! ## Steps -/

/-- An event whose callback stays the same. -/
theorem setEvent_attended {s : Session} (hs : Attended s) (w : Which) (e : EventView Handler)
    (hcb : e.cb = (s.event w).cb) : Attended (s.setEvent w e) := by
  cases w with
  | evwrite => exact hs.imp id fun h => ⟨h.1, hcb.symm ▸ h.2⟩
  | evread => exact hs
  | evkeepalive => exact hs

/-- Every step leaves an attended session attended. -/
theorem step_attended {iovMax : Nat} {s t : Session} {i : Input} (hsound : Sound s)
    (hcallbacks : HasCallbacks s) (hpos : s.Positive) (hmode : SteadyMode s i)
    (h : step iovMax s i = some t) (hnever : t.NeverRefused) (hs : Attended s) : Attended t := by
  have halive := step_alive h
  cases step_cases h with
  | report w res => exact setEvent_attended hs w _ (by simp)
  | expire w => exact setEvent_attended hs w _ (by simp)
  | uninstalled w => exact setEvent_attended hs w _ (by simp)
  | onSchedule w => exact setEvent_attended hs w _ (by simp)
  | onRead w env hactive hcb =>
    obtain rfl := hcallbacks.owner hcb rfl
    exact readEvent_attended hsound hpos halive hactive hmode rfl hnever
  | onWrite w env _ hcb =>
    obtain rfl := hcallbacks.owner hcb rfl
    -- no reconnect is under way on this callback
    have hlistening : Listening s := hs.resolve_right fun hrec => by
      have hother := hrec.2
      simp [show s.evwrite.cb = some .onWrite from hcb] at hother
    exact channelOnWrite_attended (s := s.setEvent .evwrite s.evwrite.processActive)
      hlistening halive iovMax _ env hnever
  | onReconnect w env => exact channelOnReconnect_attended env hnever
  | reconnected w env => exact reconnected_attended _ env hnever
  | onKeepalive w env _ hcb =>
    have htaken := setEvent_attended hs w (s.event w).processActive (by simp)
    generalize s.setEvent w (s.event w).processActive = u at htaken
    have hcleared : Attended { u with status := { u.status with keepaliving := false } } := htaken
    exact (channelOnKeepalive_ops u env).attended hcleared
  | ops _ _ _ h => exact h.attended hs
  | answers memory poller => exact hs

/-! ## Runs -/

theorem started_listening (reattach : Bool) (type : SessionType) (fd : Int) (env : Env) :
    Listening (started reattach type fd env) := by
  unfold started sessionStart
  dsimp only
  generalize env.start.run _ = u
  cases hfreed : u.freed with
  | true =>
    rw [whenAlive_freed hfreed]
    exact .of_freed hfreed
  | false =>
    rw [whenAlive_alive hfreed]
    have hkeep : Ops (u.sessionAddEvent .evRead)
        (u.sessionAddEvent .evRead).sessionStartKeepalive :=
      Ops.single .startKeepalive ((sessionAddEvent_freed u _).trans hfreed)
    exact hkeep.listening (addRead_listening u)

/-- In every run of a session in which its events are only added for proper descriptors that the
poller takes and its persist mode is steady, a permanent session that is not about to end is polled for
reading or reconnecting, if no reconnect was refused to it after it had given up its read
event. -/
theorem attended_unless_refused (iovMax : Nat) (reattach : Bool) (type : SessionType) (fd : Int)
    (env : Env) (is : List Input) (t : Session)
    (hrun : Lib.GuardedRun (step iovMax) SteadyMode (started reattach type fd env) is t)
    (hpos : t.Positive) (hnever : t.NeverRefused) (halive : t.freed = false)
    (hexit : t.status.exiting = false) (hpermanent : t.sessionIsReattch = true) :
    t.evread.inserted = true ∨
      (t.evwrite.linked = true ∧
        (t.evwrite.cb = some .onReconnect ∨ t.evwrite.cb = some .reconnected)) := by
  have hgrows : Grows (started reattach type fd env) t :=
    hrun.invariant (I := Grows (started reattach type fd env)) (.refl _)
      fun u i v hu _ hstep => hu.trans (step_grows hstep)
  have htype : type ≠ .shared := by
    have hstart : (started reattach type fd env).type = type :=
      (started_ops reattach type fd env).grows.type
    rintro rfl
    simp [sessionIsReattch, hgrows.type.trans hstart] at hpermanent
  -- the two conditions on the end of the run hold all along
  have hinv : (Sound t ∧ HasCallbacks t) ∧ (t.Positive → t.NeverRefused → Attended t) :=
    hrun.invariant
      (I := fun u => (Sound u ∧ HasCallbacks u) ∧ (u.Positive → u.NeverRefused → Attended u))
      ⟨⟨started_sound htype, started_hasCallbacks reattach type fd env⟩,
        fun _ _ => .inl (started_listening reattach type fd env)⟩
      fun u i v hu hmode hstep => by
        obtain ⟨⟨hsound, hcallbacks⟩, hattended⟩ := hu
        refine ⟨⟨step_sound hsound hcallbacks hmode hstep, step_hasCallbacks hstep hcallbacks⟩,
          fun hvpos hvnever => ?_⟩
        have hkept := step_grows hstep
        have hupos : u.Positive := fun w hw => hvpos w (hkept.watched.subset hw)
        have huattended := hattended hupos (hvnever.of_grows hkept)
        exact step_attended hsound hcallbacks hupos hmode hstep hvnever huattended
  have hreg := hinv.1.1.registered hpos
  rcases hinv.2 hpos hnever with ((hreading | hend | hfreed) | htemporary) | ⟨hwriting, hcb⟩
  · exact .inl (hreg.polled (hreg.reading ▸ hreading))
  · simp [hexit] at hend
  · simp [halive] at hfreed
  · simp [hpermanent] at htemporary
  · exact .inr ⟨hreg.writing ▸ hwriting, hcb⟩

/-- The connection breaks, the delay passes, and the attempt after it is under way. -/
def brokenConnection : List Input :=
  [.report .evread .evRead, .deliver .evread { read := .failed .other }, .expire .evwrite,
    .deliver .evwrite { newFd := 7 }]

theorem attended_unless_refused_brokenConnection :
    ∃ t, Lib.guardedExec (step 1024) SteadyMode (started false .connect 5 {}) brokenConnection =
        some t ∧ t.fd = 7 ∧
      (t.evread.inserted = true ∨ (t.evwrite.linked = true ∧
        (t.evwrite.cb = some .onReconnect ∨ t.evwrite.cb = some .reconnected))) := by
  have h := attended_unless_refused 1024 false .connect 5 {} brokenConnection _
    (Lib.GuardedRun.of_exec rfl) (by decide) (by decide) rfl rfl rfl
  exact ⟨_, rfl, rfl, h⟩

/-- Data is still queued when the end of the stream is read, and both events are activated
by the same dispatch. -/
def brokenWhileWriting : List Input :=
  [.call (.send { buf := [1, 2, 3], io := .wrote 1 }), .report .evread .evRead,
    .report .evwrite .evWrite, .deliver .evread { read := .data [] },
    .deliver .evwrite { writev := [.wrote 2] }]

/-- The reconnect is refused, the read event is gone, and then the rest of the data is
written: all active events are processed, and nothing of the session is registered. -/
theorem attended_unless_refused_writing_fails :
    ∃ t, Lib.guardedExec (step 1024) SteadyMode (started false .connect 5 {}) brokenWhileWriting =
        some t ∧
      t.Positive ∧ t.freed = false ∧ t.status.exiting = false ∧ t.sessionIsReattch = true ∧
      t.evread.linked = false ∧ t.evwrite.linked = false ∧ t.evkeepalive.linked = false := by
  exact ⟨_, rfl, by decide, rfl, rfl, rfl, rfl, rfl, rfl⟩

end Evlite.Session
