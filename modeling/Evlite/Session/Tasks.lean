import Evlite.Lib.TransitionSystem
import Evlite.Session.Lifetime

/-!
# Tasks and their Recyclers

Who owns the task that is passed to `iolayer_perform`? A call that returns 0 hands it over:
the layer runs it through `service.perform`, unless the session ends first, and calls the
recycler in the end. After any other result the caller still owns it.

The recycler of a call also serves as its ticket here: the effects and the scheduled tasks
that belong to the call carry it, and other calls pass other tickets.

## Main results

- `step_clear`: nothing happens on behalf of a call that left no task behind.
- `iolayerPerform_kept_iff`: when the contract is kept.
-/

namespace Evlite

/-! ## Tickets -/

mutual

/-- The call, and all calls made inside it, pass other tickets. -/
def Call.avoids (k : Nat) : Call → Bool
  | .perform req calls _ onShutdown =>
    req.recycle != k && (callsAvoid k calls && callsAvoid k onShutdown)
  | .setPersist _ | .setTimeout _ | .setKeepalive _ | .setSndqlimit _ | .setOther | .send _
  | .broadcast _ _ _ | .shutdown | .shutdowns => true

/-- All calls of the list pass other tickets. -/
def callsAvoid (k : Nat) : List Call → Bool
  | [] => true
  | c :: cs => c.avoids k && callsAvoid k cs

end

/-- No callback of `env` passes the ticket. -/
structure Env.Avoids (k : Nat) (env : Env) : Prop where
  start : callsAvoid k env.start.calls = true
  process : callsAvoid k env.process.calls = true
  keepalive : callsAvoid k env.keepalive.calls = true
  timeout : callsAvoid k env.timeout.calls = true
  error : callsAvoid k env.error.calls = true
  perform : callsAvoid k env.perform.calls = true
  shutdown : callsAvoid k env.shutdown = true

/-- No call made on behalf of the input passes the ticket. -/
def Input.Avoids (k : Nat) : Input → Prop
  | .report _ _ => True
  | .expire _ => True
  | .deliver _ env => env.Avoids k
  | .datagram _ env => env.Avoids k
  | .schedule _ env => env.Avoids k
  | .call c => c.avoids k = true
  | .shutdown env => env.Avoids k
  | .answers _ _ => True

namespace Session

/-- What was done on behalf of a call. -/
def story (k : Nat) (s : Session) : List Effect := s.trace.filter fun e => e.ticket == some k

/-- The tasks that a call left with the session. -/
def pendingTasks (k : Nat) (s : Session) : List ScheduleTask :=
  s.tasklist.filter fun t => t.recycle == k

/-- The session holds no task of the call, and `es` is what was done on its behalf. -/
structure Clear (k : Nat) (es : List Effect) (s : Session) : Prop where
  story : story k s = es
  pending : pendingTasks k s = []

/-! ## Other calls' business -/

section Clear

variable {k : Nat} {es : List Effect} {s : Session}

/-- A step that records effects of other calls and drops some tasks. -/
theorem Clear.record {t : Session} (h : Clear k es s) (fs : List Effect)
    (htrace : t.trace = s.trace ++ fs) (hfs : ∀ e ∈ fs, e.ticket ≠ some k)
    (htasks : ∀ x ∈ t.tasklist, x ∈ s.tasklist ∨ x.recycle ≠ k) : Clear k es t where
  story := by
    have hnone : fs.filter (fun e => e.ticket == some k) = [] := by
      simpa [List.filter_eq_nil_iff] using hfs
    rw [Session.story, htrace, List.filter_append, hnone, List.append_nil]
    exact h.story
  pending := by
    have hold : ∀ x ∈ s.tasklist, x.recycle ≠ k := by
      simpa [pendingTasks, List.filter_eq_nil_iff] using h.pending
    have hnew : ∀ x ∈ t.tasklist, x.recycle ≠ k := fun x hx => (htasks x hx).elim (hold x) id
    simpa [pendingTasks, List.filter_eq_nil_iff] using hnew

theorem Clear.of_eq {t : Session} (h : Clear k es s) (htrace : t.trace = s.trace)
    (htasks : t.tasklist = s.tasklist) : Clear k es t :=
  h.record [] (by simp [htrace]) (by simp) fun x hx => .inl (htasks ▸ hx)

theorem Clear.of_core {t : Session} (h : Clear k es s) (hcore : t.core = s.core) :
    Clear k es t :=
  h.of_eq (core_trace hcore) (core_tasklist hcore)

theorem Clear.emit (h : Clear k es s) (e : Effect) (he : e.ticket ≠ some k) :
    Clear k es (s.emit e) :=
  h.record [e] rfl (by simpa using he) fun _ hx => .inl hx

theorem Clear.recycle_ne (h : Clear k es s) {x : ScheduleTask} (hx : x ∈ s.tasklist) :
    x.recycle ≠ k := by
  have hold : ∀ x ∈ s.tasklist, x.recycle ≠ k := by
    simpa [pendingTasks, List.filter_eq_nil_iff] using h.pending
  exact hold x hx

/-- The effect of the call itself comes to the end of its story. -/
theorem Clear.emit_own (h : Clear k es s) (e : Effect) (he : e.ticket = some k) :
    Clear k (es ++ [e]) (s.emit e) where
  story := by
    have hown : [e].filter (fun e => e.ticket == some k) = [e] := by simp [he]
    rw [Session.story, Session.emit, List.filter_append, hown]
    exact congrArg (· ++ [e]) h.story
  pending := h.pending

theorem whenAlive_clear (h : Clear k es s) {f : Session → Session}
    (hf : Clear k es s → Clear k es (f s)) : Clear k es (s.whenAlive f) := by
  unfold whenAlive
  split
  · exact h
  · exact hf h

/-! ## Ending -/

theorem stopEffects_other (h : Clear k es s) : ∀ e ∈ s.stopEffects, e.ticket ≠ some k := by
  intro e he
  rw [stopEffects, List.mem_append] at he
  rcases he with he | he
  · obtain ⟨x, hx, rfl⟩ := List.mem_map.mp he
    have hother := h.recycle_ne hx
    simpa [recycleEffect, Effect.ticket] using hother
  · unfold closeEffects at he
    split at he
    · obtain rfl := List.mem_singleton.mp he
      simp [Effect.ticket]
    · cases he

theorem sessionEnd_clear (h : Clear k es s) : Clear k es s.sessionEnd := by
  rw [sessionEnd_eq]
  refine h.record s.endEffects rfl (fun e he => ?_) (by simp)
  rw [endEffects, List.mem_append] at he
  rcases he with he | he
  · obtain ⟨m, -, hm⟩ := List.mem_flatMap.mp he
    have hlost : e = .messageAddFailure m.id ∨ e = .messageRelease m.id := by
      simpa [lostEffects] using hm
    rcases hlost with rfl | rfl <;> simp [Effect.ticket]
  · exact stopEffects_other h e he

theorem channelShutdown_clear (h : Clear k es s) {onShutdown : Session → Session}
    (hcb : ∀ t, Clear k es t → Clear k es (onShutdown t)) :
    Clear k es (s.channelShutdown onShutdown) := by
  unfold channelShutdown
  refine whenAlive_clear (hcb _ (h.emit _ (by simp [Effect.ticket]))) sessionEnd_clear

theorem sessionShutdown_clear (h : Clear k es s) {onShutdown : Session → Session}
    (hcb : ∀ t, Clear k es t → Clear k es (onShutdown t)) :
    Clear k es (s.sessionShutdown onShutdown) := by
  unfold sessionShutdown
  split
  · have hdrain : Clear k es (s.emit (.drain s.status s.evwrite.cb)) :=
      h.emit _ (by simp [Effect.ticket])
    have hexit : Clear k es { s.emit (.drain s.status s.evwrite.cb) with
        status := { s.status with exiting := true } } := hdrain.of_eq rfl rfl
    exact (hexit.of_core (sessionDelEvent_core _ _)).of_core (sessionAddEvent_core _ _)
  · exact channelShutdown_clear h hcb

theorem sessionStartReconnect_clear (h : Clear k es s) : Clear k es s.sessionStartReconnect.1 := by
  by_cases hrefused : s.status.exiting = true ∨ s.status.writing = true
  · rw [sessionStartReconnect_refused s hrefused]
    exact h.emit _ (by simp [Effect.ticket])
  · have hfree : s.status.exiting = false ∧ s.status.writing = false := by simpa using hrefused
    rw [sessionStartReconnect_eq s hfree.1 hfree.2]
    have hforeign : Clear k es s.dropForeignFd := h.of_eq rfl rfl
    refine h.record _ rfl (fun e he => ?_) (by simp)
    rcases List.mem_cons.mp he with rfl | he
    · simp [Effect.ticket]
    · exact stopEffects_other hforeign e he

/-! ## Sending -/

theorem run_send_clear (h : Clear k es s) (buf : List UInt8) (msg : Nat) (io : IoResult) :
    Clear k es (accept (s.sendBuffer buf msg io) buf).1 := by
  have hdirect : ∀ n t, SentDirectly s buf n t → Clear k es t := fun n t hsent => by
    cases hsent with
    | nothing => exact h
    | bytes => exact h.emit _ (by simp [Effect.ticket])
  have hrun := Op.run_send s buf msg io
  show Clear k es ((Op.send buf msg io).run s)
  generalize (Op.send buf msg io).run s = u at hrun ⊢
  cases hrun with
  | refused => exact h
  | whole _ n t hsent => exact (hdirect n t hsent).emit _ (by simp [Effect.ticket])
  | noMessage n t hsent => exact (hdirect n t hsent).of_eq rfl rfl
  | queued _ n t hsent =>
    have hcreated : Clear k es t.allocate.1 := (hdirect n t hsent).of_eq rfl rfl
    have hqueued :
        Clear k es ((t.allocate.1.emit (.messageCreate msg)).queuePush (remainder buf msg n)).1 :=
      (hcreated.emit (.messageCreate msg) (by simp [Effect.ticket])).of_eq rfl rfl
    exact (hqueued.of_core (sessionAddEvent_core _ _)).emit _ (by simp [Effect.ticket])

theorem sendDirect_clear (h : Clear k es s) (req : SendRequest) : Clear k es (s.sendDirect req) := by
  unfold sendDirect sessionSend
  split
  · split
    · exact run_send_clear h _ req.msg req.io
    · exact h
  · exact h

theorem sessionSendmessage_clear (h : Clear k es s) (m : Message) (transform : Transform)
    (msg : Nat) (io : IoResult) : Clear k es (s.sessionSendmessage m transform msg io).1 := by
  have hfail : ∀ r : Session × Int, Clear k es r.1 →
      Clear k es (if r.2 < 0 then r.1.emit (.messageAddFailure m.id) else r.1) := by
    intro r hr
    split
    · exact hr.emit _ (by simp [Effect.ticket])
    · exact hr
  have hpush : Clear k es ((Op.push m).run s) := by
    have hqueued : Clear k es (s.queuePush m).1 := h.of_eq rfl rfl
    rcases Op.run_push s m with ⟨-, hrun⟩ | ⟨-, hrun⟩
    · rw [hrun]
      exact (hqueued.of_core (sessionAddEvent_core _ _)).emit _ (by simp [Effect.ticket])
    · rw [hrun]
      exact h.of_eq rfl rfl
  cases transform with
  | fresh bytes =>
    apply hfail
    have hsend := run_send_clear h bytes msg io
    dsimp only
    split
    · exact hsend.emit _ (by simp [Effect.ticket])
    · exact hsend
  | null => exact hfail (s, -1) h
  | absent => exact hfail (accept _ m.buffer) hpush
  | same => exact hfail (accept _ m.buffer) hpush

theorem broadcastDirect_clear (h : Clear k es s) (m : Message) (deliveries : List Delivery) :
    Clear k es (s.broadcastDirect m deliveries) := by
  unfold broadcastDirect
  induction deliveries generalizing s with
  | nil => exact h
  | cons d ds ih =>
    rw [List.foldl_cons]
    exact ih (sessionSendmessage_clear h m d.transform d.msg d.io)

/-! ## Calls -/

theorem sessionScheduleTask_clear (h : Clear k es s) (req : PerformRequest)
    (hother : req.recycle ≠ k) :
    Clear k es (s.sessionScheduleTask req.type req.task req.interval req.recycle req.addr
      req.event).1 := by
  unfold sessionScheduleTask
  split
  · exact h
  · cases req.addr with
    | none => exact h
    | some addr =>
      dsimp only
      split
      · exact h
      · refine h.record [] (by simp) (by simp) fun x hx => ?_
        rcases List.mem_cons.mp hx with rfl | hx
        · exact .inr hother
        · exact .inl hx

theorem recycleRequest_clear (h : Clear k es s) (req : PerformRequest) (hother : req.recycle ≠ k) :
    Clear k es (s.recycleRequest req) :=
  h.emit _ (by simpa [Effect.ticket] using hother)

/-- `_perform_direct` on behalf of another call. -/
theorem performDirect_clear (h : Clear k es s) (req : PerformRequest) (hother : req.recycle ≠ k)
    {calls onShutdown : Session → Session} (rc : Int)
    (hcalls : ∀ t, Clear k es t → Clear k es (calls t))
    (hcb : ∀ t, Clear k es t → Clear k es (onShutdown t)) :
    Clear k es (s.performDirect req calls rc onShutdown).1 := by
  unfold performDirect
  split
  · have hperform : Clear k es (s.emit (.perform req.recycle req.type req.task req.interval)) :=
      h.emit _ (by simpa [Effect.ticket] using hother)
    have hback := hcalls _ hperform
    dsimp only
    split
    · refine whenAlive_clear hback fun hback => ?_
      have hclosed : Clear k es (Session.sessionClose _) := hback.of_eq rfl rfl
      exact recycleRequest_clear (sessionShutdown_clear hclosed hcb) req hother
    · exact recycleRequest_clear hback req hother
  · have htask := sessionScheduleTask_clear h req hother
    dsimp only
    split
    · exact recycleRequest_clear htask req hother
    · exact htask

end Clear

mutual

/-- A call with another ticket does nothing on behalf of this one. -/
theorem runCall_clear {k : Nat} {es : List Effect} (c : Call) (hc : c.avoids k = true) (s : Session)
    (h : Clear k es s) : Clear k es (runCall c s) := by
  cases c with
  | setPersist onoff =>
    rw [runCall]
    exact whenAlive_clear h fun h => h.of_eq rfl rfl
  | setTimeout seconds =>
    rw [runCall]
    refine whenAlive_clear h fun h => ?_
    have hset : Clear k es { s with setting := { s.setting with
        timeoutMsecs := if seconds < 0 then -1 else msecs seconds } } := h.of_eq rfl rfl
    exact hset.of_core (sessionReaddEvent_core _ _)
  | setKeepalive seconds =>
    rw [runCall]
    refine whenAlive_clear h fun h => ?_
    have hset : Clear k es { s with setting := { s.setting with keepaliveMsecs := msecs seconds } } :=
      h.of_eq rfl rfl
    exact hset.of_core (sessionStartKeepalive_core _)
  | setSndqlimit queuelimit =>
    rw [runCall]
    exact whenAlive_clear h fun h => h.of_eq rfl rfl
  | setOther => rwa [runCall]
  | send req =>
    rw [runCall]
    exact whenAlive_clear h fun h => sendDirect_clear h req
  | broadcast id buffer deliveries =>
    rw [runCall]
    exact whenAlive_clear h fun h => broadcastDirect_clear h _ deliveries
  | perform req calls rc onShutdown =>
    rw [Call.avoids] at hc
    simp only [Bool.and_eq_true, bne_iff_ne] at hc
    -- another call has another recycler
    obtain ⟨hother, hcalls, hcb⟩ := hc
    rw [runCall]
    split
    · exact recycleRequest_clear h req hother
    · exact performDirect_clear h req hother rc (runCalls_clear calls hcalls)
        (runCalls_clear onShutdown hcb)
  | shutdown => rwa [runCall]
  | shutdowns => rwa [runCall]

theorem runCalls_clear {k : Nat} {es : List Effect} (cs : List Call)
    (hcs : callsAvoid k cs = true) (s : Session) (h : Clear k es s) :
    Clear k es (runCalls cs s) := by
  cases cs with
  | nil => rwa [runCalls]
  | cons c cs =>
    rw [callsAvoid, Bool.and_eq_true] at hcs
    rw [runCalls]
    exact runCalls_clear cs hcs.2 _ (runCall_clear c hcs.1 s h)

end

/-! ## Handlers -/

section Handlers

variable {k : Nat} {es : List Effect} {s : Session} {env : Env}

theorem closeAndShutdown_clear (h : Clear k es s) (henv : env.Avoids k) :
    Clear k es (s.sessionClose.sessionShutdown (runCalls env.shutdown)) := by
  have hclosed : Clear k es s.sessionClose := h.of_eq rfl rfl
  exact sessionShutdown_clear hclosed fun t => runCalls_clear _ henv.shutdown t

theorem process_clear (h : Clear k es s) (henv : env.Avoids k) :
    Clear k es (s.process env.process).1 := by
  unfold process
  split
  · exact h
  · have hoffer : Clear k es (s.emit (.process s.inbuffer)) := h.emit _ (by simp [Effect.ticket])
    refine whenAlive_clear (runCalls_clear _ henv.process _ hoffer) fun h => ?_
    split
    · exact h.of_eq rfl rfl
    · exact h

theorem channelErrorIn_clear (h : Clear k es s) (henv : env.Avoids k) (result : IoError) :
    Clear k es (s.channelErrorIn env result) := by
  unfold channelErrorIn channelError
  have hreport : Clear k es (s.emit (.error result)) := h.emit _ (by simp [Effect.ticket])
  refine whenAlive_clear (runCalls_clear _ henv.error _ hreport) fun h => ?_
  split
  · exact channelShutdown_clear h fun t => runCalls_clear _ henv.shutdown t
  · exact sessionStartReconnect_clear h

theorem timeout_clear (h : Clear k es s) (henv : env.Avoids k) : Clear k es (s.timeout env) := by
  unfold timeout
  refine whenAlive_clear (runCalls_clear _ henv.timeout _ h) fun h => ?_
  split
  · exact sessionShutdown_clear h fun t => runCalls_clear _ henv.shutdown t
  · split
    · exact sessionStartReconnect_clear h
    · exact (h.of_core (sessionAddEvent_core _ _)).of_core (sessionStartKeepalive_core _)

theorem delPersistentRead_clear (h : Clear k es s) : Clear k es s.delPersistentRead := by
  unfold delPersistentRead
  split
  · exact h.of_core (sessionDelEvent_core _ _)
  · exact h

theorem afterProcess_clear (h : Clear k es s) (henv : env.Avoids k) (nprocess : Int) :
    Clear k es (s.afterProcess env nprocess) := by
  have hdel : Clear k es s.delPersistentRead := delPersistentRead_clear h
  unfold afterProcess
  split
  · exact sessionShutdown_clear hdel fun t => runCalls_clear _ henv.shutdown t
  · split
    · split
      · exact h
      · exact h.of_core (sessionAddEvent_core _ _)
    · exact channelErrorIn_clear hdel henv _

theorem channelOnRead_clear (h : Clear k es s) (henv : env.Avoids k) (ev : EvMask) :
    Clear k es (s.channelOnRead ev env) := by
  have hclear : Clear k es s.clearReading := by
    unfold clearReading
    split
    · exact h
    · exact h.of_eq rfl rfl
  unfold channelOnRead
  generalize s.clearReading = u at hclear
  dsimp only
  split
  · have hreceive : Clear k es (u.receive env.read) := by
      cases env.read with
      | data bytes => exact hclear.of_eq rfl rfl
      | _ => exact hclear
    have hprocess : Clear k es
        (if env.running then (u.receive env.read).process env.process
          else (u.receive env.read, 0)).1 := by
      split
      · exact process_clear hreceive henv
      · exact hreceive
    exact whenAlive_clear hprocess fun h => afterProcess_clear h henv _
  · exact timeout_clear (delPersistentRead_clear hclear) henv

theorem channelUdpprocess_clear (h : Clear k es s) (henv : env.Avoids k) (bytes : List UInt8) :
    Clear k es (s.channelUdpprocess bytes env) := by
  unfold channelUdpprocess
  have hreadd : Clear k es (s.sessionReaddEvent .evRead) := h.of_core (sessionReaddEvent_core _ _)
  generalize s.sessionReaddEvent .evRead = u at hreadd
  have hbuffer : Clear k es { u with inbuffer := u.inbuffer ++ bytes } := hreadd.of_eq rfl rfl
  refine whenAlive_clear (process_clear hbuffer henv) fun h => ?_
  split
  · exact sessionShutdown_clear h fun t => runCalls_clear _ henv.shutdown t
  · exact h

theorem settingTransmit_clear (h : Clear k es s) (iovMax : Nat) (ios : List IoResult) :
    Clear k es (s.settingTransmit iovMax ios).1 := by
  obtain ⟨_, _, fs, hfs, heq⟩ := settingTransmit_frame s iovMax ios
  rw [heq]
  exact h.record fs rfl (fun e he => by simp [e.ticket_of_transmission (hfs e he)])
    fun _ hx => .inl hx

theorem channelOnWrite_clear (h : Clear k es s) (henv : env.Avoids k) (iovMax : Nat) (ev : EvMask) :
    Clear k es (s.channelOnWrite iovMax ev env) := by
  have hcleared : Clear k es s.clearWriting := h.of_eq rfl rfl
  unfold channelOnWrite
  generalize s.clearWriting = u at hcleared
  dsimp only
  split
  · split
    · have hsent := settingTransmit_clear hcleared iovMax env.writev
      split
      · exact channelErrorIn_clear hsent henv _
      · unfold afterTransmit
        split
        · split
          · exact hsent.of_core (sessionAddEvent_core _ _)
          · exact channelErrorIn_clear hsent henv _
        · split
          · exact channelShutdown_clear hsent fun t => runCalls_clear _ henv.shutdown t
          · exact hsent
    · exact hcleared
  · exact channelShutdown_clear hcleared fun t => runCalls_clear _ henv.shutdown t

theorem channelOnKeepalive_clear (h : Clear k es s) (henv : env.Avoids k) :
    Clear k es (s.channelOnKeepalive env) := by
  have hcleared : Clear k es { s with status := { s.status with keepaliving := false } } :=
    h.of_eq rfl rfl
  unfold channelOnKeepalive
  refine whenAlive_clear (runCalls_clear _ henv.keepalive _ hcleared) fun h => ?_
  split
  · exact h.of_core (sessionStartKeepalive_core _)
  · exact h

/-- The timer of another call's task expires. -/
theorem channelOnSchedule_clear (h : Clear k es s) (henv : env.Avoids k) (t : ScheduleTask)
    (hother : t.recycle ≠ k) : Clear k es (s.channelOnSchedule t env) := by
  have hperform : Clear k es (s.emit (.perform t.recycle t.type t.task t.interval)) :=
    h.emit _ (by simpa [Effect.ticket] using hother)
  unfold channelOnSchedule
  refine whenAlive_clear (runCalls_clear _ henv.perform _ hperform) fun h => ?_
  have hcancel : Clear k es (Session.sessionCancelTask _ t) :=
    h.record [recycleEffect t] rfl (by simpa [recycleEffect, Effect.ticket] using hother)
      fun _ hx => .inl (List.mem_of_mem_erase hx)
  dsimp only
  split
  · exact closeAndShutdown_clear hcancel henv
  · exact hcancel

theorem channelOnReconnect_clear (h : Clear k es s) (henv : env.Avoids k) :
    Clear k es (s.channelOnReconnect env) := by
  have hfd : Clear k es (s.clearWriting.reconnectFd env) := by
    unfold reconnectFd
    split
    · exact h.of_eq rfl rfl
    · exact h.record [.reattach _] rfl (by simp [Effect.ticket]) fun _ hx => .inl hx
    · exact h.of_eq rfl rfl
  unfold channelOnReconnect
  generalize s.clearWriting.reconnectFd env = u at hfd
  dsimp only
  split
  · exact channelErrorIn_clear hfd henv _
  · exact hfd.record [.connect _] rfl (by simp [Effect.ticket]) fun _ hx => .inl hx

theorem resume_clear (h : Clear k es s) (q : List Message) : Clear k es (s.resume q) := by
  have hmerge : Clear k es (s.sessionSendqueueMerge q) := by
    obtain ⟨q', memory, -, -, hmerged⟩ := sessionSendqueueMerge_frame s q
    rw [hmerged]
    exact h.of_eq rfl rfl
  have hread := hmerge.of_core (sessionAddEvent_core _ .evRead)
  exact (hread.of_core (sessionAddEvent_core _ .evWrite)).of_core (sessionStartKeepalive_core _)

theorem reconnected_clear (h : Clear k es s) (henv : env.Avoids k) (ev : EvMask) :
    Clear k es (s.reconnected ev env) := by
  have hcleared : Clear k es s.clearWriting := h.of_eq rfl rfl
  unfold reconnected
  generalize s.clearWriting = u at hcleared
  dsimp only
  split
  · split
    · exact channelErrorIn_clear hcleared henv _
    · have htake : Clear k es ({ u with established := true } : Session).sessionSendqueueTake.1 :=
        hcleared.of_eq rfl rfl
      refine whenAlive_clear (runCalls_clear _ henv.start _ htake) fun h => ?_
      exact resume_clear h u.sendqueue
  · exact timeout_clear hcleared henv

end Handlers

/-! ## Steps -/

/-- In a session that holds no task of a call, nothing is done on behalf of the call, as
long as the call is not made again. -/
theorem step_clear {k : Nat} {es : List Effect} {iovMax : Nat} {s t : Session} {i : Input}
    (h : Clear k es s) (hi : i.Avoids k) (hstep : step iovMax s i = some t) : Clear k es t := by
  have halive := step_alive hstep
  -- events do not touch the tasks
  have hset : ∀ w e, Clear k es (s.setEvent w e) := by
    intro w e
    cases w <;> exact h.of_eq rfl rfl
  cases i with
  | datagram bytes env =>
    simp only [step] at hstep
    split at hstep
    · cases hstep
      exact channelUdpprocess_clear h hi bytes
    · cases hstep
  | schedule x env =>
    simp only [step] at hstep
    split at hstep
    · rename_i hen
      have hx : x ∈ s.tasklist := by
        simp only [Bool.and_eq_true] at hen
        simpa using hen.2
      cases hstep
      exact channelOnSchedule_clear h hi x (h.recycle_ne hx)
    · cases hstep
  | call c =>
    simp only [step, halive, Bool.false_eq_true, if_false, Option.some.injEq] at hstep
    exact hstep ▸ runCall_clear c hi s h
  | shutdown env =>
    simp only [step, halive, Bool.false_eq_true, if_false, Option.some.injEq] at hstep
    exact hstep ▸ closeAndShutdown_clear h hi
  | answers memory poller =>
    simp only [step, halive, Bool.false_eq_true, if_false, Option.some.injEq] at hstep
    exact hstep ▸ h.of_eq rfl rfl
  | report w res =>
    simp only [step] at hstep
    split at hstep
    · cases hstep
      exact hset w _
    · cases hstep
  | expire w =>
    simp only [step] at hstep
    split at hstep
    · cases hstep
      exact hset w _
    · cases hstep
  | deliver w env =>
    cases step_cases hstep with
    | uninstalled => exact hset w _
    | onSchedule => exact hset w _
    | onRead => exact channelOnRead_clear (hset w _) hi _
    | onWrite => exact channelOnWrite_clear (hset w _) hi iovMax _
    | onKeepalive => exact channelOnKeepalive_clear (hset w _) hi
    | onReconnect => exact channelOnReconnect_clear (hset w _) hi
    | reconnected => exact reconnected_clear (hset w _) hi _
    | ops _ _ hnot => exact absurd rfl (hnot w env)

theorem run_clear {k : Nat} {es : List Effect} {iovMax : Nat} {s t : Session} {is : List Input}
    (h : Clear k es s)
    (hrun : Lib.GuardedRun (step iovMax) (fun _ i => i.Avoids k) s is t) : Clear k es t :=
  hrun.invariant (I := Clear k es) h fun _ _ _ hu hi hstep => step_clear hu hi hstep

/-! ## The contract -/

/-- `service.perform` receives the task of the call. -/
def performed (req : PerformRequest) : Effect :=
  .perform req.recycle req.type req.task req.interval

/-- The recycler of the call is called with the task of the call. -/
def recycled (req : PerformRequest) : Effect :=
  .recycle req.recycle req.type req.task req.interval

/-- The task was recycled, once and for all, possibly after it had been performed. -/
def Delivered (req : PerformRequest) (s : Session) : Prop :=
  pendingTasks req.recycle s = [] ∧
    (story req.recycle s = [recycled req] ∨
      story req.recycle s = [performed req, recycled req])

/-- The task waits for its time. -/
def Held (req : PerformRequest) (s : Session) : Prop :=
  pendingTasks req.recycle s ≠ [] ∧ story req.recycle s = []

/-- The contract of `iolayer_perform`, for a call that returned `result` and after which
the session is `t`, in all that can happen until its ticket is used again. -/
def Kept (req : PerformRequest) (result : Int) (t : Session) : Prop :=
  ∀ (iovMax : Nat) (is : List Input) (u : Session),
    Lib.GuardedRun (step iovMax) (fun _ i => i.Avoids req.recycle) t is u →
      if result = 0 then Delivered req u ∨ Held req u
      else ∀ type task interval, Effect.recycle req.recycle type task interval ∉ u.trace

/-- `_perform_direct` performs the task at once, and if the task fails it still has its
session. -/
def RunsAtOnce (req : PerformRequest) (calls : List Call) (rc : Int) (s : Session) : Prop :=
  s.freed = false ∧ req.interval ≤ 0 ∧ (0 ≤ rc ∨ callsSpare calls (s.emit (performed req)) = true)

instance (req : PerformRequest) (calls : List Call) (rc : Int) (s : Session) :
    Decidable (RunsAtOnce req calls rc s) :=
  inferInstanceAs (Decidable (s.freed = false ∧ req.interval ≤ 0 ∧
    (0 ≤ rc ∨ callsSpare calls (s.emit (performed req)) = true)))

/-- `_perform_direct` turns the task down. -/
def TurnsDown (req : PerformRequest) (s : Session) : Prop :=
  s.freed = true ∨
    (0 < req.interval ∧ (s.status.exiting = true ∨ req.addr = none ∨ req.event = false))

theorem RunsAtOnce.not_turnsDown {req : PerformRequest} {calls : List Call} {rc : Int}
    {s : Session} (h : RunsAtOnce req calls rc s) : ¬ TurnsDown req s := by
  obtain ⟨halive, hinterval, -⟩ := h
  rintro (hfreed | ⟨hpos, -⟩)
  · simp [halive] at hfreed
  · omega

/-! ## What becomes of the task -/

theorem Kept.of_delivered {req : PerformRequest} {t : Session}
    (h : Clear req.recycle [recycled req] t ∨ Clear req.recycle [performed req, recycled req] t) :
    Kept req 0 t := by
  intro iovMax is u hrun
  rw [if_pos rfl]
  left
  rcases h with h | h
  · have hu := run_clear h hrun
    exact ⟨hu.pending, .inl hu.story⟩
  · have hu := run_clear h hrun
    exact ⟨hu.pending, .inr hu.story⟩

theorem Kept.of_declined {req : PerformRequest} {t : Session} {result : Int}
    (h : Clear req.recycle [] t) (hresult : result ≠ 0) : Kept req result t := by
  intro iovMax is u hrun
  rw [if_neg hresult]
  intro type task interval hmem
  have hu := (run_clear h hrun).story
  rw [story, List.filter_eq_nil_iff] at hu
  exact hu _ hmem (by simp [Effect.ticket])

/-- A task that was recycled although the call failed. -/
theorem not_kept_of_recycled {req : PerformRequest} {t : Session} {result : Int}
    (h : Clear req.recycle [recycled req] t) (hresult : result ≠ 0) : ¬ Kept req result t := by
  intro hkept
  have hnow := hkept 0 [] t (.nil t)
  rw [if_neg hresult] at hnow
  have hmem : recycled req ∈ story req.recycle t := by simp [h.story]
  exact hnow _ _ _ (List.mem_filter.mp hmem).1

/-- A task that was performed and is never recycled. -/
theorem not_kept_of_lost {req : PerformRequest} {t : Session}
    (h : Clear req.recycle [performed req] t) : ¬ Kept req 0 t := by
  intro hkept
  have hnow := hkept 0 [] t (.nil t)
  rw [if_pos rfl] at hnow
  rcases hnow with ⟨-, hstory | hstory⟩ | ⟨-, hstory⟩ <;>
    simp [h.story, performed, recycled] at hstory

/-- The task `session_schedule_task` makes for a request: it stores its own address in
place of the caller's task. -/
def scheduledTask (req : PerformRequest) (addr : Nat) : ScheduleTask :=
  { addr := addr, type := req.type, task := .scheduleTask addr, interval := req.interval,
    recycle := req.recycle
    evschedule := ((({} : EventView Handler).eventSet (-1) {}).eventSetCallback
      .onSchedule).evsetsAdd true req.interval }

/-- When the time of a scheduled task comes, `service.perform` and the recycler receive
another pointer than the caller's. -/
theorem not_kept_of_scheduled {req : PerformRequest} {s : Session} (addr : Nat) {a : Nat}
    (h : Clear req.recycle [] s) (halive : s.freed = false) (htask : req.task = .user a) :
    ¬ Kept req 0 { s with tasklist := scheduledTask req addr :: s.tasklist } := by
  intro hkept
  let t : Session := { s with tasklist := scheduledTask req addr :: s.tasklist }
  -- its timer is the next thing that happens
  have hstep : step 0 t (.schedule (scheduledTask req addr) {}) =
      some (t.channelOnSchedule (scheduledTask req addr) {}) := by
    simp [step, t, halive]
  have havoids : (Input.schedule (scheduledTask req addr) {}).Avoids req.recycle :=
    ⟨rfl, rfl, rfl, rfl, rfl, rfl, rfl⟩
  have hafter := hkept 0 _ _ (.snoc (.nil t) havoids hstep)
  have hbegun : ({ t with
      trace := t.trace ++ [.perform req.recycle req.type (.scheduleTask addr) req.interval] } :
      Session).freed = false := halive
  have hrun : (t.channelOnSchedule (scheduledTask req addr) {}).trace = s.trace ++
      [.perform req.recycle req.type (.scheduleTask addr) req.interval,
        .recycle req.recycle req.type (.scheduleTask addr) req.interval] := by
    simp only [channelOnSchedule, Callback.run, runCalls, emit, scheduledTask]
    rw [whenAlive_alive hbegun]
    simp [sessionCancelTask, recycleEffect, emit, t]
  have hstory : story req.recycle (t.channelOnSchedule (scheduledTask req addr) {}) =
      [.perform req.recycle req.type (.scheduleTask addr) req.interval,
        .recycle req.recycle req.type (.scheduleTask addr) req.interval] := by
    have hbefore : s.trace.filter (fun e => e.ticket == some req.recycle) = [] := h.story
    rw [story, hrun, List.filter_append, hbefore]
    simp [Effect.ticket]
  rw [if_pos rfl] at hafter
  rcases hafter with ⟨-, hdone | hdone⟩ | ⟨-, hheld⟩
  · simp [hstory] at hdone
  · simp [hstory, performed, htask] at hdone
  · simp [hstory] at hheld

/-- The task is performed at once, and recycled unless the session is gone. -/
theorem performTask_atOnce {req : PerformRequest} {calls onShutdown : List Call} (rc : Int)
    {s : Session} (h : Clear req.recycle [] s) (hcalls : callsAvoid req.recycle calls = true)
    (hcb : callsAvoid req.recycle onShutdown = true) (halive : s.freed = false)
    (hinterval : req.interval ≤ 0) :
    (s.performTask req calls onShutdown rc).2 = 0 ∧
      if RunsAtOnce req calls rc s then
        Clear req.recycle [performed req, recycled req] (s.performTask req calls onShutdown rc).1
      else Clear req.recycle [performed req] (s.performTask req calls onShutdown rc).1 := by
  have hbegun : Clear req.recycle [performed req] (s.emit (performed req)) :=
    h.emit_own (performed req) rfl
  -- the callback sees the task, and what it calls leaves it alone
  have hback := runCalls_clear calls hcalls _ hbegun
  have hspared := runCalls_alive_iff calls (s.emit (performed req)) halive
  have hrun : s.performTask req calls onShutdown rc =
      (if rc < 0 then (runCalls calls (s.emit (performed req))).whenAlive fun s =>
          (s.sessionClose.sessionShutdown (runCalls onShutdown)).recycleRequest req
        else (runCalls calls (s.emit (performed req))).recycleRequest req, 0) := by
    simp only [performTask, halive, Bool.false_eq_true, if_false, performDirect, hinterval, if_true,
      performed]
  rw [hrun]
  refine ⟨rfl, ?_⟩
  generalize runCalls calls (s.emit (performed req)) = u at hback hspared
  have hown : ∀ v, Clear req.recycle [performed req] v →
      Clear req.recycle [performed req, recycled req] (v.recycleRequest req) := fun v hv =>
    hv.emit_own (recycled req) rfl
  by_cases hrc : rc < 0
  · have hfailed : ¬ 0 ≤ rc := by omega
    simp only [hrc, if_true, RunsAtOnce, halive, hinterval, hfailed, false_or, true_and, ← hspared]
    cases hfreed : u.freed with
    | true =>
      rw [whenAlive_freed hfreed, if_neg (by simp)]
      exact hback
    | false =>
      rw [whenAlive_alive hfreed, if_pos rfl]
      have hclosed : Clear req.recycle [performed req] u.sessionClose := hback.of_eq rfl rfl
      exact hown _ (sessionShutdown_clear hclosed (runCalls_clear onShutdown hcb))
  · have hok : 0 ≤ rc := by omega
    have hruns : RunsAtOnce req calls rc s := ⟨halive, hinterval, .inl hok⟩
    rw [if_pos hruns, if_neg hrc]
    exact hown _ hback

/-- The three fates of a task that `_perform_direct` gets. -/
theorem performTask_cases {req : PerformRequest} {calls onShutdown : List Call} (rc : Int)
    {s : Session} {a : Nat} (h : Clear req.recycle [] s) (htask : req.task = .user a)
    (hcalls : callsAvoid req.recycle calls = true)
    (hcb : callsAvoid req.recycle onShutdown = true) :
    let r := s.performTask req calls onShutdown rc
    (RunsAtOnce req calls rc s ∧ r.2 = 0 ∧
        Clear req.recycle [performed req, recycled req] r.1) ∨
      (TurnsDown req s ∧ r.2 ≠ 0 ∧ Clear req.recycle [recycled req] r.1) ∨
      (¬ RunsAtOnce req calls rc s ∧ ¬ TurnsDown req s ∧ r.2 = 0 ∧ ¬ Kept req 0 r.1) := by
  intro r
  have hown : Clear req.recycle [recycled req] (s.recycleRequest req) := h.emit_own (recycled req) rfl
  cases hfreed : s.freed with
  | true =>
    have hr : r = (s.recycleRequest req, -1) := by simp [r, performTask, hfreed, performInvalid]
    rw [hr]
    exact .inr (.inl ⟨.inl hfreed, by simp, hown⟩)
  | false =>
    by_cases hinterval : req.interval ≤ 0
    · obtain ⟨hresult, hclear⟩ := performTask_atOnce rc h hcalls hcb hfreed hinterval
      split at hclear
      · rename_i hruns
        exact .inl ⟨hruns, hresult, hclear⟩
      · rename_i hruns
        refine .inr (.inr ⟨hruns, ?_, hresult, not_kept_of_lost hclear⟩)
        rintro (hgone | ⟨hpos, -⟩)
        · simp [hfreed] at hgone
        · omega
    · have hpos : 0 < req.interval := by omega
      have hnot : ¬ RunsAtOnce req calls rc s := fun hruns => absurd hruns.2.1 hinterval
      have hr : r = (if (s.sessionScheduleTask req.type req.task req.interval req.recycle req.addr
            req.event).2 ≠ 0 then
          (s.sessionScheduleTask req.type req.task req.interval req.recycle req.addr
            req.event).1.recycleRequest req
          else (s.sessionScheduleTask req.type req.task req.interval req.recycle req.addr
            req.event).1,
          (s.sessionScheduleTask req.type req.task req.interval req.recycle req.addr req.event).2) := by
        simp only [r, performTask, hfreed, Bool.false_eq_true, if_false, performDirect, hinterval]
      rw [hr]
      -- the exits of `session_schedule_task`, in its order
      cases hexit : s.status.exiting with
      | true =>
        refine .inr (.inl ⟨.inr ⟨hpos, .inl hexit⟩, ?_, ?_⟩) <;>
          simp only [sessionScheduleTask, hexit, if_true]
        · decide
        · exact hown
      | false =>
        cases haddr : req.addr with
        | none =>
          refine .inr (.inl ⟨.inr ⟨hpos, .inr (.inl haddr)⟩, ?_, ?_⟩) <;>
            simp only [sessionScheduleTask, hexit, Bool.false_eq_true, if_false]
          · decide
          · exact hown
        | some addr =>
          cases hevent : req.event with
          | false =>
            refine .inr (.inl ⟨.inr ⟨hpos, .inr (.inr hevent)⟩, ?_, ?_⟩) <;>
              simp only [sessionScheduleTask, hexit, Bool.false_eq_true, if_false, Bool.not_false,
                if_true]
            · decide
            · exact hown
          | true =>
            refine .inr (.inr ⟨hnot, ?_, ?_, ?_⟩)
            · rintro (hgone | ⟨-, hdown | hdown | hdown⟩)
              · simp [hfreed] at hgone
              · simp [hexit] at hdown
              · simp [haddr] at hdown
              · simp [hevent] at hdown
            · simp [sessionScheduleTask, hexit]
            · have hscheduled := not_kept_of_scheduled addr h hfreed htask
              simpa [sessionScheduleTask, hexit, scheduledTask] using hscheduled

/-- For a task of the caller, and a ticket that is not in use, the contract of
`iolayer_perform` is kept if and only if the index is bad; or the task cannot be posted; or
`_perform_direct` performs it at once, and still has its session if the task fails; or it
was posted and is turned down when its turn comes. -/
theorem iolayerPerform_kept_iff (s : Session) (nthreads index : Nat) (own : Bool) (post : Int)
    (req : PerformRequest) (calls onShutdown : List Call) (rc : Int) (a : Nat)
    (hfresh : Clear req.recycle [] s) (htask : req.task = .user a)
    (hcalls : callsAvoid req.recycle calls = true)
    (hcb : callsAvoid req.recycle onShutdown = true) :
    Kept req (s.iolayerPerform nthreads index own post req calls onShutdown rc).2
        (s.iolayerPerform nthreads index own post req calls onShutdown rc).1 ↔
      nthreads ≤ index ∨ (own = false ∧ post ≠ 0) ∨ RunsAtOnce req calls rc s ∨
        (own = false ∧ TurnsDown req s) := by
  have hcases := performTask_cases rc hfresh htask hcalls hcb
  unfold iolayerPerform
  by_cases hindex : nthreads ≤ index
  · simp only [hindex, if_true, true_or, iff_true]
    exact .of_declined hfresh (by decide)
  · simp only [hindex, if_false, false_or]
    -- what becomes of the task on the thread is decided already
    generalize s.performTask req calls onShutdown rc = r at hcases
    cases own with
    | true =>
      simp only [if_true, Bool.true_eq_false, false_and, false_or, or_false]
      rcases hcases with ⟨hruns, hresult, hclear⟩ | ⟨hdown, hresult, hclear⟩ |
        ⟨hnot, -, hresult, hkept⟩
      · rw [hresult]
        exact iff_of_true (.of_delivered (.inr hclear)) hruns
      · exact iff_of_false (not_kept_of_recycled hclear hresult) fun hruns =>
          hruns.not_turnsDown hdown
      · rw [hresult]
        exact iff_of_false hkept hnot
    | false =>
      simp only [Bool.false_eq_true, if_false, true_and]
      by_cases hpost : post ≠ 0
      · rw [if_pos hpost]
        exact iff_of_true (.of_declined hfresh hpost) (.inl hpost)
      · rw [if_neg hpost]
        rcases hcases with ⟨hruns, -, hclear⟩ | ⟨hdown, -, hclear⟩ | ⟨hnot, hkeep, -, hkept⟩
        · exact iff_of_true (.of_delivered (.inr hclear)) (.inr (.inl hruns))
        · exact iff_of_true (.of_delivered (.inl hclear)) (.inr (.inr hdown))
        · refine iff_of_false hkept ?_
          rintro (h | h | h)
          · exact hpost h
          · exact hnot h
          · exact hkeep h

/-- A task for a session that is about to end, posted by another thread. -/
def lateTask : PerformRequest :=
  { type := 1, task := .user 7, interval := 100, recycle := 3, addr := some 64 }

theorem iolayerPerform_kept_iff_lateTask :
    Kept lateTask 0
      (({ status := { exiting := true } } : Session).iolayerPerform 4 2 false 0 lateTask [] [] 0).1 :=
  (iolayerPerform_kept_iff { status := { exiting := true } } 4 2 false 0 lateTask [] [] 0 7
    ⟨rfl, rfl⟩ rfl rfl rfl).mpr (.inr (.inr (.inr ⟨rfl, .inr ⟨by decide, .inl rfl⟩⟩)))

/-- The owning thread schedules a task on a running session and gets 0; when its time comes,
`service.perform` and the recycler receive the address of the `schedule_task`. -/
theorem iolayerPerform_kept_scheduled_fails :
    ∃ t u : Session, (started false .accept 5 {}).iolayerPerform 4 2 true 0 lateTask [] [] 0 = (t, 0) ∧
      step 1024 t (.schedule (scheduledTask lateTask 64) {}) = some u ∧
      story 3 u = [.perform 3 1 (.scheduleTask 64) 100, .recycle 3 1 (.scheduleTask 64) 100] ∧
      ¬ Kept lateTask 0 t :=
  ⟨_, _, rfl, rfl, rfl, not_kept_of_scheduled 64 (a := 7) ⟨rfl, rfl⟩ rfl rfl⟩

end Session

end Evlite
