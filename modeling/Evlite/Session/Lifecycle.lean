import Evlite.Session.Send

/-!
# Stopping, Ending and Reconnecting a Session

`_stop`, `session_end`, `session_shutdown`, `session_start_reconnect` and the scheduled
tasks of `session.c`, with `channel_shutdown` and `channel_error` of `channel.c`.

`service.shutdown` and `service.error` are user code that may act on the session, so they
are functions of the session here. If such a function ends the session, whoever called it
goes on with an object that is gone, and the model stops (`whenAlive`).
-/

namespace Evlite.Session

/-! ## Scheduled tasks -/

/-- `task->recycle( task->type, task->task, task->interval )` -/
def recycleEffect (t : ScheduleTask) : Effect := .recycle t.recycle t.type t.task t.interval

/-- `session_cancel_task` -/
def sessionCancelTask (s : Session) (t : ScheduleTask) : Session :=
  { s with tasklist := s.tasklist.erase t }.emit (recycleEffect t)

/-- `session_schedule_task`. `addr` is what `calloc` returns for the `schedule_task`, if
anything, and `event` tells whether `event_create` succeeds. -/
def sessionScheduleTask (s : Session) (type : Int) (_t : TaskPtr) (interval : Int) (recycle : Nat)
    (addr : Option Nat) (event : Bool) : Session × Int :=
  if s.status.exiting then (s, -1)
  else match addr with
    | none => (s, -2)
    | some addr =>
      if !event then (s, -3)
      else
        let evschedule : EventView Handler :=
          ((({} : EventView Handler).eventSet (-1) {}).eventSetCallback .onSchedule).evsetsAdd true
            interval
        -- the source stores the address of the new object here, not `_t`
        let task : ScheduleTask :=
          { addr := addr, type := type, task := .scheduleTask addr, interval := interval,
            recycle := recycle, evschedule := evschedule }
        ({ s with tasklist := task :: s.tasklist }, 0)

/-! ## Stopping -/

/-- The event part of `_stop`: an event is deleted from the event set if its status bit
says that it is registered. -/
def stopEvents (s : Session) : Session :=
  { s with
    evread := if s.status.reading then s.evread.evsetsDel else s.evread
    evwrite := if s.status.writing then s.evwrite.evsetsDel else s.evwrite
    evkeepalive := if s.status.keepaliving then s.evkeepalive.evsetsDel else s.evkeepalive
    status := { s.status with reading := false, writing := false, keepaliving := false } }

/-- The descriptor part of `_stop`. -/
def closeFd (s : Session) : Session :=
  { (if 0 < s.fd ∧ s.type ≠ .shared then s.emit (.close s.fd) else s) with fd := -1 }

/-- `_stop` -/
def sessionStop (s : Session) : Session :=
  let s := { s.emits (s.tasklist.map recycleEffect) with tasklist := [] }
  let s := { s.stopEvents with inbuffer := [] }
  s.closeFd

/-- What closing the descriptor does to the world. -/
def closeEffects (s : Session) : List Effect :=
  if 0 < s.fd ∧ s.type ≠ .shared then [.close s.fd] else []

theorem closeFd_eq (s : Session) :
    s.closeFd = { s with fd := -1, trace := s.trace ++ s.closeEffects } := by
  unfold closeFd closeEffects
  by_cases h : 0 < s.fd ∧ s.type ≠ .shared
  · rw [if_pos h, if_pos h]; rfl
  · rw [if_neg h, if_neg h, List.append_nil]

/-- The effects of `_stop`. -/
def stopEffects (s : Session) : List Effect := s.tasklist.map recycleEffect ++ s.closeEffects

theorem sessionStop_eq (s : Session) :
    s.sessionStop =
      { s.stopEvents with
        tasklist := [], inbuffer := [], fd := -1, trace := s.trace ++ s.stopEffects } := by
  unfold sessionStop stopEffects
  rw [closeFd_eq, ← List.append_assoc]
  rfl

/-! ## Ending -/

/-- Count a message that never left the queue and release it if it was the last. -/
def lostEffects (m : Message) : List Effect := [.messageAddFailure m.id, .messageRelease m.id]

/-- `session_end( session, id, 0 )`. The events are freed with the session whether or not
they are still linked. -/
def sessionEnd (s : Session) : Session :=
  let s := { s.emits (s.sendqueue.flatMap lostEffects) with sendqueue := [] }
  let s := s.sessionStop
  { s with status := {}, msgoffset := 0, freed := true }

/-- The effects of `session_end`. -/
def endEffects (s : Session) : List Effect := s.sendqueue.flatMap lostEffects ++ s.stopEffects

theorem sessionEnd_eq (s : Session) :
    s.sessionEnd =
      { s.stopEvents with
        tasklist := [], inbuffer := [], fd := -1, status := {}, sendqueue := [], msgoffset := 0
        freed := true, trace := s.trace ++ s.endEffects } := by
  simp only [sessionEnd, endEffects, sessionStop_eq, ← List.append_assoc]
  rfl

/-- `channel_shutdown`; `onShutdown` is `service.shutdown`. -/
def channelShutdown (s : Session) (onShutdown : Session → Session) : Session :=
  -- `0` for an end that was asked for
  let way := if s.status.shutdowning then 0 else 1
  (onShutdown (s.emit (.shutdown way))).whenAlive sessionEnd

/-- `session_shutdown`: with data still queued, the session first tries to send it. -/
def sessionShutdown (s : Session) (onShutdown : Session → Session) : Session :=
  if !s.status.exiting && !s.sendqueue.isEmpty then
    let s := s.emit (.drain s.status s.evwrite.cb)
    let s := { s with status := { s.status with exiting := true } }
    -- from now on the session only writes
    (s.sessionDelEvent .evRead).sessionAddEvent .evWrite
  else s.channelShutdown onShutdown

/-! ## Reconnecting -/

/-- The descriptor of an associated session belongs to the caller and is not closed. -/
def dropForeignFd (s : Session) : Session :=
  { s with fd := if s.type = .associate then -1 else s.fd }

/-- `session_start_reconnect` -/
def sessionStartReconnect (s : Session) : Session × Int :=
  let s := s.emit (.startReconnect s.status)
  if s.status.exiting then (s, -1)
  else if s.status.writing then (s, -2)
  else
    let s := s.dropForeignFd.sessionStop
    -- the write event is the timer of the delay, and its bit keeps the session busy
    ({ s with
        evwrite := ((s.evwrite.eventSet (-1) {}).eventSetCallback .onReconnect).evsetsAdd true
          tryReconnectInterval
        status := { s.status with writing := true } }, 0)

/-- The event that waits out the delay before a reconnect. -/
def reconnectEvent (e : EventView Handler) : EventView Handler :=
  ((e.eventSet (-1) {}).eventSetCallback .onReconnect).evsetsAdd true tryReconnectInterval

theorem sessionStartReconnect_refused (s : Session)
    (h : s.status.exiting = true ∨ s.status.writing = true) :
    s.sessionStartReconnect.1 = s.emit (.startReconnect s.status) := by
  unfold sessionStartReconnect
  dsimp only
  split
  · rfl
  · rename_i hexit
    have hwriting : s.status.writing = true := h.resolve_left hexit
    rw [if_pos (show (s.emit (.startReconnect s.status)).status.writing = true from hwriting)]

theorem sessionStartReconnect_eq (s : Session) (hexit : s.status.exiting = false)
    (hwriting : s.status.writing = false) :
    s.sessionStartReconnect.1 =
      { s.stopEvents with
        tasklist := [], inbuffer := [], fd := -1
        evwrite := reconnectEvent s.evwrite
        status := { shutdowning := s.status.shutdowning, writing := true }
        trace := s.trace ++ .startReconnect s.status :: s.dropForeignFd.stopEffects } := by
  have henter : (s.emit (.startReconnect s.status)).status = s.status := rfl
  simp only [sessionStartReconnect, henter, hexit, hwriting, Bool.false_eq_true, if_false,
    sessionStop_eq, stopEvents, dropForeignFd, reconnectEvent]
  simp only [emit, stopEffects, closeEffects, List.append_assoc, List.cons_append, List.nil_append]
  rfl

/-- `session_sendqueue_take`: the queue, with the offset forgotten. A queue that `QUEUE_INIT` had
no memory for has no defined behaviour. -/
def sessionSendqueueTake (s : Session) : Session × List Message :=
  ({ s with msgoffset := 0, sendqueue := [] }, s.sendqueue)

/-- `session_sendqueue_merge`: nobody looks at the result of a push. -/
def sessionSendqueueMerge (s : Session) (q : List Message) : Session :=
  q.foldl (fun s m => (s.queuePush m).1) s

theorem sessionSendqueueMerge_frame (s : Session) (q : List Message) :
    ∃ q' memory, q'.Sublist q ∧ memory <:+ s.memory ∧ s.sessionSendqueueMerge q =
      { s with sendqueue := s.sendqueue ++ q', memory := memory } := by
  induction q generalizing s with
  | nil => exact ⟨[], s.memory, .slnil, List.suffix_rfl, by simp [sessionSendqueueMerge]⟩
  | cons m q ih =>
    obtain ⟨q', memory, hq, hmemory, hrun⟩ := ih (s.queuePush m).1
    have hsuffix : memory <:+ s.memory := hmemory.trans (List.tail_suffix _)
    cases hroom : s.allocate.2 with
    | true =>
      refine ⟨m :: q', memory, hq.cons_cons m, hsuffix, ?_⟩
      rw [sessionSendqueueMerge, List.foldl_cons]
      refine hrun.trans ?_
      rw [queuePush_of_memory m hroom]
      simp only [List.append_assoc, List.singleton_append]
      rfl
    | false =>
      -- nothing tells that the message is lost
      refine ⟨q', memory, hq.cons m, hsuffix, ?_⟩
      rw [sessionSendqueueMerge, List.foldl_cons]
      refine hrun.trans ?_
      rw [queuePush_of_none m hroom]
      rfl

theorem sessionSendqueueMerge_freed (s : Session) (q : List Message) :
    (s.sessionSendqueueMerge q).freed = s.freed := by
  obtain ⟨q', memory, -, -, h⟩ := sessionSendqueueMerge_frame s q
  rw [h]

/-- With memory, all messages are there again. -/
theorem sessionSendqueueMerge_sendqueue {s : Session} (h : s.HasMemory) (q : List Message) :
    (s.sessionSendqueueMerge q).sendqueue = s.sendqueue ++ q := by
  induction q generalizing s with
  | nil => exact (List.append_nil _).symm
  | cons m q ih =>
    have hnext : (s.queuePush m).1.HasMemory := h.of_suffix (List.tail_suffix _)
    rw [sessionSendqueueMerge, List.foldl_cons]
    refine (ih hnext).trans ?_
    rw [queuePush_of_memory m h.allocate]
    exact List.append_assoc _ _ _

/-- With memory, merging does nothing but append the queue. -/
theorem sessionSendqueueMerge_of_memory {s : Session} (h : s.HasMemory) (q : List Message) :
    ∃ memory, memory <:+ s.memory ∧ s.sessionSendqueueMerge q =
      { s with sendqueue := s.sendqueue ++ q, memory := memory } := by
  obtain ⟨q', memory, -, hsuffix, hrun⟩ := sessionSendqueueMerge_frame s q
  have hqueue : s.sendqueue ++ q' = s.sendqueue ++ q := by
    rw [← sessionSendqueueMerge_sendqueue h q, hrun]
  exact ⟨memory, hsuffix, by rw [hrun, hqueue]⟩

/-! ## Errors -/

/-- `channel_error`; `onError` is `service.error` with its result. -/
def channelError (s : Session) (result : IoError) (onError : Session → Session) (rc : Int)
    (onShutdown : Session → Session) : Session :=
  -- read before the callback, which may change the session
  let isattach := s.sessionIsReattch
  (onError (s.emit (.error result))).whenAlive fun s =>
    if !isattach || rc ≠ 0 || s.status.exiting then s.channelShutdown onShutdown
    else s.sessionStartReconnect.1

end Evlite.Session
