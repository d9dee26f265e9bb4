import Evlite.Session.State

/-!
# Registering a Session's Events

`session_add_event`, `session_del_event`, `session_readd_event` and
`session_start_keepalive` (`session.c`). The three status bits `SESSION_READING`,
`SESSION_WRITING` and `SESSION_KEEPALIVING` are kept next to the registrations they stand
for; nothing in these functions looks at the event itself to decide whether it is
registered.
-/

namespace Evlite.Session

/-! ## session_add_event -/

/-- The read half of `session_add_event`. -/
def addReadEvent (s : Session) (ev : EvMask) : Session :=
  if !s.status.exiting && ev.read && !s.status.reading then
    -- a shared descriptor is read by its driver, and the session keeps only the timer
    let fd := if s.type ≠ .shared then s.fd else -1
    let event := if s.type ≠ .shared then { ev with persist := ev.persist || s.setting.persistMode }
      else {}
    let takes := s.poller.headD true
    { s with
      evread := ((s.evread.eventSet fd event).eventSetCallback .onRead).evsetsAdd takes
        s.setting.timeoutMsecs
      status := { s.status with reading := true }
      watched := s.watched ++ [(fd, takes)]
      poller := s.poller.tail }
  else s

/-- The write half of `session_add_event`. A session that waits for its end gets a timer
along with the write event. -/
def addWriteEvent (s : Session) (ev : EvMask) : Session :=
  if ev.write && !s.status.writing then
    -- the peer may never take the rest
    let waitForShutdown := if s.status.exiting then maxSecondsWaitForShutdown else -1
    let takes := s.poller.headD true
    { s with
      evwrite := ((s.evwrite.eventSet s.fd ev).eventSetCallback .onWrite).evsetsAdd takes
        waitForShutdown
      status := { s.status with writing := true }
      watched := s.watched ++ [(s.fd, takes)]
      poller := s.poller.tail }
  else s

/-- `session_add_event` -/
def sessionAddEvent (s : Session) (ev : EvMask) : Session :=
  (s.addReadEvent ev).addWriteEvent ev

/-! ## session_del_event, session_readd_event -/

/-- The read half of `session_del_event`. -/
def delReadEvent (s : Session) (ev : EvMask) : Session :=
  if ev.read && s.status.reading then
    { s with evread := s.evread.evsetsDel, status := { s.status with reading := false } }
  else s

/-- The write half of `session_del_event`. -/
def delWriteEvent (s : Session) (ev : EvMask) : Session :=
  if ev.write && s.status.writing then
    { s with evwrite := s.evwrite.evsetsDel, status := { s.status with writing := false } }
  else s

/-- `session_del_event` -/
def sessionDelEvent (s : Session) (ev : EvMask) : Session :=
  (s.delReadEvent ev).delWriteEvent ev

/-- `session_readd_event` -/
def sessionReaddEvent (s : Session) (ev : EvMask) : Session :=
  -- the events are added again whether or not they are registered
  { s with
    status := { s.status with
      reading := s.status.reading && !ev.read
      writing := s.status.writing && !ev.write } }.sessionAddEvent ev

/-! ## session_start_keepalive -/

/-- `session_start_keepalive` -/
def sessionStartKeepalive (s : Session) : Session :=
  if 0 ≤ s.setting.keepaliveMsecs ∧ s.status.keepaliving = false then
    { s with
      evkeepalive := ((s.evkeepalive.eventSet (-1) {}).eventSetCallback .onKeepalive).evsetsAdd true
        s.setting.keepaliveMsecs
      status := { s.status with keepaliving := true } }
  else s

/-! ## Frame

Registering an event touches the three events and their status bits. What is left of a
session when these are wiped is its `core`, and the registration functions keep it. -/

/-- The session with its events, their status bits, their descriptors and the answers of the
poller wiped. -/
def core (s : Session) : Session :=
  { s with
    evread := {}
    evwrite := {}
    evkeepalive := {}
    status := { s.status with reading := false, writing := false, keepaliving := false }
    watched := []
    poller := [] }

section Frame

variable (s : Session) (ev : EvMask)

@[simp] theorem addReadEvent_core : (s.addReadEvent ev).core = s.core := by
  unfold addReadEvent
  split <;> rfl

@[simp] theorem addWriteEvent_core : (s.addWriteEvent ev).core = s.core := by
  unfold addWriteEvent
  split <;> rfl

@[simp] theorem sessionAddEvent_core : (s.sessionAddEvent ev).core = s.core := by
  simp [sessionAddEvent]

@[simp] theorem sessionDelEvent_core : (s.sessionDelEvent ev).core = s.core := by
  unfold sessionDelEvent delWriteEvent delReadEvent
  split <;> split <;> rfl

@[simp] theorem sessionReaddEvent_core : (s.sessionReaddEvent ev).core = s.core :=
  sessionAddEvent_core _ ev

@[simp] theorem sessionStartKeepalive_core : s.sessionStartKeepalive.core = s.core := by
  unfold sessionStartKeepalive
  split <;> rfl

end Frame

section CoreFields

variable {s t : Session} (h : s.core = t.core)
include h

theorem core_fd : s.fd = t.fd := congrArg (·.fd) h
theorem core_type : s.type = t.type := congrArg (·.type) h
theorem core_exiting : s.status.exiting = t.status.exiting := congrArg (·.status.exiting) h
theorem core_reattach : s.reattach = t.reattach := congrArg (·.reattach) h
theorem core_msgoffset : s.msgoffset = t.msgoffset := congrArg (·.msgoffset) h
theorem core_sendqueue : s.sendqueue = t.sendqueue := congrArg (·.sendqueue) h
theorem core_setting : s.setting = t.setting := congrArg (·.setting) h
theorem core_established : s.established = t.established := congrArg (·.established) h
theorem core_freed : s.freed = t.freed := congrArg (·.freed) h
theorem core_trace : s.trace = t.trace := congrArg (·.trace) h
theorem core_tasklist : s.tasklist = t.tasklist := congrArg (·.tasklist) h
theorem core_memory : s.memory = t.memory := congrArg (·.memory) h

end CoreFields

section Fields

variable (s : Session) (ev : EvMask)

@[simp] theorem sessionAddEvent_fd : (s.sessionAddEvent ev).fd = s.fd :=
  core_fd (sessionAddEvent_core s ev)

@[simp] theorem sessionAddEvent_type : (s.sessionAddEvent ev).type = s.type :=
  core_type (sessionAddEvent_core s ev)

@[simp] theorem sessionAddEvent_exiting : (s.sessionAddEvent ev).status.exiting = s.status.exiting :=
  core_exiting (sessionAddEvent_core s ev)

@[simp] theorem sessionAddEvent_reattach : (s.sessionAddEvent ev).reattach = s.reattach :=
  core_reattach (sessionAddEvent_core s ev)

@[simp] theorem sessionAddEvent_msgoffset : (s.sessionAddEvent ev).msgoffset = s.msgoffset :=
  core_msgoffset (sessionAddEvent_core s ev)

@[simp] theorem sessionAddEvent_sendqueue : (s.sessionAddEvent ev).sendqueue = s.sendqueue :=
  core_sendqueue (sessionAddEvent_core s ev)

@[simp] theorem sessionAddEvent_setting : (s.sessionAddEvent ev).setting = s.setting :=
  core_setting (sessionAddEvent_core s ev)

@[simp] theorem sessionAddEvent_established : (s.sessionAddEvent ev).established = s.established :=
  core_established (sessionAddEvent_core s ev)

@[simp] theorem sessionAddEvent_freed : (s.sessionAddEvent ev).freed = s.freed :=
  core_freed (sessionAddEvent_core s ev)

@[simp] theorem sessionAddEvent_trace : (s.sessionAddEvent ev).trace = s.trace :=
  core_trace (sessionAddEvent_core s ev)

@[simp] theorem sessionAddEvent_memory : (s.sessionAddEvent ev).memory = s.memory :=
  core_memory (sessionAddEvent_core s ev)

@[simp] theorem sessionDelEvent_type : (s.sessionDelEvent ev).type = s.type :=
  core_type (sessionDelEvent_core s ev)

@[simp] theorem sessionDelEvent_exiting : (s.sessionDelEvent ev).status.exiting = s.status.exiting :=
  core_exiting (sessionDelEvent_core s ev)

@[simp] theorem sessionDelEvent_reattach : (s.sessionDelEvent ev).reattach = s.reattach :=
  core_reattach (sessionDelEvent_core s ev)

@[simp] theorem sessionDelEvent_msgoffset : (s.sessionDelEvent ev).msgoffset = s.msgoffset :=
  core_msgoffset (sessionDelEvent_core s ev)

@[simp] theorem sessionDelEvent_sendqueue : (s.sessionDelEvent ev).sendqueue = s.sendqueue :=
  core_sendqueue (sessionDelEvent_core s ev)

@[simp] theorem sessionDelEvent_established : (s.sessionDelEvent ev).established = s.established :=
  core_established (sessionDelEvent_core s ev)

@[simp] theorem sessionDelEvent_freed : (s.sessionDelEvent ev).freed = s.freed :=
  core_freed (sessionDelEvent_core s ev)

@[simp] theorem sessionDelEvent_trace : (s.sessionDelEvent ev).trace = s.trace :=
  core_trace (sessionDelEvent_core s ev)

@[simp] theorem sessionReaddEvent_type : (s.sessionReaddEvent ev).type = s.type :=
  core_type (sessionReaddEvent_core s ev)

@[simp] theorem sessionReaddEvent_exiting : (s.sessionReaddEvent ev).status.exiting = s.status.exiting :=
  core_exiting (sessionReaddEvent_core s ev)

@[simp] theorem sessionReaddEvent_reattach : (s.sessionReaddEvent ev).reattach = s.reattach :=
  core_reattach (sessionReaddEvent_core s ev)

@[simp] theorem sessionReaddEvent_established : (s.sessionReaddEvent ev).established = s.established :=
  core_established (sessionReaddEvent_core s ev)

@[simp] theorem sessionReaddEvent_freed : (s.sessionReaddEvent ev).freed = s.freed :=
  core_freed (sessionReaddEvent_core s ev)

@[simp] theorem sessionStartKeepalive_type : s.sessionStartKeepalive.type = s.type :=
  core_type (sessionStartKeepalive_core s)

@[simp] theorem sessionStartKeepalive_exiting : s.sessionStartKeepalive.status.exiting = s.status.exiting :=
  core_exiting (sessionStartKeepalive_core s)

@[simp] theorem sessionStartKeepalive_reattach : s.sessionStartKeepalive.reattach = s.reattach :=
  core_reattach (sessionStartKeepalive_core s)

@[simp] theorem sessionStartKeepalive_established : s.sessionStartKeepalive.established = s.established :=
  core_established (sessionStartKeepalive_core s)

@[simp] theorem sessionStartKeepalive_freed : s.sessionStartKeepalive.freed = s.freed :=
  core_freed (sessionStartKeepalive_core s)

end Fields

end Evlite.Session
