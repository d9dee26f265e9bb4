import Evlite.Session.Api

/-!
# Event Handlers

The callbacks of `channel.c` that run on a session's events, `session_start`, and the
system they form: a `step` delivers one event or executes one posted task, and what the
kernel and the service callbacks answer comes with it.

An event is first activated, by the poller or by the timer wheel, and processed later;
several events of a session can be active at once, and the handler of one can take another
off the active list again. Deliveries of the tasks' own timers need no activation step,
since nothing can happen to them in between but their removal.
-/

namespace Evlite

/-! ## Answers from outside -/

/-- The values of `errno` that `channel_on_read` distinguishes. -/
inductive Errno where
  | eintr
  | eagain
  | ewouldblock
  | ebadf
  | eisdir
  | efault
  | einval
  | eio
  | other
deriving DecidableEq, Repr

/-- The outcome of `buffer_readv`. -/
inductive ReadResult where
  /-- These bytes were read; none means that the peer closed the connection. -/
  | data (bytes : List UInt8)
  /-- `read` failed. -/
  | failed (errno : Errno)
  /-- The buffer could not be expanded. -/
  | noMemory
deriving DecidableEq, Repr

/-- What everything outside the session answers while one handler runs. -/
structure Env where
  /-- The layer is running. -/
  running : Bool := true
  /-- What the allocator and the poller answer to a session that starts; `Input.answers` tells
  what they answer later. -/
  memory : List Bool := []
  poller : List Bool := []
  read : ReadResult := .failed .eagain
  writev : List IoResult := []
  /-- `is_connected( fd ) == 0` -/
  connected : Bool := true
  /-- The result of `tcp_connect` or of `reattach`. -/
  newFd : Int := -1
  start : Callback := {}
  process : Callback := {}
  keepalive : Callback := {}
  timeout : Callback := {}
  error : Callback := {}
  perform : Callback := {}
  /-- The calls `service.shutdown` makes. -/
  shutdown : List Call := []

namespace Session

/-! ## Reading -/

/-- `_receive` -/
def receive (s : Session) (r : ReadResult) : Session :=
  match r with
  | .data bytes => { s with inbuffer := s.inbuffer ++ bytes }
  | _ => s

/-- `_process`: the service is offered what the input buffer holds and reports how much of
it is consumed. -/
def process (s : Session) (cb : Callback) : Session × Int :=
  if s.inbuffer.isEmpty then (s, 0)
  else
    let s := cb.run (s.emit (.process s.inbuffer))
    -- a result that is not positive consumes nothing
    (s.whenAlive fun s =>
      if 0 < cb.rc then { s with inbuffer := s.inbuffer.drop cb.rc.toNat } else s, cb.rc)

/-- `_timeout` -/
def timeout (s : Session) (env : Env) : Session :=
  (env.timeout.run s).whenAlive fun s =>
    if env.timeout.rc ≠ 0 || s.status.exiting then s.sessionShutdown (runCalls env.shutdown)
    -- a permanent session reconnects, a temporary one goes on
    else if s.sessionIsReattch then s.sessionStartReconnect.1
    else (s.sessionAddEvent .evRead).sessionStartKeepalive

/-- `channel_error` with the callbacks of `env`. -/
def channelErrorIn (s : Session) (env : Env) (result : IoError) : Session :=
  s.channelError result env.error.run env.error.rc (runCalls env.shutdown)

/-- The error that `channel_on_read` reports for the outcome of a read, if it is one. -/
def readError : ReadResult → Option IoError
  | .data (_ :: _) => none
  | .data [] => some .peerShutdown
  | .failed .eintr => none
  | .failed .eagain => none
  | .failed .ewouldblock => none
  | .failed .ebadf => some .socketInvalid
  | .failed .eisdir => some .socketInvalid
  | .failed .efault => some .inBufferInvalid
  | .failed .einval => some .readInvalid
  | .failed .eio => some .readIOError
  | .failed .other => some .readFailure
  | .noMemory => some .outMemory

/-- Clear `SESSION_READING` unless the event stays in the event set. -/
def clearReading (s : Session) : Session :=
  if s.setting.persistMode then s else { s with status := { s.status with reading := false } }

/-- Take a persistent read event out of the event set. -/
def delPersistentRead (s : Session) : Session :=
  if s.setting.persistMode then s.sessionDelEvent .evRead else s

/-- What `channel_on_read` does after `service.process` returned. -/
def afterProcess (s : Session) (env : Env) (nprocess : Int) : Session :=
  if nprocess < 0 then s.delPersistentRead.sessionShutdown (runCalls env.shutdown)
  else match readError env.read with
    | none => if s.setting.persistMode then s else s.sessionAddEvent .evRead
    | some e => s.delPersistentRead.channelErrorIn env e

/-- `channel_on_read`. The `errno` of `env.read` is the one that is found after `service.process`
returned, which may have changed it. -/
def channelOnRead (s : Session) (ev : EvMask) (env : Env) : Session :=
  let s := s.clearReading
  if ev.read then
    let s := s.receive env.read
    -- while the layer stops, the bytes stay in the buffer
    let r := if env.running then s.process env.process else (s, 0)
    r.1.whenAlive fun s => s.afterProcess env r.2
  -- nothing was read for the time-out of the session
  else s.delPersistentRead.timeout env

/-- `channel_on_udpread` as far as the session of the datagram's sender is concerned:
`bytes` is what `driver_input` adds to the input buffer. -/
def channelUdpprocess (s : Session) (bytes : List UInt8) (env : Env) : Session :=
  let s := s.sessionReaddEvent .evRead
  let r := { s with inbuffer := s.inbuffer ++ bytes }.process env.process
  r.1.whenAlive fun s =>
    if r.2 < 0 then s.sessionShutdown (runCalls env.shutdown) else s

/-! ## Writing -/

/-- Clear `SESSION_WRITING`. -/
def clearWriting (s : Session) : Session :=
  { s with status := { s.status with writing := false } }

/-- What `channel_on_write` does with what is left in the queue after a transmission that
did not fail. -/
def afterTransmit (s : Session) (env : Env) : Session :=
  if !s.sendqueue.isEmpty then
    if s.setting.sendqueueLimit ≤ 0 ∨ (s.sendqueue.length : Int) < s.setting.sendqueueLimit then
      s.sessionAddEvent .evWrite
    -- the peer takes less than is sent to it
    else s.channelErrorIn env .sendQueueLimit
  -- all data is sent, which an exiting session waited for
  else if s.status.exiting then s.channelShutdown (runCalls env.shutdown)
  else s

/-- `channel_on_write` -/
def channelOnWrite (s : Session) (iovMax : Nat) (ev : EvMask) (env : Env) : Session :=
  let s := s.clearWriting
  if ev.write then
    if !s.sendqueue.isEmpty then
      let r := s.settingTransmit iovMax env.writev
      if r.2 < 0 then r.1.channelErrorIn env .writeFailure else r.1.afterTransmit env
    else s
  -- the time for sending the rest is over
  else s.channelShutdown (runCalls env.shutdown)

/-! ## Keepalive, tasks -/

/-- `channel_on_keepalive` -/
def channelOnKeepalive (s : Session) (env : Env) : Session :=
  let s := { s with status := { s.status with keepaliving := false } }
  (env.keepalive.run s).whenAlive fun s =>
    if env.keepalive.rc = 0 then s.sessionStartKeepalive else s

/-- `channel_on_schedule` -/
def channelOnSchedule (s : Session) (t : ScheduleTask) (env : Env) : Session :=
  let s := env.perform.run (s.emit (.perform t.recycle t.type t.task t.interval))
  s.whenAlive fun s =>
    let s := s.sessionCancelTask t
    if env.perform.rc < 0 then s.sessionClose.sessionShutdown (runCalls env.shutdown) else s

/-! ## Reconnecting -/

/-- A new descriptor, from `tcp_connect` or from the session's `reattach`. -/
def reconnectFd (s : Session) (env : Env) : Session :=
  match s.type with
  | .connect => { s with fd := env.newFd }
  -- `reattach` is handed the old descriptor, which is `-1` after `session_start_reconnect`
  | .associate => { s.emit (.reattach s.fd) with fd := env.newFd }
  | _ => s

/-- Watch a new descriptor for the outcome of its connection. -/
def awaitConnection (s : Session) : Session :=
  let takes := s.poller.headD true
  { s.emit (.connect s.fd) with
    established := false
    evwrite := ((s.evwrite.eventSet s.fd .evWrite).eventSetCallback .reconnected).evsetsAdd takes (-1)
    status := { s.status with writing := true }
    watched := s.watched ++ [(s.fd, takes)]
    poller := s.poller.tail }

/-- `channel_on_reconnect` -/
def channelOnReconnect (s : Session) (env : Env) : Session :=
  let s := s.clearWriting.reconnectFd env
  if s.fd < 0 then s.channelErrorIn env .connectFailure else s.awaitConnection

/-- What `_reconnected` does after `service.start`: the queue taken away comes behind what
the service sent, and all events are registered. -/
def resume (s : Session) (q : List Message) : Session :=
  let s := s.sessionSendqueueMerge q
  ((s.sessionAddEvent .evRead).sessionAddEvent .evWrite).sessionStartKeepalive

/-- `_reconnected` -/
def reconnected (s : Session) (ev : EvMask) (env : Env) : Session :=
  let s := s.clearWriting
  if ev.write then
    if !env.connected then s.channelErrorIn env .connectStatus
    else
      -- what `service.start` sends goes first
      let r := { s with established := true }.sessionSendqueueTake
      (env.start.run r.1).whenAlive (resume · r.2)
  else s.timeout env

/-! ## Starting -/

/-- `session_start` on a new session. -/
def sessionStart (s : Session) (type : SessionType) (fd : Int) (env : Env) : Session :=
  let s := { s with fd := fd, type := type }
  (env.start.run s).whenAlive fun s => (s.sessionAddEvent .evRead).sessionStartKeepalive

end Session

/-! ## The system -/

/-- One of the three events of a session. -/
inductive Which where
  | evread
  | evwrite
  | evkeepalive
deriving DecidableEq, Repr

namespace Session

/-- The event `w` of the session. -/
def event (s : Session) : Which → EventView Handler
  | .evread => s.evread
  | .evwrite => s.evwrite
  | .evkeepalive => s.evkeepalive

/-- Replace the event `w` of the session. -/
def setEvent (s : Session) (w : Which) (e : EventView Handler) : Session :=
  match w with
  | .evread => { s with evread := e }
  | .evwrite => { s with evwrite := e }
  | .evkeepalive => { s with evkeepalive := e }

/-- The call `( *ev->cb )( ev->fd, ev->results, ev->arg )`. -/
def runHandler (s : Session) (iovMax : Nat) (cb : Option Handler) (res : EvMask) (env : Env) :
    Session :=
  match cb with
  | some .onRead => s.channelOnRead res env
  | some .onWrite => s.channelOnWrite iovMax res env
  | some .onKeepalive => s.channelOnKeepalive env
  | some .onReconnect => s.channelOnReconnect env
  | some .reconnected => s.reconnected res env
  | some .onSchedule => s
  | none => s

end Session

/-- The inputs of a session. -/
inductive Input where
  /-- The poller reports the descriptor of an event. -/
  | report (w : Which) (res : EvMask)
  /-- The timer of an event expires. -/
  | expire (w : Which)
  /-- `evsets_process_active` takes an event and runs its callback. -/
  | deliver (w : Which) (env : Env)
  /-- A datagram arrives for a session that shares its descriptor. -/
  | datagram (bytes : List UInt8) (env : Env)
  /-- The timer of a scheduled task expires and its callback runs. -/
  | schedule (t : ScheduleTask) (env : Env)
  /-- A task posted by another thread, or by this one from outside a callback. -/
  | call (c : Call)
  /-- The task posted by `iolayer_shutdown` or `iolayer_shutdowns`. -/
  | shutdown (env : Env)
  /-- What the allocator and the poller will answer next. -/
  | answers (memory poller : List Bool)

namespace Session

/-- Whether the poller can report `res` for an event that watches `events`. -/
def reportable (events res : EvMask) : Bool :=
  (res == .evRead && events.read) || (res == .evWrite && events.write)

/-- One step of a session, `none` when the input is not enabled. -/
def step (iovMax : Nat) (s : Session) : Input → Option Session
  | .report w res =>
    if !s.freed && (s.event w).inserted && reportable (s.event w).events res then
      some (s.setEvent w ((s.event w).eventActive res))
    else none
  | .expire w =>
    if !s.freed && (s.event w).timer then some (s.setEvent w (s.event w).timerExpire) else none
  | .deliver w env =>
    if !s.freed && (s.event w).active then
      let e := s.event w
      some ((s.setEvent w e.processActive).runHandler iovMax e.cb e.results env)
    else none
  | .datagram bytes env =>
    if !s.freed && s.type == .shared then some (s.channelUdpprocess bytes env) else none
  | .schedule t env =>
    if !s.freed && s.tasklist.contains t then some (s.channelOnSchedule t env) else none
  | .call c => if s.freed then none else some (runCall c s)
  | .shutdown env =>
    if s.freed then none else some (s.sessionClose.sessionShutdown (runCalls env.shutdown))
  | .answers memory poller =>
    if s.freed then none else some { s with memory := memory, poller := poller }

end Session

end Evlite
