import Evlite.Session.Lifecycle

/-!
# The Public Calls, from the Thread that Owns the Session

What `iolayer_*` (`network.c`) does to one session when it is called on the IO thread the
session belongs to: from a service callback, or on behalf of another thread through a
posted task. A call looks the session up by its id first, so on a session that ended it
does nothing to it.

A service callback is a list of such calls and a result. `iolayer_perform` with no delay
runs `service.perform` at once, so calls nest: the callback that runs inside is part of
the call. `iolayer_shutdown` and `iolayer_shutdowns` only ever post a task.
-/

namespace Evlite

/-! ## Calls -/

/-- One `iolayer_send`: the buffer, the answers of the layer's and of the session's
`transform`, the address of the message made for what is left, the answer of the direct
write. -/
structure SendRequest where
  buf : List UInt8
  layer : Transform := .absent
  transform : Transform := .absent
  msg : Nat := 0
  io : IoResult := .again
deriving DecidableEq, Repr

/-- What both transforms leave of the payload, `none` if one of them failed. -/
def SendRequest.payload (req : SendRequest) : Option (List UInt8) :=
  (req.layer.apply req.buf).bind req.transform.apply

/-- One occurrence of the session in the receivers of a broadcast. -/
structure Delivery where
  transform : Transform := .absent
  msg : Nat := 0
  io : IoResult := .again
deriving DecidableEq, Repr

/-- One `iolayer_perform`, with what `session_schedule_task` gets from the allocator. -/
structure PerformRequest where
  type : Int
  task : TaskPtr
  interval : Int
  recycle : Nat
  addr : Option Nat := none
  event : Bool := true
deriving DecidableEq, Repr

/-- A public call made on the session's own IO thread. -/
inductive Call where
  | setPersist (onoff : Int)
  | setTimeout (seconds : Int)
  | setKeepalive (seconds : Int)
  | setSndqlimit (queuelimit : Int)
  /-- `iolayer_set_service`, and `set_mtu`, `set_minrto`, `set_wndsize`, which change the
  callbacks or the KCP block only. -/
  | setOther
  | send (req : SendRequest)
  /-- `iolayer_broadcast` or `iolayer_broadcast2`, as far as this session receives it. -/
  | broadcast (id : Nat) (buffer : List UInt8) (deliveries : List Delivery)
  /-- `calls` and `rc` are what `service.perform` does, should it run at once, `onShutdown`
  what `service.shutdown` does, should that be the end of the session. -/
  | perform (req : PerformRequest) (calls : List Call) (rc : Int) (onShutdown : List Call)
  | shutdown
  | shutdowns

namespace Session

/-! ## Settings -/

/-- `seconds * 1000` as an `int32_t`. -/
def msecs (seconds : Int) : Int := (BitVec.ofInt 32 (seconds * 1000)).toInt

/-- `iolayer_set_timeout` -/
def iolayerSetTimeout (s : Session) (seconds : Int) : Session :=
  { s with setting := { s.setting with
      timeoutMsecs := if seconds < 0 then -1 else msecs seconds } }.sessionReaddEvent .evRead

/-- `iolayer_set_persist` -/
def iolayerSetPersist (s : Session) (onoff : Int) : Session :=
  { s with setting := { s.setting with persistMode := decide (onoff ≠ 0) } }

/-- `iolayer_set_keepalive` -/
def iolayerSetKeepalive (s : Session) (seconds : Int) : Session :=
  { s with setting := { s.setting with keepaliveMsecs := msecs seconds } }.sessionStartKeepalive

/-- `iolayer_set_sndqlimit` -/
def iolayerSetSndqlimit (s : Session) (queuelimit : Int) : Session :=
  { s with setting := { s.setting with sendqueueLimit := queuelimit } }

/-! ## Sending -/

/-- `_send_direct` -/
def sendDirect (s : Session) (req : SendRequest) : Session :=
  match req.layer.apply req.buf with
  | some buffer => (s.sessionSend buffer req.transform req.msg req.io).1
  | none => s

/-- The part of `_broadcast_direct` and `_broadcast2_direct` that concerns one session. -/
def broadcastDirect (s : Session) (message : Message) (deliveries : List Delivery) : Session :=
  deliveries.foldl (fun s d => (s.sessionSendmessage message d.transform d.msg d.io).1) s

/-! ## Tasks -/

/-- `task->recycle( task->type, task->task, task->interval )` of a `struct task_perform`. -/
def recycleRequest (s : Session) (req : PerformRequest) : Session :=
  s.emit (.recycle req.recycle req.type req.task req.interval)

/-- `_perform_direct` on a session that was found; `calls` is what `service.perform` does
to the session, `rc` its result. -/
def performDirect (s : Session) (req : PerformRequest) (calls : Session → Session) (rc : Int)
    (onShutdown : Session → Session) : Session × Int :=
  if req.interval ≤ 0 then
    let s := calls (s.emit (.perform req.recycle req.type req.task req.interval))
    -- the session is only touched again if the task failed
    (if rc < 0 then s.whenAlive fun s => (s.sessionClose.sessionShutdown onShutdown).recycleRequest req
      else s.recycleRequest req, 0)
  else
    let r := s.sessionScheduleTask req.type req.task req.interval req.recycle req.addr req.event
    (if r.2 ≠ 0 then r.1.recycleRequest req else r.1, r.2)

/-- `_perform_direct` on an id that names no session. -/
def performInvalid (s : Session) (req : PerformRequest) : Session × Int :=
  (s.recycleRequest req, -1)

/-! ## Running calls -/

mutual

/-- One public call. -/
def runCall : Call → Session → Session
  | .setPersist onoff, s => s.whenAlive (iolayerSetPersist · onoff)
  | .setTimeout seconds, s => s.whenAlive (iolayerSetTimeout · seconds)
  | .setKeepalive seconds, s => s.whenAlive (iolayerSetKeepalive · seconds)
  | .setSndqlimit queuelimit, s => s.whenAlive (iolayerSetSndqlimit · queuelimit)
  | .setOther, s => s
  | .send req, s => s.whenAlive (sendDirect · req)
  | .broadcast id buffer deliveries, s =>
    s.whenAlive (broadcastDirect · { id := id, buffer := buffer } deliveries)
  | .perform req calls rc onShutdown, s =>
    if s.freed then (s.performInvalid req).1
    else (s.performDirect req (fun s => runCalls calls s) rc (fun s => runCalls onShutdown s)).1
  | .shutdown, s => s
  | .shutdowns, s => s

/-- A list of public calls, one after the other. -/
def runCalls : List Call → Session → Session
  | [], s => s
  | c :: cs, s => runCalls cs (runCall c s)

end

/-! ## iolayer_perform -/

/-- `_perform_direct` on the session of that id, if it is still there. `calls` and `rc` are
what `service.perform` does and returns, `onShutdown` is what `service.shutdown` does. -/
def performTask (s : Session) (req : PerformRequest) (calls onShutdown : List Call) (rc : Int) :
    Session × Int :=
  if s.freed then s.performInvalid req
  else s.performDirect req (runCalls calls) rc (runCalls onShutdown)

/-- `iolayer_perform` and the execution of its task. `own` tells whether the session's
thread makes the call; if another thread does, `post` is the answer of `iothreads_post`,
and `s` the session that is found when the posted task is executed. -/
def iolayerPerform (s : Session) (nthreads index : Nat) (own : Bool) (post : Int)
    (req : PerformRequest) (calls onShutdown : List Call) (rc : Int) : Session × Int :=
  if nthreads ≤ index then (s, -1)
  else if own then s.performTask req calls onShutdown rc
  -- the thread that executes a posted task has nobody to return the result to
  else if post ≠ 0 then (s, post)
  else ((s.performTask req calls onShutdown rc).1, 0)

/-- Called from a callback, `iolayer_perform` is what its `_perform_direct` does. -/
theorem runCall_perform (s : Session) (req : PerformRequest) (calls onShutdown : List Call)
    (rc : Int) :
    runCall (.perform req calls rc onShutdown) s = (s.performTask req calls onShutdown rc).1 := by
  rw [runCall, performTask]
  split <;> rfl

end Session

/-- What a service callback does when it is invoked: its calls, and its result. -/
structure Callback where
  calls : List Call := []
  rc : Int := 0

/-- The session after the callback returned. -/
def Callback.run (c : Callback) (s : Session) : Session := Session.runCalls c.calls s

end Evlite
