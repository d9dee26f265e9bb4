import Evlite.Event.View
import Evlite.Lib.ChunkQueue

/-!
# Sessions

`struct session` (`session.h`) with the part of its surroundings it acts on. The kernel,
the service callbacks, the shared messages and the posted tasks lie outside the session:
what they answer is an input of the functions below, and what the session does to them is
recorded, in order, in `trace`. No function reads the trace back. The allocator and the poller
are asked in the middle of nested calls, so their next answers stand in the session itself.

A session that was freed keeps its last contents, so that one can state what was true of
it at that moment; `freed` says that the object is gone.
-/

namespace Evlite

/-! ## Constants -/

/-- `MAX_SECONDS_WAIT_FOR_SHUTDOWN`, in milliseconds. -/
def maxSecondsWaitForShutdown : Int := 10 * 1000

/-- `TRY_RECONNECT_INTERVAL`, in milliseconds. -/
def tryReconnectInterval : Int := 200

/-! ## Status, settings, types -/

/-- `enum SessionType` -/
inductive SessionType where
  | accept
  | connect
  | associate
  | shared
deriving DecidableEq, Repr

/-- The `SESSION_*` bits of `status`. -/
structure Status where
  reading : Bool := false
  writing : Bool := false
  keepaliving : Bool := false
  shutdowning : Bool := false
  exiting : Bool := false
deriving DecidableEq, Repr

/-- `struct session_setting`; `persistMode` is `0` (`false`) or `EV_PERSIST` (`true`). The
transport functions `send` and `transmit` follow the type of the session. -/
structure Setting where
  persistMode : Bool := false
  timeoutMsecs : Int := -1
  keepaliveMsecs : Int := -1
  sendqueueLimit : Int := 0
deriving DecidableEq, Repr

/-- The service error codes `eIOError_*` that a session reports. -/
inductive IoError where
  | outMemory
  | connectStatus
  | readFailure
  | peerShutdown
  | writeFailure
  | connectFailure
  | socketInvalid
  | inBufferInvalid
  | readIOError
  | readInvalid
  | sendQueueLimit
deriving DecidableEq, Repr

/-- A pointer handed around as a task: one the caller passed in, or the address of a
`struct schedule_task`. -/
inductive TaskPtr where
  | user (addr : Nat)
  | scheduleTask (addr : Nat)
deriving DecidableEq, Repr

/-- The callbacks a session installs on its events. -/
inductive Handler where
  | onRead
  | onWrite
  | onKeepalive
  | onReconnect
  | reconnected
  | onSchedule
deriving DecidableEq, Repr

/-- A message in a send queue. `id` is the address of the `struct message`, whose counters
are shared between sessions and kept outside. `sent` is not a field of the source: it
remembers the bytes of the payload that had already been written when the message was made
for the rest of it. -/
structure Message where
  id : Nat
  buffer : List UInt8
  sent : List UInt8 := []
deriving DecidableEq, Repr

/-- The application payload a message stands for. -/
def Message.payload (m : Message) : List UInt8 := m.sent ++ m.buffer

/-- `struct schedule_task`, with its own address and the address of its recycler. -/
structure ScheduleTask where
  addr : Nat
  type : Int
  task : TaskPtr
  interval : Int
  recycle : Nat
  evschedule : EventView Handler
deriving DecidableEq, Repr

/-! ## Effects -/

/-- What a session does to the world around it. -/
inductive Effect where
  /-- The transport accepted these bytes. -/
  | wrote (bytes : List UInt8)
  /-- `session_send` or `session_sendmessage` accepted this payload. -/
  | accepted (payload : List UInt8)
  /-- `message_create` and `message_add_receiver` with the session itself. -/
  | messageCreate (id : Nat)
  /-- `message_add_receiver` -/
  | messageAddReceiver (id : Nat)
  /-- `message_add_success` -/
  | messageAddSuccess (id : Nat)
  /-- `message_add_failure` -/
  | messageAddFailure (id : Nat)
  /-- `if ( message_is_complete( message ) ) message_destroy( message )` -/
  | messageRelease (id : Nat)
  /-- `message_destroy` -/
  | messageDestroy (id : Nat)
  /-- `service.process` is offered these bytes. -/
  | process (bytes : List UInt8)
  /-- `service.error` -/
  | error (code : IoError)
  /-- `service.shutdown` -/
  | shutdown (way : Nat)
  /-- `service.perform` on behalf of the call that passed `recycle`. -/
  | perform (recycle : Nat) (type : Int) (task : TaskPtr) (interval : Int)
  /-- A call of the recycler `recycle`. -/
  | recycle (recycle : Nat) (type : Int) (task : TaskPtr) (interval : Int)
  /-- `reattach( fd, privdata )` -/
  | reattach (fd : Int)
  /-- A reconnect attempt obtained a new descriptor. -/
  | connect (fd : Int)
  /-- `close( fd )` -/
  | close (fd : Int)
  /-- `session_start_reconnect` is entered with this status. -/
  | startReconnect (found : Status)
  /-- `session_shutdown` finds data to send first, with this status and this callback on
  the write event. -/
  | drain (found : Status) (cb : Option Handler)
deriving DecidableEq, Repr

/-- The call of `iolayer_perform` an effect belongs to. The recycler a call passes also
serves to tell it from other calls. -/
def Effect.ticket : Effect → Option Nat
  | .perform k _ _ _ => some k
  | .recycle k _ _ _ => some k
  | _ => none

/-! ## The session -/

/-- `struct session` -/
structure Session where
  fd : Int := -1
  type : SessionType := .accept
  status : Status := {}
  evread : EventView Handler := {}
  evwrite : EventView Handler := {}
  evkeepalive : EventView Handler := {}
  /-- `reattach != NULL` -/
  reattach : Bool := false
  inbuffer : List UInt8 := []
  tasklist : List ScheduleTask := []
  msgoffset : Nat := 0
  sendqueue : List Message := []
  setting : Setting := {}
  /-- Not a field of the source: whether the kernel has a connection on `fd`. -/
  established : Bool := true
  /-- Not a field of the source: the descriptors the session's events were added for, and
  whether the poller took them. -/
  watched : List (Int × Bool) := []
  /-- Not a field of the source: whether the next allocations succeed; the later ones do. -/
  memory : List Bool := []
  /-- Not a field of the source: whether the poller takes the next events that are added; it
  takes the later ones. -/
  poller : List Bool := []
  freed : Bool := false
  trace : List Effect := []
deriving DecidableEq, Repr

namespace Session

/-- Record an effect. -/
def emit (s : Session) (e : Effect) : Session := { s with trace := s.trace ++ [e] }

/-- Record a list of effects. -/
def emits (s : Session) (es : List Effect) : Session := { s with trace := s.trace ++ es }

/-- The allocator is asked: the session afterwards, and the answer. -/
def allocate (s : Session) : Session × Bool := ({ s with memory := s.memory.tail }, s.memory.headD true)

/-- There is memory whenever the session asks for it. -/
def HasMemory (s : Session) : Prop := ∀ b ∈ s.memory, b = true

instance (s : Session) : Decidable s.HasMemory := inferInstanceAs (Decidable (∀ b ∈ s.memory, b = true))

theorem HasMemory.allocate {s : Session} (h : s.HasMemory) : s.allocate.2 = true := by
  unfold Session.allocate
  dsimp only
  cases hmemory : s.memory with
  | nil => rfl
  | cons b bs => exact h b (hmemory ▸ List.mem_cons_self)

/-- What is left of the answers grants no less. -/
theorem HasMemory.of_suffix {s t : Session} (h : s.HasMemory) (hsuffix : t.memory <:+ s.memory) :
    t.HasMemory := fun b hb => h b (hsuffix.subset hb)

/-- Continue with a session that is still there. Past the end of the session object the
source has no defined behaviour, and the model stops. -/
def whenAlive (s : Session) (k : Session → Session) : Session := if s.freed then s else k s

theorem whenAlive_alive {s : Session} (h : s.freed = false) (k : Session → Session) :
    s.whenAlive k = k s := by simp [whenAlive, h]

theorem whenAlive_freed {s : Session} (h : s.freed = true) (k : Session → Session) :
    s.whenAlive k = s := by simp [whenAlive, h]

/-- `session_is_reattch` -/
def sessionIsReattch (s : Session) : Bool :=
  match s.type with
  | .accept => false
  | .shared => false
  | .connect => true
  | .associate => s.reattach

/-- The bytes of the send queue that are still to be written. -/
def unsent (s : Session) : List UInt8 :=
  Lib.ChunkQueue.pending Message.buffer s.msgoffset s.sendqueue

/-- `session_close` -/
def sessionClose (s : Session) : Session :=
  { s with status := { s.status with shutdowning := true } }

end Session

end Evlite
