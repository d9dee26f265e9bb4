import Evlite.Lib.TransitionSystem
import Evlite.Network.EpHashTable

/-!
# The Endpoints of the Shared Sessions

A KCP acceptor has no descriptor for each of its sessions: all datagrams come in on its
transfer sockets, and its table of endpoints tells which session a datagram is for. The entry
of a session is made in the middle of `_assign_direct` and removed by `driver_destroy`, deep
inside of `session_end`; `ephashtable_destroy` cuts the sessions off that outlive the acceptor.

The kernel, the allocator and the callbacks are in the inputs: where new sessions and entries
are put, what the callback of the acceptor decides, whether a driver can be made, and which
sessions the callbacks shut down on the way.

What holds in every run is in `Network/Linked.lean`.
-/

namespace Evlite

open Lib

namespace Udp

/-! ## The data -/

/-- `struct udpentry`. `hashtable` is the acceptor whose table it is. -/
structure UdpEntry where
  session : Nat
  hashtable : Nat
deriving DecidableEq, Repr

/-- `struct driver`, as far as the table is concerned: its entry, or `NULL`. -/
structure Driver where
  entry : Option Nat
deriving DecidableEq, Repr

/-- A session of type `eSessionType_Shared` that was started. The source does not keep the
`acceptor` it came from. -/
structure SharedSession where
  acceptor : Nat
  fd : Int
  host : CString
  port : BitVec 16
  driver : Driver
deriving DecidableEq, Repr

/-- The layer: `session` holds the live sessions and `udpentry` the memory of the entries,
both by their address; `allocated` tells which entries are in use. The acceptors are numbered
in the order of `iolayer_listen`. -/
structure Layer where
  running : Bool
  acceptors : Nat
  eptable : Nat → Option EpHashTable
  session : Nat → Option SharedSession
  udpentry : Nat → UdpEntry
  allocated : Nat → Bool

def initial : Layer where
  running := true
  acceptors := 0
  eptable _ := none
  session _ := none
  udpentry _ := ⟨0, 0⟩
  allocated _ := false

/-! ## The end of a session -/

/-- `driver_destroy`, called for the driver of a session: its entry goes. -/
def driverDestroy (st : Layer) (session : SharedSession) : Layer :=
  match session.driver.entry with
  | none => st
  | some entry =>
    let acceptor := (st.udpentry entry).hashtable
    match st.eptable acceptor with
    | none => st
    | some table =>
      let (table, freed) := table.remove getHashkey session.host session.port
      { st with
        eptable := Function.update st.eptable acceptor (some table)
        allocated := match freed with
          | none => st.allocated
          | some e => Function.update st.allocated e.value false }

/-- `session_end`, with `session_manager_remove` before it. -/
def sessionEnd (st : Layer) (s : Nat) : Layer :=
  match st.session s with
  | none => st
  | some session =>
    let st := driverDestroy st session
    { st with session := Function.update st.session s none }

/-- The sessions a callback shuts down. -/
def endAll (st : Layer) (ended : List Nat) : Layer :=
  ended.foldl sessionEnd st

/-! ## The begin of a session -/

/-- What `service.process` does: the sessions it shuts down, and whether it fails with
nothing left to send, so that `session_shutdown` ends the session at once. -/
structure Processing where
  ended : List Nat
  failed : Bool

/-- What a datagram finds: the answers of the allocator (`session` and `entry`), of
`driver_create` and of the callbacks, and whether the layer is stopped meanwhile. -/
structure Answers where
  session : Option Nat
  /-- What `acceptor->cb` returns, and the sessions it shuts down. -/
  cb : Int
  accepting : List Nat
  stops : Bool
  driver : Bool
  entry : Nat
  /-- The sessions `service.start` shuts down. -/
  starting : List Nat
  process : Processing

/-- What a datagram leads to. -/
inductive Outcome where
  | ignored
  | processed (session : Nat)
  | assigned (rc : Int)
deriving DecidableEq, Repr

/-- `channel_udpprocess` -/
def udpprocess (st : Layer) (s : Nat) (p : Processing) : Layer :=
  let st := endAll st p.ended
  if p.failed then sessionEnd st s else st

/-- `driver_set_endpoint`, with the table of the acceptor. -/
def driverSetEndpoint (st : Layer) (s acceptor : Nat) (table : EpHashTable) (host : CString)
    (port : BitVec 16) (entry : Nat) : Layer × Driver :=
  ({ st with
      eptable := Function.update st.eptable acceptor
        (some (table.append getHashkey host port entry))
      udpentry := Function.update st.udpentry entry ⟨s, acceptor⟩
      allocated := Function.update st.allocated entry true }, ⟨some entry⟩)

/-- `_assign_direct` for a KCP acceptor: the layer and the result. It is `none` where the
allocator would have to answer with what is in use. -/
def assignDirect (st : Layer) (acceptor : Nat) (fd : Int) (host : CString) (port : BitVec 16)
    (answers : Answers) : Option (Layer × Int) :=
  match answers.session with
  | none => some (st, -1)
  | some s =>
    if (st.session s).isSome then none
    else
      let st := { endAll st answers.accepting with running := st.running && !answers.stops }
      if answers.cb ≠ 0 then some (st, 1)
      else if !answers.driver then some (st, -2)
      else if st.allocated answers.entry then none
      else
        match st.eptable acceptor with
        | none => none
        | some table =>
          let (st, driver) := driverSetEndpoint st s acceptor table host port answers.entry
          let session := ⟨acceptor, fd, host, port, driver⟩
          let st := { st with session := Function.update st.session s (some session) }
          let st := endAll st answers.starting
          if st.running then some (udpprocess st s answers.process, 0)
          else some (st, 0)

/-- `channel_on_udpread`, for a datagram that could be received. -/
def udpread (st : Layer) (acceptor : Nat) (fd : Int) (host : CString) (port : BitVec 16)
    (answers : Answers) : Option (Layer × Outcome) :=
  match st.eptable acceptor with
  | none => none
  | some table =>
    if !st.running then some (st, .ignored)
    else
      match table.find getHashkey host port with
      | some entry =>
        let s := (st.udpentry entry).session
        some (udpprocess st s answers.process, .processed s)
      | none =>
        (assignDirect st acceptor fd host port answers).map fun (st, rc) => (st, .assigned rc)

/-! ## The acceptors -/

/-- What `_server_listen` makes for a KCP acceptor. -/
def listen (st : Layer) : Layer :=
  { st with
    acceptors := st.acceptors + 1
    eptable := Function.update st.eptable st.acceptors (some (EpHashTable.create 8192)) }

/-- `_udpentry_helper` with method 3, and the `free` behind it. -/
def cutOff (st : Layer) (entry : Endpoint) : Layer :=
  let s := (st.udpentry entry.value).session
  { st with
    session := Function.update st.session s
      ((st.session s).map fun session => { session with driver := ⟨none⟩ })
    allocated := Function.update st.allocated entry.value false }

/-- `iolayer_free_acceptor`: `ephashtable_destroy` calls the helper for each entry. -/
def freeAcceptor (st : Layer) (acceptor : Nat) : Layer :=
  match st.eptable acceptor with
  | none => st
  | some table =>
    let st := table.entries.foldl cutOff st
    { st with eptable := Function.update st.eptable acceptor none }

/-! ## Runs -/

/-- What can happen: `datagram` comes in on the transfer socket `fd` of an acceptor. -/
inductive Input where
  | listen
  | datagram (acceptor : Nat) (fd : Int) (host : CString) (port : BitVec 16) (answers : Answers)
  | terminate (session : Nat)
  | stop
  | freeAcceptor (acceptor : Nat)

def step (st : Layer) : Input → Option Layer
  | .listen => some (listen st)
  | .datagram acceptor fd host port answers =>
    (udpread st acceptor fd host port answers).map Prod.fst
  | .terminate s => some (sessionEnd st s)
  | .stop => some { st with running := false }
  | .freeAcceptor acceptor => some (freeAcceptor st acceptor)

/-- The inputs that stop the layer. -/
def Input.Stops : Input → Bool
  | .stop => true
  | .datagram _ _ _ _ answers => answers.stops
  | _ => false

end Udp

end Evlite
