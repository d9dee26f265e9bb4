import Evlite.Lib.Custody
import Evlite.Session.Manager

/-!
# Accepting a Connection

What becomes of the host string, the descriptor and the session object on the way from
`channel_on_accept` or `channel_on_udpread` through `iolayer_assign_session` to
`_assign_direct`. The task is handled by the thread of the acceptor, or posted to another one.
What the system calls, the allocator, the callback of the acceptor and `driver_create` answer is
an input. Memory for strings is taken to be there.

`session_manager_remove` frees the slot of a session and not its object, and `_free_task_assign`
does not know of the object.

## Main results

- `assignDirect_balance`: which resources of a task are left over.
- `assignDirect_slots`: no slot is.
- `arrive_accounted_iff`: when an arrival leaves nothing behind.
-/

namespace Evlite

open Lib

namespace Accept

/-! ## The data -/

/-- What is acquired on the way. -/
inductive Resource where
  | host (addr : Nat)
  | descriptor (fd : Int)
  | session (addr : BitVec 64)
deriving DecidableEq, Repr

/-- `NETWORK_TCP` and `NETWORK_KCP` -/
inductive NetworkType where
  | tcp
  | kcp
deriving DecidableEq, Repr

/-- `struct task_assign` -/
structure TaskAssign where
  fd : Int
  type : NetworkType
  host : Nat
deriving DecidableEq, Repr

/-- What `_assign_direct` is answered. -/
structure AssignAnswers where
  /-- `realloc` finds memory for more slots. -/
  pool : Bool := true
  /-- The address of the new session, `0` if there is no memory for it. -/
  session : BitVec 64
  /-- The result of the callback of the acceptor. -/
  rc : Int := 0
  /-- `driver_create` succeeds. -/
  driver : Bool := true
deriving DecidableEq, Repr

/-- What is left of the manager, what happened to the resources, and the result. -/
structure Assigned where
  manager : SessionManager
  log : List (Custody Resource)
  rc : Int

/-! ## Assigning -/

/-- `_free_task_assign` -/
def freeTaskAssign (task : TaskAssign) : List (Custody Resource) :=
  (if 0 < task.fd ∧ task.type = .tcp then [.release (.descriptor task.fd)] else []) ++
    [.release (.host task.host)]

/-- `_assign_direct` -/
def assignDirect (m : SessionManager) (task : TaskAssign) (answers : AssignAnswers) : Assigned :=
  let r := m.alloc answers.pool answers.session
  match r.2 with
  | none => { manager := r.1, log := freeTaskAssign task, rc := -1 }
  | some sid =>
    let session := answers.session
    if answers.rc ≠ 0 then
      { manager := (r.1.remove session sid).1
        log := [.acquire (.session session)] ++ freeTaskAssign task
        rc := 1 }
    else
      match task.type with
      | .tcp =>
        -- `session_start` with the descriptor
        { manager := r.1
          log := [.acquire (.session session), .own (.host task.host),
            .own (.descriptor task.fd), .own (.session session)]
          rc := 0 }
      | .kcp =>
        if !answers.driver then
          { manager := (r.1.remove session sid).1
            log := [.acquire (.session session)] ++ freeTaskAssign task
            rc := -2 }
        else
          -- the descriptor is that of the transfer; whether the endpoint gets an entry is ignored
          { manager := r.1
            log := [.acquire (.session session), .own (.host task.host), .own (.session session)]
            rc := 0 }

/-- `iolayer_assign_session`, and what the other thread makes of a task that is posted to it.
`reusePort` is `EVENT_HAVE_REUSEPORT`, and `posted` tells if `iothreads_post` succeeds. -/
def iolayerAssignSession (reusePort : Bool) (acceptidx index : Nat) (posted : Bool)
    (m : SessionManager) (task : TaskAssign) (answers : AssignAnswers) : Assigned :=
  if reusePort ∨ acceptidx = index then assignDirect m task answers
  else if posted then assignDirect m task answers
  else { manager := m, log := [], rc := -1 }

/-! ## Arrivals -/

/-- What `channel_on_accept` is answered. -/
structure AcceptAnswers where
  /-- The event is `EV_READ` and the layer is running. -/
  ready : Bool := true
  /-- The address of the host string. -/
  host : Nat
  /-- The result of `tcp_accept`. -/
  cfd : Int
  /-- `errno == EMFILE` after it. -/
  emfile : Bool := false
  /-- The result of the `accept` in `iolayer_accept_fdlimits`. -/
  idlefd : Int := -1
deriving DecidableEq, Repr

/-- What `channel_on_udpread` is answered. -/
structure UdpreadAnswers where
  /-- The event is `EV_READ` and the layer is running. -/
  ready : Bool := true
  /-- `buffer_receive` does not fail. -/
  received : Bool := true
  /-- `ephashtable_find` finds an entry. -/
  known : Bool := false
  /-- The address of the copy of the host string. -/
  host : Nat
deriving DecidableEq, Repr

/-- The part of `iolayer_accept_fdlimits` that may accept a connection. -/
def iolayerAcceptFdlimits (idlefd : Int) : List (Custody Resource) :=
  (if 0 ≤ idlefd then [.acquire (.descriptor idlefd)] else []) ++
    if 0 < idlefd then [.release (.descriptor idlefd)] else []

/-- The descriptor that `tcp_accept` returns. -/
def acceptLog (a : AcceptAnswers) : List (Custody Resource) :=
  .acquire (.host a.host) :: if 0 ≤ a.cfd then [.acquire (.descriptor a.cfd)] else []

/-- `channel_on_accept` of an acceptor of thread `acceptidx`, which listens on `fd`. Only an
acceptor for TCP has this callback. -/
def channelOnAccept (reusePort : Bool) (nthreads acceptidx fd : Nat) (posted : Bool)
    (m : SessionManager) (a : AcceptAnswers) (answers : AssignAnswers) : Assigned :=
  if a.ready then
    if 0 < a.cfd then
      let task : TaskAssign := { fd := a.cfd, type := .tcp, host := a.host }
      let r := iolayerAssignSession reusePort acceptidx (fd % nthreads) posted m task answers
      { r with log := acceptLog a ++ r.log }
    else if a.emfile then
      { manager := m
        log := acceptLog a ++ (iolayerAcceptFdlimits a.idlefd ++ [.release (.host a.host)])
        rc := 0 }
    else { manager := m, log := acceptLog a, rc := 0 }
  else { manager := m, log := [], rc := 0 }

/-- `channel_on_udpread` of a transfer with the descriptor `fd`, whose acceptor is on thread
`acceptidx`. -/
def channelOnUdpread (reusePort : Bool) (acceptidx : Nat) (fd : Int) (m : SessionManager)
    (a : UdpreadAnswers) (answers : AssignAnswers) : Assigned :=
  if a.ready ∧ a.received = true ∧ a.known = false then
    let task : TaskAssign := { fd := fd, type := .kcp, host := a.host }
    let r := iolayerAssignSession reusePort acceptidx acceptidx true m task answers
    { r with log := .acquire (.host a.host) :: r.log }
  else { manager := m, log := [], rc := 0 }

/-! ## The resources of a task -/

/-- A task holds its host string, and its descriptor if that is of a connection. -/
def TaskAssign.holds (task : TaskAssign) (r : Resource) : Int :=
  Custody.unit r (.host task.host) +
    if task.type = .tcp then Custody.unit r (.descriptor task.fd) else 0

theorem freeTaskAssign_balance {task : TaskAssign} (hfd : task.type = .tcp → 0 < task.fd)
    (r : Resource) : Custody.balance r (freeTaskAssign task) = -task.holds r := by
  unfold freeTaskAssign TaskAssign.holds
  cases htype : task.type with
  | tcp =>
    rw [if_pos ⟨hfd htype, rfl⟩, if_pos rfl]
    simp [Custody.weight]
  | kcp =>
    rw [if_neg (fun h => by cases h.2), if_neg (by decide)]
    simp [Custody.weight]

/-- No session can be allocated: there is no memory for it, or no slot and no way to get one. -/
def Exhausted (m : SessionManager) (answers : AssignAnswers) : Prop :=
  answers.session = 0 ∨
    (m.freeHead = invalidSlotIndex ∧ (maxSlotCapacity ≤ m.capacity ∨ answers.pool = false))

/-- Either no session can be allocated, or it is accepted and gets its driver. -/
def Assigns (m : SessionManager) (type : NetworkType) (answers : AssignAnswers) : Prop :=
  Exhausted m answers ∨ (answers.rc = 0 ∧ (type = .tcp ∨ answers.driver = true))

theorem alloc_none_iff (m : SessionManager) (answers : AssignAnswers) :
    (m.alloc answers.pool answers.session).2 = none ↔ Exhausted m answers := by
  unfold Exhausted
  by_cases hsession : answers.session = 0
  · refine iff_of_true ?_ (.inl hsession)
    unfold SessionManager.alloc
    dsimp only
    rw [if_pos hsession]
    split <;> (split <;> rfl)
  · by_cases hfull : m.freeHead = invalidSlotIndex
    · -- the table has to grow first
      have hexpand : (m.expand answers.pool).2 ≠ 0 ↔
          maxSlotCapacity ≤ m.capacity ∨ answers.pool = false := by
        unfold SessionManager.expand
        split
        · rename_i hmax
          exact iff_of_true (by show (-1 : Int) ≠ 0; decide) (.inl hmax)
        · rename_i hsmall
          cases answers.pool with
          | false => exact iff_of_true (by show (-2 : Int) ≠ 0; decide) (.inr rfl)
          | true => exact iff_of_false (fun h => h rfl) (fun h => h.elim hsmall (by decide))
      unfold SessionManager.alloc
      rw [if_pos hfull]
      dsimp only
      by_cases hfailed : (m.expand answers.pool).2 ≠ 0
      · rw [if_pos hfailed]
        exact iff_of_true rfl (.inr ⟨hfull, hexpand.mp hfailed⟩)
      · rw [if_neg hfailed, if_neg hsession]
        refine iff_of_false (by simp) ?_
        rintro (hzero | ⟨-, hno⟩)
        · exact hsession hzero
        · exact hfailed (hexpand.mpr hno)
    · rw [SessionManager.alloc_of_free hfull _ hsession]
      refine iff_of_false (by simp) ?_
      rintro (hzero | ⟨hhead, -⟩)
      · exact hsession hzero
      · exact hfull hhead

/-! ## Assigning a task -/

/-- What `_assign_direct` does, by its outcome. -/
inductive AssignCase (m : SessionManager) (task : TaskAssign) (answers : AssignAnswers) :
    Assigned → Prop where
  | exhausted (hnone : (m.alloc answers.pool answers.session).2 = none) :
      AssignCase m task answers
        { manager := (m.alloc answers.pool answers.session).1, log := freeTaskAssign task, rc := -1 }
  | removed (sid : BitVec 64) (rc : Int)
      (hsid : (m.alloc answers.pool answers.session).2 = some sid)
      (hwhy : answers.rc ≠ 0 ∨ (task.type = .kcp ∧ answers.driver = false)) :
      AssignCase m task answers
        { manager :=
            ((m.alloc answers.pool answers.session).1.remove answers.session sid).1
          log := [.acquire (.session answers.session)] ++ freeTaskAssign task
          rc := rc }
  | started (sid : BitVec 64) (owned : List (Custody Resource))
      (hsid : (m.alloc answers.pool answers.session).2 = some sid) (haccepted : answers.rc = 0)
      (hdriver : task.type = .tcp ∨ answers.driver = true)
      (howned : ∀ r, Custody.balance r owned = -task.holds r) :
      AssignCase m task answers
        { manager := (m.alloc answers.pool answers.session).1
          log := .acquire (.session answers.session) :: owned ++ [.own (.session answers.session)]
          rc := 0 }

theorem assignDirect_cases (m : SessionManager) (task : TaskAssign) (answers : AssignAnswers) :
    AssignCase m task answers (assignDirect m task answers) := by
  unfold assignDirect
  dsimp only
  split
  · rename_i hnone
    -- the manager has no slot
    exact .exhausted hnone
  · rename_i sid hsid
    split
    · rename_i hrejected
      -- the acceptor turned the session down
      exact .removed sid 1 hsid (.inl hrejected)
    · rename_i haccepted
      have haccepted := not_not.mp haccepted
      split
      · rename_i htype
        refine .started sid [.own (.host task.host), .own (.descriptor task.fd)] hsid haccepted
          (.inl htype) fun r => ?_
        rw [TaskAssign.holds, if_pos htype]
        simp [Custody.weight]
        omega
      · rename_i htype
        split
        · rename_i hfailed
          exact .removed sid (-2) hsid (.inr ⟨htype, by simpa using hfailed⟩)
        · rename_i hdriver
          refine .started sid [.own (.host task.host)] hsid haccepted (.inr (by simpa using hdriver))
            fun r => ?_
          rw [TaskAssign.holds, htype, if_neg (by decide)]
          simp [Custody.weight]

/-- A session that was allocated and is removed again was not to be assigned. -/
theorem not_assigns {m : SessionManager} {task : TaskAssign} {answers : AssignAnswers}
    {sid : BitVec 64} (hsid : (m.alloc answers.pool answers.session).2 = some sid)
    (hwhy : answers.rc ≠ 0 ∨ (task.type = .kcp ∧ answers.driver = false)) :
    ¬Assigns m task.type answers := by
  rintro (hnone | ⟨haccepted, hdriver⟩)
  · rw [(alloc_none_iff m answers).mpr hnone] at hsid
    cases hsid
  · rcases hwhy with hrejected | ⟨htype, hfailed⟩
    · exact hrejected haccepted
    · rw [htype, hfailed] at hdriver
      exact hdriver.elim (by decide) (by decide)

/-- A task that is assigned, or fails for want of a session, leaves nothing over. -/
theorem assignDirect_balance {m : SessionManager} {task : TaskAssign} {answers : AssignAnswers}
    (hfd : task.type = .tcp → 0 < task.fd) (h : Assigns m task.type answers) (r : Resource) :
    Custody.balance r (assignDirect m task answers).log = -task.holds r := by
  have hcase := assignDirect_cases m task answers
  generalize assignDirect m task answers = result at hcase ⊢
  cases hcase with
  | exhausted hnone => exact freeTaskAssign_balance hfd r
  | removed sid rc hsid hwhy => exact absurd h (not_assigns hsid hwhy)
  | started sid owned hsid haccepted hdriver howned =>
    simp only [List.cons_append, Custody.balance_cons, Custody.balance_append, Custody.balance_nil,
      Custody.weight, howned]
    omega

/-- Otherwise the session object is left over. -/
theorem assignDirect_leaves {m : SessionManager} {task : TaskAssign} {answers : AssignAnswers}
    (hfd : task.type = .tcp → 0 < task.fd) (h : ¬Assigns m task.type answers) :
    Custody.balance (.session answers.session) (assignDirect m task answers).log = 1 := by
  have hcase := assignDirect_cases m task answers
  generalize assignDirect m task answers = result at hcase ⊢
  cases hcase with
  | exhausted hnone => exact absurd (.inl ((alloc_none_iff m answers).mp hnone)) h
  | removed sid rc hsid hwhy =>
    -- the task is released, the object is not
    rw [Custody.balance_append, freeTaskAssign_balance hfd]
    unfold TaskAssign.holds
    rw [Custody.unit_of_ne (by simp), Custody.unit_of_ne (by simp)]
    simp [Custody.weight]
  | started sid owned hsid haccepted hdriver howned => exact absurd (.inr ⟨haccepted, hdriver⟩) h

/-! ## The slots -/

/-- A session that is taken into a slot and removed again leaves the slots as they were. -/
theorem take_remove_used {m : SessionManager} {id : BitVec 64 → BitVec 64} {free : List Nat}
    (h : m.Valid id free) (hhead : m.freeHead ≠ invalidSlotIndex) {session : BitVec 64}
    (hsession : session ≠ 0) (i : Nat) :
    ((m.take session).1.remove session (m.take session).2).1.Used i ↔ m.Used i := by
  obtain ⟨-, -, -, hlt, hinactive⟩ := h.freeHead hhead
  have hcap := h.capacity.2
  have hseq : sidSeq (m.take session).2 = m.freeHead := sidSeq_makeSid (by omega)
  have htaken : (m.take session).1.table m.freeHead.toNat =
      { m.table m.freeHead.toNat with isActive := true, link := session } :=
    Function.update_self ..
  have howns : (m.take session).1.Owns session (m.take session).2 := by
    refine ⟨hsession, ?_, ?_, ?_⟩
    · rw [hseq]
      exact BitVec.lt_def.mpr hlt
    · rw [hseq, htaken]
    · rw [hseq, htaken]
      rfl
  unfold SessionManager.remove
  rw [if_pos howns, hseq]
  show i < m.capacity.toNat ∧ (Function.update (Function.update m.table m.freeHead.toNat _)
    m.freeHead.toNat _ i).isActive = true ↔ m.Used i
  by_cases hi : i = m.freeHead.toNat
  · -- the slot itself is free before and after
    refine iff_of_false ?_ ?_
    · rintro ⟨-, hactive⟩
      rw [hi, Function.update_self] at hactive
      cases hactive
    · rintro ⟨-, hactive⟩
      rw [hi, hinactive] at hactive
      cases hactive
  · rw [Function.update_of_ne hi, Function.update_of_ne hi]
    rfl

/-- If no session is started, the same slots are in use as before. -/
theorem assignDirect_slots {m : SessionManager} {id : BitVec 64 → BitVec 64} {free : List Nat}
    (h : m.Valid id free) {task : TaskAssign} {answers : AssignAnswers} (hfree : m.Free answers.session)
    (hnone : ∀ a, .own (.session a) ∉ (assignDirect m task answers).log) (i : Nat) :
    (assignDirect m task answers).manager.Used i ↔ m.Used i := by
  obtain ⟨m', hm', halloc⟩ := h.alloc_cases answers.pool hfree
  have hused : m'.Used i ↔ m.Used i := by
    rcases hm' with rfl | hgrows
    · exact Iff.rfl
    · obtain ⟨-, -, hback, hkept⟩ := h.grows hgrows
      refine ⟨hback i, fun hi => ⟨(hkept i hi.1).1, ?_⟩⟩
      rw [(hkept i hi.1).2]
      exact hi.2
  have hvalid : ∃ free', m'.Valid id free' := by
    rcases hm' with rfl | hgrows
    · exact ⟨free, h⟩
    · exact (h.grows hgrows).1
  obtain ⟨free', hvalid⟩ := hvalid
  have hcase := assignDirect_cases m task answers
  generalize assignDirect m task answers = result at hcase hnone ⊢
  cases hcase with
  | exhausted hno =>
    rcases halloc with halloc | ⟨halloc, -⟩
    · rw [halloc]
      exact hused
    · rw [halloc] at hno
      cases hno
  | removed sid rc hsid hwhy =>
    -- the slot that was taken is given back
    rcases halloc with halloc | ⟨halloc, hhead, hsession, -⟩
    · rw [halloc] at hsid
      cases hsid
    · rw [halloc] at hsid ⊢
      cases hsid
      exact (take_remove_used hvalid hhead hsession i).trans hused
  | started sid owned hsid haccepted hdriver howned =>
    exact absurd (List.mem_append_right _ List.mem_cons_self) (hnone answers.session)

/-! ## Every arrival -/

/-- A connection on the listening descriptor `fd`, or a datagram on the transfer `fd`. -/
inductive Arrival where
  | connection (nthreads fd : Nat) (posted : Bool) (a : AcceptAnswers)
  | datagram (fd : Int) (a : UdpreadAnswers)
deriving DecidableEq, Repr

/-- What becomes of an arrival at an acceptor of thread `acceptidx`. `m` is the manager of the
thread that handles the task, when it does. -/
def arrive (reusePort : Bool) (acceptidx : Nat) (m : SessionManager) (answers : AssignAnswers) :
    Arrival → Assigned
  | .connection nthreads fd posted a =>
    channelOnAccept reusePort nthreads acceptidx fd posted m a answers
  | .datagram fd a => channelOnUdpread reusePort acceptidx fd m a answers

/-- Everything that was acquired is owned by a started session or released, and that once; and
if no session was started, no slot was taken. -/
structure Accounted (m : SessionManager) (result : Assigned) : Prop where
  settled : Custody.Settled result.log
  slots : (∀ a, .own (.session a) ∉ result.log) → ∀ i, result.manager.Used i ↔ m.Used i

/-- The condition under which nothing is left behind. -/
def Arrival.Handled (reusePort : Bool) (acceptidx : Nat) (m : SessionManager)
    (answers : AssignAnswers) : Arrival → Prop
  | .connection nthreads fd posted a =>
    a.ready = false ∨
      (0 < a.cfd ∧ (reusePort = true ∨ acceptidx = fd % nthreads ∨ posted = true) ∧
        Assigns m .tcp answers) ∨
      (a.cfd < 0 ∧ a.emfile = true ∧ a.idlefd ≠ 0)
  | .datagram _ a =>
    a.ready = false ∨ a.received = false ∨ a.known = true ∨ Assigns m .kcp answers

/-- The task is handled, by this thread or by the one it is posted to. -/
theorem iolayerAssignSession_handled {reusePort : Bool} {acceptidx index : Nat} {posted : Bool}
    (h : reusePort = true ∨ acceptidx = index ∨ posted = true) (m : SessionManager) (task : TaskAssign)
    (answers : AssignAnswers) :
    iolayerAssignSession reusePort acceptidx index posted m task answers =
      assignDirect m task answers := by
  unfold iolayerAssignSession
  split
  · rfl
  · rename_i hother
    rw [if_pos (by tauto)]

/-- A connection that was accepted is accounted for if its task is handled and assigned. -/
theorem connection_settled_iff (reusePort : Bool) (acceptidx index : Nat) (posted : Bool)
    (m : SessionManager) {a : AcceptAnswers} (answers : AssignAnswers) (hcfd : 0 < a.cfd) :
    Custody.Settled (acceptLog a ++
        (iolayerAssignSession reusePort acceptidx index posted m
          { fd := a.cfd, type := .tcp, host := a.host } answers).log) ↔
      (reusePort = true ∨ acceptidx = index ∨ posted = true) ∧ Assigns m .tcp answers := by
  have haccepted : ∀ r, Custody.balance r (acceptLog a) =
      Custody.unit r (.host a.host) + Custody.unit r (.descriptor a.cfd) := by
    intro r
    rw [acceptLog, if_pos (Int.le_of_lt hcfd)]
    simp [Custody.weight]
  by_cases hhandled : reusePort = true ∨ acceptidx = index ∨ posted = true
  · rw [iolayerAssignSession_handled hhandled]
    by_cases hassigns : Assigns m .tcp answers
    · refine iff_of_true (fun r => ?_) ⟨hhandled, hassigns⟩
      rw [Custody.balance_append, haccepted, assignDirect_balance (fun _ => hcfd) hassigns]
      unfold TaskAssign.holds
      dsimp only
      rw [if_pos rfl]
      omega
    · -- the session object is left over
      refine iff_of_false (Custody.not_settled (r := .session answers.session) ?_)
        fun h => hassigns h.2
      rw [Custody.balance_append, haccepted, assignDirect_leaves (fun _ => hcfd) hassigns,
        Custody.unit_of_ne (by simp), Custody.unit_of_ne (by simp)]
      decide
  · -- the task is lost with its string and its descriptor
    refine iff_of_false (Custody.not_settled (r := .host a.host) ?_) fun h => hhandled h.1
    have hlost : (iolayerAssignSession reusePort acceptidx index posted m
        { fd := a.cfd, type := .tcp, host := a.host } answers).log = [] := by
      unfold iolayerAssignSession
      rw [if_neg (by tauto), if_neg (by tauto)]
    rw [hlost, List.append_nil, haccepted, Custody.unit_self, Custody.unit_of_ne (by simp)]
    decide

/-- Where nothing was accepted, only the string may be left, and what the second `accept`
returned. -/
theorem refused_settled_iff {a : AcceptAnswers} (hcfd : ¬0 < a.cfd) :
    Custody.Settled (acceptLog a ++ (iolayerAcceptFdlimits a.idlefd ++ [.release (.host a.host)])) ↔
      a.cfd < 0 ∧ a.idlefd ≠ 0 := by
  -- a descriptor `0` is not closed
  have hidle : ∀ r, Custody.balance r (iolayerAcceptFdlimits a.idlefd) =
      if a.idlefd = 0 then Custody.unit r (.descriptor 0) else 0 := by
    intro r
    unfold iolayerAcceptFdlimits
    by_cases hzero : a.idlefd = 0
    · rw [hzero]
      simp [Custody.weight]
    · rw [if_neg hzero]
      by_cases hpos : 0 < a.idlefd
      · rw [if_pos (Int.le_of_lt hpos), if_pos hpos]
        simp [Custody.weight]
      · rw [if_neg (by omega), if_neg hpos]
        rfl
  have hlog : ∀ r, Custody.balance r (acceptLog a ++ (iolayerAcceptFdlimits a.idlefd ++
      [.release (.host a.host)])) =
        (if a.cfd = 0 then Custody.unit r (.descriptor 0) else 0) +
          if a.idlefd = 0 then Custody.unit r (.descriptor 0) else 0 := by
    intro r
    rw [Custody.balance_append, Custody.balance_append, hidle]
    unfold acceptLog
    by_cases hzero : a.cfd = 0
    · rw [hzero, if_pos (Int.le_refl 0), if_pos rfl]
      simp [Custody.weight]
      omega
    · rw [if_neg (by omega), if_neg hzero]
      simp [Custody.weight]
  by_cases h : a.cfd < 0 ∧ a.idlefd ≠ 0
  · refine iff_of_true (fun r => ?_) h
    rw [hlog, if_neg (by omega), if_neg h.2]
    rfl
  · refine iff_of_false (Custody.not_settled (r := .descriptor 0) ?_) h
    rw [hlog, Custody.unit_self]
    split
    · split <;> decide
    · rw [if_pos (by omega)]
      decide

theorem channelOnAccept_settled_iff (reusePort : Bool) (nthreads acceptidx fd : Nat) (posted : Bool)
    (m : SessionManager) (a : AcceptAnswers) (answers : AssignAnswers) :
    Custody.Settled (channelOnAccept reusePort nthreads acceptidx fd posted m a answers).log ↔
      (Arrival.connection nthreads fd posted a).Handled reusePort acceptidx m answers := by
  unfold channelOnAccept Arrival.Handled
  dsimp only
  cases hready : a.ready with
  | false => exact iff_of_true Custody.settled_nil (.inl rfl)
  | true =>
    rw [if_pos rfl]
    by_cases hcfd : 0 < a.cfd
    · rw [if_pos hcfd]
      refine (connection_settled_iff reusePort acceptidx (fd % nthreads) posted m answers hcfd).trans
        ⟨fun h => .inr (.inl ⟨hcfd, h⟩), ?_⟩
      rintro (hfalse | ⟨-, h⟩ | ⟨hneg, -⟩)
      · cases hfalse
      · exact h
      · omega
    · rw [if_neg hcfd]
      cases hemfile : a.emfile with
      | false =>
        -- the string is left over
        refine iff_of_false (Custody.not_settled (r := .host a.host) ?_) ?_
        · rw [if_neg (by decide)]
          unfold acceptLog
          split <;> simp [Custody.weight, Custody.unit]
        · rintro (hfalse | ⟨hpos, -⟩ | ⟨-, hfalse, -⟩)
          · cases hfalse
          · exact hcfd hpos
          · cases hfalse
      | true =>
        rw [if_pos rfl]
        refine (refused_settled_iff hcfd).trans ⟨fun h => .inr (.inr ⟨h.1, rfl, h.2⟩), ?_⟩
        rintro (hfalse | ⟨hpos, -⟩ | ⟨hneg, -, hidle⟩)
        · cases hfalse
        · exact absurd hpos hcfd
        · exact ⟨hneg, hidle⟩

theorem channelOnUdpread_settled_iff (reusePort : Bool) (acceptidx : Nat) (fd : Int)
    (m : SessionManager) (a : UdpreadAnswers) (answers : AssignAnswers) :
    Custody.Settled (channelOnUdpread reusePort acceptidx fd m a answers).log ↔
      (Arrival.datagram fd a).Handled reusePort acceptidx m answers := by
  unfold channelOnUdpread Arrival.Handled
  dsimp only
  by_cases hnew : a.ready = true ∧ a.received = true ∧ a.known = false
  · rw [if_pos hnew]
    dsimp only
    rw [iolayerAssignSession_handled (.inr (.inl rfl))]
    obtain ⟨hready, hreceived, hknown⟩ := hnew
    have hnotcp : NetworkType.kcp = .tcp → 0 < fd := fun h => by cases h
    have hcopied : ∀ (r : Resource) (log : List (Custody Resource)),
        Custody.balance r (.acquire (.host a.host) :: log) =
          Custody.unit r (.host a.host) + Custody.balance r log :=
      fun r log => Custody.balance_cons r _ log
    by_cases hassigns : Assigns m .kcp answers
    · -- the string goes to the session, or is freed
      refine iff_of_true (fun r => ?_) (.inr (.inr (.inr hassigns)))
      rw [hcopied, assignDirect_balance hnotcp hassigns]
      unfold TaskAssign.holds
      dsimp only
      rw [if_neg (by decide)]
      omega
    · refine iff_of_false (Custody.not_settled (r := .session answers.session) ?_) ?_
      · rw [hcopied, assignDirect_leaves hnotcp hassigns, Custody.unit_of_ne (by simp)]
        decide
      · rw [hready, hreceived, hknown]
        simpa using hassigns
  · rw [if_neg hnew]
    refine iff_of_true Custody.settled_nil ?_
    cases hready : a.ready with
    | false => exact .inl rfl
    | true =>
      cases hreceived : a.received with
      | false => exact .inr (.inl rfl)
      | true =>
        cases hknown : a.known with
        | true => exact .inr (.inr (.inl rfl))
        | false => exact absurd ⟨hready, hreceived, hknown⟩ hnew

/-- An arrival that starts no session takes no slot. -/
theorem arrive_slots {m : SessionManager} {id : BitVec 64 → BitVec 64} {free : List Nat}
    (h : m.Valid id free) (reusePort : Bool) (acceptidx : Nat) {answers : AssignAnswers}
    (hfree : m.Free answers.session) (arrival : Arrival)
    (hnone : ∀ a, .own (.session a) ∉ (arrive reusePort acceptidx m answers arrival).log) (i : Nat) :
    (arrive reusePort acceptidx m answers arrival).manager.Used i ↔ m.Used i := by
  have hassign : ∀ (index : Nat) (posted : Bool) (task : TaskAssign),
      (∀ a, .own (.session a) ∉
        (iolayerAssignSession reusePort acceptidx index posted m task answers).log) →
      ((iolayerAssignSession reusePort acceptidx index posted m task answers).manager.Used i ↔
        m.Used i) := by
    intro index posted task hno
    -- a task that is not posted leaves the manager alone
    by_cases hhandled : reusePort = true ∨ acceptidx = index ∨ posted = true
    · rw [iolayerAssignSession_handled hhandled] at hno ⊢
      exact assignDirect_slots h hfree hno i
    · unfold iolayerAssignSession
      rw [if_neg (by tauto), if_neg (by tauto)]
  cases arrival with
  | connection nthreads fd posted a =>
    unfold arrive channelOnAccept at hnone ⊢
    dsimp only at hnone ⊢
    by_cases hready : a.ready = true
    · rw [if_pos hready] at hnone ⊢
      by_cases hcfd : 0 < a.cfd
      · rw [if_pos hcfd] at hnone ⊢
        exact hassign _ _ _ fun x hx => hnone x (List.mem_append_right _ hx)
      · rw [if_neg hcfd]
        split <;> exact Iff.rfl
    · rw [if_neg hready]
  | datagram fd a =>
    unfold arrive channelOnUdpread at hnone ⊢
    dsimp only at hnone ⊢
    split
    · rename_i hnew
      rw [if_pos hnew] at hnone
      exact hassign _ _ _ fun x hx => hnone x (List.mem_cons_of_mem _ hx)
    · exact Iff.rfl

/-! ## Main result -/

/-- Take the manager of a thread after any run, and any connection or datagram that arrives for
it, with any answers from outside; the allocator does not hand out the address of a session that
is in a slot. Everything acquired on the way is owned by a started session or released once, and
a slot is taken for a started session only, if and only if the arrival is `Handled`. -/
theorem arrive_accounted_iff {index : BitVec 8} {size : BitVec 32} {id : BitVec 64 → BitVec 64}
    {inputs : List ManagerInput} {s : Sessions}
    (hrun : Run Sessions.step (Sessions.start index size id) inputs s) (reusePort : Bool)
    (acceptidx : Nat) (answers : AssignAnswers) (hfree : s.manager.Free answers.session)
    (arrival : Arrival) :
    Accounted s.manager (arrive reusePort acceptidx s.manager answers arrival) ↔
      arrival.Handled reusePort acceptidx s.manager answers := by
  obtain ⟨free, hvalid⟩ := Sessions.valid_of_run hrun
  have hsettled : Custody.Settled (arrive reusePort acceptidx s.manager answers arrival).log ↔
      arrival.Handled reusePort acceptidx s.manager answers := by
    cases arrival with
    | connection nthreads fd posted a =>
      exact channelOnAccept_settled_iff reusePort nthreads acceptidx fd posted s.manager a answers
    | datagram fd a => exact channelOnUdpread_settled_iff reusePort acceptidx fd s.manager a answers
  exact ⟨fun h => hsettled.mp h.settled,
    fun h => ⟨hsettled.mpr h, arrive_slots hvalid reusePort acceptidx hfree arrival⟩⟩

/-- A connection that the callback of the acceptor accepts. -/
def accepted : Arrival := .connection 4 6 true { host := 0x100, cfd := 9 }

theorem arrive_accounted_iff_accepted :
    Accounted (Sessions.start 2 4 fun _ => 0).manager
      (arrive false 2 (Sessions.start 2 4 fun _ => 0).manager { session := 0x10 } accepted) :=
  (arrive_accounted_iff (.nil _) false 2 { session := 0x10 } (by decide) accepted).mpr
    (.inr (.inl ⟨by decide, .inr (.inl rfl), .inr ⟨rfl, .inl rfl⟩⟩))

/-- The session object of a rejected connection, the string of an `accept` that fails with
another error than `EMFILE`, and the task that cannot be posted are left behind. -/
theorem arrive_leaves_behind :
    ¬Custody.Settled (arrive false 2 (Sessions.start 2 4 fun _ => 0).manager
        { session := 0x10, rc := 1 } accepted).log ∧
    ¬Custody.Settled (arrive false 2 (Sessions.start 2 4 fun _ => 0).manager { session := 0x10 }
        (.connection 4 6 true { host := 0x100, cfd := -1 })).log ∧
    ¬Custody.Settled (arrive false 1 (Sessions.start 2 4 fun _ => 0).manager { session := 0x10 }
        (.connection 4 6 false { host := 0x100, cfd := 9 })).log :=
  ⟨Custody.not_settled (r := .session 0x10) (by decide), Custody.not_settled (r := .host 0x100) (by decide),
    Custody.not_settled (r := .host 0x100) (by decide)⟩

end Accept

end Evlite
