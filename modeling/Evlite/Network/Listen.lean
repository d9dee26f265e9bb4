import Evlite.Network.Accept
import Mathlib.Data.Nat.Find

/-!
# Listening on All Threads

With `EVENT_HAVE_REUSEPORT`, `iolayer_listen` makes an acceptor for each thread and posts it
there. `_server_listen` acquires the parts of an acceptor one after the other, and has
`iolayer_free_acceptor` take back those that are there when the next one cannot be had. But
`iolayer_listen` returns at the first thread that fails, and leaves the acceptors of the threads
before it where they are; the result of `iothreads_post` is not looked at; a descriptor 0 counts
as no descriptor; and an acceptor without its list of transfers still has their number.

What the system calls and the allocator answer is an input. Memory for strings is taken to be
there.

## Main results

- `serverListen_succeeds`, `serverListen_fails`: what one thread is left with.
- `iolayerListen_allOrNothing_iff`: when all threads have their acceptor, or nothing is left.
-/

namespace Evlite

open Lib

namespace Listen

open Accept (NetworkType)

/-! ## Sockets -/

/-- What the system calls answer for one address: `socket`, and whether the options can be set,
`bind` and, for a stream, `listen` succeed. -/
structure SocketAnswers where
  socket : Int
  ready : Bool := true
deriving DecidableEq, Repr

/-- A descriptor, or an error, and what happened to descriptors on the way. -/
abbrev Opened := Int × List (Custody Int)

/-- The loop over the addresses, in `tcp_listen` and in `udp_bind`. -/
def firstSocket : List SocketAnswers → Opened
  | [] => (-2, [])
  | a :: rest =>
    if a.socket < 0 then firstSocket rest
    else if a.ready then (a.socket, [.acquire a.socket])
    else
      -- the socket is closed before the next address is tried
      let r := firstSocket rest
      (r.1, [.acquire a.socket, .release a.socket] ++ r.2)

/-- `udp_bind`; `res` is what `getaddrinfo` finds, if it succeeds. -/
def udpBind (res : Option (List SocketAnswers)) : Opened :=
  match res with
  | none => (-1, [])
  | some addresses => firstSocket addresses

/-- What `unix_listen` is answered. -/
structure UnixAnswers where
  unlinked : Bool := true
  socket : Int := -1
  options : Bool := true
  bound : Bool := true
  listening : Bool := true
deriving DecidableEq, Repr

/-- `unix_listen` -/
def unixListen (a : UnixAnswers) : Opened :=
  if !a.unlinked then (-3, [])
  else if a.socket < 0 then (-4, [])
  else if !a.options then (-5, [.acquire a.socket, .release a.socket])
  else if !a.bound then (-6, [.acquire a.socket, .release a.socket])
  else if !a.listening then (-7, [.acquire a.socket, .release a.socket])
  else (a.socket, [.acquire a.socket])

/-- `tcp_listen` -/
def tcpListen (port : Nat) (res : Option (List SocketAnswers)) (unix : UnixAnswers) : Opened :=
  match res with
  | none => if port = 0 then unixListen unix else (-1, [])
  | some addresses =>
    -- without a port, the host may be the path of a local socket
    let r := firstSocket addresses
    if r.1 < 0 ∧ port = 0 then
      let u := unixListen unix
      (u.1, r.2 ++ u.2)
    else r

/-! ## Acceptors -/

/-- `struct transfer`, as `calloc` leaves it. -/
structure Transfer where
  fd : Int := 0
deriving DecidableEq, Repr

/-- `struct acceptor`, as far as descriptors are concerned. -/
structure Acceptor where
  fd : Int := 0
  idlefd : Int := 0
  ntransfer : Int := 0
  transferlist : Option (List Transfer) := none
deriving DecidableEq, Repr

/-- `if ( fd > 0 ) close( fd )` -/
def closeFd (fd : Int) : List (Custody Int) := if 0 < fd then [.release fd] else []

/-- `iolayer_free_acceptor`. Without a list, the loop over the transfers goes through `NULL`. -/
def iolayerFreeAcceptor (acceptor : Acceptor) : Option (List (Custody Int)) :=
  let closed := closeFd acceptor.fd ++ closeFd acceptor.idlefd
  match acceptor.transferlist with
  | none => if 0 < acceptor.ntransfer then none else some closed
  | some transfers => some (closed ++ transfers.flatMap fun transfer => closeFd transfer.fd)

/-- What `_init_transfer` is answered. -/
structure TransferAnswers where
  event : Bool := true
  res : Option (List SocketAnswers)
deriving DecidableEq, Repr

/-- `_init_transfer` -/
def initTransfer (a : TransferAnswers) : Transfer × Int × List (Custody Int) :=
  if !a.event then ({}, -1, [])
  else
    -- 0 counts as an error
    let r := udpBind a.res
    ({ fd := r.1 }, if r.1 ≤ 0 then -2 else 0, r.2)

/-- The loop over the transfers: the list, whether all of them are there, and the descriptors. -/
def initTransfers : List TransferAnswers → List Transfer × Bool × List (Custody Int)
  | [] => ([], true, [])
  | a :: rest =>
    let r := initTransfer a
    -- the transfers that were not tried are all zero
    if r.2.1 ≠ 0 then (r.1 :: rest.map fun _ => {}, false, r.2.2)
    else
      let s := initTransfers rest
      (r.1 :: s.1, s.2.1, r.2.2 ++ s.2.2)

/-! ## One thread -/

/-- What `_server_listen` is answered. -/
structure ListenAnswers where
  /-- `calloc` for the acceptor. -/
  acceptor : Bool := true
  /-- `event_create` -/
  event : Bool := true
  /-- `open( "/dev/null" )` -/
  idlefd : Int := -1
  /-- `getaddrinfo` in `tcp_listen`. -/
  res : Option (List SocketAnswers) := none
  unix : UnixAnswers := {}
  /-- `ephashtable_create` -/
  eptable : Bool := true
  /-- `calloc` for the transfers. -/
  transferlist : Bool := true
  transfers : Nat → TransferAnswers := fun _ => { res := none }
  /-- `iothreads_post` takes the acceptor. -/
  posted : Bool := true

/-- What `_server_listen` leaves behind. -/
structure Listened where
  rc : Int
  /-- A member of `NULL` was accessed. -/
  fault : Bool := false
  posted : Bool := false
  log : List (Custody Int) := []
deriving DecidableEq, Repr

/-- The arguments of `iolayer_listen` that `_server_listen` looks at. -/
structure Arguments where
  type : NetworkType
  port : Nat
  /-- `options->ntransfer` -/
  options : Option Int := none
deriving DecidableEq, Repr

/-- `acceptor->ntransfer` -/
def Arguments.ntransfer (args : Arguments) : Int := args.options.getD 16

/-- Free the acceptor and return `rc`. -/
def giveUp (acceptor : Acceptor) (log : List (Custody Int)) (rc : Int) : Listened :=
  match iolayerFreeAcceptor acceptor with
  | none => { rc := rc, fault := true, log := log }
  | some closed => { rc := rc, log := log ++ closed }

/-- The answers for the transfers. -/
def ListenAnswers.transferAnswers (a : ListenAnswers) (args : Arguments) : List TransferAnswers :=
  (List.range args.ntransfer.toNat).map a.transfers

/-- `_server_listen` -/
def serverListen (args : Arguments) (a : ListenAnswers) : Listened :=
  if !a.acceptor then { rc := -1 }
  else
    match args.type with
    | .tcp =>
      if !a.event then giveUp {} [] (-2)
      else
        -- whether there is a spare descriptor is not checked
        let idle := if 0 ≤ a.idlefd then [.acquire a.idlefd] else []
        let r := tcpListen args.port a.res a.unix
        if r.1 ≤ 0 then giveUp { fd := r.1, idlefd := a.idlefd } (idle ++ r.2) (-3)
        else { rc := 0, posted := a.posted, log := idle ++ r.2 }
    | .kcp =>
      -- the number of transfers is set before there is a list of them
      if !a.eptable then giveUp { ntransfer := args.ntransfer } [] (-4)
      else if !a.transferlist then giveUp { ntransfer := args.ntransfer } [] (-5)
      else
        let r := initTransfers (a.transferAnswers args)
        if !r.2.1 then giveUp { ntransfer := args.ntransfer, transferlist := some r.1 } r.2.2 (-6)
        else { rc := 0, posted := a.posted, log := r.2.2 }

/-! ## All threads -/

/-- What `iolayer_listen` leaves behind; `posted` are the threads that have got an acceptor. -/
structure LayerListened where
  rc : Int
  fault : Bool := false
  posted : List Nat := []
  log : List (Custody Int) := []
deriving DecidableEq, Repr

/-- The loop of `iolayer_listen`, from thread `i` on. -/
def listenFrom (args : Arguments) (answers : Nat → ListenAnswers) (i : Nat) : Nat → LayerListened
  | 0 => { rc := 0 }
  | left + 1 =>
    let r := serverListen args (answers i)
    if r.fault then { rc := r.rc, fault := true, log := r.log }
    -- the acceptors of the threads before stay where they are
    else if r.rc < 0 then { rc := r.rc, log := r.log }
    else
      let rest := listenFrom args answers (i + 1) left
      { rest with
        posted := (if r.posted then [i] else []) ++ rest.posted
        log := r.log ++ rest.log }

/-- `iolayer_listen` -/
def iolayerListen (args : Arguments) (nthreads : Nat) (answers : Nat → ListenAnswers) : LayerListened :=
  listenFrom args answers 0 nthreads

/-! ## Descriptors that are opened and closed -/

open Custody

/-- What opening `fd` means for the balance of `r`: a negative one is none. -/
def hold (r fd : Int) : Int := if 0 ≤ fd then unit r fd else 0

/-- What opening and closing `fd` means: 0 is not closed. -/
def stay (r fd : Int) : Int := if fd = 0 then unit r fd else 0

theorem closeFd_balance (r fd : Int) : balance r (closeFd fd) = stay r fd - hold r fd := by
  unfold closeFd stay hold
  rcases Int.lt_trichotomy fd 0 with hneg | rfl | hpos
  · rw [if_neg (by omega), if_neg (by omega), if_neg (by omega)]
    rfl
  -- the one descriptor that is open and not closed
  · simp
  · rw [if_pos hpos, if_neg (by omega), if_pos (by omega)]
    simp [weight]

theorem hold_nonneg (r fd : Int) : 0 ≤ hold r fd := by
  unfold hold unit
  split
  · split <;> decide
  · exact Int.le_refl 0

theorem hold_self {fd : Int} (hfd : 0 ≤ fd) : hold fd fd = 1 := by
  unfold hold
  rw [if_pos hfd, unit_self]

theorem hold_of_neg (r : Int) {fd : Int} (hfd : fd < 0) : hold r fd = 0 := if_neg (by omega)

theorem stay_nonneg (r fd : Int) : 0 ≤ stay r fd := by
  unfold stay unit
  split
  · split <;> decide
  · exact Int.le_refl 0

theorem stay_of_ne (r : Int) {fd : Int} (hfd : fd ≠ 0) : stay r fd = 0 := if_neg hfd

theorem stay_zero : stay 0 0 = 1 := by
  unfold stay
  rw [if_pos rfl, unit_self]

/-- The descriptor that is returned is the only one that is left open. -/
def Opens (o : Opened) : Prop := ∀ r, balance r o.2 = hold r o.1

theorem Opens.one {fd : Int} (hfd : ¬fd < 0) : Opens (fd, [.acquire fd]) := by
  intro r
  unfold hold
  rw [if_pos (by omega)]
  simp [weight]

theorem Opens.closed {rc fd : Int} (hrc : rc < 0) : Opens (rc, [.acquire fd, .release fd]) := by
  intro r
  rw [hold_of_neg r hrc]
  simp [weight]

theorem Opens.error {rc : Int} (hrc : rc < 0) : Opens (rc, []) := by
  intro r
  rw [hold_of_neg r hrc]
  rfl

theorem firstSocket_opens (addresses : List SocketAnswers) : Opens (firstSocket addresses) := by
  induction addresses with
  | nil => exact .error (by decide)
  | cons a rest ih =>
    unfold firstSocket
    split
    · exact ih
    · rename_i hsocket
      split
      · exact .one hsocket
      · -- the socket is closed again
        intro r
        rw [balance_append, ih r]
        simp [weight]

theorem udpBind_opens (res : Option (List SocketAnswers)) : Opens (udpBind res) := by
  cases res with
  | none => exact .error (by decide)
  | some addresses => exact firstSocket_opens addresses

theorem unixListen_opens (a : UnixAnswers) : Opens (unixListen a) := by
  unfold unixListen
  split
  · exact .error (by decide)
  · split
    · exact .error (by decide)
    · rename_i hsocket
      split
      · exact .closed (by decide)
      · split
        · exact .closed (by decide)
        · split
          · exact .closed (by decide)
          · exact .one hsocket

theorem tcpListen_opens (port : Nat) (res : Option (List SocketAnswers)) (unix : UnixAnswers) :
    Opens (tcpListen port res unix) := by
  cases res with
  | none =>
    unfold tcpListen
    dsimp only
    split
    · exact unixListen_opens unix
    · exact .error (by decide)
  | some addresses =>
    have hfirst := firstSocket_opens addresses
    unfold tcpListen
    dsimp only
    split
    · rename_i hnone
      intro r
      rw [balance_append, hfirst r, hold_of_neg r hnone.1, unixListen_opens unix r, Int.zero_add]
    · exact hfirst

/-! ## The transfers of an acceptor -/

/-- The descriptor of a transfer; it is negative if there is none. -/
def TransferAnswers.fd (a : TransferAnswers) : Int := if a.event then (udpBind a.res).1 else -1

/-- A transfer has its descriptor, which is closed if it is positive. -/
theorem initTransfer_spec (a : TransferAnswers) :
    ((initTransfer a).2.1 = 0 ↔ 0 < a.fd) ∧
    (∀ r, balance r (initTransfer a).2.2 = hold r a.fd) ∧
    (∀ r, balance r (closeFd (initTransfer a).1.fd) = stay r a.fd - hold r a.fd) := by
  unfold initTransfer TransferAnswers.fd
  cases a.event with
  | false =>
    refine ⟨by simp, fun r => ?_, fun r => ?_⟩
    · simp [hold]
    · simp [closeFd, stay, hold]
  | true =>
    refine ⟨?_, fun r => udpBind_opens a.res r, fun r => closeFd_balance r _⟩
    simp only [Bool.not_true, Bool.false_eq_true, if_false, if_true]
    split
    · rename_i hfd
      exact iff_of_false (by decide) (by omega)
    · rename_i hfd
      exact iff_of_true rfl (by omega)

/-- The first transfer that cannot be had. -/
def failure (l : List TransferAnswers) : Option TransferAnswers := l.find? fun a => decide (a.fd ≤ 0)

theorem failure_cons_of_pos {a : TransferAnswers} (ha : 0 < a.fd) (l : List TransferAnswers) :
    failure (a :: l) = failure l := by
  unfold failure
  rw [List.find?_cons_of_neg]
  simpa using ha

theorem failure_cons_of_not_pos {a : TransferAnswers} (ha : ¬0 < a.fd) (l : List TransferAnswers) :
    failure (a :: l) = some a := by
  unfold failure
  rw [List.find?_cons_of_pos]
  simpa using ha

/-- All transfers are there if none cannot be had. -/
theorem initTransfers_ok (l : List TransferAnswers) : (initTransfers l).2.1 = true ↔ failure l = none := by
  induction l with
  | nil => exact iff_of_true rfl rfl
  | cons a rest ih =>
    obtain ⟨hrc, -, -⟩ := initTransfer_spec a
    unfold initTransfers
    dsimp only
    by_cases ha : 0 < a.fd
    · rw [if_neg (not_not.mpr (hrc.mpr ha)), failure_cons_of_pos ha]
      exact ih
    · rw [if_pos (mt hrc.mp ha), failure_cons_of_not_pos ha]
      exact iff_of_false Bool.false_ne_true (by simp)

/-- What the transfers leave behind when they are freed: the last one that was tried may have got
the descriptor 0. -/
theorem initTransfers_freed (l : List TransferAnswers) (r : Int) :
    balance r (initTransfers l).2.2 +
        balance r ((initTransfers l).1.flatMap fun transfer => closeFd transfer.fd) =
      match failure l with
      | none => 0
      | some a => stay r a.fd := by
  induction l with
  | nil => rfl
  | cons a rest ih =>
    obtain ⟨hrc, hopened, hclosed⟩ := initTransfer_spec a
    unfold initTransfers
    dsimp only
    by_cases ha : 0 < a.fd
    · rw [if_neg (not_not.mpr (hrc.mpr ha)), failure_cons_of_pos ha, ← ih, List.flatMap_cons,
        balance_append, balance_append, hopened, hclosed, stay_of_ne r (by omega)]
      omega
    · -- the transfers after it are as `calloc` has left them
      have hrest : (rest.map fun _ => ({} : Transfer)).flatMap (fun transfer => closeFd transfer.fd) = [] := by
        simp [closeFd]
      rw [if_pos (mt hrc.mp ha), failure_cons_of_not_pos ha, List.flatMap_cons, hrest, List.append_nil,
        hopened, hclosed]
      dsimp only
      omega

theorem initTransfers_covered (l : List TransferAnswers) : Covered (initTransfers l).2.2 := by
  induction l with
  | nil => exact covered_nil
  | cons a rest ih =>
    obtain ⟨-, hopened, -⟩ := initTransfer_spec a
    have hone : Covered (initTransfer a).2.2 := by
      intro r
      rw [hopened]
      exact hold_nonneg r a.fd
    unfold initTransfers
    dsimp only
    split
    · exact hone
    · exact hone.append ih

/-- Transfers that are all there are left open. -/
theorem initTransfers_open {l : List TransferAnswers} (h : failure l = none) :
    Settled (initTransfers l).2.2 ↔ l = [] := by
  cases l with
  | nil => exact iff_of_true settled_nil rfl
  | cons a rest =>
    apply iff_of_false ?_ (List.cons_ne_nil a rest)
    have ha : 0 < a.fd := by
      by_contra hnone
      rw [failure_cons_of_not_pos hnone] at h
      cases h
    obtain ⟨hrc, hopened, -⟩ := initTransfer_spec a
    have hrest := initTransfers_covered rest a.fd
    unfold initTransfers
    dsimp only
    rw [if_neg (not_not.mpr (hrc.mpr ha))]
    apply not_settled (r := a.fd)
    rw [balance_append, hopened, hold_self (by omega)]
    omega

theorem transferAnswers_eq_nil (args : Arguments) (a : ListenAnswers) :
    a.transferAnswers args = [] ↔ args.ntransfer ≤ 0 := by
  unfold ListenAnswers.transferAnswers
  simp

/-! ## One thread: results -/

/-- Everything that an acceptor needs can be had. -/
def Succeeds (args : Arguments) (a : ListenAnswers) : Prop :=
  a.acceptor = true ∧
    match args.type with
    | .tcp => a.event = true ∧ 0 < (tcpListen args.port a.res a.unix).1
    | .kcp => a.eptable = true ∧ a.transferlist = true ∧ failure (a.transferAnswers args) = none

/-- If something cannot be had, what is there is given back: no descriptor is 0, and there are no
transfers without their list. -/
def Clean (args : Arguments) (a : ListenAnswers) : Prop :=
  a.acceptor = true →
    match args.type with
    | .tcp => a.event = true → a.idlefd ≠ 0 ∧ (tcpListen args.port a.res a.unix).1 ≠ 0
    | .kcp =>
      if a.eptable = true ∧ a.transferlist = true then
        ∀ t, failure (a.transferAnswers args) = some t → t.fd ≠ 0
      else args.ntransfer ≤ 0

/-- An acceptor without descriptors. -/
def Arguments.Bare (args : Arguments) : Prop := args.type = .kcp ∧ args.ntransfer ≤ 0

/-- A descriptor 0 stays open. -/
theorem stay_settled {log : List (Custody Int)} {fd : Int} (h : ∀ r, balance r log = stay r fd) :
    Covered log ∧ (Settled log ↔ fd ≠ 0) := by
  constructor
  · intro r
    rw [h r]
    exact stay_nonneg r fd
  · constructor
    · rintro hsettled rfl
      have hzero := h 0
      rw [hsettled 0, stay_zero] at hzero
      exact absurd hzero (by decide)
    · intro hfd r
      rw [h r, stay_of_ne r hfd]

theorem stay_settled_both {log : List (Custody Int)} {fd fd' : Int}
    (h : ∀ r, balance r log = stay r fd + stay r fd') :
    Covered log ∧ (Settled log ↔ fd ≠ 0 ∧ fd' ≠ 0) := by
  have hfd := stay_nonneg 0 fd
  have hfd' := stay_nonneg 0 fd'
  constructor
  · intro r
    rw [h r]
    exact Int.add_nonneg (stay_nonneg r fd) (stay_nonneg r fd')
  · constructor
    · intro hsettled
      have hzero := h 0
      rw [hsettled 0] at hzero
      constructor
      · rintro rfl
        rw [stay_zero] at hzero
        omega
      · rintro rfl
        rw [stay_zero] at hzero
        omega
    · rintro ⟨hne, hne'⟩ r
      rw [h r, stay_of_ne r hne, stay_of_ne r hne', Int.add_zero]

/-- An error, and when it leaves nothing behind. -/
def Leaves (o : Listened) (nothing : Prop) : Prop :=
  o.rc < 0 ∧ Covered o.log ∧ (o.fault = false ∧ Settled o.log ↔ nothing)

theorem giveUp_rc (acceptor : Acceptor) (log : List (Custody Int)) (rc : Int) :
    (giveUp acceptor log rc).rc = rc := by
  unfold giveUp
  split <;> rfl

/-- Both descriptors of an acceptor for streams are closed. -/
theorem giveUp_sockets {log : List (Custody Int)} {fd idlefd rc : Int} (hrc : rc < 0)
    (hlog : ∀ r, balance r log = hold r idlefd + hold r fd) :
    Leaves (giveUp { fd := fd, idlefd := idlefd } log rc) (idlefd ≠ 0 ∧ fd ≠ 0) := by
  have hclosed : ∀ r, balance r (giveUp { fd := fd, idlefd := idlefd } log rc).log =
      stay r idlefd + stay r fd := by
    intro r
    change balance r (log ++ (closeFd fd ++ closeFd idlefd)) = _
    rw [balance_append, balance_append, hlog r, closeFd_balance, closeFd_balance]
    omega
  obtain ⟨hcovered, hsettled⟩ := stay_settled_both hclosed
  refine ⟨?_, hcovered, (and_iff_right rfl).trans hsettled⟩
  rw [giveUp_rc]
  exact hrc

/-- Without a list there are no transfers to free. -/
theorem giveUp_unlisted {ntransfer rc : Int} (hrc : rc < 0) :
    Leaves (giveUp { ntransfer := ntransfer } [] rc) (ntransfer ≤ 0) := by
  constructor
  · rw [giveUp_rc]
    exact hrc
  unfold giveUp iolayerFreeAcceptor
  dsimp only
  by_cases htransfer : 0 < ntransfer
  · rw [if_pos htransfer]
    exact ⟨covered_nil, iff_of_false (by simp) (by omega)⟩
  · rw [if_neg htransfer]
    exact ⟨covered_nil, iff_of_true ⟨rfl, settled_nil⟩ (by omega)⟩

/-- Of the transfers, at most the last one that was tried leaves something. -/
theorem giveUp_transfers {l : List TransferAnswers} {t : TransferAnswers} {ntransfer rc : Int}
    (hrc : rc < 0) (hfailure : failure l = some t) :
    Leaves
      (giveUp { ntransfer := ntransfer, transferlist := some (initTransfers l).1 } (initTransfers l).2.2 rc)
      (t.fd ≠ 0) := by
  have hclosed : ∀ r, balance r ((initTransfers l).2.2 ++
      (closeFd 0 ++ closeFd 0 ++ (initTransfers l).1.flatMap fun transfer => closeFd transfer.fd)) =
      stay r t.fd := by
    intro r
    have hfreed := initTransfers_freed l r
    rw [hfailure] at hfreed
    rw [balance_append]
    exact hfreed
  obtain ⟨hcovered, hsettled⟩ := stay_settled hclosed
  refine ⟨?_, hcovered, (and_iff_right rfl).trans hsettled⟩
  rw [giveUp_rc]
  exact hrc

/-- What `open( "/dev/null" )` means. -/
theorem idle_balance (r fd : Int) :
    balance r (if 0 ≤ fd then [Custody.acquire fd] else []) = hold r fd := by
  unfold hold
  split
  · simp [weight]
  · rfl

/-- A thread that has everything posts an acceptor with its descriptors open. -/
theorem serverListen_succeeds {args : Arguments} {a : ListenAnswers} (h : Succeeds args a) :
    (serverListen args a).rc = 0 ∧ (serverListen args a).fault = false ∧
      (serverListen args a).posted = a.posted ∧ Covered (serverListen args a).log ∧
      (Settled (serverListen args a).log ↔ args.Bare) := by
  obtain ⟨hacceptor, hparts⟩ := h
  unfold serverListen Arguments.Bare
  cases htype : args.type with
  | tcp =>
    rw [htype] at hparts
    obtain ⟨hevent, hfd⟩ := hparts
    have hopens := tcpListen_opens args.port a.res a.unix
    simp only [hacceptor, hevent, Bool.not_true, Bool.false_eq_true, if_false, if_neg (Int.not_le.mpr hfd)]
    have hlog : ∀ r, balance r ((if 0 ≤ a.idlefd then [Custody.acquire a.idlefd] else []) ++
        (tcpListen args.port a.res a.unix).2) =
        hold r a.idlefd + hold r (tcpListen args.port a.res a.unix).1 := by
      intro r
      rw [balance_append, idle_balance, hopens r]
    refine ⟨trivial, trivial, trivial, fun r => ?_, iff_of_false ?_ (by simp)⟩
    · rw [hlog r]
      exact Int.add_nonneg (hold_nonneg _ _) (hold_nonneg _ _)
    · -- the descriptor that listens is open
      apply not_settled (r := (tcpListen args.port a.res a.unix).1)
      have hidle := hold_nonneg (tcpListen args.port a.res a.unix).1 a.idlefd
      rw [hlog, hold_self (by omega)]
      omega
  | kcp =>
    rw [htype] at hparts
    obtain ⟨heptable, hlist, hfailure⟩ := hparts
    have hok := (initTransfers_ok (a.transferAnswers args)).mpr hfailure
    simp only [hacceptor, heptable, hlist, hok, Bool.not_true, Bool.false_eq_true, if_false, true_and]
    exact ⟨initTransfers_covered _, (initTransfers_open hfailure).trans (transferAnswers_eq_nil args a)⟩

/-- What a thread that lacks something leaves behind. -/
theorem serverListen_fails {args : Arguments} {a : ListenAnswers} (h : ¬Succeeds args a) :
    Leaves (serverListen args a) (Clean args a) := by
  unfold serverListen Clean
  unfold Succeeds at h
  cases hacceptor : a.acceptor with
  | false => exact ⟨by simp, covered_nil, by simp [settled_nil]⟩
  | true =>
    rw [hacceptor] at h
    cases htype : args.type with
    | tcp =>
      rw [htype] at h
      cases hevent : a.event with
      | false =>
        have hnothing : Leaves (giveUp {} [] (-2)) ((0 : Int) ≤ 0) := giveUp_unlisted (by decide)
        simpa using hnothing
      | true =>
        have hfd : (tcpListen args.port a.res a.unix).1 ≤ 0 := by
          rw [hevent] at h
          simpa using h
        simp only [Bool.not_true, Bool.false_eq_true, if_false, if_pos hfd, forall_const]
        apply giveUp_sockets (by decide)
        intro r
        rw [balance_append, idle_balance, tcpListen_opens args.port a.res a.unix r]
    | kcp =>
      rw [htype] at h
      cases heptable : a.eptable with
      | false =>
        simp only [Bool.not_true, Bool.not_false, Bool.false_eq_true, if_false, if_true, forall_const, false_and]
        exact giveUp_unlisted (by decide)
      | true =>
        cases hlist : a.transferlist with
        | false =>
          simp only [Bool.not_true, Bool.not_false, Bool.false_eq_true, if_false, if_true, forall_const, and_false]
          exact giveUp_unlisted (by decide)
        | true =>
          cases hfailure : failure (a.transferAnswers args) with
          | none => exact absurd ⟨rfl, heptable, hlist, hfailure⟩ h
          | some t =>
            have hok : (initTransfers (a.transferAnswers args)).2.1 = false := by
              rw [← Bool.not_eq_true, initTransfers_ok, hfailure]
              simp
            simp only [hok, Bool.not_true, Bool.not_false, Bool.false_eq_true, if_false, if_true, forall_const, and_true,
              Option.some.injEq, forall_eq']
            exact giveUp_transfers (by decide) hfailure

/-! ## All threads: results -/

/-- The threads among the first `done` that have got an acceptor. -/
def postedTo (answers : Nat → ListenAnswers) (done : Nat) : List Nat :=
  (List.range done).filter fun i => (answers i).posted

/-- What the first `done` threads have opened. -/
def openedBy (args : Arguments) (answers : Nat → ListenAnswers) (done : Nat) : List (Custody Int) :=
  (List.range done).flatMap fun i => (serverListen args (answers i)).log

theorem postedTo_succ (answers : Nat → ListenAnswers) (done : Nat) :
    postedTo answers (done + 1) = postedTo answers done ++ if (answers done).posted then [done] else [] := by
  unfold postedTo
  rw [List.range_succ, List.filter_append, List.filter_singleton]
  cases (answers done).posted <;> rfl

theorem openedBy_succ (args : Arguments) (answers : Nat → ListenAnswers) (done : Nat) :
    openedBy args answers (done + 1) = openedBy args answers done ++ (serverListen args (answers done)).log := by
  unfold openedBy
  rw [List.range_succ, List.flatMap_append, List.flatMap_singleton]

/-- A thread is among those that have got an acceptor if its acceptor was posted, and then once. -/
theorem postedTo_count {answers : Nat → ListenAnswers} {done i : Nat} (hi : i < done) :
    (postedTo answers done).count i = 1 ↔ (answers i).posted = true := by
  have hmem : i ∈ postedTo answers done ↔ (answers i).posted = true := by
    unfold postedTo
    rw [List.mem_filter, List.mem_range]
    exact and_iff_right hi
  have hnodup : (postedTo answers done).Nodup := List.nodup_range.filter _
  constructor
  · intro hcount
    apply hmem.mp
    apply List.count_pos_iff.mp
    omega
  · intro hposted
    exact List.count_eq_one_of_mem hnodup (hmem.mpr hposted)

theorem postedTo_eq_nil (answers : Nat → ListenAnswers) (done : Nat) :
    postedTo answers done = [] ↔ ∀ i, i < done → (answers i).posted = false := by
  unfold postedTo
  simp [List.filter_eq_nil_iff]

/-- As long as the threads succeed, they only add to what the others do. -/
theorem iolayerListen_prefix {args : Arguments} {answers : Nat → ListenAnswers} {done : Nat}
    (h : ∀ i, i < done → Succeeds args (answers i)) (left : Nat) :
    iolayerListen args (done + left) answers =
      { listenFrom args answers done left with
        posted := postedTo answers done ++ (listenFrom args answers done left).posted
        log := openedBy args answers done ++ (listenFrom args answers done left).log } := by
  induction done generalizing left with
  | zero =>
    rw [Nat.zero_add]
    rfl
  | succ done ih =>
    obtain ⟨hrc, hfault, hposted, -⟩ := serverListen_succeeds (h done (Nat.lt_succ_self done))
    rw [Nat.add_assoc, Nat.add_comm 1 left, ih fun i hi => h i (Nat.lt_succ_of_lt hi)]
    rw [postedTo_succ, openedBy_succ, listenFrom]
    simp only [hrc, hfault, hposted, Bool.false_eq_true, Int.lt_irrefl, if_false, List.append_assoc]

/-- What the threads have opened is settled if they need not open anything. -/
theorem openedBy_settled {args : Arguments} {answers : Nat → ListenAnswers} {done : Nat}
    (h : ∀ i, i < done → Succeeds args (answers i)) :
    Covered (openedBy args answers done) ∧
      (Settled (openedBy args answers done) ↔ (0 < done → args.Bare)) := by
  induction done with
  | zero => exact ⟨covered_nil, iff_of_true settled_nil (by simp)⟩
  | succ done ih =>
    obtain ⟨hcovered, hsettled⟩ := ih fun i hi => h i (Nat.lt_succ_of_lt hi)
    obtain ⟨-, -, -, hcovered', hsettled'⟩ := serverListen_succeeds (h done (Nat.lt_succ_self done))
    rw [openedBy_succ]
    constructor
    · exact hcovered.append hcovered'
    · rw [settled_append_iff hcovered hcovered', hsettled, hsettled']
      constructor
      · rintro ⟨-, hbare⟩ -
        exact hbare
      · intro hbare
        exact ⟨fun _ => hbare (Nat.succ_pos done), hbare (Nat.succ_pos done)⟩

/-- All threads have an acceptor, or nothing is left of the call. -/
structure AllOrNothing (nthreads : Nat) (o : LayerListened) : Prop where
  fault : o.fault = false
  nothing : o.rc < 0 → o.posted = [] ∧ Settled o.log
  all : o.rc = 0 → ∀ i, i < nthreads → o.posted.count i = 1

/-- If all threads succeed, they have to get their acceptors. -/
theorem iolayerListen_succeeds {args : Arguments} {nthreads : Nat} {answers : Nat → ListenAnswers}
    (h : ∀ i, i < nthreads → Succeeds args (answers i)) :
    AllOrNothing nthreads (iolayerListen args nthreads answers) ↔
      ∀ i, i < nthreads → (answers i).posted = true := by
  have hrun := iolayerListen_prefix h 0
  rw [Nat.add_zero] at hrun
  rw [hrun]
  constructor
  · intro hall i hi
    have hcount := hall.all rfl i hi
    rw [listenFrom, List.append_nil] at hcount
    exact (postedTo_count hi).mp hcount
  · intro hposted
    constructor
    · rfl
    · intro hrc
      exact absurd hrc (Int.lt_irrefl 0)
    · intro _ i hi
      rw [listenFrom, List.append_nil]
      exact (postedTo_count hi).mpr (hposted i hi)

/-- If a thread fails, nothing may have been done before it. -/
theorem iolayerListen_fails {args : Arguments} {nthreads k : Nat} {answers : Nat → ListenAnswers}
    (hk : k < nthreads) (h : ∀ i, i < k → Succeeds args (answers i)) (hfails : ¬Succeeds args (answers k)) :
    AllOrNothing nthreads (iolayerListen args nthreads answers) ↔
      (∀ i, i < k → (answers i).posted = false ∧ args.Bare) ∧ Clean args (answers k) := by
  obtain ⟨hrc, hcovered, hclean⟩ := serverListen_fails hfails
  obtain ⟨hcovered', hsettled⟩ := openedBy_settled h
  obtain ⟨left, hleft⟩ : ∃ left, nthreads = k + (left + 1) := ⟨nthreads - k - 1, by omega⟩
  -- the loop ends at the thread that fails
  have hstop : listenFrom args answers k (left + 1) =
      { rc := (serverListen args (answers k)).rc, fault := (serverListen args (answers k)).fault
        log := (serverListen args (answers k)).log } := by
    rw [listenFrom]
    cases (serverListen args (answers k)).fault <;> simp [hrc]
  rw [hleft, iolayerListen_prefix h, hstop]
  dsimp only
  rw [List.append_nil, ← hclean]
  constructor
  · intro hall
    obtain ⟨hposted, hlog⟩ := hall.nothing hrc
    obtain ⟨hbefore, hlast⟩ := (settled_append_iff hcovered' hcovered).mp hlog
    refine ⟨fun i hi => ⟨?_, ?_⟩, hall.fault, hlast⟩
    · exact (postedTo_eq_nil answers k).mp hposted i hi
    · exact hsettled.mp hbefore (by omega)
  · rintro ⟨hbefore, hfault, hlast⟩
    constructor
    · exact hfault
    · intro _
      constructor
      · exact (postedTo_eq_nil answers k).mpr fun i hi => (hbefore i hi).1
      · apply (settled_append_iff hcovered' hcovered).mpr
        exact ⟨hsettled.mpr fun hpos => (hbefore 0 hpos).2, hlast⟩
    · intro hzero
      exact absurd hzero (Int.ne_of_lt hrc)

/-- If not all threads succeed, there is a first one that fails. -/
theorem exists_first_failure {args : Arguments} {nthreads : Nat} {answers : Nat → ListenAnswers}
    (h : ¬∀ i, i < nthreads → Succeeds args (answers i)) :
    ∃ k, k < nthreads ∧ (∀ i, i < k → Succeeds args (answers i)) ∧ ¬Succeeds args (answers k) := by
  classical
  have hsome : ∃ i, i < nthreads ∧ ¬Succeeds args (answers i) := by
    push Not at h
    exact h
  obtain ⟨hk, hfails⟩ := Nat.find_spec hsome
  refine ⟨Nat.find hsome, hk, fun i hi => ?_, hfails⟩
  by_contra hnot
  exact Nat.find_min hsome hi ⟨Nat.lt_trans hi hk, hnot⟩

/-- `iolayer_listen` gives every thread its acceptor or leaves nothing behind exactly if all threads
succeed and are posted theirs, or the first one that fails leaves nothing behind and the threads
before it have done nothing. -/
theorem iolayerListen_allOrNothing_iff (args : Arguments) (nthreads : Nat) (answers : Nat → ListenAnswers) :
    AllOrNothing nthreads (iolayerListen args nthreads answers) ↔
      (∀ i, i < nthreads → Succeeds args (answers i) ∧ (answers i).posted = true) ∨
      ∃ k, k < nthreads ∧
        (∀ i, i < k → Succeeds args (answers i) ∧ (answers i).posted = false ∧ args.Bare) ∧
        ¬Succeeds args (answers k) ∧ Clean args (answers k) := by
  by_cases hall : ∀ i, i < nthreads → Succeeds args (answers i)
  · rw [iolayerListen_succeeds hall]
    constructor
    · intro hposted
      exact .inl fun i hi => ⟨hall i hi, hposted i hi⟩
    · rintro (hposted | ⟨k, hk, -, hfails, -⟩)
      · exact fun i hi => (hposted i hi).2
      · exact absurd (hall k hk) hfails
  · obtain ⟨k, hk, hbefore, hfails⟩ := exists_first_failure hall
    rw [iolayerListen_fails hk hbefore hfails]
    constructor
    · rintro ⟨hnothing, hclean⟩
      exact .inr ⟨k, hk, fun i hi => ⟨hbefore i hi, hnothing i hi⟩, hfails, hclean⟩
    · rintro (hposted | ⟨k', -, hbefore', hfails', hclean'⟩)
      · exact absurd (hposted k hk).1 hfails
      · -- there is only one first thread that fails
        rcases Nat.lt_trichotomy k k' with hlt | rfl | hlt
        · exact absurd (hbefore' k hlt).1 hfails
        · exact ⟨fun i hi => (hbefore' i hi).2, hclean'⟩
        · exact absurd (hbefore k' hlt) hfails'

/-- Of two threads, the second one finds the port taken: the first one goes on listening. -/
theorem iolayerListen_secondThread_fails :
    ¬AllOrNothing 2 (iolayerListen { type := .tcp, port := 80 } 2 fun i =>
      { idlefd := 5 + i, res := some [{ socket := 7 + i, ready := decide (i = 0) }] }) := by
  intro hall
  exact absurd (hall.nothing (by decide)).1 (by decide)

end Listen

end Evlite
