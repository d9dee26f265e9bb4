import Evlite.Lib.Custody
import Evlite.Lib.TransitionSystem
import Evlite.Session.Manager

/-!
# Connecting

The connectors of a thread, from `iolayer_connect` on. A connector tries to connect until it is
told to stop or its connection is handed over to a session. If an attempt fails it is put on the
`connectorlist` of the thread, where the end of the thread finds it. What the system calls, the
allocator and the callback answer is an input. Memory for strings is taken to be there.

## Main results

- `connectors_accounted`: in every run, a live connector holds what was acquired for it, and
  nothing else is left.
- `stop_settled_iff`: the end of the thread releases all of it if every connector is on the list,
  and what the others hold is left.
-/

namespace Evlite

open Lib (Custody GuardedRun guardedExec)
open Lib.Custody

namespace Connect

/-! ## The data -/

/-- What is acquired on the way. A connector comes with its event and its host string. -/
inductive Resource where
  | connector (addr : Nat)
  | descriptor (fd : Int)
  | session (addr : BitVec 64)
deriving DecidableEq, Repr

/-- What happens to a connector next. -/
inductive Stage where
  /-- It was posted to the thread, for `_connect_direct`. -/
  | posted
  /-- Its event has the callback `channel_on_connected`. -/
  | connecting
  /-- Its event has the callback `_reconnect_direct`. -/
  | reconnecting
deriving DecidableEq, Repr

/-- `struct connector` -/
structure Connector where
  addr : Nat
  fd : Int
  /-- `state`, which is `1` on the `connectorlist`. -/
  state : Bool := false
  stage : Stage
deriving DecidableEq, Repr

/-- What a thread knows of its connectors, and what happened to the resources. -/
structure Thread where
  manager : SessionManager
  connectors : List Connector := []
  connectorlist : List Nat := []
  log : List (Custody Resource) := []

/-- What `channel_on_connected` is answered. -/
structure ConnectAnswers where
  /-- The event is `EV_WRITE` and not a timeout. -/
  write : Bool
  /-- `is_connected` returns `0`, where it is asked. -/
  connected : Bool := true
  /-- `realloc` finds memory for more slots. -/
  pool : Bool := true
  /-- The address of the new session, `0` if there is no memory for it. -/
  session : BitVec 64
  /-- The result of the callback. -/
  ack : Int := 0
deriving DecidableEq, Repr

/-- The `result` that the callback is told: `0`, or one of `eIOError_*`. -/
inductive ConnectResult where
  | success
  | timeout
  | connectStatus
  | outMemory
deriving DecidableEq, Repr

/-! ## The functions -/

/-- The descriptor that `tcp_connect` returns. -/
def tcpConnectLog (fd : Int) : List (Custody Resource) :=
  if 0 ≤ fd then [.acquire (.descriptor fd)] else []

/-- `iolayer_connect`, called by the thread itself or by another one. `addr` is what `calloc`
returns, and `event` tells if `event_create` succeeds. The result of `iothreads_post` is not looked
at: a connector whose task was not taken is, like a posted one, in nobody's hands until the thread
takes it up, which then never happens. -/
def iolayerConnect (t : Thread) (addr : Nat) (event : Bool) (fd : Int) (inThread : Bool) :
    Thread × Int :=
  if addr = 0 then (t, -1)
  else if !event then
    ({ t with log := t.log ++ [.acquire (.connector addr), .release (.connector addr)] }, -2)
  else
    -- a connector that could not even begin to connect is handed over as well
    ({ t with
        connectors := t.connectors ++
          [{ addr := addr, fd := fd, stage := if inThread then .connecting else .posted }]
        log := t.log ++ (.acquire (.connector addr) :: tcpConnectLog fd) }, 0)

/-- What `iolayer_free_connector` releases. -/
def freeLog (c : Connector) : List (Custody Resource) :=
  (if 0 < c.fd then [.release (.descriptor c.fd)] else []) ++ [.release (.connector c.addr)]

/-- `STAILQ_REMOVE` in `iolayer_free_connector`. -/
def unlisted (connectorlist : List Nat) (c : Connector) : List Nat :=
  if c.state then connectorlist.erase c.addr else connectorlist

/-- `_connect_direct` -/
def connectDirect (c : Connector) : Connector := { c with stage := .connecting }

/-- `_reconnect_direct`, `fd` being what `tcp_connect` returns. -/
def reconnectDirect (c : Connector) (fd : Int) : Connector := { c with fd := fd, stage := .connecting }

/-- What `channel_on_connected` does: what the callback is told, the manager, what is left of the
connector, the list, and what happens to the resources. -/
structure Outcome where
  result : ConnectResult
  id : BitVec 64
  manager : SessionManager
  connector : Option Connector
  connectorlist : List Nat
  log : List (Custody Resource)

/-- What the event says of an attempt. -/
def attemptResult (a : ConnectAnswers) : ConnectResult :=
  if a.write then if a.connected then .success else .connectStatus else .timeout

/-- `channel_on_connected` -/
def channelOnConnected (t : Thread) (c : Connector) (a : ConnectAnswers) : Outcome :=
  let r :=
    if attemptResult a = .success then t.manager.alloc a.pool a.session else (t.manager, none)
  match r.2 with
  | some sid =>
    if a.ack ≠ 0 then
      -- `session_manager_remove` and `session_end`
      { result := .success
        id := sid
        manager := (r.1.remove a.session sid).1
        connector := none
        connectorlist := unlisted t.connectorlist c
        log := [.acquire (.session a.session), .release (.session a.session)] ++ freeLog c }
    else
      -- `session_start` with the descriptor
      { result := .success
        id := sid
        manager := r.1
        connector := none
        connectorlist := unlisted t.connectorlist c
        log := [.acquire (.session a.session), .own (.session a.session), .own (.descriptor c.fd)] ++
          freeLog { c with fd := -1 } }
  | none =>
    let result := if attemptResult a = .success then .outMemory else attemptResult a
    if a.ack ≠ 0 then
      { result := result
        id := 0
        manager := r.1
        connector := none
        connectorlist := unlisted t.connectorlist c
        log := freeLog c }
    else
      -- it tries again later
      { result := result
        id := 0
        manager := r.1
        connector := some
          { c with fd := if 0 < c.fd then -1 else c.fd, state := true, stage := .reconnecting }
        connectorlist := if c.state then t.connectorlist else t.connectorlist ++ [c.addr]
        log := if 0 < c.fd then [.release (.descriptor c.fd)] else [] }

/-- The connectors with `c` in place of the one at `i`. -/
def replaced (connectors : List Connector) (i : Nat) (c : Option Connector) : List Connector :=
  connectors.take i ++ c.toList ++ connectors.drop (i + 1)

/-- The connectors on the list, in the order of the list. -/
def listed (t : Thread) : List Connector :=
  t.connectorlist.filterMap fun addr => t.connectors.find? fun c => c.addr = addr

/-- The part of `iothread_stop` that frees the connectors: those on the list, from the first one
on. The queue of the thread is destroyed with the tasks that are in it. -/
def stop (t : Thread) : Thread :=
  { t with
    connectors := t.connectors.filter fun c => c.addr ∉ t.connectorlist
    connectorlist := []
    log := t.log ++ ((listed t).map freeLog).flatten }

/-! ## Runs -/

inductive Event where
  | connect (addr : Nat) (event : Bool) (fd : Int) (inThread : Bool)
  /-- The thread takes the connector at `i` out of its queue. -/
  | direct (i : Nat)
  /-- The event of the connector at `i` is activated. -/
  | connected (i : Nat) (answers : ConnectAnswers)
  /-- The time of the connector at `i` is over, and `tcp_connect` returns `fd`. -/
  | reconnect (i : Nat) (fd : Int)
deriving DecidableEq, Repr

def step (t : Thread) : Event → Option Thread
  | .connect addr event fd inThread => some (iolayerConnect t addr event fd inThread).1
  | .direct i => do
    let c ← t.connectors[i]?
    if c.stage = .posted then
      some { t with connectors := replaced t.connectors i (some (connectDirect c)) }
    else none
  | .connected i answers => do
    let c ← t.connectors[i]?
    if c.stage = .connecting then
      let r := channelOnConnected t c answers
      some
        { manager := r.manager
          connectors := replaced t.connectors i r.connector
          connectorlist := r.connectorlist
          log := t.log ++ r.log }
    else none
  | .reconnect i fd => do
    let c ← t.connectors[i]?
    if c.stage = .reconnecting then
      some
        { t with
          connectors := replaced t.connectors i (some (reconnectDirect c fd))
          log := t.log ++ tcpConnectLog fd }
    else none

/-- A new object is where no other one is, and only a descriptor can be written to. -/
def Allowed (t : Thread) : Event → Prop
  | .connect addr _ _ _ => ∀ c ∈ t.connectors, c.addr ≠ addr
  | .connected i answers => answers.write = true → ∀ c ∈ t.connectors[i]?, 0 ≤ c.fd
  | _ => True

/-! ## What a connector holds -/

/-- How much of `r` the connector holds. -/
def Connector.holds (r : Resource) (c : Connector) : Int :=
  unit r (.connector c.addr) + if 0 < c.fd then unit r (.descriptor c.fd) else 0

/-- How much of `r` the connectors hold together. -/
def held (r : Resource) (connectors : List Connector) : Int := (connectors.map (Connector.holds r)).sum

theorem held_append (r : Resource) (cs ds : List Connector) :
    held r (cs ++ ds) = held r cs + held r ds := by
  simp [held]

@[simp] theorem held_nil (r : Resource) : held r [] = 0 := rfl

@[simp] theorem held_cons (r : Resource) (c : Connector) (cs : List Connector) :
    held r (c :: cs) = c.holds r + held r cs := by
  simp [held]

theorem holds_nonneg (r : Resource) (c : Connector) : 0 ≤ c.holds r := by
  have hunit : ∀ r', 0 ≤ unit r r' := by
    intro r'
    unfold unit
    split <;> decide
  unfold Connector.holds
  have hconnector := hunit (.connector c.addr)
  have hdescriptor := hunit (.descriptor c.fd)
  split <;> omega

theorem split_at {connectors : List Connector} {i : Nat} {c : Connector}
    (h : connectors[i]? = some c) :
    connectors = connectors.take i ++ c :: connectors.drop (i + 1) := by
  obtain ⟨hlt, rfl⟩ := List.getElem?_eq_some_iff.mp h
  rw [List.getElem_cons_drop, List.take_append_drop]

/-- What is held changes by what the connector at `i` holds. -/
theorem held_replaced {connectors : List Connector} {i : Nat} {c : Connector}
    (h : connectors[i]? = some c) (r : Resource) (c' : Option Connector) :
    held r (replaced connectors i c') = held r connectors - c.holds r + held r c'.toList := by
  have hall := congrArg (held r) (split_at h)
  rw [held_append, held_cons] at hall
  unfold replaced
  rw [held_append, held_append, hall]
  omega

/-- Releasing a connector releases what it holds. -/
theorem balance_freeLog (r : Resource) (c : Connector) : balance r (freeLog c) = -c.holds r := by
  unfold freeLog Connector.holds
  split <;> simp [weight]

theorem balance_tcpConnectLog {r : Resource} (hr : r ≠ .descriptor 0) (fd : Int) :
    balance r (tcpConnectLog fd) = if 0 < fd then unit r (.descriptor fd) else 0 := by
  unfold tcpConnectLog
  by_cases hzero : fd = 0
  · subst hzero
    simp [weight, unit_of_ne (Ne.symm hr)]
  · by_cases hpos : 0 < fd
    · rw [if_pos (Int.le_of_lt hpos), if_pos hpos]
      simp [weight]
    · rw [if_neg (by omega), if_neg hpos]
      rfl

/-- What `channel_on_connected` takes from the connector is released, or belongs to a session. -/
theorem balance_channelOnConnected {t : Thread} {c : Connector} {a : ConnectAnswers}
    (hfd : a.write = true → 0 ≤ c.fd) {r : Resource} (hr : r ≠ .descriptor 0) :
    balance r (channelOnConnected t c a).log =
      held r (channelOnConnected t c a).connector.toList - c.holds r := by
  unfold channelOnConnected
  dsimp only
  split
  · rename_i sid hsid
    have hwrite : a.write = true := by
      by_contra hno
      have hresult : attemptResult a = .timeout := if_neg hno
      rw [hresult, if_neg (by decide)] at hsid
      cases hsid
    split
    · -- the callback turns the session down
      rw [balance_append, balance_freeLog]
      simp [weight]
    · rw [balance_append, balance_freeLog]
      unfold Connector.holds
      by_cases hzero : c.fd = 0
      · simp [weight, hzero, unit_of_ne (Ne.symm hr)]
      · have hpos : 0 < c.fd := by
          have hle := hfd hwrite
          omega
        simp [weight, hpos]
  · split
    · rw [balance_freeLog]
      simp
    · -- only the descriptor is closed
      unfold Connector.holds
      by_cases hpos : 0 < c.fd
      · simp [weight, hpos, Connector.holds]
      · simp [hpos, Connector.holds]

/-! ## The list -/

/-- The live connectors hold what was acquired and neither released nor handed over, and those
on the list are those that failed before. -/
structure Thread.Kept (t : Thread) : Prop where
  balance_eq : ∀ r, r ≠ .descriptor 0 → balance r t.log = held r t.connectors
  nodup : (t.connectors.map Connector.addr).Nodup
  list_nodup : t.connectorlist.Nodup
  mem_list : ∀ addr, addr ∈ t.connectorlist ↔ ∃ c ∈ t.connectors, c.addr = addr ∧ c.state = true
  closed : ∀ c ∈ t.connectors, c.stage = .reconnecting → ¬0 < c.fd

/-- A connector is known by its address. -/
theorem mem_replaced {connectors : List Connector} {i : Nat} {c : Connector}
    (hnodup : (connectors.map Connector.addr).Nodup) (h : connectors[i]? = some c)
    (c' : Option Connector) (d : Connector) :
    d ∈ replaced connectors i c' ↔ d ∈ c' ∨ (d ∈ connectors ∧ d.addr ≠ c.addr) := by
  have hsplit := split_at h
  unfold replaced
  generalize connectors.take i = before at hsplit ⊢
  generalize connectors.drop (i + 1) = after at hsplit ⊢
  subst hsplit
  rw [List.map_append, List.map_cons, List.nodup_middle, List.nodup_cons,
    ← List.map_append] at hnodup
  have hother : ∀ d ∈ before ++ after, d.addr ≠ c.addr := by
    intro d hd heq
    exact hnodup.1 (heq ▸ List.mem_map_of_mem hd)
  simp only [List.mem_append, List.mem_cons, Option.mem_toList] at hother ⊢
  constructor
  · rintro ((hd | hd) | hd)
    · exact .inr ⟨.inl hd, hother d (.inl hd)⟩
    · exact .inl hd
    · exact .inr ⟨.inr (.inr hd), hother d (.inr hd)⟩
  · rintro (hd | ⟨hd | rfl | hd, hne⟩)
    · exact .inl (.inr hd)
    · exact .inl (.inl hd)
    · exact absurd rfl hne
    · exact .inr hd

theorem nodup_replaced {connectors : List Connector} {i : Nat} {c : Connector}
    (hnodup : (connectors.map Connector.addr).Nodup) (h : connectors[i]? = some c)
    {c' : Option Connector} (haddr : ∀ d ∈ c', d.addr = c.addr) :
    ((replaced connectors i c').map Connector.addr).Nodup := by
  rw [split_at h, List.map_append, List.map_cons] at hnodup
  unfold replaced
  cases c' with
  | none =>
    rw [Option.toList_none, List.append_nil, List.map_append]
    exact (List.nodup_middle.mp hnodup).of_cons
  | some d =>
    rw [Option.toList_some, List.append_assoc, List.singleton_append, List.map_append, List.map_cons,
      haddr d rfl]
    exact hnodup

theorem Thread.Kept.eq_of_addr {t : Thread} (h : t.Kept) {c d : Connector} (hc : c ∈ t.connectors)
    (hd : d ∈ t.connectors) (haddr : c.addr = d.addr) : c = d :=
  List.inj_on_of_nodup_map h.nodup hc hd haddr

/-- What is found at an address is the connector there. -/
theorem Thread.Kept.find_iff {t : Thread} (h : t.Kept) {addr : Nat} {c : Connector} :
    t.connectors.find? (fun d => d.addr = addr) = some c ↔ c ∈ t.connectors ∧ c.addr = addr := by
  constructor
  · intro hfind
    have haddr := List.find?_some hfind
    exact ⟨List.mem_of_find?_eq_some hfind, of_decide_eq_true haddr⟩
  · rintro ⟨hc, rfl⟩
    cases hfind : t.connectors.find? (fun d => d.addr = c.addr) with
    | none => exact absurd (List.find?_eq_none.mp hfind c hc) (by simp)
    | some d =>
      have haddr := List.find?_some hfind
      rw [h.eq_of_addr (List.mem_of_find?_eq_some hfind) hc (of_decide_eq_true haddr)]

/-- A connector is on the list if its `state` says so. -/
theorem Thread.Kept.listed_iff {t : Thread} (h : t.Kept) {c : Connector} (hc : c ∈ t.connectors) :
    c.addr ∈ t.connectorlist ↔ c.state = true := by
  rw [h.mem_list]
  constructor
  · rintro ⟨d, hd, haddr, hstate⟩
    rwa [← h.eq_of_addr hd hc haddr]
  · exact fun hstate => ⟨c, hc, rfl, hstate⟩

/-- One connector changes, or is freed. -/
theorem Thread.Kept.replace {t : Thread} (h : t.Kept) {i : Nat} {c : Connector}
    (hc : t.connectors[i]? = some c) (c' : Option Connector) (haddr : ∀ d ∈ c', d.addr = c.addr)
    (manager : SessionManager) {connectorlist : List Nat} (hnodup : connectorlist.Nodup)
    (hlist : ∀ addr, addr ∈ connectorlist ↔
      (∃ d ∈ c', d.addr = addr ∧ d.state = true) ∨ (addr ≠ c.addr ∧ addr ∈ t.connectorlist))
    {log : List (Custody Resource)}
    (hlog : ∀ r, r ≠ .descriptor 0 → balance r log = held r c'.toList - c.holds r)
    (hclosed : ∀ d ∈ c', d.stage = .reconnecting → ¬0 < d.fd) :
    Thread.Kept
      { manager := manager
        connectors := replaced t.connectors i c'
        connectorlist := connectorlist
        log := t.log ++ log } where
  balance_eq := by
    intro r hr
    rw [balance_append, h.balance_eq r hr, hlog r hr, held_replaced hc]
    omega
  nodup := nodup_replaced h.nodup hc haddr
  list_nodup := hnodup
  mem_list := by
    intro addr
    rw [hlist, h.mem_list]
    simp only [mem_replaced h.nodup hc]
    constructor
    · rintro (⟨d, hd, heq, hstate⟩ | ⟨hne, d, hd, heq, hstate⟩)
      · exact ⟨d, .inl hd, heq, hstate⟩
      · exact ⟨d, .inr ⟨hd, heq ▸ hne⟩, heq, hstate⟩
    · rintro ⟨d, hd | ⟨hd, hne⟩, heq, hstate⟩
      · exact .inl ⟨d, hd, heq, hstate⟩
      · exact .inr ⟨heq ▸ hne, d, hd, heq, hstate⟩
  closed := by
    intro d hd
    rcases (mem_replaced h.nodup hc c' d).mp hd with hd | ⟨hd, -⟩
    · exact hclosed d hd
    · exact h.closed d hd

/-- What is left of a list when a connector that may be on it is freed. -/
theorem Thread.Kept.remove {t : Thread} (h : t.Kept) {c : Connector} (hc : c ∈ t.connectors) :
    (unlisted t.connectorlist c).Nodup ∧
      ∀ addr, addr ∈ unlisted t.connectorlist c ↔ addr ≠ c.addr ∧ addr ∈ t.connectorlist := by
  have hlisted := h.listed_iff hc
  unfold unlisted
  split
  · exact ⟨h.list_nodup.erase _, fun addr => h.list_nodup.mem_erase_iff⟩
  · rename_i hstate
    refine ⟨h.list_nodup, fun addr => ⟨fun hmem => ⟨?_, hmem⟩, fun hmem => hmem.2⟩⟩
    rintro rfl
    exact hstate (hlisted.mp hmem)

/-- A connector that changes but stays where it is. -/
theorem Thread.Kept.advance {t : Thread} (h : t.Kept) {i : Nat} {c : Connector}
    (hc : t.connectors[i]? = some c) (c' : Connector) (log : List (Custody Resource))
    (haddr : c'.addr = c.addr) (hstate : c'.state = c.state)
    (hlog : ∀ r, r ≠ .descriptor 0 → balance r log = c'.holds r - c.holds r)
    (hstage : c'.stage = .connecting) :
    Thread.Kept
      { t with connectors := replaced t.connectors i (some c'), log := t.log ++ log } := by
  have hlisted := h.listed_iff (List.mem_of_getElem? hc)
  -- the list stays the same, and so does what it says of this connector
  refine h.replace hc (some c') ?_ t.manager h.list_nodup ?_ ?_ ?_
  · intro d hd
    cases Option.mem_some.mp hd
    exact haddr
  · intro addr
    constructor
    · intro hmem
      by_cases heq : addr = c.addr
      · subst heq
        exact .inl ⟨c', rfl, haddr, hstate.trans (hlisted.mp hmem)⟩
      · exact .inr ⟨heq, hmem⟩
    · rintro (⟨d, hd, rfl, hd'⟩ | ⟨-, hmem⟩)
      · cases Option.mem_some.mp hd
        rw [haddr]
        exact hlisted.mpr (hstate.symm.trans hd')
      · exact hmem
  · intro r hr
    rw [hlog r hr]
    simp
  · intro d hd hreconnecting
    cases Option.mem_some.mp hd
    rw [hstage] at hreconnecting
    cases hreconnecting

/-! ## Every step -/

theorem kept_connect {t : Thread} (h : t.Kept) {addr : Nat}
    (hnew : ∀ c ∈ t.connectors, c.addr ≠ addr) (event : Bool) (fd : Int) (inThread : Bool) :
    (iolayerConnect t addr event fd inThread).1.Kept := by
  unfold iolayerConnect
  split
  · exact h
  · split
    · refine ⟨fun r hr => ?_, h.nodup, h.list_nodup, h.mem_list, h.closed⟩
      rw [balance_append, h.balance_eq r hr]
      simp [weight]
    · refine ⟨fun r hr => ?_, ?_, h.list_nodup, fun a => ?_, fun c hc hstage => ?_⟩
      · rw [balance_append, h.balance_eq r hr, held_append, balance_cons, balance_tcpConnectLog hr]
        simp [weight, Connector.holds]
      · have hlast : ∀ a ∈ t.connectors.map Connector.addr, a ≠ addr := by
          intro a ha
          obtain ⟨c, hc, rfl⟩ := List.mem_map.mp ha
          exact hnew c hc
        rw [List.map_append, List.map_singleton, List.nodup_append]
        refine ⟨h.nodup, List.nodup_singleton _, fun a ha b hb => ?_⟩
        rw [List.mem_singleton.mp hb]
        exact hlast a ha
      · -- it is not on the list yet
        rw [h.mem_list]
        simp only [List.mem_append, List.mem_singleton]
        constructor
        · rintro ⟨c, hc, heq, hstate⟩
          exact ⟨c, .inl hc, heq, hstate⟩
        · rintro ⟨c, hc | rfl, heq, hstate⟩
          · exact ⟨c, hc, heq, hstate⟩
          · cases hstate
      · rcases List.mem_append.mp hc with hc | hc
        · exact h.closed c hc hstage
        · rw [List.mem_singleton.mp hc] at hstage
          cases inThread <;> cases hstage

/-- A connector that tries again has closed its descriptor. -/
theorem channelOnConnected_closed {t : Thread} {c : Connector} {a : ConnectAnswers} :
    ∀ d ∈ (channelOnConnected t c a).connector, ¬0 < d.fd := by
  unfold channelOnConnected
  dsimp only
  split
  · split
    · exact fun d hd => absurd hd (Option.not_mem_none d)
    · exact fun d hd => absurd hd (Option.not_mem_none d)
  · split
    · exact fun d hd => absurd hd (Option.not_mem_none d)
    · intro d hd
      cases Option.mem_some.mp hd
      dsimp only
      split <;> omega

/-- Whatever the attempt comes to, the list is right. -/
theorem Thread.Kept.outcome_list {t : Thread} (h : t.Kept) {c : Connector} (hc : c ∈ t.connectors)
    (a : ConnectAnswers) :
    (∀ d ∈ (channelOnConnected t c a).connector, d.addr = c.addr) ∧
      (channelOnConnected t c a).connectorlist.Nodup ∧
      ∀ addr, addr ∈ (channelOnConnected t c a).connectorlist ↔
        (∃ d ∈ (channelOnConnected t c a).connector, d.addr = addr ∧ d.state = true) ∨
          (addr ≠ c.addr ∧ addr ∈ t.connectorlist) := by
  obtain ⟨hnodup, hmem⟩ := h.remove hc
  have hfreed : ∀ addr, addr ∈ unlisted t.connectorlist c ↔
      (∃ d ∈ (none : Option Connector), d.addr = addr ∧ d.state = true) ∨
        (addr ≠ c.addr ∧ addr ∈ t.connectorlist) := by
    intro addr
    rw [hmem]
    simp
  unfold channelOnConnected
  dsimp only
  split
  · split
    · exact ⟨fun d hd => absurd hd (Option.not_mem_none d), hnodup, hfreed⟩
    · exact ⟨fun d hd => absurd hd (Option.not_mem_none d), hnodup, hfreed⟩
  · split
    · exact ⟨fun d hd => absurd hd (Option.not_mem_none d), hnodup, hfreed⟩
    · -- it tries again, and is on the list from now on
      have hlisted := h.listed_iff hc
      refine ⟨fun d hd => ?_, ?_, fun addr => ?_⟩
      · cases Option.mem_some.mp hd
        rfl
      · show (if c.state then t.connectorlist else t.connectorlist ++ [c.addr]).Nodup
        split
        · exact h.list_nodup
        · rename_i hstate
          rw [List.nodup_append]
          refine ⟨h.list_nodup, List.nodup_singleton _, fun a ha b hb => ?_⟩
          rw [List.mem_singleton.mp hb]
          rintro rfl
          exact hstate (hlisted.mp ha)
      · simp only [Option.mem_def, Option.some.injEq, exists_eq_left']
        split
        · rename_i hstate
          have hon := hlisted.mpr hstate
          by_cases heq : addr = c.addr
          · subst heq
            simp [hon]
          · simp [heq, Ne.symm heq]
        · by_cases heq : addr = c.addr
          · subst heq
            simp
          · simp [heq, Ne.symm heq]

theorem kept_step {t t' : Thread} {e : Event} (h : t.Kept) (hallowed : Allowed t e)
    (hstep : step t e = some t') : t'.Kept := by
  cases e with
  | connect addr event fd inThread =>
    cases hstep
    exact kept_connect h hallowed event fd inThread
  | direct i =>
    obtain ⟨c, hc, hstep⟩ := Option.bind_eq_some_iff.mp hstep
    split at hstep
    · cases hstep
      have hkept := h.advance hc (connectDirect c) [] rfl rfl
        (fun r hr => (Int.sub_self (c.holds r)).symm) rfl
      rwa [List.append_nil] at hkept
    · cases hstep
  | connected i answers =>
    obtain ⟨c, hc, hstep⟩ := Option.bind_eq_some_iff.mp hstep
    split at hstep
    · cases hstep
      obtain ⟨haddr, hnodup, hlist⟩ := h.outcome_list (List.mem_of_getElem? hc) answers
      exact h.replace hc _ haddr _ hnodup hlist
        (fun r hr => balance_channelOnConnected (fun hwrite => hallowed hwrite c hc) hr)
        fun d hd _ => channelOnConnected_closed d hd
    · cases hstep
  | reconnect i fd =>
    obtain ⟨c, hc, hstep⟩ := Option.bind_eq_some_iff.mp hstep
    split at hstep
    · cases hstep
      rename_i hstage
      refine h.advance hc (reconnectDirect c fd) _ rfl rfl (fun r hr => ?_) rfl
      -- the descriptor of the last attempt was closed
      have hnone := h.closed c (List.mem_of_getElem? hc) hstage
      rw [balance_tcpConnectLog hr]
      unfold Connector.holds reconnectDirect
      dsimp only
      rw [if_neg hnone]
      omega
    · cases hstep

theorem kept_run {manager : SessionManager} {es : List Event} {t : Thread}
    (hrun : GuardedRun step Allowed { manager := manager } es t) : t.Kept := by
  have hstart : Thread.Kept { manager := manager } :=
    ⟨fun _ _ => rfl, List.nodup_nil, List.nodup_nil, by simp, by simp⟩
  exact hrun.invariant hstart fun _ _ _ h hallowed hstep => kept_step h hallowed hstep

/-! ## The end of the thread -/

theorem balance_freeLogs (r : Resource) (cs : List Connector) :
    balance r (cs.map freeLog).flatten = -held r cs := by
  induction cs with
  | nil => rfl
  | cons c cs ih =>
    rw [List.map_cons, List.flatten_cons, balance_append, balance_freeLog, ih, held_cons]
    omega

theorem held_filter (r : Resource) (p : Connector → Bool) (cs : List Connector) :
    held r cs = held r (cs.filter p) + held r (cs.filter fun c => !p c) := by
  induction cs with
  | nil => rfl
  | cons c cs ih =>
    rw [held_cons, ih]
    cases hp : p c <;> simp [hp] <;> omega

theorem holds_le_held (r : Resource) {cs : List Connector} {c : Connector} (hc : c ∈ cs) :
    c.holds r ≤ held r cs := by
  have hall : ∀ cs, 0 ≤ held r cs := by
    intro cs
    induction cs with
    | nil => exact Int.le_refl 0
    | cons c cs ih =>
      rw [held_cons]
      exact Int.add_nonneg (holds_nonneg r c) ih
  obtain ⟨before, after, rfl⟩ := List.append_of_mem hc
  rw [held_append, held_cons]
  have hbefore := hall before
  have hafter := hall after
  omega

/-- The list leads to each of its connectors once. -/
theorem Thread.Kept.listed_perm {t : Thread} (h : t.Kept) :
    (listed t).Perm (t.connectors.filter fun c => c.addr ∈ t.connectorlist) := by
  refine (List.perm_ext_iff_of_nodup ?_ ((List.Nodup.of_map _ h.nodup).filter _)).mpr fun c => ?_
  · refine h.list_nodup.filterMap fun addr addr' c hc hc' => ?_
    exact (h.find_iff.mp hc).2.symm.trans (h.find_iff.mp hc').2
  · unfold listed
    rw [List.mem_filterMap, List.mem_filter, decide_eq_true_iff]
    constructor
    · rintro ⟨addr, hlisted, hfind⟩
      obtain ⟨hc, rfl⟩ := h.find_iff.mp hfind
      exact ⟨hc, hlisted⟩
    · rintro ⟨hc, hlisted⟩
      exact ⟨c.addr, hlisted, h.find_iff.mpr ⟨hc, rfl⟩⟩

/-- What the end of the thread does not release is held by the connectors that are not on the
list. -/
theorem Thread.Kept.balance_stop {t : Thread} (h : t.Kept) {r : Resource} (hr : r ≠ .descriptor 0) :
    balance r (stop t).log = held r (stop t).connectors := by
  have hfilter := held_filter r (fun c => c.addr ∈ t.connectorlist) t.connectors
  have hperm : held r (listed t) = held r (t.connectors.filter fun c => c.addr ∈ t.connectorlist) :=
    (h.listed_perm.map _).sum_eq
  show balance r (t.log ++ ((listed t).map freeLog).flatten) =
    held r (t.connectors.filter fun c => c.addr ∉ t.connectorlist)
  rw [balance_append, balance_freeLogs, hperm, h.balance_eq r hr, hfilter]
  simp only [decide_not]
  omega

/-! ## First attempts -/

/-- A connector that failed before has its `state` set, and one that is still to be taken up has
not. -/
def Connector.Staged (c : Connector) : Prop :=
  (c.stage = .posted → c.state = false) ∧ (c.stage = .reconnecting → c.state = true)

theorem mem_of_mem_replaced {connectors : List Connector} {i : Nat} {c' : Option Connector}
    {d : Connector} (h : d ∈ replaced connectors i c') : d ∈ c' ∨ d ∈ connectors := by
  simp only [replaced, List.mem_append, Option.mem_toList] at h
  rcases h with (h | h) | h
  · exact .inr (List.mem_of_mem_take h)
  · exact .inl h
  · exact .inr (List.mem_of_mem_drop h)

theorem staged_step {t t' : Thread} {e : Event} (h : ∀ c ∈ t.connectors, c.Staged)
    (hstep : step t e = some t') : ∀ c ∈ t'.connectors, c.Staged := by
  -- the connector that changes is in a stage that fits, and the others stay
  have hreplaced : ∀ {i : Nat} {c' : Option Connector}, (∀ d ∈ c', d.Staged) →
      ∀ d ∈ replaced t.connectors i c', d.Staged :=
    fun hnew d hd => (mem_of_mem_replaced hd).elim (hnew d) (h d)
  cases e with
  | connect addr event fd inThread =>
    obtain rfl := Option.some.inj hstep
    unfold iolayerConnect
    split
    · exact h
    · split
      · exact h
      · intro c hc
        rcases List.mem_append.mp hc with hold | hnew
        · exact h c hold
        · rw [List.mem_singleton.mp hnew]
          refine ⟨fun _ => rfl, fun hstage => ?_⟩
          dsimp only at hstage
          split at hstage <;> cases hstage
  | direct i =>
    obtain ⟨c, hc, hstep⟩ := Option.bind_eq_some_iff.mp hstep
    split at hstep
    · obtain rfl := Option.some.inj hstep
      refine hreplaced fun d hd => ?_
      obtain rfl := Option.some.inj hd
      exact ⟨fun hstage => (nomatch hstage), fun hstage => (nomatch hstage)⟩
    · cases hstep
  | connected i answers =>
    obtain ⟨c, hc, hstep⟩ := Option.bind_eq_some_iff.mp hstep
    split at hstep
    · obtain rfl := Option.some.inj hstep
      refine hreplaced fun d hd => ?_
      -- what is left of it waits for its next attempt
      have hnext : d.stage = .reconnecting ∧ d.state = true := by
        unfold channelOnConnected at hd
        dsimp only at hd
        split at hd
        · split at hd <;> cases hd
        · split at hd
          · cases hd
          · obtain rfl := Option.some.inj hd
            exact ⟨rfl, rfl⟩
      refine ⟨fun hposted => ?_, fun _ => hnext.2⟩
      cases hnext.1.symm.trans hposted
    · cases hstep
  | reconnect i fd =>
    obtain ⟨c, hc, hstep⟩ := Option.bind_eq_some_iff.mp hstep
    split at hstep
    · obtain rfl := Option.some.inj hstep
      refine hreplaced fun d hd => ?_
      obtain rfl := Option.some.inj hd
      exact ⟨fun hstage => (nomatch hstage), fun hstage => (nomatch hstage)⟩
    · cases hstep

theorem staged_run {manager : SessionManager} {es : List Event} {t : Thread}
    (hrun : GuardedRun step Allowed { manager := manager } es t) : ∀ c ∈ t.connectors, c.Staged :=
  hrun.invariant (I := fun t => ∀ c ∈ t.connectors, c.Staged) (fun _ hc => (nomatch hc))
    fun _ _ _ h _ hstep => staged_step h hstep

/-! ## Main results -/

instance (t : Thread) (e : Event) : Decidable (Allowed t e) :=
  match e with
  | .connect addr _ _ _ => inferInstanceAs (Decidable (∀ c ∈ t.connectors, c.addr ≠ addr))
  | .connected i answers =>
    inferInstanceAs (Decidable (answers.write = true → ∀ c ∈ t.connectors[i]?, 0 ≤ c.fd))
  | .direct _ | .reconnect _ _ => .isTrue trivial

/-- One connector fails and tries again, and its second connection gets a session; another one is
in its first attempt. -/
def attempts : List Event :=
  [.connect 1 true 5 true, .connected 0 { write := false, session := 0 }, .connect 2 true 6 false,
    .reconnect 0 7, .direct 1, .connected 0 { write := true, session := 9 },
    .connect 3 true 8 true, .connected 1 { write := true, connected := false, session := 0 }]

theorem attempts_run : ∃ t, GuardedRun step Allowed { manager := .create 0 4 } attempts t ∧
    t.connectors.map Connector.fd = [6, -1] ∧ t.connectorlist = [3] := by
  have hrun : ((guardedExec step Allowed { manager := .create 0 4 } attempts).any fun t =>
      decide (t.connectors.map Connector.fd = [6, -1] ∧ t.connectorlist = [3])) = true := by
    decide +kernel
  obtain ⟨t, hexec, hend⟩ := (Option.any_eq_true _ _).mp hrun
  exact ⟨t, .of_exec hexec, of_decide_eq_true hend⟩

/-- In every run: every session that was allocated was started or ended again; of every object
and every descriptor that was acquired and neither released nor handed over, a live connector
has it; and the list has those connectors, each once, whose `state` says so. -/
theorem connectors_accounted {manager : SessionManager} {es : List Event} {t : Thread}
    (hrun : GuardedRun step Allowed { manager := manager } es t) :
    (∀ a, balance (.session a) t.log = 0) ∧
      (∀ addr, balance (.connector addr) t.log = t.connectors.countP fun c => c.addr = addr) ∧
      (∀ fd : Int, 0 < fd →
        balance (.descriptor fd) t.log = t.connectors.countP fun c => c.fd = fd) ∧
      t.connectorlist.Nodup ∧
      ∀ addr, addr ∈ t.connectorlist ↔ ∃ c ∈ t.connectors, c.addr = addr ∧ c.state = true := by
  have h := kept_run hrun
  refine ⟨fun a => ?_, fun addr => ?_, fun fd hpos => ?_, h.list_nodup, h.mem_list⟩
  · rw [h.balance_eq _ (by simp)]
    induction t.connectors with
    | nil => rfl
    | cons c cs ih => simp [ih, Connector.holds, unit]
  · rw [h.balance_eq _ (by simp)]
    induction t.connectors with
    | nil => rfl
    | cons c cs ih =>
      rw [held_cons, ih, List.countP_cons]
      by_cases heq : c.addr = addr
      · simp [heq, Connector.holds, unit]
        omega
      · simp [heq, Connector.holds, unit]
  · rw [h.balance_eq _ (by simp; omega)]
    induction t.connectors with
    | nil => rfl
    | cons c cs ih =>
      rw [held_cons, ih, List.countP_cons]
      by_cases heq : c.fd = fd
      · simp [heq, Connector.holds, unit, hpos]
        omega
      · simp [heq, Connector.holds, unit]

/-- The descriptors `5`, `7` and `8` are gone, and `6` is still open. -/
theorem connectors_accounted_attempts :
    ∃ t, GuardedRun step Allowed { manager := .create 0 4 } attempts t ∧
      balance (.session 9) t.log = 0 ∧ balance (.descriptor 6) t.log = 1 ∧
      balance (.descriptor 7) t.log = 0 := by
  obtain ⟨t, hrun, hfds, -⟩ := attempts_run
  obtain ⟨hsession, -, hdescriptor, -⟩ := connectors_accounted hrun
  have hcount : ∀ fd : Int, (t.connectors.countP fun c => c.fd = fd) =
      (t.connectors.map Connector.fd).countP fun fd' => fd' = fd := by
    intro fd
    rw [List.countP_map]
    rfl
  refine ⟨t, hrun, hsession 9, ?_, ?_⟩
  · rw [hdescriptor 6 (by decide), hcount, hfds]
    decide
  · rw [hdescriptor 7 (by decide), hcount, hfds]
    decide

/-- The end of the thread leaves nothing behind if and only if every live connector is on the
list. What it leaves is what those hold that are not on it: they never failed, being in their
first attempt or in the queue of the thread, and none that is in the queue is on the list. -/
theorem stop_settled_iff {manager : SessionManager} {es : List Event} {t : Thread}
    (hrun : GuardedRun step Allowed { manager := manager } es t) :
    ((∀ r, r ≠ .descriptor 0 → balance r (stop t).log = 0) ↔ ∀ c ∈ t.connectors, c.state = true) ∧
    (∀ r, r ≠ .descriptor 0 →
      balance r (stop t).log = held r (t.connectors.filter fun c => !c.state)) ∧
    (∀ c ∈ t.connectors, c.addr ∈ t.connectorlist ↔ c.state = true) ∧
    ∀ c ∈ t.connectors, (c.stage = .posted → c.state = false) ∧
      (c.state = false → c.stage = .posted ∨ c.stage = .connecting) := by
  have h := kept_run hrun
  have hleft : (stop t).connectors = t.connectors.filter fun c => !c.state := by
    refine List.filter_congr fun c hc => ?_
    have hiff := h.listed_iff hc
    cases hstate : c.state <;> simp_all
  refine ⟨?_, fun r hr => by rw [h.balance_stop hr, hleft], fun c hc => h.listed_iff hc, fun c hc => ?_⟩
  swap
  · obtain ⟨hposted, hagain⟩ := staged_run hrun c hc
    refine ⟨hposted, fun hstate => ?_⟩
    cases hstage : c.stage with
    | posted => exact .inl rfl
    | connecting => exact .inr rfl
    | reconnecting => exact absurd (hstate.symm.trans (hagain hstage)) (by decide)
  constructor
  · intro hsettled c hc
    rw [← h.listed_iff hc]
    by_contra hunlisted
    have hleft : c ∈ (stop t).connectors := List.mem_filter.mpr ⟨hc, decide_eq_true hunlisted⟩
    -- its object is still there
    have hle := holds_le_held (.connector c.addr) hleft
    rw [← h.balance_stop (by simp), hsettled _ (by simp)] at hle
    simp [Connector.holds, unit] at hle
  · intro hall r hr
    have hnone : (stop t).connectors = [] :=
      List.filter_eq_nil_iff.mpr fun c hc => by simp [(h.listed_iff hc).mpr (hall c hc)]
    rw [h.balance_stop hr, hnone]
    rfl

/-- So the connector in its first attempt is left behind. -/
theorem stop_settled_iff_attempts :
    ∃ t, GuardedRun step Allowed { manager := .create 0 4 } attempts t ∧
      ¬∀ r, r ≠ .descriptor 0 → balance r (stop t).log = 0 := by
  obtain ⟨t, hrun, hfds, hlist⟩ := attempts_run
  refine ⟨t, hrun, fun hsettled => ?_⟩
  have hall := (stop_settled_iff hrun).1.mp hsettled
  have hlength := congrArg List.length hfds
  rw [List.length_map] at hlength
  have h := kept_run hrun
  -- both connectors would be on the list
  have hsub : t.connectors.map Connector.addr ⊆ t.connectorlist := by
    intro addr haddr
    obtain ⟨c, hc, rfl⟩ := List.mem_map.mp haddr
    exact (h.listed_iff hc).mpr (hall c hc)
  have hle := (List.subperm_of_subset h.nodup hsub).length_le
  rw [List.length_map, hlength, hlist] at hle
  exact absurd hle (by decide)

end Connect

end Evlite
