import Evlite.Event.View
import Mathlib.Algebra.Group.Nat.Defs
import Mathlib.Logic.Function.Basic

/-!
# Event Sets

`struct eventset` with its timer wheel (`event.c`, `timer.c`). Events are known by their
addresses. The three intrusive lists are lists of addresses, and the wheel has one such
list for each bucket.

What the poller reports, what its functions `add` and `del` answer, the readings of the
clock and what the callbacks do to the events of the set are inputs. A call that the source
rules out by an assertion leaves the set as it is. The results that no caller reads, those
of `event_queue_insert`, `event_queue_remove`, `evtimer_append` and `evtimer_remove`, are
left out. `trace` and `lastAdd` are not part of the source: they remember the activations, the
calls of callbacks and the timeouts given to `evsets_add`, and nothing reads them back.
-/

namespace Evlite

/-! ## Events and the wheel -/

/-- `struct event` -/
structure Event (κ : Type) extends EventView κ where
  /-- `evsets != NULL` -/
  evsets : Bool := false
  timerIndex : Int := -1
  timerStepcnt : Int := -1
  /-- Not a field of the source: the timeout of the most recent `evsets_add`. -/
  lastAdd : Option Int := none
deriving DecidableEq, Repr

/-- `struct evtimer` -/
structure EvTimer where
  eventCount : Int := 0
  bucketCount : Nat
  maxPrecision : Int
  dispatchRefer : BitVec 32 := 0
  bucketArray : Nat → List Nat := fun _ => []

namespace EvTimer

/-- `EVTIMER_INDEX` -/
def evtimerIndex (t : EvTimer) (c : BitVec 32) : Nat :=
  (c &&& (BitVec.ofNat 32 t.bucketCount - 1)).toNat

theorem evtimerIndex_lt (t : EvTimer) (hpos : 1 ≤ t.bucketCount)
    (hfits : t.bucketCount ≤ 2 ^ 32) (c : BitVec 32) : t.evtimerIndex c < t.bucketCount := by
  have hmask : (BitVec.ofNat 32 t.bucketCount - 1).toNat = t.bucketCount - 1 := by
    rw [BitVec.toNat_sub, BitVec.toNat_ofNat]
    show (2 ^ 32 - 1 + t.bucketCount % 2 ^ 32) % 2 ^ 32 = _
    omega
  have hle : t.evtimerIndex c ≤ t.bucketCount - 1 := by
    rw [evtimerIndex, BitVec.toNat_and, hmask]
    exact Nat.and_le_right
  omega

/-- Replace one bucket. -/
def setBucket (t : EvTimer) (b : Nat) (l : List Nat) : EvTimer :=
  { t with bucketArray := Function.update t.bucketArray b l }

/-- The time `evtimer_append` counts with: at least one precision. -/
def roundedUp (t : EvTimer) (tv : Int) : Int := if tv < t.maxPrecision then t.maxPrecision else tv

/-- The bucket `evtimer_append` computes for the timeout `tv`. -/
def indexFor (t : EvTimer) (tv : Int) : Nat :=
  t.evtimerIndex (t.dispatchRefer - 1 + BitVec.ofInt 32 ((t.roundedUp tv).tdiv t.maxPrecision))

/-- The step count `evtimer_append` computes for the timeout `tv`. -/
def stepcntFor (t : EvTimer) (tv : Int) : Int :=
  let revolution := t.maxPrecision * t.bucketCount
  (t.roundedUp tv).tdiv revolution + if (t.roundedUp tv).tmod revolution ≠ 0 then 1 else 0

/-- Link `ev` at the end of a bucket. -/
def link (t : EvTimer) (b ev : Nat) : EvTimer :=
  { t.setBucket b (t.bucketArray b ++ [ev]) with eventCount := t.eventCount + 1 }

/-- Take `ev` out of a bucket. -/
def unlink (t : EvTimer) (b ev : Nat) : EvTimer :=
  { t.setBucket b ((t.bucketArray b).erase ev) with eventCount := t.eventCount - 1 }

theorem setBucket_bucketArray (t : EvTimer) (b c : Nat) (l : List Nat) :
    (t.setBucket b l).bucketArray c = if c = b then l else t.bucketArray c :=
  Function.update_apply t.bucketArray b l c

@[simp] theorem link_bucketCount (t : EvTimer) (b ev : Nat) :
    (t.link b ev).bucketCount = t.bucketCount := rfl

theorem link_bucketArray (t : EvTimer) (b c ev : Nat) :
    (t.link b ev).bucketArray c =
      if c = b then t.bucketArray b ++ [ev] else t.bucketArray c :=
  setBucket_bucketArray t b c _

theorem unlink_bucketArray (t : EvTimer) (b c ev : Nat) :
    (t.unlink b ev).bucketArray c =
      if c = b then (t.bucketArray b).erase ev else t.bucketArray c :=
  setBucket_bucketArray t b c _

end EvTimer

/-- What happens to the events of a set. -/
inductive EventEffect where
  /-- `event_active( ev, res )`; the most recent `evsets_add` of the event was called with
  the timeout `lastAdd`. -/
  | activate (ev : Nat) (res : EvMask) (lastAdd : Option Int)
  /-- The callback of `ev` is called with these results. -/
  | invoke (ev : Nat) (results : EvMask)
deriving DecidableEq, Repr

/-- `EVSTATUS_INSERTED`, `EVSTATUS_TIMER` and `EVSTATUS_ACTIVE`, as the third argument of
`event_queue_insert` and `event_queue_remove`. -/
inductive QueueType where
  | inserted
  | timer
  | active
deriving DecidableEq, Repr

/-- `struct eventset` -/
structure EventSet (κ : Type) where
  timerPrecision : Int
  expireTime : Int
  coreTimer : EvTimer
  event : Nat → Event κ := fun _ => {}
  eventlist : List Nat := []
  activelist : List Nat := []
  trace : List EventEffect := []

/-- `TIMER_BUCKET_COUNT` -/
def timerBucketCount : Nat := 8192

namespace EventSet

variable {κ : Type}

/-- `evsets_create`, at the time `now`. -/
def evsetsCreate (precision now : Int) : EventSet κ where
  timerPrecision := precision
  expireTime := now + precision
  coreTimer := { bucketCount := timerBucketCount, maxPrecision := precision }

/-- Change one event. -/
def modify (s : EventSet κ) (ev : Nat) (f : Event κ → Event κ) : EventSet κ :=
  { s with event := Function.update s.event ev (f (s.event ev)) }

/-- Replace the wheel. -/
def setTimer (s : EventSet κ) (t : EvTimer) : EventSet κ := { s with coreTimer := t }

/-- Record an effect. -/
def emit (s : EventSet κ) (e : EventEffect) : EventSet κ := { s with trace := s.trace ++ [e] }

/-! ## The timer wheel -/

/-- `evtimer_append` -/
def evtimerAppend (s : EventSet κ) (ev : Nat) : EventSet κ :=
  let t := s.coreTimer
  let tv := (s.event ev).timerMsecs
  if tv < 0 then s
  else
    (s.modify ev fun e =>
      { e with timerIndex := t.indexFor tv, timerStepcnt := t.stepcntFor tv }).setTimer
        (t.link (t.indexFor tv) ev)

/-- `evtimer_remove` -/
def evtimerRemove (s : EventSet κ) (ev : Nat) : EventSet κ :=
  let t := s.coreTimer
  let index := (s.event ev).timerIndex
  -- the event is in no bucket
  if index < 0 ∨ (t.bucketCount : Int) ≤ index then s
  else
    (s.modify ev fun e => { e with timerIndex := -1, timerStepcnt := -1 }).setTimer
      (t.unlink index.toNat ev)

/-! ## The lists -/

/-- The bit of `status` that stands for a list. -/
def status (e : Event κ) : QueueType → Bool
  | .inserted => e.inserted
  | .timer => e.timer
  | .active => e.active

/-- Set or clear a bit of `status`. -/
def setStatus (s : EventSet κ) (ev : Nat) (type : QueueType) (b : Bool) : EventSet κ :=
  s.modify ev fun e =>
    match type with
    | .inserted => { e with inserted := b }
    | .timer => { e with timer := b }
    | .active => { e with active := b }

/-- `event_queue_insert` -/
def eventQueueInsert (s : EventSet κ) (ev : Nat) (type : QueueType) : EventSet κ :=
  if status (s.event ev) type then s
  else
    let s := s.setStatus ev type true
    match type with
    | .inserted => { s with eventlist := s.eventlist ++ [ev] }
    | .active => { s with activelist := s.activelist ++ [ev] }
    | .timer => s.evtimerAppend ev

/-- `event_queue_remove` -/
def eventQueueRemove (s : EventSet κ) (ev : Nat) (type : QueueType) : EventSet κ :=
  if status (s.event ev) type then
    let s := s.setStatus ev type false
    match type with
    | .inserted => { s with eventlist := s.eventlist.erase ev }
    | .active => { s with activelist := s.activelist.erase ev }
    | .timer => s.evtimerRemove ev
  else s

/-- `event_active` -/
def eventActive (s : EventSet κ) (ev : Nat) (res : EvMask) : EventSet κ :=
  let s := s.emit (.activate ev res (s.event ev).lastAdd)
  -- an event that is active already collects the results
  if (s.event ev).active then s.modify ev fun e => { e with results := e.results.union res }
  else (s.modify ev fun e => { e with results := res }).eventQueueInsert ev .active

/-! ## evtimer_dispatch -/

/-- One round of the loop of `evtimer_dispatch` over the bucket `b`, with the event `ev` at
its head. -/
def evtimerDispatchOne (s : EventSet κ) (b ev : Nat) (rc : Int) : EventSet κ × Int :=
  let s := s.modify ev fun e => { e with timerStepcnt := e.timerStepcnt - 1 }
  let step := (s.event ev).timerStepcnt
  -- another revolution to wait for: the event goes to the end of its bucket
  if 0 < step then
    (s.setTimer (s.coreTimer.setBucket b ((s.coreTimer.bucketArray b).erase ev ++ [ev])), rc)
  else
    let s := (s.evtimerRemove ev).setStatus ev .timer false
    -- a count below zero is an error, which is only logged
    if step = 0 then (s.eventActive ev .evTimeout, rc + 1) else (s, rc)

/-- The loop of `evtimer_dispatch`, which ends after the event `laster`. There are at most
`fuel` events in the bucket. -/
def evtimerDispatchLoop (b laster : Nat) : Nat → EventSet κ → Int → EventSet κ × Int
  | 0, s, rc => (s, rc)
  | fuel + 1, s, rc =>
    match s.coreTimer.bucketArray b with
    | [] => (s, rc)
    | ev :: _ =>
      let r := s.evtimerDispatchOne b ev rc
      if ev = laster then r else evtimerDispatchLoop b laster fuel r.1 r.2

/-- `evtimer_dispatch` -/
def evtimerDispatch (s : EventSet κ) : EventSet κ × Int :=
  let t := s.coreTimer
  let b := t.evtimerIndex t.dispatchRefer
  -- the counter moves on, also when the bucket is empty
  let s := s.setTimer { t with dispatchRefer := t.dispatchRefer + 1 }
  match (t.bucketArray b).getLast? with
  | none => (s, 0)
  | some laster => evtimerDispatchLoop b laster (t.bucketArray b).length s 0

/-! ## evsets_add, evsets_del -/

/-- The part of `evsets_add` that watches the descriptor; `pollAdd` tells whether the poller
takes it. -/
def addPoll (s : EventSet κ) (ev : Nat) (pollAdd : Bool) : EventSet κ × Int :=
  let e := s.event ev
  if 0 < e.fd ∧ (e.events.read || e.events.write) ∧ !(e.active || e.inserted) then
    if pollAdd then (s.eventQueueInsert ev .inserted, 1) else (s, 0)
  else (s, 0)

/-- The part of `evsets_add` that arms the timer. -/
def addTimer (s : EventSet κ) (ev : Nat) (tv : Int) : EventSet κ × Int :=
  if 0 ≤ tv then
    let s := s.eventQueueRemove ev .timer
    -- a timeout already reported is taken off the active list
    let s := if (s.event ev).results.timeout then s.eventQueueRemove ev .active else s
    ((s.modify ev fun e => { e with timerMsecs := tv }).eventQueueInsert ev .timer, 2)
  else (s, 0)

/-- `evsets_add` -/
def evsetsAdd (s : EventSet κ) (ev : Nat) (tv : Int) (pollAdd : Bool) : EventSet κ × Int :=
  let s := s.modify ev fun e => { e with evsets := true, lastAdd := some tv }
  let r := s.addPoll ev pollAdd
  let r' := r.1.addTimer ev tv
  (r'.1, r.2 + r'.2)

/-- `evsets_del`; `pollDel` is what the poller answers. -/
def evsetsDel (s : EventSet κ) (ev : Nat) (pollDel : Int) : EventSet κ × Int :=
  let s := (s.eventQueueRemove ev .timer).eventQueueRemove ev .active
  if (s.event ev).inserted then (s.eventQueueRemove ev .inserted, pollDel) else (s, 0)

/-- `event_reset` -/
def eventReset (s : EventSet κ) (ev : Nat) (pollDel : Int) : EventSet κ :=
  (if (s.event ev).evsets then (s.evsetsDel ev pollDel).1 else s).modify ev
    fun e => { lastAdd := e.lastAdd }

end EventSet

/-! ## Operations on events -/

/-- A call on one event. An event that was destroyed is one that `event_create` can return
again, with the same contents as any new event. -/
inductive EventOp (κ : Type) where
  | add (ev : Nat) (tv : Int) (pollAdd : Bool)
  | del (ev : Nat) (pollDel : Int)
  | set (ev : Nat) (fd : Int) (events : EvMask)
  | setCallback (ev : Nat) (cb : κ)
  | reset (ev : Nat) (pollDel : Int)
  /-- `event_destroy`, on an event that is in none of the lists. -/
  | destroy (ev : Nat)
deriving DecidableEq, Repr

namespace EventSet

variable {κ : Type}

/-- The effect of a call. -/
def runOp (s : EventSet κ) : EventOp κ → EventSet κ
  | .add ev tv pollAdd => if (s.event ev).cb.isSome then (s.evsetsAdd ev tv pollAdd).1 else s
  | .del ev pollDel => if (s.event ev).evsets then (s.evsetsDel ev pollDel).1 else s
  | .set ev fd events => s.modify ev fun e => { e with fd := fd, events := events }
  | .setCallback ev cb => s.modify ev fun e => { e with cb := some cb }
  | .reset ev pollDel => s.eventReset ev pollDel
  | .destroy ev => if (s.event ev).linked then s else s.modify ev fun _ => {}

/-- A list of calls, one after the other. -/
def runOps (s : EventSet κ) (ops : List (EventOp κ)) : EventSet κ := ops.foldl runOp s

/-! ## evsets_process_active, evsets_dispatch -/

/-- What `evsets_process_active` does to an event before it runs the callback. -/
def beforeCallback (s : EventSet κ) (ev : Nat) : EventSet κ :=
  if !(s.event ev).events.persist then (s.evsetsDel ev 0).1
  else
    let s := s.eventQueueRemove ev .active
    if 0 ≤ (s.event ev).timerMsecs then
      -- after a timeout the event has left the wheel, otherwise it is taken out
      let s := if !(s.event ev).results.timeout then s.eventQueueRemove ev .timer else s
      s.eventQueueInsert ev .timer
    else s

/-- One round of the loop of `evsets_process_active`, with the event `ev` at the head of the
active list; `ops` is what its callback does. -/
def processOne (s : EventSet κ) (ev : Nat) (ops : List (EventOp κ)) : EventSet κ :=
  let s := s.beforeCallback ev
  -- the callback is called with the results that are left then
  (s.emit (.invoke ev (s.event ev).results)).runOps ops

/-- The loop of `evsets_process_active`, in which at most `fuel` callbacks are run; each
takes its behaviour from the list `callbacks`. -/
def processActiveLoop : Nat → List (List (EventOp κ)) → EventSet κ → Int → EventSet κ × Int
  | 0, _, s, rc => (s, rc)
  | fuel + 1, callbacks, s, rc =>
    match s.activelist with
    | [] => (s, rc)
    | ev :: _ => processActiveLoop fuel callbacks.tail (s.processOne ev (callbacks.headD [])) (rc + 1)

/-- `evsets_process_active` -/
def evsetsProcessActive (s : EventSet κ) (callbacks : List (List (EventOp κ))) :
    EventSet κ × Int :=
  processActiveLoop s.activelist.length callbacks s 0

/-- The poller activates an event that it watches, for reading or for writing. -/
def pollReport (s : EventSet κ) (ev : Nat) (res : EvMask) : EventSet κ :=
  if (s.event ev).inserted then s.eventActive ev { read := res.read, write := res.write } else s

/-- `evsets_dispatch`: the poller reports, the clock shows `now` after that. -/
def evsetsDispatch (s : EventSet κ) (reports : List (Nat × EvMask)) (now : Int)
    (callbacks : List (List (EventOp κ))) : EventSet κ × Int :=
  let s := reports.foldl (fun s r => s.pollReport r.1 r.2) s
  let s := if s.expireTime ≤ now then
      { s.evtimerDispatch.1 with expireTime := now + s.timerPrecision }
    else s
  s.evsetsProcessActive callbacks

end EventSet

end Evlite
