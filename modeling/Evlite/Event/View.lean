import Mathlib.Tactic.Common

/-!
# One Event, as its Owner Sees It

`struct event` (`event-internal.h`) restricted to what the owner of an event can rely on:
the descriptor and the mask it was set to, its callback, the three membership bits of
`status`, the results collected while it is active, and `timer_msecs`. The bucket index
and the revolution count, which only the timer wheel reads, are left to
`Evlite.Event.Set`.

Membership of the event list, of the timer wheel and of the active list is what the bits
`EVSTATUS_INSERTED`, `EVSTATUS_TIMER` and `EVSTATUS_ACTIVE` record, so `evsets_add` and
`evsets_del` act on one event as functions of these bits. An event is `linked` while it is
a member of at least one of the three lists: freeing it then leaves a dangling link.
-/

namespace Evlite

/-! ## Masks -/

/-- The `EV_*` bits of an `int16_t` event mask. -/
structure EvMask where
  read : Bool := false
  write : Bool := false
  timeout : Bool := false
  persist : Bool := false
deriving DecidableEq, Repr

namespace EvMask

/-- `EV_READ` -/
def evRead : EvMask := { read := true }

/-- `EV_WRITE` -/
def evWrite : EvMask := { write := true }

/-- `EV_TIMEOUT` -/
def evTimeout : EvMask := { timeout := true }

/-- Bitwise or. -/
def union (a b : EvMask) : EvMask :=
  { read := a.read || b.read
    write := a.write || b.write
    timeout := a.timeout || b.timeout
    persist := a.persist || b.persist }

end EvMask

/-! ## Events -/

/-- `struct event` as its owner sees it; `κ` is the type of the installed callbacks. -/
structure EventView (κ : Type) where
  fd : Int := -1
  events : EvMask := {}
  cb : Option κ := none
  /-- `EVSTATUS_INSERTED` -/
  inserted : Bool := false
  /-- `EVSTATUS_TIMER` -/
  timer : Bool := false
  /-- `EVSTATUS_ACTIVE` -/
  active : Bool := false
  results : EvMask := {}
  timerMsecs : Int := -1
deriving DecidableEq, Repr

namespace EventView

variable {κ : Type}

/-- The event is a member of one of the lists of its event set. -/
def linked (e : EventView κ) : Bool := e.inserted || e.timer || e.active

/-- `event_set` -/
def eventSet (e : EventView κ) (fd : Int) (ev : EvMask) : EventView κ :=
  { e with fd := fd, events := ev }

/-- `event_set_callback` -/
def eventSetCallback (e : EventView κ) (cb : κ) : EventView κ := { e with cb := some cb }

/-- `event_active` -/
def eventActive (e : EventView κ) (res : EvMask) : EventView κ :=
  if e.active then { e with results := e.results.union res }
  else { e with results := res, active := true }

/-- The part of `evsets_add` that watches the descriptor; `takes` tells whether the poller's
`add` returns `0`. -/
def addPoll (e : EventView κ) (takes : Bool) : EventView κ :=
  if 0 < e.fd ∧ (e.events.read || e.events.write) ∧ !(e.active || e.inserted) then
    { e with inserted := takes }
  else e

/-- The part of `evsets_add` that arms the timer. -/
def addTimer (e : EventView κ) (tv : Int) : EventView κ :=
  if 0 ≤ tv then
    -- a timeout already reported is taken off the active list
    { e with
      active := e.active && !e.results.timeout
      timerMsecs := tv
      timer := true }
  else e

/-- `evsets_add` -/
def evsetsAdd (e : EventView κ) (takes : Bool) (tv : Int) : EventView κ := (e.addPoll takes).addTimer tv

/-- `evsets_del` -/
def evsetsDel (e : EventView κ) : EventView κ :=
  { e with timer := false, active := false, inserted := false }

/-- What `evtimer_dispatch` does to an event whose timer expires. -/
def timerExpire (e : EventView κ) : EventView κ :=
  { e with timer := false }.eventActive .evTimeout

/-- What `evsets_process_active` does to the event before it runs the callback. -/
def processActive (e : EventView κ) : EventView κ :=
  if e.events.persist then
    -- a remembered timeout re-arms a persistent event
    { e with active := false, timer := e.timer || decide (0 ≤ e.timerMsecs) }
  else e.evsetsDel

/-! ## What the operations leave alone -/

section Fields

variable (e : EventView κ) (takes : Bool) (fd tv : Int) (ev res : EvMask) (cb : κ)

@[simp] theorem evsetsAdd_fd : (e.evsetsAdd takes tv).fd = e.fd := by
  simp only [evsetsAdd, addTimer, addPoll]; split <;> split <;> rfl

@[simp] theorem evsetsAdd_events : (e.evsetsAdd takes tv).events = e.events := by
  simp only [evsetsAdd, addTimer, addPoll]; split <;> split <;> rfl

@[simp] theorem evsetsAdd_cb : (e.evsetsAdd takes tv).cb = e.cb := by
  simp only [evsetsAdd, addTimer, addPoll]; split <;> split <;> rfl

@[simp] theorem evsetsDel_events : e.evsetsDel.events = e.events := rfl
@[simp] theorem evsetsDel_cb : e.evsetsDel.cb = e.cb := rfl
@[simp] theorem evsetsDel_linked : e.evsetsDel.linked = false := rfl

@[simp] theorem eventSet_linked : (e.eventSet fd ev).linked = e.linked := rfl
@[simp] theorem eventSet_fd : (e.eventSet fd ev).fd = fd := rfl
@[simp] theorem eventSet_events : (e.eventSet fd ev).events = ev := rfl
@[simp] theorem eventSet_cb : (e.eventSet fd ev).cb = e.cb := rfl
@[simp] theorem eventSetCallback_linked : (e.eventSetCallback cb).linked = e.linked := rfl
@[simp] theorem eventSetCallback_fd : (e.eventSetCallback cb).fd = e.fd := rfl
@[simp] theorem eventSetCallback_events : (e.eventSetCallback cb).events = e.events := rfl
@[simp] theorem eventSetCallback_cb : (e.eventSetCallback cb).cb = some cb := rfl
@[simp] theorem eventActive_fd : (e.eventActive res).fd = e.fd := by
  unfold eventActive; split <;> rfl

@[simp] theorem eventActive_events : (e.eventActive res).events = e.events := by
  unfold eventActive; split <;> rfl

@[simp] theorem eventActive_cb : (e.eventActive res).cb = e.cb := by
  unfold eventActive; split <;> rfl

@[simp] theorem eventActive_linked : (e.eventActive res).linked = true := by
  unfold eventActive linked; split <;> simp_all

@[simp] theorem eventActive_inserted : (e.eventActive res).inserted = e.inserted := by
  unfold eventActive; split <;> rfl

@[simp] theorem timerExpire_inserted : e.timerExpire.inserted = e.inserted := by
  simp [timerExpire]

@[simp] theorem timerExpire_events : e.timerExpire.events = e.events := by simp [timerExpire]
@[simp] theorem timerExpire_cb : e.timerExpire.cb = e.cb := by simp [timerExpire]
@[simp] theorem timerExpire_linked : e.timerExpire.linked = true := by simp [timerExpire]

@[simp] theorem processActive_events : e.processActive.events = e.events := by
  unfold processActive; split <;> rfl

@[simp] theorem processActive_cb : e.processActive.cb = e.cb := by
  unfold processActive; split <;> rfl

end Fields

/-! ## Membership after the operations -/

/-- Adding an event with a descriptor to watch links it, if the poller takes it. -/
theorem linked_evsetsAdd_of_poll (e : EventView κ) (tv : Int) (hfd : 0 < e.fd)
    (hev : (e.events.read || e.events.write) = true) : (e.evsetsAdd true tv).linked = true := by
  have hpoll : (e.addPoll true).inserted = true ∨ (e.addPoll true = e ∧ e.active = true) := by
    simp only [addPoll, hfd, hev, true_and, Bool.not_eq_true']
    cases hactive : e.active <;> cases hins : e.inserted <;> simp [hins]
  rcases hpoll with h | ⟨h, hactive⟩
  · simp only [evsetsAdd, addTimer, linked]
    split <;> simp [h]
  · simp only [evsetsAdd, addTimer, linked, h]
    split <;> simp [hactive]

/-- Adding an event with a descriptor to watch leaves it with the poller, if the poller takes
it, and it is not active without being there. -/
theorem inserted_evsetsAdd (e : EventView κ) (tv : Int) (hfd : 0 < e.fd)
    (hev : (e.events.read || e.events.write) = true)
    (hactive : e.active = true → e.inserted = true) : (e.evsetsAdd true tv).inserted = true := by
  have hpoll : (e.addPoll true).inserted = true := by
    simp only [addPoll, hfd, hev, true_and, Bool.not_eq_true']
    cases ha : e.active <;> cases hi : e.inserted <;> simp_all
  unfold evsetsAdd addTimer
  split <;> exact hpoll

/-- Adding an event with a timeout links it. -/
theorem linked_evsetsAdd_of_timer (e : EventView κ) (takes : Bool) (tv : Int) (htv : 0 ≤ tv) :
    (e.evsetsAdd takes tv).linked = true := by
  simp [evsetsAdd, addTimer, linked, htv]

/-- A persistent event that is with the poller stays there. -/
theorem processActive_inserted_of_persist (e : EventView κ) (h : e.events.persist = true) :
    e.processActive.inserted = e.inserted := by
  simp [processActive, h]

/-- A one-shot event is in no list when its callback runs. -/
theorem processActive_linked_of_oneshot (e : EventView κ) (h : e.events.persist = false) :
    e.processActive.linked = false := by
  simp [processActive, h]

/-- Arming a timeout leaves exactly that timeout pending. -/
theorem evsetsAdd_timer (e : EventView κ) (takes : Bool) (tv : Int) (htv : 0 ≤ tv) :
    (e.evsetsAdd takes tv).timer = true ∧ (e.evsetsAdd takes tv).timerMsecs = tv := by
  simp [evsetsAdd, addTimer, htv]

end EventView

end Evlite
