import Evlite.Event.Epoll

/-!
# The kqueue Back End

`kqueue.c` queues its changes until the next call of `kevent`, and remembers in one bit of the
status of an event, `EVSTATUS_X_KQINKERNEL`, that the kernel has something of it: one knote for
each direction the event waits for. The bit goes when the first of them is delivered or deleted.
`ε` is the type of the addresses of events.

The kernel is a table of knotes with one place for each descriptor and filter. A call of `kevent`
applies the queued changes and delivers some of the knotes, and those that were added with
`EV_ONESHOT` are gone with that.

## Main results

- `queueBoth_changed`: the changes that `kqueue_add` and `kqueue_del` queue for an event.
- `dispatchLoop_dispatched`: what a dispatch does to the events that were reported.
-/

namespace Evlite

/-! ## The kernel -/

/-- `EVFILT_READ` and `EVFILT_WRITE` -/
inductive KFilter where
  | evfiltRead
  | evfiltWrite
deriving DecidableEq, Repr

/-- The other filter. -/
def KFilter.other : KFilter → KFilter
  | .evfiltRead => .evfiltWrite
  | .evfiltWrite => .evfiltRead

/-- What the kernel keeps for a descriptor and a filter. -/
structure Knote (ε : Type) where
  udata : ε
  /-- `EV_ONESHOT` -/
  oneshot : Bool
deriving DecidableEq, Repr

abbrev Knotes (ε : Type) := Int × KFilter → Option (Knote ε)

/-- `EV_ADD` or `EV_DELETE` -/
inductive KAction (ε : Type) where
  | evAdd (knote : Knote ε)
  | evDelete
deriving DecidableEq, Repr

/-- `struct kevent`, as a change. -/
structure Kevent (ε : Type) where
  ident : Int
  filter : KFilter
  action : KAction ε
deriving DecidableEq, Repr

/-- The knote a change leaves in its place. -/
def Kevent.knote {ε : Type} (kev : Kevent ε) : Option (Knote ε) :=
  match kev.action with
  | .evAdd knote => some knote
  | .evDelete => none

/-- One change. -/
def applyChange {ε : Type} (kernel : Knotes ε) (kev : Kevent ε) : Knotes ε :=
  Function.update kernel (kev.ident, kev.filter) kev.knote

/-- The error of a change that failed, in `data`. -/
inductive KError where
  | ebadf
  | einval
  | enoent
  | other
deriving DecidableEq, Repr

/-- An element of the list of events that `kevent` fills. -/
inductive KReport where
  /-- `EV_ERROR` -/
  | error (data : KError)
  | ready (key : Int × KFilter)
deriving DecidableEq, Repr

/-- The answer of `kevent`. -/
inductive KAnswer where
  | failed (eintr : Bool)
  | reports (rs : List KReport)
deriving DecidableEq, Repr

namespace KReport

/-- The knotes that were delivered. -/
def delivered (rs : List KReport) : List (Int × KFilter) :=
  rs.filterMap fun
    | .error _ => none
    | .ready key => some key

/-- Those that `kqueue_dispatch` gets to see: it returns at an error it does not know. -/
def handled : List KReport → List (Int × KFilter)
  | [] => []
  | .error data :: rs => if data = .other then [] else handled rs
  | .ready key :: rs => key :: handled rs

/-- What is seen was delivered. -/
theorem mem_delivered_of_handled {rs : List KReport} {key : Int × KFilter}
    (hkey : key ∈ handled rs) : key ∈ delivered rs := by
  induction rs with
  | nil => exact hkey
  | cons r rs ih =>
    cases r with
    | error data =>
      unfold handled at hkey
      split at hkey
      · exact absurd hkey List.not_mem_nil
      · exact ih hkey
    | ready key' =>
      rcases List.mem_cons.mp hkey with rfl | hrest
      · exact List.mem_cons_self
      · exact List.mem_cons_of_mem _ (ih hrest)

end KReport

/-- The knotes that are left after some were delivered. -/
def deliver {ε : Type} (kernel : Knotes ε) (keys : List (Int × KFilter)) : Knotes ε :=
  fun key => (kernel key).filter fun knote => !(knote.oneshot && decide (key ∈ keys))

theorem deliver_eq_some {ε : Type} {kernel : Knotes ε} {keys : List (Int × KFilter)} {key : Int × KFilter}
    {knote : Knote ε} : deliver kernel keys key = some knote ↔
      kernel key = some knote ∧ ¬(knote.oneshot = true ∧ key ∈ keys) := by
  unfold deliver
  rw [Option.filter_eq_some_iff, and_congr_right_iff]
  intro _
  cases knote.oneshot <;> simp

/-! ## The poller -/

/-- `struct kqueuer`, with what the kernel keeps for `kqueuefd`. The number `nchanges` of changes
is the length of the list. -/
structure Kqueuer (ε : Type) where
  changessize : Nat := initEvents
  changes : List (Kevent ε) := []
  nevents : Nat := initEvents
  kernel : Knotes ε := fun _ => none

namespace Kqueuer

variable {ε : Type}

/-- `kqueue_expand` -/
def kqueueExpand (self : Kqueuer ε) (realloc : Bool) : Kqueuer ε :=
  if realloc then { self with nevents := self.nevents <<< 1 } else self

/-- `kqueue_insert` -/
def kqueueInsert (self : Kqueuer ε) (kev : Kevent ε) (realloc : Bool) : Kqueuer ε × Int :=
  if self.changes.length = self.changessize then
    if !realloc then (self, -1)
    else
      ({ self with
          changessize := self.changessize <<< 1
          changes := self.changes ++ [kev] }, 0)
  else ({ self with changes := self.changes ++ [kev] }, 0)

/-- The kernel as it is when the queued changes are applied. -/
def effective (self : Kqueuer ε) : Knotes ε := self.changes.foldl applyChange self.kernel

end Kqueuer

/-! ## Events -/

/-- `struct event` with the bit of this back end. -/
structure KqEvent (κ : Type) extends EventView κ where
  /-- `EVSTATUS_X_KQINKERNEL` -/
  xKqinkernel : Bool := false
deriving DecidableEq, Repr

/-- The event waits for this filter. -/
def KqEvent.waits {κ : Type} (e : KqEvent κ) : KFilter → Bool
  | .evfiltRead => e.events.read
  | .evfiltWrite => e.events.write

/-- `evsets_add` hands the event to the poller. -/
def KqEvent.Polled {κ : Type} (e : KqEvent κ) : Prop :=
  0 < e.fd ∧ (e.events.read || e.events.write) ∧ !(e.active || e.inserted)

instance {κ : Type} (e : KqEvent κ) : Decidable e.Polled := inferInstanceAs (Decidable (_ ∧ _))

/-- The `EV_*` bit of a filter. -/
def KFilter.which : KFilter → EvMask
  | .evfiltRead => .evRead
  | .evfiltWrite => .evWrite

/-- An event set with this back end. -/
structure KqueueSet (ε κ : Type) where
  poller : Kqueuer ε := {}
  event : ε → KqEvent κ
  /-- Not a field of the source: the calls of `event_active` in `kqueue_dispatch`, and whether the
  event was inserted. -/
  activations : List (ε × Bool) := []

namespace KqueueSet

variable {ε κ : Type} [DecidableEq ε]

/-- Change an event. -/
def modify (s : KqueueSet ε κ) (ev : ε) (f : KqEvent κ → KqEvent κ) : KqueueSet ε κ :=
  { s with event := Function.update s.event ev (f (s.event ev)) }

/-- Queue a change for one direction of an event, if it waits for this one, and set the bit or
clear it. -/
def queue (s : KqueueSet ε κ) (ev : ε) (filter : KFilter) (action : KAction ε) (bit realloc : Bool) :
    KqueueSet ε κ × Int :=
  if (s.event ev).waits filter then
    let r := s.poller.kqueueInsert ⟨(s.event ev).fd, filter, action⟩ realloc
    if r.2 ≠ 0 then (s, r.2)
    else ({ s with poller := r.1 }.modify ev fun e => { e with xKqinkernel := bit }, 0)
  else (s, 0)

/-- The two halves that `kqueue_add` and `kqueue_del` have: the change for reading, and the change
for writing. `rcRead` and `rcWrite` are returned where one cannot be queued. -/
def queueBoth (s : KqueueSet ε κ) (ev : ε) (action : KAction ε) (bit reallocRead reallocWrite : Bool)
    (rcRead rcWrite : Int) : KqueueSet ε κ × Int :=
  let r := s.queue ev .evfiltRead action bit reallocRead
  if r.2 ≠ 0 then (r.1, rcRead)
  else
    let w := r.1.queue ev .evfiltWrite action bit reallocWrite
    if w.2 ≠ 0 then (w.1, rcWrite) else (w.1, 0)

/-- `kqueue_add` -/
def kqueueAdd (s : KqueueSet ε κ) (ev : ε) (reallocRead reallocWrite : Bool) : KqueueSet ε κ × Int :=
  s.queueBoth ev (.evAdd ⟨ev, !(s.event ev).events.persist⟩) true reallocRead reallocWrite (-1) (-2)

/-- `kqueue_del` -/
def kqueueDel (s : KqueueSet ε κ) (ev : ε) (reallocRead reallocWrite : Bool) : KqueueSet ε κ × Int :=
  -- without the bit, the event counts as gone from the kernel
  if !(s.event ev).xKqinkernel then (s, 0)
  else s.queueBoth ev .evDelete false reallocRead reallocWrite (-2) (-3)

/-- The loop of `kqueue_dispatch`, over what `kevent` has reported of these knotes. -/
def dispatchLoop (kernel : Knotes ε) : List KReport → KqueueSet ε κ → KqueueSet ε κ × Int
  | [], s => (s, 0)
  | .error data :: rs, s => if data = .other then (s, -2) else dispatchLoop kernel rs s
  | .ready key :: rs, s =>
    match kernel key with
    | none => dispatchLoop kernel rs s
    | some knote =>
      let inserted := (s.event knote.udata).inserted
      let s := s.modify knote.udata fun e =>
        if e.events.persist then e else { e with xKqinkernel := false }
      let s := s.modify knote.udata fun e =>
        { e with toEventView := e.toEventView.eventActive key.2.which }
      dispatchLoop kernel rs { s with activations := s.activations ++ [(knote.udata, inserted)] }

/-- `kqueue_dispatch` -/
def kqueueDispatch (s : KqueueSet ε κ) (answer : KAnswer) (realloc : Bool) : KqueueSet ε κ × Int :=
  let kernel := s.poller.effective
  match answer with
  | .failed eintr =>
    ({ s with poller := { s.poller with changes := [], kernel := kernel } }, if eintr then 0 else -1)
  | .reports rs =>
    let left := deliver kernel (KReport.delivered rs)
    let r := dispatchLoop kernel rs
      { s with poller := { s.poller with changes := [], kernel := left } }
    if r.2 ≠ 0 then r
    else if rs.length = s.poller.nevents then
      ({ r.1 with poller := r.1.poller.kqueueExpand realloc }, rs.length)
    else (r.1, rs.length)

/-- The part of `evsets_add` that watches the descriptor. -/
def addPoll (s : KqueueSet ε κ) (ev : ε) (reallocRead reallocWrite : Bool) : KqueueSet ε κ :=
  if (s.event ev).Polled then
    let r := s.kqueueAdd ev reallocRead reallocWrite
    if r.2 = 0 then r.1.modify ev fun e => { e with inserted := true } else r.1
  else s

/-- `evsets_add` -/
def evsetsAdd (s : KqueueSet ε κ) (ev : ε) (tv : Int) (reallocRead reallocWrite : Bool) :
    KqueueSet ε κ :=
  (s.addPoll ev reallocRead reallocWrite).modify ev fun e =>
    { e with toEventView := e.toEventView.addTimer tv }

/-- The part of `evsets_del` that takes the event out of the lists. -/
def leaveLists (s : KqueueSet ε κ) (ev : ε) : KqueueSet ε κ :=
  s.modify ev fun e => { e with toEventView := e.toEventView.evsetsDel }

/-- `evsets_del` -/
def evsetsDel (s : KqueueSet ε κ) (ev : ε) (reallocRead reallocWrite : Bool) : KqueueSet ε κ :=
  if (s.event ev).inserted then ((s.leaveLists ev).kqueueDel ev reallocRead reallocWrite).1
  else s.leaveLists ev

end KqueueSet

/-- What happens in an event set. -/
inductive KqueueInput (ε : Type) where
  /-- `event_set`, for an event that is not inserted. -/
  | set (ev : ε) (fd : Int) (events : EvMask)
  /-- `evsets_add` -/
  | add (ev : ε) (tv : Int) (reallocRead reallocWrite : Bool)
  /-- `evsets_del` -/
  | del (ev : ε) (reallocRead reallocWrite : Bool)
  | dispatch (answer : KAnswer) (realloc : Bool)
  /-- Whatever else changes the membership in the timer wheel and the active list. -/
  | lists (ev : ε) (timer active : Bool)
deriving DecidableEq, Repr

namespace KqueueSet

variable {ε κ : Type} [DecidableEq ε]

/-- `kevent` reports at most `nevents` elements, and each knote once. -/
def Answers (s : KqueueSet ε κ) : KAnswer → Prop
  | .failed _ => True
  | .reports rs =>
    rs.length ≤ s.poller.nevents ∧ (KReport.delivered rs).Nodup ∧
      ∀ key ∈ KReport.delivered rs, (s.poller.effective key).isSome = true

instance (s : KqueueSet ε κ) : (answer : KAnswer) → Decidable (s.Answers answer)
  | .failed _ => isTrue trivial
  | .reports _ => inferInstanceAs (Decidable (_ ∧ _))

/-- One call. -/
def step (s : KqueueSet ε κ) : KqueueInput ε → Option (KqueueSet ε κ)
  | .set ev fd events =>
    if (s.event ev).inserted then none
    else some (s.modify ev fun e => { e with toEventView := e.toEventView.eventSet fd events })
  | .add ev tv reallocRead reallocWrite => some (s.evsetsAdd ev tv reallocRead reallocWrite)
  | .del ev reallocRead reallocWrite => some (s.evsetsDel ev reallocRead reallocWrite)
  | .dispatch answer realloc => if s.Answers answer then some (s.kqueueDispatch answer realloc).1 else none
  | .lists ev timer active => some (s.modify ev fun e => { e with timer := timer, active := active })

end KqueueSet

/-! ## Queueing changes -/

namespace Kqueuer

variable {ε : Type}

/-- There is room for one more change. -/
def fits (self : Kqueuer ε) (realloc : Bool) : Bool :=
  decide (self.changes.length ≠ self.changessize) || realloc

/-- There is room for another one after it. -/
def fitsNext (self : Kqueuer ε) (realloc : Bool) : Bool :=
  let changessize :=
    if self.changes.length = self.changessize then self.changessize <<< 1 else self.changessize
  decide (self.changes.length + 1 ≠ changessize) || realloc

/-- `kqueue_insert` fails and changes nothing, or queues the change. -/
theorem kqueueInsert_cases (self : Kqueuer ε) (kev : Kevent ε) (realloc : Bool) :
    (self.fits realloc = false ∧ self.kqueueInsert kev realloc = (self, -1)) ∨
    (self.fits realloc = true ∧ ∃ later, self.kqueueInsert kev realloc = (later, 0) ∧
      later.effective = applyChange self.effective kev ∧
      ∀ next, later.fits next = self.fitsNext next) := by
  unfold fits kqueueInsert fitsNext
  by_cases hfull : self.changes.length = self.changessize
  · cases realloc with
    | false => simp [hfull]
    | true =>
      right
      simp only [hfull, if_true]
      refine ⟨by simp, _, rfl, ?_, fun next => ?_⟩
      · simp [effective]
      · simp [hfull]
  · right
    simp only [hfull, if_false]
    refine ⟨by simp [hfull], _, rfl, ?_, fun next => ?_⟩
    · simp [effective]
    · simp

end Kqueuer

namespace KqueueSet

variable {ε κ : Type} {s t : KqueueSet ε κ} {ev : ε}

/-- The direction that is waited for gets its change into the queue. The change for writing comes
after that for reading, and only if this one was queued. -/
def queued (s : KqueueSet ε κ) (ev : ε) (reallocRead reallocWrite : Bool) : KFilter → Bool
  | .evfiltRead => (s.event ev).waits .evfiltRead && s.poller.fits reallocRead
  | .evfiltWrite =>
    (s.event ev).waits .evfiltWrite &&
      if (s.event ev).waits .evfiltRead then
        s.poller.fits reallocRead && s.poller.fitsNext reallocWrite
      else s.poller.fits reallocWrite

/-- What the changes for the directions in `q` make of the event set. -/
structure Changed (s t : KqueueSet ε κ) (ev : ε) (action : KAction ε) (bit : Bool)
    (q : KFilter → Bool) : Prop where
  effective : ∀ key, t.poller.effective key =
    if key.1 = (s.event ev).fd ∧ q key.2 = true then
      Kevent.knote ⟨key.1, key.2, action⟩
    else s.poller.effective key
  self : t.event ev =
    if q .evfiltRead || q .evfiltWrite then { s.event ev with xKqinkernel := bit } else s.event ev
  others : ∀ other, other ≠ ev → t.event other = s.event other
  activations : t.activations = s.activations

/-- Changes for both directions, one after the other. -/
theorem Changed.trans {u : KqueueSet ε κ} {action : KAction ε} {bit : Bool} {q q' : KFilter → Bool}
    (h : Changed s t ev action bit q) (h' : Changed t u ev action bit q') :
    Changed s u ev action bit (fun f => q f || q' f) := by
  have hfd : (t.event ev).fd = (s.event ev).fd := by
    rw [h.self]
    split <;> rfl
  refine ⟨fun key => ?_, ?_, fun other hne => ?_, h'.activations.trans h.activations⟩
  · rw [h'.effective, hfd, h.effective]
    by_cases hkey : key.1 = (s.event ev).fd
    · cases q key.2 <;> cases q' key.2 <;> simp [hkey]
    · simp [hkey]
  · rw [h'.self, h.self]
    cases q .evfiltRead <;> cases q .evfiltWrite <;> cases q' .evfiltRead <;> cases q' .evfiltWrite <;>
      rfl
  · rw [h'.others other hne, h.others other hne]

theorem Changed.none (s : KqueueSet ε κ) (ev : ε) (action : KAction ε) (bit : Bool) :
    Changed s s ev action bit (fun _ => false) :=
  ⟨fun _ => by simp, by simp, fun _ _ => rfl, rfl⟩

theorem Changed.congr {action : KAction ε} {bit : Bool} {q q' : KFilter → Bool}
    (h : Changed s t ev action bit q) (hq : ∀ f, q' f = q f) : Changed s t ev action bit q' := by
  rw [funext hq]
  exact h

theorem Changed.waits {action : KAction ε} {bit : Bool} {q : KFilter → Bool}
    (h : Changed s t ev action bit q) (f : KFilter) : (t.event ev).waits f = (s.event ev).waits f := by
  rw [h.self]
  split <;> cases f <;> rfl

variable [DecidableEq ε]

/-- The change for one direction is not needed, cannot be queued, or is queued. -/
theorem queue_cases (s : KqueueSet ε κ) (ev : ε) (filter : KFilter) (action : KAction ε)
    (bit realloc : Bool) :
    ((s.event ev).waits filter = false ∧ s.queue ev filter action bit realloc = (s, 0)) ∨
    ((s.event ev).waits filter = true ∧ s.poller.fits realloc = false ∧
      s.queue ev filter action bit realloc = (s, -1)) ∨
    ((s.event ev).waits filter = true ∧ s.poller.fits realloc = true ∧
      ∃ t, s.queue ev filter action bit realloc = (t, 0) ∧
        Changed s t ev action bit (fun f => decide (f = filter)) ∧
        ∀ next, t.poller.fits next = s.poller.fitsNext next) := by
  unfold queue
  cases hwaits : (s.event ev).waits filter with
  | false => simp
  | true =>
    right
    rcases s.poller.kqueueInsert_cases ⟨(s.event ev).fd, filter, action⟩ realloc with
      ⟨hfull, hrun⟩ | ⟨hfits, later, hrun, heffective, hnext⟩
    · simp [hfull, hrun]
    · right
      rw [if_pos rfl, hrun]
      refine ⟨rfl, hfits, _, rfl, ⟨fun key => ?_, ?_, fun other hne => ?_, rfl⟩, hnext⟩
      · show later.effective key = _
        rw [heffective]
        unfold applyChange
        by_cases hkey : key = ((s.event ev).fd, filter)
        · subst hkey
          simp [Kevent.knote]
        · rw [Function.update_of_ne hkey, if_neg]
          rintro ⟨hfd, hfilter⟩
          exact hkey (Prod.ext hfd (of_decide_eq_true hfilter))
      · cases filter <;> simp [modify]
      · exact Function.update_of_ne hne ..

/-- One direction gets its change if the event waits for it and there is room. -/
theorem queue_changed (s : KqueueSet ε κ) (ev : ε) (filter : KFilter) (action : KAction ε)
    (bit realloc : Bool) :
    Changed s (s.queue ev filter action bit realloc).1 ev action bit
      (fun f => decide (f = filter) && ((s.event ev).waits filter && s.poller.fits realloc)) ∧
    ((s.queue ev filter action bit realloc).2 = 0 ↔
      ((s.event ev).waits filter = true → s.poller.fits realloc = true)) ∧
    ∀ next, (s.queue ev filter action bit realloc).1.poller.fits next =
      if (s.event ev).waits filter && s.poller.fits realloc then s.poller.fitsNext next
      else s.poller.fits next := by
  rcases s.queue_cases ev filter action bit realloc with
    ⟨hwaits, hrun⟩ | ⟨hwaits, hfull, hrun⟩ | ⟨hwaits, hfits, t, hrun, hchanged, hnext⟩
  · rw [hrun]
    refine ⟨(Changed.none s ev action bit).congr fun f => ?_, by simp [hwaits], fun next => ?_⟩
    · simp [hwaits]
    · simp [hwaits]
  · rw [hrun]
    refine ⟨(Changed.none s ev action bit).congr fun f => ?_, by simp [hwaits, hfull], fun next => ?_⟩
    · simp [hfull]
    · simp [hfull]
  · rw [hrun]
    refine ⟨hchanged.congr fun f => ?_, by simp [hfits], fun next => ?_⟩
    · simp [hwaits, hfits]
    · rw [hnext]
      simp [hwaits, hfits]

/-- The directions of an event whose changes find room get them, and 0 is returned if these are all. -/
theorem queueBoth_changed (s : KqueueSet ε κ) (ev : ε) (action : KAction ε)
    (bit reallocRead reallocWrite : Bool) {rcRead rcWrite : Int} (hread : rcRead ≠ 0)
    (hwrite : rcWrite ≠ 0) :
    Changed s (s.queueBoth ev action bit reallocRead reallocWrite rcRead rcWrite).1 ev action bit
      (s.queued ev reallocRead reallocWrite) ∧
    ((s.queueBoth ev action bit reallocRead reallocWrite rcRead rcWrite).2 = 0 ↔
      ∀ f, (s.event ev).waits f = true → s.queued ev reallocRead reallocWrite f = true) := by
  have hfilters : ∀ p : KFilter → Prop, (∀ f, p f) ↔ p .evfiltRead ∧ p .evfiltWrite := by
    intro p
    refine ⟨fun h => ⟨h _, h _⟩, fun h f => ?_⟩
    cases f with
    | evfiltRead => exact h.1
    | evfiltWrite => exact h.2
  obtain ⟨hchanged, hrc, hnext⟩ := s.queue_changed ev .evfiltRead action bit reallocRead
  rw [hfilters]
  unfold queueBoth
  dsimp only
  generalize s.queue ev .evfiltRead action bit reallocRead = r at hchanged hrc hnext
  by_cases hok : r.2 = 0
  · -- the change for writing comes after that for reading
    obtain ⟨hchanged', hrc', -⟩ := r.1.queue_changed ev .evfiltWrite action bit reallocWrite
    have hqueued := hrc.mp hok
    rw [hchanged.waits, hnext] at hchanged' hrc'
    rw [if_neg (not_not.mpr hok)]
    generalize r.1.queue ev .evfiltWrite action bit reallocWrite = w at hchanged' hrc'
    have hboth : Changed s w.1 ev action bit (s.queued ev reallocRead reallocWrite) := by
      refine (hchanged.trans hchanged').congr fun f => ?_
      cases hwaits : (s.event ev).waits .evfiltRead with
      | false => cases f <;> simp [queued, hwaits]
      | true => cases f <;> simp [queued, hwaits, hqueued hwaits]
    have hall : (s.event ev).waits .evfiltRead = true →
        s.queued ev reallocRead reallocWrite .evfiltRead = true := by
      intro hwaits
      simp [queued, hwaits, hqueued hwaits]
    have hlast : w.2 = 0 ↔ ((s.event ev).waits .evfiltWrite = true →
        s.queued ev reallocRead reallocWrite .evfiltWrite = true) := by
      rw [hrc']
      apply imp_congr_right
      intro hneeded
      cases hwaits : (s.event ev).waits .evfiltRead with
      | false => simp [queued, hwaits, hneeded]
      | true => simp [queued, hwaits, hqueued hwaits, hneeded]
    rw [← hlast, and_iff_right hall]
    split
    · rename_i hnot
      exact ⟨hboth, iff_of_false hwrite hnot⟩
    · rename_i hzero
      exact ⟨hboth, iff_of_true rfl (not_not.mp hzero)⟩
  · -- the change for writing is not tried
    have hfull : (s.event ev).waits .evfiltRead = true ∧ s.poller.fits reallocRead = false := by
      simpa using mt hrc.mpr hok
    rw [if_pos hok]
    constructor
    · refine hchanged.congr fun f => ?_
      cases f <;> simp [queued, hfull]
    · apply iff_of_false hread
      rintro ⟨hneeded, -⟩
      simp [queued, hfull] at hneeded

end KqueueSet

/-! ## Dispatching -/

namespace KqueueSet

variable {ε κ : Type} {s t : KqueueSet ε κ} {ev : ε}

/-- What the loop of `kqueue_dispatch` does: the events it gets to see become active, and the
one-shot ones among them lose the bit. -/
structure Dispatched (kernel : Knotes ε) (keys : List (Int × KFilter)) (s t : KqueueSet ε κ) : Prop where
  poller : t.poller = s.poller
  inserted : ∀ e, (t.event e).inserted = (s.event e).inserted
  fd : ∀ e, (t.event e).fd = (s.event e).fd
  events : ∀ e, (t.event e).events = (s.event e).events
  bit : ∀ e, (t.event e).xKqinkernel = false ↔ (s.event e).xKqinkernel = false ∨
    ((s.event e).events.persist = false ∧ ∃ key ∈ keys, ∃ knote, kernel key = some knote ∧ knote.udata = e)
  activations : ∀ a ∈ t.activations, a ∈ s.activations ∨ ∃ key ∈ keys, ∃ knote,
    kernel key = some knote ∧ a = (knote.udata, (s.event knote.udata).inserted)

theorem Dispatched.nil (kernel : Knotes ε) (s : KqueueSet ε κ) : Dispatched kernel [] s s :=
  ⟨rfl, fun _ => rfl, fun _ => rfl, fun _ => rfl, fun _ => by simp, fun _ ha => .inl ha⟩

theorem Dispatched.append {kernel : Knotes ε} {ks ls : List (Int × KFilter)} {u : KqueueSet ε κ}
    (h : Dispatched kernel ks s t) (h' : Dispatched kernel ls t u) :
    Dispatched kernel (ks ++ ls) s u := by
  refine ⟨h'.poller.trans h.poller, fun e => (h'.inserted e).trans (h.inserted e),
    fun e => (h'.fd e).trans (h.fd e), fun e => (h'.events e).trans (h.events e), fun e => ?_,
    fun a ha => ?_⟩
  · rw [h'.bit, h.bit, h.events, or_assoc, ← and_or_left]
    simp only [List.mem_append, or_and_right, exists_or]
  · rcases h'.activations a ha with hold | ⟨key, hkey, knote, hknote, rfl⟩
    · rcases h.activations a hold with hold | ⟨key, hkey, hrest⟩
      · exact .inl hold
      · exact .inr ⟨key, List.mem_append_left _ hkey, hrest⟩
    · right
      refine ⟨key, List.mem_append_right _ hkey, knote, hknote, ?_⟩
      rw [h.inserted]

variable [DecidableEq ε]

/-- The event is active, and has lost the bit if it is one-shot. -/
def activate (s : KqueueSet ε κ) (knote : Knote ε) (filter : KFilter) : KqueueSet ε κ :=
  let t := s.modify knote.udata fun e => if e.events.persist then e else { e with xKqinkernel := false }
  let t := t.modify knote.udata fun e =>
    { e with toEventView := e.toEventView.eventActive filter.which }
  { t with activations := s.activations ++ [(knote.udata, (s.event knote.udata).inserted)] }

theorem activate_self (s : KqueueSet ε κ) (knote : Knote ε) (filter : KFilter) :
    ((s.activate knote filter).event knote.udata).inserted = (s.event knote.udata).inserted ∧
    ((s.activate knote filter).event knote.udata).fd = (s.event knote.udata).fd ∧
    ((s.activate knote filter).event knote.udata).events = (s.event knote.udata).events ∧
    ((s.activate knote filter).event knote.udata).xKqinkernel =
      ((s.event knote.udata).xKqinkernel && (s.event knote.udata).events.persist) := by
  unfold activate modify
  cases hpersist : (s.event knote.udata).events.persist with
  | true => simp [hpersist]
  | false => simp [hpersist]

theorem activate_others (s : KqueueSet ε κ) (knote : Knote ε) (filter : KFilter) {e : ε}
    (hne : e ≠ knote.udata) : (s.activate knote filter).event e = s.event e := by
  simp [activate, modify, hne]

/-- One knote is handled. -/
theorem activate_dispatched (kernel : Knotes ε) {s : KqueueSet ε κ} {knote : Knote ε}
    {key : Int × KFilter} (hkey : kernel key = some knote) :
    Dispatched kernel [key] s (s.activate knote key.2) := by
  obtain ⟨hinserted, hfd, hevents, hbit⟩ := s.activate_self knote key.2
  -- the event itself, or one of the others
  have hcases : ∀ (p : ε → Prop), p knote.udata → (∀ e, e ≠ knote.udata → p e) → ∀ e, p e := by
    intro p hself hothers e
    by_cases he : e = knote.udata
    · rw [he]
      exact hself
    · exact hothers e he
  refine ⟨rfl, hcases _ hinserted fun e he => ?_, hcases _ hfd fun e he => ?_,
    hcases _ hevents fun e he => ?_, hcases _ ?_ fun e he => ?_, fun a ha => ?_⟩
  · rw [s.activate_others knote key.2 he]
  · rw [s.activate_others knote key.2 he]
  · rw [s.activate_others knote key.2 he]
  · rw [hbit]
    cases (s.event knote.udata).xKqinkernel <;> simp [hkey]
  · rw [s.activate_others knote key.2 he]
    simp [hkey, Ne.symm he]
  · rcases List.mem_append.mp ha with hold | hnew
    · exact .inl hold
    · exact .inr ⟨key, List.mem_singleton.mpr rfl, knote, hkey, List.mem_singleton.mp hnew⟩

theorem dispatchLoop_dispatched (kernel : Knotes ε) (rs : List KReport) (s : KqueueSet ε κ)
    (hrs : ∀ key ∈ KReport.handled rs, (kernel key).isSome = true) :
    Dispatched kernel (KReport.handled rs) s (dispatchLoop kernel rs s).1 := by
  induction rs generalizing s with
  | nil => exact .nil kernel s
  | cons r rs ih =>
    cases r with
    | error data =>
      unfold dispatchLoop KReport.handled
      unfold KReport.handled at hrs
      split
      · exact .nil kernel s
      · rename_i hdata
        rw [if_neg hdata] at hrs
        exact ih s hrs
    | ready key =>
      -- one report is handled, and the others by induction
      obtain ⟨knote, hknote⟩ := Option.isSome_iff_exists.mp (hrs key List.mem_cons_self)
      have hone := activate_dispatched kernel (s := s) hknote
      have hrest := ih (s.activate knote key.2) fun key' hkey' => hrs key' (List.mem_cons_of_mem _ hkey')
      unfold dispatchLoop KReport.handled
      rw [hknote]
      exact hone.append hrest

end KqueueSet

end Evlite
