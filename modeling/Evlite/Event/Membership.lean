import Evlite.Event.Set
import Evlite.Lib.TransitionSystem

/-!
# What the Status Bits of an Event Record

The operations of an event set keep two accounts of where an event is: the bits of its
`status` and the intrusive lists. The bits, with the rest of what the owner of an event can
rely on, change as `Evlite.Event.View` says; the lists follow the bits.

## Main results

- `evsetsAdd_view`, `evsetsDel_view`, `eventActive_view`, `beforeCallback_view`: the
  operations of the set refine those of `EventView`.
- `Blind.insert`, `Blind.remove`: what entering and leaving a list does not touch.
- `status_iff_member`: in every run, the three bits of an event say exactly in which lists it
  is, and it is there once.
-/

namespace Evlite

namespace EventSet

open Function (update)

variable {κ : Type}

/-- The events as their owners see them. -/
def view (s : EventSet κ) (ev : Nat) : EventView κ := (s.event ev).toEventView

/-- Set or clear the bit of a list. -/
def setBit (e : EventView κ) (b : Bool) : QueueType → EventView κ
  | .inserted => { e with inserted := b }
  | .timer => { e with timer := b }
  | .active => { e with active := b }

/-! ## Views of the primitive operations -/

section Views

variable (s : EventSet κ) (ev : Nat)

theorem modify_view (f : Event κ → Event κ) :
    (s.modify ev f).view = update s.view ev (f (s.event ev)).toEventView := by
  funext a
  simp only [view, modify, Function.update_apply]
  split <;> rfl

@[simp] theorem setTimer_view (t : EvTimer) : (s.setTimer t).view = s.view := rfl

@[simp] theorem emit_view (e : EventEffect) : (s.emit e).view = s.view := rfl

/-- What is left of the view if only the fields of the wheel change. -/
theorem modify_view_of_eq {f : Event κ → Event κ}
    (h : ∀ e, (f e).toEventView = e.toEventView) : (s.modify ev f).view = s.view := by
  rw [modify_view, h]
  exact Function.update_eq_self ev s.view

@[simp] theorem evtimerAppend_view : (s.evtimerAppend ev).view = s.view := by
  unfold evtimerAppend
  dsimp only
  split
  · rfl
  · rw [setTimer_view]
    exact modify_view_of_eq s ev fun _ => rfl

@[simp] theorem evtimerRemove_view : (s.evtimerRemove ev).view = s.view := by
  unfold evtimerRemove
  dsimp only
  split
  · rfl
  · rw [setTimer_view]
    exact modify_view_of_eq s ev fun _ => rfl

theorem setStatus_view (type : QueueType) (b : Bool) :
    (s.setStatus ev type b).view = update s.view ev (setBit (s.view ev) b type) := by
  unfold setStatus
  rw [modify_view]
  cases type <;> rfl

/-- Setting a bit to what it is changes nothing. -/
theorem update_setBit_self {b : Bool} {type : QueueType} (h : status (s.event ev) type = b) :
    update s.view ev (setBit (s.view ev) b type) = s.view := by
  have hsame : setBit (s.view ev) b type = s.view ev := by
    cases type <;> (subst h; rfl)
  rw [hsame]
  exact Function.update_eq_self ev s.view

theorem eventQueueInsert_view (type : QueueType) :
    (s.eventQueueInsert ev type).view = update s.view ev (setBit (s.view ev) true type) := by
  unfold eventQueueInsert
  split
  · rename_i h
    exact (update_setBit_self s ev h).symm
  · rw [← setStatus_view]
    cases type with
    | inserted => rfl
    | active => rfl
    | timer => exact evtimerAppend_view _ ev

theorem eventQueueRemove_view (type : QueueType) :
    (s.eventQueueRemove ev type).view = update s.view ev (setBit (s.view ev) false type) := by
  unfold eventQueueRemove
  split
  · rw [← setStatus_view]
    cases type with
    | inserted => rfl
    | active => rfl
    | timer => exact evtimerRemove_view _ ev
  · rename_i h
    exact (update_setBit_self s ev (by simpa using h)).symm

theorem eventQueueInsert_self (type : QueueType) :
    ((s.eventQueueInsert ev type).event ev).toEventView = setBit (s.event ev).toEventView true type := by
  have hview := congrFun (eventQueueInsert_view s ev type) ev
  rwa [Function.update_self] at hview

theorem eventQueueRemove_self (type : QueueType) :
    ((s.eventQueueRemove ev type).event ev).toEventView = setBit (s.event ev).toEventView false type := by
  have hview := congrFun (eventQueueRemove_view s ev type) ev
  rwa [Function.update_self] at hview

end Views

/-! ## Refinement of the owner's view -/

section Refinement

variable (s : EventSet κ) (ev : Nat)

theorem eventActive_view (res : EvMask) :
    (s.eventActive ev res).view = update s.view ev ((s.view ev).eventActive res) := by
  unfold eventActive EventView.eventActive
  have hsame : ((s.emit (.activate ev res (s.event ev).lastAdd)).event ev).active = (s.view ev).active := rfl
  dsimp only
  rw [hsame]
  split
  · exact modify_view _ ev _
  · rw [eventQueueInsert_view, modify_view, Function.update_idem, Function.update_self]
    rfl

theorem evsetsDel_view (pollDel : Int) :
    (s.evsetsDel ev pollDel).1.view = update s.view ev (s.view ev).evsetsDel := by
  have hbits : ((s.eventQueueRemove ev .timer).eventQueueRemove ev .active).view =
      update s.view ev { s.view ev with timer := false, active := false } := by
    rw [eventQueueRemove_view, eventQueueRemove_view, Function.update_idem, Function.update_self]
    rfl
  unfold evsetsDel
  dsimp only
  split
  · rw [eventQueueRemove_view, hbits, Function.update_idem, Function.update_self]
    rfl
  · -- the bit was clear before
    rename_i h
    have hclear : (((s.eventQueueRemove ev .timer).eventQueueRemove ev .active).view ev).inserted =
        false := by simpa [view] using h
    rw [hbits, Function.update_self] at hclear
    rw [hbits]
    refine congrArg (update s.view ev) ?_
    have hins : (s.view ev).inserted = false := hclear
    rw [EventView.evsetsDel, ← hins]

theorem evsetsDel_self (pollDel : Int) :
    ((s.evsetsDel ev pollDel).1.event ev).toEventView = (s.event ev).toEventView.evsetsDel := by
  have hview := congrFun (evsetsDel_view s ev pollDel) ev
  rwa [Function.update_self] at hview

theorem addPoll_view (pollAdd : Bool) :
    (s.addPoll ev pollAdd).1.view = update s.view ev ((s.view ev).addPoll pollAdd) := by
  have hsame : s.view = update s.view ev (s.view ev) := (Function.update_eq_self ev s.view).symm
  unfold addPoll
  dsimp only
  split
  · rename_i h
    have hpoll : (s.view ev).addPoll pollAdd = { s.view ev with inserted := pollAdd } := if_pos h
    rw [hpoll]
    cases pollAdd with
    | false =>
      -- the event was not inserted before
      have hidle : (s.event ev).active = false ∧ (s.event ev).inserted = false := by
        simpa using h.2.2
      have hkept : { s.view ev with inserted := false } = s.view ev := by
        rw [← hidle.2]
        rfl
      rw [hkept]
      exact hsame
    | true =>
      rw [if_pos rfl, eventQueueInsert_view]
      rfl
  · rename_i h
    have hpoll : (s.view ev).addPoll pollAdd = s.view ev := if_neg h
    rw [hpoll]
    exact hsame

/-- The event leaves the wheel, and the active list if a timeout is already reported. -/
theorem disarm_view :
    (if ((s.eventQueueRemove ev .timer).event ev).results.timeout then
        (s.eventQueueRemove ev .timer).eventQueueRemove ev .active
      else s.eventQueueRemove ev .timer).view =
      update s.view ev { s.view ev with
        timer := false
        active := (s.view ev).active && !(s.view ev).results.timeout } := by
  have hfirst := eventQueueRemove_view s ev .timer
  have hsame : (s.eventQueueRemove ev .timer).view ev = setBit (s.view ev) false .timer := by
    rw [hfirst, Function.update_self]
  -- the first step leaves the results as they are
  have hresults : ((s.eventQueueRemove ev .timer).event ev).results = (s.view ev).results := by
    show ((s.eventQueueRemove ev .timer).view ev).results = _
    rw [hsame]
    rfl
  rw [hresults]
  cases htimeout : (s.view ev).results.timeout with
  | true =>
    rw [if_pos rfl, eventQueueRemove_view, hsame, hfirst, Function.update_idem]
    simp [setBit]
  | false =>
    rw [if_neg Bool.false_ne_true, hfirst]
    simp [setBit]

theorem addTimer_view (tv : Int) :
    (s.addTimer ev tv).1.view = update s.view ev ((s.view ev).addTimer tv) := by
  unfold addTimer
  split
  · rename_i htv
    have htimer : (s.view ev).addTimer tv = { s.view ev with
        active := (s.view ev).active && !(s.view ev).results.timeout
        timerMsecs := tv
        timer := true } := if_pos htv
    have hdisarm := disarm_view s ev
    dsimp only
    generalize (if ((s.eventQueueRemove ev .timer).event ev).results.timeout then
        (s.eventQueueRemove ev .timer).eventQueueRemove ev .active
      else s.eventQueueRemove ev .timer) = t at hdisarm
    have hsame : (t.event ev).toEventView = t.view ev := rfl
    rw [htimer, eventQueueInsert_view, modify_view, Function.update_idem, Function.update_self,
      hdisarm, Function.update_idem, hsame, hdisarm, Function.update_self]
    rfl
  · rename_i htv
    have htimer : (s.view ev).addTimer tv = s.view ev := if_neg htv
    rw [htimer]
    exact (Function.update_eq_self ev s.view).symm

/-- What `evsets_add` does to an event, also when the poller does not take it. -/
theorem evsetsAdd_view (tv : Int) (pollAdd : Bool) :
    (s.evsetsAdd ev tv pollAdd).1.view = update s.view ev ((s.view ev).evsetsAdd pollAdd tv) := by
  unfold evsetsAdd
  have hmark : (s.modify ev fun e => { e with evsets := true, lastAdd := some tv }).view = s.view :=
    modify_view_of_eq s ev fun _ => rfl
  dsimp only
  rw [addTimer_view, addPoll_view, Function.update_idem, Function.update_self, hmark]
  rfl

theorem beforeCallback_view :
    (s.beforeCallback ev).view = update s.view ev (s.view ev).processActive := by
  unfold beforeCallback
  split
  · rename_i h
    have honeshot : (s.view ev).processActive = (s.view ev).evsetsDel :=
      if_neg (by simpa [view] using h)
    rw [honeshot]
    exact evsetsDel_view s ev 0
  · rename_i h
    have hpersist : (s.view ev).processActive = { s.view ev with
        active := false
        timer := (s.view ev).timer || decide (0 ≤ (s.view ev).timerMsecs) } :=
      if_pos (by simpa [view] using h)
    -- a persistent event leaves the active list and, with a timeout, ends up in the wheel
    have hfirst := eventQueueRemove_view s ev .active
    have hsame : (s.eventQueueRemove ev .active).view ev = { s.view ev with active := false } := by
      rw [hfirst, Function.update_self]
      rfl
    have hmsecs : ((s.eventQueueRemove ev .active).event ev).timerMsecs =
        (s.view ev).timerMsecs := by
      show ((s.eventQueueRemove ev .active).view ev).timerMsecs = _
      rw [hsame]
    dsimp only
    rw [hpersist, hmsecs]
    split
    · rename_i htv
      rw [eventQueueInsert_view]
      split
      · rw [eventQueueRemove_view, Function.update_idem, Function.update_self, hsame, hfirst,
          Function.update_idem]
        simp [setBit, htv]
      · rw [hsame, hfirst, Function.update_idem]
        simp [setBit, htv]
    · rename_i htv
      rw [hfirst]
      simp [setBit, htv]

/-- A timer that expires. -/
theorem expire_view :
    (((s.evtimerRemove ev).setStatus ev .timer false).eventActive ev .evTimeout).view =
      update s.view ev (s.view ev).timerExpire := by
  rw [eventActive_view, setStatus_view, evtimerRemove_view, Function.update_idem,
    Function.update_self]
  rfl

end Refinement

/-! ## Lists and bits -/

/-- The lists hold the event `a` as its bits say. -/
structure Linked (s : EventSet κ) (a : Nat) : Prop where
  eventlist : s.eventlist.count a = (s.event a).inserted.toNat
  activelist : s.activelist.count a = (s.event a).active.toNat
  bucket : ∀ b, (s.coreTimer.bucketArray b).count a =
    if (s.event a).timer = true ∧ (s.event a).timerIndex = b then 1 else 0
  index : (s.event a).timer = true →
    0 ≤ (s.event a).timerIndex ∧ (s.event a).timerIndex < s.coreTimer.bucketCount
  sets : (s.event a).linked = true → (s.event a).evsets = true

/-- The lists hold every event as its bits say. -/
structure Consistent (s : EventSet κ) : Prop where
  linked : ∀ a, s.Linked a
  pos : 1 ≤ s.coreTimer.bucketCount
  fits : s.coreTimer.bucketCount ≤ 2 ^ 32

/-- From `s` to `t`, nothing but the event `ev` changed, or changed its places. -/
structure Only (ev : Nat) (s t : EventSet κ) : Prop where
  event : ∀ a, a ≠ ev → t.event a = s.event a
  eventlist : ∀ a, a ≠ ev → t.eventlist.count a = s.eventlist.count a
  activelist : ∀ a, a ≠ ev → t.activelist.count a = s.activelist.count a
  bucket : ∀ a, a ≠ ev → ∀ b,
    (t.coreTimer.bucketArray b).count a = (s.coreTimer.bucketArray b).count a
  bucketCount : t.coreTimer.bucketCount = s.coreTimer.bucketCount

theorem Consistent.only {ev : Nat} {s t : EventSet κ} (h : s.Consistent) (hev : Only ev s t)
    (ht : t.Linked ev) : t.Consistent := by
  refine ⟨fun a => ?_, hev.bucketCount ▸ h.pos, hev.bucketCount ▸ h.fits⟩
  by_cases ha : a = ev
  · exact ha ▸ ht
  · have hs := h.linked a
    refine ⟨?_, ?_, ?_, ?_, ?_⟩
    · rw [hev.eventlist a ha, hev.event a ha]; exact hs.eventlist
    · rw [hev.activelist a ha, hev.event a ha]; exact hs.activelist
    · intro b
      rw [hev.bucket a ha b, hev.event a ha]
      exact hs.bucket b
    · rw [hev.event a ha, hev.bucketCount]; exact hs.index
    · rw [hev.event a ha]; exact hs.sets

theorem Only.refl (ev : Nat) (s : EventSet κ) : Only ev s s :=
  ⟨fun _ _ => rfl, fun _ _ => rfl, fun _ _ => rfl, fun _ _ _ => rfl, rfl⟩

theorem Only.trans {ev : Nat} {s t u : EventSet κ} (h₁ : Only ev s t) (h₂ : Only ev t u) :
    Only ev s u where
  event a ha := (h₂.event a ha).trans (h₁.event a ha)
  eventlist a ha := (h₂.eventlist a ha).trans (h₁.eventlist a ha)
  activelist a ha := (h₂.activelist a ha).trans (h₁.activelist a ha)
  bucket a ha b := (h₂.bucket a ha b).trans (h₁.bucket a ha b)
  bucketCount := h₂.bucketCount.trans h₁.bucketCount

section Primitive

variable (s : EventSet κ) (ev : Nat)

@[simp] theorem modify_event (a : Nat) (f : Event κ → Event κ) :
    (s.modify ev f).event a = if a = ev then f (s.event ev) else s.event a :=
  Function.update_apply s.event ev (f (s.event ev)) a

@[simp] theorem modify_eventlist (f : Event κ → Event κ) :
    (s.modify ev f).eventlist = s.eventlist := rfl
@[simp] theorem modify_activelist (f : Event κ → Event κ) :
    (s.modify ev f).activelist = s.activelist := rfl
@[simp] theorem modify_coreTimer (f : Event κ → Event κ) :
    (s.modify ev f).coreTimer = s.coreTimer := rfl
@[simp] theorem modify_trace (f : Event κ → Event κ) : (s.modify ev f).trace = s.trace := rfl
@[simp] theorem emit_event (e : EventEffect) : (s.emit e).event = s.event := rfl
@[simp] theorem setTimer_event (t : EvTimer) : (s.setTimer t).event = s.event := rfl
@[simp] theorem setTimer_eventlist (t : EvTimer) : (s.setTimer t).eventlist = s.eventlist := rfl
@[simp] theorem setTimer_activelist (t : EvTimer) : (s.setTimer t).activelist = s.activelist := rfl
@[simp] theorem setTimer_coreTimer (t : EvTimer) : (s.setTimer t).coreTimer = t := rfl

theorem modify_only (f : Event κ → Event κ) : Only ev s (s.modify ev f) :=
  ⟨fun a ha => by rw [modify_event, if_neg ha], fun _ _ => rfl, fun _ _ => rfl,
    fun _ _ _ => rfl, rfl⟩

theorem setStatus_only (type : QueueType) (b : Bool) : Only ev s (s.setStatus ev type b) :=
  modify_only s ev _

theorem link_only (b : Nat) : Only ev s (s.setTimer (s.coreTimer.link b ev)) := by
  refine ⟨fun _ _ => rfl, fun _ _ => rfl, fun _ _ => rfl, fun a ha c => ?_, rfl⟩
  rw [setTimer_coreTimer, EvTimer.link_bucketArray]
  split
  · rename_i hc
    rw [hc, List.count_append, List.count_singleton, if_neg (by simpa using Ne.symm ha)]
    rfl
  · rfl

theorem unlink_only (b : Nat) : Only ev s (s.setTimer (s.coreTimer.unlink b ev)) := by
  refine ⟨fun _ _ => rfl, fun _ _ => rfl, fun _ _ => rfl, fun a ha c => ?_, rfl⟩
  rw [setTimer_coreTimer, EvTimer.unlink_bucketArray]
  split
  · rename_i hc
    rw [hc, List.count_erase_of_ne ha]
  · rfl

theorem evtimerAppend_only : Only ev s (s.evtimerAppend ev) := by
  unfold evtimerAppend
  dsimp only
  split
  · exact .refl ev s
  · exact (modify_only s ev _).trans (link_only _ ev _)

theorem evtimerRemove_only : Only ev s (s.evtimerRemove ev) := by
  unfold evtimerRemove
  dsimp only
  split
  · exact .refl ev s
  · exact (modify_only s ev _).trans (unlink_only _ ev _)

theorem eventQueueInsert_only (type : QueueType) : Only ev s (s.eventQueueInsert ev type) := by
  unfold eventQueueInsert
  split
  · exact .refl ev s
  · refine (setStatus_only s ev type true).trans ?_
    cases type with
    | inserted =>
      refine ⟨fun _ _ => rfl, fun a ha => ?_, fun _ _ => rfl, fun _ _ _ => rfl, rfl⟩
      rw [List.count_append, List.count_singleton, if_neg (by simpa using Ne.symm ha)]
      rfl
    | active =>
      refine ⟨fun _ _ => rfl, fun _ _ => rfl, fun a ha => ?_, fun _ _ _ => rfl, rfl⟩
      rw [List.count_append, List.count_singleton, if_neg (by simpa using Ne.symm ha)]
      rfl
    | timer => exact evtimerAppend_only _ ev

theorem eventQueueRemove_only (type : QueueType) : Only ev s (s.eventQueueRemove ev type) := by
  unfold eventQueueRemove
  split
  · refine (setStatus_only s ev type false).trans ?_
    cases type with
    | inserted =>
      exact ⟨fun _ _ => rfl, fun a ha => List.count_erase_of_ne ha, fun _ _ => rfl,
        fun _ _ _ => rfl, rfl⟩
    | active =>
      exact ⟨fun _ _ => rfl, fun _ _ => rfl, fun a ha => List.count_erase_of_ne ha,
        fun _ _ _ => rfl, rfl⟩
    | timer => exact evtimerRemove_only _ ev
  · exact .refl ev s

end Primitive

/-! ## What entering and leaving a list does not touch -/

/-- What `f` observes does not depend on the lists, on the buckets, and on what entering and leaving
them writes into the events. -/
structure Blind {α : Type} (f : EventSet κ → α) : Prop where
  modify : ∀ (s : EventSet κ) (ev : Nat) (g : Event κ → Event κ),
    (∀ e, ((g e).evsets, (g e).lastAdd) = (e.evsets, e.lastAdd)) → f (s.modify ev g) = f s
  lists : ∀ (s : EventSet κ) (l l' : List Nat), f { s with eventlist := l, activelist := l' } = f s
  wheel : ∀ (s : EventSet κ) (count : Int) (buckets : Nat → List Nat),
    f (s.setTimer { s.coreTimer with eventCount := count, bucketArray := buckets }) = f s

section Observation

variable {α : Type} {f : EventSet κ → α}

theorem Blind.setStatus (h : Blind f) (s : EventSet κ) (ev : Nat) (type : QueueType) (b : Bool) :
    f (s.setStatus ev type b) = f s := by
  apply h.modify
  intro e
  cases type <;> rfl

theorem Blind.evtimerAppend (h : Blind f) (s : EventSet κ) (ev : Nat) : f (s.evtimerAppend ev) = f s := by
  unfold EventSet.evtimerAppend
  dsimp only
  split
  · rfl
  · exact (h.wheel _ _ _).trans (h.modify s ev _ fun _ => rfl)

theorem Blind.evtimerRemove (h : Blind f) (s : EventSet κ) (ev : Nat) : f (s.evtimerRemove ev) = f s := by
  unfold EventSet.evtimerRemove
  dsimp only
  split
  · rfl
  · exact (h.wheel _ _ _).trans (h.modify s ev _ fun _ => rfl)

theorem Blind.insert (h : Blind f) (s : EventSet κ) (ev : Nat) (type : QueueType) :
    f (s.eventQueueInsert ev type) = f s := by
  have hstatus := h.setStatus s ev type true
  unfold eventQueueInsert
  split
  · rfl
  · cases type with
    | inserted => exact (h.lists _ _ _).trans hstatus
    | active => exact (h.lists _ _ _).trans hstatus
    | timer => exact (h.evtimerAppend _ ev).trans hstatus

theorem Blind.remove (h : Blind f) (s : EventSet κ) (ev : Nat) (type : QueueType) :
    f (s.eventQueueRemove ev type) = f s := by
  have hstatus := h.setStatus s ev type false
  unfold eventQueueRemove
  split
  · cases type with
    | inserted => exact (h.lists _ _ _).trans hstatus
    | active => exact (h.lists _ _ _).trans hstatus
    | timer => exact (h.evtimerRemove _ ev).trans hstatus
  · rfl

end Observation

/-! Only `evsets_add`, `event_reset` and `event_destroy` write what a `mark` shows. -/

section Marks

variable (s : EventSet κ) (ev : Nat)

/-- Whether an event belongs to the set, and the timeout it was last added with. -/
def mark (s : EventSet κ) (a : Nat) : Bool × Option Int := ((s.event a).evsets, (s.event a).lastAdd)

theorem modify_mark {f : Event κ → Event κ}
    (h : ∀ e, ((f e).evsets, (f e).lastAdd) = (e.evsets, e.lastAdd)) :
    (s.modify ev f).mark = s.mark := by
  funext a
  simp only [mark, modify_event]
  split
  · rename_i ha
    rw [ha, h]
  · rfl

theorem mark_blind : Blind (mark : EventSet κ → Nat → Bool × Option Int) :=
  ⟨fun s ev _ hg => modify_mark s ev hg, fun _ _ _ => rfl, fun _ _ _ => rfl⟩

theorem eventQueueInsert_mark (type : QueueType) : (s.eventQueueInsert ev type).mark = s.mark :=
  mark_blind.insert s ev type

theorem eventQueueRemove_mark (type : QueueType) : (s.eventQueueRemove ev type).mark = s.mark :=
  mark_blind.remove s ev type

theorem eventQueueInsert_evsets (type : QueueType) (a : Nat) :
    ((s.eventQueueInsert ev type).event a).evsets = (s.event a).evsets :=
  congrArg Prod.fst (congrFun (eventQueueInsert_mark s ev type) a)

theorem eventQueueRemove_evsets (type : QueueType) (a : Nat) :
    ((s.eventQueueRemove ev type).event a).evsets = (s.event a).evsets :=
  congrArg Prod.fst (congrFun (eventQueueRemove_mark s ev type) a)

end Marks

section Consistency

variable {s : EventSet κ} {ev : Nat}

/-- Changing what the lists do not depend on. -/
theorem Consistent.modify (h : s.Consistent) {f : Event κ → Event κ}
    (hf : ∀ e, (f e).inserted = e.inserted ∧ (f e).timer = e.timer ∧ (f e).active = e.active ∧
      (f e).timerIndex = e.timerIndex ∧ (e.evsets = true → (f e).evsets = true)) :
    (s.modify ev f).Consistent := by
  refine h.only (modify_only s ev f) ?_
  have hs := h.linked ev
  obtain ⟨hins, htimer, hactive, hindex, hsets⟩ := hf (s.event ev)
  have hevent : (s.modify ev f).event ev = f (s.event ev) := by rw [modify_event, if_pos rfl]
  refine ⟨?_, ?_, ?_, ?_, ?_⟩
  · rw [hevent, hins]; exact hs.eventlist
  · rw [hevent, hactive]; exact hs.activelist
  · rw [hevent, htimer, hindex]; exact hs.bucket
  · rw [hevent, htimer, hindex]; exact hs.index
  · rw [hevent, EventView.linked, hins, htimer, hactive]
    exact fun hl => hsets (hs.sets hl)

/-- Only the events, the lists and the buckets count. -/
theorem Consistent.of_lists {t : EventSet κ} (h : s.Consistent) (hevent : t.event = s.event)
    (heventlist : t.eventlist = s.eventlist) (hactivelist : t.activelist = s.activelist)
    (hbuckets : t.coreTimer.bucketArray = s.coreTimer.bucketArray)
    (hcount : t.coreTimer.bucketCount = s.coreTimer.bucketCount) : t.Consistent := by
  refine ⟨fun a => ?_, hcount ▸ h.pos, hcount ▸ h.fits⟩
  obtain ⟨hins, hactive, hbucket, hindex, hsets⟩ := h.linked a
  constructor
  · rw [heventlist, hevent]; exact hins
  · rw [hactivelist, hevent]; exact hactive
  · rw [hbuckets, hevent]; exact hbucket
  · rw [hcount, hevent]; exact hindex
  · rw [hevent]; exact hsets

theorem Consistent.emit (h : s.Consistent) (e : EventEffect) : (s.emit e).Consistent :=
  h.of_lists rfl rfl rfl rfl rfl

/-- The event `ev` enters one of the lists. -/
theorem Consistent.insert (h : s.Consistent) (type : QueueType)
    (hsets : (s.event ev).evsets = true)
    (htv : type = .timer → 0 ≤ (s.event ev).timerMsecs) :
    (s.eventQueueInsert ev type).Consistent := by
  refine h.only (eventQueueInsert_only s ev type) ?_
  have hs := h.linked ev
  unfold eventQueueInsert
  split
  · exact hs
  rename_i hclear
  cases type with
  | inserted =>
    have hbit : (s.event ev).inserted = false := by simpa [status] using hclear
    refine ⟨?_, ?_, ?_, ?_, ?_⟩
    · show (s.eventlist ++ [ev]).count ev = _
      simp [setStatus, hs.eventlist, hbit]
    · simpa [setStatus] using hs.activelist
    · simpa [setStatus] using hs.bucket
    · simpa [setStatus] using hs.index
    · simp [setStatus, hsets]
  | active =>
    have hbit : (s.event ev).active = false := by simpa [status] using hclear
    refine ⟨?_, ?_, ?_, ?_, ?_⟩
    · simpa [setStatus] using hs.eventlist
    · show (s.activelist ++ [ev]).count ev = _
      simp [setStatus, hs.activelist, hbit]
    · simpa [setStatus] using hs.bucket
    · simpa [setStatus] using hs.index
    · simp [setStatus, hsets]
  | timer =>
    have hbit : (s.event ev).timer = false := by simpa [status] using hclear
    have hindex := s.coreTimer.evtimerIndex_lt h.pos h.fits
    -- it was in no bucket before, so that it is in one of them now
    have hempty : ∀ b, (s.coreTimer.bucketArray b).count ev = 0 := by
      intro b
      rw [hs.bucket b, hbit]
      rfl
    have hmsecs : ¬((s.setStatus ev .timer true).event ev).timerMsecs < 0 := by
      simpa [setStatus] using htv rfl
    show (evtimerAppend _ ev).Linked ev
    unfold evtimerAppend
    dsimp only
    rw [if_neg hmsecs]
    refine ⟨?_, ?_, ?_, ?_, ?_⟩
    · simpa [setStatus] using hs.eventlist
    · simpa [setStatus] using hs.activelist
    · intro b
      rw [setTimer_coreTimer, EvTimer.link_bucketArray]
      have hsame : ∀ c, ((s.setStatus ev .timer true).coreTimer.bucketArray c).count ev = 0 := hempty
      generalize (s.setStatus ev .timer true).coreTimer.indexFor
        ((s.setStatus ev .timer true).event ev).timerMsecs = i
      by_cases hb : b = i
      · rw [if_pos hb, List.count_append, hsame]
        simp [setStatus, hb]
      · have hplace : ¬(i : Int) = b := by omega
        rw [if_neg hb, hsame]
        simp [setStatus, hplace]
    · intro _
      have hbound : s.coreTimer.indexFor (s.event ev).timerMsecs < s.coreTimer.bucketCount :=
        hindex _
      simpa [setStatus] using hbound
    · simp [setStatus, hsets]

/-- The event `ev` leaves one of the lists. -/
theorem Consistent.remove (h : s.Consistent) (ev : Nat) (type : QueueType) :
    (s.eventQueueRemove ev type).Consistent := by
  refine h.only (eventQueueRemove_only s ev type) ?_
  have hs := h.linked ev
  unfold eventQueueRemove
  split
  · rename_i hset
    cases type with
    | inserted =>
      have hbit : (s.event ev).inserted = true := hset
      refine ⟨?_, ?_, ?_, ?_, ?_⟩
      · show (s.eventlist.erase ev).count ev = _
        simp [setStatus, hs.eventlist, hbit]
      · simpa [setStatus] using hs.activelist
      · simpa [setStatus] using hs.bucket
      · simpa [setStatus] using hs.index
      · simp [setStatus, hs.sets (by simp [EventView.linked, hbit])]
    | active =>
      have hbit : (s.event ev).active = true := hset
      refine ⟨?_, ?_, ?_, ?_, ?_⟩
      · simpa [setStatus] using hs.eventlist
      · show (s.activelist.erase ev).count ev = _
        simp [setStatus, hs.activelist, hbit]
      · simpa [setStatus] using hs.bucket
      · simpa [setStatus] using hs.index
      · simp [setStatus, hs.sets (by simp [EventView.linked, hbit])]
    | timer =>
      have hbit : (s.event ev).timer = true := hset
      obtain ⟨hlow, hhigh⟩ := hs.index hbit
      have hrange : ¬(((s.setStatus ev .timer false).event ev).timerIndex < 0 ∨
          ((s.setStatus ev .timer false).coreTimer.bucketCount : Int) ≤
            ((s.setStatus ev .timer false).event ev).timerIndex) := by
        simp only [setStatus, modify_event, modify_coreTimer, if_true]
        omega
      show (evtimerRemove _ ev).Linked ev
      unfold evtimerRemove
      dsimp only
      rw [if_neg hrange]
      refine ⟨?_, ?_, ?_, ?_, ?_⟩
      · simpa [setStatus] using hs.eventlist
      · simpa [setStatus] using hs.activelist
      · intro b
        rw [setTimer_coreTimer, EvTimer.unlink_bucketArray]
        have hnow : ((s.setStatus ev .timer false).event ev).timerIndex =
            (s.event ev).timerIndex := by simp [setStatus]
        have hcount := hs.bucket b
        rw [hnow]
        split
        · -- the one place of the event
          rename_i hb
          have hplace : (s.event ev).timerIndex = b := by omega
          rw [← hb]
          show ((s.coreTimer.bucketArray b).erase ev).count ev = _
          rw [if_pos ⟨hbit, hplace⟩] at hcount
          simp [setStatus, hcount]
        · rename_i hb
          have hplace : (s.event ev).timerIndex ≠ b := by omega
          rw [if_neg fun h => hplace h.2] at hcount
          show (s.coreTimer.bucketArray b).count ev = _
          simp [setStatus, hcount]
      · simp [setStatus]
      · simp [setStatus, hs.sets (by simp [EventView.linked, hbit])]
  · exact hs

/-- An activated event was added to the set before. -/
theorem Consistent.eventActive (h : s.Consistent) (res : EvMask)
    (hsets : (s.event ev).evsets = true) : (s.eventActive ev res).Consistent := by
  have hemit := h.emit (.activate ev res (s.event ev).lastAdd)
  unfold EventSet.eventActive
  dsimp only
  split
  · exact hemit.modify fun e => ⟨rfl, rfl, rfl, rfl, id⟩
  · apply Consistent.insert
    · exact hemit.modify fun e => ⟨rfl, rfl, rfl, rfl, id⟩
    · simpa using hsets
    · intro hfalse
      cases hfalse

/-- `evsets_del` takes the event out of all lists. -/
theorem Consistent.evsetsDel (h : s.Consistent) (pollDel : Int) :
    (s.evsetsDel ev pollDel).1.Consistent := by
  have hboth := (h.remove ev .timer).remove ev .active
  unfold EventSet.evsetsDel
  dsimp only
  split
  · exact hboth.remove ev .inserted
  · exact hboth

/-- Leaving a list on a condition, as `evsets_add` and `evsets_process_active` do it. -/
theorem Consistent.removeIf (h : s.Consistent) (ev : Nat) (type : QueueType) (c : Bool) :
    (if c then s.eventQueueRemove ev type else s).Consistent := by
  cases c with
  | true => exact h.remove ev type
  | false => exact h

theorem removeIf_evsets (s : EventSet κ) (ev : Nat) (type : QueueType) (c : Bool) (a : Nat) :
    ((if c then s.eventQueueRemove ev type else s).event a).evsets = (s.event a).evsets := by
  cases c with
  | true => exact eventQueueRemove_evsets s ev type a
  | false => rfl

theorem removeIf_timerMsecs (s : EventSet κ) (ev : Nat) (type : QueueType) (c : Bool) :
    ((if c then s.eventQueueRemove ev type else s).event ev).timerMsecs = (s.event ev).timerMsecs := by
  cases c with
  | true =>
    rw [if_pos rfl, eventQueueRemove_self]
    cases type <;> rfl
  | false => rfl

/-- `evsets_add` may watch the descriptor. -/
theorem Consistent.addPoll (h : s.Consistent) (hsets : (s.event ev).evsets = true) (pollAdd : Bool) :
    (s.addPoll ev pollAdd).1.Consistent ∧ ((s.addPoll ev pollAdd).1.event ev).evsets = true := by
  unfold EventSet.addPoll
  dsimp only
  split
  · split
    · exact ⟨h.insert .inserted hsets (by simp), by rwa [eventQueueInsert_evsets]⟩
    · exact ⟨h, hsets⟩
  · exact ⟨h, hsets⟩

/-- `evsets_add` may arm the timer. -/
theorem Consistent.addTimer (h : s.Consistent) (hsets : (s.event ev).evsets = true) (tv : Int) :
    (s.addTimer ev tv).1.Consistent := by
  unfold EventSet.addTimer
  split
  · rename_i htv
    have htimer := h.remove ev .timer
    have hactive := htimer.removeIf ev .active ((s.eventQueueRemove ev .timer).event ev).results.timeout
    apply Consistent.insert
    · exact hactive.modify fun e => ⟨rfl, rfl, rfl, rfl, id⟩
    · rw [modify_event, if_pos rfl, removeIf_evsets, eventQueueRemove_evsets]
      exact hsets
    · intro _
      rw [modify_event, if_pos rfl]
      exact htv
  · exact h

theorem Consistent.evsetsAdd (h : s.Consistent) (tv : Int) (pollAdd : Bool) :
    (s.evsetsAdd ev tv pollAdd).1.Consistent := by
  have hmark : (s.modify ev fun e => { e with evsets := true, lastAdd := some tv }).Consistent :=
    h.modify fun e => ⟨rfl, rfl, rfl, rfl, fun _ => rfl⟩
  have hsets : ((s.modify ev fun e => { e with evsets := true, lastAdd := some tv }).event ev).evsets =
    true := by simp
  obtain ⟨hpoll, hsets'⟩ := hmark.addPoll hsets pollAdd
  exact hpoll.addTimer hsets' tv

/-- An event that is in no list can be anything. -/
theorem Consistent.clear (h : s.Consistent) (hfree : (s.event ev).linked = false)
    (l : Event κ → Option Int) :
    (s.modify ev fun e => { lastAdd := l e }).Consistent := by
  refine h.only (modify_only s ev _) ?_
  have hs := h.linked ev
  obtain ⟨⟨hins, htimer⟩, hactive⟩ : ((s.event ev).inserted = false ∧ (s.event ev).timer = false) ∧
      (s.event ev).active = false := by simpa [EventView.linked] using hfree
  refine ⟨?_, ?_, ?_, ?_, ?_⟩
  · simp [hs.eventlist, hins]
  · simp [hs.activelist, hactive]
  · intro b
    simp [hs.bucket b, htimer]
  · simp
  · simp [EventView.linked]

theorem Consistent.eventReset (h : s.Consistent) (pollDel : Int) :
    (s.eventReset ev pollDel).Consistent := by
  unfold EventSet.eventReset
  split
  · refine (h.evsetsDel pollDel).clear ?_ _
    rw [evsetsDel_self]
    rfl
  · rename_i hsets
    refine h.clear ?_ _
    -- an event that was never added is in no list
    exact Bool.eq_false_iff.mpr (mt (h.linked ev).sets hsets)

theorem Consistent.runOp (h : s.Consistent) (op : EventOp κ) : (s.runOp op).Consistent := by
  cases op with
  | add ev tv pollAdd =>
    simp only [EventSet.runOp]
    split
    · exact h.evsetsAdd tv pollAdd
    · exact h
  | del ev pollDel =>
    simp only [EventSet.runOp]
    split
    · exact h.evsetsDel pollDel
    · exact h
  | set ev fd events =>
    simp only [EventSet.runOp]
    apply h.modify
    intro e
    exact ⟨rfl, rfl, rfl, rfl, id⟩
  | setCallback ev cb =>
    simp only [EventSet.runOp]
    apply h.modify
    intro e
    exact ⟨rfl, rfl, rfl, rfl, id⟩
  | reset ev pollDel => exact h.eventReset pollDel
  | destroy ev =>
    simp only [EventSet.runOp]
    split
    · exact h
    · rename_i hfree
      exact h.clear (by simpa using hfree) fun _ => none

theorem Consistent.runOps (h : s.Consistent) (ops : List (EventOp κ)) :
    (s.runOps ops).Consistent := by
  induction ops generalizing s with
  | nil => exact h
  | cons op ops ih => exact ih (h.runOp op)

/-! ## Dispatching -/

/-- An event in a bucket is in the wheel, and in this bucket. -/
theorem Consistent.of_mem_bucket (h : s.Consistent) {b : Nat}
    (hmem : ev ∈ s.coreTimer.bucketArray b) :
    (s.event ev).timer = true ∧ (s.event ev).timerIndex = b := by
  by_contra hnone
  have hcount := (h.linked ev).bucket b
  rw [if_neg hnone] at hcount
  exact List.count_eq_zero.mp hcount hmem

/-- An event that is not in the wheel is in none of its buckets. -/
theorem Consistent.not_mem_bucket (h : s.Consistent) (hfree : (s.event ev).timer = false) (b : Nat) :
    ev ∉ s.coreTimer.bucketArray b := by
  intro hmem
  have htimer := (h.of_mem_bucket hmem).1
  rw [hfree] at htimer
  cases htimer

/-- `evtimer_dispatch` clears the bit after it unlinked the event, `event_queue_remove`
before. -/
theorem evtimerRemove_setStatus (s : EventSet κ) (ev : Nat) (htimer : (s.event ev).timer = true) :
    (s.evtimerRemove ev).setStatus ev .timer false = s.eventQueueRemove ev .timer := by
  unfold eventQueueRemove evtimerRemove setStatus
  rw [if_pos (show status (s.event ev) .timer = true from htimer)]
  simp only [modify_event, modify_coreTimer, if_true]
  split
  · rfl
  · simp only [EventSet.modify, EventSet.setTimer, Function.update_idem, Function.update_self]

theorem Consistent.evtimerDispatchOne (h : s.Consistent) {b : Nat} (rc : Int)
    (hmem : ev ∈ s.coreTimer.bucketArray b) : (s.evtimerDispatchOne b ev rc).1.Consistent := by
  have hstep : (s.modify ev fun e => { e with timerStepcnt := e.timerStepcnt - 1 }).Consistent :=
    h.modify fun e => ⟨rfl, rfl, rfl, rfl, id⟩
  have hmem' : ev ∈ (s.modify ev fun e =>
    { e with timerStepcnt := e.timerStepcnt - 1 }).coreTimer.bucketArray b := hmem
  unfold EventSet.evtimerDispatchOne
  dsimp only
  generalize (s.modify ev fun e => { e with timerStepcnt := e.timerStepcnt - 1 }) = t at hstep hmem'
  split
  · -- the event goes to the end of its bucket
    have hcount : ∀ a c, ((t.setTimer (t.coreTimer.setBucket b
        ((t.coreTimer.bucketArray b).erase ev ++ [ev]))).coreTimer.bucketArray c).count a =
          (t.coreTimer.bucketArray c).count a := by
      intro a c
      rw [setTimer_coreTimer, EvTimer.setBucket_bucketArray]
      split
      · rename_i hc
        rw [hc]
        exact ((List.perm_append_singleton ev _).trans
          (List.perm_cons_erase hmem').symm).count_eq a
      · rfl
    exact ⟨fun a => ⟨(hstep.linked a).eventlist, (hstep.linked a).activelist,
      fun c => (hcount a c).trans ((hstep.linked a).bucket c), (hstep.linked a).index,
      (hstep.linked a).sets⟩, hstep.pos, hstep.fits⟩
  · obtain ⟨htimer, -⟩ := hstep.of_mem_bucket hmem'
    have hremoved := hstep.remove ev .timer
    have hsets : ((t.eventQueueRemove ev .timer).event ev).evsets = true := by
      rw [eventQueueRemove_evsets]
      exact (hstep.linked ev).sets (by simp [EventView.linked, htimer])
    rw [evtimerRemove_setStatus t ev htimer]
    split
    · exact hremoved.eventActive _ hsets
    · exact hremoved

theorem Consistent.evtimerDispatchLoop (h : s.Consistent) (b laster fuel : Nat) (rc : Int) :
    (EventSet.evtimerDispatchLoop b laster fuel s rc).1.Consistent := by
  induction fuel generalizing s rc with
  | zero => exact h
  | succ fuel ih =>
    unfold EventSet.evtimerDispatchLoop
    split
    · exact h
    · rename_i ev rest hbucket
      have hmem : ev ∈ s.coreTimer.bucketArray b := by
        rw [hbucket]
        exact List.mem_cons_self ..
      have hone := h.evtimerDispatchOne rc hmem
      dsimp only
      split
      · exact hone
      · exact ih hone _

theorem Consistent.evtimerDispatch (h : s.Consistent) : s.evtimerDispatch.1.Consistent := by
  have htick : (s.setTimer { s.coreTimer with
      dispatchRefer := s.coreTimer.dispatchRefer + 1 }).Consistent :=
    h.of_lists rfl rfl rfl rfl rfl
  unfold EventSet.evtimerDispatch
  dsimp only
  split
  · exact htick
  · exact htick.evtimerDispatchLoop _ _ _ 0

/-! ## Processing -/

theorem Consistent.beforeCallback (h : s.Consistent) (hsets : (s.event ev).evsets = true) :
    (s.beforeCallback ev).Consistent := by
  have hactive := h.remove ev .active
  unfold EventSet.beforeCallback
  split
  · exact h.evsetsDel 0
  · dsimp only
    split
    · rename_i htv
      -- whether it is taken out of the wheel first depends on its results
      have htimer := hactive.removeIf ev .timer (!((s.eventQueueRemove ev .active).event ev).results.timeout)
      apply htimer.insert .timer
      · rw [removeIf_evsets, eventQueueRemove_evsets]
        exact hsets
      · intro _
        rw [removeIf_timerMsecs]
        exact htv
    · exact hactive

/-- An event of the active list is active, and belongs to the set. -/
theorem Consistent.of_mem_activelist (h : s.Consistent) (hmem : ev ∈ s.activelist) :
    (s.event ev).active = true ∧ (s.event ev).evsets = true := by
  have hactive : (s.event ev).active = true := by
    by_contra hnone
    have hcount := (h.linked ev).activelist
    rw [Bool.eq_false_iff.mpr hnone] at hcount
    exact List.count_eq_zero.mp hcount hmem
  exact ⟨hactive, (h.linked ev).sets (by simp [EventView.linked, hactive])⟩

theorem Consistent.processOne (h : s.Consistent) (hmem : ev ∈ s.activelist)
    (ops : List (EventOp κ)) : (s.processOne ev ops).Consistent :=
  ((h.beforeCallback (h.of_mem_activelist hmem).2).emit _).runOps ops

theorem Consistent.processActiveLoop (h : s.Consistent) (fuel : Nat)
    (callbacks : List (List (EventOp κ))) (rc : Int) :
    (EventSet.processActiveLoop fuel callbacks s rc).1.Consistent := by
  induction fuel generalizing s callbacks rc with
  | zero => exact h
  | succ fuel ih =>
    unfold EventSet.processActiveLoop
    split
    · exact h
    · rename_i ev rest hactive
      exact ih (h.processOne (by rw [hactive]; simp) _) _ _

theorem Consistent.pollReport (h : s.Consistent) (ev : Nat) (res : EvMask) :
    (s.pollReport ev res).Consistent := by
  unfold EventSet.pollReport
  split
  · rename_i hins
    exact h.eventActive _ ((h.linked ev).sets (by simp [EventView.linked, hins]))
  · exact h

theorem Consistent.evsetsDispatch (h : s.Consistent) (reports : List (Nat × EvMask)) (now : Int)
    (callbacks : List (List (EventOp κ))) :
    (s.evsetsDispatch reports now callbacks).1.Consistent := by
  have hreports : (reports.foldl (fun s r => s.pollReport r.1 r.2) s).Consistent := by
    induction reports generalizing s with
    | nil => exact h
    | cons r rs ih => exact ih (h.pollReport r.1 r.2)
  unfold EventSet.evsetsDispatch
  dsimp only
  generalize reports.foldl (fun s r => s.pollReport r.1 r.2) s = t at hreports
  apply Consistent.processActiveLoop
  split
  · exact hreports.evtimerDispatch.of_lists rfl rfl rfl rfl rfl
  · exact hreports

end Consistency

end EventSet

/-! ## Runs -/

/-- The inputs of an event set. -/
inductive SetInput (κ : Type) where
  /-- A call on one event, from outside the callbacks. -/
  | op (op : EventOp κ)
  /-- The poller reports an event that it watches. -/
  | report (ev : Nat) (res : EvMask)
  /-- `evtimer_dispatch` -/
  | tick
  /-- `evsets_process_active`, with what the callbacks do. -/
  | process (callbacks : List (List (EventOp κ)))
  /-- `evsets_dispatch`, with what the poller reports, the time after that, and what the
  callbacks do. -/
  | dispatch (reports : List (Nat × EvMask)) (now : Int) (callbacks : List (List (EventOp κ)))

namespace EventSet

variable {κ : Type}

/-- One step of an event set. -/
def step (s : EventSet κ) : SetInput κ → Option (EventSet κ)
  | .op op => some (s.runOp op)
  | .report ev res => some (s.pollReport ev res)
  | .tick => some s.evtimerDispatch.1
  | .process callbacks => some (s.evsetsProcessActive callbacks).1
  | .dispatch reports now callbacks => some (s.evsetsDispatch reports now callbacks).1

theorem Consistent.step {s t : EventSet κ} {i : SetInput κ} (h : s.Consistent)
    (hstep : s.step i = some t) : t.Consistent := by
  cases i with
  | op op =>
    cases hstep
    exact h.runOp op
  | report ev res =>
    cases hstep
    exact h.pollReport ev res
  | tick =>
    cases hstep
    exact h.evtimerDispatch
  | process callbacks =>
    cases hstep
    exact h.processActiveLoop _ callbacks 0
  | dispatch reports now callbacks =>
    cases hstep
    exact h.evsetsDispatch reports now callbacks

theorem evsetsCreate_consistent (precision now : Int) :
    (evsetsCreate precision now : EventSet κ).Consistent := by
  refine ⟨fun a => ⟨rfl, rfl, fun b => rfl, ?_, ?_⟩, ?_, ?_⟩
  · intro h
    cases h
  · intro h
    cases h
  · show 1 ≤ timerBucketCount
    decide
  · show timerBucketCount ≤ 2 ^ 32
    decide

/-- What an event set reaches from its creation on. -/
theorem consistent_of_run {precision now : Int} {is : List (SetInput κ)} {s : EventSet κ}
    (hrun : Lib.Run step (evsetsCreate precision now) is s) : s.Consistent :=
  hrun.invariant (I := Consistent) (evsetsCreate_consistent precision now)
    fun _ _ _ h _ hstep => h.step hstep

/-- In every run of an event set, the three bits of an event say exactly where it is: it is
once in the event list, in the active list, and in the bucket of the wheel that its index
names, and otherwise not there at all. -/
theorem status_iff_member (precision now : Int) (is : List (SetInput κ)) (s : EventSet κ)
    (hrun : Lib.Run step (evsetsCreate precision now) is s) (ev : Nat) :
    s.eventlist.count ev = (if (s.event ev).inserted then 1 else 0) ∧
      s.activelist.count ev = (if (s.event ev).active then 1 else 0) ∧
      (∀ b < s.coreTimer.bucketCount, (s.coreTimer.bucketArray b).count ev =
        if (s.event ev).timer = true ∧ (s.event ev).timerIndex = b then 1 else 0) ∧
      ((s.event ev).timer = true →
        ∃ b < s.coreTimer.bucketCount, (s.event ev).timerIndex = b) := by
  have hlinked := (consistent_of_run hrun).linked ev
  refine ⟨?_, ?_, fun b _ => hlinked.bucket b, fun htimer => ?_⟩
  · rw [hlinked.eventlist]
    cases (s.event ev).inserted <;> rfl
  · rw [hlinked.activelist]
    cases (s.event ev).active <;> rfl
  · obtain ⟨hlow, hhigh⟩ := hlinked.index htimer
    exact ⟨(s.event ev).timerIndex.toNat, by omega, by omega⟩

/-- An event is added for reading with a timeout of a second, the descriptor becomes
readable, and the callback runs. -/
def readOnce : List (SetInput Nat) :=
  [.op (.set 3 5 .evRead), .op (.setCallback 3 0), .op (.add 3 1000 true), .report 3 .evRead, .tick]

theorem status_iff_member_readOnce :
    ∃ s, Lib.exec step (evsetsCreate 8 0) readOnce = some s ∧ s.activelist = [3] ∧
      s.eventlist.count 3 = (if (s.event 3).inserted then 1 else 0) ∧
      s.activelist.count 3 = (if (s.event 3).active then 1 else 0) ∧
      (∀ b < s.coreTimer.bucketCount, (s.coreTimer.bucketArray b).count 3 =
        if (s.event 3).timer = true ∧ (s.event 3).timerIndex = b then 1 else 0) ∧
      ((s.event 3).timer = true → ∃ b < s.coreTimer.bucketCount, (s.event 3).timerIndex = b) :=
  ⟨_, rfl, by decide +kernel, status_iff_member 8 0 readOnce _ (Lib.run_iff_exec.mpr rfl) 3⟩

end EventSet

end Evlite
