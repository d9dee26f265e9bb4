import Evlite.Event.Ticks
import Evlite.Lib.Traversal

/-!
# Destroying an Event Set

`evsets_destroy` walks the event list, the buckets of the wheel and the active list, and
deletes every event it meets. A deletion takes the event out of all three, so that the
later walks only find what the earlier ones did not reach. `iothread_stop` goes on to free
acceptors, drivers and sessions, and each of them deletes its events once more.

No function of the source sets `EVSTATUS_INTERNAL`, so the test for it is left out. What the
poller answers to its `del` is not read.

## Main results

- `evtimerClean_spec`: `evtimer_clean` empties every bucket.
- `evsets_destroy_unlinks`: after `evsets_destroy` no event is in any list, and calls of
  `evsets_del`, `event_reset` and `event_destroy` do not touch the set any more.
-/

namespace Evlite

namespace EventSet

variable {κ : Type} {s : EventSet κ} {ev : Nat}

/-! ## evsets_destroy -/

/-- One round of the loops over the event list and over the active list. -/
def deleteVisit (s : EventSet κ) (ev : Nat) : EventSet κ := (s.evsetsDel ev 0).1

/-- One round of the loop of `evtimer_clean`. -/
def cleanVisit (r : EventSet κ × Int) (ev : Nat) : EventSet κ × Int :=
  let s := (r.1.evsetsDel ev 0).1
  (s.setTimer { s.coreTimer with eventCount := s.coreTimer.eventCount - 1 }, r.2 + 1)

/-- The loop of `evtimer_clean` over one bucket. -/
def cleanBucket (r : EventSet κ × Int) (b : Nat) : EventSet κ × Int :=
  Lib.Traversal.walk (fun r => r.1.coreTimer.bucketArray b) cleanVisit r

/-- `evtimer_clean` -/
def evtimerClean (s : EventSet κ) : EventSet κ × Int :=
  let r := (List.range s.coreTimer.bucketCount).foldl cleanBucket (s, 0)
  (r.1.setTimer { r.1.coreTimer with dispatchRefer := 0 }, r.2)

/-- `evsets_destroy`, up to the point where the wheel, the poller and the set are freed. -/
def evsetsDestroy (s : EventSet κ) : EventSet κ :=
  let s := Lib.Traversal.walk eventlist deleteVisit s
  let s := s.evtimerClean.1
  Lib.Traversal.walk activelist deleteVisit s

end EventSet

/-! ## Events of a set that is gone -/

/-- The calls that the owner of an event makes after its set was destroyed. -/
inductive OwnerCall where
  | del (ev : Nat)
  | reset (ev : Nat)
  | destroy (ev : Nat)
deriving DecidableEq, Repr

namespace Event

variable {κ : Type}

/-- `evsets_del( sets, ev )` when `sets` is gone: the result, or `none` if the call follows
the pointer `sets`. -/
def evsetsDelGone (e : Event κ) : Option Int :=
  if e.timer then none
  else if e.active then none
  else if e.inserted then none
  else some 0

/-- The event as `event_create` returns it, and `event_reset` leaves it. -/
def blank (e : Event κ) : Event κ := { lastAdd := e.lastAdd }

/-- `event_reset` when the set is gone. -/
def eventResetGone (e : Event κ) : Option (Event κ) :=
  if e.evsets then e.evsetsDelGone.map fun _ => e.blank else some e.blank

end Event

/-- One call of an owner on the events of a set that is gone, with its result, or `none` if
the call touches the set. -/
def ownerCall {κ : Type} (event : Nat → Event κ) : OwnerCall → Option ((Nat → Event κ) × Int)
  | .del ev => (event ev).evsetsDelGone.map fun rc => (event, rc)
  | .reset ev => (event ev).eventResetGone.map fun e => (Function.update event ev e, 0)
  | .destroy ev => some (Function.update event ev {}, 0)

/-- A list of such calls, with their results. -/
def ownerCalls {κ : Type} (event : Nat → Event κ) : List OwnerCall → Option (List Int)
  | [] => some []
  | c :: cs => (ownerCall event c).bind fun r => (ownerCalls r.1 cs).map fun rcs => r.2 :: rcs

namespace EventSet

variable {κ : Type} {s : EventSet κ} {ev : Nat}

/-! ## What a deletion does to the lists -/

theorem eventQueueRemove_eventlist (s : EventSet κ) (ev : Nat) {type : QueueType}
    (h : type ≠ .inserted) : (s.eventQueueRemove ev type).eventlist = s.eventlist := by
  unfold eventQueueRemove
  split
  · cases type with
    | inserted => exact absurd rfl h
    | active => rfl
    | timer =>
      show ((s.setStatus ev .timer false).evtimerRemove ev).eventlist = _
      unfold evtimerRemove
      dsimp only
      split <;> rfl
  · rfl

/-- Leaving the event list. -/
theorem eventQueueRemove_inserted (h : s.Consistent) :
    (s.eventQueueRemove ev .inserted).eventlist = s.eventlist.erase ev := by
  unfold eventQueueRemove
  split
  · rfl
  · rename_i hclear
    have hcount := (h.linked ev).eventlist
    have hbit : (s.event ev).inserted = false := by simpa [status] using hclear
    rw [hbit] at hcount
    exact (List.erase_of_not_mem (List.count_eq_zero.mp hcount)).symm

theorem eventQueueRemove_coreTimer (s : EventSet κ) (ev : Nat) {type : QueueType}
    (h : type ≠ .timer) : (s.eventQueueRemove ev type).coreTimer = s.coreTimer := by
  unfold eventQueueRemove
  split
  · cases type with
    | inserted => rfl
    | active => rfl
    | timer => exact absurd rfl h
  · rfl

theorem eventQueueRemove_of_free (h : (s.event ev).timer = false) : s.eventQueueRemove ev .timer = s := by
  unfold eventQueueRemove
  rw [if_neg (by rw [status, h]; decide)]

/-- Leaving the wheel, whether or not the event is in it. -/
theorem eventQueueRemove_buckets (h : s.Consistent) (c : Nat) :
    (s.eventQueueRemove ev .timer).coreTimer.bucketArray c =
      (s.coreTimer.bucketArray c).erase ev := by
  cases htimer : (s.event ev).timer with
  | false => rw [eventQueueRemove_of_free htimer, List.erase_of_not_mem (h.not_mem_bucket htimer c)]
  | true =>
    -- the bucket that the event remembers is the one it is in
    obtain ⟨b, -, hb, hmem⟩ := h.mem_bucket htimer
    rw [eventQueueRemove_bucket h hmem c]
    split
    · rename_i hc
      rw [hc]
    · rename_i hc
      -- the event is in no other bucket
      have habsent : ev ∉ s.coreTimer.bucketArray c := by
        intro hin
        have hplace := (h.of_mem_bucket hin).2
        omega
      rw [List.erase_of_not_mem habsent]

/-- Of the wheel, `evsets_del` changes what `event_queue_remove` does. -/
theorem evsetsDel_coreTimer (s : EventSet κ) (ev : Nat) (pollDel : Int) :
    (s.evsetsDel ev pollDel).1.coreTimer = (s.eventQueueRemove ev .timer).coreTimer := by
  unfold evsetsDel
  dsimp only
  split
  · rw [eventQueueRemove_coreTimer _ ev (by decide), eventQueueRemove_coreTimer _ ev (by decide)]
  · exact eventQueueRemove_coreTimer _ ev (by decide)

/-- `evsets_del` takes the event out of every list and leaves the others in their order. -/
theorem evsetsDel_lists (h : s.Consistent) (ev : Nat) (pollDel : Int) :
    (s.evsetsDel ev pollDel).1.eventlist = s.eventlist.erase ev ∧
      (s.evsetsDel ev pollDel).1.activelist = s.activelist.erase ev ∧
      ∀ c, (s.evsetsDel ev pollDel).1.coreTimer.bucketArray c =
        (s.coreTimer.bucketArray c).erase ev := by
  have hevents : ((s.eventQueueRemove ev .timer).eventQueueRemove ev .active).eventlist = s.eventlist := by
    rw [eventQueueRemove_eventlist _ ev (by decide), eventQueueRemove_eventlist _ ev (by decide)]
  refine ⟨?_, evsetsDel_activelist h pollDel, fun c => ?_⟩
  · have hcons := (h.remove ev .timer).remove ev .active
    have hleft : (((s.eventQueueRemove ev .timer).eventQueueRemove ev .active).eventQueueRemove ev
        .inserted).eventlist = _ := eventQueueRemove_inserted hcons
    rw [hevents] at hleft
    unfold evsetsDel
    dsimp only
    split
    · exact hleft
    · rename_i hclear
      -- the event is not in the list
      have hcount := (hcons.linked ev).eventlist
      rw [Bool.eq_false_iff.mpr hclear, hevents] at hcount
      rw [hevents, List.erase_of_not_mem (List.count_eq_zero.mp hcount)]
  · rw [evsetsDel_coreTimer, eventQueueRemove_buckets h]

theorem evsetsDel_bucketCount (s : EventSet κ) (ev : Nat) (pollDel : Int) :
    (s.evsetsDel ev pollDel).1.coreTimer.bucketCount = s.coreTimer.bucketCount := by
  rw [evsetsDel_coreTimer]
  exact (eventQueueRemove_only s ev .timer).bucketCount

/-! ## The three walks -/

theorem eventlist_nodup (h : s.Consistent) : s.eventlist.Nodup := by
  apply List.nodup_iff_count_le_one.mpr
  intro a
  rw [(h.linked a).eventlist]
  cases (s.event a).inserted <;> decide

theorem activelist_nodup (h : s.Consistent) : s.activelist.Nodup := by
  apply List.nodup_iff_count_le_one.mpr
  intro a
  rw [(h.linked a).activelist]
  cases (s.event a).active <;> decide

/-- The walk over the event list. -/
theorem walk_eventlist (h : s.Consistent) :
    (Lib.Traversal.walk eventlist deleteVisit s).Consistent ∧
      (Lib.Traversal.walk eventlist deleteVisit s).eventlist = [] :=
  Lib.Traversal.walk_spec (I := Consistent) h (eventlist_nodup h) fun _ a ht _ =>
    ⟨ht.evsetsDel 0, (evsetsDel_lists ht a 0).1⟩

/-- The event list and the first `n` buckets are empty. -/
structure Cleaned (N n : Nat) (s : EventSet κ) : Prop where
  consistent : s.Consistent
  eventlist : s.eventlist = []
  buckets : ∀ b < n, s.coreTimer.bucketArray b = []
  bucketCount : s.coreTimer.bucketCount = N

theorem Cleaned.cleanVisit {N n : Nat} {r : EventSet κ × Int} (h : Cleaned N n r.1) (ev : Nat) :
    Cleaned N n (EventSet.cleanVisit r ev).1 ∧ ∀ c,
      (EventSet.cleanVisit r ev).1.coreTimer.bucketArray c =
        (r.1.coreTimer.bucketArray c).erase ev := by
  obtain ⟨hevents, -, hwheel⟩ := evsetsDel_lists h.consistent ev 0
  have hcons : (r.1.evsetsDel ev 0).1.Consistent := h.consistent.evsetsDel 0
  refine ⟨⟨?_, ?_, fun b hb => ?_, ?_⟩, hwheel⟩
  · exact hcons.of_lists rfl rfl rfl rfl rfl
  · show (r.1.evsetsDel ev 0).1.eventlist = []
    rw [hevents, h.eventlist]
    rfl
  · show (r.1.evsetsDel ev 0).1.coreTimer.bucketArray b = []
    rw [hwheel, h.buckets b hb]
    rfl
  · exact (evsetsDel_bucketCount r.1 ev 0).trans h.bucketCount

/-- The walk over the next bucket. -/
theorem Cleaned.cleanBucket {N n : Nat} {r : EventSet κ × Int} (h : Cleaned N n r.1) :
    Cleaned N (n + 1) (EventSet.cleanBucket r n).1 := by
  have hvisit : ∀ (t : EventSet κ × Int) (a : Nat), Cleaned N n t.1 → a ∈ t.1.coreTimer.bucketArray n →
      Cleaned N n (EventSet.cleanVisit t a).1 ∧
        (EventSet.cleanVisit t a).1.coreTimer.bucketArray n = (t.1.coreTimer.bucketArray n).erase a :=
    fun _ a ht _ => ⟨(ht.cleanVisit a).1, (ht.cleanVisit a).2 n⟩
  have hwalk := Lib.Traversal.walk_spec (I := fun r : EventSet κ × Int => Cleaned N n r.1) h
    (bucket_nodup h.consistent n) hvisit
  -- the buckets before stay empty, since a deletion only takes out
  refine ⟨hwalk.1.consistent, hwalk.1.eventlist, fun b hb => ?_, hwalk.1.bucketCount⟩
  rcases Nat.lt_succ_iff_lt_or_eq.mp hb with hlt | rfl
  · exact hwalk.1.buckets b hlt
  · exact hwalk.2

theorem Cleaned.range {N : Nat} (h : Cleaned N 0 s) (n : Nat) :
    Cleaned N n ((List.range n).foldl EventSet.cleanBucket (s, 0)).1 := by
  induction n with
  | zero => exact h
  | succ n ih =>
    rw [List.range_succ, List.foldl_append]
    exact ih.cleanBucket

/-- `evtimer_clean` empties every bucket of the wheel. -/
theorem evtimerClean_spec (h : s.Consistent) (hevents : s.eventlist = []) :
    Cleaned s.coreTimer.bucketCount s.coreTimer.bucketCount s.evtimerClean.1 := by
  have hstart : Cleaned s.coreTimer.bucketCount 0 s :=
    ⟨h, hevents, fun b hb => absurd hb (Nat.not_lt_zero b), rfl⟩
  obtain ⟨hcons, hempty, hbuckets, hcount⟩ := hstart.range s.coreTimer.bucketCount
  exact ⟨hcons.of_lists rfl rfl rfl rfl rfl, hempty, hbuckets, hcount⟩

/-- The walk over the active list. -/
theorem Cleaned.walk_activelist {N : Nat} (h : Cleaned N N s) :
    Cleaned N N (Lib.Traversal.walk activelist deleteVisit s) ∧
      (Lib.Traversal.walk activelist deleteVisit s).activelist = [] := by
  refine Lib.Traversal.walk_spec (I := Cleaned N N) h (activelist_nodup h.consistent) fun t a ht _ => ?_
  obtain ⟨hevents, hactive, hwheel⟩ := evsetsDel_lists ht.consistent a 0
  refine ⟨⟨ht.consistent.evsetsDel 0, ?_, fun b hb => ?_, ?_⟩, hactive⟩
  · rw [deleteVisit, hevents, ht.eventlist]
    rfl
  · rw [deleteVisit, hwheel, ht.buckets b hb]
    rfl
  · exact (evsetsDel_bucketCount t a 0).trans ht.bucketCount

/-- In a set without list members no event has a bit set. -/
theorem Cleaned.linked {N : Nat} (h : Cleaned N N s) (hactive : s.activelist = []) (ev : Nat) :
    (s.event ev).linked = false := by
  obtain ⟨hevents, hactives, hbucket, hindex, -⟩ := h.consistent.linked ev
  have hins : (s.event ev).inserted = false := by
    rw [h.eventlist] at hevents
    exact Bool.toNat_eq_zero.mp hevents.symm
  have hact : (s.event ev).active = false := by
    rw [hactive] at hactives
    exact Bool.toNat_eq_zero.mp hactives.symm
  have htimer : (s.event ev).timer = false := by
    by_contra hset
    have htrue : (s.event ev).timer = true := by simpa using hset
    obtain ⟨hlow, hhigh⟩ := hindex htrue
    rw [h.bucketCount] at hhigh
    -- its bucket would hold it
    have hcount := hbucket (s.event ev).timerIndex.toNat
    rw [h.buckets _ (by omega), if_pos ⟨htrue, (Int.toNat_of_nonneg hlow).symm⟩] at hcount
    cases hcount
  simp [EventView.linked, hins, hact, htimer]

theorem evsetsDestroy_spec (h : s.Consistent) :
    Cleaned s.evsetsDestroy.coreTimer.bucketCount s.evsetsDestroy.coreTimer.bucketCount
        s.evsetsDestroy ∧ s.evsetsDestroy.activelist = [] := by
  -- each walk starts from what the one before left
  obtain ⟨hcons, hevents⟩ := walk_eventlist h
  obtain ⟨hcleaned, hactive⟩ := (evtimerClean_spec hcons hevents).walk_activelist
  refine ⟨?_, hactive⟩
  rw [← hcleaned.bucketCount] at hcleaned
  exact hcleaned

/-! ## Calls after the end -/

/-- On an event in no list, `evsets_del` does not follow the pointer to the set. -/
theorem evsetsDelGone_eq {e : Event κ} (h : e.linked = false) : e.evsetsDelGone = some 0 := by
  obtain ⟨⟨hins, htimer⟩, hactive⟩ : (e.inserted = false ∧ e.timer = false) ∧ e.active = false := by
    simpa [EventView.linked] using h
  rw [Event.evsetsDelGone, htimer, hactive, hins]
  rfl

/-- While no event is in a list, a call of an owner returns 0 and puts none into one. -/
theorem ownerCall_spec {event : Nat → Event κ} (h : ∀ ev, (event ev).linked = false) (c : OwnerCall) :
    ∃ event', ownerCall event c = some (event', 0) ∧ ∀ ev, (event' ev).linked = false := by
  have hupdate : ∀ (ev : Nat) (e : Event κ), e.linked = false →
      ∀ a, (Function.update event ev e a).linked = false := by
    intro ev e he a
    rw [Function.update_apply]
    split
    · exact he
    · exact h a
  cases c with
  | del ev => exact ⟨event, by rw [ownerCall, evsetsDelGone_eq (h ev)]; rfl, h⟩
  | reset ev =>
    refine ⟨Function.update event ev (event ev).blank, ?_, hupdate ev _ rfl⟩
    rw [ownerCall, Event.eventResetGone, evsetsDelGone_eq (h ev)]
    split <;> rfl
  | destroy ev => exact ⟨Function.update event ev {}, rfl, hupdate ev {} rfl⟩

theorem ownerCalls_spec {event : Nat → Event κ} (h : ∀ ev, (event ev).linked = false)
    (cs : List OwnerCall) : ownerCalls event cs = some (List.replicate cs.length 0) := by
  induction cs generalizing event with
  | nil => rfl
  | cons c cs ih =>
    obtain ⟨event', hcall, hkeep⟩ := ownerCall_spec h c
    rw [ownerCalls, hcall, Option.bind_some, ih hkeep]
    rfl

/-! ## Main result -/

/-- `evsets_destroy` on any event set that a run reaches, with its events in any of the
three lists: the lists are empty afterwards and no event has one of the three bits set. The
owners can then delete, reset and destroy their events in any order: every call returns 0
and none of them touches the set. -/
theorem evsets_destroy_unlinks (precision now : Int) (is : List (SetInput κ)) (s : EventSet κ)
    (hrun : Lib.Run step (evsetsCreate precision now) is s) :
    s.evsetsDestroy.eventlist = [] ∧ s.evsetsDestroy.activelist = [] ∧
      (∀ b < s.evsetsDestroy.coreTimer.bucketCount,
        s.evsetsDestroy.coreTimer.bucketArray b = []) ∧
      (∀ ev, (s.evsetsDestroy.event ev).inserted = false ∧
        (s.evsetsDestroy.event ev).timer = false ∧ (s.evsetsDestroy.event ev).active = false) ∧
      ∀ cs, ownerCalls s.evsetsDestroy.event cs = some (List.replicate cs.length 0) := by
  obtain ⟨hcleaned, hactive⟩ := evsetsDestroy_spec (consistent_of_run hrun)
  have hlinked := hcleaned.linked hactive
  refine ⟨hcleaned.eventlist, hactive, hcleaned.buckets, fun ev => ?_, ownerCalls_spec hlinked⟩
  obtain ⟨⟨hins, htimer⟩, hact⟩ : ((s.evsetsDestroy.event ev).inserted = false ∧
      (s.evsetsDestroy.event ev).timer = false) ∧ (s.evsetsDestroy.event ev).active = false := by
    simpa [EventView.linked] using hlinked ev
  exact ⟨hins, htimer, hact⟩

/-- One event is with the poller, in the wheel and active, one is in the wheel only, and one
is active only. -/
def mixedMembers : List (SetInput Nat) :=
  [.op (.set 3 5 { read := true, persist := true }), .op (.setCallback 3 0),
    .op (.add 3 1000 true), .report 3 .evRead, .op (.setCallback 4 0), .op (.add 4 90000 true),
    .op (.setCallback 5 0), .op (.add 5 0 true), .tick]

theorem evsets_destroy_unlinks_mixedMembers :
    ∃ s : EventSet Nat, Lib.exec step (evsetsCreate 8 0) mixedMembers = some s ∧
      s.eventlist = [3] ∧ s.activelist = [3, 5] ∧ (s.event 4).timer = true ∧
      (∀ ev, (s.evsetsDestroy.event ev).inserted = false ∧
        (s.evsetsDestroy.event ev).timer = false ∧ (s.evsetsDestroy.event ev).active = false) ∧
      ownerCalls s.evsetsDestroy.event [.del 3, .destroy 3, .reset 4] = some [0, 0, 0] := by
  refine ⟨_, rfl, by decide +kernel, by decide +kernel, by decide +kernel, ?_, ?_⟩
  · exact (evsets_destroy_unlinks 8 0 mixedMembers _ (Lib.run_iff_exec.mpr rfl)).2.2.2.1
  · exact (evsets_destroy_unlinks 8 0 mixedMembers _ (Lib.run_iff_exec.mpr rfl)).2.2.2.2 _

end EventSet

end Evlite
