import Evlite.Event.Destroy
import Evlite.Lib.Buckets

/-!
# Counting the Timers

`event_count` goes up with `evtimer_append` and down with `evtimer_remove`. `evtimer_clean` takes
the events out through `evsets_del`, and so through `evtimer_remove`, and counts each of them down
once more.

The functions of the wheel are called in any order here, among the other calls that an event set
gets. As `event_queue_insert` and `event_queue_remove` do it, `EVSTATUS_TIMER` is set while an
event is in the wheel, and an event is only appended if it is not there. The count is an integer.

## Main results

- `step_excess`: the calls of an event set leave it as it is how far the count is off.
- `evtimerClean_counts`: `evtimer_clean` counts every event down twice.
- `evtimerCount_iff`: in which runs the count is right.
-/

namespace Evlite

/-! ## The count -/

namespace EvTimer

/-- How many events all buckets have. -/
def linkedCount (t : EvTimer) : Nat := Lib.total t.bucketArray t.bucketCount

/-- How far the count is off. -/
def excess (t : EvTimer) : Int := t.eventCount - t.linkedCount

variable {t : EvTimer} {b : Nat}

theorem setBucket_linkedCount (hb : b < t.bucketCount) (l : List Nat) :
    (t.setBucket b l).linkedCount + (t.bucketArray b).length = t.linkedCount + l.length :=
  Lib.total_update hb t.bucketArray l

/-- A bucket with as many events as before. -/
theorem setBucket_excess (hb : b < t.bucketCount) {l : List Nat} (hl : l.length = (t.bucketArray b).length) :
    (t.setBucket b l).excess = t.excess := by
  have hlinked := setBucket_linkedCount hb l
  change t.eventCount - ((t.setBucket b l).linkedCount : Int) = t.eventCount - t.linkedCount
  omega

theorem link_excess (hb : b < t.bucketCount) (ev : Nat) : (t.link b ev).excess = t.excess := by
  have hlinked := setBucket_linkedCount hb (t.bucketArray b ++ [ev])
  rw [List.length_append, List.length_singleton] at hlinked
  change t.eventCount + 1 - ((t.setBucket b (t.bucketArray b ++ [ev])).linkedCount : Int) =
    t.eventCount - t.linkedCount
  omega

/-- Taking an event out of its bucket. -/
theorem unlink_linkedCount (hb : b < t.bucketCount) {ev : Nat} (hmem : ev ∈ t.bucketArray b) :
    (t.unlink b ev).linkedCount + 1 = t.linkedCount := by
  have hlinked := setBucket_linkedCount hb ((t.bucketArray b).erase ev)
  have hpos := List.length_pos_of_mem hmem
  rw [List.length_erase_of_mem hmem] at hlinked
  change (t.setBucket b ((t.bucketArray b).erase ev)).linkedCount + 1 = t.linkedCount
  omega

theorem unlink_excess (hb : b < t.bucketCount) {ev : Nat} (hmem : ev ∈ t.bucketArray b) :
    (t.unlink b ev).excess = t.excess := by
  have hlinked := unlink_linkedCount hb hmem
  change t.eventCount - 1 - ((t.unlink b ev).linkedCount : Int) = t.eventCount - t.linkedCount
  omega

end EvTimer

/-- The inputs of a wheel and its event set. -/
inductive CountInput (κ : Type) where
  /-- `evtimer_append`, after `timer_msecs` was set. -/
  | append (ev : Nat) (tv : Int)
  /-- `evtimer_remove` -/
  | remove (ev : Nat)
  /-- `evtimer_dispatch` -/
  | dispatch
  /-- `evtimer_clean` -/
  | clean
  /-- Another call that the event set gets. -/
  | set (i : SetInput κ)

namespace EventSet

variable {κ : Type}

/-- `evtimer_count` -/
def evtimerCount (s : EventSet κ) : Int := s.coreTimer.eventCount

/-- One step. -/
def countStep (s : EventSet κ) : CountInput κ → Option (EventSet κ)
  | .append ev tv =>
    if (s.event ev).timer then none
    -- `evtimer_append` answers with an error
    else if tv < 0 then some ((s.modify ev fun e => { e with timerMsecs := tv }).evtimerAppend ev)
    else some (s.arm ev tv)
  | .remove ev => some (s.eventQueueRemove ev .timer)
  | .dispatch => some s.evtimerDispatch.1
  | .clean => some s.evtimerClean.1
  | .set i => s.step i

/-- A step that does not clean a wheel with events. -/
def CleansEmpty (s : EventSet κ) : CountInput κ → Prop
  | .clean => s.coreTimer.linkedCount = 0
  | _ => True

instance (s : EventSet κ) : (i : CountInput κ) → Decidable (s.CleansEmpty i)
  | .clean => inferInstanceAs (Decidable (s.coreTimer.linkedCount = 0))
  | .append .. => inferInstanceAs (Decidable True)
  | .remove _ => inferInstanceAs (Decidable True)
  | .dispatch => inferInstanceAs (Decidable True)
  | .set _ => inferInstanceAs (Decidable True)

variable {s : EventSet κ} {ev : Nat}

/-! ## What an event set does -/

theorem evtimerAppend_excess (h : s.Consistent) {t : EventSet κ} (ht : t.coreTimer = s.coreTimer) :
    (t.evtimerAppend ev).coreTimer.excess = s.coreTimer.excess := by
  unfold evtimerAppend
  dsimp only
  split
  · rw [ht]
  · rw [setTimer_coreTimer, ht]
    exact EvTimer.link_excess (s.coreTimer.evtimerIndex_lt h.pos h.fits _) ev

theorem eventQueueInsert_coreTimer (s : EventSet κ) (ev : Nat) {type : QueueType} (h : type ≠ .timer) :
    (s.eventQueueInsert ev type).coreTimer = s.coreTimer := by
  unfold eventQueueInsert
  split
  · rfl
  · cases type with
    | inserted => rfl
    | active => rfl
    | timer => exact absurd rfl h

theorem eventQueueInsert_excess (h : s.Consistent) (type : QueueType) :
    (s.eventQueueInsert ev type).coreTimer.excess = s.coreTimer.excess := by
  unfold eventQueueInsert
  split
  · rfl
  · cases type with
    | inserted => rfl
    | active => rfl
    | timer => exact evtimerAppend_excess h rfl

theorem eventQueueRemove_excess (h : s.Consistent) (type : QueueType) :
    (s.eventQueueRemove ev type).coreTimer.excess = s.coreTimer.excess := by
  by_cases htype : type = .timer
  · subst htype
    cases htimer : (s.event ev).timer with
    | false => rw [eventQueueRemove_of_free htimer]
    | true =>
      obtain ⟨b, hb, -, hmem⟩ := h.mem_bucket htimer
      rw [eventQueueRemove_unlink h hmem]
      exact EvTimer.unlink_excess hb hmem
  · rw [eventQueueRemove_coreTimer s ev htype]

theorem removeIf_excess (h : s.Consistent) (type : QueueType) (c : Bool) :
    (if c then s.eventQueueRemove ev type else s).coreTimer.excess = s.coreTimer.excess := by
  cases c with
  | true => exact eventQueueRemove_excess h type
  | false => rfl

theorem evsetsDel_excess (h : s.Consistent) (pollDel : Int) :
    (s.evsetsDel ev pollDel).1.coreTimer.excess = s.coreTimer.excess := by
  rw [evsetsDel_coreTimer]
  exact eventQueueRemove_excess h .timer

theorem addPoll_coreTimer (s : EventSet κ) (ev : Nat) (pollAdd : Bool) :
    (s.addPoll ev pollAdd).1.coreTimer = s.coreTimer := by
  unfold addPoll
  dsimp only
  split
  · split
    · exact eventQueueInsert_coreTimer s ev (by decide)
    · rfl
  · rfl

theorem addTimer_excess (h : s.Consistent) (tv : Int) :
    (s.addTimer ev tv).1.coreTimer.excess = s.coreTimer.excess := by
  unfold addTimer
  split
  · have htimer := h.remove ev .timer
    have hactive := htimer.removeIf ev .active ((s.eventQueueRemove ev .timer).event ev).results.timeout
    dsimp only
    rw [eventQueueInsert_excess, modify_coreTimer, removeIf_excess htimer, eventQueueRemove_excess h]
    exact hactive.modify fun e => ⟨rfl, rfl, rfl, rfl, id⟩
  · rfl

theorem evsetsAdd_excess (h : s.Consistent) (tv : Int) (pollAdd : Bool) :
    (s.evsetsAdd ev tv pollAdd).1.coreTimer.excess = s.coreTimer.excess := by
  have hmark : (s.modify ev fun e => { e with evsets := true, lastAdd := some tv }).Consistent :=
    h.modify fun e => ⟨rfl, rfl, rfl, rfl, fun _ => rfl⟩
  have hsets : ((s.modify ev fun e => { e with evsets := true, lastAdd := some tv }).event ev).evsets =
    true := by simp
  obtain ⟨hpoll, -⟩ := hmark.addPoll hsets pollAdd
  unfold evsetsAdd
  dsimp only
  rw [addTimer_excess hpoll, addPoll_coreTimer, modify_coreTimer]

theorem runOp_excess (h : s.Consistent) (op : EventOp κ) :
    (s.runOp op).coreTimer.excess = s.coreTimer.excess := by
  cases op with
  | add ev tv pollAdd =>
    simp only [runOp]
    split
    · exact evsetsAdd_excess h tv pollAdd
    · rfl
  | del ev pollDel =>
    simp only [runOp]
    split
    · exact evsetsDel_excess h pollDel
    · rfl
  | set ev fd events => rfl
  | setCallback ev cb => rfl
  | reset ev pollDel =>
    simp only [runOp, eventReset, modify_coreTimer]
    split
    · exact evsetsDel_excess h pollDel
    · rfl
  | destroy ev =>
    simp only [runOp]
    split <;> rfl

theorem runOps_excess (h : s.Consistent) (ops : List (EventOp κ)) :
    (s.runOps ops).coreTimer.excess = s.coreTimer.excess := by
  induction ops generalizing s with
  | nil => rfl
  | cons op ops ih => exact (ih (h.runOp op)).trans (runOp_excess h op)

theorem evtimerDispatchOne_excess (h : s.Consistent) {b : Nat} (rc : Int)
    (hmem : ev ∈ s.coreTimer.bucketArray b) :
    (s.evtimerDispatchOne b ev rc).1.coreTimer.excess = s.coreTimer.excess := by
  have hstep : (s.modify ev fun e => { e with timerStepcnt := e.timerStepcnt - 1 }).Consistent :=
    h.modify fun e => ⟨rfl, rfl, rfl, rfl, id⟩
  have hsame : (s.modify ev fun e => { e with timerStepcnt := e.timerStepcnt - 1 }).coreTimer =
    s.coreTimer := rfl
  unfold evtimerDispatchOne
  dsimp only
  generalize (s.modify ev fun e => { e with timerStepcnt := e.timerStepcnt - 1 }) = t at hstep hsame
  rw [← hsame] at hmem ⊢
  obtain ⟨htimer, hplace⟩ := hstep.of_mem_bucket hmem
  split
  · -- the bucket has the same events, in another order
    obtain ⟨-, hhigh⟩ := (hstep.linked ev).index htimer
    apply EvTimer.setBucket_excess (by omega)
    exact ((List.perm_append_singleton ev _).trans (List.perm_cons_erase hmem).symm).length_eq
  · rw [evtimerRemove_setStatus t ev htimer]
    split
    · rw [eventActive_coreTimer]
      exact eventQueueRemove_excess hstep .timer
    · exact eventQueueRemove_excess hstep .timer

theorem evtimerDispatchLoop_excess (h : s.Consistent) (b laster fuel : Nat) (rc : Int) :
    (evtimerDispatchLoop b laster fuel s rc).1.coreTimer.excess = s.coreTimer.excess := by
  induction fuel generalizing s rc with
  | zero => rfl
  | succ fuel ih =>
    unfold evtimerDispatchLoop
    split
    · rfl
    · rename_i ev rest hbucket
      have hmem : ev ∈ s.coreTimer.bucketArray b := by
        rw [hbucket]
        exact List.mem_cons_self ..
      have hone := evtimerDispatchOne_excess h rc hmem
      dsimp only
      split
      · exact hone
      · exact (ih (h.evtimerDispatchOne rc hmem) _).trans hone

theorem evtimerDispatch_excess (h : s.Consistent) :
    s.evtimerDispatch.1.coreTimer.excess = s.coreTimer.excess := by
  unfold evtimerDispatch
  dsimp only
  split
  · rfl
  · exact evtimerDispatchLoop_excess h.ticked _ _ _ 0

theorem beforeCallback_excess (h : s.Consistent) :
    (s.beforeCallback ev).coreTimer.excess = s.coreTimer.excess := by
  have hactive := h.remove ev .active
  unfold beforeCallback
  split
  · exact evsetsDel_excess h 0
  · dsimp only
    split
    · have htimer := hactive.removeIf ev .timer (!((s.eventQueueRemove ev .active).event ev).results.timeout)
      rw [eventQueueInsert_excess htimer, removeIf_excess hactive, eventQueueRemove_excess h]
    · exact eventQueueRemove_excess h .active

theorem processOne_excess (h : s.Consistent) (hmem : ev ∈ s.activelist) (ops : List (EventOp κ)) :
    (s.processOne ev ops).coreTimer.excess = s.coreTimer.excess := by
  have hsets := (h.of_mem_activelist hmem).2
  exact (runOps_excess ((h.beforeCallback hsets).emit _) ops).trans (beforeCallback_excess h)

theorem processActiveLoop_excess (h : s.Consistent) (fuel : Nat)
    (callbacks : List (List (EventOp κ))) (rc : Int) :
    (processActiveLoop fuel callbacks s rc).1.coreTimer.excess = s.coreTimer.excess := by
  induction fuel generalizing s callbacks rc with
  | zero => rfl
  | succ fuel ih =>
    unfold processActiveLoop
    split
    · rfl
    · rename_i ev rest hactive
      have hmem : ev ∈ s.activelist := by
        rw [hactive]
        exact List.mem_cons_self ..
      exact (ih (h.processOne hmem _) _ _).trans (processOne_excess h hmem _)

theorem pollReport_excess (s : EventSet κ) (ev : Nat) (res : EvMask) :
    (s.pollReport ev res).coreTimer.excess = s.coreTimer.excess := by
  unfold pollReport
  split
  · rw [eventActive_coreTimer]
  · rfl

theorem evsetsDispatch_excess (h : s.Consistent) (reports : List (Nat × EvMask)) (now : Int)
    (callbacks : List (List (EventOp κ))) :
    (s.evsetsDispatch reports now callbacks).1.coreTimer.excess = s.coreTimer.excess := by
  have hreports : (reports.foldl (fun s r => s.pollReport r.1 r.2) s).Consistent ∧
      (reports.foldl (fun s r => s.pollReport r.1 r.2) s).coreTimer.excess = s.coreTimer.excess := by
    induction reports generalizing s with
    | nil => exact ⟨h, rfl⟩
    | cons r rs ih =>
      obtain ⟨hcons, hexcess⟩ := ih (h.pollReport r.1 r.2)
      exact ⟨hcons, hexcess.trans (pollReport_excess s r.1 r.2)⟩
  unfold evsetsDispatch
  dsimp only
  generalize reports.foldl (fun s r => s.pollReport r.1 r.2) s = t at hreports
  obtain ⟨ht, hexcess⟩ := hreports
  -- the wheel turns only if it is time
  have hturn : (if t.expireTime ≤ now then { t.evtimerDispatch.1 with expireTime := now + t.timerPrecision }
      else t).Consistent ∧
      (if t.expireTime ≤ now then { t.evtimerDispatch.1 with expireTime := now + t.timerPrecision }
      else t).coreTimer.excess = s.coreTimer.excess := by
    split
    · exact ⟨ht.evtimerDispatch.of_lists rfl rfl rfl rfl rfl, (evtimerDispatch_excess ht).trans hexcess⟩
    · exact ⟨ht, hexcess⟩
  exact (processActiveLoop_excess hturn.1 _ callbacks 0).trans hturn.2

/-- No call of an event set changes how far the count is off. -/
theorem step_excess {t : EventSet κ} {i : SetInput κ} (h : s.Consistent) (hstep : s.step i = some t) :
    t.coreTimer.excess = s.coreTimer.excess := by
  cases i with
  | op op =>
    cases hstep
    exact runOp_excess h op
  | report ev res =>
    cases hstep
    exact pollReport_excess s ev res
  | tick =>
    cases hstep
    exact evtimerDispatch_excess h
  | process callbacks =>
    cases hstep
    exact processActiveLoop_excess h _ callbacks 0
  | dispatch reports now callbacks =>
    cases hstep
    exact evsetsDispatch_excess h reports now callbacks

/-! ## What `evtimer_clean` does -/

/-- The first `n` buckets are clean. Of the events that were there, as many are gone as `rc` says,
and each of them was counted down twice. -/
structure Swept (N n : Nat) (count linked : Int) (r : EventSet κ × Int) : Prop where
  consistent : r.1.Consistent
  bucketCount : r.1.coreTimer.bucketCount = N
  empty : ∀ b, b < n → r.1.coreTimer.bucketArray b = []
  count : r.1.coreTimer.eventCount + 2 * r.2 = count
  linked : r.1.coreTimer.linkedCount + r.2 = linked

section Sweeping

variable {N n : Nat} {count linked : Int} {r : EventSet κ × Int}

/-- A visit: `evtimer_remove` counts the event down, and `evtimer_clean` again. -/
theorem Swept.cleanVisit (h : Swept N n count linked r) (hn : n < N)
    (hmem : ev ∈ r.1.coreTimer.bucketArray n) :
    Swept N n count linked (EventSet.cleanVisit r ev) ∧
      (EventSet.cleanVisit r ev).1.coreTimer.bucketArray n = (r.1.coreTimer.bucketArray n).erase ev := by
  obtain ⟨-, -, hwheel⟩ := evsetsDel_lists h.consistent ev 0
  have hunlink : (r.1.evsetsDel ev 0).1.coreTimer = r.1.coreTimer.unlink n ev := by
    rw [evsetsDel_coreTimer]
    exact eventQueueRemove_unlink h.consistent hmem
  refine ⟨⟨?_, ?_, fun b hb => ?_, ?_, ?_⟩, hwheel n⟩
  · have hcons : (r.1.evsetsDel ev 0).1.Consistent := h.consistent.evsetsDel 0
    exact hcons.of_lists rfl rfl rfl rfl rfl
  · exact (evsetsDel_bucketCount r.1 ev 0).trans h.bucketCount
  · change (r.1.evsetsDel ev 0).1.coreTimer.bucketArray b = []
    rw [hwheel, h.empty b hb]
    rfl
  · have hcount := h.count
    change (r.1.evsetsDel ev 0).1.coreTimer.eventCount - 1 + 2 * (r.2 + 1) = count
    rw [hunlink]
    change r.1.coreTimer.eventCount - 1 - 1 + 2 * (r.2 + 1) = count
    omega
  · have hlinked := h.linked
    have hone := EvTimer.unlink_linkedCount (h.bucketCount.symm ▸ hn) hmem
    change ((r.1.evsetsDel ev 0).1.coreTimer.linkedCount : Int) + (r.2 + 1) = linked
    rw [hunlink]
    omega

theorem Swept.cleanBucket (h : Swept N n count linked r) (hn : n < N) :
    Swept N (n + 1) count linked (EventSet.cleanBucket r n) := by
  obtain ⟨hswept, hempty⟩ := Lib.Traversal.walk_spec (I := Swept N n count linked) h
    (bucket_nodup h.consistent n) fun t a ht hmem => ht.cleanVisit hn hmem
  refine ⟨hswept.consistent, hswept.bucketCount, fun b hb => ?_, hswept.count, hswept.linked⟩
  rcases Nat.lt_succ_iff_lt_or_eq.mp hb with hlt | rfl
  · exact hswept.empty b hlt
  · exact hempty

theorem Swept.range (h : Swept N 0 count linked r) (hn : n ≤ N) :
    Swept N n count linked ((List.range n).foldl EventSet.cleanBucket r) := by
  induction n with
  | zero => exact h
  | succ n ih =>
    rw [List.range_succ, List.foldl_append]
    exact (ih (Nat.le_of_lt hn)).cleanBucket hn

end Sweeping

/-- `evtimer_clean` takes all events out and counts each of them down twice. -/
theorem evtimerClean_counts (h : s.Consistent) :
    s.evtimerClean.1.Consistent ∧ s.evtimerClean.1.coreTimer.linkedCount = 0 ∧
      s.evtimerClean.1.evtimerCount = s.evtimerCount - 2 * s.coreTimer.linkedCount := by
  have hstart : Swept s.coreTimer.bucketCount 0 s.coreTimer.eventCount s.coreTimer.linkedCount (s, 0) :=
    ⟨h, rfl, fun b hb => absurd hb (Nat.not_lt_zero b), Int.add_zero _, Int.add_zero _⟩
  have hswept := hstart.range (Nat.le_refl _)
  unfold evtimerClean evtimerCount
  dsimp only
  generalize (List.range s.coreTimer.bucketCount).foldl EventSet.cleanBucket (s, 0) = r at hswept ⊢
  obtain ⟨hcons, hbuckets, hempty, hcount, hlinked⟩ := hswept
  have hzero : r.1.coreTimer.linkedCount = 0 := by
    apply Lib.total_eq_zero_iff.mpr
    intro b hb
    exact hempty b (hbuckets ▸ hb)
  refine ⟨hcons.of_lists rfl rfl rfl rfl rfl, hzero, ?_⟩
  rw [setTimer_coreTimer]
  change r.1.coreTimer.eventCount = _
  omega

/-! ## Runs -/

theorem Consistent.countStep {t : EventSet κ} {i : CountInput κ} (h : s.Consistent)
    (hstep : s.countStep i = some t) : t.Consistent := by
  cases i with
  | append ev tv =>
    unfold EventSet.countStep at hstep
    dsimp only at hstep
    split at hstep
    · cases hstep
    · split at hstep
      · rename_i htv
        cases hstep
        -- the event stays where it is
        unfold evtimerAppend
        rw [modify_event, if_pos rfl]
        dsimp only
        rw [if_pos htv]
        exact h.modify fun e => ⟨rfl, rfl, rfl, rfl, id⟩
      · rename_i htv
        cases hstep
        exact h.arm ev (Int.not_lt.mp htv)
  | remove ev =>
    cases hstep
    exact h.remove ev .timer
  | dispatch =>
    cases hstep
    exact h.evtimerDispatch
  | clean =>
    cases hstep
    exact (evtimerClean_counts h).1
  | set i => exact h.step hstep

/-- A step leaves it as it is how far the count is off, unless it is `evtimer_clean`. -/
theorem countStep_excess {t : EventSet κ} {i : CountInput κ} (h : s.Consistent) (hi : i ≠ .clean)
    (hstep : s.countStep i = some t) : t.coreTimer.excess = s.coreTimer.excess := by
  cases i with
  | append ev tv =>
    unfold countStep at hstep
    dsimp only at hstep
    split at hstep
    · cases hstep
    · split at hstep
      · cases hstep
        exact evtimerAppend_excess h rfl
      · cases hstep
        have hset : (s.modify ev fun e => { e with evsets := true, timerMsecs := tv }).Consistent :=
          h.modify fun e => ⟨rfl, rfl, rfl, rfl, fun _ => rfl⟩
        exact eventQueueInsert_excess hset .timer
  | remove ev =>
    cases hstep
    exact eventQueueRemove_excess h .timer
  | dispatch =>
    cases hstep
    exact evtimerDispatch_excess h
  | clean => exact absurd rfl hi
  | set i => exact step_excess h hstep

theorem cleansEmpty_of_ne {i : CountInput κ} (hi : i ≠ .clean) : s.CleansEmpty i := by
  cases i with
  | append ev tv => trivial
  | remove ev => trivial
  | dispatch => trivial
  | clean => exact absurd rfl hi
  | set i => trivial

/-- The count never exceeds the number of events. -/
structure Counting (s : EventSet κ) : Prop where
  consistent : s.Consistent
  excess : s.coreTimer.excess ≤ 0

/-- The count is right exactly if it is not off. -/
theorem excess_eq_zero : s.coreTimer.excess = 0 ↔ s.evtimerCount = s.coreTimer.linkedCount := by
  unfold EvTimer.excess evtimerCount
  omega

/-- After `evtimer_clean`, what the count was off and what was in the wheel add up. -/
theorem evtimerClean_excess (h : s.Consistent) :
    s.evtimerClean.1.evtimerCount = s.coreTimer.excess - s.coreTimer.linkedCount := by
  obtain ⟨-, -, hcount⟩ := evtimerClean_counts h
  unfold evtimerCount EvTimer.excess at *
  omega

theorem Counting.countStep {t : EventSet κ} {i : CountInput κ} (h : s.Counting)
    (hstep : s.countStep i = some t) : t.Counting := by
  constructor
  · exact h.consistent.countStep hstep
  · have hexcess := h.excess
    by_cases hi : i = .clean
    · subst hi
      cases hstep
      obtain ⟨-, hzero, -⟩ := evtimerClean_counts h.consistent
      have hcount := evtimerClean_excess h.consistent
      change s.evtimerClean.1.evtimerCount - _ ≤ 0
      omega
    · rw [countStep_excess h.consistent hi hstep]
      exact hexcess

/-- A step keeps the count right if it does not clean a wheel with events, and no step puts right a
count that is off. -/
theorem countStep_right_iff {t : EventSet κ} {i : CountInput κ} (h : s.Counting)
    (hstep : s.countStep i = some t) :
    t.evtimerCount = t.coreTimer.linkedCount ↔
      s.evtimerCount = s.coreTimer.linkedCount ∧ s.CleansEmpty i := by
  rw [← excess_eq_zero, ← excess_eq_zero]
  by_cases hi : i = .clean
  · subst hi
    cases hstep
    obtain ⟨-, hzero, -⟩ := evtimerClean_counts h.consistent
    have hcount := evtimerClean_excess h.consistent
    have hexcess := h.excess
    change s.evtimerClean.1.evtimerCount - _ = 0 ↔ _ ∧ s.coreTimer.linkedCount = 0
    omega
  · rw [countStep_excess h.consistent hi hstep]
    exact (and_iff_left (cleansEmpty_of_ne hi)).symm

/-- A new wheel counts right. -/
theorem evtimerCreate_counting {p N : Nat} (hpos : 1 ≤ N) (hfits : N ≤ 2 ^ 32) (refer : BitVec 32) :
    (evtimerCreate p N refer : EventSet κ).Counting ∧
      (evtimerCreate p N refer : EventSet κ).evtimerCount =
        (evtimerCreate p N refer : EventSet κ).coreTimer.linkedCount := by
  have hnone : (evtimerCreate p N refer : EventSet κ).coreTimer.linkedCount = 0 :=
    Lib.total_eq_zero_iff.mpr fun _ _ => rfl
  have hright : (evtimerCreate p N refer : EventSet κ).evtimerCount =
      (evtimerCreate p N refer : EventSet κ).coreTimer.linkedCount := by
    rw [hnone]
    rfl
  have hexcess := excess_eq_zero.mpr hright
  exact ⟨⟨(evtimerCreate_turning hpos hfits refer).consistent, Int.le_of_eq hexcess⟩, hright⟩

/-- In every run of a wheel, `evtimer_count` tells how many events its buckets have exactly as long
as `evtimer_clean` was only called on a wheel without events. In particular it is 0 after
`evtimer_clean` exactly if that holds, for this call as well. -/
theorem evtimerCount_iff (p N : Nat) (hpos : 1 ≤ N) (hfits : N ≤ 2 ^ 32) (refer : BitVec 32)
    (is : List (CountInput κ)) (s : EventSet κ) (hrun : Lib.Run countStep (evtimerCreate p N refer) is s) :
    (s.evtimerCount = s.coreTimer.linkedCount ↔
      Lib.GuardedRun countStep CleansEmpty (evtimerCreate p N refer) is s) ∧
    (s.evtimerClean.1.evtimerCount = 0 ↔
      Lib.GuardedRun countStep CleansEmpty (evtimerCreate p N refer) is s ∧ s.coreTimer.linkedCount = 0) := by
  obtain ⟨hcounting, hright⟩ := evtimerCreate_counting (κ := κ) (p := p) hpos hfits refer
  have hkeep : ∀ (t : EventSet κ) i u, t.Counting → t.countStep i = some u → u.Counting :=
    fun t i u ht hstep => ht.countStep hstep
  have hs : s.Counting := hrun.invariant (I := Counting) hcounting
    fun t i u ht _ hstep => hkeep t i u ht hstep
  have hruns : s.evtimerCount = s.coreTimer.linkedCount ↔
      Lib.GuardedRun countStep CleansEmpty (evtimerCreate p N refer) is s :=
    Lib.final_iff_guarded hrun hright hcounting (fun t i u ht hstep => countStep_right_iff ht hstep) hkeep
  refine ⟨hruns, ?_⟩
  -- the call to come is one more step of the run
  have hlast := countStep_right_iff (i := .clean) hs rfl
  obtain ⟨-, hzero, -⟩ := evtimerClean_counts hs.consistent
  rw [hzero, hruns] at hlast
  exact hlast

/-- One timer expires and another one is taken out before the wheel is cleaned. -/
def emptiedWheel : List (CountInput Nat) :=
  [.append 3 8, .append 4 100, .dispatch, .remove 4, .clean, .set (.op (.setCallback 5 0)),
    .set (.op (.add 5 50 true))]

theorem evtimerCount_emptiedWheel :
    ∃ s, Lib.exec countStep (evtimerCreate 8 4 0) emptiedWheel = some s ∧ s.coreTimer.linkedCount = 1 ∧
      s.evtimerCount = s.coreTimer.linkedCount :=
  ⟨_, rfl, by decide, (evtimerCount_iff 8 4 (by decide) (by decide) 0 emptiedWheel _
    (Lib.run_iff_exec.mpr rfl)).1.mpr (Lib.GuardedRun.of_exec rfl)⟩

/-- A wheel with one timer is cleaned. -/
theorem evtimerCount_cleanOne_fails :
    ∃ s : EventSet Nat, Lib.exec countStep (evtimerCreate 8 4 0) [.append 3 8, .clean] = some s ∧
      s.coreTimer.linkedCount = 0 ∧ s.evtimerCount = -1 :=
  ⟨_, rfl, by decide, by decide⟩

end EventSet

end Evlite
