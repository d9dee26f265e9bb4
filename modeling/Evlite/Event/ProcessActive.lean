import Evlite.Event.Membership
import Mathlib.Data.List.Nodup

/-!
# Draining the Active List

`evsets_process_active` takes the first event off the active list and runs its callback
until the list is empty, while the callbacks add, delete, reset and destroy events of the
same set.

No call that a callback can make puts an event on the active list, so every round makes the
list shorter, and what is called is a sublist of what was active in the beginning.

## Main results

- `runOp_activelist`: a call leaves a sublist of the active list.
- `processActiveLoop_calls`: what the loop calls.
- `process_active_terminates`: one call of `evsets_process_active`, for all callbacks.
-/

namespace Evlite.EventSet

variable {κ : Type} {s : EventSet κ} {ev : Nat}

/-! ## The active list under a call -/

theorem evtimerAppend_activelist (s : EventSet κ) (ev : Nat) :
    (s.evtimerAppend ev).activelist = s.activelist := by
  unfold evtimerAppend
  dsimp only
  split <;> rfl

theorem evtimerRemove_activelist (s : EventSet κ) (ev : Nat) :
    (s.evtimerRemove ev).activelist = s.activelist := by
  unfold evtimerRemove
  dsimp only
  split <;> rfl

theorem eventQueueInsert_activelist (s : EventSet κ) (ev : Nat) {type : QueueType}
    (h : type ≠ .active) : (s.eventQueueInsert ev type).activelist = s.activelist := by
  unfold eventQueueInsert
  split
  · rfl
  · cases type with
    | inserted => rfl
    | active => exact absurd rfl h
    | timer => exact evtimerAppend_activelist _ ev

theorem eventQueueRemove_activelist (s : EventSet κ) (ev : Nat) {type : QueueType}
    (h : type ≠ .active) : (s.eventQueueRemove ev type).activelist = s.activelist := by
  unfold eventQueueRemove
  split
  · cases type with
    | inserted => rfl
    | active => exact absurd rfl h
    | timer => exact evtimerRemove_activelist _ ev
  · rfl

/-- Leaving the active list. -/
theorem eventQueueRemove_active (h : s.Consistent) :
    (s.eventQueueRemove ev .active).activelist = s.activelist.erase ev := by
  unfold eventQueueRemove
  split
  · rfl
  · rename_i hclear
    have hcount := (h.linked ev).activelist
    have hbit : (s.event ev).active = false := by simpa [status] using hclear
    rw [hbit] at hcount
    exact (List.erase_of_not_mem (List.count_eq_zero.mp hcount)).symm

theorem evsetsDel_activelist (h : s.Consistent) (pollDel : Int) :
    (s.evsetsDel ev pollDel).1.activelist = s.activelist.erase ev := by
  have hboth : ((s.eventQueueRemove ev .timer).eventQueueRemove ev .active).activelist =
      s.activelist.erase ev := by
    rw [eventQueueRemove_active (h.remove ev .timer), eventQueueRemove_activelist s ev (by decide)]
  unfold evsetsDel
  dsimp only
  split
  · rw [eventQueueRemove_activelist _ ev (by decide), hboth]
  · exact hboth

theorem eventQueueRemove_sublist (s : EventSet κ) (ev : Nat) (type : QueueType) :
    (s.eventQueueRemove ev type).activelist.Sublist s.activelist := by
  by_cases htype : type = .active
  · subst htype
    unfold eventQueueRemove
    split
    · exact List.erase_sublist
    · exact List.Sublist.refl _
  · rw [eventQueueRemove_activelist s ev htype]

theorem addPoll_activelist (s : EventSet κ) (ev : Nat) (pollAdd : Bool) :
    (s.addPoll ev pollAdd).1.activelist = s.activelist := by
  unfold addPoll
  dsimp only
  split
  · split
    · exact eventQueueInsert_activelist s ev (by decide)
    · rfl
  · rfl

theorem addTimer_sublist (s : EventSet κ) (ev : Nat) (tv : Int) :
    (s.addTimer ev tv).1.activelist.Sublist s.activelist := by
  unfold addTimer
  split
  · have htimer := eventQueueRemove_sublist s ev .timer
    dsimp only
    rw [eventQueueInsert_activelist _ ev (by decide), modify_activelist]
    split
    · exact (eventQueueRemove_sublist _ ev .active).trans htimer
    · exact htimer
  · exact List.Sublist.refl _

theorem evsetsAdd_sublist (s : EventSet κ) (ev : Nat) (tv : Int) (pollAdd : Bool) :
    (s.evsetsAdd ev tv pollAdd).1.activelist.Sublist s.activelist := by
  unfold evsetsAdd
  refine (addTimer_sublist _ ev tv).trans ?_
  rw [addPoll_activelist, modify_activelist]

/-- A call leaves a sublist of the active list. -/
theorem runOp_activelist (h : s.Consistent) (op : EventOp κ) :
    (s.runOp op).activelist.Sublist s.activelist := by
  cases op with
  | add ev tv pollAdd =>
    simp only [runOp]
    split
    · exact evsetsAdd_sublist s ev tv pollAdd
    · exact List.Sublist.refl _
  | del ev pollDel =>
    simp only [runOp]
    split
    · rw [evsetsDel_activelist h]
      exact List.erase_sublist
    · exact List.Sublist.refl _
  | set ev fd events => exact List.Sublist.refl _
  | setCallback ev cb => exact List.Sublist.refl _
  -- `event_reset` takes the event out of the list before it clears it
  | reset ev pollDel =>
    simp only [runOp, eventReset]
    split
    · rw [modify_activelist, evsetsDel_activelist h]
      exact List.erase_sublist
    · exact List.Sublist.refl _
  | destroy ev =>
    simp only [runOp]
    split <;> exact List.Sublist.refl _

theorem runOps_activelist (h : s.Consistent) (ops : List (EventOp κ)) :
    (s.runOps ops).activelist.Sublist s.activelist := by
  induction ops generalizing s with
  | nil => exact List.Sublist.refl _
  | cons op ops ih => exact (ih (h.runOp op)).trans (runOp_activelist h op)

/-- An event that a callback deletes is not active after that callback. -/
theorem runOps_deletes (h : s.Consistent) {ops : List (EventOp κ)} {pollDel : Int}
    (hdel : .del ev pollDel ∈ ops) : ev ∉ (s.runOps ops).activelist := by
  induction ops generalizing s with
  | nil => cases hdel
  | cons op ops ih =>
    rcases List.mem_cons.mp hdel with rfl | hdel
    · -- nothing that follows puts the event back
      refine fun hmem => ?_
      have hlast := (runOps_activelist (h.runOp _) ops).subset hmem
      have hbefore := (runOp_activelist h _).subset hlast
      simp only [runOp, (h.of_mem_activelist hbefore).2, if_true, evsetsDel_activelist h] at hlast
      have hcount := (h.linked ev).activelist
      rw [(h.of_mem_activelist hbefore).1] at hcount
      have hgone : (s.activelist.erase ev).count ev = 0 := by
        rw [List.count_erase_self, hcount]
        rfl
      exact List.count_eq_zero.mp hgone hlast
    · exact ih (h.runOp op) hdel

/-! ## What is recorded -/

section Trace

variable (s : EventSet κ) (ev : Nat)

theorem trace_blind : Blind (trace : EventSet κ → List EventEffect) :=
  ⟨fun _ _ _ _ => rfl, fun _ _ _ => rfl, fun _ _ _ => rfl⟩

theorem eventQueueInsert_trace (type : QueueType) : (s.eventQueueInsert ev type).trace = s.trace :=
  trace_blind.insert s ev type

theorem eventQueueRemove_trace (type : QueueType) : (s.eventQueueRemove ev type).trace = s.trace :=
  trace_blind.remove s ev type

theorem evsetsDel_trace (pollDel : Int) : (s.evsetsDel ev pollDel).1.trace = s.trace := by
  unfold evsetsDel
  dsimp only
  split
  · rw [eventQueueRemove_trace, eventQueueRemove_trace, eventQueueRemove_trace]
  · rw [eventQueueRemove_trace, eventQueueRemove_trace]

theorem evsetsAdd_trace (tv : Int) (pollAdd : Bool) :
    (s.evsetsAdd ev tv pollAdd).1.trace = s.trace := by
  have hpoll : ∀ t : EventSet κ, (t.addPoll ev pollAdd).1.trace = t.trace := by
    intro t
    unfold addPoll
    dsimp only
    split
    · split
      · exact eventQueueInsert_trace t ev .inserted
      · rfl
    · rfl
  have htimer : ∀ t : EventSet κ, (t.addTimer ev tv).1.trace = t.trace := by
    intro t
    unfold addTimer
    split
    · rw [eventQueueInsert_trace, modify_trace]
      split
      · rw [eventQueueRemove_trace, eventQueueRemove_trace]
      · rw [eventQueueRemove_trace]
    · rfl
  unfold evsetsAdd
  rw [htimer, hpoll, modify_trace]

theorem runOp_trace (op : EventOp κ) : (s.runOp op).trace = s.trace := by
  cases op with
  | add ev tv pollAdd =>
    simp only [runOp]
    split
    · exact evsetsAdd_trace s ev tv pollAdd
    · rfl
  | del ev pollDel =>
    simp only [runOp]
    split
    · exact evsetsDel_trace s ev pollDel
    · rfl
  | set ev fd events => rfl
  | setCallback ev cb => rfl
  | reset ev pollDel =>
    simp only [runOp, eventReset]
    split
    · exact evsetsDel_trace s ev pollDel
    · rfl
  | destroy ev =>
    simp only [runOp]
    split <;> rfl

theorem runOps_trace (ops : List (EventOp κ)) : (s.runOps ops).trace = s.trace := by
  induction ops generalizing s with
  | nil => rfl
  | cons op ops ih => exact (ih _).trans (runOp_trace s op)

theorem beforeCallback_trace : (s.beforeCallback ev).trace = s.trace := by
  unfold beforeCallback
  split
  · exact evsetsDel_trace s ev 0
  · dsimp only
    split
    · rw [eventQueueInsert_trace]
      split
      · rw [eventQueueRemove_trace, eventQueueRemove_trace]
      · rw [eventQueueRemove_trace]
    · rw [eventQueueRemove_trace]

end Trace

/-! ## The loop -/

/-- Before the callback of an event, the event is taken off the active list. -/
theorem beforeCallback_activelist (h : s.Consistent) :
    (s.beforeCallback ev).activelist = s.activelist.erase ev := by
  unfold beforeCallback
  split
  · exact evsetsDel_activelist h 0
  · dsimp only
    split
    · rw [eventQueueInsert_activelist _ ev (by decide)]
      split
      · rw [eventQueueRemove_activelist _ ev (by decide), eventQueueRemove_active h]
      · exact eventQueueRemove_active h
    · exact eventQueueRemove_active h

theorem beforeCallback_head (h : s.Consistent) {rest : List Nat} (hactive : s.activelist = ev :: rest) :
    (s.beforeCallback ev).activelist = rest := by
  rw [beforeCallback_activelist h, hactive]
  exact List.erase_cons_head ev rest

/-- One round records the call of the event, and leaves a sublist of the rest of the active
list, without the events that the callback deletes. -/
theorem processOne_spec (h : s.Consistent) {rest : List Nat} (hactive : s.activelist = ev :: rest)
    (ops : List (EventOp κ)) :
    (s.processOne ev ops).Consistent ∧
      (∃ results, (s.processOne ev ops).trace = s.trace ++ [.invoke ev results]) ∧
      (s.processOne ev ops).activelist.Sublist rest ∧
      ∀ a pollDel, .del a pollDel ∈ ops → a ∉ (s.processOne ev ops).activelist := by
  have hmem : ev ∈ s.activelist := by rw [hactive]; exact List.mem_cons_self ..
  have hbefore := (h.beforeCallback (h.of_mem_activelist hmem).2).emit
    (.invoke ev ((s.beforeCallback ev).event ev).results)
  refine ⟨h.processOne hmem ops, ⟨((s.beforeCallback ev).event ev).results, ?_⟩, ?_, ?_⟩
  · unfold processOne
    rw [runOps_trace]
    show (s.beforeCallback ev).trace ++ _ = _
    rw [beforeCallback_trace]
  · have hrest := runOps_activelist hbefore ops
    rwa [show ((s.beforeCallback ev).emit _).activelist = _ from beforeCallback_head h hactive]
      at hrest
  · intro a pollDel hdel
    exact runOps_deletes hbefore hdel

/-- What a drained active list means: the events of `invoked` were called in this order,
each of them was on the list, in this order, and none after a callback that deleted it. -/
structure Drained (s t : EventSet κ) (callbacks : List (List (EventOp κ)))
    (invoked : List (Nat × EvMask)) : Prop where
  trace : t.trace = s.trace ++ invoked.map fun p => .invoke p.1 p.2
  empty : t.activelist = []
  order : (invoked.map Prod.fst).Sublist s.activelist
  deleted : ∀ i j, i < j → ∀ p, invoked[j]? = some p →
    ∀ pollDel, .del p.1 pollDel ∉ callbacks.getD i []

theorem processActiveLoop_calls (h : s.Consistent) (fuel : Nat)
    (callbacks : List (List (EventOp κ))) (rc : Int) (hfuel : s.activelist.length ≤ fuel) :
    ∃ invoked, Drained s (processActiveLoop fuel callbacks s rc).1 callbacks invoked ∧
      (processActiveLoop fuel callbacks s rc).2 = rc + invoked.length := by
  induction fuel generalizing s callbacks rc with
  | zero =>
    have hempty : s.activelist = [] := List.length_eq_zero_iff.mp (by omega)
    exact ⟨[], ⟨by simp [processActiveLoop], hempty, by simp, by simp⟩, by simp [processActiveLoop]⟩
  | succ fuel ih =>
    unfold processActiveLoop
    split
    · rename_i hempty
      exact ⟨[], ⟨by simp, hempty, by simp, by simp⟩, by simp⟩
    · rename_i ev rest hactive
      obtain ⟨hone, ⟨results, htrace⟩, hrest, hdeletes⟩ :=
        processOne_spec h hactive (callbacks.headD [])
      have hlength := hrest.length_le
      rw [hactive, List.length_cons] at hfuel
      -- the list is shorter by its head at least, since callbacks only take events out
      obtain ⟨invoked, hdrained, hrc⟩ := ih hone callbacks.tail (rc + 1) (by omega)
      refine ⟨(ev, results) :: invoked, ⟨?_, hdrained.empty, ?_, ?_⟩, ?_⟩
      · rw [hdrained.trace, htrace]
        simp
      · rw [hactive]
        exact (hdrained.order.trans hrest).cons_cons ev
      · intro i j hij p hp pollDel hdel
        obtain ⟨j, rfl⟩ : ∃ k, j = k + 1 := ⟨j - 1, by omega⟩
        rw [List.getElem?_cons_succ] at hp
        cases i with
        | zero =>
          -- an event called later was still listed after this callback
          have hlisted : p.1 ∈ (s.processOne ev (callbacks.headD [])).activelist :=
            hdrained.order.subset (List.mem_map_of_mem (List.mem_of_getElem? hp))
          refine hdeletes p.1 pollDel ?_ hlisted
          cases callbacks with
          | nil => exact hdel
          | cons ops callbacks => exact hdel
        | succ i =>
          refine hdrained.deleted i j (by omega) p hp pollDel ?_
          cases callbacks with
          | nil => simp at hdel
          | cons ops callbacks => exact hdel
      · rw [hrc, List.length_cons]
        omega

/-- More fuel than there are active events makes no difference. -/
theorem processActiveLoop_fuel (h : s.Consistent) (fuel more : Nat)
    (callbacks : List (List (EventOp κ))) (rc : Int) (hfuel : s.activelist.length ≤ fuel) :
    processActiveLoop (fuel + more) callbacks s rc = processActiveLoop fuel callbacks s rc := by
  induction fuel generalizing s callbacks rc with
  | zero =>
    have hempty : s.activelist = [] := List.length_eq_zero_iff.mp (by omega)
    cases more with
    | zero => rfl
    | succ more =>
      rw [Nat.zero_add]
      simp only [processActiveLoop, hempty]
  | succ fuel ih =>
    rw [Nat.add_right_comm, processActiveLoop, processActiveLoop]
    split
    · rfl
    · rename_i ev rest hactive
      obtain ⟨hone, -, hrest, -⟩ := processOne_spec h hactive (callbacks.headD [])
      have hlength := hrest.length_le
      rw [hactive, List.length_cons] at hfuel
      exact ih hone callbacks.tail (rc + 1) (by omega)

/-- One call of `evsets_process_active` on an event set, whatever its callbacks do: it comes
to an end with an empty active list (no amount of rounds beyond the number of active events
makes a difference), its result is the number of callbacks it ran, every event it called was
active in the beginning and was called once, and none was called after a callback that
deleted it. -/
theorem process_active_terminates (precision now : Int) (is : List (SetInput κ)) (s : EventSet κ)
    (hrun : Lib.Run step (evsetsCreate precision now) is s) (callbacks : List (List (EventOp κ))) :
    (∀ more, processActiveLoop (s.activelist.length + more) callbacks s 0 =
        s.evsetsProcessActive callbacks) ∧
      (s.evsetsProcessActive callbacks).1.activelist = [] ∧
      ∃ invoked : List (Nat × EvMask),
        (s.evsetsProcessActive callbacks).1.trace =
          s.trace ++ (invoked.map fun p => .invoke p.1 p.2) ∧
        (s.evsetsProcessActive callbacks).2 = invoked.length ∧
        (invoked.map Prod.fst).Nodup ∧
        (∀ p ∈ invoked, (s.event p.1).active = true) ∧
        ∀ i j, i < j → ∀ p, invoked[j]? = some p →
          ∀ pollDel, .del p.1 pollDel ∉ callbacks.getD i [] := by
  have h := consistent_of_run hrun
  obtain ⟨invoked, hdrained, hrc⟩ :=
    processActiveLoop_calls h s.activelist.length callbacks 0 (Nat.le_refl _)
  -- an event is listed once, and called once
  have hnodup : s.activelist.Nodup := by
    apply List.nodup_iff_count_le_one.mpr
    intro a
    rw [(h.linked a).activelist]
    exact Bool.toNat_le _
  refine ⟨fun more => processActiveLoop_fuel h _ more callbacks 0 (Nat.le_refl _), hdrained.empty,
    invoked, hdrained.trace, ?_, hnodup.sublist hdrained.order, ?_, hdrained.deleted⟩
  · rw [evsetsProcessActive, hrc, Int.zero_add]
  · intro p hp
    have hmem := hdrained.order.subset (List.mem_map_of_mem (f := Prod.fst) hp)
    exact (h.of_mem_activelist hmem).1

/-- Two events become readable; the callback of the first one deletes the second one and
arms itself again. -/
def twoReadable : List (SetInput Nat) :=
  [.op (.set 3 5 .evRead), .op (.setCallback 3 0), .op (.add 3 (-1) true), .op (.set 4 6 .evRead),
    .op (.setCallback 4 0), .op (.add 4 (-1) true), .report 3 .evRead, .report 4 .evRead]

theorem process_active_terminates_twoReadable :
    ∃ s, Lib.exec step (evsetsCreate 8 0) twoReadable = some s ∧ s.activelist = [3, 4] ∧
      (s.evsetsProcessActive [[.del 4 0, .add 3 (-1) true]]).2 = 1 ∧
      (s.evsetsProcessActive [[.del 4 0, .add 3 (-1) true]]).1.activelist = [] := by
  refine ⟨_, rfl, by decide +kernel, by decide +kernel, ?_⟩
  exact (process_active_terminates 8 0 twoReadable _ (Lib.run_iff_exec.mpr rfl)
    [[.del 4 0, .add 3 (-1) true]]).2.1

end Evlite.EventSet
