import Evlite.Event.ProcessActive
import Evlite.Session.Api

/-!
# Timeouts After an Event Was Added Without One

`evsets_add` documents a negative `tv` as "no timeout", but it neither takes the event out
of the wheel nor forgets `timer_msecs`. A timeout from an earlier registration is therefore
still reported in two cases: the event is pending in the wheel when it is added again, or it
is persistent and `evsets_process_active` arms the remembered timeout.

A run is cut into single moves here, so that a call made by a callback is a move of its own.

## Main results

- `evsetsDispatch_moves`: `evsets_dispatch` is a sequence of such moves.
- `no_timeout_after_add`: in every run that avoids the two cases, no event that was last
  added without a timeout is activated with `EV_TIMEOUT`.
- `iolayerSetTimeout_pending`: `iolayer_set_timeout` keeps a pending read timeout.
-/

namespace Evlite

/-! ## Single moves -/

/-- The single moves of an event set. -/
inductive SetMove (κ : Type) where
  /-- A call on one event, by a callback or from elsewhere. -/
  | op (op : EventOp κ)
  | report (ev : Nat) (res : EvMask)
  /-- `evtimer_dispatch` -/
  | tick
  /-- `expire_time` is set. -/
  | clock (expireTime : Int)
  /-- `evsets_process_active` takes the first active event and calls its callback. -/
  | take
deriving DecidableEq, Repr

namespace EventSet

variable {κ : Type}

/-- One move. -/
def move (s : EventSet κ) : SetMove κ → Option (EventSet κ)
  | .op op => some (s.runOp op)
  | .report ev res => some (s.pollReport ev res)
  | .tick => some s.evtimerDispatch.1
  | .clock expireTime => some { s with expireTime := expireTime }
  | .take =>
    match s.activelist with
    | [] => none
    | ev :: _ =>
      let s := s.beforeCallback ev
      some (s.emit (.invoke ev (s.event ev).results))

/-- A run of moves, whatever they are. -/
def Moves (s t : EventSet κ) : Prop := ∃ ms, Lib.Run move s ms t

theorem Moves.refl (s : EventSet κ) : Moves s s := ⟨[], .nil s⟩

theorem Moves.trans {s t u : EventSet κ} (h₁ : Moves s t) (h₂ : Moves t u) : Moves s u := by
  obtain ⟨ms₁, h₁⟩ := h₁
  obtain ⟨ms₂, h₂⟩ := h₂
  exact ⟨ms₁ ++ ms₂, h₁.append h₂⟩

theorem Moves.single {s t : EventSet κ} (m : SetMove κ) (h : s.move m = some t) : Moves s t :=
  ⟨[m], .snoc (.nil s) trivial h⟩

theorem runOps_moves (s : EventSet κ) (ops : List (EventOp κ)) : Moves s (s.runOps ops) := by
  induction ops generalizing s with
  | nil => exact .refl s
  | cons op ops ih => exact (Moves.single (.op op) rfl).trans (ih _)

theorem processActiveLoop_moves (fuel : Nat) (callbacks : List (List (EventOp κ)))
    (s : EventSet κ) (rc : Int) : Moves s (processActiveLoop fuel callbacks s rc).1 := by
  induction fuel generalizing callbacks s rc with
  | zero => exact .refl s
  | succ fuel ih =>
    unfold processActiveLoop
    split
    · exact .refl s
    · rename_i ev rest hactive
      have htake : s.move .take =
          some ((s.beforeCallback ev).emit (.invoke ev ((s.beforeCallback ev).event ev).results)) := by
        simp only [move, hactive]
      exact ((Moves.single .take htake).trans (runOps_moves _ _)).trans (ih _ _ _)

/-- `evsets_dispatch` is a sequence of single moves. -/
theorem evsetsDispatch_moves (s : EventSet κ) (reports : List (Nat × EvMask)) (now : Int)
    (callbacks : List (List (EventOp κ))) :
    Moves s (s.evsetsDispatch reports now callbacks).1 := by
  have hreports : Moves s (reports.foldl (fun s r => s.pollReport r.1 r.2) s) := by
    induction reports generalizing s with
    | nil => exact .refl s
    | cons r rs ih => exact (Moves.single (.report r.1 r.2) rfl).trans (ih _)
  refine hreports.trans ?_
  unfold evsetsDispatch
  dsimp only
  generalize reports.foldl (fun s r => s.pollReport r.1 r.2) s = t
  refine Moves.trans ?_ (processActiveLoop_moves _ _ _ _)
  split
  · exact (Moves.single .tick rfl).trans (.single (.clock (now + t.timerPrecision)) rfl)
  · exact .refl t

/-! ## Events without a timeout -/

/-- The event was last added without a timeout. -/
def quiet (e : Event κ) : Bool :=
  match e.lastAdd with
  | some tv => tv < 0
  | none => false

/-- The move does not leave a timeout behind: an event that is added without one is not in
the wheel, and a persistent event that was added without one does not remember one when it
is processed. -/
def Silences (s : EventSet κ) : SetMove κ → Prop
  | .op (.add ev tv _) => tv < 0 → (s.event ev).timer = false
  | .take => ∀ ev ∈ s.activelist.head?, (s.event ev).events.persist = true →
      quiet (s.event ev) = true → (s.event ev).timerMsecs < 0
  | _ => True

instance (s : EventSet κ) (m : SetMove κ) : Decidable (s.Silences m) := by
  cases m with
  | op op => cases op <;> unfold Silences <;> infer_instance
  | take => unfold Silences; infer_instance
  | _ => unfold Silences; infer_instance

/-- No event without a timeout is in the wheel, and none was activated with `EV_TIMEOUT`. -/
structure Quiet (s : EventSet κ) : Prop where
  pending : ∀ ev, quiet (s.event ev) = true → (s.event ev).timer = false
  trace : ∀ ev res tv, .activate ev res (some tv) ∈ s.trace → res.timeout = true → 0 ≤ tv

theorem quiet_congr {e e' : Event κ} (h : e'.lastAdd = e.lastAdd) : quiet e' = quiet e := by
  rw [quiet, quiet, h]

section

variable {s t : EventSet κ}

theorem quiet_of_mark (hmark : t.mark = s.mark) (a : Nat) : quiet (t.event a) = quiet (s.event a) :=
  quiet_congr (congrArg Prod.snd (congrFun hmark a))

/-- Where no timeout is armed, no event falls quiet and nothing is recorded, the set stays
quiet. -/
theorem Quiet.calm (h : s.Quiet)
    (htimer : ∀ a, (t.view a).timer = true → (s.view a).timer = true)
    (hquiet : ∀ a, quiet (t.event a) = true → quiet (s.event a) = true)
    (htrace : ∀ ev res tv, .activate ev res (some tv) ∈ t.trace →
      .activate ev res (some tv) ∈ s.trace) : t.Quiet where
  pending ev hev := by
    have hclear : (s.view ev).timer = false := h.pending ev (hquiet ev hev)
    show (t.view ev).timer = false
    by_contra hset
    have htrue := htimer ev (by simpa using hset)
    rw [hclear] at htrue
    cases htrue
  trace ev res tv he := h.trace ev res tv (htrace ev res tv he)

/-- An activation that reports no timeout, or is of an event with one. -/
theorem Quiet.eventActive (h : s.Quiet) (ev : Nat) (res : EvMask)
    (hres : res.timeout = true → quiet (s.event ev) = false) : (s.eventActive ev res).Quiet := by
  have htrace : (s.eventActive ev res).trace =
      s.trace ++ [.activate ev res (s.event ev).lastAdd] := by
    unfold EventSet.eventActive
    dsimp only
    split
    · rfl
    · rw [eventQueueInsert_trace]
      rfl
  have hmark : (s.eventActive ev res).mark = s.mark := by
    unfold EventSet.eventActive
    dsimp only
    split
    · exact modify_mark _ ev (by intro e; rfl)
    · rw [eventQueueInsert_mark]
      exact modify_mark _ ev (by intro e; rfl)
  refine ⟨fun a ha => ?_, fun a r tv he hr => ?_⟩
  · have hclear := h.pending a ((quiet_of_mark hmark a).symm.trans ha)
    show ((s.eventActive ev res).view a).timer = false
    rw [eventActive_view, Function.update_apply]
    split
    · rename_i hev
      subst hev
      unfold EventView.eventActive
      split <;> exact hclear
    · exact hclear
  · rw [htrace] at he
    rcases List.mem_append.mp he with he | he
    · exact h.trace a r tv he hr
    · obtain ⟨rfl, rfl, hlast⟩ : a = ev ∧ r = res ∧ some tv = (s.event ev).lastAdd := by
        simpa using he
      -- the new activation is a time-out only if the event was added with a timeout
      have hloud := hres hr
      rw [quiet, ← hlast] at hloud
      simpa using hloud

/-! ## The moves -/

theorem evsetsDel_timer (s : EventSet κ) (ev a : Nat) (pollDel : Int)
    (h : ((s.evsetsDel ev pollDel).1.view a).timer = true) : (s.view a).timer = true := by
  rw [evsetsDel_view, Function.update_apply] at h
  split at h
  · cases h
  · exact h

theorem evsetsDel_mark (s : EventSet κ) (ev : Nat) (pollDel : Int) :
    (s.evsetsDel ev pollDel).1.mark = s.mark := by
  unfold evsetsDel
  dsimp only
  split
  · rw [eventQueueRemove_mark, eventQueueRemove_mark, eventQueueRemove_mark]
  · rw [eventQueueRemove_mark, eventQueueRemove_mark]

theorem Quiet.evsetsDel (h : s.Quiet) (ev : Nat) (pollDel : Int) :
    (s.evsetsDel ev pollDel).1.Quiet := by
  apply h.calm
  · exact fun a => evsetsDel_timer s ev a pollDel
  · intro a ha
    rwa [quiet_of_mark (evsetsDel_mark s ev pollDel)] at ha
  · intro a res tv he
    rwa [evsetsDel_trace] at he

/-- The fields of an event after `evsets_add`. -/
theorem evsetsAdd_mark (s : EventSet κ) (ev a : Nat) (tv : Int) (pollAdd : Bool) :
    ((s.evsetsAdd ev tv pollAdd).1.event a).lastAdd =
      if a = ev then some tv else (s.event a).lastAdd := by
  have hpoll : ∀ u : EventSet κ, (u.addPoll ev pollAdd).1.mark = u.mark := by
    intro u
    unfold addPoll
    dsimp only
    split
    · split
      · exact eventQueueInsert_mark u ev .inserted
      · rfl
    · rfl
  have htimer : ∀ u : EventSet κ, (u.addTimer ev tv).1.mark = u.mark := by
    intro u
    unfold addTimer
    split
    · rw [eventQueueInsert_mark, modify_mark _ ev (by intro e; rfl)]
      split
      · rw [eventQueueRemove_mark, eventQueueRemove_mark]
      · rw [eventQueueRemove_mark]
    · rfl
  -- only the first line of `evsets_add` writes the mark
  have hall : (s.evsetsAdd ev tv pollAdd).1.mark =
      (s.modify ev fun e => { e with evsets := true, lastAdd := some tv }).mark := by
    unfold evsetsAdd
    rw [htimer, hpoll]
  have hlast := congrArg Prod.snd (congrFun hall a)
  refine hlast.trans ?_
  show ((s.modify ev _).event a).lastAdd = _
  rw [modify_event]
  split <;> rfl

theorem Quiet.evsetsAdd (h : s.Quiet) (ev : Nat) (tv : Int) (pollAdd : Bool)
    (hsilent : tv < 0 → (s.event ev).timer = false) : (s.evsetsAdd ev tv pollAdd).1.Quiet := by
  refine ⟨fun a ha => ?_, fun a res u he => ?_⟩
  · show ((s.evsetsAdd ev tv pollAdd).1.view a).timer = false
    rw [evsetsAdd_view, Function.update_apply]
    rw [quiet, evsetsAdd_mark] at ha
    split
    · rename_i hev
      rw [if_pos hev] at ha
      -- no timer was armed now, and none was pending
      have htv : tv < 0 := by simpa using ha
      have hnot : ¬(0 ≤ tv) := Int.not_le.mpr htv
      have hclear : (s.view ev).timer = false := hsilent htv
      rw [EventView.evsetsAdd, EventView.addTimer, if_neg hnot]
      unfold EventView.addPoll
      split <;> exact hclear
    · rename_i hev
      rw [if_neg hev] at ha
      exact h.pending a ha
  · rw [evsetsAdd_trace] at he
    exact h.trace a res u he

theorem Quiet.modify (h : s.Quiet) (ev : Nat) {f : Event κ → Event κ}
    (hf : ∀ e, ((f e).timer = true → e.timer = true) ∧ (quiet (f e) = true → quiet e = true)) :
    (s.modify ev f).Quiet := by
  apply h.calm
  · intro a ha
    rw [modify_view, Function.update_apply] at ha
    split at ha
    · rename_i hev
      rw [hev]
      exact (hf _).1 ha
    · exact ha
  · intro a ha
    rw [modify_event] at ha
    split at ha
    · rename_i hev
      rw [hev]
      exact (hf _).2 ha
    · exact ha
  · intro a res tv he
    exact he

theorem Quiet.runOp (h : s.Quiet) (op : EventOp κ) (hsilent : s.Silences (.op op)) :
    (s.runOp op).Quiet := by
  cases op with
  | add ev tv pollAdd =>
    simp only [EventSet.runOp]
    split
    · exact h.evsetsAdd ev tv pollAdd hsilent
    · exact h
  | del ev pollDel =>
    simp only [EventSet.runOp]
    split
    · exact h.evsetsDel ev pollDel
    · exact h
  | set ev fd events =>
    simp only [EventSet.runOp]
    apply h.modify
    intro e
    exact ⟨id, id⟩
  | setCallback ev cb =>
    simp only [EventSet.runOp]
    apply h.modify
    intro e
    exact ⟨id, id⟩
  | reset ev pollDel =>
    simp only [EventSet.runOp, EventSet.eventReset]
    -- a blank event has no timeout
    have hforget : ∀ u : EventSet κ, u.Quiet → (u.modify ev fun e => { lastAdd := e.lastAdd }).Quiet := by
      intro u hu
      apply hu.modify
      intro e
      exact ⟨fun hfalse => absurd hfalse Bool.false_ne_true, id⟩
    split
    · exact hforget _ (h.evsetsDel ev pollDel)
    · exact hforget _ h
  | destroy ev =>
    simp only [EventSet.runOp]
    split
    · exact h
    · apply h.modify
      intro e
      exact ⟨fun hfalse => absurd hfalse Bool.false_ne_true,
        fun hfalse => absurd hfalse Bool.false_ne_true⟩

/-- Leaving a list. -/
theorem Quiet.remove (h : s.Quiet) (ev : Nat) (type : QueueType) :
    (s.eventQueueRemove ev type).Quiet := by
  apply h.calm
  · intro a ha
    rw [eventQueueRemove_view, Function.update_apply] at ha
    split at ha
    · rename_i hev
      rw [hev]
      cases type with
      | inserted => exact ha
      | timer => cases ha
      | active => exact ha
    · exact ha
  · intro a ha
    rwa [quiet_of_mark (eventQueueRemove_mark s ev type)] at ha
  · intro a res tv he
    rwa [eventQueueRemove_trace] at he

/-- An event that expires was added with a timeout. -/
theorem Quiet.evtimerDispatchOne (h : s.Quiet) (hs : s.Consistent) {b ev : Nat} (rc : Int)
    (hmem : ev ∈ s.coreTimer.bucketArray b) : (s.evtimerDispatchOne b ev rc).1.Quiet := by
  have hstep : (s.modify ev fun e => { e with timerStepcnt := e.timerStepcnt - 1 }).Quiet :=
    h.modify ev (by intro e; exact ⟨id, id⟩)
  have hconsistent : (s.modify ev fun e =>
      { e with timerStepcnt := e.timerStepcnt - 1 }).Consistent :=
    hs.modify (by intro e; exact ⟨rfl, rfl, rfl, rfl, id⟩)
  have hmem' : ev ∈ (s.modify ev fun e =>
    { e with timerStepcnt := e.timerStepcnt - 1 }).coreTimer.bucketArray b := hmem
  unfold EventSet.evtimerDispatchOne
  dsimp only
  generalize (s.modify ev fun e => { e with timerStepcnt := e.timerStepcnt - 1 }) = u
    at hstep hconsistent hmem'
  split
  · exact hstep.calm (fun a => id) (fun a => id) (fun a res tv => id)
  · obtain ⟨htimer, -⟩ := hconsistent.of_mem_bucket hmem'
    rw [evtimerRemove_setStatus u ev htimer]
    -- an event in the wheel was added with a timeout
    have hloud : quiet (u.event ev) = false := by
      by_contra hquiet
      have hclear := hstep.pending ev (by simpa using hquiet)
      rw [htimer] at hclear
      cases hclear
    split
    · refine (hstep.remove ev .timer).eventActive ev .evTimeout fun _ => ?_
      rwa [quiet_of_mark (eventQueueRemove_mark u ev .timer)]
    · exact hstep.remove ev .timer

theorem Quiet.evtimerDispatchLoop (h : s.Quiet) (hs : s.Consistent) (b laster fuel : Nat)
    (rc : Int) : (EventSet.evtimerDispatchLoop b laster fuel s rc).1.Quiet := by
  induction fuel generalizing s rc with
  | zero => exact h
  | succ fuel ih =>
    unfold EventSet.evtimerDispatchLoop
    split
    · exact h
    · rename_i ev rest hbucket
      have hmem : ev ∈ s.coreTimer.bucketArray b := by rw [hbucket]; exact List.mem_cons_self ..
      have hone := h.evtimerDispatchOne hs rc hmem
      dsimp only
      split
      · exact hone
      · exact ih hone (hs.evtimerDispatchOne rc hmem) _

theorem Quiet.evtimerDispatch (h : s.Quiet) (hs : s.Consistent) : s.evtimerDispatch.1.Quiet := by
  have htick : (s.setTimer { s.coreTimer with
      dispatchRefer := s.coreTimer.dispatchRefer + 1 }).Quiet :=
    h.calm (fun a => id) (fun a => id) (fun a res tv => id)
  have hticked : (s.setTimer { s.coreTimer with
      dispatchRefer := s.coreTimer.dispatchRefer + 1 }).Consistent :=
    hs.of_lists rfl rfl rfl rfl rfl
  unfold EventSet.evtimerDispatch
  dsimp only
  split
  · exact htick
  · exact htick.evtimerDispatchLoop hticked _ _ _ 0

theorem beforeCallback_mark (s : EventSet κ) (ev : Nat) : (s.beforeCallback ev).mark = s.mark := by
  unfold beforeCallback
  split
  · exact evsetsDel_mark s ev 0
  · dsimp only
    split
    · rw [eventQueueInsert_mark]
      split
      · rw [eventQueueRemove_mark, eventQueueRemove_mark]
      · rw [eventQueueRemove_mark]
    · rw [eventQueueRemove_mark]

/-- A persistent event is armed again only with a timeout it was last added with. -/
theorem Quiet.beforeCallback (h : s.Quiet) (ev : Nat)
    (hsilent : (s.event ev).events.persist = true → quiet (s.event ev) = true →
      (s.event ev).timerMsecs < 0) : (s.beforeCallback ev).Quiet := by
  refine ⟨fun a ha => ?_, fun a res tv he => ?_⟩
  · rw [quiet_of_mark (beforeCallback_mark s ev)] at ha
    show ((s.beforeCallback ev).view a).timer = false
    rw [beforeCallback_view, Function.update_apply]
    split
    · rename_i hev
      subst hev
      unfold EventView.processActive
      split
      · rename_i hpersist
        have hclear : (s.view a).timer = false := h.pending a ha
        have hforgot : (s.view a).timerMsecs < 0 := hsilent hpersist ha
        simp [hclear, hforgot]
      · rfl
    · exact h.pending a ha
  · rw [beforeCallback_trace] at he
    exact h.trace a res tv he

theorem Quiet.move (h : s.Quiet) (hs : s.Consistent) {m : SetMove κ} (hsilent : s.Silences m)
    (hmove : s.move m = some t) : t.Quiet := by
  cases m with
  | op op =>
    cases hmove
    exact h.runOp op hsilent
  | report ev res =>
    cases hmove
    unfold EventSet.pollReport
    split
    · exact h.eventActive ev _ fun hfalse => by cases hfalse
    · exact h
  | tick =>
    cases hmove
    exact h.evtimerDispatch hs
  | clock expireTime =>
    cases hmove
    exact h.calm (fun a => id) (fun a => id) (fun a res tv => id)
  | take =>
    unfold EventSet.move at hmove
    cases hactive : s.activelist with
    | nil => simp [hactive] at hmove
    | cons ev rest =>
      simp only [hactive, Option.some.injEq] at hmove
      -- the head of the active list is the event that the condition is about
      have hhead : ev ∈ s.activelist.head? := by rw [hactive]; rfl
      have hbefore := h.beforeCallback ev (hsilent ev hhead)
      rw [← hmove]
      refine hbefore.calm (fun a => id) (fun a => id) fun a res tv he => ?_
      simpa [EventSet.emit] using he

theorem Consistent.move (h : s.Consistent) {m : SetMove κ} (hmove : s.move m = some t) :
    t.Consistent := by
  cases m with
  | op op =>
    cases hmove
    exact h.runOp op
  | report ev res =>
    cases hmove
    exact h.pollReport ev res
  | tick =>
    cases hmove
    exact h.evtimerDispatch
  | clock expireTime =>
    cases hmove
    exact h.of_lists rfl rfl rfl rfl rfl
  | take =>
    unfold EventSet.move at hmove
    cases hactive : s.activelist with
    | nil => simp [hactive] at hmove
    | cons ev rest =>
      simp only [hactive, Option.some.injEq] at hmove
      have hmem : ev ∈ s.activelist := by rw [hactive]; exact List.mem_cons_self ..
      rw [← hmove]
      exact (h.beforeCallback (h.of_mem_activelist hmem).2).emit _

end

/-! ## Main result -/

theorem evsetsCreate_quiet (precision now : Int) : (evsetsCreate precision now : EventSet κ).Quiet :=
  ⟨fun _ _ => rfl, fun _ _ _ he => by cases he⟩

/-- In a run in which no event is added without a timeout while it is in the wheel, and no
persistent event that was last added without a timeout is processed while it remembers one,
every event that is activated with `EV_TIMEOUT` was last added with a timeout. -/
theorem no_timeout_after_add (precision now : Int) (ms : List (SetMove κ)) (s : EventSet κ)
    (hrun : Lib.GuardedRun move Silences (evsetsCreate precision now) ms s) (ev : Nat)
    (res : EvMask) (tv : Int) (hactivated : .activate ev res (some tv) ∈ s.trace)
    (htimeout : res.timeout = true) : 0 ≤ tv := by
  have hinv : s.Consistent ∧ s.Quiet := hrun.invariant (I := fun s => s.Consistent ∧ s.Quiet)
    ⟨evsetsCreate_consistent precision now, evsetsCreate_quiet precision now⟩
    fun _ _ _ h hsilent hmove => ⟨h.1.move hmove, h.2.move h.1 hsilent hmove⟩
  exact hinv.2.trace ev res tv hactivated htimeout

/-- An event that is deleted before it is added again with a timeout. -/
def addedAfterDel : List (SetMove Nat) :=
  [.op (.setCallback 3 0), .op (.add 3 100 true), .op (.del 3 0), .op (.add 3 (-1) true),
    .op (.add 3 0 true), .tick]

theorem no_timeout_after_add_addedAfterDel :
    ∃ s, Lib.guardedExec move Silences (evsetsCreate 8 0) addedAfterDel = some s ∧
      s.trace = [.activate 3 .evTimeout (some 0)] ∧ (0 : Int) ≤ 0 :=
  ⟨_, rfl, by decide +kernel, no_timeout_after_add 8 0 addedAfterDel _ (Lib.GuardedRun.of_exec rfl)
    3 .evTimeout 0 (by decide +kernel) rfl⟩

/-- A pending timeout is reported although the event was added again without one. -/
theorem no_timeout_after_add_pending_fails :
    ∃ s, Lib.exec move (evsetsCreate 8 0) [.op (.setCallback 3 0), .op (.add 3 0 true),
        .op (.add 3 (-1) true), .tick] = some s ∧
      .activate 3 .evTimeout (some (-1)) ∈ s.trace :=
  ⟨_, rfl, by decide +kernel⟩

end EventSet

/-! ## iolayer_set_timeout -/

/-- Adding an event again keeps its timeout pending. -/
theorem EventView.evsetsAdd_pending {κ : Type} (e : EventView κ) (takes : Bool) (tv : Int)
    (hpending : e.timer = true) : (e.evsetsAdd takes tv).timer = true := by
  have hpoll : (e.addPoll takes).timer = true := by
    unfold EventView.addPoll
    split <;> exact hpending
  unfold EventView.evsetsAdd EventView.addTimer
  split
  · rfl
  · exact hpoll

/-- `iolayer_set_timeout` registers the read event again without taking it out of the wheel,
so a pending read timeout stays pending when the timeout is switched off. -/
theorem Session.iolayerSetTimeout_pending (s : Session) (seconds : Int)
    (hpending : s.evread.timer = true) : (s.iolayerSetTimeout seconds).evread.timer = true := by
  have hread : ∀ t : Session, t.evread.timer = true →
      (t.sessionAddEvent .evRead).evread.timer = true := by
    intro t ht
    have hwrite : ∀ u : Session, (u.addWriteEvent .evRead).evread = u.evread := by
      intro u
      unfold Session.addWriteEvent
      split <;> rfl
    rw [Session.sessionAddEvent, hwrite]
    unfold Session.addReadEvent
    split
    · exact EventView.evsetsAdd_pending _ _ _ ht
    · exact ht
  exact hread _ hpending

end Evlite
