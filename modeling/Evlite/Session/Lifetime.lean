import Evlite.Lib.TransitionSystem
import Evlite.Session.Ops

/-!
# The Session inside its own Callbacks

A handler calls the service and then goes on with the session, so a callback must not
destroy it. `iolayer_shutdown` posts a task for this reason. `iolayer_perform` without a
delay does not: it runs `service.perform` at once, and shuts the session down if that
fails. The session survives this only if there is something left to send.

## Main results

- `callback_spares_iff`: which callbacks leave the session alive, and in which states.
-/

namespace Evlite.Session

/-! ## Calls that spare the session -/

/-- `session_shutdown` lets the session live until its queue is sent. -/
def drains (s : Session) : Bool := !s.status.exiting && !s.sendqueue.isEmpty

mutual

/-- A call does not end the session it is made on: a task that runs at once does not fail,
or returns to a session that has something to send first. -/
def callSpares : Call → Session → Bool
  | .perform req calls rc _, s =>
    let begun := s.emit (.perform req.recycle req.type req.task req.interval)
    decide (0 < req.interval) ||
      callsSpare calls begun && (decide (0 ≤ rc) || (runCalls calls begun).drains)
  | .setPersist _, _ | .setTimeout _, _ | .setKeepalive _, _ | .setSndqlimit _, _ | .setOther, _
  | .send _, _ | .broadcast _ _ _, _ | .shutdown, _ | .shutdowns, _ => true

/-- None of the calls ends the session it is made on. -/
def callsSpare : List Call → Session → Bool
  | [], _ => true
  | c :: cs, s => callSpares c s && callsSpare cs (runCall c s)

end

/-! ## Ending -/

theorem sessionShutdown_alive_iff (s : Session) (halive : s.freed = false)
    (onShutdown : Session → Session) :
    (s.sessionShutdown onShutdown).freed = false ↔ s.drains = true := by
  unfold sessionShutdown drains
  split
  · rename_i hdrain
    simp only [sessionAddEvent_freed, sessionDelEvent_freed, hdrain, iff_true]
    exact halive
  · rename_i hend
    simp only [channelShutdown_freed, hend, Bool.true_eq_false]
    decide

/-- What was freed stays freed. -/
theorem Ops.freed {s t : Session} (h : Ops s t) (hs : s.freed = true) : t.freed = true := by
  refine h.invariant (I := fun u => u.freed = true) hs fun op u hu _ => ?_
  by_cases hfinish : op = .finish
  · rw [hfinish, Op.run, sessionEnd_eq]
  · exact (op.run_freed u hfinish).trans hu

theorem broadcastDirect_freed (s : Session) (m : Message) (deliveries : List Delivery) :
    (s.broadcastDirect m deliveries).freed = s.freed := by
  unfold broadcastDirect
  induction deliveries generalizing s with
  | nil => rfl
  | cons d ds ih =>
    rw [List.foldl_cons, ih]
    exact sessionSendmessage_freed s m d.transform d.msg d.io

theorem sendDirect_freed (s : Session) (req : SendRequest) : (s.sendDirect req).freed = s.freed := by
  unfold sendDirect sessionSend
  split
  · split
    · rename_i buf _
      exact Op.run_freed (.send buf req.msg req.io) s (by simp)
    · rfl
  · rfl

theorem sessionScheduleTask_freed (s : Session) (type : Int) (t : TaskPtr) (interval : Int)
    (recycle : Nat) (addr : Option Nat) (event : Bool) :
    (s.sessionScheduleTask type t interval recycle addr event).1.freed = s.freed := by
  unfold sessionScheduleTask
  split
  · rfl
  · cases addr with
    | none => rfl
    | some addr =>
      dsimp only
      split <;> rfl

/-! ## Calls -/

/-- A task executed at once, after `service.perform` returned to the session `u`. -/
theorem performed_alive_iff (u : Session) (rc : Int) (onShutdown : Session → Session)
    (req : PerformRequest) :
    (if rc < 0 then
        u.whenAlive fun s => (s.sessionClose.sessionShutdown onShutdown).recycleRequest req
      else u.recycleRequest req).freed = false ↔
      u.freed = false ∧ (0 ≤ rc ∨ u.drains = true) := by
  by_cases hrc : rc < 0
  · have hnot : ¬ 0 ≤ rc := by omega
    simp only [hrc, if_true, hnot, false_or]
    cases hfreed : u.freed with
    | true => simp [whenAlive_freed hfreed, hfreed]
    | false =>
      rw [whenAlive_alive hfreed]
      have hclosed : u.sessionClose.drains = u.drains := rfl
      simp only [true_and]
      rw [← hclosed]
      exact sessionShutdown_alive_iff u.sessionClose hfreed onShutdown
  · have hpos : 0 ≤ rc := by omega
    simp [hrc, hpos, recycleRequest, emit]

mutual

theorem runCall_alive_iff (c : Call) (s : Session) (halive : s.freed = false) :
    (runCall c s).freed = false ↔ callSpares c s = true := by
  cases c with
  | perform req calls rc onShutdown =>
    rw [runCall, callSpares]
    simp only [halive, Bool.false_eq_true, if_false, performDirect]
    by_cases hinterval : req.interval ≤ 0
    · -- the task runs at once, and its callback decides
      have hnot : ¬ 0 < req.interval := by omega
      have hcalls := runCalls_alive_iff calls
        (s.emit (.perform req.recycle req.type req.task req.interval)) halive
      simp only [hinterval, if_true, performed_alive_iff, hcalls, hnot, decide_false,
        Bool.false_or, Bool.and_eq_true, Bool.or_eq_true, decide_eq_true_eq]
    · -- the task is only scheduled
      have hpos : 0 < req.interval := by omega
      have htask := sessionScheduleTask_freed s req.type req.task req.interval req.recycle req.addr
        req.event
      simp only [hinterval, if_false, hpos, decide_true, Bool.true_or, iff_true]
      split
      · exact htask.trans halive
      · exact htask.trans halive
  | setPersist onoff =>
    rw [runCall, whenAlive_alive halive, callSpares]
    simpa [iolayerSetPersist] using halive
  | setTimeout seconds =>
    rw [runCall, whenAlive_alive halive, callSpares]
    simpa [iolayerSetTimeout] using halive
  | setKeepalive seconds =>
    rw [runCall, whenAlive_alive halive, callSpares]
    simpa [iolayerSetKeepalive] using halive
  | setSndqlimit queuelimit =>
    rw [runCall, whenAlive_alive halive, callSpares]
    simpa [iolayerSetSndqlimit] using halive
  | send req =>
    rw [runCall, whenAlive_alive halive, callSpares]
    simpa [sendDirect_freed] using halive
  | broadcast id buffer deliveries =>
    rw [runCall, whenAlive_alive halive, callSpares]
    simpa [broadcastDirect_freed] using halive
  | setOther =>
    rw [runCall, callSpares]
    simpa using halive
  | shutdown =>
    rw [runCall, callSpares]
    simpa using halive
  | shutdowns =>
    rw [runCall, callSpares]
    simpa using halive

theorem runCalls_alive_iff (cs : List Call) (s : Session) (halive : s.freed = false) :
    (runCalls cs s).freed = false ↔ callsSpare cs s = true := by
  cases cs with
  | nil =>
    rw [runCalls, callsSpare]
    simpa using halive
  | cons c cs =>
    rw [runCalls, callsSpare, Bool.and_eq_true, ← runCall_alive_iff c s halive]
    cases hfreed : (runCall c s).freed with
    | true =>
      -- the session is gone already, and the other calls do not bring it back
      have hgone := (runCalls_ops cs (runCall c s)).freed hfreed
      simp [hgone]
    | false =>
      rw [runCalls_alive_iff cs (runCall c s) hfreed]
      simp

end

/-! ## Callbacks -/

/-- A service callback that runs on a live session leaves it alive exactly if none of its
calls ends it: a task that it performs without a delay and that fails must return to a
session that is not EXITING and has something queued. -/
theorem callback_spares_iff (cb : Callback) (s : Session) (halive : s.freed = false) :
    (cb.run s).freed = false ↔ callsSpare cb.calls s = true :=
  runCalls_alive_iff cb.calls s halive

/-- A callback that answers, and performs a task that fails. -/
def answerAndFail : Callback :=
  { calls := [.send { buf := [1, 2], io := .again },
      .perform { type := 1, task := .user 7, interval := 0, recycle := 3 } [] (-1) []], rc := 1 }

theorem callback_spares_iff_answerAndFail :
    (answerAndFail.run (started false .accept 5 {})).freed = false :=
  (callback_spares_iff answerAndFail (started false .accept 5 {}) rfl).mpr (by decide)

/-- A callback that performs a task that fails, with nothing to send. -/
def failAtOnce : Callback :=
  { calls := [.perform { type := 1, task := .user 7, interval := 0, recycle := 3 } [] (-1) []] }

/-- The session is freed inside `service.process`, while `channel_on_read` is using it. -/
theorem callback_spares_iff_failAtOnce_fails :
    ∃ s t, Lib.Run (step 1024) (started false .accept 5 {}) [.report .evread .evRead] s ∧
      s.freed = false ∧ t = (s.setEvent .evread s.evread.processActive).clearReading.receive
        (.data [9]) ∧
      t.freed = false ∧ (failAtOnce.run (t.emit (.process t.inbuffer))).freed = true :=
  ⟨_, _, Lib.run_iff_exec.mpr rfl, rfl, rfl, rfl, rfl⟩

end Evlite.Session
