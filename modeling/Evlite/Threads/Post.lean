import Evlite.Lib.TransitionSystem
import Mathlib.Logic.Function.Basic

/-!
# Posting Tasks to the IO Threads

The task queues of a group of IO threads (`msgqueue.c`, `threads.c`). Any number of threads
call `iothreads_post`, one calls `iothreads_stop`, and each IO thread runs `iothread_main`.
A run interleaves their atomic steps: the test of `runflags`, the push under the lock, the
notification behind it, the read of the eventfd, the swap, and each task of `_process`.

A task queue is the list of its tasks, which is what a generated queue is
(`queues_are_fifo`). The inputs are the answers of the allocations `QUEUE_PUSH` may need,
and whether the poll of a thread reports its eventfd. A task that runs may post tasks itself:
its posts are those of one more posting thread, whose steps happen during the drain.
`accepted` and `executed` are not part of the source. They remember, for each IO thread, the
tasks `iothreads_post` pushed to it and the tasks it handed to the processor.
-/

namespace Evlite.Threads

/-! ## Task queues -/

/-- `eTaskType_Null`, `eTaskType_User`, `eTaskType_Data` -/
inductive TaskType where
  | null
  | user
  | data
deriving DecidableEq, Repr

/-- `struct task`. The payload is `taskdata` or `data`. -/
structure Task (τ : Type) where
  type : TaskType
  utype : Int
  payload : Option τ
deriving DecidableEq, Repr

/-- The task `iothread_post` builds for a call of `iothreads_post`. -/
def interTask {τ : Type} (type : Int) (task : τ) (size : Nat) : Task τ where
  type := if size = 0 then .user else .data
  utype := type
  payload := some task

theorem interTask_type {τ : Type} (type : Int) (task : τ) (size : Nat) :
    (interTask type task size).type ≠ .null := by
  unfold interTask
  simp only
  split <;> decide

/-- `struct msgqueue`. `popfd` and `pushfd` are one eventfd, whose counter is kept here. -/
structure MsgQueue (τ : Type) where
  queue : List (Task τ) := []
  eventfd : Nat := 0
deriving DecidableEq, Repr

namespace MsgQueue

variable {τ : Type}

/-- The locked part of `msgqueue_push`: the queue, `rc` and `isbc`. -/
def push (q : MsgQueue τ) (task : Task τ) (alloc : Bool) : MsgQueue τ × Int × Nat :=
  let q' := if alloc then { q with queue := q.queue ++ [task] } else q
  (q', if alloc then 0 else -1, q'.queue.length)

/-- The `write` of `msgqueue_push` to the eventfd. -/
def notify (q : MsgQueue τ) : MsgQueue τ := { q with eventfd := q.eventfd + 1 }

/-- The `read` of `iothread_on_command`. -/
def readPopfd (q : MsgQueue τ) : MsgQueue τ := { q with eventfd := 0 }

/-- `msgqueue_swap` -/
def swap (q : MsgQueue τ) (queue : List (Task τ)) : MsgQueue τ × List (Task τ) :=
  ({ q with queue := queue }, q.queue)

end MsgQueue

/-! ## The threads -/

/-- Where `iothread_main` stands. -/
inductive Phase where
  /-- Before the test of `runflags`. -/
  | test
  /-- Before the poll of `evsets_dispatch`. -/
  | poll
  /-- Before the read of `iothread_on_command`. -/
  | command
  /-- Before the swap of `_process` in the loop. -/
  | swap
  /-- In the loop of `_process`. -/
  | drain
  /-- Before the swap of `_process` behind the loop. -/
  | lastSwap
  /-- In the loop of the last `_process`. -/
  | lastDrain
  | finished
deriving DecidableEq, Repr

/-- `struct iothread` with the local queue of `iothread_main`. -/
structure Thread (τ : Type) where
  queue : MsgQueue τ := {}
  doqueue : List (Task τ) := []
  phase : Phase := .test
  /-- Not in the source: the tasks `iothreads_post` pushed, in the order of the pushes. -/
  accepted : List (Task τ) := []
  /-- Not in the source: the tasks handed to the processor. -/
  executed : List (Task τ) := []
deriving DecidableEq, Repr

/-- Where a caller of `iothreads_post` stands. -/
inductive Poster (τ : Type) where
  | idle
  /-- The test of `runflags` was passed. -/
  | admitted (index : Nat) (type : Int) (task : τ) (size : Nat)
  /-- The push made the count `1`. -/
  | notifying (index : Nat)
deriving DecidableEq, Repr

/-- Where the caller of `iothreads_stop` stands. -/
inductive Stopper where
  | idle
  /-- Before the push of the empty task for thread `i`. -/
  | posting (i : Nat)
  | notifying (i : Nat)
  | destroyed
deriving DecidableEq, Repr

/-- `struct iothreads` and the threads that use it. `κ` names the callers of
`iothreads_post`. -/
structure Group (κ τ : Type) where
  nthreads : Nat
  runflags : Bool := true
  nrunthreads : Nat
  thread : Nat → Thread τ := fun _ => {}
  poster : κ → Poster τ := fun _ => .idle
  stopper : Stopper := .idle

/-- The group `iothreads_start` leaves. -/
def Group.start (κ τ : Type) (nthreads : Nat) : Group κ τ where
  nthreads := nthreads
  nrunthreads := nthreads

namespace Group

variable {κ τ : Type}

/-- Store a new state of one thread. -/
def setThread (g : Group κ τ) (i : Nat) (t : Thread τ) : Group κ τ :=
  { g with thread := Function.update g.thread i t }

/-- Store a new state of one poster. -/
def setPoster [DecidableEq κ] (g : Group κ τ) (k : κ) (p : Poster τ) : Group κ τ :=
  { g with poster := Function.update g.poster k p }

/-! ## Steps -/

/-- `iothreads_post` up to the test of `runflags`. -/
def postTest [DecidableEq κ] (g : Group κ τ) (k : κ) (index : Nat) (type : Int) (task : τ)
    (size : Nat) : Group κ τ :=
  if !g.runflags then g else g.setPoster k (.admitted index type task size)

/-- The push of `iothreads_post`. -/
def postPush [DecidableEq κ] (g : Group κ τ) (k : κ) (index : Nat) (type : Int) (task : τ)
    (size : Nat) (alloc : Bool) : Group κ τ :=
  let t := g.thread index
  let inter := interTask type task size
  let r := t.queue.push inter alloc
  let accepted := if r.2.1 = 0 then t.accepted ++ [inter] else t.accepted
  let g' := g.setThread index { t with queue := r.1, accepted := accepted }
  g'.setPoster k (if r.2.1 = 0 ∧ r.2.2 = 1 then .notifying index else .idle)

/-- The notification behind a push to thread `index`. -/
def notify (g : Group κ τ) (index : Nat) : Group κ τ :=
  let t := g.thread index
  g.setThread index { t with queue := t.queue.notify }

/-- The push of the empty task for thread `i` in `iothreads_stop`. -/
def stopPush (g : Group κ τ) (i : Nat) (alloc : Bool) : Group κ τ :=
  let t := g.thread i
  let r := t.queue.push ⟨.null, 0, none⟩ alloc
  { g.setThread i { t with queue := r.1 } with
    stopper := if r.2.1 = 0 ∧ r.2.2 = 1 then .notifying i else .posting (i + 1) }

/-- The next task of `_process`: it goes to the processor unless it is empty. -/
def execute (g : Group κ τ) (i : Nat) (task : Task τ) (rest : List (Task τ)) : Group κ τ :=
  let t := g.thread i
  let executed := if task.type = .null then t.executed else t.executed ++ [task]
  g.setThread i { t with doqueue := rest, executed := executed }

/-- What a run interleaves. -/
inductive Move (κ τ : Type) where
  /-- Caller `k` enters `iothreads_post` and tests `runflags`. -/
  | postTest (k : κ) (index : Nat) (type : Int) (task : τ) (size : Nat)
  | postPush (k : κ) (alloc : Bool)
  | postNotify (k : κ)
  /-- `iothreads_stop` clears `runflags`. -/
  | stop
  | stopPush (alloc : Bool)
  | stopNotify
  /-- `iothreads_stop` finds no running thread and frees the group. -/
  | stopDestroy
  /-- Thread `i` tests `runflags`. -/
  | threadTest (i : Nat)
  /-- The poll of thread `i` returns. `ready`: it reports the eventfd. -/
  | poll (i : Nat) (ready : Bool)
  | command (i : Nat)
  | swap (i : Nat)
  | execute (i : Nat)
  /-- Thread `i` finds its local queue empty. -/
  | drained (i : Nat)

/-- One step. A step that its thread cannot take now is not enabled, and neither is any step
after the group has been freed. -/
def step [DecidableEq κ] (g : Group κ τ) (m : Move κ τ) : Option (Group κ τ) :=
  if g.stopper = .destroyed then none
  else
    match m with
    | .postTest k index type task size =>
      match g.poster k with
      | .idle => if index < g.nthreads then some (g.postTest k index type task size) else none
      | _ => none
    | .postPush k alloc =>
      match g.poster k with
      | .admitted index type task size => some (g.postPush k index type task size alloc)
      | _ => none
    | .postNotify k =>
      match g.poster k with
      | .notifying index => some ((g.notify index).setPoster k .idle)
      | _ => none
    | .stop =>
      match g.stopper with
      | .idle => some { g with runflags := false, stopper := .posting 0 }
      | _ => none
    | .stopPush alloc =>
      match g.stopper with
      | .posting i => if i < g.nthreads then some (g.stopPush i alloc) else none
      | _ => none
    | .stopNotify =>
      match g.stopper with
      | .notifying i => some { g.notify i with stopper := .posting (i + 1) }
      | _ => none
    | .stopDestroy =>
      match g.stopper with
      | .posting i =>
        if i < g.nthreads ∨ g.nrunthreads > 0 then none
        else some { g with stopper := .destroyed }
      | _ => none
    | .threadTest i =>
      let t := g.thread i
      if t.phase = .test ∧ i < g.nthreads then
        some (g.setThread i { t with phase := if g.runflags then .poll else .lastSwap })
      else none
    | .poll i ready =>
      let t := g.thread i
      -- the poller reports a descriptor only while it can be read
      if t.phase = .poll ∧ (ready → 0 < t.queue.eventfd) then
        some (g.setThread i { t with phase := if ready then .command else .swap })
      else none
    | .command i =>
      let t := g.thread i
      if t.phase = .command then
        some (g.setThread i { t with queue := t.queue.readPopfd, phase := .swap })
      else none
    | .swap i =>
      let t := g.thread i
      let r := t.queue.swap t.doqueue
      match t.phase with
      | .swap => some (g.setThread i { t with queue := r.1, doqueue := r.2, phase := .drain })
      | .lastSwap =>
        some (g.setThread i { t with queue := r.1, doqueue := r.2, phase := .lastDrain })
      | _ => none
    | .execute i =>
      let t := g.thread i
      match t.phase, t.doqueue with
      | .drain, task :: rest | .lastDrain, task :: rest => some (g.execute i task rest)
      | _, _ => none
    | .drained i =>
      let t := g.thread i
      match t.phase, t.doqueue with
      | .drain, [] => some (g.setThread i { t with phase := .test })
      | .lastDrain, [] =>
        some { g.setThread i { t with phase := .finished } with nrunthreads := g.nrunthreads - 1 }
      | _, _ => none

/-! ## What a step does to one thread -/

/-- The move is the push of a call of `iothreads_post` for thread `i`, which succeeds. -/
def Accepts (g : Group κ τ) (i : Nat) : Move κ τ → Prop
  | .postPush k alloc => alloc = true ∧ ∃ type task size, g.poster k = .admitted i type task size
  | _ => False

/-- What a step of the group does to one of its IO threads. `accepts` tells whether the step
is a push of `iothreads_post` to this thread. -/
inductive ThreadStep (accepts : Prop) : Thread τ → Thread τ → Prop where
  | same (t) : ThreadStep accepts t t
  /-- `iothreads_post` pushes a task. -/
  | accept (t : Thread τ) (task : Task τ) (haccepts : accepts) (hproper : task.type ≠ .null) :
      ThreadStep accepts t { t with
        queue.queue := t.queue.queue ++ [task], accepted := t.accepted ++ [task] }
  /-- `iothreads_stop` pushes the empty task. -/
  | wake (t : Thread τ) (task : Task τ) (hnull : task.type = .null) :
      ThreadStep accepts t { t with queue.queue := t.queue.queue ++ [task] }
  | notify (t : Thread τ) : ThreadStep accepts t { t with queue := t.queue.notify }
  /-- The thread goes on without touching its queues. -/
  | advance (t : Thread τ) (p : Phase)
      (hp : (t.phase, p) ∈ [(.test, .poll), (.test, .lastSwap), (.poll, .command), (.poll, .swap)]) :
      ThreadStep accepts t { t with phase := p }
  | command (t : Thread τ) (hp : t.phase = .command) :
      ThreadStep accepts t { t with queue := t.queue.readPopfd, phase := .swap }
  | swap (t : Thread τ) (p : Phase) (hp : (t.phase, p) ∈ [(.swap, .drain), (.lastSwap, .lastDrain)]) :
      ThreadStep accepts t { t with
        queue := (t.queue.swap t.doqueue).1, doqueue := (t.queue.swap t.doqueue).2, phase := p }
  | execute (t : Thread τ) (task : Task τ) (rest : List (Task τ))
      (hp : t.phase = .drain ∨ t.phase = .lastDrain) (hq : t.doqueue = task :: rest) :
      ThreadStep accepts t { t with
        doqueue := rest
        executed := if task.type = .null then t.executed else t.executed ++ [task] }
  | drained (t : Thread τ) (p : Phase)
      (hp : (t.phase, p) ∈ [(.drain, .test), (.lastDrain, .finished)]) (hq : t.doqueue = []) :
      ThreadStep accepts t { t with phase := p }

theorem setThread_step {g : Group κ τ} {j : Nat} {t : Thread τ} {accepts : Prop}
    (h : ThreadStep accepts (g.thread j) t) (i : Nat) :
    ThreadStep accepts (g.thread i) ((g.setThread j t).thread i) := by
  rcases eq_or_ne i j with rfl | hne
  · simpa [setThread] using h
  · simpa [setThread, hne] using ThreadStep.same (g.thread i)

theorem postPush_step [DecidableEq κ] {g : Group κ τ} {k : κ} {index : Nat} {type : Int}
    {task : τ} {size : Nat} (hk : g.poster k = .admitted index type task size) (alloc : Bool)
    (i : Nat) : ThreadStep (g.Accepts i (.postPush k alloc)) (g.thread i)
      ((g.postPush k index type task size alloc).thread i) := by
  rcases eq_or_ne i index with rfl | hne
  · refine setThread_step ?_ i
    cases alloc with
    | false => exact .same _
    | true => exact .accept _ _ ⟨rfl, type, task, size, hk⟩ (interTask_type type task size)
  · have hother : (g.postPush k index type task size alloc).thread i = g.thread i :=
      Function.update_of_ne hne ..
    rw [hother]
    exact .same _

theorem stopPush_step (g : Group κ τ) (j : Nat) (alloc : Bool) {accepts : Prop} (i : Nat) :
    ThreadStep accepts (g.thread i) ((g.stopPush j alloc).thread i) := by
  refine setThread_step ?_ i
  cases alloc with
  | false => exact .same _
  | true => exact .wake _ _ rfl

/-! ## What a step can do -/

/-- What a step can do to the group, with what it finds. -/
inductive StepCase [DecidableEq κ] (g : Group κ τ) : Move κ τ → Group κ τ → Prop where
  | postTest (k : κ) (index : Nat) (type : Int) (task : τ) (size : Nat)
      (hk : g.poster k = .idle) (hindex : index < g.nthreads) :
      StepCase g (.postTest k index type task size) (g.postTest k index type task size)
  | postPush {k : κ} {index : Nat} {type : Int} {task : τ} {size : Nat} (alloc : Bool)
      (hk : g.poster k = .admitted index type task size) :
      StepCase g (.postPush k alloc) (g.postPush k index type task size alloc)
  | postNotify {k : κ} {index : Nat} (hk : g.poster k = .notifying index) :
      StepCase g (.postNotify k) ((g.notify index).setPoster k .idle)
  | stop (hs : g.stopper = .idle) :
      StepCase g .stop { g with runflags := false, stopper := .posting 0 }
  | stopPush {i : Nat} (alloc : Bool) (hs : g.stopper = .posting i) (hi : i < g.nthreads) :
      StepCase g (.stopPush alloc) (g.stopPush i alloc)
  | stopNotify {i : Nat} (hs : g.stopper = .notifying i) :
      StepCase g .stopNotify { g.notify i with stopper := .posting (i + 1) }
  | stopDestroy {i : Nat} (hs : g.stopper = .posting i) (hi : g.nthreads ≤ i)
      (hnone : g.nrunthreads ≤ 0) : StepCase g .stopDestroy { g with stopper := .destroyed }
  | threadTest (i : Nat) (hphase : (g.thread i).phase = .test) (hi : i < g.nthreads) :
      StepCase g (.threadTest i) (g.setThread i
        { g.thread i with phase := if g.runflags then .poll else .lastSwap })
  | poll (i : Nat) (ready : Bool) (hphase : (g.thread i).phase = .poll)
      (hready : ready → 0 < (g.thread i).queue.eventfd) :
      StepCase g (.poll i ready) (g.setThread i
        { g.thread i with phase := if ready then .command else .swap })
  | command (i : Nat) (hphase : (g.thread i).phase = .command) :
      StepCase g (.command i) (g.setThread i
        { g.thread i with queue := (g.thread i).queue.readPopfd, phase := .swap })
  | swap (i : Nat) (p : Phase)
      (hp : ((g.thread i).phase, p) ∈ [(.swap, .drain), (.lastSwap, .lastDrain)]) :
      StepCase g (.swap i) (g.setThread i
        { g.thread i with
          queue := ((g.thread i).queue.swap (g.thread i).doqueue).1
          doqueue := ((g.thread i).queue.swap (g.thread i).doqueue).2
          phase := p })
  | execute (i : Nat) (task : Task τ) (rest : List (Task τ))
      (hp : (g.thread i).phase = .drain ∨ (g.thread i).phase = .lastDrain)
      (hq : (g.thread i).doqueue = task :: rest) :
      StepCase g (.execute i) (g.execute i task rest)
  | drained (i : Nat) (hp : (g.thread i).phase = .drain) (hq : (g.thread i).doqueue = []) :
      StepCase g (.drained i) (g.setThread i { g.thread i with phase := .test })
  | finished (i : Nat) (hp : (g.thread i).phase = .lastDrain) (hq : (g.thread i).doqueue = []) :
      StepCase g (.drained i) { g.setThread i { g.thread i with phase := .finished } with
        nrunthreads := g.nrunthreads - 1 }

theorem step_cases [DecidableEq κ] {g g' : Group κ τ} {m : Move κ τ} (h : step g m = some g') :
    StepCase g m g' := by
  unfold step at h
  split at h
  · exact nomatch h
  cases m with
  | postTest k index type task size =>
    simp only at h
    split at h
    · rename_i hk
      split at h
      · rename_i hindex
        obtain rfl := Option.some.inj h
        exact .postTest k index type task size hk hindex
      · exact nomatch h
    · exact nomatch h
  | postPush k alloc =>
    simp only at h
    split at h
    · rename_i hk
      obtain rfl := Option.some.inj h
      exact .postPush alloc hk
    · exact nomatch h
  | postNotify k =>
    simp only at h
    split at h
    · rename_i hk
      obtain rfl := Option.some.inj h
      exact .postNotify hk
    · exact nomatch h
  | stop =>
    simp only at h
    split at h
    · rename_i hs
      obtain rfl := Option.some.inj h
      exact .stop hs
    · exact nomatch h
  | stopPush alloc =>
    simp only at h
    split at h
    · rename_i hs
      split at h
      · rename_i hi
        obtain rfl := Option.some.inj h
        exact .stopPush alloc hs hi
      · exact nomatch h
    · exact nomatch h
  | stopNotify =>
    simp only at h
    split at h
    · rename_i hs
      obtain rfl := Option.some.inj h
      exact .stopNotify hs
    · exact nomatch h
  | stopDestroy =>
    simp only at h
    split at h
    · rename_i hs
      split at h
      · exact nomatch h
      · rename_i hnone
        obtain rfl := Option.some.inj h
        -- all threads have stopped before the queues are destroyed
        obtain ⟨hi, hnone⟩ := not_or.mp hnone
        exact .stopDestroy hs (Nat.le_of_not_lt hi) (Nat.le_of_not_lt hnone)
    · exact nomatch h
  | threadTest i =>
    simp only at h
    split at h
    · rename_i hguard
      obtain rfl := Option.some.inj h
      exact .threadTest i hguard.1 hguard.2
    · exact nomatch h
  | poll i ready =>
    simp only at h
    split at h
    · rename_i hguard
      obtain rfl := Option.some.inj h
      exact .poll i ready hguard.1 hguard.2
    · exact nomatch h
  | command i =>
    simp only at h
    split at h
    · rename_i hphase
      obtain rfl := Option.some.inj h
      exact .command i hphase
    · exact nomatch h
  | swap i =>
    simp only at h
    split at h
    · rename_i hphase
      obtain rfl := Option.some.inj h
      -- the queue is taken over as a whole, in the loop and once more at the end
      exact .swap i .drain (by rw [hphase]; decide)
    · rename_i hphase
      obtain rfl := Option.some.inj h
      exact .swap i .lastDrain (by rw [hphase]; decide)
    · exact nomatch h
  | execute i =>
    simp only at h
    split at h
    · rename_i hphase hq
      obtain rfl := Option.some.inj h
      exact .execute i _ _ (.inl hphase) hq
    · rename_i hphase hq
      obtain rfl := Option.some.inj h
      exact .execute i _ _ (.inr hphase) hq
    · exact nomatch h
  | drained i =>
    simp only at h
    split at h
    · rename_i hphase hq
      obtain rfl := Option.some.inj h
      exact .drained i hphase hq
    · rename_i hphase hq
      obtain rfl := Option.some.inj h
      exact .finished i hphase hq
    · exact nomatch h

/-- Every step of the group is one of these for each of its threads. -/
theorem step_thread [DecidableEq κ] {g g' : Group κ τ} {m : Move κ τ} (h : step g m = some g')
    (i : Nat) : ThreadStep (g.Accepts i m) (g.thread i) (g'.thread i) := by
  cases step_cases h with
  | postTest k index type task size =>
    unfold postTest
    split <;> exact .same _
  | postPush alloc hk => exact postPush_step hk alloc i
  | postNotify | stopNotify => exact setThread_step (.notify _) i
  | stop | stopDestroy => exact .same _
  | stopPush alloc => exact stopPush_step ..
  | threadTest j hphase =>
    refine setThread_step (.advance _ _ ?_) i
    rw [hphase]
    cases g.runflags <;> decide
  | poll j ready hphase =>
    refine setThread_step (.advance _ _ ?_) i
    rw [hphase]
    cases ready <;> decide
  | command j hphase => exact setThread_step (.command _ hphase) i
  | swap j p hp => exact setThread_step (.swap _ p hp) i
  | execute j task rest hp hq => exact setThread_step (.execute _ _ _ hp hq) i
  | drained j hp hq => exact setThread_step (.drained _ _ (by rw [hp]; decide) hq) i
  | finished j hp hq => exact setThread_step (.drained _ _ (by rw [hp]; decide) hq) i

end Group

end Evlite.Threads
