import Evlite.Threads.Post

/-!
# Accepted Tasks Are Executed in Order

An IO thread executes the tasks pushed to it in the order of the pushes, each at most once.
The test of `runflags` in `iothreads_post` is not one step with the push behind it: a push
that comes after the last swap of the thread reaches a queue nobody empties, and the task it
reported as accepted is lost.

## Main results

- `Ordered`: the invariant of one IO thread, kept by every step.
- `executed_prefix`: what a thread has executed is always a prefix of what it was given.
- `accepted_executed_iff`: a thread that has finished has executed every accepted task
  exactly if each of them was pushed before the thread's last swap.
-/

namespace Evlite.Threads

open Lib

variable {κ τ : Type}

/-- The tasks that go to the processor. -/
def proper (q : List (Task τ)) : List (Task τ) := q.filter fun task => task.type ≠ .null

@[simp] theorem proper_nil : proper ([] : List (Task τ)) = [] := rfl

@[simp] theorem proper_append (q r : List (Task τ)) : proper (q ++ r) = proper q ++ proper r :=
  List.filter_append ..

theorem proper_null {task : Task τ} (h : task.type = .null) : proper [task] = [] := by
  simp [proper, h]

theorem proper_singleton {task : Task τ} (h : task.type ≠ .null) : proper [task] = [task] := by
  simp [proper, h]

namespace Thread

/-- The thread has made its last swap. -/
def Closed (t : Thread τ) : Prop := t.phase = .lastDrain ∨ t.phase = .finished

instance (t : Thread τ) : Decidable t.Closed :=
  inferInstanceAs (Decidable (_ ∨ _))

/-- A task waits in a queue that nobody empties any more. -/
def Lost (t : Thread τ) : Prop := t.Closed ∧ proper t.queue.queue ≠ []

/-- Between its push and the processor a task is in one of the two queues, in order. -/
structure Ordered (t : Thread τ) : Prop where
  /-- Outside the loop of `_process` the local queue is empty. -/
  doqueue : t.phase ≠ .drain → t.phase ≠ .lastDrain → t.doqueue = []
  accepted : t.accepted = t.executed ++ proper (t.doqueue ++ t.queue.queue)

/-! ## One step -/

/-- A step of one thread keeps the order. -/
theorem Ordered.step {t t' : Thread τ} {accepts : Prop} (h : t.Ordered)
    (hstep : Group.ThreadStep accepts t t') : t'.Ordered := by
  have haccepted := h.accepted
  simp only [proper_append] at haccepted
  cases hstep with
  | same => exact h
  | accept task _ hproper =>
    refine ⟨h.doqueue, ?_⟩
    simp only [proper_append, proper_singleton hproper]
    rw [haccepted, List.append_assoc, List.append_assoc]
  | wake task hnull =>
    refine ⟨h.doqueue, ?_⟩
    simp only [proper_append, proper_null hnull, List.append_nil]
    exact haccepted
  | notify => exact ⟨h.doqueue, h.accepted⟩
  | advance p hp =>
    refine ⟨fun _ _ => h.doqueue ?_ ?_, h.accepted⟩ <;>
    · simp only [List.mem_cons, Prod.mk.injEq, List.not_mem_nil, or_false] at hp
      rcases hp with ⟨hp, -⟩ | ⟨hp, -⟩ | ⟨hp, -⟩ | ⟨hp, -⟩ <;> rw [hp] <;> decide
  | command hp =>
    refine ⟨fun _ _ => h.doqueue ?_ ?_, h.accepted⟩ <;>
    · rw [hp]
      decide
  | swap p hp =>
    have hempty : t.doqueue = [] := by
      simp only [List.mem_cons, Prod.mk.injEq, List.not_mem_nil, or_false] at hp
      rcases hp with ⟨hp, -⟩ | ⟨hp, -⟩ <;> exact h.doqueue (by rw [hp]; decide) (by rw [hp]; decide)
    refine ⟨fun h1 h2 => ?_, ?_⟩
    · simp only [List.mem_cons, Prod.mk.injEq, List.not_mem_nil, or_false] at hp
      rcases hp with ⟨-, rfl⟩ | ⟨-, rfl⟩
      · exact absurd rfl h1
      · exact absurd rfl h2
    · -- what was in the shared queue is in the local one now
      simp only [MsgQueue.swap, hempty, List.append_nil]
      rw [haccepted, hempty, proper_nil, List.nil_append]
  | execute task rest hp hq =>
    refine ⟨fun h1 h2 => absurd hp (not_or.mpr ⟨h1, h2⟩), ?_⟩
    rw [hq, ← List.singleton_append, proper_append] at haccepted
    simp only [proper_append]
    split
    · rename_i hnull
      rw [haccepted, proper_null hnull, List.nil_append]
    · rename_i hproper
      rw [haccepted, proper_singleton hproper, List.append_assoc, List.append_assoc]
  | drained p hp hq => exact ⟨fun _ _ => hq, h.accepted⟩

end Thread

namespace Group

theorem ordered_of_run [DecidableEq κ] {nthreads : Nat} {moves : List (Move κ τ)}
    {g : Group κ τ} (hrun : Run step (start κ τ nthreads) moves g) (i : Nat) :
    (g.thread i).Ordered :=
  hrun.invariant (I := fun g => (g.thread i).Ordered) ⟨fun _ _ => rfl, rfl⟩
    fun _ _ _ hordered _ hstep => hordered.step (step_thread hstep i)

/-- What a thread has executed is a prefix of what it was given: in order, nothing twice. -/
theorem executed_prefix [DecidableEq κ] {nthreads : Nat} {moves : List (Move κ τ)}
    {g : Group κ τ} (hrun : Run step (start κ τ nthreads) moves g) (i : Nat) :
    (g.thread i).executed <+: (g.thread i).accepted := by
  rw [(ordered_of_run hrun i).accepted]
  exact List.prefix_append _ _

/-! ## Tasks that come too late -/

/-- No task is pushed to thread `i` after its last swap. -/
def InTime (i : Nat) (g : Group κ τ) (m : Move κ τ) : Prop :=
  g.Accepts i m → ¬ (g.thread i).Closed

/-- A step of a thread that is no push of `iothreads_post` loses nothing. -/
theorem ThreadStep.lost_iff {t t' : Thread τ} {accepts : Prop} (h : ThreadStep accepts t t')
    (hordered : t.Ordered) (hno : ¬ accepts) : t'.Lost ↔ t.Lost := by
  cases h with
  | same => exact Iff.rfl
  | accept task haccepts => exact absurd haccepts hno
  | wake task hnull =>
    -- nobody waits for the empty task
    simp only [Thread.Lost, Thread.Closed, proper_append, proper_null hnull, List.append_nil]
  | notify => exact Iff.rfl
  | advance p hp =>
    simp only [List.mem_cons, Prod.mk.injEq, List.not_mem_nil, or_false] at hp
    rcases hp with ⟨hp, rfl⟩ | ⟨hp, rfl⟩ | ⟨hp, rfl⟩ | ⟨hp, rfl⟩ <;>
      simp [Thread.Lost, Thread.Closed, hp]
  | command hp => simp [Thread.Lost, Thread.Closed, hp]
  | swap p hp =>
    simp only [List.mem_cons, Prod.mk.injEq, List.not_mem_nil, or_false] at hp
    have hopen : ¬ t.Closed := by
      rcases hp with ⟨hp, -⟩ | ⟨hp, -⟩ <;> simp [Thread.Closed, hp]
    have hempty : t.doqueue = [] := by
      rcases hp with ⟨hp, -⟩ | ⟨hp, -⟩ <;>
        exact hordered.doqueue (by rw [hp]; decide) (by rw [hp]; decide)
    refine iff_of_false (fun hlost => hlost.2 ?_) fun hlost => hopen hlost.1
    simp only [MsgQueue.swap, hempty, proper_nil]
  | execute => exact Iff.rfl
  | drained p hp =>
    simp only [List.mem_cons, Prod.mk.injEq, List.not_mem_nil, or_false] at hp
    rcases hp with ⟨hp, rfl⟩ | ⟨hp, rfl⟩ <;> simp [Thread.Lost, Thread.Closed, hp]

/-- A push of `iothreads_post` loses its task exactly if it comes too late. -/
theorem lost_accept [DecidableEq κ] {g g' : Group κ τ} {m : Move κ τ} {i : Nat}
    (h : step g m = some g') (haccepts : g.Accepts i m) :
    (g'.thread i).Lost ↔ (g.thread i).Closed := by
  cases m with
  | postPush k alloc =>
    obtain ⟨rfl, type, task, size, hk⟩ := haccepts
    simp only [step, hk] at h
    split at h
    · cases h
    · cases h
      have hproper := interTask_type type task size
      simp [postPush, setPoster, setThread, MsgQueue.push, Thread.Lost, Thread.Closed,
        proper_singleton hproper]
  | _ => exact absurd haccepts id

/-- A step loses a task of thread `i` exactly if it pushes one too late. -/
theorem lost_step [DecidableEq κ] {g g' : Group κ τ} {m : Move κ τ} {i : Nat}
    (hordered : (g.thread i).Ordered) (h : step g m = some g') :
    ¬ (g'.thread i).Lost ↔ ¬ (g.thread i).Lost ∧ g.InTime i m := by
  by_cases haccepts : g.Accepts i m
  · rw [lost_accept h haccepts]
    refine ⟨fun hopen => ⟨fun hlost => hopen hlost.1, fun _ => hopen⟩, fun hin => hin.2 haccepts⟩
  · rw [(step_thread h i).lost_iff hordered haccepts]
    exact ⟨fun hlost => ⟨hlost, fun hin => absurd hin haccepts⟩, And.left⟩

/-! ## Every run -/

/-- A thread that has finished has executed the tasks accepted for it, each once and in the
order of the pushes, exactly if none of them was pushed after its last swap. -/
theorem accepted_executed_iff [DecidableEq κ] {nthreads : Nat} {moves : List (Move κ τ)}
    {g : Group κ τ} (hrun : Run step (start κ τ nthreads) moves g) {i : Nat}
    (hfinished : (g.thread i).phase = .finished) :
    (g.thread i).executed = (g.thread i).accepted ↔
      GuardedRun step (InTime i) (start κ τ nthreads) moves g := by
  have hordered := ordered_of_run hrun i
  have hlost : ¬ (g.thread i).Lost ↔ GuardedRun step (InTime i) (start κ τ nthreads) moves g :=
    final_iff_guarded (J := fun g => (g.thread i).Ordered) hrun
      (fun hlost => hlost.2 rfl) ⟨fun _ _ => rfl, rfl⟩
      (fun _ _ _ hordered hstep => lost_step hordered hstep)
      (fun _ _ _ hordered hstep => hordered.step (step_thread hstep i))
  rw [← hlost]
  -- a finished thread has nothing left in its local queue
  have haccepted := hordered.accepted
  rw [hordered.doqueue (by rw [hfinished]; decide) (by rw [hfinished]; decide),
    List.nil_append] at haccepted
  rw [haccepted]
  have hclosed : (g.thread i).Closed := .inr hfinished
  constructor
  · intro heq hlost
    exact hlost.2 (List.self_eq_append_right.mp heq)
  · intro hkept
    have hnone : proper (g.thread i).queue.queue = [] := by
      by_contra hsome
      exact hkept ⟨hclosed, hsome⟩
    rw [hnone, List.append_nil]

/-- A task is pushed while the thread is in its loop, which is then stopped. -/
def taskInTime : List (Move Unit Nat) :=
  [.postTest () 0 1 7 0, .threadTest 0, .poll 0 false, .postPush () true, .postNotify (), .stop,
    .swap 0, .execute 0, .drained 0, .threadTest 0, .swap 0, .drained 0]

theorem accepted_executed_iff_taskInTime :
    ∃ g : Group Unit Nat, Run step (start Unit Nat 1) taskInTime g ∧
      (g.thread 0).phase = .finished ∧ (g.thread 0).executed = [interTask 1 7 0] ∧
      GuardedRun step (InTime 0) (start Unit Nat 1) taskInTime g := by
  have hrun : exec step (start Unit Nat 1) taskInTime = some _ := rfl
  exact ⟨_, run_iff_exec.mpr hrun, by decide, by decide,
    (accepted_executed_iff (run_iff_exec.mpr hrun) (by decide)).mp (by decide)⟩

/-- The caller has passed the test when `iothreads_stop` clears the flag, and pushes after the
thread has left its loop and emptied its queue for the last time. -/
def lateTask : List (Move Unit Nat) :=
  [.postTest () 0 1 7 0, .stop, .threadTest 0, .swap 0, .drained 0, .postPush () true,
    .postNotify ()]

theorem accepted_executed_lateTask_fails :
    ∃ g : Group Unit Nat, Run step (start Unit Nat 1) lateTask g ∧ g.poster () = .idle ∧
      (g.thread 0).phase = .finished ∧ (g.thread 0).accepted = [interTask 1 7 0] ∧
      (g.thread 0).executed = [] :=
  ⟨_, run_iff_exec.mpr rfl, by decide, by decide, by decide, by decide⟩

end Group

end Evlite.Threads
