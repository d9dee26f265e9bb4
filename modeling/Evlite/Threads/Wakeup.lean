import Evlite.Threads.Post

/-!
# No Wake-up Is Lost

Only a push that makes the count `1` writes to the eventfd, and only after it has released
the lock. An IO thread may swap its queue without having read the eventfd, or read it before
the swap. Still a thread never blocks in its poll beside a queue that has tasks: the eventfd
can be read, or the thread that made the queue nonempty is about to write to it.

## Main results

- `Awake`: the invariant of one IO thread. It says nothing between the poll and the swap,
  where the thread is about to take every task anyway.
- `no_lost_wakeup`
-/

namespace Evlite.Threads

open Lib

variable {κ τ : Type}

/-- Somebody has pushed to thread `i` and is still to write to its eventfd. -/
def Group.Pending (g : Group κ τ) (i : Nat) : Prop :=
  (∃ k, g.poster k = .notifying i) ∨ g.stopper = .notifying i

/-- What is known of a thread for which `pending` tells whether a notification is still to
come. -/
structure Thread.Awake (t : Thread τ) (pending : Prop) : Prop where
  /-- Outside the loop of `_process` the local queue is empty. -/
  doqueue : t.phase ≠ .drain → t.phase ≠ .lastDrain → t.doqueue = []
  queue : t.phase ≠ .swap → t.phase ≠ .lastSwap → t.queue.queue ≠ [] →
    0 < t.queue.eventfd ∨ pending

/-- How notifications to thread `i` survive a step. -/
structure Group.Notifies (g g' : Group κ τ) (i : Nat) : Prop where
  /-- A notification that was still to come still is, or has been written. -/
  pending : g.Pending i → g'.Pending i ∨ 0 < (g'.thread i).queue.eventfd
  /-- A task pushed to an empty queue leaves one to come. -/
  pushed : (g.thread i).queue.queue = [] → (g'.thread i).phase = (g.thread i).phase →
    (g'.thread i).queue.queue ≠ [] → g'.Pending i

/-! ## One step -/

/-- A step of one thread keeps what is known of it. -/
theorem Thread.Awake.step {t t' : Thread τ} {p p' accepts : Prop} (h : t.Awake p)
    (hstep : Group.ThreadStep accepts t t') (hpending : p → p' ∨ 0 < t'.queue.eventfd)
    (hpushed : t.queue.queue = [] → t'.phase = t.phase → t'.queue.queue ≠ [] → p') :
    t'.Awake p' := by
  have hlater : 0 < t'.queue.eventfd ∨ p → 0 < t'.queue.eventfd ∨ p' := fun hor =>
    hor.elim .inl fun hp => (hpending hp).symm
  cases hstep with
  | same => exact ⟨h.doqueue, fun h1 h2 h3 => hlater (h.queue h1 h2 h3)⟩
  | accept task | wake task =>
    refine ⟨h.doqueue, fun h1 h2 h3 => ?_⟩
    -- a task behind others: they have their notification already
    by_cases hempty : t.queue.queue = []
    · exact .inr (hpushed hempty rfl h3)
    · exact hlater (h.queue h1 h2 hempty)
  | notify => exact ⟨h.doqueue, fun _ _ _ => .inl (Nat.succ_pos _)⟩
  | advance p hp =>
    have hold : t.phase = .test ∨ t.phase = .poll := by
      simp only [List.mem_cons, Prod.mk.injEq, List.not_mem_nil, or_false] at hp
      tauto
    have hne : t.phase ≠ .drain ∧ t.phase ≠ .lastDrain ∧ t.phase ≠ .swap ∧ t.phase ≠ .lastSwap := by
      rcases hold with hold | hold <;> rw [hold] <;> decide
    exact ⟨fun _ _ => h.doqueue hne.1 hne.2.1,
      fun _ _ h3 => hlater (h.queue hne.2.2.1 hne.2.2.2 h3)⟩
  | command hp =>
    refine ⟨fun _ _ => h.doqueue ?_ ?_, fun h1 => absurd rfl h1⟩
    · rw [hp]
      decide
    · rw [hp]
      decide
  | swap p hp =>
    have hold : t.phase ≠ .drain ∧ t.phase ≠ .lastDrain ∧ (p = .drain ∨ p = .lastDrain) := by
      simp only [List.mem_cons, Prod.mk.injEq, List.not_mem_nil, or_false] at hp
      rcases hp with ⟨hp, rfl⟩ | ⟨hp, rfl⟩ <;> rw [hp] <;> decide
    -- the queue that is swapped in is empty
    have hswapped : (t.queue.swap t.doqueue).1.queue = [] := h.doqueue hold.1 hold.2.1
    exact ⟨fun h1 h2 => absurd hold.2.2 (not_or.mpr ⟨h1, h2⟩),
      fun _ _ h3 => absurd hswapped h3⟩
  | execute task rest hp hq =>
    have hne : t.phase ≠ .swap ∧ t.phase ≠ .lastSwap := by
      rcases hp with hp | hp <;> rw [hp] <;> decide
    exact ⟨fun h1 h2 => absurd hp (not_or.mpr ⟨h1, h2⟩),
      fun _ _ h3 => hlater (h.queue hne.1 hne.2 h3)⟩
  | drained p hp hq =>
    have hne : t.phase ≠ .swap ∧ t.phase ≠ .lastSwap := by
      simp only [List.mem_cons, Prod.mk.injEq, List.not_mem_nil, or_false] at hp
      rcases hp with ⟨hp, -⟩ | ⟨hp, -⟩ <;> rw [hp] <;> decide
    exact ⟨fun _ _ => hq, fun _ _ h3 => hlater (h.queue hne.1 hne.2 h3)⟩

namespace Group

/-- A thread that goes on by itself, without pushing. -/
theorem notifies_setThread {g : Group κ τ} {j : Nat} {t : Thread τ}
    (h : t.queue.queue = (g.thread j).queue.queue ∨ t.phase ≠ (g.thread j).phase) (i : Nat) :
    g.Notifies (g.setThread j t) i := by
  refine ⟨fun hp => .inl hp, fun hempty hphase hq => ?_⟩
  rcases eq_or_ne i j with rfl | hne
  · simp only [setThread, Function.update_self] at hphase hq
    rcases h with h | h
    · exact absurd (h.trans hempty) hq
    · exact absurd hphase h
  · simp only [setThread, Function.update_of_ne hne] at hq
    exact absurd hempty hq

/-- A notification to come is kept by a poster that had none to write. -/
theorem Pending.setPoster [DecidableEq κ] {g : Group κ τ} {i : Nat} {k : κ} {p : Poster τ}
    (h : g.Pending i) (hk : g.poster k ≠ .notifying i) : (g.setPoster k p).Pending i := by
  rcases h with ⟨k', hk'⟩ | hs
  · have hne : k' ≠ k := by
      rintro rfl
      exact hk hk'
    exact .inl ⟨k', by simpa [Group.setPoster, hne] using hk'⟩
  · exact .inr hs

/-- The push of `iothreads_post` into an empty queue leaves its caller to notify. -/
theorem postPush_notifies [DecidableEq κ] {g : Group κ τ} {k : κ} {index : Nat} {type : Int}
    {task : τ} {size : Nat} (hk : g.poster k = .admitted index type task size) (alloc : Bool)
    (i : Nat) : g.Notifies (g.postPush k index type task size alloc) i := by
  refine ⟨fun hp => .inl ?_, fun hempty _ hq => .inl ⟨k, ?_⟩⟩
  · exact Pending.setPoster (g := g.setThread _ _) hp (by simp [setThread, hk])
  · rcases eq_or_ne i index with rfl | hne
    · cases alloc with
      | false =>
        simp only [postPush, setPoster, setThread, Function.update_self] at hq
        exact absurd hempty hq
      | true => simp [postPush, setPoster, MsgQueue.push, hempty]
    · simp only [postPush, setPoster, setThread, Function.update_of_ne hne] at hq
      exact absurd hempty hq

/-- The push of `iothreads_stop` into an empty queue leaves it to notify. -/
theorem stopPush_notifies {g : Group κ τ} {j : Nat} (hj : g.stopper = .posting j) (alloc : Bool)
    (i : Nat) : g.Notifies (g.stopPush j alloc) i := by
  refine ⟨fun hp => .inl ?_, fun hempty _ hq => .inr ?_⟩
  · rcases hp with hp | hs
    · exact .inl hp
    · rw [hj] at hs
      cases hs
  · rcases eq_or_ne i j with rfl | hne
    · cases alloc with
      | false =>
        simp only [stopPush, setThread, Function.update_self] at hq
        exact absurd hempty hq
      | true => simp [stopPush, MsgQueue.push, hempty]
    · simp only [stopPush, setThread, Function.update_of_ne hne] at hq
      exact absurd hempty hq

/-- The write of a notification. -/
theorem notify_notifies {g g' : Group κ τ} {j : Nat} (hthread : g'.thread = (g.notify j).thread)
    (hpending : ∀ i, i ≠ j → g.Pending i → g'.Pending i) (i : Nat) : g.Notifies g' i := by
  refine ⟨fun hp => ?_, fun hempty _ hq => ?_⟩
  · rcases eq_or_ne i j with rfl | hne
    · refine .inr ?_
      simp [hthread, notify, setThread, MsgQueue.notify]
    · exact .inl (hpending i hne hp)
  · refine absurd ?_ hq
    rcases eq_or_ne i j with rfl | hne
    · simpa [hthread, notify, setThread, MsgQueue.notify] using hempty
    · simpa [hthread, notify, setThread, hne] using hempty

/-- A step that leaves the IO threads alone and takes no notification away. -/
theorem notifies_of_thread_eq {g g' : Group κ τ} (hthread : g'.thread = g.thread) (i : Nat)
    (hpending : g.Pending i → g'.Pending i) : g.Notifies g' i :=
  ⟨fun hp => .inl (hpending hp), fun hempty _ hq => absurd hempty (by rwa [hthread] at hq)⟩

/-- Every step keeps the notifications that are still to come. -/
theorem step_notifies [DecidableEq κ] {g g' : Group κ τ} {m : Move κ τ}
    (h : step g m = some g') (i : Nat) : g.Notifies g' i := by
  cases step_cases h with
  | postTest k index type task size hk =>
    unfold postTest
    split
    · exact notifies_of_thread_eq (by rfl) i id
    · exact notifies_of_thread_eq (by rfl) i fun hp => hp.setPoster (by rw [hk]; simp)
  | postPush alloc hk => exact postPush_notifies hk alloc i
  | @postNotify k j hk =>
    -- the caller had to notify `j`, and does
    refine notify_notifies (by rfl) (fun i' hne hp => ?_) i
    refine Pending.setPoster (g := g.notify j) hp ?_
    change g.poster k ≠ _
    rw [hk]
    simpa using hne.symm
  | stop hs =>
    refine notifies_of_thread_eq (by rfl) i fun hp => hp.imp id fun hp => ?_
    exact nomatch hs.symm.trans hp
  | stopPush alloc hs => exact stopPush_notifies hs alloc i
  | @stopNotify j hs =>
    have hwrite : ({ g.notify j with stopper := .posting (j + 1) } : Group κ τ).thread =
        (g.notify j).thread := rfl
    refine notify_notifies hwrite (fun i' hne hp => hp.imp id fun hp => ?_) i
    rw [hs] at hp
    exact absurd (Stopper.notifying.inj hp).symm hne
  | stopDestroy hs =>
    refine notifies_of_thread_eq (by rfl) i fun hp => hp.imp id fun hp => ?_
    exact nomatch hs.symm.trans hp
  | threadTest j | poll j ready | command j => exact notifies_setThread (.inl (by rfl)) i
  | swap j p hp =>
    -- the queue is swapped in another phase, behind which nothing was pushed
    refine notifies_setThread (.inr fun heq => ?_) i
    change p = (g.thread j).phase at heq
    rw [← heq] at hp
    cases p <;> exact absurd hp (by decide)
  | execute j | drained j => exact notifies_setThread (.inl (by rfl)) i
  | finished j =>
    have hquiet := notifies_setThread (g := g) (j := j)
      (t := { g.thread j with phase := .finished }) (.inl rfl) i
    exact ⟨hquiet.pending, hquiet.pushed⟩

/-! ## Every run -/

theorem awake_of_run [DecidableEq κ] {nthreads : Nat} {moves : List (Move κ τ)}
    {g : Group κ τ} (hrun : Run step (start κ τ nthreads) moves g) (i : Nat) :
    (g.thread i).Awake (g.Pending i) := by
  refine hrun.invariant (I := fun g => (g.thread i).Awake (g.Pending i)) ?_ ?_
  · exact ⟨fun _ _ => rfl, fun _ _ hq => absurd rfl hq⟩
  · intro g m g' hawake _ hstep
    have hnotifies := step_notifies hstep i
    exact hawake.step (step_thread hstep i) hnotifies.pending hnotifies.pushed

/-- Whenever an IO thread is about to block in its poll beside a queue that is not empty,
its eventfd can be read or somebody is still to write to it. -/
theorem no_lost_wakeup [DecidableEq κ] {nthreads : Nat} {moves : List (Move κ τ)}
    {g : Group κ τ} (hrun : Run step (start κ τ nthreads) moves g) {i : Nat}
    (hpoll : (g.thread i).phase = .poll) (hqueue : (g.thread i).queue.queue ≠ []) :
    0 < (g.thread i).queue.eventfd ∨ (∃ k, g.poster k = .notifying i) ∨
      g.stopper = .notifying i := by
  have hawake := awake_of_run hrun i
  apply hawake.queue
  · rw [hpoll]
    decide
  · rw [hpoll]
    decide
  · exact hqueue

/-- A task wakes the thread, which reads its eventfd and swaps. Then a second task is pushed,
and its notification is still to come when the thread polls again. -/
def pushAfterSwap : List (Move Bool Nat) :=
  [.postTest true 0 1 7 0, .postTest false 0 1 8 0, .threadTest 0, .postPush true true,
    .postNotify true, .poll 0 true, .command 0, .swap 0, .postPush false true, .execute 0,
    .drained 0, .threadTest 0]

theorem no_lost_wakeup_pushAfterSwap :
    ∃ g : Group Bool Nat, Run step (start Bool Nat 1) pushAfterSwap g ∧
      (g.thread 0).phase = .poll ∧ (g.thread 0).queue.queue ≠ [] ∧
      (g.thread 0).queue.eventfd = 0 ∧
      (0 < (g.thread 0).queue.eventfd ∨ (∃ k, g.poster k = .notifying 0) ∨
        g.stopper = .notifying 0) := by
  have hrun : exec step (start Bool Nat 1) pushAfterSwap = some _ := rfl
  exact ⟨_, run_iff_exec.mpr hrun, by decide, by decide, by decide,
    no_lost_wakeup (run_iff_exec.mpr hrun) (by decide) (by decide)⟩

end Group

end Evlite.Threads
