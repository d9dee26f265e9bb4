import Evlite.Event.Kqueue
import Evlite.Lib.TransitionSystem

/-!
# The Knotes of the Kernel

A one-shot event that waits for both directions has two knotes, and one bit that stands for them.
If only one of them is delivered, the bit goes, and `kqueue_del` takes the event for gone: the
other knote keeps the address of an event that is no longer inserted.

Otherwise the bit is right. As long as each dispatch delivers both knotes of such an event or none,
and `kqueue_insert` does not run out of memory between the directions of an event, the kernel has
only knotes of inserted events once it has got the queued changes.

## Main results

- `Held`: each knote, or knote to be, belongs to an event that is inserted and has the bit.
- `step_held`: what is not done by half keeps this.
- `halves_stale`: an event that was split keeps a knote when it is deleted.
- `kqueue_clean`: every run.
-/

namespace Evlite

open Lib (GuardedRun Run)

/-! ## Knotes of inserted events -/

/-- The knote is one that `kqueue_add` makes of the event as it is. -/
structure Knote.Belongs {ε κ : Type} (knote : Knote ε) (e : KqEvent κ) (key : Int × KFilter) : Prop where
  bit : e.xKqinkernel = true
  fd : key.1 = e.fd
  waits : e.waits key.2 = true
  oneshot : knote.oneshot = !e.events.persist

namespace KqueueSet

variable {ε κ : Type} {s t : KqueueSet ε κ} {ev : ε}

/-- No knote, and none that is queued, is one of an event that is not inserted, and no such event
has become active. -/
structure Clean (s : KqueueSet ε κ) : Prop where
  inserted : ∀ key knote, s.poller.effective key = some knote →
    (s.event knote.udata).inserted = true
  activations : ∀ a ∈ s.activations, a.2 = true

/-- And each belongs to its event as it is. -/
structure Held (s : KqueueSet ε κ) : Prop extends Clean s where
  belongs : ∀ key knote, s.poller.effective key = some knote →
    knote.Belongs (s.event knote.udata) key

/-- Only one of the two knotes of a one-shot event was delivered. -/
def Halves (s : KqueueSet ε κ) (rs : List KReport) : Prop :=
  ∃ key ∈ KReport.handled rs, ∃ knote ∈ s.poller.effective key, knote.oneshot = true ∧
    (key.1, key.2.other) ∉ KReport.delivered rs ∧
    ∃ knote' ∈ s.poller.effective (key.1, key.2.other), knote'.udata = knote.udata

/-- The knote of the event for this filter, if there is one, gets its `EV_DELETE`. -/
def Deletes (s : KqueueSet ε κ) (ev : ε) (reallocRead reallocWrite : Bool) (f : KFilter) : Prop :=
  (∃ knote ∈ s.poller.effective ((s.event ev).fd, f), knote.udata = ev) →
    s.queued ev reallocRead reallocWrite f = true

/-- No event is handled by half: `kqueue_insert` does not fail between the two directions of an
event that is added, nor for a knote that is to be deleted, and of a one-shot event that waits for
both directions either both are delivered or none. -/
def Whole (s : KqueueSet ε κ) : KqueueInput ε → Prop
  | .add ev _ reallocRead reallocWrite =>
    (s.event ev).Polled → s.queued ev reallocRead reallocWrite .evfiltRead = true →
      (s.event ev).waits .evfiltWrite = true →
      s.queued ev reallocRead reallocWrite .evfiltWrite = true
  | .del ev reallocRead reallocWrite =>
    (s.event ev).inserted = true → (s.event ev).xKqinkernel = true →
      s.Deletes ev reallocRead reallocWrite .evfiltRead ∧
      s.Deletes ev reallocRead reallocWrite .evfiltWrite
  | .dispatch (.reports rs) _ => ¬s.Halves rs
  | _ => True

theorem queued_waits {reallocRead reallocWrite : Bool} {f : KFilter}
    (hf : s.queued ev reallocRead reallocWrite f = true) : (s.event ev).waits f = true := by
  cases f <;> exact (Bool.and_eq_true_iff.mp hf).1

/-- If there is no room for the first change of an event that is added, nothing is queued. -/
theorem queued_none {reallocRead reallocWrite : Bool}
    (hwhole : s.queued ev reallocRead reallocWrite .evfiltRead = true →
      (s.event ev).waits .evfiltWrite = true →
      s.queued ev reallocRead reallocWrite .evfiltWrite = true)
    (hsome : ¬∀ f, (s.event ev).waits f = true → s.queued ev reallocRead reallocWrite f = true)
    (f : KFilter) : s.queued ev reallocRead reallocWrite f = false := by
  obtain ⟨g, hg⟩ := not_forall.mp hsome
  rw [Classical.not_imp, Bool.not_eq_true] at hg
  cases hread : (s.event ev).waits .evfiltRead <;> cases hwrite : (s.event ev).waits .evfiltWrite <;>
    cases f <;> cases g <;> simp_all [queued]

/-- What does not change the knotes and what they say of their events. -/
theorem Held.congr (h : s.Held) (heffective : t.poller.effective = s.poller.effective)
    (hactivations : t.activations = s.activations)
    (hevent : ∀ e, (s.event e).inserted = true → (t.event e).inserted = true ∧
      (t.event e).fd = (s.event e).fd ∧ (t.event e).events = (s.event e).events ∧
      (t.event e).xKqinkernel = (s.event e).xKqinkernel) : t.Held := by
  refine ⟨⟨fun key knote hknote => ?_, fun a ha => ?_⟩, fun key knote hknote => ?_⟩
  · rw [heffective] at hknote
    exact (hevent _ (h.inserted key knote hknote)).1
  · rw [hactivations] at ha
    exact h.activations a ha
  · rw [heffective] at hknote
    obtain ⟨-, hfd, hevents, hbit⟩ := hevent _ (h.inserted key knote hknote)
    obtain ⟨hbit', hfd', hwaits, honeshot⟩ := h.belongs key knote hknote
    refine ⟨hbit.trans hbit', hfd'.trans hfd.symm, ?_, ?_⟩
    · rw [← hwaits]
      unfold KqEvent.waits
      rw [hevents]
    · rw [honeshot, hevents]

/-- All knotes that are left are those of other events. -/
theorem Held.left (h : s.Held) (ev : ε)
    (hleft : ∀ key knote, t.poller.effective key = some knote →
      s.poller.effective key = some knote ∧ knote.udata ≠ ev)
    (hothers : ∀ e, e ≠ ev → t.event e = s.event e) (hactivations : t.activations = s.activations) :
    t.Held := by
  refine ⟨⟨fun key knote hknote => ?_, fun a ha => ?_⟩, fun key knote hknote => ?_⟩
  · obtain ⟨hold, hne⟩ := hleft key knote hknote
    rw [hothers _ hne]
    exact h.inserted key knote hold
  · rw [hactivations] at ha
    exact h.activations a ha
  · obtain ⟨hold, hne⟩ := hleft key knote hknote
    rw [hothers _ hne]
    exact h.belongs key knote hold

/-- The two knotes of an event lie beside each other. -/
theorem Held.beside (h : s.Held) {key key' : Int × KFilter} {knote knote' : Knote ε}
    (hkey : s.poller.effective key = some knote) (hkey' : s.poller.effective key' = some knote')
    (hudata : knote'.udata = knote.udata) (hne : key' ≠ key) : key' = (key.1, key.2.other) := by
  have hfd := (h.belongs key knote hkey).fd
  have hfd' := (h.belongs key' knote' hkey').fd
  rw [hudata, ← hfd] at hfd'
  obtain ⟨fd, f⟩ := key
  obtain ⟨fd', f'⟩ := key'
  obtain rfl : fd' = fd := hfd'
  cases f <;> cases f' <;> simp_all [KFilter.other]

/-- The event set when `kevent` has returned. -/
def returned (s : KqueueSet ε κ) (rs : List KReport) : KqueueSet ε κ :=
  { s with poller :=
    { s.poller with changes := [], kernel := deliver s.poller.effective (KReport.delivered rs) } }

@[simp] theorem returned_event (s : KqueueSet ε κ) (rs : List KReport) :
    (s.returned rs).event = s.event := rfl

/-- A new event set, with events from `event_create`. -/
def start : KqueueSet ε κ where
  event _ := {}

theorem start_held : (start : KqueueSet ε κ).Held := by
  refine ⟨⟨fun key knote hknote => ?_, fun a ha => ?_⟩, fun key knote hknote => ?_⟩
  · cases hknote
  · cases ha
  · cases hknote

variable [DecidableEq ε]

instance (s : KqueueSet ε κ) (rs : List KReport) : Decidable (s.Halves rs) :=
  inferInstanceAs (Decidable (∃ key ∈ _, _))

instance (s : KqueueSet ε κ) (ev : ε) (reallocRead reallocWrite : Bool) (f : KFilter) :
    Decidable (s.Deletes ev reallocRead reallocWrite f) :=
  inferInstanceAs (Decidable (_ → _))

instance (s : KqueueSet ε κ) : (i : KqueueInput ε) → Decidable (s.Whole i)
  | .add _ _ _ _ => inferInstanceAs (Decidable (_ → _))
  | .del _ _ _ => inferInstanceAs (Decidable (_ → _))
  | .dispatch (.reports _) _ => inferInstanceAs (Decidable (¬_))
  | .dispatch (.failed _) _ | .set _ _ _ | .lists _ _ _ => isTrue trivial

/-! ### Adding and deleting an event -/

/-- Changing what the knotes do not depend on. -/
theorem Held.modify (h : s.Held) (ev : ε) {f : KqEvent κ → KqEvent κ}
    (hf : (s.event ev).inserted = true → (f (s.event ev)).inserted = true ∧
      (f (s.event ev)).fd = (s.event ev).fd ∧ (f (s.event ev)).events = (s.event ev).events ∧
      (f (s.event ev)).xKqinkernel = (s.event ev).xKqinkernel) : (s.modify ev f).Held := by
  refine Held.congr (t := s.modify ev f) h rfl rfl fun e he => ?_
  unfold KqueueSet.modify
  by_cases heq : e = ev
  · subst heq
    simpa using hf he
  · simp [heq, he]

/-- Where nothing was queued, nothing has changed. -/
theorem Held.unchanged (h : s.Held) {action : KAction ε} {bit : Bool} {q : KFilter → Bool}
    (hchanged : Changed s t ev action bit q) (hq : ∀ f, q f = false) : t.Held := by
  refine h.congr (funext fun key => ?_) hchanged.activations fun e he => ?_
  · rw [hchanged.effective]
    simp [hq]
  · have hevent : t.event e = s.event e := by
      by_cases heq : e = ev
      · rw [heq, hchanged.self]
        simp [hq]
      · exact hchanged.others e heq
    rw [hevent]
    exact ⟨he, rfl, rfl, rfl⟩

/-- The new knotes belong to the event, which is inserted now. -/
theorem Held.added (h : s.Held) (hnew : (s.event ev).inserted = false) {q : KFilter → Bool}
    (hchanged : Changed s t ev (.evAdd ⟨ev, !(s.event ev).events.persist⟩) true q)
    (hq : ∀ f, q f = true → (s.event ev).waits f = true) :
    (t.modify ev fun e => { e with inserted := true }).Held := by
  -- a knote is a new one, or that of another event
  have hcases : ∀ key knote, t.poller.effective key = some knote →
      (knote = ⟨ev, !(s.event ev).events.persist⟩ ∧ key.1 = (s.event ev).fd ∧ q key.2 = true) ∨
      (knote.udata ≠ ev ∧ s.poller.effective key = some knote) := by
    intro key knote hknote
    rw [hchanged.effective] at hknote
    split at hknote
    · rename_i hkey
      exact .inl ⟨(Option.some.inj hknote).symm, hkey⟩
    · refine .inr ⟨?_, hknote⟩
      rintro rfl
      rw [h.inserted key knote hknote] at hnew
      cases hnew
  refine ⟨⟨fun key knote hknote => ?_, fun a ha => ?_⟩, fun key knote hknote => ?_⟩
  · rcases hcases key knote hknote with ⟨rfl, -⟩ | ⟨hne, hold⟩
    · simp [KqueueSet.modify]
    · simp [KqueueSet.modify, hne, hchanged.others _ hne, h.inserted key knote hold]
  · apply h.activations
    rw [← hchanged.activations]
    exact ha
  · rcases hcases key knote hknote with ⟨rfl, hfd, hqueued⟩ | ⟨hne, hold⟩
    · have hsome : (q .evfiltRead || q .evfiltWrite) = true := by
        cases hfilter : key.2 <;> simp [hfilter] at hqueued <;> simp [hqueued]
      have hwaits := hq _ hqueued
      have hself := hchanged.self
      rw [if_pos hsome] at hself
      constructor
      · simp [KqueueSet.modify, hself]
      · simp [KqueueSet.modify, hself, hfd]
      · cases hfilter : key.2 <;> rw [hfilter] at hwaits <;>
          simpa [KqueueSet.modify, hself, KqEvent.waits] using hwaits
      · simp [KqueueSet.modify, hself]
    · have hevent : (t.modify ev fun e => { e with inserted := true }).event knote.udata =
          s.event knote.udata := by simp [KqueueSet.modify, hne, hchanged.others _ hne]
      rw [hevent]
      exact h.belongs key knote hold

/-- `kqueue_add` hands all knotes of the event to the kernel, or none. -/
theorem Held.addPoll (h : s.Held) {tv : Int} {reallocRead reallocWrite : Bool}
    (hwhole : s.Whole (.add ev tv reallocRead reallocWrite)) :
    (s.addPoll ev reallocRead reallocWrite).Held := by
  unfold KqueueSet.addPoll
  split
  · rename_i hpolled
    have hnew : (s.event ev).inserted = false := by
      have hidle := hpolled.2.2
      simp only [Bool.not_eq_true', Bool.or_eq_false_iff] at hidle
      exact hidle.2
    obtain ⟨hchanged, hrc⟩ := s.queueBoth_changed ev (.evAdd ⟨ev, !(s.event ev).events.persist⟩) true
      reallocRead reallocWrite (show (-1 : Int) ≠ 0 by decide) (show (-2 : Int) ≠ 0 by decide)
    unfold kqueueAdd
    dsimp only
    split
    · exact h.added hnew hchanged fun f hf => queued_waits hf
    · rename_i hfailed
      rw [hrc] at hfailed
      exact h.unchanged hchanged (queued_none (hwhole hpolled) hfailed)
  · exact h

theorem Held.evsetsAdd (h : s.Held) {tv : Int} {reallocRead reallocWrite : Bool}
    (hwhole : s.Whole (.add ev tv reallocRead reallocWrite)) :
    (s.evsetsAdd ev tv reallocRead reallocWrite).Held := by
  have htimer : ∀ (e : EventView κ), (e.addTimer tv).inserted = e.inserted ∧
      (e.addTimer tv).fd = e.fd ∧ (e.addTimer tv).events = e.events := by
    intro e
    unfold EventView.addTimer
    split <;> exact ⟨rfl, rfl, rfl⟩
  -- the timer does not concern the kernel
  apply (h.addPoll hwhole).modify
  intro hinserted
  obtain ⟨hins, hfd, hevents⟩ := htimer ((s.addPoll ev reallocRead reallocWrite).event ev).toEventView
  exact ⟨hins.trans hinserted, hfd, hevents, rfl⟩

theorem leaveLists_self (s : KqueueSet ε κ) (ev : ε) :
    (s.leaveLists ev).event ev = { s.event ev with toEventView := (s.event ev).toEventView.evsetsDel } :=
  Function.update_self ..

theorem leaveLists_others (s : KqueueSet ε κ) {e : ε} (hne : e ≠ ev) :
    (s.leaveLists ev).event e = s.event e :=
  Function.update_of_ne hne ..

theorem leaveLists_queued (s : KqueueSet ε κ) (ev : ε) (reallocRead reallocWrite : Bool) (f : KFilter) :
    (s.leaveLists ev).queued ev reallocRead reallocWrite f = s.queued ev reallocRead reallocWrite f := by
  have hwaits : ∀ f, ((s.leaveLists ev).event ev).waits f = (s.event ev).waits f := by
    intro f
    rw [leaveLists_self]
    cases f <;> rfl
  cases f <;> simp only [queued, hwaits] <;> rfl

/-- The knotes of an event that is no longer inserted get their `EV_DELETE`. -/
theorem Held.evsetsDel (h : s.Held) {reallocRead reallocWrite : Bool}
    (hwhole : s.Whole (.del ev reallocRead reallocWrite)) :
    (s.evsetsDel ev reallocRead reallocWrite).Held := by
  unfold KqueueSet.evsetsDel
  split
  · rename_i hinserted
    unfold kqueueDel
    rw [leaveLists_self]
    cases hbit : (s.event ev).xKqinkernel with
    | false =>
      -- without the bit, the event has no knote
      refine h.left ev (fun key knote hknote => ⟨hknote, ?_⟩) (fun e he => s.leaveLists_others he) rfl
      rintro rfl
      rw [(h.belongs key knote hknote).bit] at hbit
      cases hbit
    | true =>
      rw [if_neg (by decide)]
      obtain ⟨hread, hwrite⟩ := hwhole hinserted hbit
      obtain ⟨hchanged, -⟩ := (s.leaveLists ev).queueBoth_changed ev .evDelete false reallocRead
        reallocWrite (show (-2 : Int) ≠ 0 by decide) (show (-3 : Int) ≠ 0 by decide)
      refine h.left ev (fun key knote hknote => ?_) (fun e he => ?_) hchanged.activations
      · -- a knote of the event lies where its change goes
        have hold := hchanged.effective key
        rw [hold] at hknote
        split at hknote
        · cases hknote
        · rename_i hkey
          refine ⟨hknote, ?_⟩
          rintro rfl
          have hfd := (h.belongs key knote hknote).fd
          rw [leaveLists_self, leaveLists_queued] at hkey
          apply hkey
          refine ⟨hfd, ?_⟩
          obtain ⟨fd, f⟩ := key
          cases f with
          | evfiltRead => exact hread ⟨knote, hfd ▸ hknote, rfl⟩
          | evfiltWrite => exact hwrite ⟨knote, hfd ▸ hknote, rfl⟩
      · rw [← s.leaveLists_others he]
        exact hchanged.others e he
  · rename_i hnew
    apply h.modify
    intro hinserted
    exact absurd hinserted hnew

/-! ### A dispatch -/

/-- And after the loop of the dispatch. -/
def reported (s : KqueueSet ε κ) (rs : List KReport) : KqueueSet ε κ :=
  (dispatchLoop s.poller.effective rs (s.returned rs)).1

theorem reported_dispatched {rs : List KReport} (hanswers : s.Answers (.reports rs)) :
    Dispatched s.poller.effective (KReport.handled rs) (s.returned rs) (s.reported rs) :=
  dispatchLoop_dispatched s.poller.effective rs (s.returned rs)
    fun key hkey => hanswers.2.2 key (KReport.mem_delivered_of_handled hkey)

theorem reported_effective {rs : List KReport} (hanswers : s.Answers (.reports rs)) :
    (s.reported rs).poller.effective = deliver s.poller.effective (KReport.delivered rs) := by
  rw [(reported_dispatched hanswers).poller]
  rfl

/-- After the loop, `kqueue_dispatch` can only make room for more events. -/
theorem kqueueDispatch_cases (s : KqueueSet ε κ) (rs : List KReport) (realloc : Bool) :
    ∃ nevents, (s.kqueueDispatch (.reports rs) realloc).1 =
      { s.reported rs with poller := { (s.reported rs).poller with nevents := nevents } } := by
  unfold kqueueDispatch
  dsimp only
  split
  · exact ⟨_, rfl⟩
  · split
    · unfold Kqueuer.kqueueExpand
      split
      · exact ⟨_, rfl⟩
      · exact ⟨_, rfl⟩
    · exact ⟨_, rfl⟩

/-- Where no event is split, a knote that is left belongs to its event as before. -/
theorem Held.reported (h : s.Held) {rs : List KReport} (hanswers : s.Answers (.reports rs))
    (hwhole : ¬s.Halves rs) : (s.reported rs).Held := by
  have hloop := reported_dispatched hanswers
  have heffective := reported_effective hanswers
  refine ⟨⟨fun key knote hknote => ?_, fun a ha => ?_⟩, fun key knote hknote => ?_⟩
  · rw [heffective, deliver_eq_some] at hknote
    rw [hloop.inserted]
    exact h.inserted key knote hknote.1
  · rcases hloop.activations a ha with hold | ⟨key, -, knote, hknote, rfl⟩
    · exact h.activations a hold
    · exact h.inserted key knote hknote
  · rw [heffective, deliver_eq_some] at hknote
    obtain ⟨hbit, hfd, hwaits, honeshot⟩ := h.belongs key knote hknote.1
    refine ⟨?_, ?_, ?_, ?_⟩
    · rw [← Bool.not_eq_false, hloop.bit, returned_event, hbit]
      rintro (hfalse | ⟨hpersist, key', hhandled, knote', hknote', hudata⟩)
      · cases hfalse
      -- the bit went with the other knote, so the event was split
      rw [honeshot, hpersist] at hknote
      have hkept : key ∉ KReport.delivered rs := fun hmem => hknote.2 ⟨rfl, hmem⟩
      have hne : key ≠ key' := by
        rintro rfl
        exact hkept (KReport.mem_delivered_of_handled hhandled)
      have hbeside := h.beside hknote' hknote.1 hudata.symm hne
      rw [hbeside] at hkept hknote
      refine hwhole ⟨key', hhandled, knote', hknote', ?_, hkept, knote, hknote.1, hudata.symm⟩
      rw [(h.belongs key' knote' hknote').oneshot, hudata, hpersist]
      rfl
    · rw [hloop.fd]
      exact hfd
    · unfold KqEvent.waits
      rw [hloop.events]
      exact hwaits
    · rw [hloop.events]
      exact honeshot

theorem Held.kqueueDispatch (h : s.Held) {answer : KAnswer} (realloc : Bool)
    (hanswers : s.Answers answer) (hwhole : s.Whole (.dispatch answer realloc)) :
    (s.kqueueDispatch answer realloc).1.Held := by
  cases answer with
  | failed eintr => exact h.congr rfl rfl fun e he => ⟨he, rfl, rfl, rfl⟩
  | reports rs =>
    obtain ⟨nevents, hrun⟩ := s.kqueueDispatch_cases rs realloc
    rw [hrun]
    exact (h.reported hanswers hwhole).congr rfl rfl fun e he => ⟨he, rfl, rfl, rfl⟩

/-- A one-shot event that was split keeps a knote when it is deleted: the first delivery has
cleared the bit that stands for both. -/
theorem halves_stale (h : s.Held) {rs : List KReport} (hanswers : s.Answers (.reports rs))
    (hhalves : s.Halves rs) :
    ∃ ev, (s.event ev).inserted = true ∧ ∀ reallocRead reallocWrite,
      ¬((s.reported rs).evsetsDel ev reallocRead reallocWrite).Clean := by
  obtain ⟨key, hhandled, knote, hknote, honeshot, hkept, knote', hknote', hudata⟩ := hhalves
  have hloop := reported_dispatched hanswers
  have hinserted := h.inserted key knote hknote
  refine ⟨knote.udata, hinserted, fun reallocRead reallocWrite hclean => ?_⟩
  have hbit : ((s.reported rs).event knote.udata).xKqinkernel = false := by
    rw [hloop.bit]
    right
    have hpersist := (h.belongs key knote hknote).oneshot
    rw [honeshot, eq_comm, Bool.not_eq_true'] at hpersist
    exact ⟨hpersist, key, hhandled, knote, hknote, rfl⟩
  -- so nothing is queued for the event, and the other knote stays
  have hdel : (s.reported rs).evsetsDel knote.udata reallocRead reallocWrite =
      (s.reported rs).leaveLists knote.udata := by
    unfold KqueueSet.evsetsDel kqueueDel
    rw [leaveLists_self, hbit]
    simp
  have hleft : (s.reported rs).poller.effective (key.1, key.2.other) = some knote' := by
    rw [reported_effective hanswers, deliver_eq_some]
    exact ⟨hknote', fun hgone => hkept hgone.2⟩
  rw [hdel] at hclean
  have hstill := hclean.inserted (key.1, key.2.other) knote' hleft
  rw [hudata, leaveLists_self] at hstill
  cases hstill

/-! ## Every run -/

theorem step_held {i : KqueueInput ε} (h : s.Held) (hwhole : s.Whole i) (hstep : step s i = some t) :
    t.Held := by
  cases i with
  | set ev fd events =>
    simp only [step, Option.ite_none_left_eq_some, Option.some.injEq] at hstep
    obtain ⟨hnew, rfl⟩ := hstep
    apply h.modify
    intro hinserted
    exact absurd hinserted hnew
  | add ev tv reallocRead reallocWrite =>
    obtain rfl := Option.some.inj hstep
    exact h.evsetsAdd hwhole
  | del ev reallocRead reallocWrite =>
    obtain rfl := Option.some.inj hstep
    exact h.evsetsDel hwhole
  | dispatch answer realloc =>
    simp only [step, Option.ite_none_right_eq_some, Option.some.injEq] at hstep
    obtain ⟨hanswers, rfl⟩ := hstep
    exact h.kqueueDispatch realloc hanswers hwhole
  | lists ev timer active =>
    obtain rfl := Option.some.inj hstep
    apply h.modify
    intro hinserted
    exact ⟨hinserted, rfl, rfl, rfl⟩

/-- In every run that handles no event by half, the kernel has no knote of an event that is not
inserted once it has got the queued changes, and no such event was ever made active. -/
theorem kqueue_clean (is : List (KqueueInput ε)) (t : KqueueSet ε κ)
    (hrun : GuardedRun step Whole start is t) : t.Clean :=
  (hrun.invariant start_held fun _ _ _ h hwhole hstep => step_held h hwhole hstep).toClean

/-- An event that waits once for both directions gets both in one dispatch, is deleted by
`evsets_process_active`, and is added again and deleted. -/
def readAndWrite : List (KqueueInput Nat) :=
  [.set 1 5 { read := true, write := true }, .add 1 (-1) false false,
    .dispatch (.reports [.ready (5, .evfiltRead), .ready (5, .evfiltWrite)]) true, .del 1 false false,
    .add 1 (-1) false false, .dispatch (.reports []) true, .del 1 false false]

theorem kqueue_clean_readAndWrite : ∃ t : KqueueSet Nat Unit,
    GuardedRun step Whole start readAndWrite t ∧ t.activations = [(1, true), (1, true)] ∧ t.Clean := by
  have hrun : GuardedRun step Whole (start : KqueueSet Nat Unit) readAndWrite _ := .of_exec rfl
  exact ⟨_, hrun, rfl, kqueue_clean _ _ hrun⟩

/-- It gets only one of them, and is deleted. The next dispatch finds the knote of the other
direction in the kernel, and the one after that makes the event active. -/
theorem kqueue_clean_readFirst_fails : ∃ t u : KqueueSet Nat Unit,
    Run step start
      [.set 1 5 { read := true, write := true }, .add 1 (-1) false false,
        .dispatch (.reports [.ready (5, .evfiltRead)]) true, .del 1 false false,
        .dispatch (.reports []) true] t ∧
    t.poller.changes = [] ∧ t.poller.kernel (5, .evfiltWrite) = some ⟨1, true⟩ ∧
    (t.event 1).inserted = false ∧
    Run step t [.dispatch (.reports [.ready (5, .evfiltWrite)]) true] u ∧ (1, false) ∈ u.activations := by
  have hrun : Lib.exec step (start : KqueueSet Nat Unit)
      [.set 1 5 { read := true, write := true }, .add 1 (-1) false false,
        .dispatch (.reports [.ready (5, .evfiltRead)]) true, .del 1 false false,
        .dispatch (.reports []) true] = some _ := rfl
  exact ⟨_, _, Lib.run_iff_exec.mpr hrun, rfl, rfl, rfl, Lib.run_iff_exec.mpr rfl, by decide⟩

end KqueueSet

end Evlite
