import Evlite.Event.Epoll
import Evlite.Lib.TransitionSystem
import Mathlib.Data.List.Pairwise

/-!
# The Interest of the Kernel

`epoll_add` and `epoll_del` choose between `EPOLL_CTL_ADD`, `EPOLL_CTL_MOD` and
`EPOLL_CTL_DEL` by what the pair of the descriptor holds, and compute the mask from it. As
long as the kernel has exactly what the pairs say, the choice is right and the second try of
`epoll_add` is never needed.

## Main results

- `epollAdd_synced`, `epollDel_synced`: each call keeps the pairs and the kernel in step, and
  an `epoll_add` that fails changes neither.
- `Recorded.call`, `Complete.call`: the pairs hold the events that are registered.
- `interest_synced`: both, over every sequence of calls.
-/

namespace Evlite

variable {ε : Type}

/-! ## Pairs and the kernel in step -/

/-- What the kernel has to watch for a pair. -/
def EventPair.mask (pair : EventPair ε) : Option EpollMask :=
  if pair.evread.isSome || pair.evwrite.isSome then
    some { epollin := pair.evread.isSome, epollout := pair.evwrite.isSome }
  else none

/-- The pair after `epoll_add`. -/
def EventPair.with (pair : EventPair ε) (ev : ε) (events : EvMask) : EventPair ε where
  evread := if events.read then some ev else pair.evread
  evwrite := if events.write then some ev else pair.evwrite

/-- The pair after `epoll_del`. -/
def EventPair.without (pair : EventPair ε) (events : EvMask) : EventPair ε :=
  if events.read && !events.write && pair.evwrite.isSome then { pair with evread := none }
  else if events.write && !events.read && pair.evread.isSome then { pair with evwrite := none }
  else {}

theorem EventPair.with_mask (pair : EventPair ε) (ev : ε) {events : EvMask}
    (hevents : (events.read || events.write) = true) :
    (pair.with ev events).mask =
      some { epollin := pair.evread.isSome || events.read
             epollout := pair.evwrite.isSome || events.write } := by
  obtain ⟨read, write⟩ := pair
  cases hread : events.read <;> cases hwrite : events.write <;> cases read <;> cases write <;>
    simp_all [EventPair.mask, EventPair.with]

/-- Whether the pair holds an event. -/
def EventPair.held (pair : EventPair ε) : Bool := pair.evread.isSome || pair.evwrite.isSome

theorem EventPair.not_held {pair : EventPair ε} (h : pair.held = false) : pair = {} := by
  obtain ⟨read, write⟩ := pair
  cases read <;> cases write <;> simp_all [EventPair.held]

theorem EventPair.without_empty (events : EvMask) : ({} : EventPair ε).without events = {} := by
  unfold EventPair.without
  simp

namespace Epoller

/-- The kernel watches what the pairs say, and there are no pairs beyond the table. -/
structure Synced (poller : Epoller ε) : Prop where
  pos : 0 < poller.npairs
  beyond : ∀ fd, poller.npairs ≤ fd → poller.evpairs fd = {}
  interest : ∀ fd, poller.interest fd = (poller.evpairs fd).mask

theorem epollInit_synced : (epollInit : Epoller ε).Synced :=
  ⟨Nat.succ_pos 1023, fun _ _ => rfl, fun _ => rfl⟩

/-- Making room for a descriptor changes no pair. -/
theorem Synced.room {self : Epoller ε} (h : self.Synced) (fd : Nat) (grows : Bool) :
    ∃ room rc, (if self.npairs ≤ fd then self.epollInsert fd grows else (self, 0)) = (room, rc) ∧
      room.Synced ∧ room.evpairs = self.evpairs ∧ room.interest = self.interest ∧
      (rc = 0 → fd < room.npairs) := by
  split
  · obtain ⟨hnpairs, hinterest, hkept, hcases, hlt⟩ := self.epollInsert_keeps fd grows
    have hpairs : (self.epollInsert fd grows).1.evpairs = self.evpairs := by
      funext fd'
      rcases Nat.lt_or_ge fd' self.npairs with hin | hout
      · exact hkept fd' hin
      · -- a new pair is as empty as the one that was not there
        rcases hcases fd' with hsame | hempty
        · exact hsame
        · rw [hempty, h.beyond fd' hout]
    refine ⟨(self.epollInsert fd grows).1, (self.epollInsert fd grows).2, rfl, ⟨Nat.lt_of_lt_of_le h.pos hnpairs, fun fd' hfd' => ?_,
      fun fd' => ?_⟩, hpairs, hinterest, hlt h.pos⟩
    · rw [hpairs]
      exact h.beyond fd' (Nat.le_trans hnpairs hfd')
    · rw [hpairs, hinterest]
      exact h.interest fd'
  · rename_i hroom
    exact ⟨self, 0, rfl, h, rfl, rfl, fun _ => Nat.lt_of_not_le hroom⟩

/-- The operation that `epoll_add` chooses does not fail with `ENOENT` or `EEXIST`. -/
theorem Synced.ctlRetry {self : Epoller ε} (h : self.Synced) (full : Bool) (fd : Nat) (mask : EpollMask) :
    ctlRetry full self.interest
        (if (self.evpairs fd).evread.isSome || (self.evpairs fd).evwrite.isSome then .mod else .add)
        fd mask =
      if ((self.evpairs fd).evread.isSome || (self.evpairs fd).evwrite.isSome) = false ∧ full = true then
        .error .enospc
      else .ok (Function.update self.interest fd (some mask)) := by
  have hfd := h.interest fd
  unfold EventPair.mask at hfd
  -- a pair that holds an event is watched, so `EPOLL_CTL_MOD` finds it; any other is not
  by_cases hpair : ((self.evpairs fd).evread.isSome || (self.evpairs fd).evwrite.isSome) = true
  · rw [if_pos hpair] at hfd
    simp [Epoller.ctlRetry, epollCtl, hfd, hpair]
  · rw [if_neg hpair] at hfd
    cases full <;> simp [Epoller.ctlRetry, epollCtl, hfd, hpair]

/-- Replacing a pair, and the mask with it. -/
theorem Synced.update {self : Epoller ε} (h : self.Synced) {fd : Nat} (hfd : fd < self.npairs)
    (pair : EventPair ε) :
    Synced { self with
      evpairs := Function.update self.evpairs fd pair
      interest := Function.update self.interest fd pair.mask } := by
  refine ⟨h.pos, fun fd' hfd' => ?_, fun fd' => ?_⟩
  · have hne : fd' ≠ fd := by
      rintro rfl
      exact absurd hfd' (Nat.not_le.mpr hfd)
    exact (Function.update_of_ne hne ..).trans (h.beyond fd' hfd')
  · by_cases hne : fd' = fd
    · subst hne
      simp only [Function.update_self]
    · simp only [Function.update_of_ne hne]
      exact h.interest fd'

/-- What `epoll_add` can do: fail, with the pairs and the kernel as they were, or register the
event in the pair and in the kernel. -/
inductive Added (poller : Epoller ε) (ev : ε) (fd : Int) (events : EvMask) : Epoller ε × Int → Prop where
  | failed {later : Epoller ε} {rc : Int} (hrc : rc ≠ 0) (synced : later.Synced)
      (evpairs : later.evpairs = poller.evpairs) (interest : later.interest = poller.interest) :
      Added poller ev fd events (later, rc)
  | done {later : Epoller ε} (hfd : 0 ≤ fd)
      (synced : (events.read || events.write) = true → later.Synced)
      (evpairs : later.evpairs =
        Function.update poller.evpairs fd.toNat ((poller.evpairs fd.toNat).with ev events)) :
      Added poller ev fd events (later, 0)

theorem epollAdd_added {self : Epoller ε} (h : self.Synced) (ev : ε) (fd : Int) (events : EvMask)
    (grows full : Bool) : Added self ev fd events (self.epollAdd ev fd events grows full) := by
  unfold epollAdd
  split
  · exact .failed (by omega) h rfl rfl
  · rename_i hfd
    obtain ⟨room, rc, hroom, hsynced, hpairs, hinterest, hlt⟩ := h.room fd.toNat grows
    simp only [hroom, hsynced.ctlRetry full fd.toNat]
    split
    · exact .failed (by omega) hsynced hpairs hinterest
    · rename_i hrc
      split
      · exact .failed (by omega) hsynced hpairs hinterest
      · rename_i interest hok
        split at hok
        · cases hok
        · cases hok
          refine .done (by omega) (fun hevents => ?_) ?_
          · have hupdate := hsynced.update (hlt (not_not.mp hrc))
              ((room.evpairs fd.toNat).with ev events)
            rwa [EventPair.with_mask _ ev hevents] at hupdate
          · rw [← hpairs]
            rfl

/-- The operation and the mask that `epoll_del` chooses for a pair that holds an event. -/
theorem epollDel_held {self : Epoller ε} (h : self.Synced) {fd : Nat} (hfd : fd < self.npairs)
    (hheld : (self.evpairs fd).held = true) (events : EvMask) :
    self.epollDel fd events =
      ({ self with
          evpairs := Function.update self.evpairs fd ((self.evpairs fd).without events)
          interest := Function.update self.interest fd ((self.evpairs fd).without events).mask }, 0) := by
  have hwatched : self.interest fd = some
      { epollin := (self.evpairs fd).evread.isSome, epollout := (self.evpairs fd).evwrite.isSome } := by
    rw [h.interest fd]
    exact if_pos hheld
  have hroom : ¬(self.npairs : Int) ≤ fd := by omega
  unfold epollDel
  rw [if_neg hroom]
  cases hpair : self.evpairs fd with | mk evread evwrite
  rw [hpair] at hwatched hheld
  -- the three ways are told apart by the directions of the event and by the other event
  cases hread : events.read <;> cases hwrite : events.write <;> cases evread <;> cases evwrite <;>
    simp_all [EventPair.held, EventPair.without, EventPair.mask, epollCtl]

/-- `epoll_del` takes the directions of the event out of the pair, and out of the kernel. -/
theorem epollDel_synced {self : Epoller ε} (h : self.Synced) (fd : Nat) (events : EvMask) :
    (self.epollDel fd events).1.Synced ∧
      (self.epollDel fd events).1.evpairs =
        Function.update self.evpairs fd ((self.evpairs fd).without events) := by
  rcases Nat.lt_or_ge fd self.npairs with hfd | hfd
  · cases hheld : (self.evpairs fd).held with
    | true =>
      rw [epollDel_held h hfd hheld]
      exact ⟨h.update hfd _, rfl⟩
    | false =>
      -- nothing is watched, and `EPOLL_CTL_DEL` fails
      have hempty := EventPair.not_held hheld
      have hnone : self.interest fd = none := by
        rw [h.interest fd, hempty]
        rfl
      have hroom : ¬(self.npairs : Int) ≤ fd := by omega
      have hdel : self.epollDel fd events =
          ({ self with evpairs := Function.update self.evpairs fd {} }, -2) := by
        unfold epollDel
        rw [if_neg hroom]
        simp [hempty, hnone, epollCtl]
      have hsame : Function.update self.evpairs fd {} = self.evpairs := by
        rw [← hempty, Function.update_eq_self]
      rw [hdel, hempty, EventPair.without_empty]
      refine ⟨?_, rfl⟩
      rw [hsame]
      exact h
  · have hroom : (self.npairs : Int) ≤ fd := by omega
    have hdel : self.epollDel fd events = (self, -1) := if_pos hroom
    rw [hdel, h.beyond fd hfd, EventPair.without_empty, ← h.beyond fd hfd, Function.update_eq_self]
    exact ⟨h, rfl⟩

end Epoller

/-! ## Sequences of calls -/

/-- An event that was added, with its descriptor and its directions. -/
structure Registration (ε : Type) where
  ev : ε
  fd : Nat
  events : EvMask
deriving DecidableEq, Repr

/-- Two events have no direction of a descriptor in common. -/
def Registration.Apart (r r' : Registration ε) : Prop :=
  r.fd = r'.fd → (r.events.read && r'.events.read) = false ∧ (r.events.write && r'.events.write) = false

instance (r r' : Registration ε) : Decidable (r.Apart r') :=
  inferInstanceAs (Decidable (_ → _ ∧ _))

instance : Std.Symm (Registration.Apart : Registration ε → Registration ε → Prop) where
  symm r r' h heq := by
    rw [Bool.and_comm, Bool.and_comm r'.events.write]
    exact h heq.symm

/-- The calls of the back end. -/
inductive PollCall (ε : Type) where
  /-- `epoll_add`; `grows` is the answer of `realloc`, and `full` says that the kernel cannot
  watch another descriptor. -/
  | add (ev : ε) (fd : Int) (events : EvMask) (grows full : Bool)
  /-- `epoll_del` -/
  | del (ev : ε) (fd : Int) (events : EvMask)
deriving DecidableEq, Repr

/-- A poller, and the events that were added successfully and not yet deleted. -/
structure PollHistory (ε : Type) where
  poller : Epoller ε := Epoller.epollInit
  registered : List (Registration ε) := []

namespace PollHistory

variable [DecidableEq ε]

/-- One call. -/
def call (s : PollHistory ε) : PollCall ε → PollHistory ε
  | .add ev fd events grows full =>
    let r := s.poller.epollAdd ev fd events grows full
    { poller := r.1
      registered := if r.2 = 0 then ⟨ev, fd.toNat, events⟩ :: s.registered else s.registered }
  | .del ev fd events =>
    { poller := (s.poller.epollDel fd events).1
      registered := s.registered.filter fun r => r.ev ≠ ev }

def step (s : PollHistory ε) (c : PollCall ε) : Option (PollHistory ε) := some (s.call c)

/-- An event that is added waits for a direction, and each descriptor has at most one read event
and one write event. An event that is deleted has a descriptor, which is the one it was added
with, like its directions. -/
def Allowed (s : PollHistory ε) : PollCall ε → Prop
  | .add ev fd events grows full => (events.read || events.write) = true ∧
      (s.call (.add ev fd events grows full)).registered.Pairwise Registration.Apart
  | .del ev fd events => 0 ≤ fd ∧ ∀ r ∈ s.registered, r.ev = ev → (r.fd : Int) = fd ∧ r.events = events

instance (s : PollHistory ε) (c : PollCall ε) : Decidable (s.Allowed c) := by
  cases c <;> unfold Allowed <;> infer_instance

/-- Only an event that is registered is deleted. -/
def DelRegistered (s : PollHistory ε) : PollCall ε → Prop
  | .add .. => True
  | .del ev _ _ => ∃ r ∈ s.registered, r.ev = ev

instance (s : PollHistory ε) (c : PollCall ε) : Decidable (s.DelRegistered c) := by
  cases c <;> unfold DelRegistered <;> infer_instance

end PollHistory

/-! ## What the pairs hold -/

/-- The event of a pair for one direction. -/
def EventPair.side (pair : EventPair ε) (write : Bool) : Option ε :=
  if write then pair.evwrite else pair.evread

/-- The event waits for a direction. -/
def Registration.waits (r : Registration ε) (write : Bool) : Bool :=
  if write then r.events.write else r.events.read

theorem EventPair.with_side (pair : EventPair ε) (r : Registration ε) (write : Bool) :
    (pair.with r.ev r.events).side write = if r.waits write then some r.ev else pair.side write := by
  cases write <;> rfl

/-- What is left in the pair was there before. -/
theorem EventPair.without_side {pair : EventPair ε} {events : EvMask} {write : Bool} {e : ε}
    (h : (pair.without events).side write = some e) : pair.side write = some e := by
  unfold EventPair.without at h
  split at h
  · cases write with
    | false => cases h
    | true => exact h
  · split at h
    · cases write with
      | false => exact h
      | true => cases h
    · cases write <;> cases h

/-- The directions of the event are not left in the pair. -/
theorem Registration.without_waits (r : Registration ε) (pair : EventPair ε) {write : Bool}
    (h : r.waits write = true) : (pair.without r.events).side write = none := by
  unfold EventPair.without
  split
  · rename_i hread
    cases write with
    | false => rfl
    | true => simp_all [Registration.waits]
  · split
    · rename_i hwrite
      cases write with
      | false => simp_all [Registration.waits]
      | true => rfl
    · cases write <;> rfl

/-- A direction that the event does not wait for is left, if the event waits for the other. -/
theorem Registration.without_other (r : Registration ε) {pair : EventPair ε} {write : Bool}
    (hother : r.waits (!write) = true) (hnot : r.waits write = false)
    (hpair : (pair.side write).isSome = true) :
    (pair.without r.events).side write = pair.side write := by
  cases write <;> simp_all [Registration.waits, EventPair.without, EventPair.side]

theorem Registration.Apart.waits {r r' : Registration ε} (h : r.Apart r') (hfd : r.fd = r'.fd)
    {write : Bool} (hwaits : r.waits write = true) : r'.waits write = false := by
  obtain ⟨hread, hwrite⟩ := h hfd
  cases write <;> simp_all [Registration.waits]

namespace PollHistory

variable [DecidableEq ε]

/-- The pairs and the kernel are in step, and the pairs hold registered events only. -/
structure Recorded (s : PollHistory ε) : Prop where
  synced : s.poller.Synced
  apart : s.registered.Pairwise Registration.Apart
  directed : ∀ r ∈ s.registered, (r.events.read || r.events.write) = true
  held : ∀ fd write e, (s.poller.evpairs fd).side write = some e →
    ∃ r ∈ s.registered, r.ev = e ∧ r.fd = fd ∧ r.waits write = true

omit [DecidableEq ε] in
theorem Recorded.init : Recorded ({} : PollHistory ε) := by
  refine ⟨Epoller.epollInit_synced, .nil, fun r hr => absurd hr List.not_mem_nil, fun fd write e h => ?_⟩
  cases write <;> cases h

theorem Recorded.call {s : PollHistory ε} {c : PollCall ε} (h : s.Recorded) (hc : s.Allowed c) :
    (s.call c).Recorded := by
  cases c with
  | add ev fd events grows full =>
    obtain ⟨hevents, hapart⟩ := hc
    unfold PollHistory.call at hapart ⊢
    dsimp only at hapart ⊢
    have hadded := Epoller.epollAdd_added h.synced ev fd events grows full
    generalize s.poller.epollAdd ev fd events grows full = r at hapart hadded
    cases hadded with
    | failed hrc hsynced hpairs =>
      simp only [if_neg hrc] at hapart ⊢
      refine ⟨hsynced, hapart, h.directed, fun fd' write e he => ?_⟩
      rw [hpairs] at he
      exact h.held fd' write e he
    | done hfd hsynced hpairs =>
      simp only [if_true] at hapart ⊢
      refine ⟨hsynced hevents, hapart, fun r hr => ?_, fun fd' write e he => ?_⟩
      · rcases List.mem_cons.mp hr with rfl | hr
        · exact hevents
        · exact h.directed r hr
      · have hold : (s.poller.evpairs fd').side write = some e →
            ∃ r ∈ (⟨ev, fd.toNat, events⟩ : Registration ε) :: s.registered,
              r.ev = e ∧ r.fd = fd' ∧ r.waits write = true := by
          intro hside
          obtain ⟨r, hr, hrest⟩ := h.held fd' write e hside
          exact ⟨r, List.mem_cons_of_mem _ hr, hrest⟩
        rw [hpairs] at he
        by_cases hne : fd' = fd.toNat
        · subst hne
          rw [Function.update_self] at he
          rw [EventPair.with_side _ ⟨ev, fd.toNat, events⟩] at he
          split at he
          · rename_i hwaits
            exact ⟨⟨ev, fd.toNat, events⟩, List.mem_cons_self, Option.some.inj he, rfl, hwaits⟩
          · exact hold he
        · rw [Function.update_of_ne hne] at he
          exact hold he
  | del ev fd events =>
    -- what a deletion leaves in the pairs was there before
    obtain ⟨hfd, hsteady⟩ := hc
    obtain ⟨fd, rfl⟩ := Int.eq_ofNat_of_zero_le hfd
    obtain ⟨hsynced, hpairs⟩ := Epoller.epollDel_synced h.synced fd events
    refine ⟨hsynced, h.apart.filter _, fun r hr => h.directed r (List.mem_filter.mp hr).1,
      fun fd' write e he => ?_⟩
    have he' : ((Function.update s.poller.evpairs fd
        ((s.poller.evpairs fd).without events)) fd').side write = some e := hpairs ▸ he
    have hbefore : (s.poller.evpairs fd').side write = some e := by
      by_cases hne : fd' = fd
      · subst hne
        rw [Function.update_self] at he'
        exact EventPair.without_side he'
      · rwa [Function.update_of_ne hne] at he'
    obtain ⟨r, hr, hev, hrfd, hwaits⟩ := h.held fd' write e hbefore
    refine ⟨r, List.mem_filter.mpr ⟨hr, decide_eq_true fun heq => ?_⟩, hev, hrfd, hwaits⟩
    -- the deleted event would still be in the pair
    obtain ⟨hsame, hmask⟩ := hsteady r hr heq
    have hplace : fd' = fd := by omega
    subst hplace
    rw [Function.update_self, ← hmask, r.without_waits _ hwaits] at he'
    cases he'

/-- The pairs hold every event that is registered. -/
def Complete (s : PollHistory ε) : Prop :=
  ∀ r ∈ s.registered, ∀ write, r.waits write = true →
    (s.poller.evpairs r.fd).side write = some r.ev

theorem Complete.call {s : PollHistory ε} {c : PollCall ε} (hcomplete : s.Complete) (h : s.Recorded)
    (hc : s.Allowed c) (hdel : s.DelRegistered c) : (s.call c).Complete := by
  cases c with
  | add ev fd events grows full =>
    obtain ⟨-, hapart⟩ := hc
    unfold PollHistory.call at hapart ⊢
    dsimp only at hapart ⊢
    have hadded := Epoller.epollAdd_added h.synced ev fd events grows full
    generalize s.poller.epollAdd ev fd events grows full = r at hapart hadded
    cases hadded with
    | failed hrc hsynced hpairs =>
      simp only [if_neg hrc]
      intro r hr write hwaits
      rw [hpairs]
      exact hcomplete r hr write hwaits
    | done hfd hsynced hpairs =>
      simp only [if_true] at hapart ⊢
      intro r hr write hwaits
      rw [hpairs]
      rcases List.mem_cons.mp hr with rfl | hr
      · rw [Function.update_self, EventPair.with_side _ ⟨ev, fd.toNat, events⟩, if_pos hwaits]
      · by_cases hne : r.fd = fd.toNat
        · -- the new event takes the other direction at most
          have hfree : (⟨ev, fd.toNat, events⟩ : Registration ε).waits write = false := by
            by_contra htaken
            have hnone := ((List.pairwise_cons.mp hapart).1 r hr).waits hne.symm (by simpa using htaken)
            rw [hwaits] at hnone
            cases hnone
          rw [hne, Function.update_self, EventPair.with_side _ ⟨ev, fd.toNat, events⟩, if_neg (by
            rw [hfree]; decide), ← hne]
          exact hcomplete r hr write hwaits
        · rw [Function.update_of_ne hne]
          exact hcomplete r hr write hwaits
  | del ev fd events =>
    obtain ⟨hfd, hsteady⟩ := hc
    obtain ⟨fd, rfl⟩ := Int.eq_ofNat_of_zero_le hfd
    obtain ⟨-, hpairs⟩ := Epoller.epollDel_synced h.synced fd events
    obtain ⟨r', hr', hev'⟩ := hdel
    obtain ⟨hfd', hevents'⟩ := hsteady r' hr' hev'
    intro r hr write hwaits
    obtain ⟨hr, hother⟩ := List.mem_filter.mp hr
    have hne : r.ev ≠ ev := by simpa using hother
    show ((s.poller.epollDel fd events).1.evpairs r.fd).side write = some r.ev
    rw [hpairs]
    by_cases hplace : r.fd = fd
    · have hdistinct : r ≠ r' := by
        rintro rfl
        exact hne hev'
      have hnot : r'.waits write = false :=
        (h.apart.forall hr hr' hdistinct).waits (by omega) hwaits
      -- the deleted event waits for the other direction, which leaves this one in the pair
      have hdirected := h.directed r' hr'
      have hleft : r'.waits (!write) = true := by
        cases write <;> simp_all [Registration.waits]
      have hside := hcomplete r hr write hwaits
      rw [hplace, Function.update_self, ← hevents',
        r'.without_other hleft hnot (by rw [← hplace, hside]; rfl), ← hplace]
      exact hside
    · rw [Function.update_of_ne hplace]
      exact hcomplete r hr write hwaits

/-- What the kernel has to watch for the events that are registered. -/
def watched (registered : List (Registration ε)) (fd : Nat) : Option EpollMask :=
  if registered.any (fun r => r.fd = fd) then
    some
      { epollin := registered.any fun r => r.fd = fd && r.waits false
        epollout := registered.any fun r => r.fd = fd && r.waits true }
  else none

omit [DecidableEq ε] in
theorem Complete.side {s : PollHistory ε} (hcomplete : s.Complete) (h : s.Recorded) (fd : Nat)
    (write : Bool) : ((s.poller.evpairs fd).side write).isSome =
      s.registered.any fun r => r.fd = fd && r.waits write := by
  rw [Bool.eq_iff_iff, Option.isSome_iff_exists, List.any_eq_true]
  constructor
  · rintro ⟨e, he⟩
    obtain ⟨r, hr, -, hfd, hwaits⟩ := h.held fd write e he
    exact ⟨r, hr, by simp [hfd, hwaits]⟩
  · rintro ⟨r, hr, hboth⟩
    obtain ⟨hfd, hwaits⟩ : r.fd = fd ∧ r.waits write = true := by simpa using hboth
    exact ⟨r.ev, hfd ▸ hcomplete r hr write hwaits⟩

omit [DecidableEq ε] in
theorem Complete.watched {s : PollHistory ε} (hcomplete : s.Complete) (h : s.Recorded) (fd : Nat) :
    s.poller.interest fd = watched s.registered fd := by
  have hread := hcomplete.side h fd false
  have hwrite := hcomplete.side h fd true
  have hsome : (s.registered.any fun r => r.fd = fd) =
      ((s.poller.evpairs fd).evread.isSome || (s.poller.evpairs fd).evwrite.isSome) := by
    show _ = (((s.poller.evpairs fd).side false).isSome || ((s.poller.evpairs fd).side true).isSome)
    rw [hread, hwrite, Bool.eq_iff_iff, Bool.or_eq_true, List.any_eq_true, List.any_eq_true,
      List.any_eq_true]
    constructor
    · rintro ⟨r, hr, hfd⟩
      rcases Bool.or_eq_true_iff.mp (h.directed r hr) with hdirection | hdirection
      · exact .inl ⟨r, hr, by simp_all [Registration.waits]⟩
      · exact .inr ⟨r, hr, by simp_all [Registration.waits]⟩
    · rintro (⟨r, hr, hboth⟩ | ⟨r, hr, hboth⟩)
      · exact ⟨r, hr, (Bool.and_eq_true_iff.mp hboth).1⟩
      · exact ⟨r, hr, (Bool.and_eq_true_iff.mp hboth).1⟩
  rw [h.synced.interest fd, PollHistory.watched, ← hread, ← hwrite, hsome]
  rfl

/-! ## Main result -/

/-- After every sequence of calls, the kernel watches exactly what the pairs say, each event in
a pair was added successfully and not yet deleted, and an `epoll_add` that fails changes
neither. Where only registered events are deleted, the pairs hold all of them. -/
theorem interest_synced (calls : List (PollCall ε)) (s : PollHistory ε)
    (hrun : Lib.GuardedRun step Allowed {} calls s) :
    (∀ fd, s.poller.interest fd = (s.poller.evpairs fd).mask) ∧
      (∀ fd write e, (s.poller.evpairs fd).side write = some e →
        ∃ r ∈ s.registered, r.ev = e ∧ r.fd = fd ∧ r.waits write = true) ∧
      (∀ ev fd events grows full, (s.poller.epollAdd ev fd events grows full).2 ≠ 0 →
        (s.poller.epollAdd ev fd events grows full).1.evpairs = s.poller.evpairs ∧
          (s.poller.epollAdd ev fd events grows full).1.interest = s.poller.interest) ∧
      (Lib.GuardedRun step (fun s c => s.Allowed c ∧ s.DelRegistered c) {} calls s →
        ∀ fd, s.poller.interest fd = watched s.registered fd ∧
          ∀ r ∈ s.registered, r.fd = fd → ∀ write, r.waits write = true →
            (s.poller.evpairs fd).side write = some r.ev) := by
  have hrecorded : s.Recorded := hrun.invariant .init fun _ _ _ h hc hstep => by
    cases hstep
    exact h.call hc
  refine ⟨hrecorded.synced.interest, hrecorded.held, fun ev fd events grows full hfailed => ?_,
    fun hregistered fd => ?_⟩
  · have hadded := Epoller.epollAdd_added hrecorded.synced ev fd events grows full
    generalize s.poller.epollAdd ev fd events grows full = r at hfailed hadded
    cases hadded with
    | failed hrc hsynced hpairs hinterest => exact ⟨hpairs, hinterest⟩
    | done => exact absurd rfl hfailed
  · have hboth : s.Recorded ∧ s.Complete :=
      hregistered.invariant (I := fun s => s.Recorded ∧ s.Complete)
        ⟨.init, fun r hr => absurd hr List.not_mem_nil⟩ fun _ _ _ h hc hstep => by
          cases hstep
          exact ⟨h.1.call hc.1, h.2.call h.1 hc.1 hc.2⟩
    exact ⟨hboth.2.watched hboth.1 fd, fun r hr hfd => hfd ▸ hboth.2 r hr⟩

/-- Both directions of a descriptor, added and deleted one by one and together. -/
def bothDirections : List (PollCall Nat) :=
  [.add 1 5 .evRead false false, .add 2 5 .evWrite false false, .del 1 5 .evRead,
    .add 3 2000 { read := true, write := true } true false, .add 4 7 .evRead false true,
    .del 3 2000 { read := true, write := true }]

theorem interest_synced_bothDirections :
    ∃ s : PollHistory Nat, Lib.guardedExec step Allowed {} bothDirections = some s ∧
      s.poller.interest 5 = some { epollout := true } ∧ s.registered = [⟨2, 5, .evWrite⟩] ∧
      (∀ fd, s.poller.interest fd = (s.poller.evpairs fd).mask) ∧
      ∀ fd, s.poller.interest fd = watched s.registered fd :=
  ⟨_, rfl, rfl, rfl, (interest_synced bothDirections _ (Lib.GuardedRun.of_exec rfl)).1, fun fd =>
    ((interest_synced bothDirections _ (Lib.GuardedRun.of_exec rfl)).2.2.2 (Lib.GuardedRun.of_exec rfl)
      fd).1⟩

end PollHistory

end Evlite
