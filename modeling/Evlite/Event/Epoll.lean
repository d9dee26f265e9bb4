import Evlite.Event.View
import Mathlib.Algebra.Group.Nat.Defs
import Mathlib.Logic.Function.Basic

/-!
# The epoll Back End

`epoll.c` emulates the read and write events of the library over an interface that knows only
descriptors: for each descriptor it keeps a pair of events, and the mask in the kernel is the
union of what the pair waits for. `ε` is the type of the addresses of events.

`epoll_ctl` fails with `ENOENT` or `EEXIST` as the interest list of the kernel says, and for
lack of resources where the input says so.

## Main results

- `epollAdd_write`, `epollDel_write`: a write event comes and goes beside a read event.
- `epollReport_write`: what a report of `EPOLLOUT` activates.
-/

namespace Evlite

/-! ## The kernel -/

/-- `EPOLLIN` and `EPOLLOUT`, in `epoll_event.events`. -/
structure EpollMask where
  epollin : Bool := false
  epollout : Bool := false
deriving DecidableEq, Repr

/-- The interest list of an epoll descriptor. -/
abbrev Interest := Nat → Option EpollMask

inductive CtlOp where
  | add
  | mod
  | del
deriving DecidableEq, Repr

/-- `errno` after `epoll_ctl`. -/
inductive CtlError where
  | eexist
  | enoent
  | enospc
deriving DecidableEq, Repr

/-- `epoll_ctl`; `full` says that the kernel cannot watch another descriptor. -/
def epollCtl (full : Bool) (interest : Interest) (op : CtlOp) (fd : Nat) (mask : EpollMask) :
    Except CtlError Interest :=
  match op, interest fd with
  | .add, some _ => .error .eexist
  | .add, none =>
    if full then .error .enospc else .ok (Function.update interest fd (some mask))
  | .mod, none => .error .enoent
  | .mod, some _ => .ok (Function.update interest fd (some mask))
  | .del, none => .error .enoent
  | .del, some _ => .ok (Function.update interest fd none)

/-! ## The poller -/

/-- `struct eventpair` -/
structure EventPair (ε : Type) where
  evread : Option ε := none
  evwrite : Option ε := none
deriving DecidableEq, Repr

/-- `struct epoller`, with what the kernel keeps for `epollfd`. -/
structure Epoller (ε : Type) where
  npairs : Nat
  evpairs : Nat → EventPair ε
  interest : Interest

/-- What `epoll_wait` reports of a descriptor. -/
structure Ready where
  /-- `EPOLLHUP` or `EPOLLERR` -/
  failed : Bool := false
  /-- `EPOLLIN` or `EPOLLPRI` -/
  readable : Bool := false
  /-- `EPOLLOUT` -/
  writable : Bool := false
deriving DecidableEq, Repr

/-- `INIT_EVENTS` -/
def initEvents : Nat := 1024

/-- The loop of `epoll_insert`. -/
def growPairs (max : Nat) : Nat → Nat → Nat
  | 0, npairs => npairs
  | fuel + 1, npairs => if npairs ≤ max then growPairs max fuel (npairs <<< 1) else npairs

namespace Epoller

variable {ε : Type}

/-- `epoll_init` -/
def epollInit : Epoller ε where
  npairs := initEvents
  evpairs _ := {}
  interest _ := none

/-- `epoll_insert`; `grows` is the answer of `realloc`. -/
def epollInsert (self : Epoller ε) (max : Nat) (grows : Bool) : Epoller ε × Int :=
  if grows then
    ({ self with
        npairs := growPairs max (max + 1) self.npairs
        evpairs := fun fd => if fd < self.npairs then self.evpairs fd else {} }, 0)
  else (self, -1)

/-- `epoll_ctl` in `epoll_add`, with the second try. -/
def ctlRetry (full : Bool) (interest : Interest) (op : CtlOp) (fd : Nat) (mask : EpollMask) :
    Except CtlError Interest :=
  match op, epollCtl full interest op fd mask with
  | .mod, .error .enoent => epollCtl full interest .add fd mask
  | .add, .error .eexist => epollCtl full interest .mod fd mask
  | _, answer => answer

/-- `epoll_add` -/
def epollAdd (self : Epoller ε) (ev : ε) (fd : Int) (events : EvMask) (grows full : Bool) :
    Epoller ε × Int :=
  if fd < 0 then (self, -3)
  else
    let fd := fd.toNat
    let (self, rc) := if self.npairs ≤ fd then self.epollInsert fd grows else (self, 0)
    if rc ≠ 0 then (self, -1)
    else
      let pair := self.evpairs fd
      -- what the pair says decides, the kernel is not asked
      let op := if pair.evread.isSome || pair.evwrite.isSome then .mod else .add
      let mask : EpollMask :=
        { epollin := pair.evread.isSome || events.read
          epollout := pair.evwrite.isSome || events.write }
      match ctlRetry full self.interest op fd mask with
      | .error _ => (self, -2)
      | .ok interest =>
        let pair :=
          { evread := if events.read then some ev else pair.evread
            evwrite := if events.write then some ev else pair.evwrite }
        ({ self with interest := interest, evpairs := Function.update self.evpairs fd pair }, 0)

/-- `epoll_del`, for an event with these `fd` and `events`. Which event it is, is not looked
at. -/
def epollDel (self : Epoller ε) (fd : Int) (events : EvMask) : Epoller ε × Int :=
  if self.npairs ≤ fd then (self, -1)
  else
    let fd := fd.toNat
    let pair := self.evpairs fd
    let (op, mask, pair') : CtlOp × EpollMask × EventPair ε :=
      -- one direction goes while the other is still waited for
      if !(events.read && events.write) && events.read && pair.evwrite.isSome then
        (.mod, { epollout := true }, { pair with evread := none })
      else if !(events.read && events.write) && events.write && pair.evread.isSome then
        (.mod, { epollin := true }, { pair with evwrite := none })
      else (.del, { epollin := events.read, epollout := events.write }, {})
    -- the pair is changed first, whatever the kernel answers
    let self := { self with evpairs := Function.update self.evpairs fd pair' }
    match epollCtl false self.interest op fd mask with
    | .error _ => (self, -2)
    | .ok interest => ({ self with interest := interest }, 0)

/-- The calls of `event_active` that `epoll_dispatch` makes for one descriptor. -/
def epollReport (self : Epoller ε) (fd : Int) (what : Ready) : List (ε × EvMask) :=
  if fd < 0 ∨ self.npairs ≤ fd then []
  else
    let pair := self.evpairs fd.toNat
    let evread := if what.failed || what.readable then pair.evread else none
    let evwrite := if what.failed || what.writable then pair.evwrite else none
    (evread.map fun ev => (ev, EvMask.evRead)).toList ++
      (evwrite.map fun ev => (ev, EvMask.evWrite)).toList

end Epoller

/-! ## The table of pairs -/

theorem le_growPairs (max : Nat) : ∀ fuel npairs, npairs ≤ growPairs max fuel npairs := by
  intro fuel
  induction fuel with
  | zero => exact fun npairs => Nat.le_refl npairs
  | succ fuel ih =>
    intro npairs
    unfold growPairs
    split
    · have hle := ih (npairs <<< 1)
      rw [Nat.shiftLeft_eq] at hle ⊢
      omega
    · exact Nat.le_refl npairs

/-- The loop ends with room for the descriptor. -/
theorem lt_growPairs (max : Nat) : ∀ fuel npairs, max < npairs * 2 ^ fuel →
    max < growPairs max fuel npairs := by
  intro fuel
  induction fuel with
  | zero =>
    intro npairs hmax
    rw [Nat.pow_zero, Nat.mul_one] at hmax
    exact hmax
  | succ fuel ih =>
    intro npairs hmax
    unfold growPairs
    split
    · refine ih (npairs <<< 1) ?_
      rw [Nat.shiftLeft_eq, Nat.pow_one, Nat.mul_assoc, ← Nat.pow_succ']
      exact hmax
    · omega

namespace Epoller

variable {ε : Type} {self : Epoller ε} {fd : Nat}

/-- Nothing is lost when the table grows, and the new pairs are empty. -/
theorem epollInsert_keeps (self : Epoller ε) (max : Nat) (grows : Bool) :
    self.npairs ≤ (self.epollInsert max grows).1.npairs ∧
    (self.epollInsert max grows).1.interest = self.interest ∧
    (∀ fd, fd < self.npairs → (self.epollInsert max grows).1.evpairs fd = self.evpairs fd) ∧
    (∀ fd, (self.epollInsert max grows).1.evpairs fd = self.evpairs fd ∨
      (self.epollInsert max grows).1.evpairs fd = {}) ∧
    (0 < self.npairs → (self.epollInsert max grows).2 = 0 →
      max < (self.epollInsert max grows).1.npairs) := by
  unfold epollInsert
  split
  · refine ⟨le_growPairs max _ _, rfl, fun fd hfd => if_pos hfd, fun fd => ?_, ?_⟩
    · by_cases hfd : fd < self.npairs
      · exact .inl (if_pos hfd)
      · exact .inr (if_neg hfd)
    · intro hpos _
      refine lt_growPairs max _ _ ?_
      have hpow : max + 1 < 2 ^ (max + 1) := Nat.lt_two_pow_self
      have hle : 2 ^ (max + 1) ≤ self.npairs * 2 ^ (max + 1) := Nat.le_mul_of_pos_left _ hpos
      omega
  · exact ⟨Nat.le_refl _, rfl, fun _ _ => rfl, fun _ => .inl rfl, fun _ hrc => nomatch hrc⟩

/-- The second try leaves the descriptor in the interest list, and the others as they were. -/
theorem ctlRetry_ok {full : Bool} {interest interest' : Interest} {op : CtlOp} {mask : EpollMask}
    (hop : op ≠ .del) (hok : ctlRetry full interest op fd mask = .ok interest') :
    interest' = Function.update interest fd (some mask) := by
  cases hfd : interest fd with
  | none =>
    cases op with
    | del => exact absurd rfl hop
    | add => cases full <;> simp_all [ctlRetry, epollCtl]
    | mod => cases full <;> simp_all [ctlRetry, epollCtl]
  | some old =>
    cases op with
    | del => exact absurd rfl hop
    | add => simp_all [ctlRetry, epollCtl]
    | mod => simp_all [ctlRetry, epollCtl]

/-- What `later` keeps of `poller`: the room, the pairs and the interest in descriptors other
than `fd`, and the write events; `ev` is the only new read event. -/
structure Keeps (poller later : Epoller ε) (fd : Nat) (ev : ε) : Prop where
  npairs : poller.npairs ≤ later.npairs
  evpairs : ∀ fd', fd' ≠ fd → fd' < poller.npairs → later.evpairs fd' = poller.evpairs fd'
  interest : ∀ fd', fd' ≠ fd → later.interest fd' = poller.interest fd'
  evread : ∀ fd' e, (later.evpairs fd').evread = some e →
    (poller.evpairs fd').evread = some e ∨ e = ev
  evwrite : ∀ fd' e, (later.evpairs fd').evwrite = some e → (poller.evpairs fd').evwrite = some e

/-- A read event is added, or not, and nothing else changes. -/
theorem epollAdd_keeps (self : Epoller ε) (ev : ε) (fd : Nat) {events : EvMask}
    (hread : events.read = true) (hwrite : events.write = false) (grows full : Bool) :
    Keeps self (self.epollAdd ev fd events grows full).1 fd ev ∧
    (0 < self.npairs → (self.epollAdd ev fd events grows full).2 = 0 →
      fd < (self.epollAdd ev fd events grows full).1.npairs ∧
      ((self.epollAdd ev fd events grows full).1.evpairs fd).evread.isSome = true ∧
      ((self.epollAdd ev fd events grows full).1.interest fd).isSome = true) := by
  -- first the table grows if it has to
  have hroom : ∃ room rc, (if self.npairs ≤ fd then self.epollInsert fd grows else (self, 0)) =
      (room, rc) ∧ Keeps self room fd ev ∧ (0 < self.npairs → rc = 0 → fd < room.npairs) := by
    split
    · obtain ⟨hnpairs, hinterest, hpairs, hcases, hlt⟩ := self.epollInsert_keeps fd grows
      refine ⟨(self.epollInsert fd grows).1, (self.epollInsert fd grows).2, rfl,
        ⟨hnpairs, fun fd' _ => hpairs fd', fun fd' _ => congrFun hinterest fd',
          fun fd' e he => ?_, fun fd' e he => ?_⟩, hlt⟩
      · rcases hcases fd' with heq | heq <;> rw [heq] at he
        · exact .inl he
        · exact nomatch he
      · rcases hcases fd' with heq | heq <;> rw [heq] at he
        · exact he
        · exact nomatch he
    · rename_i hlt
      exact ⟨_, _, rfl, ⟨Nat.le_refl _, fun _ _ _ => rfl, fun _ _ => rfl, fun _ _ he => .inl he,
        fun _ _ he => he⟩, fun _ _ => Nat.lt_of_not_le hlt⟩
  obtain ⟨room, rc, hroom, hkeeps, hlt⟩ := hroom
  have hfd : ¬ (fd : Int) < 0 := Int.not_lt.mpr (Int.natCast_nonneg fd)
  simp only [epollAdd, hfd, if_false, Int.toNat_natCast, hroom, hread, hwrite, Bool.or_true,
    Bool.or_false, if_true, Bool.false_eq_true]
  split
  · rename_i hrc
    exact ⟨hkeeps, fun _ hrc' => nomatch hrc'⟩
  rename_i hrc
  split
  · exact ⟨hkeeps, fun _ hrc' => nomatch hrc'⟩
  · rename_i interest hok
    have hinterest := ctlRetry_ok (by split <;> decide) hok
    subst hinterest
    refine ⟨⟨hkeeps.npairs, fun fd' hne hfd' => ?_, fun fd' hne => ?_, fun fd' e he => ?_,
      fun fd' e he => ?_⟩, fun hpos _ => ⟨hlt hpos (not_not.mp hrc), ?_, ?_⟩⟩
    · exact (Function.update_of_ne hne ..).trans (hkeeps.evpairs fd' hne hfd')
    · exact (Function.update_of_ne hne ..).trans (hkeeps.interest fd' hne)
    · by_cases hne : fd' = fd
      · subst hne
        simp only [Function.update_self] at he
        exact .inr (Option.some.inj he).symm
      · simp only [Function.update_of_ne hne] at he
        exact hkeeps.evread fd' e he
    · refine hkeeps.evwrite fd' e ?_
      by_cases hne : fd' = fd
      · subst hne
        simp only [Function.update_self] at he
        exact he
      · simp only [Function.update_of_ne hne] at he
        exact he
    · simp only [Function.update_self, Option.isSome_some]
    · simp only [Function.update_self, Option.isSome_some]

/-! ## The write event of a pair -/

/-- The poller with another write event in the pair of a descriptor. -/
def setEvwrite (self : Epoller ε) (fd : Nat) (ev : Option ε) : Epoller ε :=
  { self with
    interest := Function.update self.interest fd (some ⟨true, ev.isSome⟩)
    evpairs := Function.update self.evpairs fd { self.evpairs fd with evwrite := ev } }

theorem setEvwrite_evwrite (self : Epoller ε) (fd : Nat) (ev : Option ε) :
    ((self.setEvwrite fd ev).evpairs fd).evwrite = ev := by
  simp only [setEvwrite, Function.update_self]

theorem setEvwrite_evpairs_of_ne {fd' : Nat} (hne : fd' ≠ fd) (ev : Option ε) :
    (self.setEvwrite fd ev).evpairs fd' = self.evpairs fd' :=
  Function.update_of_ne hne ..

theorem setEvwrite_evread (self : Epoller ε) (fd : Nat) (ev : Option ε) (fd' : Nat) :
    ((self.setEvwrite fd ev).evpairs fd').evread = (self.evpairs fd').evread := by
  by_cases hne : fd' = fd
  · subst hne
    simp only [setEvwrite, Function.update_self]
  · rw [setEvwrite_evpairs_of_ne hne]

theorem setEvwrite_interest {fd' : Nat} (hmask : (self.interest fd').isSome = true)
    (ev : Option ε) : ((self.setEvwrite fd ev).interest fd').isSome = true := by
  by_cases hne : fd' = fd
  · subst hne
    simp only [setEvwrite, Function.update_self, Option.isSome_some]
  · simp only [setEvwrite, Function.update_of_ne hne]
    exact hmask

/-- Where the descriptor has its pair and its read event, a write event is put beside it. -/
theorem epollAdd_write (hfd : fd < self.npairs) (hread : (self.evpairs fd).evread.isSome = true)
    (hmask : (self.interest fd).isSome = true) (ev : ε) (grows full : Bool) :
    self.epollAdd ev fd .evWrite grows full = (self.setEvwrite fd (some ev), 0) := by
  obtain ⟨mask, hmask⟩ := Option.isSome_iff_exists.mp hmask
  simp [epollAdd, ctlRetry, epollCtl, Nat.not_le.mpr hfd, hread, hmask, EvMask.evWrite, setEvwrite]

/-- It is taken away without a look at whose it is. -/
theorem epollDel_write (hfd : fd < self.npairs) (hread : (self.evpairs fd).evread.isSome = true)
    (hmask : (self.interest fd).isSome = true) :
    self.epollDel fd .evWrite = (self.setEvwrite fd none, 0) := by
  obtain ⟨mask, hmask⟩ := Option.isSome_iff_exists.mp hmask
  simp [epollDel, epollCtl, Nat.not_le.mpr hfd, hread, hmask, EvMask.evWrite, setEvwrite]

/-- Only what is in the pair is activated. -/
theorem mem_epollReport {what : Ready} {report : ε × EvMask}
    (hreport : report ∈ self.epollReport fd what) :
    (self.evpairs fd).evread = some report.1 ∨ (self.evpairs fd).evwrite = some report.1 := by
  unfold epollReport at hreport
  split at hreport
  · exact absurd hreport List.not_mem_nil
  simp only [Int.toNat_natCast, List.mem_append, Option.mem_toList, Option.map_eq_some_iff]
    at hreport
  rcases hreport with ⟨ev, hev, rfl⟩ | ⟨ev, hev, rfl⟩
  · split at hev
    · exact .inl hev
    · exact nomatch hev
  · split at hev
    · exact .inr hev
    · exact nomatch hev

/-- `EPOLLOUT` activates the write event of the pair. -/
theorem epollReport_write (hfd : fd < self.npairs) {what : Ready} (hwritable : what.writable = true)
    {ev : ε} (hpair : (self.evpairs fd).evwrite = some ev) :
    (ev, EvMask.evWrite) ∈ self.epollReport fd what := by
  simp [epollReport, Nat.not_le.mpr hfd, hwritable, hpair]

end Epoller

end Evlite
