import Evlite.Kcp.Transmit
import Mathlib.Data.List.Chain

/-!
# The Time of a Driver

`ikcp_update` is passed the time since the epoch of the driver. Where the timer of the driver
has no event set yet, `event_get_current` reads the clock: this is the time of the epoch, and of
the first update, which puts the timer into the event set of the session. From then on it is
the time the event set remembers (`cache_current`), which `evsets_dispatch` took before it ran
the callbacks.

A run is made of the calls of a driver, the readings of the event set and the time that passes.

## Main results

- `DriverClock.call_current`: KCP has the time that is recorded.
- `updates_monotone_iff`: where updates are less than 2^31 milliseconds apart, the times do not
  go back if and only if the second update does not read an earlier time than the first one.
-/

namespace Evlite

open Lib (GuardedRun Run)

/-- What calls `_kcp_refresh_state`. -/
inductive DriverCall where
  /-- `driver_input` -/
  | input (data : List UInt8)
  /-- `driver_send` -/
  | send (buf : List UInt8)
  /-- `driver_transmit` -/
  | transmit
  /-- `_kcp_timer` -/
  | timer
deriving DecidableEq, Repr

/-- The call, when `_kcp_milliseconds` is `now`. -/
def DriverCall.run (s : KcpSession) (now : BitVec 32) : DriverCall → KcpSession
  | .input data =>
    let r := s.kcp.driverInput now data s.session.inbuffer
    { session := { s.session with inbuffer := r.2.1 }, kcp := r.1 }
  | .send buf => { s with kcp := (s.kcp.driverSend now buf).1 }
  | .transmit => (s.driverTransmit now).1
  | .timer => { s with kcp := s.kcp.kcpRefreshState now }

/-- A session with a driver, the time of its event set, and the clock of the system. -/
structure DriverClock where
  session : KcpSession
  epoch : Int
  /-- `timer->evsets != NULL` -/
  attached : Bool := false
  /-- `SESSION_SCHEDULING` -/
  scheduling : Bool := false
  /-- `cache_current` of the event set; 0 is no time. -/
  cacheCurrent : Int
  /-- What `milliseconds` returns. -/
  clock : Int
  /-- What `ikcp_update` was passed. -/
  updates : List (BitVec 32) := []
  /-- Not a field of the source: the time the driver read last. -/
  lastRead : Int
deriving DecidableEq, Repr

/-- What happens to a driver. -/
inductive DriverEvent where
  /-- Time passes. -/
  | advance (msecs : Nat)
  /-- `_get_current` for something else than the driver. `evsets_dispatch` clears the time that
  is remembered: before it polls, unless an event is active already, and after that. -/
  | getCurrent (clear : Bool)
  | driver (c : DriverCall)
  /-- Whatever the session does without its driver. -/
  | session (session : Session)
deriving DecidableEq, Repr

namespace DriverClock

/-- `_get_current` -/
def getCurrent (s : DriverClock) (clear : Bool) : DriverClock × Int :=
  let cacheCurrent := if clear then 0 else s.cacheCurrent
  let cacheCurrent := if cacheCurrent = 0 then s.clock else cacheCurrent
  ({ s with cacheCurrent := cacheCurrent }, cacheCurrent)

/-- `event_get_current( self->timer )` -/
def eventGetCurrent (s : DriverClock) : DriverClock × Int :=
  if s.attached then s.getCurrent false else (s, s.clock)

/-- `driver_create`, for a new timer, when the clock shows `clock` and the event set remembers
`cacheCurrent`. -/
def driverCreate (session : KcpSession) (clock cacheCurrent : Int) : DriverClock where
  session := session
  epoch := clock
  cacheCurrent := cacheCurrent
  clock := clock
  lastRead := clock

/-- `_kcp_milliseconds` -/
def kcpMilliseconds (s : DriverClock) : DriverClock × BitVec 32 :=
  let r := s.eventGetCurrent
  ({ r.1 with lastRead := r.2 }, BitVec.ofInt 32 (r.2 - s.epoch))

/-- `_kcp_schedule`, which adds the timer to the event set. -/
def kcpSchedule (s : DriverClock) : DriverClock := { s with attached := true, scheduling := true }

/-- A call of the driver. -/
def call (s : DriverClock) (c : DriverCall) : DriverClock :=
  let r := s.kcpMilliseconds
  { r.1 with session := c.run s.session r.2, updates := s.updates ++ [r.2] }.kcpSchedule

/-- One step. The timer only runs while it is scheduled. -/
def step (s : DriverClock) : DriverEvent → Option DriverClock
  | .advance msecs => some { s with clock := s.clock + msecs }
  | .getCurrent clear => some (s.getCurrent clear).1
  | .driver c => if c = .timer ∧ s.scheduling = false then none else some (s.call c)
  | .session session => some { s with session := { s.session with session := session } }

/-! ## What KCP is passed -/

end DriverClock

namespace Kcp

@[simp] theorem ikcpFlush_current (kcp : Kcp) : kcp.ikcpFlush.current = kcp.current := by
  unfold ikcpFlush
  split <;> rfl

@[simp] theorem kcpRefreshState_current (kcp : Kcp) (now : BitVec 32) :
    (kcp.kcpRefreshState now).current = now := by
  unfold kcpRefreshState
  obtain ⟨tsFlush, hrun | hrun⟩ := kcp.ikcpUpdate_cases now
  · rw [hrun, ikcpFlush_current]
  · rw [hrun, ikcpFlush_current, ikcpFlush_current]

end Kcp

/-- Each of the callers refreshes KCP last. -/
theorem DriverCall.run_current (s : KcpSession) (now : BitVec 32) (c : DriverCall) :
    (c.run s now).kcp.current = now := by
  cases c with
  | input data =>
    simp only [run, Kcp.driverInput]
    apply Kcp.kcpRefreshState_current
  | send buf =>
    simp only [run, Kcp.driverSend]
    apply Kcp.kcpRefreshState_current
  | transmit =>
    simp only [run, KcpSession.driverTransmit_eq]
    apply Kcp.kcpRefreshState_current
  | timer =>
    simp only [run]
    apply Kcp.kcpRefreshState_current

namespace DriverClock

/-- What `event_get_current` returns. -/
def current (s : DriverClock) : Int := s.eventGetCurrent.2

/-- What `ikcp_update` is passed now. -/
def update (s : DriverClock) : BitVec 32 := BitVec.ofInt 32 (s.current - s.epoch)

@[simp] theorem call_updates (s : DriverClock) (c : DriverCall) :
    (s.call c).updates = s.updates ++ [s.update] := rfl

@[simp] theorem call_lastRead (s : DriverClock) (c : DriverCall) :
    (s.call c).lastRead = s.current := rfl

/-- KCP has the time that is recorded. -/
theorem call_current (s : DriverClock) (c : DriverCall) :
    (s.call c).session.kcp.current = s.update :=
  DriverCall.run_current _ _ c

/-- `event_get_current` returns the time that is remembered, if there is one and the timer has an
event set, and reads the clock otherwise. -/
theorem current_eq (s : DriverClock) :
    s.current = if s.attached = true ∧ s.cacheCurrent ≠ 0 then s.cacheCurrent else s.clock := by
  unfold current eventGetCurrent getCurrent
  cases s.attached with
  | false => simp
  | true => by_cases hcache : s.cacheCurrent = 0 <;> simp [hcache]

/-! ## Comparing two times -/

/-- The difference of two times as a signed number of 32 bits. -/
theorem itimediff_ofInt (a b : Int) :
    itimediff (BitVec.ofInt 32 b) (BitVec.ofInt 32 a) = (b - a).bmod 4294967296 := by
  unfold itimediff
  rw [BitVec.toInt_sub, BitVec.toInt_ofInt, BitVec.toInt_ofInt]
  simp

/-- Times that are less than 2^31 milliseconds apart are compared as such. -/
theorem itimediff_nonneg_iff {a b : Int} (hlow : -0x80000000 < b - a) (hhigh : b - a < 0x80000000) :
    0 ≤ itimediff (BitVec.ofInt 32 b) (BitVec.ofInt 32 a) ↔ a ≤ b := by
  rw [itimediff_ofInt, Int.bmod_eq_of_le (by omega) (by omega)]
  omega

/-! ## The order of the updates -/

/-- The times KCP was passed do not go back, taken modulo 2^32. -/
def Monotone (s : DriverClock) : Prop := s.updates.IsChain fun a b => 0 ≤ itimediff b a

/-- An update comes less than 2^31 milliseconds after the one before. -/
def Timely (s : DriverClock) : DriverEvent → Prop
  | .driver _ =>
    s.updates ≠ [] → -0x80000000 < s.current - s.lastRead ∧ s.current - s.lastRead < 0x80000000
  | _ => True

/-- The second update does not read an earlier time than the first one. -/
def SecondInTime (s : DriverClock) : DriverEvent → Prop
  | .driver _ => s.updates.length = 1 → s.lastRead ≤ s.current
  | _ => True

instance (s : DriverClock) : (i : DriverEvent) → Decidable (s.Timely i)
  | .driver _ => inferInstanceAs (Decidable (_ → _))
  | .advance _ | .getCurrent _ | .session _ => isTrue trivial

instance (s : DriverClock) : (i : DriverEvent) → Decidable (s.SecondInTime i)
  | .driver _ => inferInstanceAs (Decidable (_ → _))
  | .advance _ | .getCurrent _ | .session _ => isTrue trivial

/-- What holds of the times of a driver in each run. -/
structure Ticking (s : DriverClock) : Prop where
  /-- A time that is remembered is not ahead of the clock. -/
  cacheCurrent : s.cacheCurrent = 0 ∨ s.cacheCurrent ≤ s.clock
  /-- Nor is the time that was read last. -/
  lastRead : s.lastRead ≤ s.clock
  /-- The timer is in the event set from the first update on. -/
  attached : s.attached = true ↔ s.updates ≠ []
  last : ∀ v ∈ s.updates.getLast?, v = BitVec.ofInt 32 (s.lastRead - s.epoch)
  /-- After two updates, the event set does not go back behind the last one. -/
  later : 2 ≤ s.updates.length → s.lastRead ≤ s.current

theorem driverCreate_ticking (session : KcpSession) {clock cacheCurrent : Int}
    (hcache : cacheCurrent = 0 ∨ cacheCurrent ≤ clock) :
    (driverCreate session clock cacheCurrent).Ticking where
  cacheCurrent := hcache
  lastRead := Int.le_refl _
  attached := by simp [driverCreate]
  last := by simp [driverCreate]
  later h := by simp [driverCreate] at h

/-- The event set remembers a time until it is cleared. -/
theorem getCurrent_false_current (s : DriverClock) : (s.getCurrent false).1.current = s.current := by
  rw [current_eq, current_eq]
  unfold getCurrent
  by_cases hcache : s.cacheCurrent = 0
  · by_cases hclock : s.clock = 0 <;> simp [hcache, hclock]
  · simp [hcache]

theorem getCurrent_true_current (s : DriverClock) : (s.getCurrent true).1.current = s.clock := by
  rw [current_eq]
  unfold getCurrent
  simp

/-- Passing time is seen only by those who read the clock. -/
theorem Ticking.advance {s : DriverClock} (h : s.Ticking) (msecs : Nat) :
    Ticking { s with clock := s.clock + msecs } where
  cacheCurrent := by
    have hcache := h.cacheCurrent
    show s.cacheCurrent = 0 ∨ s.cacheCurrent ≤ s.clock + msecs
    omega
  lastRead := by
    have hlast := h.lastRead
    show s.lastRead ≤ s.clock + msecs
    omega
  attached := h.attached
  last := h.last
  later htwo := by
    have hlater := h.later htwo
    rw [current_eq] at hlater ⊢
    show s.lastRead ≤ if s.attached = true ∧ s.cacheCurrent ≠ 0 then s.cacheCurrent else s.clock + msecs
    split
    · rename_i hcached
      rwa [if_pos hcached] at hlater
    · rename_i hlive
      rw [if_neg hlive] at hlater
      omega

theorem Ticking.getCurrent {s : DriverClock} (h : s.Ticking) (clear : Bool) :
    Ticking (s.getCurrent clear).1 where
  cacheCurrent := by
    have hcache := h.cacheCurrent
    unfold DriverClock.getCurrent
    dsimp only
    cases clear with
    | false =>
      by_cases hzero : s.cacheCurrent = 0
      · simp [hzero]
      · simpa [hzero] using hcache
    | true => simp
  lastRead := h.lastRead
  attached := h.attached
  last := h.last
  later htwo := by
    cases clear with
    | false =>
      rw [getCurrent_false_current]
      exact h.later htwo
    | true =>
      rw [getCurrent_true_current]
      exact h.lastRead

/-- The event set after the driver has read the time. -/
theorem call_eq (s : DriverClock) (c : DriverCall) :
    (s.call c).clock = s.clock ∧ (s.call c).epoch = s.epoch ∧ (s.call c).attached = true ∧
      (s.call c).cacheCurrent =
        if s.attached = true then (s.getCurrent false).1.cacheCurrent else s.cacheCurrent := by
  unfold call kcpSchedule kcpMilliseconds eventGetCurrent
  cases s.attached with
  | false => simp
  | true => simp [DriverClock.getCurrent]

/-- A time that an attached driver reads stays that of its event set. -/
theorem call_current_of_attached {s : DriverClock} (c : DriverCall) (h : s.attached = true) :
    (s.call c).current = s.current := by
  obtain ⟨hclock, -, hattached, hcache⟩ := call_eq s c
  rw [if_pos h] at hcache
  rw [← getCurrent_false_current s, current_eq, current_eq, hclock, hattached, hcache]
  simp [DriverClock.getCurrent, h]

theorem Ticking.call {s : DriverClock} (h : s.Ticking) (c : DriverCall) : Ticking (s.call c) := by
  obtain ⟨hclock, hepoch, hattached, hcache⟩ := call_eq s c
  refine ⟨?_, ?_, ?_, ?_, ?_⟩
  · rw [hclock, hcache]
    split
    · exact (h.getCurrent false).cacheCurrent
    · exact h.cacheCurrent
  · -- what is read is the clock or what the event set remembers
    rw [call_lastRead, hclock, current_eq]
    have hcache := h.cacheCurrent
    split <;> omega
  · rw [hattached, call_updates]
    simp
  · rw [call_updates, call_lastRead, hepoch]
    simp [update]
  · intro htwo
    have hupdates : s.updates ≠ [] := by
      rintro hnil
      simp [hnil] at htwo
    apply Int.le_of_eq
    rw [call_lastRead, call_current_of_attached c (h.attached.mpr hupdates)]

theorem step_ticking {s t : DriverClock} {i : DriverEvent} (h : s.Ticking) (hstep : step s i = some t) :
    t.Ticking := by
  cases i with
  | advance msecs =>
    obtain rfl := Option.some.inj hstep
    exact h.advance msecs
  | getCurrent clear =>
    obtain rfl := Option.some.inj hstep
    exact h.getCurrent clear
  | driver c =>
    simp only [step] at hstep
    split at hstep
    · cases hstep
    · obtain rfl := Option.some.inj hstep
      exact h.call c
  | session session =>
    obtain rfl := Option.some.inj hstep
    refine ⟨h.cacheCurrent, h.lastRead, h.attached, h.last, fun htwo => ?_⟩
    have hlater := h.later htwo
    rw [current_eq] at hlater ⊢
    exact hlater

/-- A call keeps the order of the updates exactly if it is not a second one that comes too early. -/
theorem call_monotone_iff {s : DriverClock} {c : DriverCall} (h : s.Ticking)
    (htimely : s.Timely (.driver c)) :
    (s.call c).Monotone ↔ s.Monotone ∧ s.SecondInTime (.driver c) := by
  unfold Monotone SecondInTime
  rw [call_updates, List.isChain_append]
  by_cases hnil : s.updates = []
  · simp [hnil]
  · -- the new time is compared with the last one
    obtain ⟨v, hv⟩ := Option.ne_none_iff_exists'.mp (mt List.getLast?_eq_none_iff.mp hnil)
    obtain ⟨hlow, hhigh⟩ := htimely hnil
    have hlast : v = BitVec.ofInt 32 (s.lastRead - s.epoch) := h.last v hv
    have horder : 0 ≤ itimediff s.update v ↔ s.lastRead ≤ s.current := by
      rw [hlast]
      unfold update
      rw [itimediff_nonneg_iff (by omega) (by omega)]
      omega
    have hlength : s.updates.length = 1 ∨ 2 ≤ s.updates.length := by
      have hpos := List.length_pos_iff.mpr hnil
      omega
    simp only [hv, List.isChain_singleton, List.head?_cons, Option.mem_some_iff, forall_eq', true_and,
      horder, and_congr_right_iff]
    intro _
    rcases hlength with hone | htwo
    · simp [hone]
    · -- from the third update on, the event set has been read before
      have hlater := h.later htwo
      exact ⟨fun _ _ => hlater, fun _ => hlater⟩

theorem step_monotone_iff {s t : DriverClock} {i : DriverEvent} (h : s.Ticking)
    (htimely : s.Timely i) (hstep : step s i = some t) :
    t.Monotone ↔ s.Monotone ∧ s.SecondInTime i := by
  cases i with
  | driver c =>
    simp only [step] at hstep
    split at hstep
    · cases hstep
    · obtain rfl := Option.some.inj hstep
      exact call_monotone_iff h htimely
  | _ =>
    -- nothing is passed to KCP
    obtain rfl := Option.some.inj hstep
    exact (and_iff_left trivial).symm

/-- In every run of a new driver whose updates are less than 2^31 milliseconds apart, the times
KCP is passed do not go back if and only if the second update does not read an earlier time than
the first one. -/
theorem updates_monotone_iff (session : KcpSession) (clock cacheCurrent : Int) (is : List DriverEvent)
    (t : DriverClock) (hcache : cacheCurrent = 0 ∨ cacheCurrent ≤ clock)
    (hrun : GuardedRun step Timely (driverCreate session clock cacheCurrent) is t) :
    t.Monotone ↔ GuardedRun step SecondInTime (driverCreate session clock cacheCurrent) is t :=
  GuardedRun.final_iff_guarded hrun .nil (driverCreate_ticking session hcache)
    (fun _ _ _ h htimely hstep => step_monotone_iff h htimely hstep)
    fun _ _ _ h _ hstep => step_ticking h hstep

/-- A new driver sends when its session starts and gets the rest of the datagram in the next
dispatch, and its timer runs. -/
theorem updates_monotone_nextDispatch :
    (∃ t, GuardedRun step Timely (driverCreate {} 1005 1000)
      [.driver (.send [7]), .advance 40, .getCurrent true, .driver (.input []), .driver .timer] t ∧
      GuardedRun step SecondInTime (driverCreate {} 1005 1000)
        [.driver (.send [7]), .advance 40, .getCurrent true, .driver (.input []), .driver .timer] t ∧
      t.Monotone) := by
  have hrun : GuardedRun step Timely (driverCreate {} 1005 1000)
      [.driver (.send [7]), .advance 40, .getCurrent true, .driver (.input []), .driver .timer] _ :=
    GuardedRun.of_exec rfl
  have hsecond : GuardedRun step SecondInTime (driverCreate {} 1005 1000)
      [.driver (.send [7]), .advance 40, .getCurrent true, .driver (.input []), .driver .timer] _ :=
    GuardedRun.of_exec rfl
  exact ⟨_, hrun, hsecond, (updates_monotone_iff _ _ _ _ _ (.inr (by decide)) hrun).mpr hsecond⟩

/-- The driver is created 5 milliseconds after the dispatch began. Its session sends when it
starts, and then gets the datagram: the second update is at -5 milliseconds. -/
theorem updates_monotone_sameDispatch_fails :
    ∃ t, Run step (driverCreate {} 1005 1000) [.driver (.send [7]), .driver (.input [])] t ∧
      t.updates = [0, 0xFFFFFFFB] ∧ ¬t.Monotone := by
  refine ⟨_, Lib.run_iff_exec.mpr rfl, rfl, ?_⟩
  unfold Monotone
  decide

end DriverClock

end Evlite
