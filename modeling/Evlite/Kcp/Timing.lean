import Evlite.Kcp.Calls
import Evlite.Kcp.Driver
import Evlite.Lib.Polling
import Evlite.Lib.Serial

/-!
# When to Update

`ikcp_check` says when to call `ikcp_update` again, so that it need not be called all the time.
A flush that is due and a segment that is overdue end the wait, and it is never longer than the
interval.

## Main results

- `check_wait`: nothing is due before the time that `ikcp_check` returns.
- `updates_as_told`: calling `ikcp_update` at every time, and only when told, sends the same.
- `refresh_timeout`: the timeout of the driver's timer.
-/

namespace Evlite

open Lib (transduce)
open Lib.Polling
open Lib.Serial (toInt_add_ofInt toInt_sub_swap)

/-! ## Times -/

/-- The difference to a time some milliseconds later. -/
theorem itimediff_later {now t : BitVec 32} {k : Nat}
    (h : itimediff now t + k < 2 ^ 31) :
    itimediff (now + BitVec.ofNat 32 k) t = itimediff now t + k := by
  unfold itimediff at *
  -- the sum does not wrap around, as the bound says
  have hsub : now + BitVec.ofNat 32 k - t = (now - t) + BitVec.ofInt 32 k := by
    rw [BitVec.ofInt_natCast]
    bv_omega
  have hle := (now - t).le_toInt
  rw [hsub]
  exact toInt_add_ofInt (by omega) h

/-- The difference from a time some milliseconds later. -/
theorem itimediff_earlier {now t : BitVec 32} {k : Nat}
    (h : -2 ^ 31 ≤ itimediff t now - k) :
    itimediff t (now + BitVec.ofNat 32 k) = itimediff t now - k := by
  unfold itimediff at *
  have hsub : t - (now + BitVec.ofNat 32 k) = (t - now) + BitVec.ofInt 32 (-k) := by
    rw [BitVec.ofInt_neg, BitVec.ofInt_natCast]
    bv_omega
  have hlt : (t - now).toInt < 2 ^ 31 := (t - now).toInt_lt
  rw [hsub]
  exact toInt_add_ofInt h (by omega)

namespace Ikcpcb

/-- `ikcp_update` would flush at the time `now`. -/
def FlushDue (cb : Ikcpcb) (now : BitVec 32) : Prop := 0 ≤ (cb.startUpdate now).flushSlap.2

/-- The segment has not been acknowledged in time. -/
def Overdue (now : BitVec 32) (seg : SentSegment) : Prop := itimediff seg.resendts now ≤ 0

/-- How long `ikcp_check` says to wait. -/
def checkWait (cb : Ikcpcb) (now : BitVec 32) : Nat := (cb.ikcpCheck now - now).toNat

/-- `_kcp_refresh_state` at the time `now`, what it passes to the network, and the timeout that
it gives to `_kcp_schedule`. -/
def kcpRefreshState (cb : Ikcpcb) (now : BitVec 32) : Ikcpcb × List (List UInt8) × Int :=
  let updated := cb.ikcpUpdate now
  let flushed := updated.1.ikcpFlush
  (flushed.1, updated.2 ++ flushed.2, itimediff (flushed.1.ikcpCheck now) now)

/-! ## What is due -/

/-- A flush is due on the first update, when it is late, and when the clock has jumped. -/
theorem flushDue_iff (cb : Ikcpcb) (now : BitVec 32) :
    cb.FlushDue now ↔
      cb.updated = false ∨ 0 ≤ itimediff now cb.tsFlush ∨ itimediff now cb.tsFlush < -10000 := by
  unfold FlushDue startUpdate
  -- the first update sets `ts_flush` to the time itself
  cases cb.updated with
  | false => simp [flushSlap, itimediff]
  | true =>
    simp only [if_true, flushSlap, Bool.true_eq_false, false_or]
    split <;> simp only <;> omega

/-- An update that is not due sends nothing and only sets the clock. -/
theorem ikcpUpdate_early {cb : Ikcpcb} {now : BitVec 32} (h : ¬cb.FlushDue now) :
    cb.ikcpUpdate now = ({ cb with current := now }, []) := by
  unfold ikcpUpdate
  dsimp only
  rw [if_neg (show ¬0 ≤ (cb.startUpdate now).flushSlap.2 from h)]
  rw [flushDue_iff, not_or, Bool.not_eq_false] at h
  obtain ⟨hupdated, hslap⟩ := h
  unfold startUpdate flushSlap
  rw [if_pos hupdated]
  dsimp only
  rw [if_neg (by omega)]

/-- The loop of `ikcp_check` stops at a segment that is overdue. -/
theorem checkLoop_eq_none {now : BitVec 32} {segs : List SentSegment} {tmPacket : Int} :
    checkLoop now segs tmPacket = none ↔ ∃ seg ∈ segs, Overdue now seg := by
  induction segs generalizing tmPacket with
  | nil => simp [checkLoop]
  | cons seg segs ih =>
    unfold checkLoop
    dsimp only
    by_cases hdue : itimediff seg.resendts now ≤ 0
    · simp [hdue, Overdue]
    · simp [hdue, Overdue, ih]

/-- And is else the time to the first one that will be. -/
theorem checkLoop_eq_some {now : BitVec 32} {segs : List SentSegment} {tmPacket tm : Int}
    (h : checkLoop now segs tmPacket = some tm) :
    tm ≤ tmPacket ∧ (∀ seg ∈ segs, tm ≤ itimediff seg.resendts now) ∧
      (tm = tmPacket ∨ ∃ seg ∈ segs, tm = itimediff seg.resendts now) ∧ (0 < tmPacket → 0 < tm) := by
  induction segs generalizing tmPacket with
  | nil =>
    obtain rfl : tmPacket = tm := Option.some.inj h
    simp
  | cons seg segs ih =>
    unfold checkLoop at h
    dsimp only at h
    split at h
    · cases h
    · rename_i hdue
      obtain ⟨hle, hall, hone, hpos⟩ := ih h
      refine ⟨?_, ?_, ?_, ?_⟩
      · split at hle <;> omega
      · intro seg' hseg'
        rcases List.mem_cons.mp hseg' with rfl | hseg'
        · split at hle <;> omega
        · exact hall seg' hseg'
      · rcases hone with hone | ⟨seg', hseg', hone⟩
        · split at hone
          · exact .inr ⟨seg, List.mem_cons_self, hone⟩
          · exact .inl hone
        · exact .inr ⟨seg', List.mem_cons_of_mem _ hseg', hone⟩
      · intro htm
        apply hpos
        split <;> omega

/-- `ikcp_check` does not wait for what is due. -/
theorem checkWait_due {cb : Ikcpcb} {now : BitVec 32}
    (h : cb.FlushDue now ∨ ∃ seg ∈ cb.sndBuf, Overdue now seg) : cb.checkWait now = 0 := by
  have hnow : cb.ikcpCheck now = now := by
    unfold ikcpCheck
    cases hupdated : cb.updated with
    | false => rfl
    | true =>
      simp only [Bool.not_true, Bool.false_eq_true, if_false]
      -- where the clock has jumped, `ikcp_check` takes the time itself for `ts_flush`
      have hself : itimediff now now = 0 := by simp [itimediff]
      by_cases hfar : 10000 ≤ itimediff now cb.tsFlush ∨ itimediff now cb.tsFlush < -10000
      · rw [if_pos hfar, if_pos (Int.le_of_eq hself.symm)]
      · rw [if_neg hfar]
        split
        · rfl
        · rcases h with hflush | hseg
          · rw [flushDue_iff, hupdated] at hflush
            simp only [Bool.true_eq_false, false_or] at hflush
            omega
          · rw [checkLoop_eq_none.mpr hseg]
  unfold checkWait
  rw [hnow, BitVec.sub_self]
  rfl

/-- And else waits until something will be, but not longer than the interval. -/
theorem checkWait_eq {cb : Ikcpcb} {now : BitVec 32} (hflush : ¬cb.FlushDue now)
    (hsegs : ¬∃ seg ∈ cb.sndBuf, Overdue now seg) :
    ∃ tm : Nat, cb.checkWait now = min cb.interval.toNat tm ∧ (tm : Int) ≤ -itimediff now cb.tsFlush ∧
      (∀ seg ∈ cb.sndBuf, (tm : Int) ≤ itimediff seg.resendts now) ∧ 0 < tm ∧
      ((tm : Int) = -itimediff now cb.tsFlush ∨
        ∃ seg ∈ cb.sndBuf, (tm : Int) = itimediff seg.resendts now) := by
  have hearly := hflush
  rw [flushDue_iff, not_or, Bool.not_eq_false] at hearly
  obtain ⟨hupdated, hslap⟩ := hearly
  obtain ⟨tmPacket, hloop⟩ : ∃ tmPacket, checkLoop now cb.sndBuf 0x7fffffff = some tmPacket := by
    cases hloop : checkLoop now cb.sndBuf 0x7fffffff with
    | none => exact absurd (checkLoop_eq_none.mp hloop) hsegs
    | some tmPacket => exact ⟨tmPacket, rfl⟩
  obtain ⟨hle, hall, hone, hpos⟩ := checkLoop_eq_some hloop
  -- the flush is late or early by the same amount, as it is not half the circle away
  have hswap : itimediff cb.tsFlush now = -itimediff now cb.tsFlush := by
    apply toInt_sub_swap
    show (-2 ^ 31 : Int) < itimediff now cb.tsFlush
    omega
  -- the sooner of the two
  generalize hminimal : (if tmPacket < itimediff cb.tsFlush now then tmPacket
    else itimediff cb.tsFlush now) = minimal
  have hwait : cb.ikcpCheck now = now +
      if cb.interval ≤ BitVec.ofInt 32 minimal then cb.interval else BitVec.ofInt 32 minimal := by
    unfold ikcpCheck
    rw [hupdated]
    simp only [Bool.not_true, Bool.false_eq_true, if_false]
    rw [if_neg (show ¬(10000 ≤ itimediff now cb.tsFlush ∨ itimediff now cb.tsFlush < -10000) by omega),
      if_neg (show ¬0 ≤ itimediff now cb.tsFlush by omega), hloop]
    dsimp only
    rw [hminimal]
  -- so it is small enough to be read as an `IUINT32`
  have hrange : 0 < minimal ∧ minimal ≤ 0x7fffffff := by
    have hpos' := hpos (by decide)
    rw [← hminimal]
    split <;> omega
  have htoNat : (BitVec.ofInt 32 minimal).toNat = minimal.toNat := by
    rw [BitVec.toNat_ofInt]
    omega
  refine ⟨minimal.toNat, ?_, ?_, ?_, by omega, ?_⟩
  · unfold checkWait
    rw [hwait, BitVec.add_comm, BitVec.add_sub_cancel]
    split
    · rename_i hinterval
      rw [BitVec.le_def, htoNat] at hinterval
      omega
    · rename_i hinterval
      rw [BitVec.le_def, htoNat] at hinterval
      rw [htoNat]
      omega
  · rw [Int.toNat_of_nonneg (by omega), ← hminimal]
    split <;> omega
  · intro seg hseg
    have hle := hall seg hseg
    rw [Int.toNat_of_nonneg (by omega), ← hminimal]
    split <;> omega
  · rw [Int.toNat_of_nonneg (by omega), ← hminimal]
    split
    · rcases hone with hone | ⟨seg, hseg, hone⟩
      · omega
      · exact .inr ⟨seg, hseg, hone⟩
    · exact .inl hswap

/-- Before the time that `ikcp_check` returns nothing is due. At that time something is, unless
the interval has passed. -/
theorem check_wait (cb : Ikcpcb) (now : BitVec 32) :
    (∀ k < cb.checkWait now, ¬cb.FlushDue (now + BitVec.ofNat 32 k) ∧
      ¬∃ seg ∈ cb.sndBuf, Overdue (now + BitVec.ofNat 32 k) seg) ∧
    (cb.checkWait now = cb.interval.toNat ∨ cb.FlushDue (now + BitVec.ofNat 32 (cb.checkWait now)) ∨
      ∃ seg ∈ cb.sndBuf, Overdue (now + BitVec.ofNat 32 (cb.checkWait now)) seg) := by
  by_cases hdue : cb.FlushDue now ∨ ∃ seg ∈ cb.sndBuf, Overdue now seg
  · rw [checkWait_due hdue]
    refine ⟨fun k hk => absurd hk (Nat.not_lt_zero k), .inr ?_⟩
    rwa [show now + BitVec.ofNat 32 0 = now from BitVec.add_zero now]
  · obtain ⟨hflush, hsegs⟩ := not_or.mp hdue
    obtain ⟨tm, hwait, hle, hall, hpos, hone⟩ := checkWait_eq hflush hsegs
    rw [flushDue_iff, not_or, Bool.not_eq_false] at hflush
    obtain ⟨hupdated, hslap⟩ := hflush
    -- both differences change by one with each millisecond, up to the sooner one
    have hlater : ∀ k : Nat, k ≤ tm →
        itimediff (now + BitVec.ofNat 32 k) cb.tsFlush = itimediff now cb.tsFlush + k :=
      fun k hk => itimediff_later (by omega)
    have hearlier : ∀ k : Nat, k ≤ tm → ∀ seg ∈ cb.sndBuf,
        itimediff seg.resendts (now + BitVec.ofNat 32 k) = itimediff seg.resendts now - k := by
      intro k hk seg hseg
      have htm := hall seg hseg
      exact itimediff_earlier (by omega)
    refine ⟨fun k hk => ⟨?_, ?_⟩, ?_⟩
    · rw [flushDue_iff, hupdated, hlater k (by omega)]
      simp only [Bool.true_eq_false, false_or]
      omega
    · rintro ⟨seg, hseg, hover⟩
      have htm := hall seg hseg
      unfold Overdue at hover
      rw [hearlier k (by omega) seg hseg] at hover
      omega
    · rcases Nat.le_total cb.interval.toNat tm with hinterval | hinterval
      · rw [Nat.min_eq_left hinterval] at hwait
        exact .inl hwait
      · rw [Nat.min_eq_right hinterval] at hwait
        rw [hwait]
        right
        rcases hone with hone | ⟨seg, hseg, hone⟩
        · left
          rw [flushDue_iff, hlater tm (Nat.le_refl tm)]
          omega
        · right
          refine ⟨seg, hseg, ?_⟩
          unfold Overdue
          rw [hearlier tm (Nat.le_refl tm) seg hseg]
          omega

/-- `ikcp_check` never says to wait longer than the interval. -/
theorem checkWait_le (cb : Ikcpcb) (now : BitVec 32) : cb.checkWait now ≤ cb.interval.toNat := by
  by_cases hdue : cb.FlushDue now ∨ ∃ seg ∈ cb.sndBuf, Overdue now seg
  · rw [checkWait_due hdue]
    exact Nat.zero_le _
  · obtain ⟨hflush, hsegs⟩ := not_or.mp hdue
    obtain ⟨tm, hwait, -⟩ := checkWait_eq hflush hsegs
    rw [hwait]
    exact Nat.min_le_left _ _

/-! ## Polling -/

/-- `ikcp_update`, `t` milliseconds after `base`, and when it passes what to the network. -/
def updateAt (base : BitVec 32) (cb : Ikcpcb) (t : Nat) : Ikcpcb × List (Nat × List UInt8) :=
  let r := cb.ikcpUpdate (base + BitVec.ofNat 32 t)
  (r.1, r.2.map fun d => (t, d))

/-- How long `ikcp_check` says to wait, `t` milliseconds after `base`. -/
def waitAt (base : BitVec 32) (cb : Ikcpcb) (t : Nat) : Nat :=
  cb.checkWait (base + BitVec.ofNat 32 t)

/-- The control blocks differ at most in the time of the last update. -/
def SameButCurrent (cb cb' : Ikcpcb) : Prop := ∃ current, cb' = { cb with current := current }

theorem updateAt_patient (base : BitVec 32) : Patient (updateAt base) (waitAt base) SameButCurrent where
  refl cb := ⟨cb.current, rfl⟩
  trans := by
    rintro cb cb' cb'' ⟨_, rfl⟩ ⟨current, rfl⟩
    exact ⟨current, rfl⟩
  poll_eq := by
    rintro cb cb' t ⟨current, rfl⟩
    rfl
  early := by
    intro cb t k hk
    -- `k` milliseconds are not over, so that nothing is due
    have htime : base + BitVec.ofNat 32 (t + k) = base + BitVec.ofNat 32 t + BitVec.ofNat 32 k := by
      rw [BitVec.ofNat_add, BitVec.add_assoc]
    obtain ⟨hflush, -⟩ := (cb.check_wait (base + BitVec.ofNat 32 t)).1 k hk
    unfold updateAt
    rw [htime, ikcpUpdate_early hflush]
    exact ⟨rfl, _, rfl⟩

/-- Calling `ikcp_update` at each of `n` milliseconds, and only when `ikcp_check` says so, passes
the same datagrams to the network at the same times, and ends with control blocks that differ at
most in the time of the last update. -/
theorem updates_as_told (base : BitVec 32) (cb : Ikcpcb) (n : Nat) :
    (pollEach (updateAt base) cb 0 n).2 = (pollAsTold (updateAt base) (waitAt base) cb 0 n).2 ∧
      SameButCurrent (pollAsTold (updateAt base) (waitAt base) cb 0 n).1
        (pollEach (updateAt base) cb 0 n).1 :=
  (updateAt_patient base).pollEach_eq_pollAsTold cb 0 n

/-! ## The timer of the driver -/

/-- The interval is one that `ikcp_interval` allows. -/
def BoundedInterval (cb : Ikcpcb) : Prop := 10 ≤ cb.interval.toNat ∧ cb.interval.toNat ≤ 5000

theorem toNat_boundInterval (interval : Int) :
    10 ≤ (boundInterval interval).toNat ∧ (boundInterval interval).toNat ≤ 5000 := by
  unfold boundInterval
  rw [BitVec.toNat_ofInt]
  split
  · decide
  · split
    · decide
    · omega

theorem BoundedInterval.call {cb : Ikcpcb} (h : cb.BoundedInterval) (c : KcpCall) :
    (cb.call c).1.BoundedInterval := by
  -- only options set the interval, and those bound it
  have hsettings : c.isOption = false → (cb.call c).1.BoundedInterval := by
    intro hno
    have hsame : (cb.call c).1.interval = cb.interval :=
      congrArg Settings.interval (cb.settings_call hno)
    unfold BoundedInterval
    rwa [hsame]
  cases c with
  | setmtu mtu =>
    show (cb.ikcpSetmtu mtu).BoundedInterval
    unfold ikcpSetmtu
    split <;> exact h
  | wndsize sndwnd rcvwnd =>
    show (cb.ikcpWndsize sndwnd rcvwnd).BoundedInterval
    unfold ikcpWndsize
    dsimp only
    split <;> split <;> exact h
  | nodelay nodelay interval resend nc =>
    show (cb.ikcpNodelay nodelay interval resend nc).BoundedInterval
    unfold ikcpNodelay
    dsimp only
    repeat' split
    all_goals first
      | exact h
      | exact toNat_boundInterval interval
  | interval interval => exact toNat_boundInterval interval
  | minrto minrto => exact h
  | _ => exact hsettings rfl

theorem boundedInterval_driverCreate (conv : BitVec 32) (options : Options) :
    (driverCreate conv options).BoundedInterval := by
  have hinit : ({ conv := conv } : Ikcpcb).BoundedInterval :=
    (by decide : 10 ≤ (100 : BitVec 32).toNat ∧ (100 : BitVec 32).toNat ≤ 5000)
  exact ((hinit.call (.nodelay 1 options.interval options.resend 1)).call (.setmtu options.mtu)).call
    (.wndsize options.sndwnd options.rcvwnd)

/-- A flush leaves the clocks alone. -/
theorem ikcpFlush_clocks (cb : Ikcpcb) :
    cb.ikcpFlush.1.updated = cb.updated ∧ cb.ikcpFlush.1.tsFlush = cb.tsFlush := by
  cases hupdated : cb.updated with
  | false =>
    rw [ikcpFlush_of_not_updated hupdated]
    exact ⟨hupdated, rfl⟩
  | true =>
    obtain ⟨ssthresh, cwnd, incr, hflush⟩ := ikcpFlush_eq hupdated
    obtain ⟨new, rest, -, ⟨probeWait, tsProbe, hready⟩, -⟩ := cb.flushReady_eq
    rw [hflush]
    show cb.flushReady.updated = true ∧ cb.flushReady.tsFlush = cb.tsFlush
    rw [hready]
    exact ⟨hupdated, rfl⟩

theorem flushDue_ikcpFlush (cb : Ikcpcb) (now : BitVec 32) :
    cb.ikcpFlush.1.FlushDue now ↔ cb.FlushDue now := by
  obtain ⟨hupdated, htsFlush⟩ := cb.ikcpFlush_clocks
  rw [flushDue_iff, flushDue_iff, hupdated, htsFlush]

/-- The next flush is not due yet. -/
theorem nextFlush_not_due {cb : Ikcpcb} (h : cb.BoundedInterval) (hupdated : cb.updated = true)
    (hslap : 0 ≤ itimediff cb.current cb.tsFlush) : ¬cb.nextFlush.FlushDue cb.current := by
  -- the next flush is an interval after the last one, or after now
  obtain ⟨hlow, hhigh⟩ := h
  have hinterval : cb.interval = BitVec.ofNat 32 cb.interval.toNat := by simp
  rw [flushDue_iff]
  unfold nextFlush
  dsimp only
  split
  · -- too late for the one after the last
    have hnext : itimediff cb.current (cb.current + cb.interval) = -cb.interval.toNat := by
      rw [hinterval, itimediff_earlier (by simp [itimediff]; omega)]
      simp [itimediff]
    rw [hupdated, hnext]
    simp only [Bool.true_eq_false, false_or]
    omega
  · rename_i hlate
    have hlt : itimediff cb.current cb.tsFlush < 2 ^ 31 := (cb.current - cb.tsFlush).toInt_lt
    have hnext : itimediff cb.current (cb.tsFlush + cb.interval) =
        itimediff cb.current cb.tsFlush - cb.interval.toNat := by
      rw [hinterval, itimediff_earlier (by simp; omega)]
      simp
    rw [hupdated]
    simp only [Bool.true_eq_false, false_or]
    omega

/-- After an update no flush is due. -/
theorem ikcpUpdate_not_due {cb : Ikcpcb} (h : cb.BoundedInterval) (now : BitVec 32) :
    ¬(cb.ikcpUpdate now).1.FlushDue now := by
  by_cases hdue : cb.FlushDue now
  · have hrun : cb.ikcpUpdate now = (cb.startUpdate now).flushSlap.1.nextFlush.ikcpFlush := by
      unfold ikcpUpdate
      exact if_pos hdue
    rw [hrun, flushDue_ikcpFlush]
    -- a clock that has jumped is set anew
    have hslap : 0 ≤ itimediff (cb.startUpdate now).flushSlap.1.current
        (cb.startUpdate now).flushSlap.1.tsFlush := by
      unfold FlushDue at hdue
      unfold flushSlap at hdue ⊢
      dsimp only at hdue ⊢
      split at hdue
      · rename_i hfar
        rw [if_pos hfar]
        simp [itimediff]
      · rename_i hnear
        rw [if_neg hnear]
        exact hdue
    obtain ⟨tsFlush, hstart⟩ := cb.flushSlap_frame now
    rw [hstart] at hslap ⊢
    have hbounded : { cb with current := now, updated := true, tsFlush := tsFlush }.BoundedInterval := h
    exact nextFlush_not_due hbounded rfl hslap
  · rw [ikcpUpdate_early hdue]
    intro hlater
    rw [flushDue_iff] at hdue hlater
    exact hdue hlater

/-- In every run, whatever the peer sends: the driver's timeout is never negative and at most the
interval, which is never longer than 5000 milliseconds. It is 0 only if a segment is overdue that
has just been sent. Nothing is due before it is over, and then something is, unless the interval
has passed. -/
theorem refresh_timeout (conv : BitVec 32) (options : Options) (cs : List KcpCall)
    (now : BitVec 32) :
    let r := (transduce call (driverCreate conv options) cs).1.kcpRefreshState now
    0 ≤ r.2.2 ∧ r.2.2 ≤ r.1.interval.toNat ∧ r.1.interval.toNat ≤ 5000 ∧
      (r.2.2 = 0 ↔ ∃ seg ∈ r.1.sndBuf, Overdue now seg) ∧
      (∀ k : Nat, (k : Int) < r.2.2 → ¬r.1.FlushDue (now + BitVec.ofNat 32 k) ∧
        ¬∃ seg ∈ r.1.sndBuf, Overdue (now + BitVec.ofNat 32 k) seg) ∧
      (r.2.2 = r.1.interval.toNat ∨ r.1.FlushDue (now + BitVec.ofInt 32 r.2.2) ∨
        ∃ seg ∈ r.1.sndBuf, Overdue (now + BitVec.ofInt 32 r.2.2) seg) := by
  -- the interval is bounded in every run, and after an update no flush is due
  have hbounded : (transduce call (driverCreate conv options) cs).1.BoundedInterval :=
    @Lib.transduce_invariant _ _ _ call BoundedInterval (fun _ => True) (fun _ c h _ => h.call c) _ cs
      (boundedInterval_driverCreate conv options) fun _ _ => trivial
  generalize (transduce call (driverCreate conv options) cs).1 = cb at hbounded
  have hupdate := ikcpUpdate_not_due hbounded now
  rw [← flushDue_ikcpFlush] at hupdate
  have hflushed : ((cb.ikcpUpdate now).1.ikcpFlush).1.BoundedInterval :=
    (hbounded.call (.update now)).call .flush
  unfold kcpRefreshState
  dsimp only
  generalize (cb.ikcpUpdate now).1.ikcpFlush.1 = flushed at hupdate hflushed
  obtain ⟨hlow, hhigh⟩ := hflushed
  have hle := flushed.checkWait_le now
  obtain ⟨hearly, hend⟩ := flushed.check_wait now
  -- the timeout is small, so that it is not negative as an `int32_t`
  have htimeout : itimediff (flushed.ikcpCheck now) now = flushed.checkWait now := by
    show (flushed.ikcpCheck now - now).toInt = ((flushed.ikcpCheck now - now).toNat : Int)
    unfold checkWait at hle
    apply BitVec.toInt_eq_toNat_of_lt
    omega
  rw [htimeout, BitVec.ofInt_natCast]
  refine ⟨Int.natCast_nonneg _, Int.ofNat_le.mpr hle, hhigh, ⟨?_, ?_⟩, ?_, ?_⟩
  · intro hzero
    have hnone : flushed.checkWait now = 0 := Int.ofNat_eq_zero.mp hzero
    -- the interval is not `0`, and what is due later is not due now
    by_contra hsegs
    obtain ⟨tm, hwait, -, -, hpos, -⟩ := checkWait_eq hupdate hsegs
    omega
  · intro hsegs
    rw [checkWait_due (.inr hsegs)]
    rfl
  · intro k hk
    exact hearly k (Int.ofNat_lt.mp hk)
  · exact hend.imp_left (congrArg Int.ofNat)

end Ikcpcb

end Evlite
