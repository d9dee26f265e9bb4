import Evlite.Kcp.Receive
import Evlite.Kcp.Send
import Mathlib.Tactic.Simps.Basic

/-!
# The Whole Control Block

`struct IKCPCB` with everything that decides when a segment is sent: the estimate of the
round-trip time, the timers and counters of each segment in flight, the probes of the window
and the congestion window. `Ikcpcb.kcp` forgets them again and leaves the queues, the sequence
numbers and the windows.

The numbers of `ikcp.h` are 32 bits wide and wrap around, the signed ones too. What logging,
the allocator hooks and `user` hold is left out, as are `ts_recent` and `ts_lastack`, which are
never read.

## Main results

- `kcp_ikcpRecv`, `kcp_ikcpSend`: receiving and sending are those of `Kcp`.
-/

namespace Evlite

/-! ## Constants -/

/-- `IKCP_RTO_NDL` -/
def ikcpRtoNdl : BitVec 32 := 30

/-- `IKCP_RTO_MIN` -/
def ikcpRtoMin : BitVec 32 := 100

/-- `IKCP_RTO_DEF` -/
def ikcpRtoDef : BitVec 32 := 200

/-- `IKCP_RTO_MAX` -/
def ikcpRtoMax : BitVec 32 := 60000

/-- `IKCP_ASK_SEND` -/
def ikcpAskSend : BitVec 32 := 1

/-- `IKCP_THRESH_INIT` -/
def ikcpThreshInit : BitVec 32 := 2

/-- `IKCP_THRESH_MIN` -/
def ikcpThreshMin : BitVec 32 := 2

/-- `IKCP_PROBE_INIT` -/
def ikcpProbeInit : BitVec 32 := 7000

/-- `IKCP_PROBE_LIMIT` -/
def ikcpProbeLimit : BitVec 32 := 120000

/-! ## Segments in flight -/

/-- `struct IKCPSEG` in `snd_buf`. Its `cmd` is `IKCP_CMD_PUSH`. -/
structure SentSegment extends Segment where
  conv : BitVec 32
  wnd : BitVec 32
  ts : BitVec 32
  una : BitVec 32
  resendts : BitVec 32
  rto : BitVec 32
  fastack : BitVec 32
  xmit : BitVec 32
deriving DecidableEq, Repr

/-- `struct IKCPCB` -/
structure Ikcpcb where
  conv : BitVec 32 := 0
  mtu : Nat := 1400
  mss : Nat := 1376
  /-- `ikcp_create` and `ikcp_setmtu` set both. -/
  mss_eq : mss + ikcpOverhead = mtu := by decide
  /-- `ikcp_setmtu` refuses less. -/
  mtu_min : 50 ≤ mtu := by decide
  /-- It is an `int` there. -/
  mtu_lt : mtu < 2 ^ 31 := by decide
  state : BitVec 32 := 0
  sndUna : BitVec 32 := 0
  sndNxt : BitVec 32 := 0
  rcvNxt : BitVec 32 := 0
  ssthresh : BitVec 32 := ikcpThreshInit
  rxRttval : BitVec 32 := 0
  rxSrtt : BitVec 32 := 0
  rxRto : BitVec 32 := ikcpRtoDef
  rxMinrto : BitVec 32 := ikcpRtoMin
  sndWnd : BitVec 32 := 32
  rcvWnd : BitVec 32 := 128
  /-- "must >= max fragment size" -/
  rcvWnd_min : ikcpWndRcv ≤ rcvWnd.toNat := by decide
  rmtWnd : BitVec 32 := 128
  cwnd : BitVec 32 := 0
  incr : BitVec 32 := 0
  probe : BitVec 32 := 0
  current : BitVec 32 := 0
  interval : BitVec 32 := 100
  tsFlush : BitVec 32 := 100
  xmit : BitVec 32 := 0
  nodelay : Nat := 0
  updated : Bool := false
  tsProbe : BitVec 32 := 0
  probeWait : BitVec 32 := 0
  deadLink : BitVec 32 := 20
  fastresend : Nat := 0
  fastlimit : Int := 5
  nocwnd : Nat := 0
  stream : Bool := false
  sndQueue : List Segment := []
  rcvQueue : List Segment := []
  sndBuf : List SentSegment := []
  rcvBuf : List Segment := []
  acklist : List (BitVec 32 × BitVec 32) := []
deriving DecidableEq, Repr

/-- `_imin_` -/
def imin (a b : BitVec 32) : BitVec 32 := if a ≤ b then a else b

/-- `_imax_` -/
def imax (a b : BitVec 32) : BitVec 32 := if b ≤ a then a else b

/-- `_ibound_` -/
def ibound (lower middle upper : BitVec 32) : BitVec 32 := imin (imax lower middle) upper

namespace Ikcpcb

theorem mss_pos (cb : Ikcpcb) : 0 < cb.mss := by
  have heq := cb.mss_eq
  have hmin := cb.mtu_min
  unfold ikcpOverhead at heq
  omega

/-! ## What decides about the data -/

/-- The queues, the sequence numbers and the windows. -/
@[simps] def kcp (cb : Ikcpcb) : Kcp where
  conv := cb.conv
  mss := cb.mss
  mss_pos := cb.mss_pos
  sndUna := cb.sndUna
  sndNxt := cb.sndNxt
  rcvNxt := cb.rcvNxt
  sndWnd := cb.sndWnd
  rcvWnd := cb.rcvWnd
  rmtWnd := cb.rmtWnd
  probe := cb.probe
  current := cb.current
  interval := cb.interval
  tsFlush := cb.tsFlush
  updated := cb.updated
  stream := cb.stream
  sndQueue := cb.sndQueue
  rcvQueue := cb.rcvQueue
  sndBuf := cb.sndBuf.map SentSegment.toSegment
  rcvBuf := cb.rcvBuf
  acklist := cb.acklist

/-- The control block after its receiving side became that of `kcp`. -/
def setReceived (cb : Ikcpcb) (kcp : Kcp) : Ikcpcb :=
  { cb with
    rcvNxt := kcp.rcvNxt, rcvQueue := kcp.rcvQueue, rcvBuf := kcp.rcvBuf, probe := kcp.probe }

/-- `ikcp_peeksize` -/
def ikcpPeeksize (cb : Ikcpcb) : Int := cb.kcp.ikcpPeeksize

/-- `ikcp_recv`, as `Kcp.ikcpRecv` has it. -/
def ikcpRecv (cb : Ikcpcb) (len : Nat) : Ikcpcb × List UInt8 × Int :=
  let r := cb.kcp.ikcpRecv len
  (cb.setReceived r.1, r.2)

/-- `ikcp_send`, as `Kcp.ikcpSend` has it. -/
def ikcpSend (cb : Ikcpcb) (buffer : List UInt8) (len : Int) : Ikcpcb × Int :=
  let r := cb.kcp.ikcpSend buffer len
  ({ cb with sndQueue := r.1.sndQueue }, r.2)

/-- `ikcp_waitsnd` -/
def ikcpWaitsnd (cb : Ikcpcb) : Nat := cb.sndBuf.length + cb.sndQueue.length

/-- What only the options set. -/
structure Settings where
  conv : BitVec 32
  mtu : Nat
  mss : Nat
  rxMinrto : BitVec 32
  sndWnd : BitVec 32
  rcvWnd : BitVec 32
  interval : BitVec 32
  nodelay : Nat
  deadLink : BitVec 32
  fastresend : Nat
  fastlimit : Int
  nocwnd : Nat
  stream : Bool
deriving DecidableEq, Repr

/-- The options of a control block. -/
@[simps] def settings (cb : Ikcpcb) : Settings where
  conv := cb.conv
  mtu := cb.mtu
  mss := cb.mss
  rxMinrto := cb.rxMinrto
  sndWnd := cb.sndWnd
  rcvWnd := cb.rcvWnd
  interval := cb.interval
  nodelay := cb.nodelay
  deadLink := cb.deadLink
  fastresend := cb.fastresend
  fastlimit := cb.fastlimit
  nocwnd := cb.nocwnd
  stream := cb.stream

@[simp] theorem settings_ikcpRecv (cb : Ikcpcb) (len : Nat) :
    (cb.ikcpRecv len).1.settings = cb.settings := rfl

@[simp] theorem settings_ikcpSend (cb : Ikcpcb) (buffer : List UInt8) (len : Int) :
    (cb.ikcpSend buffer len).1.settings = cb.settings := rfl

/-- What the options do not set. -/
structure Traffic where
  conv : BitVec 32
  updated : Bool
  sndUna : BitVec 32
  sndNxt : BitVec 32
  rcvNxt : BitVec 32
  rmtWnd : BitVec 32
  probe : BitVec 32
  sndQueue : List Segment
  rcvQueue : List Segment
  sndBuf : List SentSegment
  rcvBuf : List Segment
  acklist : List (BitVec 32 × BitVec 32)
deriving DecidableEq, Repr

/-- What is under way on a connection. -/
@[simps] def traffic (cb : Ikcpcb) : Traffic where
  conv := cb.conv
  updated := cb.updated
  sndUna := cb.sndUna
  sndNxt := cb.sndNxt
  rcvNxt := cb.rcvNxt
  rmtWnd := cb.rmtWnd
  probe := cb.probe
  sndQueue := cb.sndQueue
  rcvQueue := cb.rcvQueue
  sndBuf := cb.sndBuf
  rcvBuf := cb.rcvBuf
  acklist := cb.acklist

/-! ### The small control block -/

/-- `ikcp_recv` touches nothing but the receiving side. -/
theorem recv_frame (k : Kcp) (len : Nat) :
    (k.ikcpRecv len).1 =
      { k with
        rcvNxt := (k.ikcpRecv len).1.rcvNxt, rcvQueue := (k.ikcpRecv len).1.rcvQueue,
        rcvBuf := (k.ikcpRecv len).1.rcvBuf, probe := (k.ikcpRecv len).1.probe } := by
  unfold Kcp.ikcpRecv
  split
  · rfl
  · split
    · rfl
    · split
      · rfl
      · -- a message is handed over
        dsimp only
        split <;> rfl

/-- `ikcp_parse_data` touches nothing but the receiving side. -/
theorem parseData_frame (k : Kcp) (newseg : Segment) :
    k.ikcpParseData newseg =
      { k with
        rcvNxt := (k.ikcpParseData newseg).rcvNxt, rcvQueue := (k.ikcpParseData newseg).rcvQueue,
        rcvBuf := (k.ikcpParseData newseg).rcvBuf } := by
  unfold Kcp.ikcpParseData
  split
  · rfl
  · split <;> rfl

/-- `ikcp_send` touches nothing but the send queue. -/
theorem send_frame (k : Kcp) (buffer : List UInt8) (len : Int) :
    (k.ikcpSend buffer len).1 = { k with sndQueue := (k.ikcpSend buffer len).1.sndQueue } := by
  have hfragments : ∀ (k : Kcp) (buffer : List UInt8) (sent : Nat),
      (k.sendFragments buffer sent).1 =
        { k with sndQueue := (k.sendFragments buffer sent).1.sndQueue } := by
    intro k buffer sent
    unfold Kcp.sendFragments
    dsimp only
    split
    · split <;> rfl
    · rfl
  unfold Kcp.ikcpSend
  split
  · rfl
  · dsimp only
    split
    · split
      · rfl
      · rw [hfragments]
        rfl
    · split
      · rfl
      · exact hfragments _ _ _

theorem kcp_ikcpRecv (cb : Ikcpcb) (len : Nat) : (cb.ikcpRecv len).1.kcp = (cb.kcp.ikcpRecv len).1 := by
  conv_rhs => rw [recv_frame]
  rfl

theorem kcp_ikcpSend (cb : Ikcpcb) (buffer : List UInt8) (len : Int) :
    (cb.ikcpSend buffer len).1.kcp = (cb.kcp.ikcpSend buffer len).1 := by
  conv_rhs => rw [send_frame]
  rfl

/-! ## Options -/

/-- `ikcp_setmtu` -/
def ikcpSetmtu (cb : Ikcpcb) (mtu : BitVec 32) : Ikcpcb :=
  if h : mtu.toInt < 50 ∨ mtu.toInt < ikcpOverhead then cb
  else
    { cb with
      mtu := mtu.toInt.toNat
      mss := mtu.toInt.toNat - ikcpOverhead
      mss_eq := by unfold ikcpOverhead at *; omega
      mtu_min := by omega
      mtu_lt := by have hlt := mtu.toInt_lt; omega }

/-- The range that `ikcp_interval` and `ikcp_nodelay` keep the interval in. -/
def boundInterval (interval : Int) : BitVec 32 :=
  BitVec.ofInt 32 (if 5000 < interval then 5000 else if interval < 10 then 10 else interval)

/-- `ikcp_interval` -/
def ikcpInterval (cb : Ikcpcb) (interval : Int) : Ikcpcb :=
  { cb with interval := boundInterval interval }

/-- `ikcp_nodelay` -/
def ikcpNodelay (cb : Ikcpcb) (nodelay interval resend nc : Int) : Ikcpcb :=
  let cb :=
    if 0 ≤ nodelay then
      { cb with
        nodelay := nodelay.toNat, rxMinrto := if nodelay = 0 then ikcpRtoMin else ikcpRtoNdl }
    else cb
  let cb := if 0 ≤ interval then { cb with interval := boundInterval interval } else cb
  let cb := if 0 ≤ resend then { cb with fastresend := resend.toNat } else cb
  if 0 ≤ nc then { cb with nocwnd := nc.toNat } else cb

/-- `rcvwnd` is an `int`, but the window is never smaller than the longest message. -/
theorem wndsize_min (rcvwnd : BitVec 32) : ikcpWndRcv ≤ (imax rcvwnd 128).toNat := by
  unfold imax ikcpWndRcv
  split
  · rename_i hle
    exact BitVec.le_def.mp hle
  · decide

/-- `ikcp_wndsize` -/
def ikcpWndsize (cb : Ikcpcb) (sndwnd rcvwnd : BitVec 32) : Ikcpcb :=
  let cb := if 0 < sndwnd.toInt then { cb with sndWnd := sndwnd } else cb
  if 0 < rcvwnd.toInt then
    { cb with rcvWnd := imax rcvwnd 128, rcvWnd_min := wndsize_min rcvwnd }
  else cb

theorem kcp_ikcpSetmtu (cb : Ikcpcb) (mtu : BitVec 32) :
    (cb.ikcpSetmtu mtu).kcp = cb.kcp.ikcpSetmtu mtu.toInt := by
  unfold ikcpSetmtu Kcp.ikcpSetmtu
  split <;> rfl

theorem kcp_ikcpWndsize (cb : Ikcpcb) (sndwnd rcvwnd : BitVec 32) :
    (cb.ikcpWndsize sndwnd rcvwnd).kcp = cb.kcp.ikcpWndsize sndwnd.toInt rcvwnd.toInt := by
  -- an `int` that is positive is the number it is as an unsigned one
  have hrcv : 0 < rcvwnd.toInt → BitVec.ofNat 32 (max rcvwnd.toInt.toNat ikcpWndRcv) = imax rcvwnd 128 := by
    intro hpos
    have hnat : rcvwnd.toInt.toNat = rcvwnd.toNat := by
      rw [BitVec.toInt_eq_toNat_cond] at hpos ⊢
      split at hpos <;> split <;> omega
    rw [hnat]
    unfold imax ikcpWndRcv
    split
    · rename_i hle
      have hmax : 128 ≤ rcvwnd.toNat := BitVec.le_def.mp hle
      rw [Nat.max_eq_left hmax, BitVec.ofNat_toNat, BitVec.setWidth_eq]
    · rename_i hlt
      have hmax : rcvwnd.toNat < 128 := Nat.not_le.mp fun h => hlt (BitVec.le_def.mpr h)
      rw [Nat.max_eq_right (Nat.le_of_lt hmax)]
      rfl
  unfold ikcpWndsize Kcp.ikcpWndsize
  dsimp only
  by_cases hsndwnd : 0 < sndwnd.toInt
  · by_cases hrcvwnd : 0 < rcvwnd.toInt
    · simp only [if_pos hsndwnd, if_pos hrcvwnd, hrcv hrcvwnd, BitVec.ofInt_toInt]
      rfl
    · simp only [if_pos hsndwnd, if_neg hrcvwnd, BitVec.ofInt_toInt]
      rfl
  · by_cases hrcvwnd : 0 < rcvwnd.toInt
    · simp only [if_neg hsndwnd, if_pos hrcvwnd, hrcv hrcvwnd]
      rfl
    · simp only [if_neg hsndwnd, if_neg hrcvwnd]

/-- `driver_set_minrto` -/
def driverSetMinrto (cb : Ikcpcb) (minrto : BitVec 32) : Ikcpcb := { cb with rxMinrto := minrto }

/-- The `options_t` that `driver_create` reads. -/
structure Options where
  mtu : BitVec 32 := 1400
  minrto : BitVec 32 := 30
  sndwnd : BitVec 32 := 64
  rcvwnd : BitVec 32 := 64
  stream : Bool := true
  resend : Int := 2
  deadlink : BitVec 32 := 50
  interval : Int := 40
deriving DecidableEq, Repr

/-- The KCP object of `driver_create`. -/
def driverCreate (conv : BitVec 32) (options : Options) : Ikcpcb :=
  let cb := ((({ conv := conv } : Ikcpcb).ikcpNodelay 1 options.interval options.resend 1).ikcpSetmtu
    options.mtu).ikcpWndsize options.sndwnd options.rcvwnd
  { cb with stream := options.stream, rxMinrto := options.minrto, deadLink := options.deadlink }

/-! ### What the options leave alone -/

@[simp] theorem traffic_ikcpSetmtu (cb : Ikcpcb) (mtu : BitVec 32) :
    (cb.ikcpSetmtu mtu).traffic = cb.traffic := by
  unfold ikcpSetmtu
  split <;> rfl

@[simp] theorem traffic_ikcpNodelay (cb : Ikcpcb) (nodelay interval resend nc : Int) :
    (cb.ikcpNodelay nodelay interval resend nc).traffic = cb.traffic := by
  unfold ikcpNodelay
  dsimp only
  repeat' split
  all_goals rfl

@[simp] theorem traffic_ikcpWndsize (cb : Ikcpcb) (sndwnd rcvwnd : BitVec 32) :
    (cb.ikcpWndsize sndwnd rcvwnd).traffic = cb.traffic := by
  unfold ikcpWndsize
  dsimp only
  split <;> split <;> rfl

/-- A new connection is empty. -/
@[simp] theorem traffic_driverCreate (conv : BitVec 32) (options : Options) :
    (driverCreate conv options).traffic = ({ conv := conv } : Ikcpcb).traffic := by
  have hcreate : (driverCreate conv options).traffic =
      (((({ conv := conv } : Ikcpcb).ikcpNodelay 1 options.interval options.resend 1).ikcpSetmtu
        options.mtu).ikcpWndsize options.sndwnd options.rcvwnd).traffic := rfl
  rw [hcreate, traffic_ikcpWndsize, traffic_ikcpSetmtu, traffic_ikcpNodelay]

end Ikcpcb

end Evlite
