import Evlite.Kcp.Packing
import Evlite.Lib.Transducer

/-!
# Calls of KCP

Everything that is called on a control block, with what it returns, what it writes for the
caller and what it passes to the network. The datagrams that come in are arbitrary.

## Main results

- `calls_refine`: without congestion control, the whole control block answers every sequence of
  calls as the small one does.
-/

namespace Evlite

open Lib (transduce)

/-! ## Calls -/

inductive KcpCall where
  /-- `ikcp_send` -/
  | send (buffer : List UInt8) (len : Int)
  /-- `ikcp_recv` -/
  | recv (len : Nat)
  /-- `ikcp_input` -/
  | input (data : List UInt8)
  /-- `ikcp_update` -/
  | update (current : BitVec 32)
  /-- `ikcp_flush` -/
  | flush
  /-- `ikcp_setmtu` -/
  | setmtu (mtu : BitVec 32)
  /-- `ikcp_wndsize` -/
  | wndsize (sndwnd rcvwnd : BitVec 32)
  /-- `ikcp_nodelay` -/
  | nodelay (nodelay interval resend nc : Int)
  /-- `ikcp_interval` -/
  | interval (interval : Int)
  /-- `driver_set_minrto` -/
  | minrto (minrto : BitVec 32)
deriving DecidableEq, Repr

/-- The call gives a datagram to the control block. -/
def KcpCall.isInput : KcpCall → Bool
  | .input _ => true
  | _ => false

/-- The call is one of those that set options. -/
def KcpCall.isOption : KcpCall → Bool
  | .setmtu _ | .wndsize _ _ | .nodelay _ _ _ _ | .interval _ | .minrto _ => true
  | _ => false

/-- What the caller gets: the result, and what was written to its buffer. -/
structure Answer where
  rc : Int := 0
  bytes : List UInt8 := []
deriving DecidableEq, Repr

/-- `ikcp_setmtu` takes the size. -/
def mtuAccepted (mtu : BitVec 32) : Bool := decide (50 ≤ mtu.toInt)

namespace Kcp

/-- A call of the small control block. -/
def call (kcp : Kcp) : KcpCall → Kcp × Answer
  | .send buffer len => ((kcp.ikcpSend buffer len).1, { rc := (kcp.ikcpSend buffer len).2 })
  | .recv len =>
    ((kcp.ikcpRecv len).1, { rc := (kcp.ikcpRecv len).2.2, bytes := (kcp.ikcpRecv len).2.1 })
  | .input data => ((kcp.ikcpInput data).1, { rc := (kcp.ikcpInput data).2 })
  | .update current => (kcp.ikcpUpdate current, {})
  | .flush => (kcp.ikcpFlush, {})
  | .setmtu mtu => (kcp.ikcpSetmtu mtu.toInt, { rc := if mtuAccepted mtu then 0 else -1 })
  | .wndsize sndwnd rcvwnd => (kcp.ikcpWndsize sndwnd.toInt rcvwnd.toInt, {})
  | .nodelay _ interval _ _ =>
    (if 0 ≤ interval then { kcp with interval := Ikcpcb.boundInterval interval } else kcp, {})
  | .interval interval => ({ kcp with interval := Ikcpcb.boundInterval interval }, {})
  | .minrto _ => (kcp, {})

end Kcp

namespace Ikcpcb

/-- A call of the whole control block. -/
def call (cb : Ikcpcb) : KcpCall → Ikcpcb × Answer
  | .send buffer len => ((cb.ikcpSend buffer len).1, { rc := (cb.ikcpSend buffer len).2 })
  | .recv len =>
    ((cb.ikcpRecv len).1, { rc := (cb.ikcpRecv len).2.2, bytes := (cb.ikcpRecv len).2.1 })
  | .input data => ((cb.ikcpInput data).1, { rc := (cb.ikcpInput data).2 })
  | .update current => ((cb.ikcpUpdate current).1, {})
  | .flush => (cb.ikcpFlush.1, {})
  | .setmtu mtu => (cb.ikcpSetmtu mtu, { rc := if mtuAccepted mtu then 0 else -1 })
  | .wndsize sndwnd rcvwnd => (cb.ikcpWndsize sndwnd rcvwnd, {})
  | .nodelay nodelay interval resend nc => (cb.ikcpNodelay nodelay interval resend nc, {})
  | .interval interval => (cb.ikcpInterval interval, {})
  | .minrto minrto => (cb.driverSetMinrto minrto, {})

/-- The datagrams that a call passes to the network. -/
def output (cb : Ikcpcb) : KcpCall → List (List UInt8)
  | .update current => (cb.ikcpUpdate current).2
  | .flush => cb.ikcpFlush.2
  | _ => []

/-- No other call touches the options. -/
theorem settings_call (cb : Ikcpcb) {c : KcpCall} (hc : c.isOption = false) :
    (cb.call c).1.settings = cb.settings := by
  cases c with
  | send buffer len => exact settings_ikcpSend cb buffer len
  | recv len => exact settings_ikcpRecv cb len
  | input data => exact settings_ikcpInput cb data
  | update current => exact settings_ikcpUpdate cb current
  | flush => exact settings_ikcpFlush cb
  | _ => cases hc

/-! ## Congestion control -/

/-- The call leaves congestion control switched off, as `driver_create` does. -/
def KeepsNocwnd : KcpCall → Prop
  | .nodelay _ _ _ nc => nc ≠ 0
  | _ => True

theorem nocwnd_call {cb : Ikcpcb} (hnocwnd : cb.nocwnd ≠ 0) {c : KcpCall} (hc : KeepsNocwnd c) :
    (cb.call c).1.nocwnd ≠ 0 := by
  have hsettings : c.isOption = false → (cb.call c).1.nocwnd ≠ 0 := by
    intro hno
    have hsame : (cb.call c).1.nocwnd = cb.nocwnd :=
      congrArg Settings.nocwnd (cb.settings_call hno)
    rwa [hsame]
  cases c with
  | setmtu mtu =>
    show (cb.ikcpSetmtu mtu).nocwnd ≠ 0
    unfold ikcpSetmtu
    split <;> exact hnocwnd
  | wndsize sndwnd rcvwnd =>
    show (cb.ikcpWndsize sndwnd rcvwnd).nocwnd ≠ 0
    unfold ikcpWndsize
    dsimp only
    split <;> split <;> exact hnocwnd
  | nodelay nodelay interval resend nc =>
    -- only `ikcp_nodelay` touches it
    have hnc : nc ≠ 0 := hc
    show (cb.ikcpNodelay nodelay interval resend nc).nocwnd ≠ 0
    unfold ikcpNodelay
    dsimp only
    split
    · show nc.toNat ≠ 0
      omega
    · repeat' split
      all_goals exact hnocwnd
  | interval interval => exact hnocwnd
  | minrto minrto => exact hnocwnd
  | _ => exact hsettings rfl

theorem kcp_ikcpNodelay (cb : Ikcpcb) (nodelay interval resend nc : Int) :
    (cb.ikcpNodelay nodelay interval resend nc).kcp =
      if 0 ≤ interval then { cb.kcp with interval := boundInterval interval } else cb.kcp := by
  unfold ikcpNodelay
  dsimp only
  repeat' split
  all_goals rfl

/-- A call on the whole control block is one on the small one. -/
theorem kcp_call {cb : Ikcpcb} (hnocwnd : cb.nocwnd ≠ 0) (c : KcpCall) :
    ((cb.call c).1.kcp, (cb.call c).2) = cb.kcp.call c := by
  cases c with
  | send buffer len => exact Prod.ext (kcp_ikcpSend cb buffer len) rfl
  | recv len => exact Prod.ext (kcp_ikcpRecv cb len) rfl
  | input data =>
    obtain ⟨hstate, hrc⟩ := cb.kcp_ikcpInput data
    exact Prod.ext hstate (congrArg (fun rc => ({ rc := rc } : Answer)) hrc)
  | update current => exact Prod.ext (kcp_ikcpUpdate hnocwnd current) rfl
  | flush => exact Prod.ext (kcp_ikcpFlush hnocwnd) rfl
  | setmtu mtu => exact Prod.ext (kcp_ikcpSetmtu cb mtu) rfl
  | wndsize sndwnd rcvwnd => exact Prod.ext (kcp_ikcpWndsize cb sndwnd rcvwnd) rfl
  | nodelay nodelay interval resend nc =>
    exact Prod.ext (cb.kcp_ikcpNodelay nodelay interval resend nc) rfl
  | interval interval => rfl
  | minrto minrto => rfl

/-- Without congestion control, the whole control block answers every sequence of calls as the
small one does, whatever its timers, its window and its estimates are. -/
theorem calls_refine {cb : Ikcpcb} (hnocwnd : cb.nocwnd ≠ 0) {cs : List KcpCall}
    (hcs : ∀ c ∈ cs, KeepsNocwnd c) :
    ((transduce call cb cs).1.kcp, (transduce call cb cs).2) = transduce Kcp.call cb.kcp cs :=
  Lib.transduce_refines kcp (fun _ _ hs hc => nocwnd_call hs hc)
    (fun _ c hs _ => kcp_call hs c) hnocwnd hcs

/-- A connection that sends a message. -/
theorem calls_refine_send :
    ((transduce call (driverCreate 7 {}) [.update 0, .send [1, 2] 2, .flush]).1.kcp,
        (transduce call (driverCreate 7 {}) [.update 0, .send [1, 2] 2, .flush]).2) =
      transduce Kcp.call (driverCreate 7 {}).kcp [.update 0, .send [1, 2] 2, .flush] :=
  calls_refine (by decide) (by
    intro c hc
    simp only [List.mem_cons, List.not_mem_nil, or_false] at hc
    rcases hc with rfl | rfl | rfl <;> trivial)

end Ikcpcb

end Evlite
