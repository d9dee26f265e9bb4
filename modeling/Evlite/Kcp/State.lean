import Mathlib.Data.List.Basic

/-!
# The KCP Control Block

`struct IKCPCB` and `struct IKCPSEG` (`ikcp.h`) with the four queues of a connection and what
decides about them: the sequence numbers, the windows and the fragment numbers. What only
chooses the time of a retransmission (the round-trip estimate, `resendts`, `fastack`, `xmit`)
is left out, and so is the congestion window, which `driver_create` switches off. A queue is
a list, and its counter `nrcv_que`, `nsnd_que`, `nrcv_buf` or `nsnd_buf` is its length.

Memory for segments is taken to be there. Lengths and sums of lengths are those of an `int`
that does not overflow.
-/

namespace Evlite

/-! ## Constants -/

def ikcpCmdPush : Nat := 81
def ikcpCmdAck : Nat := 82
def ikcpCmdWask : Nat := 83
def ikcpCmdWins : Nat := 84

/-- `IKCP_ASK_TELL` -/
def ikcpAskTell : BitVec 32 := 2

/-- `IKCP_WND_RCV` -/
def ikcpWndRcv : Nat := 128

/-- `IKCP_OVERHEAD` -/
def ikcpOverhead : Nat := 24

/-! ## Segments and the control block -/

/-- `_itimediff` -/
def itimediff (later earlier : BitVec 32) : Int := (later - earlier).toInt

/-- `struct IKCPSEG`. A segment of the send queue has no sequence number yet. -/
structure Segment where
  frg : Nat
  sn : BitVec 32 := 0
  data : List UInt8
deriving DecidableEq, Repr

/-- `seg->len` -/
def Segment.len (seg : Segment) : Nat := seg.data.length

/-- `struct IKCPCB` -/
structure Kcp where
  conv : BitVec 32 := 0
  mss : Nat := 1376
  /-- `assert( kcp->mss > 0 )` -/
  mss_pos : 0 < mss := by decide
  sndUna : BitVec 32 := 0
  sndNxt : BitVec 32 := 0
  rcvNxt : BitVec 32 := 0
  sndWnd : BitVec 32 := 32
  rcvWnd : BitVec 32 := 128
  rmtWnd : BitVec 32 := 128
  probe : BitVec 32 := 0
  current : BitVec 32 := 0
  interval : BitVec 32 := 100
  tsFlush : BitVec 32 := 100
  updated : Bool := false
  stream : Bool := false
  sndQueue : List Segment := []
  rcvQueue : List Segment := []
  sndBuf : List Segment := []
  rcvBuf : List Segment := []
  acklist : List (BitVec 32 × BitVec 32) := []
deriving DecidableEq, Repr

end Evlite
