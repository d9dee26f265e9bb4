import Evlite.Kcp.State
import Mathlib.Algebra.Group.Nat.Defs

/-!
# Receiving with KCP

`ikcp_input` takes a datagram apart and keeps the data in order: a segment goes to its place
in the reorder buffer `rcv_buf`, and from there to `rcv_queue` when all segments before it
are there and the window has room. `ikcp_recv` merges the fragments at the head of `rcv_queue`
into a message, and refills the queue from the buffer.

## Main results

- `ikcpPeeksize_eq`: the size that is peeked is that of the merged message.
- `ikcpRecv_complete`: a complete message is handed over.
- `ikcpRecv_shrinks`: and fewer segments are left then.
-/

namespace Evlite

/-! ## Decoding -/

/-- An unsigned number, least significant byte first. -/
def decodeLsb : List UInt8 → Nat
  | [] => 0
  | b :: bytes => b.toNat + 256 * decodeLsb bytes

/-- The head of a segment. -/
structure SegmentHead where
  conv : BitVec 32
  cmd : Nat
  frg : Nat
  wnd : Nat
  ts : BitVec 32
  sn : BitVec 32
  una : BitVec 32
  len : Nat
deriving DecidableEq, Repr

/-- The `ikcp_decode` calls of `ikcp_input`. -/
def decodeHead (data : List UInt8) : SegmentHead where
  conv := BitVec.ofNat 32 (decodeLsb (data.take 4))
  cmd := decodeLsb ((data.drop 4).take 1)
  frg := decodeLsb ((data.drop 5).take 1)
  wnd := decodeLsb ((data.drop 6).take 2)
  ts := BitVec.ofNat 32 (decodeLsb ((data.drop 8).take 4))
  sn := BitVec.ofNat 32 (decodeLsb ((data.drop 12).take 4))
  una := BitVec.ofNat 32 (decodeLsb ((data.drop 16).take 4))
  len := decodeLsb ((data.drop 20).take 4)

namespace Kcp

/-! ## Acknowledgements -/

/-- `ikcp_shrink_buf` -/
def ikcpShrinkBuf (kcp : Kcp) : Kcp :=
  match kcp.sndBuf with
  | seg :: _ => { kcp with sndUna := seg.sn }
  | [] => { kcp with sndUna := kcp.sndNxt }

/-- The loop of `ikcp_parse_ack`. -/
def dropAcked (sn : BitVec 32) : List Segment → List Segment
  | [] => []
  | seg :: segs =>
    if sn = seg.sn then segs
    else if itimediff sn seg.sn < 0 then seg :: segs
    else seg :: dropAcked sn segs

/-- `ikcp_parse_ack` -/
def ikcpParseAck (kcp : Kcp) (sn : BitVec 32) : Kcp :=
  if itimediff sn kcp.sndUna < 0 ∨ 0 ≤ itimediff sn kcp.sndNxt then kcp
  else { kcp with sndBuf := dropAcked sn kcp.sndBuf }

/-- `ikcp_parse_una` -/
def ikcpParseUna (kcp : Kcp) (una : BitVec 32) : Kcp :=
  { kcp with sndBuf := kcp.sndBuf.dropWhile fun seg => 0 < itimediff una seg.sn }

/-- `ikcp_ack_push` -/
def ikcpAckPush (kcp : Kcp) (sn ts : BitVec 32) : Kcp := { kcp with acklist := kcp.acklist ++ [(sn, ts)] }

/-! ## Data -/

/-- The loop of `ikcp_parse_data` over `rcv_buf`, which is walked from its last segment on: the
buffer, last segment first, with the new segment in its place, or `none` if it is a repeat. -/
def insertSegment (newseg : Segment) : List Segment → Option (List Segment)
  | [] => some [newseg]
  | seg :: before =>
    if seg.sn = newseg.sn then none
    else if 0 < itimediff newseg.sn seg.sn then some (newseg :: seg :: before)
    else (insertSegment newseg before).map (seg :: ·)

/-- The loop that moves the available data from `rcv_buf` to `rcv_queue`. -/
def moveAvailable (rcvWnd : BitVec 32) :
    List Segment → List Segment → BitVec 32 → List Segment × List Segment × BitVec 32
  | [], rcvQueue, rcvNxt => ([], rcvQueue, rcvNxt)
  | seg :: rcvBuf, rcvQueue, rcvNxt =>
    if seg.sn = rcvNxt ∧ rcvQueue.length < rcvWnd.toNat then
      moveAvailable rcvWnd rcvBuf (rcvQueue ++ [seg]) (rcvNxt + 1)
    else (seg :: rcvBuf, rcvQueue, rcvNxt)

/-- Move the available data from `rcv_buf` to `rcv_queue`. -/
def refill (kcp : Kcp) : Kcp :=
  let r := moveAvailable kcp.rcvWnd kcp.rcvBuf kcp.rcvQueue kcp.rcvNxt
  { kcp with rcvBuf := r.1, rcvQueue := r.2.1, rcvNxt := r.2.2 }

/-- `ikcp_parse_data` -/
def ikcpParseData (kcp : Kcp) (newseg : Segment) : Kcp :=
  if 0 ≤ itimediff newseg.sn (kcp.rcvNxt + kcp.rcvWnd) ∨ itimediff newseg.sn kcp.rcvNxt < 0 then kcp
  else
    match insertSegment newseg kcp.rcvBuf.reverse with
    | some buf => { kcp with rcvBuf := buf.reverse }.refill
    -- a repeat is dropped
    | none => kcp.refill

/-- What `ikcp_input` does with one segment, `data` being what follows the head. -/
def inputSegment (kcp : Kcp) (head : SegmentHead) (data : List UInt8) : Kcp :=
  let kcp := ({ kcp with rmtWnd := BitVec.ofNat 32 head.wnd }.ikcpParseUna head.una).ikcpShrinkBuf
  if head.cmd = ikcpCmdAck then (kcp.ikcpParseAck head.sn).ikcpShrinkBuf
  else if head.cmd = ikcpCmdPush then
    if itimediff head.sn (kcp.rcvNxt + kcp.rcvWnd) < 0 then
      -- a segment that was received before is acknowledged again
      let kcp := kcp.ikcpAckPush head.sn head.ts
      if 0 ≤ itimediff head.sn kcp.rcvNxt then
        kcp.ikcpParseData { frg := head.frg, sn := head.sn, data := data.take head.len }
      else kcp
    else kcp
  else if head.cmd = ikcpCmdWask then { kcp with probe := kcp.probe ||| ikcpAskTell }
  -- `IKCP_CMD_WINS`
  else kcp

/-- The loop of `ikcp_input`. -/
def inputLoop (kcp : Kcp) (data : List UInt8) : Kcp × Int :=
  if data.length < ikcpOverhead then (kcp, 0)
  else
    let head := decodeHead data
    let rest := data.drop ikcpOverhead
    if head.conv ≠ kcp.conv then (kcp, -1)
    else if rest.length < head.len ∨ 2 ^ 31 ≤ head.len then (kcp, -2)
    else if head.cmd ≠ ikcpCmdPush ∧ head.cmd ≠ ikcpCmdAck ∧ head.cmd ≠ ikcpCmdWask ∧
        head.cmd ≠ ikcpCmdWins then (kcp, -3)
    else inputLoop (kcp.inputSegment head rest) (rest.drop head.len)
termination_by data.length
decreasing_by
  simp only [List.length_drop, ikcpOverhead] at *
  omega

/-- `ikcp_input` -/
def ikcpInput (kcp : Kcp) (data : List UInt8) : Kcp × Int :=
  if data.length < ikcpOverhead then (kcp, -1) else kcp.inputLoop data

/-! ## Messages -/

/-- The fragments of the message at the head of `rcv_queue`, up to the one with number `0`,
and what follows them. -/
def splitMessage : List Segment → List Segment × List Segment
  | [] => ([], [])
  | seg :: segs =>
    if seg.frg = 0 then ([seg], segs)
    else (seg :: (splitMessage segs).1, (splitMessage segs).2)

/-- The loop of `ikcp_peeksize`. -/
def peekLength : List Segment → Nat → Nat
  | [], length => length
  | seg :: segs, length => if seg.frg = 0 then length + seg.len else peekLength segs (length + seg.len)

/-- `ikcp_peeksize` -/
def ikcpPeeksize (kcp : Kcp) : Int :=
  match kcp.rcvQueue with
  | [] => -1
  | seg :: _ =>
    if seg.frg = 0 then seg.len
    else if kcp.rcvQueue.length < seg.frg + 1 then -1
    else peekLength kcp.rcvQueue 0

/-- `ikcp_recv` for a buffer of `len` bytes, which are not peeked at: what is written to the
buffer, and the result. -/
def ikcpRecv (kcp : Kcp) (len : Nat) : Kcp × List UInt8 × Int :=
  if kcp.rcvQueue = [] then (kcp, [], -1)
  else if kcp.ikcpPeeksize < 0 then (kcp, [], -2)
  else if len < kcp.ikcpPeeksize then (kcp, [], -3)
  else
    let recover := decide (kcp.rcvWnd.toNat ≤ kcp.rcvQueue.length)
    -- merge fragment
    let r := splitMessage kcp.rcvQueue
    let buffer := (r.1.map Segment.data).flatten
    -- move available data from rcv_buf -> rcv_queue
    let kcp := { kcp with rcvQueue := r.2 }.refill
    -- fast recover
    let kcp :=
      if kcp.rcvQueue.length < kcp.rcvWnd.toNat ∧ recover then
        { kcp with probe := kcp.probe ||| ikcpAskTell }
      else kcp
    (kcp, buffer, buffer.length)

/-- The message at the head of `rcv_queue`. -/
def message (kcp : Kcp) : List UInt8 := ((splitMessage kcp.rcvQueue).1.map Segment.data).flatten

/-- The number of segments that are received and not handed over. -/
def received (kcp : Kcp) : Nat := kcp.rcvQueue.length + kcp.rcvBuf.length

theorem splitMessage_append (segs : List Segment) :
    (splitMessage segs).1 ++ (splitMessage segs).2 = segs := by
  induction segs with
  | nil => rfl
  | cons seg segs ih =>
    unfold splitMessage
    split
    · rfl
    · rw [List.cons_append, ih]

theorem splitMessage_shorter {segs : List Segment} (h : segs ≠ []) :
    (splitMessage segs).2.length < segs.length := by
  have hlength := congrArg List.length (splitMessage_append segs)
  rw [List.length_append] at hlength
  -- the first segment always belongs to the message
  have hfirst : 0 < (splitMessage segs).1.length := by
    cases segs with
    | nil => exact absurd rfl h
    | cons seg segs =>
      unfold splitMessage
      split <;> exact Nat.succ_pos _
  omega

theorem peekLength_eq (segs : List Segment) (length : Nat) :
    peekLength segs length = length + ((splitMessage segs).1.map Segment.data).flatten.length := by
  induction segs generalizing length with
  | nil => rfl
  | cons seg segs ih =>
    unfold peekLength splitMessage
    split
    · simp [Segment.len]
    · rw [ih]
      simp [Segment.len]
      omega

/-- A size that is not negative is that of the message. -/
theorem ikcpPeeksize_eq {kcp : Kcp} (h : 0 ≤ kcp.ikcpPeeksize) :
    kcp.ikcpPeeksize = kcp.message.length := by
  unfold ikcpPeeksize message at *
  cases hqueue : kcp.rcvQueue with
  | nil =>
    rw [hqueue] at h
    exact absurd h (by decide)
  | cons seg segs =>
    rw [hqueue] at h
    dsimp only at h ⊢
    split
    · -- the message is a single segment
      rename_i hlast
      simp [splitMessage, hlast, Segment.len]
    · -- the fragments are added up
      rename_i hmore
      rw [if_neg hmore] at h
      split
      · rename_i hfew
        rw [if_pos hfew] at h
        exact absurd h (by decide)
      · rw [peekLength_eq, Nat.zero_add]

theorem rcvQueue_ne_nil {kcp : Kcp} (h : 0 ≤ kcp.ikcpPeeksize) : kcp.rcvQueue ≠ [] := by
  intro hnil
  rw [ikcpPeeksize, hnil] at h
  exact absurd h (by decide)

theorem moveAvailable_length (rcvWnd : BitVec 32) (rcvBuf rcvQueue : List Segment) (rcvNxt : BitVec 32) :
    (moveAvailable rcvWnd rcvBuf rcvQueue rcvNxt).2.1.length +
      (moveAvailable rcvWnd rcvBuf rcvQueue rcvNxt).1.length = rcvQueue.length + rcvBuf.length := by
  induction rcvBuf generalizing rcvQueue rcvNxt with
  | nil => rfl
  | cons seg rcvBuf ih =>
    unfold moveAvailable
    split
    · rw [ih, List.length_append, List.length_singleton, List.length_cons]
      omega
    · rfl

@[simp] theorem refill_received (kcp : Kcp) : kcp.refill.received = kcp.received :=
  moveAvailable_length kcp.rcvWnd kcp.rcvBuf kcp.rcvQueue kcp.rcvNxt

/-- A complete message is handed over as a whole to a buffer of its size. -/
theorem ikcpRecv_complete {kcp : Kcp} (h : 0 ≤ kcp.ikcpPeeksize) :
    (kcp.ikcpRecv kcp.message.length).2 = (kcp.message, (kcp.message.length : Int)) := by
  have hsize := ikcpPeeksize_eq h
  unfold ikcpRecv
  rw [if_neg (rcvQueue_ne_nil h), if_neg (Int.not_lt.mpr h), if_neg (by rw [hsize]; omega)]
  rfl

/-- The segments of a message that is handed over are gone. -/
theorem ikcpRecv_shrinks {kcp : Kcp} (h : 0 ≤ kcp.ikcpPeeksize) :
    (kcp.ikcpRecv kcp.message.length).1.received < kcp.received := by
  have hsize := ikcpPeeksize_eq h
  have hless := splitMessage_shorter (rcvQueue_ne_nil h)
  -- the refill moves segments only
  have htaken : { kcp with rcvQueue := (splitMessage kcp.rcvQueue).2 }.refill.received <
      kcp.received := by
    rw [refill_received]
    unfold received
    dsimp only
    omega
  unfold ikcpRecv
  rw [if_neg (rcvQueue_ne_nil h), if_neg (Int.not_lt.mpr h), if_neg (by rw [hsize]; omega)]
  dsimp only
  split
  · exact htaken
  · exact htaken

end Kcp

end Evlite
