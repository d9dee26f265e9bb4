import Evlite.Kcp.Wire

/-!
# Acknowledgements and Congestion

The whole of `ikcp_input`. Beside the data it takes, each acknowledgement of a segment gives a
sample of the round-trip time, the segments before the last one that was acknowledged have been
overtaken once more, and an acknowledgement of something new lets the congestion window grow.
These last two steps are left out when the datagram ends in something that is no segment.

## Main results

- `inputLoop_eq`: one segment after another, as for `Kcp`.
- `kcp_ikcpInput`: the queues and the windows are those of `Kcp.ikcpInput`.
-/

namespace Evlite

namespace Ikcpcb

/-! ## Acknowledgements -/

/-- `ikcp_update_ack` -/
def ikcpUpdateAck (cb : Ikcpcb) (rtt : BitVec 32) : Ikcpcb :=
  let cb :=
    if cb.rxSrtt = 0 then { cb with rxSrtt := rtt, rxRttval := rtt.sdiv 2 }
    else
      let delta : Int := (rtt - cb.rxSrtt).toInt.natAbs
      let srtt := (7 * cb.rxSrtt + rtt).sdiv 8
      { cb with
        rxRttval := BitVec.ofInt 32 (((3 * cb.rxRttval).toInt + delta).tdiv 4)
        rxSrtt := if srtt.toInt < 1 then 1 else srtt }
  let rto := cb.rxSrtt + imax cb.interval (4 * cb.rxRttval)
  { cb with rxRto := ibound cb.rxMinrto rto ikcpRtoMax }

/-- `ikcp_shrink_buf` -/
def ikcpShrinkBuf (cb : Ikcpcb) : Ikcpcb :=
  match cb.sndBuf with
  | seg :: _ => { cb with sndUna := seg.sn }
  | [] => { cb with sndUna := cb.sndNxt }

/-- The loop of `ikcp_parse_ack`. -/
def dropAcked (sn : BitVec 32) : List SentSegment → List SentSegment
  | [] => []
  | seg :: segs =>
    if sn = seg.sn then segs
    else if itimediff sn seg.sn < 0 then seg :: segs
    else seg :: dropAcked sn segs

/-- `ikcp_parse_ack` -/
def ikcpParseAck (cb : Ikcpcb) (sn : BitVec 32) : Ikcpcb :=
  if itimediff sn cb.sndUna < 0 ∨ 0 ≤ itimediff sn cb.sndNxt then cb
  else { cb with sndBuf := dropAcked sn cb.sndBuf }

/-- `ikcp_parse_una` -/
def ikcpParseUna (cb : Ikcpcb) (una : BitVec 32) : Ikcpcb :=
  { cb with sndBuf := cb.sndBuf.dropWhile fun seg => 0 < itimediff una seg.sn }

/-- The loop of `ikcp_parse_fastack`. -/
def overtake (sn : BitVec 32) : List SentSegment → List SentSegment
  | [] => []
  | seg :: segs =>
    if itimediff sn seg.sn < 0 then seg :: segs
    else if sn ≠ seg.sn then { seg with fastack := seg.fastack + 1 } :: overtake sn segs
    else seg :: overtake sn segs

/-- `ikcp_parse_fastack` -/
def ikcpParseFastack (cb : Ikcpcb) (sn : BitVec 32) : Ikcpcb :=
  if itimediff sn cb.sndUna < 0 ∨ 0 ≤ itimediff sn cb.sndNxt then cb
  else { cb with sndBuf := overtake sn cb.sndBuf }

/-- `ikcp_ack_push` -/
def ikcpAckPush (cb : Ikcpcb) (sn ts : BitVec 32) : Ikcpcb :=
  { cb with acklist := cb.acklist ++ [(sn, ts)] }

/-- `ikcp_parse_data`, as `Kcp.ikcpParseData` has it. -/
def ikcpParseData (cb : Ikcpcb) (newseg : Segment) : Ikcpcb :=
  cb.setReceived (cb.kcp.ikcpParseData newseg)

/-! ## Input -/

/-- The control block in the loop of `ikcp_input`, and `maxack` if `flag` is set. -/
structure InputState where
  cb : Ikcpcb
  maxack : Option (BitVec 32) := none
deriving DecidableEq, Repr

/-- `maxack` after an acknowledgement of `sn`. -/
def latestAck (sn : BitVec 32) : Option (BitVec 32) → BitVec 32
  | none => sn
  | some maxack => if 0 < itimediff sn maxack then sn else maxack

/-- What `ikcp_input` does with one segment, `data` being what follows the head. -/
def inputSegment (s : InputState) (head : SegmentHead) (data : List UInt8) : InputState :=
  let cb := ({ s.cb with rmtWnd := BitVec.ofNat 32 head.wnd }.ikcpParseUna head.una).ikcpShrinkBuf
  if head.cmd = ikcpCmdAck then
    -- a time stamp from the future is no sample
    let cb :=
      if 0 ≤ itimediff cb.current head.ts then cb.ikcpUpdateAck (cb.current - head.ts) else cb
    { cb := (cb.ikcpParseAck head.sn).ikcpShrinkBuf, maxack := some (latestAck head.sn s.maxack) }
  else if head.cmd = ikcpCmdPush then
    if itimediff head.sn (cb.rcvNxt + cb.rcvWnd) < 0 then
      let cb := cb.ikcpAckPush head.sn head.ts
      if 0 ≤ itimediff head.sn cb.rcvNxt then
        { s with
          cb := cb.ikcpParseData { frg := head.frg, sn := head.sn, data := data.take head.len } }
      else { s with cb := cb }
    else { s with cb := cb }
  else if head.cmd = ikcpCmdWask then { s with cb := { cb with probe := cb.probe ||| ikcpAskTell } }
  -- `IKCP_CMD_WINS`
  else { s with cb := cb }

/-- The loop of `ikcp_input`. -/
def inputLoop (s : InputState) (data : List UInt8) : InputState × Int :=
  if data.length < ikcpOverhead then (s, 0)
  else
    let head := decodeHead data
    let rest := data.drop ikcpOverhead
    if head.conv ≠ s.cb.conv then (s, -1)
    else if rest.length < head.len ∨ 2 ^ 31 ≤ head.len then (s, -2)
    else if head.cmd ≠ ikcpCmdPush ∧ head.cmd ≠ ikcpCmdAck ∧ head.cmd ≠ ikcpCmdWask ∧
        head.cmd ≠ ikcpCmdWins then (s, -3)
    else inputLoop (inputSegment s head rest) (rest.drop head.len)
termination_by data.length
decreasing_by
  simp only [List.length_drop, ikcpOverhead] at *
  omega

/-- The congestion window grows. -/
def growCwnd (cb : Ikcpcb) : Ikcpcb :=
  let mss := BitVec.ofNat 32 cb.mss
  if cb.cwnd < cb.rmtWnd then
    let cb : Ikcpcb :=
      if cb.cwnd < cb.ssthresh then { cb with cwnd := cb.cwnd + 1, incr := cb.incr + mss }
      else
        let incr := if cb.incr < mss then mss else cb.incr
        let incr := incr + (mss * mss / incr + mss / 16)
        if (cb.cwnd + 1) * mss ≤ incr then
          { cb with cwnd := (incr + mss - 1) / (if 0 < mss then mss else 1), incr := incr }
        else { cb with incr := incr }
    if cb.rmtWnd < cb.cwnd then { cb with cwnd := cb.rmtWnd, incr := cb.rmtWnd * mss } else cb
  else cb

/-- What `ikcp_input` does when all segments were taken. -/
def finishInput (s : InputState) (prevUna : BitVec 32) : Ikcpcb :=
  let cb :=
    match s.maxack with
    | some maxack => s.cb.ikcpParseFastack maxack
    | none => s.cb
  if 0 < itimediff cb.sndUna prevUna then cb.growCwnd else cb

/-- `ikcp_input` -/
def ikcpInput (cb : Ikcpcb) (data : List UInt8) : Ikcpcb × Int :=
  if data.length < ikcpOverhead then (cb, -1)
  else
    let r := inputLoop { cb := cb } data
    -- an early return
    if r.2 < 0 then (r.1.cb, r.2) else (finishInput r.1 cb.sndUna, 0)

/-! ## Segment by segment -/

/-- What `ikcp_input` does with one segment. -/
def inputPacket (s : InputState) (p : Packet) : InputState := inputSegment s p.head p.data

theorem inputSegment_take (s : InputState) (head : SegmentHead) (data : List UInt8) :
    inputSegment s head (data.take head.len) = inputSegment s head data := by
  unfold inputSegment
  rw [List.take_take, Nat.min_self]

@[simp] theorem settings_ikcpShrinkBuf (cb : Ikcpcb) :
    cb.ikcpShrinkBuf.settings = cb.settings := by
  unfold ikcpShrinkBuf
  split <;> rfl

@[simp] theorem settings_ikcpParseUna (cb : Ikcpcb) (una : BitVec 32) :
    (cb.ikcpParseUna una).settings = cb.settings := rfl

@[simp] theorem settings_ikcpParseAck (cb : Ikcpcb) (sn : BitVec 32) :
    (cb.ikcpParseAck sn).settings = cb.settings := by
  unfold ikcpParseAck
  split <;> rfl

@[simp] theorem settings_ikcpParseFastack (cb : Ikcpcb) (sn : BitVec 32) :
    (cb.ikcpParseFastack sn).settings = cb.settings := by
  unfold ikcpParseFastack
  split <;> rfl

@[simp] theorem settings_ikcpUpdateAck (cb : Ikcpcb) (rtt : BitVec 32) :
    (cb.ikcpUpdateAck rtt).settings = cb.settings := by
  unfold ikcpUpdateAck
  dsimp only
  split <;> rfl

@[simp] theorem settings_ikcpParseData (cb : Ikcpcb) (newseg : Segment) :
    (cb.ikcpParseData newseg).settings = cb.settings := rfl

@[simp] theorem settings_growCwnd (cb : Ikcpcb) : cb.growCwnd.settings = cb.settings := by
  unfold growCwnd
  dsimp only
  repeat' split
  all_goals rfl

@[simp] theorem settings_inputSegment (s : InputState) (head : SegmentHead) (data : List UInt8) :
    (inputSegment s head data).cb.settings = s.cb.settings := by
  have hstart : (({ s.cb with rmtWnd := BitVec.ofNat 32 head.wnd }.ikcpParseUna
      head.una).ikcpShrinkBuf).settings = s.cb.settings := by
    rw [settings_ikcpShrinkBuf, settings_ikcpParseUna]
    rfl
  unfold inputSegment
  rw [← hstart]
  generalize ({ s.cb with rmtWnd := BitVec.ofNat 32 head.wnd }.ikcpParseUna
    head.una).ikcpShrinkBuf = cb
  dsimp only
  split
  · split <;> simp
  · split
    · split
      · split <;> rfl
      · rfl
    · split <;> rfl

theorem inputSegment_conv (s : InputState) (head : SegmentHead) (data : List UInt8) :
    (inputSegment s head data).cb.conv = s.cb.conv :=
  congrArg Settings.conv (settings_inputSegment s head data)

/-- `ikcp_input` is what it does with one segment, for all that are read. -/
theorem inputLoop_eq (s : InputState) (data : List UInt8) :
    inputLoop s data =
      ((parseDatagram s.cb.conv data).1.foldl inputPacket s, (parseDatagram s.cb.conv data).2) := by
  induction s, data using inputLoop.induct with
  | case1 s data hshort =>
    rw [inputLoop, parseDatagram, if_pos hshort, if_pos hshort]
    rfl
  | case2 s data hlong head hconv =>
    rw [inputLoop, parseDatagram, if_neg hlong, if_neg hlong]
    dsimp only
    rw [if_pos hconv, if_pos hconv]
    rfl
  | case3 s data hlong head rest hconv hlen =>
    rw [inputLoop, parseDatagram, if_neg hlong, if_neg hlong]
    dsimp only
    rw [if_neg hconv, if_pos hlen, if_neg hconv, if_pos hlen]
    rfl
  | case4 s data hlong head rest hconv hlen hcmd =>
    rw [inputLoop, parseDatagram, if_neg hlong, if_neg hlong]
    dsimp only
    rw [if_neg hconv, if_neg hlen, if_pos hcmd, if_neg hconv, if_neg hlen,
      if_pos (not_isCommand.mpr hcmd)]
    rfl
  | case5 s data hlong head rest hconv hlen hcmd ih =>
    rw [inputLoop, parseDatagram, if_neg hlong, if_neg hlong]
    dsimp only
    rw [if_neg hconv, if_neg hlen, if_neg hcmd, if_neg hconv, if_neg hlen,
      if_neg (not_isCommand.not.mpr hcmd), ih, inputSegment_conv, List.foldl_cons]
    -- what follows the segment does not matter to it
    rw [inputPacket, inputSegment_take]

theorem settings_inputPackets (s : InputState) (ps : List Packet) :
    (ps.foldl inputPacket s).cb.settings = s.cb.settings := by
  induction ps generalizing s with
  | nil => rfl
  | cons p ps ih => rw [List.foldl_cons, ih, inputPacket, settings_inputSegment]

@[simp] theorem settings_finishInput (s : InputState) (prevUna : BitVec 32) :
    (finishInput s prevUna).settings = s.cb.settings := by
  unfold finishInput
  dsimp only
  split
  · split
    · rw [settings_growCwnd, settings_ikcpParseFastack]
    · exact settings_ikcpParseFastack _ _
  · split
    · exact settings_growCwnd _
    · rfl

/-- Input does not touch the options. -/
@[simp] theorem settings_ikcpInput (cb : Ikcpcb) (data : List UInt8) :
    (cb.ikcpInput data).1.settings = cb.settings := by
  unfold ikcpInput
  split
  · rfl
  · dsimp only
    rw [inputLoop_eq]
    split
    · exact settings_inputPackets _ _
    · rw [settings_finishInput, settings_inputPackets]

/-! ## The small control block -/

theorem kcp_ikcpShrinkBuf (cb : Ikcpcb) : cb.ikcpShrinkBuf.kcp = cb.kcp.ikcpShrinkBuf := by
  unfold ikcpShrinkBuf Kcp.ikcpShrinkBuf
  cases hbuf : cb.sndBuf with
  | nil => simp [kcp, hbuf]
  | cons seg segs => simp [kcp, hbuf]

theorem map_dropAcked (sn : BitVec 32) (segs : List SentSegment) :
    (dropAcked sn segs).map SentSegment.toSegment =
      Kcp.dropAcked sn (segs.map SentSegment.toSegment) := by
  induction segs with
  | nil => rfl
  | cons seg segs ih =>
    unfold dropAcked
    rw [List.map_cons, Kcp.dropAcked]
    split
    · rfl
    · split
      · rfl
      · rw [List.map_cons, ih]

theorem kcp_ikcpParseAck (cb : Ikcpcb) (sn : BitVec 32) :
    (cb.ikcpParseAck sn).kcp = cb.kcp.ikcpParseAck sn := by
  unfold ikcpParseAck Kcp.ikcpParseAck
  rw [kcp_sndUna, kcp_sndNxt, kcp_sndBuf, ← map_dropAcked]
  split <;> rfl

theorem kcp_ikcpParseUna (cb : Ikcpcb) (una : BitVec 32) :
    (cb.ikcpParseUna una).kcp = cb.kcp.ikcpParseUna una := by
  unfold ikcpParseUna Kcp.ikcpParseUna kcp
  simp only [List.dropWhile_map]
  rfl

theorem map_overtake (sn : BitVec 32) (segs : List SentSegment) :
    (overtake sn segs).map SentSegment.toSegment = segs.map SentSegment.toSegment := by
  induction segs with
  | nil => rfl
  | cons seg segs ih =>
    unfold overtake
    split
    · rfl
    · split
      · rw [List.map_cons, List.map_cons, ih]
      · rw [List.map_cons, List.map_cons, ih]

@[simp] theorem kcp_ikcpParseFastack (cb : Ikcpcb) (sn : BitVec 32) :
    (cb.ikcpParseFastack sn).kcp = cb.kcp := by
  unfold ikcpParseFastack
  split
  · rfl
  · simp only [kcp, map_overtake]

@[simp] theorem kcp_ikcpUpdateAck (cb : Ikcpcb) (rtt : BitVec 32) :
    (cb.ikcpUpdateAck rtt).kcp = cb.kcp := by
  unfold ikcpUpdateAck
  dsimp only
  split <;> rfl

theorem kcp_ikcpParseData (cb : Ikcpcb) (newseg : Segment) :
    (cb.ikcpParseData newseg).kcp = cb.kcp.ikcpParseData newseg := by
  conv_rhs => rw [parseData_frame]
  unfold ikcpParseData setReceived
  have hprobe : (cb.kcp.ikcpParseData newseg).probe = cb.probe := by
    rw [parseData_frame]
    rfl
  rw [hprobe]
  rfl

@[simp] theorem kcp_growCwnd (cb : Ikcpcb) : cb.growCwnd.kcp = cb.kcp := by
  unfold growCwnd
  dsimp only
  repeat' split
  all_goals rfl

/-- The estimate of the round-trip time does not matter to the data. -/
theorem kcp_inputPacket (s : InputState) (p : Packet) :
    (inputPacket s p).cb.kcp = s.cb.kcp.inputPacket p := by
  unfold inputPacket inputSegment Kcp.inputPacket Kcp.inputSegment
  dsimp only
  have hstart : (({ s.cb with rmtWnd := BitVec.ofNat 32 p.head.wnd }.ikcpParseUna
      p.head.una).ikcpShrinkBuf).kcp =
      ({ s.cb.kcp with rmtWnd := BitVec.ofNat 32 p.head.wnd }.ikcpParseUna
        p.head.una).ikcpShrinkBuf := by
    rw [kcp_ikcpShrinkBuf, kcp_ikcpParseUna]
    rfl
  rw [← hstart]
  generalize ({ s.cb with rmtWnd := BitVec.ofNat 32 p.head.wnd }.ikcpParseUna
    p.head.una).ikcpShrinkBuf = cb
  split
  · -- an acknowledgement
    rw [kcp_ikcpShrinkBuf, kcp_ikcpParseAck]
    split
    · rw [kcp_ikcpUpdateAck]
    · rfl
  · split
    · -- data
      rw [kcp_rcvNxt, kcp_rcvWnd]
      have hpush : (cb.ikcpAckPush p.head.sn p.head.ts).kcp = cb.kcp.ikcpAckPush p.head.sn p.head.ts :=
        rfl
      split
      · rw [← hpush, kcp_rcvNxt]
        split
        · exact kcp_ikcpParseData _ _
        · rfl
      · rfl
    · split <;> rfl

theorem kcp_inputPackets (s : InputState) (ps : List Packet) :
    (ps.foldl inputPacket s).cb.kcp = ps.foldl Kcp.inputPacket s.cb.kcp := by
  induction ps generalizing s with
  | nil => rfl
  | cons p ps ih => rw [List.foldl_cons, List.foldl_cons, ih, kcp_inputPacket]

@[simp] theorem kcp_finishInput (s : InputState) (prevUna : BitVec 32) :
    (finishInput s prevUna).kcp = s.cb.kcp := by
  unfold finishInput
  dsimp only
  split
  · split
    · rw [kcp_growCwnd, kcp_ikcpParseFastack]
    · exact kcp_ikcpParseFastack _ _
  · split
    · exact kcp_growCwnd _
    · rfl

/-- The results of `ikcp_input` are not positive. -/
theorem parseDatagram_result (conv : BitVec 32) (data : List UInt8) :
    (parseDatagram conv data).2 ≤ 0 := by
  induction data using parseDatagram.induct conv with
  | case1 data hshort => simp [parseDatagram, hshort]
  | case2 data hlong head hconv =>
    rw [parseDatagram, if_neg hlong]
    dsimp only
    rw [if_pos hconv]
    decide
  | case3 data hlong head rest hconv hlen =>
    rw [parseDatagram, if_neg hlong]
    dsimp only
    rw [if_neg hconv, if_pos hlen]
    decide
  | case4 data hlong head rest hconv hlen hcmd =>
    rw [parseDatagram, if_neg hlong]
    dsimp only
    rw [if_neg hconv, if_neg hlen, if_pos hcmd]
    decide
  | case5 data hlong head rest hconv hlen hcmd ih =>
    rw [parseDatagram, if_neg hlong]
    dsimp only
    rw [if_neg hconv, if_neg hlen, if_neg hcmd]
    exact ih

/-- The queues and the windows are those of `Kcp.ikcpInput`, and so is the result. -/
theorem kcp_ikcpInput (cb : Ikcpcb) (data : List UInt8) :
    (cb.ikcpInput data).1.kcp = (cb.kcp.ikcpInput data).1 ∧
      (cb.ikcpInput data).2 = (cb.kcp.ikcpInput data).2 := by
  unfold ikcpInput Kcp.ikcpInput
  split
  · exact ⟨rfl, rfl⟩
  · dsimp only
    rw [inputLoop_eq, Kcp.inputLoop_eq]
    have hresult := parseDatagram_result cb.conv data
    split
    · exact ⟨kcp_inputPackets _ _, rfl⟩
    · rename_i hall
      have hzero : (parseDatagram cb.conv data).2 = 0 := Int.le_antisymm hresult (Int.not_lt.mp hall)
      refine ⟨?_, hzero.symm⟩
      rw [kcp_finishInput, kcp_inputPackets]
      rfl

end Ikcpcb

end Evlite
