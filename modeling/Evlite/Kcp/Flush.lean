import Evlite.Kcp.Input

/-!
# Flushing and the Clock

The whole of `ikcp_flush`, `ikcp_update` and `ikcp_check`. A flush sends the acknowledgements
that are due, then the probes of the window, then the segments in flight that are new, overdue
or overtaken, and packs all of them into datagrams of at most `mtu` bytes.

## Main results

- `kcp_ikcpFlush`, `kcp_ikcpUpdate`: without congestion control, the queues and the windows are
  those of `Kcp`.
-/

namespace Evlite

/-! ## Packing -/

/-- The datagrams that are passed to `kcp->output`, when `buffer` holds what is written to
`kcp->buffer` already: a segment that does not fit any more starts the next datagram. -/
def packInto (mtu : Nat) (buffer : List UInt8) : List Packet → List (List UInt8)
  | [] => if 0 < buffer.length then [buffer] else []
  | p :: ps =>
    if mtu < buffer.length + (ikcpOverhead + p.data.length) then
      -- `ikcp_output` does nothing with an empty buffer
      (if buffer.length = 0 then [] else [buffer]) ++ packInto mtu p.encode ps
    else packInto mtu (buffer ++ p.encode) ps

/-- The datagrams for the segments `ps`. -/
def pack (mtu : Nat) (ps : List Packet) : List (List UInt8) := packInto mtu [] ps

namespace Ikcpcb

/-! ## Acknowledgements and probes -/

/-- `ikcp_wnd_unused` -/
def ikcpWndUnused (cb : Ikcpcb) : BitVec 32 :=
  if cb.rcvQueue.length < cb.rcvWnd.toNat then cb.rcvWnd - BitVec.ofNat 32 cb.rcvQueue.length else 0

/-- The head `seg` of `ikcp_flush`. -/
def flushHead (cb : Ikcpcb) (cmd : Nat) (sn ts : BitVec 32) : SegmentHead where
  conv := cb.conv
  cmd := cmd
  frg := 0
  -- `(IUINT16)seg->wnd`
  wnd := cb.ikcpWndUnused.toNat % 65536
  ts := ts
  sn := sn
  una := cb.rcvNxt
  len := 0

/-- The acknowledgements of a flush. -/
def ackPackets (cb : Ikcpcb) : List Packet :=
  cb.acklist.map fun ack => { head := cb.flushHead ikcpCmdAck ack.1 ack.2, data := [] }

/-- "probe window size (if remote window size equals zero)" -/
def probeWindow (cb : Ikcpcb) : Ikcpcb :=
  if cb.rmtWnd = 0 then
    if cb.probeWait = 0 then
      { cb with probeWait := ikcpProbeInit, tsProbe := cb.current + ikcpProbeInit }
    else if 0 ≤ itimediff cb.current cb.tsProbe then
      let probeWait := if cb.probeWait < ikcpProbeInit then ikcpProbeInit else cb.probeWait
      let probeWait := probeWait + probeWait / 2
      let probeWait := if ikcpProbeLimit < probeWait then ikcpProbeLimit else probeWait
      { cb with
        probeWait := probeWait
        tsProbe := cb.current + probeWait
        probe := cb.probe ||| ikcpAskSend }
    else cb
  else { cb with tsProbe := 0, probeWait := 0 }

/-- The probes of a flush. The head still has the number and the time of the last
acknowledgement. -/
def probePackets (cb : Ikcpcb) (last : BitVec 32 × BitVec 32) : List Packet :=
  (if cb.probe &&& ikcpAskSend ≠ 0 then
    [{ head := cb.flushHead ikcpCmdWask last.1 last.2, data := [] }] else []) ++
  (if cb.probe &&& ikcpAskTell ≠ 0 then
    [{ head := cb.flushHead ikcpCmdWins last.1 last.2, data := [] }] else [])

/-! ## Data -/

/-- `cwnd` of `ikcp_flush` -/
def flushWindow (cb : Ikcpcb) : BitVec 32 :=
  let cwnd := imin cb.sndWnd cb.rmtWnd
  if cb.nocwnd = 0 then imin cb.cwnd cwnd else cwnd

/-- A segment that gets the number `sn`. -/
def newSegment (cb : Ikcpcb) (sn : BitVec 32) (newseg : Segment) : SentSegment where
  frg := newseg.frg
  sn := sn
  data := newseg.data
  conv := cb.conv
  wnd := cb.ikcpWndUnused
  ts := cb.current
  una := cb.rcvNxt
  resendts := cb.current
  rto := cb.rxRto
  fastack := 0
  xmit := 0

/-- The loop of `ikcp_flush` that moves data from `snd_queue` to `snd_buf`. -/
def moveToSend (cb : Ikcpcb) (limit : BitVec 32) :
    List Segment → List SentSegment → BitVec 32 → List Segment × List SentSegment × BitVec 32
  | [], sndBuf, sndNxt => ([], sndBuf, sndNxt)
  | newseg :: sndQueue, sndBuf, sndNxt =>
    if itimediff sndNxt limit < 0 then
      moveToSend cb limit sndQueue (sndBuf ++ [cb.newSegment sndNxt newseg]) (sndNxt + 1)
    else (newseg :: sndQueue, sndBuf, sndNxt)

/-- Number what the window allows. -/
def numberSegments (cb : Ikcpcb) : Ikcpcb :=
  let r := cb.moveToSend (cb.sndUna + cb.flushWindow) cb.sndQueue cb.sndBuf cb.sndNxt
  { cb with sndQueue := r.1, sndBuf := r.2.1, sndNxt := r.2.2 }

/-- `resent` -/
def resent (cb : Ikcpcb) : BitVec 32 :=
  if 0 < cb.fastresend then BitVec.ofNat 32 cb.fastresend else 0xffffffff

/-- `rtomin` -/
def rtomin (cb : Ikcpcb) : BitVec 32 := if cb.nodelay = 0 then cb.rxRto >>> 3 else 0

/-- Why a flush sends a segment. -/
inductive Sending where
  | first
  | timeout
  | fast
deriving DecidableEq, Repr

/-- Why a flush sends `segment`, if it does. -/
def sending (cb : Ikcpcb) (segment : SentSegment) : Option Sending :=
  if segment.xmit = 0 then some .first
  else if 0 ≤ itimediff cb.current segment.resendts then some .timeout
  else if cb.resent ≤ segment.fastack then
    if segment.xmit.toInt ≤ cb.fastlimit ∨ cb.fastlimit ≤ 0 then some .fast else none
  else none

/-- `segment->rto` after a timeout -/
def backoff (cb : Ikcpcb) (rto : BitVec 32) : BitVec 32 :=
  if cb.nodelay = 0 then rto + imax rto cb.rxRto
  else
    let step := if cb.nodelay < 2 then rto else cb.rxRto
    rto + step.sdiv 2

/-- The timer and the counters of a segment that is sent. -/
def retime (cb : Ikcpcb) (segment : SentSegment) : Sending → SentSegment
  | .first =>
    { segment with
      xmit := segment.xmit + 1, rto := cb.rxRto, resendts := cb.current + cb.rxRto + cb.rtomin }
  | .timeout =>
    { segment with
      xmit := segment.xmit + 1
      rto := cb.backoff segment.rto
      resendts := cb.current + cb.backoff segment.rto }
  | .fast =>
    { segment with
      xmit := segment.xmit + 1, fastack := 0, resendts := cb.current + segment.rto }

/-- A segment after a flush. -/
def flushSegment (cb : Ikcpcb) (segment : SentSegment) : SentSegment :=
  match cb.sending segment with
  | some why =>
    { cb.retime segment why with ts := cb.current, wnd := cb.ikcpWndUnused, una := cb.rcvNxt }
  | none => segment

/-- A segment of `snd_buf` as it is sent. -/
def sentPacket (segment : SentSegment) : Packet where
  head :=
    { conv := segment.conv
      cmd := ikcpCmdPush
      -- `(IUINT8)seg->frg` and `(IUINT16)seg->wnd`
      frg := segment.frg % 256
      wnd := segment.wnd.toNat % 65536
      ts := segment.ts
      sn := segment.sn
      una := segment.una
      len := segment.len }
  data := segment.data

/-- The data segments of a flush. -/
def dataPackets (cb : Ikcpcb) : List Packet :=
  (cb.sndBuf.filter fun segment => (cb.sending segment).isSome).map fun segment =>
    sentPacket (cb.flushSegment segment)

/-- The loop of `ikcp_flush` over `snd_buf`. A segment that is sent for the last time allowed
marks the connection as dead. -/
def flushSndBuf (cb : Ikcpcb) : Ikcpcb :=
  { cb with
    sndBuf := cb.sndBuf.map cb.flushSegment
    xmit := cb.xmit + BitVec.ofNat 32 (cb.sndBuf.countP fun segment =>
      cb.sending segment = some .timeout)
    state :=
      if cb.sndBuf.any fun segment =>
          (cb.sending segment).isSome && decide (cb.deadLink ≤ (cb.flushSegment segment).xmit) then
        -1
      else cb.state }

/-! ## The flush -/

/-- "update ssthresh", when segments were sent because they were overtaken (`change`) or
overdue (`lost`) -/
def updateSsthresh (cb : Ikcpcb) (cwnd : BitVec 32) (change lost : Bool) : Ikcpcb :=
  let mss := BitVec.ofNat 32 cb.mss
  let cb :=
    if change then
      let ssthresh := imax ((cb.sndNxt - cb.sndUna) / 2) ikcpThreshMin
      { cb with
        ssthresh := ssthresh, cwnd := ssthresh + cb.resent, incr := (ssthresh + cb.resent) * mss }
    else cb
  let cb :=
    if lost then { cb with ssthresh := imax (cwnd / 2) ikcpThreshMin, cwnd := 1, incr := mss }
    else cb
  if cb.cwnd < 1 then { cb with cwnd := 1, incr := mss } else cb

/-- The control block after the acknowledgements were written and the probes decided about. -/
def flushControl (cb : Ikcpcb) : Ikcpcb := { cb with acklist := [] }.probeWindow

/-- The control block after the probes were written. -/
def flushProbed (cb : Ikcpcb) : Ikcpcb := { cb.flushControl with probe := 0 }

/-- The control block of the loop over `snd_buf`. -/
def flushReady (cb : Ikcpcb) : Ikcpcb := cb.flushProbed.numberSegments

/-- The segments that a flush sends, in order. -/
def flushPackets (cb : Ikcpcb) : List Packet :=
  cb.ackPackets ++ cb.flushControl.probePackets (cb.acklist.getLast?.getD (0, 0)) ++
    cb.flushReady.dataPackets

/-- `ikcp_flush`, and what it passes to `kcp->output`. -/
def ikcpFlush (cb : Ikcpcb) : Ikcpcb × List (List UInt8) :=
  if !cb.updated then (cb, [])
  else
    let ready := cb.flushReady
    let change := ready.sndBuf.any fun segment => ready.sending segment = some .fast
    let lost := ready.sndBuf.any fun segment => ready.sending segment = some .timeout
    (ready.flushSndBuf.updateSsthresh cb.flushWindow change lost, pack cb.mtu cb.flushPackets)

/-! ## The clock -/

/-- The start of `ikcp_update`: the time is set, on the first call also that of the flush. -/
def startUpdate (cb : Ikcpcb) (current : BitVec 32) : Ikcpcb :=
  if cb.updated then { cb with current := current }
  else { cb with current := current, updated := true, tsFlush := current }

/-- `slap` in `ikcp_update`, and the time of the flush if it was far off. -/
def flushSlap (cb : Ikcpcb) : Ikcpcb × Int :=
  let slap := itimediff cb.current cb.tsFlush
  if 10000 ≤ slap ∨ slap < -10000 then ({ cb with tsFlush := cb.current }, 0) else (cb, slap)

/-- The time of the next flush. -/
def nextFlush (cb : Ikcpcb) : Ikcpcb :=
  let tsFlush := cb.tsFlush + cb.interval
  if 0 ≤ itimediff cb.current tsFlush then { cb with tsFlush := cb.current + cb.interval }
  else { cb with tsFlush := tsFlush }

/-- `ikcp_update` -/
def ikcpUpdate (cb : Ikcpcb) (current : BitVec 32) : Ikcpcb × List (List UInt8) :=
  let r := (cb.startUpdate current).flushSlap
  if 0 ≤ r.2 then r.1.nextFlush.ikcpFlush else (r.1, [])

/-- The loop of `ikcp_check`: `tm_packet`, unless a segment is due. -/
def checkLoop (current : BitVec 32) : List SentSegment → Int → Option Int
  | [], tmPacket => some tmPacket
  | seg :: segs, tmPacket =>
    let diff := itimediff seg.resendts current
    if diff ≤ 0 then none else checkLoop current segs (if diff < tmPacket then diff else tmPacket)

/-- `ikcp_check` -/
def ikcpCheck (cb : Ikcpcb) (current : BitVec 32) : BitVec 32 :=
  if !cb.updated then current
  else
    let far := 10000 ≤ itimediff current cb.tsFlush ∨ itimediff current cb.tsFlush < -10000
    let tsFlush := if far then current else cb.tsFlush
    if 0 ≤ itimediff current tsFlush then current
    else
      match checkLoop current cb.sndBuf 0x7fffffff with
      | none => current
      | some tmPacket =>
        let tmFlush := itimediff tsFlush current
        let minimal := BitVec.ofInt 32 (if tmPacket < tmFlush then tmPacket else tmFlush)
        current + if cb.interval ≤ minimal then cb.interval else minimal

/-- Acknowledgements and probes touch nothing that decides about the data. -/
theorem flushProbed_frame (cb : Ikcpcb) :
    ∃ probeWait tsProbe, cb.flushProbed =
      { cb with acklist := [], probe := 0, probeWait := probeWait, tsProbe := tsProbe } := by
  unfold flushProbed flushControl probeWindow
  split
  · split
    · exact ⟨_, _, rfl⟩
    · split
      · exact ⟨_, _, rfl⟩
      · exact ⟨_, _, rfl⟩
  · exact ⟨_, _, rfl⟩

/-- Congestion control touches nothing but its own state. -/
theorem updateSsthresh_frame (cb : Ikcpcb) (cwnd : BitVec 32) (change lost : Bool) :
    ∃ ssthresh cwnd' incr, cb.updateSsthresh cwnd change lost =
      { cb with ssthresh := ssthresh, cwnd := cwnd', incr := incr } := by
  unfold updateSsthresh
  dsimp only
  repeat' split
  all_goals exact ⟨_, _, _, rfl⟩

/-- A flush is the loop over `snd_buf`, up to congestion control. -/
theorem ikcpFlush_eq {cb : Ikcpcb} (hupdated : cb.updated = true) :
    ∃ ssthresh cwnd incr, cb.ikcpFlush =
      ({ cb.flushReady.flushSndBuf with ssthresh := ssthresh, cwnd := cwnd, incr := incr },
        pack cb.mtu cb.flushPackets) := by
  obtain ⟨ssthresh, cwnd, incr, hsame⟩ := cb.flushReady.flushSndBuf.updateSsthresh_frame cb.flushWindow
    (cb.flushReady.sndBuf.any fun segment => cb.flushReady.sending segment = some .fast)
    (cb.flushReady.sndBuf.any fun segment => cb.flushReady.sending segment = some .timeout)
  refine ⟨ssthresh, cwnd, incr, ?_⟩
  unfold ikcpFlush
  rw [hupdated, ← hsame]
  rfl

theorem ikcpFlush_of_not_updated {cb : Ikcpcb} (hupdated : cb.updated = false) :
    cb.ikcpFlush = (cb, []) := by
  unfold ikcpFlush
  rw [hupdated]
  rfl

/-! ## What is numbered -/

/-- Segments that get the numbers from `sn` on. -/
def numberFrom (cb : Ikcpcb) (sn : BitVec 32) : List Segment → List SentSegment
  | [] => []
  | newseg :: segs => cb.newSegment sn newseg :: numberFrom cb (sn + 1) segs

/-- A flush numbers a beginning of the send queue. -/
theorem moveToSend_eq (cb : Ikcpcb) (limit : BitVec 32) (sndQueue : List Segment)
    (sndBuf : List SentSegment) (sndNxt : BitVec 32) :
    ∃ new rest, sndQueue = new ++ rest ∧
      cb.moveToSend limit sndQueue sndBuf sndNxt =
        (rest, sndBuf ++ cb.numberFrom sndNxt new, sndNxt + BitVec.ofNat 32 new.length) ∧
      ∀ i < new.length, itimediff (sndNxt + BitVec.ofNat 32 i) limit < 0 := by
  induction sndQueue generalizing sndBuf sndNxt with
  | nil => exact ⟨[], [], rfl, by simp [moveToSend, numberFrom], fun i hi => absurd hi (Nat.not_lt_zero i)⟩
  | cons newseg sndQueue ih =>
    unfold moveToSend
    split
    · -- the first segment is numbered
      rename_i hwindow
      obtain ⟨new, rest, hqueue, hmove, hlimit⟩ :=
        ih (sndBuf ++ [cb.newSegment sndNxt newseg]) (sndNxt + 1)
      have hcount : ∀ i : Nat, sndNxt + BitVec.ofNat 32 (i + 1) = sndNxt + 1 + BitVec.ofNat 32 i := by
        intro i
        rw [BitVec.ofNat_add, BitVec.add_comm (BitVec.ofNat 32 i), ← BitVec.add_assoc]
        rfl
      refine ⟨newseg :: new, rest, by rw [hqueue, List.cons_append], ?_, ?_⟩
      · rw [hmove, List.length_cons, hcount, numberFrom, List.append_assoc, List.singleton_append]
      · intro i hi
        cases i with
        | zero => simpa using hwindow
        | succ i =>
          rw [hcount]
          apply hlimit
          rw [List.length_cons] at hi
          omega
    · exact ⟨[], newseg :: sndQueue, rfl, by simp [numberFrom],
        fun i hi => absurd hi (Nat.not_lt_zero i)⟩

theorem numberFrom_congr {cb cb' : Ikcpcb} (h : cb.newSegment = cb'.newSegment) (sn : BitVec 32)
    (segs : List Segment) : cb.numberFrom sn segs = cb'.numberFrom sn segs := by
  induction segs generalizing sn with
  | nil => rfl
  | cons newseg segs ih => rw [numberFrom, numberFrom, ih, h]

/-- The segments that a flush numbers, and those that it leaves in the send queue. -/
theorem flushReady_eq (cb : Ikcpcb) :
    ∃ new rest, cb.sndQueue = new ++ rest ∧
      (∃ probeWait tsProbe, cb.flushReady =
        { cb with
          acklist := [], probe := 0, probeWait := probeWait, tsProbe := tsProbe, sndQueue := rest
          sndBuf := cb.sndBuf ++ cb.numberFrom cb.sndNxt new
          sndNxt := cb.sndNxt + BitVec.ofNat 32 new.length }) ∧
      ∀ i < new.length,
        itimediff (cb.sndNxt + BitVec.ofNat 32 i) (cb.sndUna + cb.flushWindow) < 0 := by
  obtain ⟨probeWait, tsProbe, hprobed⟩ := cb.flushProbed_frame
  obtain ⟨new, rest, hqueue, hmove, hlimit⟩ := cb.flushProbed.moveToSend_eq
    (cb.sndUna + cb.flushWindow) cb.sndQueue cb.sndBuf cb.sndNxt
  have hsame : cb.flushProbed.newSegment = cb.newSegment := by
    rw [hprobed]
    rfl
  have hnumber := numberFrom_congr hsame cb.sndNxt new
  refine ⟨new, rest, hqueue, ⟨probeWait, tsProbe, ?_⟩, hlimit⟩
  rw [hnumber, hprobed] at hmove
  unfold flushReady numberSegments
  rw [hprobed]
  dsimp only
  rw [show ({ cb with
    acklist := [], probe := 0, probeWait := probeWait, tsProbe := tsProbe } : Ikcpcb).flushWindow =
      cb.flushWindow from rfl, hmove]

/-! ## The options -/

@[simp] theorem settings_flushReady (cb : Ikcpcb) : cb.flushReady.settings = cb.settings := by
  obtain ⟨probeWait, tsProbe, hprobed⟩ := cb.flushProbed_frame
  unfold flushReady numberSegments
  rw [hprobed]
  rfl

/-- A flush does not touch the options. -/
@[simp] theorem settings_ikcpFlush (cb : Ikcpcb) : cb.ikcpFlush.1.settings = cb.settings := by
  cases hupdated : cb.updated with
  | false => rw [ikcpFlush_of_not_updated hupdated]
  | true =>
    obtain ⟨ssthresh, cwnd, incr, hflush⟩ := ikcpFlush_eq hupdated
    rw [hflush]
    exact settings_flushReady cb

/-- An update sets the clocks first. -/
theorem flushSlap_frame (cb : Ikcpcb) (current : BitVec 32) :
    ∃ tsFlush, (cb.startUpdate current).flushSlap.1 =
      { cb with current := current, updated := true, tsFlush := tsFlush } := by
  -- the first call starts the clock
  obtain ⟨start, hstart⟩ : ∃ tsFlush, cb.startUpdate current =
      { cb with current := current, updated := true, tsFlush := tsFlush } := by
    unfold startUpdate
    split
    · rename_i hupdated
      exact ⟨cb.tsFlush, by rw [← hupdated]⟩
    · exact ⟨current, rfl⟩
  rw [hstart]
  unfold flushSlap
  dsimp only
  -- a clock that jumped is set anew
  split
  · exact ⟨current, rfl⟩
  · exact ⟨start, rfl⟩

theorem nextFlush_frame (cb : Ikcpcb) (current : BitVec 32) :
    ∃ tsFlush, (cb.startUpdate current).flushSlap.1.nextFlush =
      { cb with current := current, updated := true, tsFlush := tsFlush } := by
  obtain ⟨tsFlush, hslap⟩ := cb.flushSlap_frame current
  rw [hslap]
  unfold nextFlush
  dsimp only
  split
  · exact ⟨_, rfl⟩
  · exact ⟨_, rfl⟩

/-- An update sets the clocks and flushes, or does not. -/
theorem ikcpUpdate_cases (cb : Ikcpcb) (current : BitVec 32) :
    ∃ tsFlush,
      cb.ikcpUpdate current =
        ({ cb with current := current, updated := true, tsFlush := tsFlush }, []) ∨
      cb.ikcpUpdate current =
        { cb with current := current, updated := true, tsFlush := tsFlush }.ikcpFlush := by
  obtain ⟨slap, hslap⟩ := cb.flushSlap_frame current
  obtain ⟨next, hnext⟩ := cb.nextFlush_frame current
  unfold ikcpUpdate
  dsimp only
  split
  · exact ⟨next, .inr (by rw [hnext])⟩
  · exact ⟨slap, .inl (by rw [hslap])⟩

/-- An update does not touch the options. -/
@[simp] theorem settings_ikcpUpdate (cb : Ikcpcb) (current : BitVec 32) :
    (cb.ikcpUpdate current).1.settings = cb.settings := by
  obtain ⟨tsFlush, hrun | hrun⟩ := cb.ikcpUpdate_cases current
  · rw [hrun]
    rfl
  · rw [hrun, settings_ikcpFlush]
    rfl

/-! ## The small control block -/

theorem map_moveToSend (cb : Ikcpcb) (limit : BitVec 32) (sndQueue : List Segment)
    (sndBuf : List SentSegment) (sndNxt : BitVec 32) :
    let r := cb.moveToSend limit sndQueue sndBuf sndNxt
    (r.1, r.2.1.map SentSegment.toSegment, r.2.2) =
      Kcp.moveToSend limit sndQueue (sndBuf.map SentSegment.toSegment) sndNxt := by
  induction sndQueue generalizing sndBuf sndNxt with
  | nil => rfl
  | cons newseg sndQueue ih =>
    unfold moveToSend Kcp.moveToSend
    split
    · simpa [newSegment] using ih (sndBuf ++ [cb.newSegment sndNxt newseg]) (sndNxt + 1)
    · rfl

theorem toSegment_flushSegment (cb : Ikcpcb) (segment : SentSegment) :
    (cb.flushSegment segment).toSegment = segment.toSegment := by
  unfold flushSegment
  split
  · rename_i why hwhy
    cases why <;> rfl
  · rfl

theorem kcp_flushSndBuf (cb : Ikcpcb) : cb.flushSndBuf.kcp = cb.kcp := by
  have hmap : (cb.sndBuf.map cb.flushSegment).map SentSegment.toSegment =
      cb.sndBuf.map SentSegment.toSegment := by
    rw [List.map_map]
    exact List.map_congr_left fun segment _ => cb.toSegment_flushSegment segment
  unfold flushSndBuf kcp
  dsimp only
  rw [hmap]

theorem kcp_updateSsthresh (cb : Ikcpcb) (cwnd : BitVec 32) (change lost : Bool) :
    (cb.updateSsthresh cwnd change lost).kcp = cb.kcp := by
  obtain ⟨ssthresh, cwnd', incr, hsame⟩ := cb.updateSsthresh_frame cwnd change lost
  rw [hsame]
  rfl

/-- Without congestion control the windows of both sides decide what is numbered. -/
theorem kcp_numberSegments {cb : Ikcpcb} (hnocwnd : cb.nocwnd ≠ 0) :
    cb.numberSegments.kcp =
      let limit := cb.kcp.sndUna + imin cb.kcp.sndWnd cb.kcp.rmtWnd
      let r := Kcp.moveToSend limit cb.kcp.sndQueue cb.kcp.sndBuf cb.kcp.sndNxt
      { cb.kcp with sndQueue := r.1, sndBuf := r.2.1, sndNxt := r.2.2 } := by
  have hwindow : cb.flushWindow = imin cb.sndWnd cb.rmtWnd := by
    unfold flushWindow
    exact if_neg hnocwnd
  have hmove := cb.map_moveToSend (cb.sndUna + imin cb.sndWnd cb.rmtWnd) cb.sndQueue cb.sndBuf cb.sndNxt
  unfold numberSegments
  rw [hwindow]
  dsimp only at hmove ⊢
  simp only [kcp_sndUna, kcp_sndWnd, kcp_rmtWnd, kcp_sndQueue, kcp_sndBuf, kcp_sndNxt, ← hmove]
  rfl

/-- Without congestion control a flush numbers the segments that `Kcp.ikcpFlush` numbers. -/
theorem kcp_ikcpFlush {cb : Ikcpcb} (hnocwnd : cb.nocwnd ≠ 0) :
    cb.ikcpFlush.1.kcp = cb.kcp.ikcpFlush := by
  unfold ikcpFlush Kcp.ikcpFlush
  rw [kcp_updated]
  split
  · rfl
  · dsimp only
    rw [kcp_updateSsthresh, kcp_flushSndBuf]
    obtain ⟨probeWait, tsProbe, hprobed⟩ := cb.flushProbed_frame
    have hkept : cb.flushProbed.nocwnd ≠ 0 := by
      rw [hprobed]
      exact hnocwnd
    rw [flushReady, kcp_numberSegments hkept, hprobed]
    rfl

theorem kcp_startUpdate (cb : Ikcpcb) (current : BitVec 32) :
    (cb.startUpdate current).kcp = cb.kcp.startUpdate current := by
  unfold startUpdate Kcp.startUpdate
  rw [kcp_updated]
  split <;> rfl

theorem kcp_flushSlap (cb : Ikcpcb) :
    (cb.flushSlap.1.kcp, cb.flushSlap.2) = cb.kcp.flushSlap := by
  unfold flushSlap Kcp.flushSlap
  rw [kcp_current, kcp_tsFlush]
  dsimp only
  split <;> rfl

theorem kcp_nextFlush (cb : Ikcpcb) : cb.nextFlush.kcp = cb.kcp.nextFlush := by
  unfold nextFlush Kcp.nextFlush
  rw [kcp_current, kcp_tsFlush, kcp_interval]
  dsimp only
  split <;> rfl

theorem kcp_ikcpUpdate {cb : Ikcpcb} (hnocwnd : cb.nocwnd ≠ 0) (current : BitVec 32) :
    (cb.ikcpUpdate current).1.kcp = cb.kcp.ikcpUpdate current := by
  unfold ikcpUpdate Kcp.ikcpUpdate
  rw [← kcp_startUpdate, ← kcp_flushSlap]
  dsimp only
  split
  · have hkept : (cb.startUpdate current).flushSlap.1.nextFlush.nocwnd ≠ 0 := by
      obtain ⟨tsFlush, hnext⟩ := cb.nextFlush_frame current
      rw [hnext]
      exact hnocwnd
    rw [kcp_ikcpFlush hkept, kcp_nextFlush]
  · rfl

end Ikcpcb

end Evlite
