import Evlite.Kcp.Conversation

/-!
# Questions and Answers

What makes a side send something, and what the other side learns from it. A datagram with data
or with a question about the window makes an answer due, which the next flush sends. All of its
segments say what was received in order and how much room is left. The answer takes away the
segments in flight that it is beyond.

## Main results

- `flushPackets_first`, `flushPackets_ask`: what a flush sends when it is time.
- `flushPackets_answer`, `flushPackets_tell`: and what it answers.
- `sndBuf_inputPackets_lt`, `rmtWnd_inputPackets`: what an answer brings about.
- `ikcpFlush_numbers`: a flush with an open window numbers something.
-/

namespace Evlite

/-! ## What a datagram brings about -/

namespace Kcp

/-- `ikcp_shrink_buf` sets `snd_una` and nothing else. -/
theorem ikcpShrinkBuf_frame (kcp : Kcp) : ∃ una, kcp.ikcpShrinkBuf = { kcp with sndUna := una } := by
  unfold ikcpShrinkBuf
  split
  · exact ⟨_, rfl⟩
  · exact ⟨_, rfl⟩

theorem dropAcked_length (sn : BitVec 32) (segs : List Segment) :
    (dropAcked sn segs).length ≤ segs.length := by
  induction segs with
  | nil => exact Nat.le_refl _
  | cons seg segs ih =>
    unfold dropAcked
    split
    · exact Nat.le_succ _
    · split
      · exact Nat.le_refl _
      · exact Nat.succ_le_succ ih

/-- `ikcp_parse_ack` takes something out of `snd_buf` at most. -/
theorem ikcpParseAck_frame (kcp : Kcp) (sn : BitVec 32) :
    ∃ segs, segs.length ≤ kcp.sndBuf.length ∧ kcp.ikcpParseAck sn = { kcp with sndBuf := segs } := by
  unfold ikcpParseAck
  split
  · exact ⟨kcp.sndBuf, Nat.le_refl _, rfl⟩
  · exact ⟨_, dropAcked_length sn kcp.sndBuf, rfl⟩

/-- What a segment changes of the sending side. -/
theorem acknowledge_frame (kcp : Kcp) (p : Packet) :
    ∃ una segs,
      segs.length ≤ (kcp.sndBuf.dropWhile fun seg => 0 < itimediff p.head.una seg.sn).length ∧
      kcp.acknowledge p =
        { kcp with rmtWnd := BitVec.ofNat 32 p.head.wnd, sndBuf := segs, sndUna := una } := by
  obtain ⟨una, hstart⟩ :=
    ({ kcp with rmtWnd := BitVec.ofNat 32 p.head.wnd }.ikcpParseUna p.head.una).ikcpShrinkBuf_frame
  unfold acknowledge
  dsimp only
  rw [hstart]
  split
  · -- the segment itself is acknowledged as well
    obtain ⟨segs, hlength, hack⟩ := ikcpParseAck_frame
      { { kcp with rmtWnd := BitVec.ofNat 32 p.head.wnd }.ikcpParseUna p.head.una with sndUna := una }
      p.head.sn
    rw [hack]
    obtain ⟨una', hshrink⟩ := ikcpShrinkBuf_frame
      { { kcp with rmtWnd := BitVec.ofNat 32 p.head.wnd }.ikcpParseUna p.head.una with
        sndUna := una, sndBuf := segs }
    exact ⟨una', segs, hlength, hshrink⟩
  · exact ⟨una, _, Nat.le_refl _, rfl⟩

theorem acklist_inputPacket (kcp : Kcp) (p : Packet) :
    kcp.acklist <+: (kcp.inputPacket p).acklist := by
  obtain ⟨kcp', hsame, ⟨hrun, -⟩ | ⟨-, -, ⟨-, hrun⟩ | ⟨-, hrun⟩⟩⟩ := kcp.inputPacket_cases p
  · have hkept : (kcp.inputPacket p).acklist = kcp.acklist := by rw [hrun, hsame.acklist_eq]
    exact hkept.symm ▸ List.prefix_rfl
  · rw [hrun, ← hsame.acklist_eq]
    exact List.prefix_append _ _
  · rw [hrun, Ikcpcb.parseData_frame, ← hsame.acklist_eq]
    exact List.prefix_append _ _

/-- No acknowledgement that is due is forgotten. -/
theorem acklist_inputPackets (kcp : Kcp) (ps : List Packet) :
    kcp.acklist <+: (ps.foldl Kcp.inputPacket kcp).acklist := by
  induction ps generalizing kcp with
  | nil => exact List.prefix_rfl
  | cons p ps ih => exact (kcp.acklist_inputPacket p).trans (ih _)

/-- Data that is not beyond the window is acknowledged, whether it is new or not. -/
theorem acklist_push {kcp : Kcp} {p : Packet} (hpush : p.head.cmd = ikcpCmdPush)
    (hwnd : itimediff p.head.sn (kcp.rcvNxt + kcp.rcvWnd) < 0) :
    (p.head.sn, p.head.ts) ∈ (kcp.inputPacket p).acklist := by
  obtain ⟨kcp', hsame, ⟨-, hout⟩ | ⟨-, -, ⟨-, hrun⟩ | ⟨-, hrun⟩⟩⟩ := kcp.inputPacket_cases p
  · exact absurd hwnd (Int.not_lt.mpr (hout hpush))
  · rw [hrun]
    exact List.mem_append_right _ List.mem_cons_self
  · rw [hrun, Ikcpcb.parseData_frame]
    exact List.mem_append_right _ List.mem_cons_self

/-- A question about the window is to be answered. -/
theorem probe_inputPacket (kcp : Kcp) (p : Packet) :
    (kcp.inputPacket p).probe =
      if p.head.cmd = ikcpCmdWask then kcp.probe ||| ikcpAskTell else kcp.probe := by
  have hshrink : ∀ kcp : Kcp, kcp.ikcpShrinkBuf.probe = kcp.probe := by
    intro kcp
    obtain ⟨una, hkcp⟩ := kcp.ikcpShrinkBuf_frame
    rw [hkcp]
  have hack : ∀ (kcp : Kcp) (sn : BitVec 32), (kcp.ikcpParseAck sn).probe = kcp.probe := by
    intro kcp sn
    obtain ⟨segs, -, hkcp⟩ := kcp.ikcpParseAck_frame sn
    rw [hkcp]
  have hstart : (({ kcp with rmtWnd := BitVec.ofNat 32 p.head.wnd }.ikcpParseUna
      p.head.una).ikcpShrinkBuf).probe = kcp.probe := hshrink _
  unfold inputPacket inputSegment
  generalize ({ kcp with rmtWnd := BitVec.ofNat 32 p.head.wnd }.ikcpParseUna
    p.head.una).ikcpShrinkBuf = kcp' at hstart ⊢
  rw [← hstart]
  dsimp only
  split
  · -- an acknowledgement
    rename_i hcmd
    have hother : p.head.cmd ≠ ikcpCmdWask := by
      rw [hcmd]
      decide
    rw [if_neg hother, hshrink, hack]
  · split
    · -- data
      rename_i hcmd
      have hother : p.head.cmd ≠ ikcpCmdWask := by
        rw [hcmd]
        decide
      rw [if_neg hother]
      split
      · split
        · rw [Ikcpcb.parseData_frame]
          rfl
        · rfl
      · rfl
    · split <;> rfl

/-- The answer is due. -/
def Asked (probe : BitVec 32) : Prop := probe &&& ikcpAskTell ≠ 0

theorem Asked.or {probe : BitVec 32} (h : Asked probe) (flags : BitVec 32) : Asked (probe ||| flags) := by
  intro hzero
  apply h
  rw [BitVec.and_or_distrib_right] at hzero
  exact (BitVec.or_eq_zero_iff.mp hzero).1

theorem asked_tell (probe : BitVec 32) : Asked (probe ||| ikcpAskTell) := by
  intro hzero
  rw [BitVec.and_or_distrib_right] at hzero
  exact absurd (BitVec.or_eq_zero_iff.mp hzero).2 (by decide)

theorem asked_inputPackets {kcp : Kcp} {ps : List Packet}
    (h : Asked kcp.probe ∨ ∃ p ∈ ps, p.head.cmd = ikcpCmdWask) :
    Asked (ps.foldl Kcp.inputPacket kcp).probe := by
  induction ps generalizing kcp with
  | nil =>
    rcases h with hasked | ⟨p, hp, -⟩
    · exact hasked
    · cases hp
  | cons p ps ih =>
    apply ih
    rw [probe_inputPacket]
    by_cases hcmd : p.head.cmd = ikcpCmdWask
    · rw [if_pos hcmd]
      exact .inl (asked_tell _)
    · rw [if_neg hcmd]
      apply h.imp_right
      rintro ⟨q, hq, hask⟩
      rcases List.mem_cons.mp hq with rfl | hq
      · exact absurd hask hcmd
      · exact ⟨q, hq, hask⟩

/-! ### Reading -/

theorem asked_ikcpRecv {kcp : Kcp} (h : Asked kcp.probe) (len : Nat) :
    Asked (kcp.ikcpRecv len).1.probe := by
  unfold Kcp.ikcpRecv
  split
  · exact h
  · split
    · exact h
    · split
      · exact h
      · dsimp only
        split
        · exact h.or _
        · exact h

theorem moveAvailable_rcvQueue (rcvWnd : BitVec 32) (rcvBuf rcvQueue : List Segment)
    (rcvNxt : BitVec 32) :
    rcvQueue.length ≤ (moveAvailable rcvWnd rcvBuf rcvQueue rcvNxt).2.1.length := by
  induction rcvBuf generalizing rcvQueue rcvNxt with
  | nil => exact Nat.le_refl _
  | cons seg rcvBuf ih =>
    unfold moveAvailable
    split
    · refine Nat.le_trans ?_ (ih _ _)
      rw [List.length_append]
      exact Nat.le_add_right _ _
    · exact Nat.le_refl _

/-- What is handed over was in the queue. -/
theorem ikcpRecv_arrived (kcp : Kcp) (len : Nat) :
    kcp.rcvQueue.length ≤ (kcp.handed len).length + (kcp.ikcpRecv len).1.rcvQueue.length := by
  rcases kcp.ikcpRecv_cases len with ⟨hnone, hhanded, -⟩ | ⟨probe, hrun, -, hhanded, -⟩
  · rw [hnone]
    exact Nat.le_add_left _ _
  · rw [hrun, hhanded]
    have hall := congrArg List.length (splitMessage_append kcp.rcvQueue)
    rw [List.length_append] at hall
    have hmoved := moveAvailable_rcvQueue kcp.rcvWnd kcp.rcvBuf (splitMessage kcp.rcvQueue).2 kcp.rcvNxt
    rw [← hall]
    exact Nat.add_le_add_left hmoved _

/-! ### The answer -/

theorem rmtWnd_inputPacket (kcp : Kcp) (p : Packet) :
    (kcp.inputPacket p).rmtWnd = BitVec.ofNat 32 p.head.wnd := by
  obtain ⟨una, segs, -, hack⟩ := kcp.acknowledge_frame p
  rw [(kcp.sameSender_inputPacket p).rmtWnd_eq, hack]

/-- The window is the one that was heard of last. -/
theorem rmtWnd_inputPackets {kcp : Kcp} {ps : List Packet} (hps : ps ≠ [])
    (hwnd : ∀ p ∈ ps, 0 < p.head.wnd ∧ p.head.wnd < 65536) :
    (ps.foldl Kcp.inputPacket kcp).rmtWnd ≠ 0 := by
  induction ps generalizing kcp with
  | nil => exact absurd rfl hps
  | cons p ps ih =>
    cases ps with
    | nil =>
      obtain ⟨hpos, hlt⟩ := hwnd p List.mem_cons_self
      show (kcp.inputPacket p).rmtWnd ≠ 0
      rw [rmtWnd_inputPacket]
      intro hzero
      have hnat := congrArg BitVec.toNat hzero
      rw [BitVec.toNat_ofNat, Nat.mod_eq_of_lt (by omega)] at hnat
      exact absurd hnat (Nat.ne_of_gt hpos)
    | cons q ps =>
      exact ih (List.cons_ne_nil q ps) fun p' hp' => hwnd p' (List.mem_cons_of_mem p hp')

/-- A segment takes away what comes before its `una` at least. -/
theorem sndBuf_inputPacket (kcp : Kcp) (p : Packet) :
    (kcp.inputPacket p).sndBuf.length ≤
      (kcp.sndBuf.dropWhile fun seg => 0 < itimediff p.head.una seg.sn).length := by
  obtain ⟨una, segs, hlength, hack⟩ := kcp.acknowledge_frame p
  rw [(kcp.sameSender_inputPacket p).sndBuf_eq, hack]
  exact hlength

theorem sndBuf_inputPackets (kcp : Kcp) (ps : List Packet) :
    (ps.foldl Kcp.inputPacket kcp).sndBuf.length ≤ kcp.sndBuf.length := by
  induction ps generalizing kcp with
  | nil => exact Nat.le_refl _
  | cons p ps ih =>
    refine Nat.le_trans (ih _) (Nat.le_trans (kcp.sndBuf_inputPacket p) ?_)
    exact (List.dropWhile_sublist _).length_le

/-- The first segment in flight is gone if the answer is beyond it. -/
theorem sndBuf_inputPackets_lt {kcp : Kcp} {ps : List Packet} (hps : ps ≠ []) {una : BitVec 32}
    (huna : ∀ p ∈ ps, p.head.una = una) {seg : Segment} (hseg : seg ∈ kcp.sndBuf.head?)
    (hbeyond : 0 < itimediff una seg.sn) :
    (ps.foldl Kcp.inputPacket kcp).sndBuf.length < kcp.sndBuf.length := by
  obtain ⟨p, ps, rfl⟩ := List.exists_cons_of_ne_nil hps
  refine Nat.lt_of_le_of_lt (Nat.le_trans (sndBuf_inputPackets _ ps) (kcp.sndBuf_inputPacket p)) ?_
  rw [huna p List.mem_cons_self]
  cases hbuf : kcp.sndBuf with
  | nil =>
    rw [hbuf] at hseg
    cases hseg
  | cons first segs =>
    rw [hbuf] at hseg
    cases Option.mem_some.mp hseg
    rw [List.dropWhile_cons_of_pos (by simpa using hbeyond)]
    exact Nat.lt_succ_of_le (List.dropWhile_sublist _).length_le

end Kcp

/-! ## What a flush sends -/

namespace Ikcpcb

theorem flushControl_frame (cb : Ikcpcb) :
    ∃ probe probeWait tsProbe, cb.flushControl =
        { cb with acklist := [], probe := probe, probeWait := probeWait, tsProbe := tsProbe } ∧
      (Kcp.Asked cb.probe → Kcp.Asked probe) := by
  unfold flushControl probeWindow
  split
  · split
    · exact ⟨_, _, _, rfl, fun h => h⟩
    · split
      · exact ⟨_, _, _, rfl, fun h => h.or _⟩
      · exact ⟨_, _, _, rfl, fun h => h⟩
  · exact ⟨_, _, _, rfl, fun h => h⟩

/-- All segments of a flush tell the same about the receiver. -/
theorem flushPackets_tell (cb : Ikcpcb) :
    ∀ p ∈ cb.flushPackets, p.head.una = cb.rcvNxt ∧ p.head.wnd = cb.ikcpWndUnused.toNat % 65536 := by
  intro p hp
  refine ⟨(cb.flushPackets_cases p hp).1, ?_⟩
  obtain ⟨probe, probeWait, tsProbe, hcontrol, -⟩ := cb.flushControl_frame
  have hunused : cb.flushControl.ikcpWndUnused = cb.ikcpWndUnused := by
    rw [hcontrol]
    rfl
  rcases List.mem_append.mp hp with hp | hp
  · rcases List.mem_append.mp hp with hp | hp
    · obtain ⟨ack, -, rfl⟩ := List.mem_map.mp hp
      rfl
    · -- a probe
      rw [← hunused]
      rcases List.mem_append.mp hp with hp | hp
      · split at hp
        · rw [List.mem_singleton.mp hp]
          rfl
        · cases hp
      · split at hp
        · rw [List.mem_singleton.mp hp]
          rfl
        · cases hp
  · obtain ⟨seg, hseg, rfl⟩ := List.mem_map.mp hp
    obtain ⟨why, hwhy⟩ := Option.isSome_iff_exists.mp (List.mem_filter.mp hseg).2
    obtain ⟨new, rest, -, ⟨probeWait', tsProbe', hready⟩, -⟩ := cb.flushReady_eq
    have hunused' : cb.flushReady.ikcpWndUnused = cb.ikcpWndUnused := by
      rw [hready]
      rfl
    show (cb.flushReady.flushSegment seg).wnd.toNat % 65536 = _
    unfold flushSegment
    rw [hwhy, ← hunused']

/-- A flush answers what is due. -/
theorem flushPackets_answer {cb : Ikcpcb} (h : cb.acklist ≠ [] ∨ Kcp.Asked cb.probe) :
    ∃ p, p ∈ cb.flushPackets := by
  rcases h with hacks | hasked
  · obtain ⟨a, acks, hacklist⟩ := List.exists_cons_of_ne_nil hacks
    refine ⟨{ head := cb.flushHead ikcpCmdAck a.1 a.2, data := [] }, ?_⟩
    apply List.mem_append_left
    apply List.mem_append_left
    refine List.mem_map.mpr ⟨a, ?_, rfl⟩
    rw [hacklist]
    exact List.mem_cons_self
  · obtain ⟨probe, probeWait, tsProbe, hcontrol, hkept⟩ := cb.flushControl_frame
    have htell : cb.flushControl.probe &&& ikcpAskTell ≠ 0 := by
      rw [hcontrol]
      exact hkept hasked
    have hmem : ∃ p, p ∈ cb.flushControl.probePackets (cb.acklist.getLast?.getD (0, 0)) := by
      unfold probePackets
      rw [if_pos htell]
      exact ⟨_, List.mem_append_right _ List.mem_cons_self⟩
    obtain ⟨p, hp⟩ := hmem
    exact ⟨p, List.mem_append_left _ (List.mem_append_right _ hp)⟩

/-- A flush asks about a closed window when it is time. -/
theorem flushPackets_ask {cb : Ikcpcb} (hwnd : cb.rmtWnd = 0) (hwait : cb.probeWait ≠ 0)
    (htime : cb.current = cb.tsProbe) : ∃ p ∈ cb.flushPackets, p.head.cmd = ikcpCmdWask := by
  have hdue : 0 ≤ itimediff cb.current cb.tsProbe := by
    rw [htime]
    unfold itimediff
    rw [BitVec.sub_self]
    decide
  have hask : cb.flushControl.probe &&& ikcpAskSend ≠ 0 := by
    unfold flushControl probeWindow
    dsimp only
    rw [if_pos hwnd, if_neg hwait, if_pos hdue]
    intro hzero
    dsimp only at hzero
    rw [BitVec.and_or_distrib_right] at hzero
    exact absurd (BitVec.or_eq_zero_iff.mp hzero).2 (by decide)
  have hmem : ∃ p ∈ cb.flushControl.probePackets (cb.acklist.getLast?.getD (0, 0)),
      p.head.cmd = ikcpCmdWask := by
    unfold probePackets
    rw [if_pos hask]
    exact ⟨_, List.mem_append_left _ List.mem_cons_self, rfl⟩
  obtain ⟨p, hp, hcmd⟩ := hmem
  exact ⟨p, List.mem_append_left _ (List.mem_append_right _ hp), hcmd⟩

/-- A flush sends the first segment in flight when it is time. -/
theorem flushPackets_first {cb : Ikcpcb} {seg : SentSegment} (hseg : seg ∈ cb.sndBuf.head?)
    (htime : cb.current = seg.resendts) :
    ∃ p ∈ cb.flushPackets, p.head.cmd = ikcpCmdPush ∧ p.head.sn = seg.sn := by
  obtain ⟨new, rest, -, ⟨probeWait, tsProbe, hready⟩, -⟩ := cb.flushReady_eq
  have hmem : seg ∈ cb.flushReady.sndBuf := by
    rw [hready]
    exact List.mem_append_left _ (List.mem_of_mem_head? hseg)
  have hsending : (cb.flushReady.sending seg).isSome := by
    have hcurrent : cb.flushReady.current = seg.resendts := by
      rw [hready]
      exact htime
    unfold sending
    split
    · rfl
    · -- it is overdue
      rw [if_pos]
      · rfl
      · rw [hcurrent]
        unfold itimediff
        rw [BitVec.sub_self]
        decide
  refine ⟨sentPacket (cb.flushReady.flushSegment seg), ?_, rfl, ?_⟩
  · exact List.mem_append_right _ (List.mem_map_of_mem (List.mem_filter.mpr ⟨hmem, hsending⟩))
  · exact congrArg Segment.sn (cb.flushReady.toSegment_flushSegment seg)

/-- The first segment in flight is the same after a flush. -/
theorem ikcpFlush_first {cb : Ikcpcb} (hupdated : cb.updated = true) {seg : SentSegment}
    (hseg : seg ∈ cb.sndBuf.head?) : ∃ seg' ∈ cb.ikcpFlush.1.sndBuf.head?, seg'.sn = seg.sn := by
  obtain ⟨ssthresh, cwnd, incr, hflush⟩ := ikcpFlush_eq hupdated
  obtain ⟨new, rest, -, ⟨probeWait, tsProbe, hready⟩, -⟩ := cb.flushReady_eq
  have hbuf : cb.ikcpFlush.1.sndBuf =
      (cb.sndBuf ++ cb.numberFrom cb.sndNxt new).map cb.flushReady.flushSegment := by
    rw [hflush]
    show cb.flushReady.sndBuf.map cb.flushReady.flushSegment = _
    conv_lhs => rw [hready]
    rw [hready]
  cases hsegs : cb.sndBuf with
  | nil =>
    rw [hsegs] at hseg
    cases hseg
  | cons first segs =>
    rw [hsegs] at hseg
    cases Option.mem_some.mp hseg
    refine ⟨cb.flushReady.flushSegment seg, ?_, ?_⟩
    · rw [hbuf, hsegs]
      rfl
    · exact congrArg Segment.sn (cb.flushReady.toSegment_flushSegment seg)

/-! ### What a flush numbers -/

/-- The congestion window is open after a flush. -/
theorem cwnd_ikcpFlush {cb : Ikcpcb} (hupdated : cb.updated = true) : cb.ikcpFlush.1.cwnd ≠ 0 := by
  have hopen : ∀ (cb : Ikcpcb) (cwnd : BitVec 32) (change lost : Bool),
      (cb.updateSsthresh cwnd change lost).cwnd ≠ 0 := by
    intro cb cwnd change lost
    unfold updateSsthresh
    dsimp only
    generalize (if lost = true then _ else _ : Ikcpcb) = cb
    split
    · show (1 : BitVec 32) ≠ 0
      decide
    · rename_i hone
      intro hzero
      exact hone (by rw [hzero]; decide)
  unfold ikcpFlush
  rw [hupdated]
  exact hopen _ _ _ _

theorem ikcpFlush_rmtWnd (cb : Ikcpcb) : cb.ikcpFlush.1.rmtWnd = cb.rmtWnd := by
  cases hupdated : cb.updated with
  | false => rw [ikcpFlush_of_not_updated hupdated]
  | true =>
    obtain ⟨ssthresh, cwnd, incr, hflush⟩ := ikcpFlush_eq hupdated
    obtain ⟨new, rest, -, ⟨probeWait, tsProbe, hready⟩, -⟩ := cb.flushReady_eq
    rw [hflush]
    show cb.flushReady.rmtWnd = _
    rw [hready]

/-- If the window is closed, a flush sets the time of the next probe. -/
theorem probeWait_ikcpFlush {cb : Ikcpcb} (hupdated : cb.updated = true) (hwnd : cb.rmtWnd = 0)
    (hwait : cb.probeWait = 0) : cb.ikcpFlush.1.probeWait ≠ 0 := by
  obtain ⟨ssthresh, cwnd, incr, hflush⟩ := ikcpFlush_eq hupdated
  rw [hflush]
  show cb.flushControl.probeWait ≠ 0
  unfold flushControl probeWindow
  dsimp only
  rw [if_pos hwnd, if_pos hwait]
  show ikcpProbeInit ≠ 0
  decide

/-- A flush with an open window numbers the first segment of the send queue. -/
theorem ikcpFlush_numbers {cb : Ikcpcb} (hupdated : cb.updated = true) (hqueue : cb.sndQueue ≠ [])
    (hwindow : itimediff cb.sndNxt (cb.sndUna + cb.flushWindow) < 0) :
    cb.ikcpFlush.1.sndBuf ≠ [] := by
  -- the limit is the same when the loop begins, and so is the next number
  obtain ⟨ssthresh, cwnd, incr, hflush⟩ := ikcpFlush_eq hupdated
  obtain ⟨new, rest, hnew, ⟨probeWait, tsProbe, hready⟩, -⟩ := cb.flushReady_eq
  rw [hflush]
  show cb.flushReady.sndBuf.map cb.flushReady.flushSegment ≠ []
  obtain ⟨probeWait', tsProbe', hprobed⟩ := cb.flushProbed_frame
  obtain ⟨first, segs, hsegs⟩ := List.exists_cons_of_ne_nil hqueue
  have hmove : cb.flushReady.sndBuf ≠ [] := by
    unfold flushReady numberSegments
    have hlimit : cb.flushProbed.sndUna + cb.flushProbed.flushWindow = cb.sndUna + cb.flushWindow := by
      rw [hprobed]
      rfl
    have hqueue' : cb.flushProbed.sndQueue = first :: segs := by
      rw [hprobed]
      exact hsegs
    have hnxt : cb.flushProbed.sndNxt = cb.sndNxt := by rw [hprobed]
    dsimp only
    rw [hlimit, hqueue', hnxt, moveToSend, if_pos hwindow]
    obtain ⟨new', rest', -, hrest, -⟩ := cb.flushProbed.moveToSend_eq (cb.sndUna + cb.flushWindow) segs
      (cb.flushProbed.sndBuf ++ [cb.flushProbed.newSegment cb.sndNxt first]) (cb.sndNxt + 1)
    rw [hrest]
    simp
  simpa using hmove

/-- The window is open if all parts of it are. -/
theorem flushWindow_ne {cb : Ikcpcb} (hsnd : cb.sndWnd ≠ 0) (hrmt : cb.rmtWnd ≠ 0)
    (hcwnd : cb.cwnd ≠ 0) : cb.flushWindow ≠ 0 := by
  have hmin : ∀ {a b : BitVec 32}, a ≠ 0 → b ≠ 0 → imin a b ≠ 0 := by
    intro a b ha hb
    unfold imin
    split
    · exact ha
    · exact hb
  unfold flushWindow
  dsimp only
  split
  · exact hmin hcwnd (hmin hsnd hrmt)
  · exact hmin hsnd hrmt

theorem waitsnd_eq (cb : Ikcpcb) : cb.ikcpWaitsnd = cb.waiting.length := by
  unfold ikcpWaitsnd waiting
  rw [List.length_append, List.length_map, List.length_map]

theorem waitsnd_ikcpFlush (cb : Ikcpcb) : cb.ikcpFlush.1.ikcpWaitsnd = cb.ikcpWaitsnd := by
  rw [waitsnd_eq, waitsnd_eq, waiting_ikcpFlush]

end Ikcpcb

end Evlite
