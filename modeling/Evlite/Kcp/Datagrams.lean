import Evlite.Kcp.Calls
import Evlite.Lib.TransitionSystem

/-!
# The Datagrams of a Connection

What a control block holds for its peer are fragments of messages: first those in flight, then
those in the send queue. No call makes a fragment that a head cannot describe, and whatever the
peer sends, it only makes fragments go away.

## Main results

- `datagrams_read_back`: in every run, the segments that a call sends are read from its
  datagrams, in their order.
- `datagrams_within_mtu`: no datagram is longer than the `mtu`, if `ikcp_setmtu` is not called
  with a size that fragments exceed which are waiting.
-/

namespace Evlite

open Lib (Run GuardedRun guardedExec)

/-- What a segment carries: the number of the fragment, and the bytes. -/
def Segment.payload (seg : Segment) : Nat × List UInt8 := (seg.frg, seg.data)

/-! ## What `ikcp_send` makes -/

namespace Kcp

/-- A fragment of `ikcp_send`. -/
def IsFragment (mss : Nat) (p : Nat × List UInt8) : Prop := p.1 < ikcpWndRcv ∧ p.2.length ≤ mss

theorem fragments_isFragment (kcp : Kcp) {count : Nat} (hcount : count ≤ ikcpWndRcv)
    (buffer : List UInt8) :
    ∀ seg ∈ kcp.fragments count buffer, IsFragment kcp.mss seg.payload := by
  induction count generalizing buffer with
  | zero => exact fun seg hseg => absurd hseg List.not_mem_nil
  | succ count ih =>
    intro seg hseg
    rcases List.mem_cons.mp hseg with rfl | hseg
    · refine ⟨?_, List.length_take_le _ _⟩
      show (if kcp.stream then 0 else count) < ikcpWndRcv
      split
      · decide
      · omega
    · exact ih (by omega) _ seg hseg

theorem sendFragments_isFragment (kcp : Kcp) (buffer : List UInt8) (sent : Nat) :
    ∀ seg ∈ (kcp.sendFragments buffer sent).1.sndQueue,
      seg ∈ kcp.sndQueue ∨ IsFragment kcp.mss seg.payload := by
  unfold sendFragments
  dsimp only
  split
  · split <;> exact fun seg hseg => .inl hseg
  · rename_i hcount
    intro seg hseg
    apply (List.mem_append.mp hseg).imp_right
    apply kcp.fragments_isFragment
    split
    · decide
    · omega

/-- `ikcp_send` makes fragments, and leaves the other segments as they are. -/
theorem ikcpSend_isFragment (kcp : Kcp) (buffer : List UInt8) (len : Int) :
    ∀ seg ∈ (kcp.ikcpSend buffer len).1.sndQueue,
      seg ∈ kcp.sndQueue ∨ IsFragment kcp.mss seg.payload := by
  unfold ikcpSend
  split
  · exact fun seg hseg => .inl hseg
  · generalize buffer.take len.toNat = buffer
    dsimp only
    split
    · rename_i old htail
      obtain ⟨-, hqueue, hshort⟩ := streamTail_some htail
      -- the last segment was filled up to `mss` at most
      have hfilled : ∀ seg ∈
          (kcp.fillTail old (buffer.take (min buffer.length (kcp.mss - old.len)))).sndQueue,
          seg ∈ kcp.sndQueue ∨ IsFragment kcp.mss seg.payload := by
        intro seg hseg
        rcases List.mem_append.mp hseg with hold | hnew
        · left
          rw [hqueue]
          exact List.mem_append_left _ hold
        · right
          rw [List.mem_singleton.mp hnew]
          refine ⟨by show 0 < ikcpWndRcv; decide, ?_⟩
          show (old.data ++ _).length ≤ kcp.mss
          rw [List.length_append, List.length_take]
          unfold Segment.len at *
          omega
      split
      · exact hfilled
      · intro seg hseg
        rcases sendFragments_isFragment _ _ _ seg hseg with hold | hnew
        · exact hfilled seg hold
        · exact .inr hnew
    · split
      · exact fun seg hseg => .inl hseg
      · exact sendFragments_isFragment kcp _ _

end Kcp

/-! ## What is waiting -/

/-- What a segment keeps from the time when it was numbered. -/
def SentSegment.fixed (seg : SentSegment) : BitVec 32 × Segment := (seg.conv, seg.toSegment)

namespace Ikcpcb

/-- The fragments that are not acknowledged: those in flight, then those in the send queue. -/
def waiting (cb : Ikcpcb) : List (Nat × List UInt8) :=
  cb.sndBuf.map (fun seg => seg.payload) ++ cb.sndQueue.map Segment.payload

theorem waiting_eq (cb : Ikcpcb) :
    cb.waiting = (cb.sndBuf.map SentSegment.fixed).map (fun f => f.2.payload) ++
      cb.sndQueue.map Segment.payload := by
  rw [List.map_map]
  rfl

/-! ### Input -/

theorem dropAcked_sublist (sn : BitVec 32) (segs : List SentSegment) :
    (dropAcked sn segs).Sublist segs := by
  induction segs with
  | nil => exact .slnil
  | cons seg segs ih =>
    unfold dropAcked
    split
    · exact List.sublist_cons_self seg segs
    · split
      · exact List.Sublist.refl _
      · exact ih.cons_cons seg

theorem fixed_overtake (sn : BitVec 32) (segs : List SentSegment) :
    (overtake sn segs).map SentSegment.fixed = segs.map SentSegment.fixed := by
  induction segs with
  | nil => rfl
  | cons seg segs ih =>
    unfold overtake
    split
    · rfl
    · split
      · rw [List.map_cons, List.map_cons, ih]
        rfl
      · rw [List.map_cons, List.map_cons, ih]

/-- The control block has dropped segments in flight, at most. -/
structure Drops (cb cb' : Ikcpcb) : Prop where
  sndQueue_eq : cb'.sndQueue = cb.sndQueue
  sublist : (cb'.sndBuf.map SentSegment.fixed).Sublist (cb.sndBuf.map SentSegment.fixed)

theorem Drops.refl (cb : Ikcpcb) : cb.Drops cb := ⟨rfl, List.Sublist.refl _⟩

theorem Drops.trans {cb cb' cb'' : Ikcpcb} (h : cb.Drops cb') (h' : cb'.Drops cb'') : cb.Drops cb'' :=
  ⟨h'.sndQueue_eq.trans h.sndQueue_eq, h'.sublist.trans h.sublist⟩

theorem drops_ikcpShrinkBuf (cb : Ikcpcb) : cb.Drops cb.ikcpShrinkBuf := by
  unfold ikcpShrinkBuf
  split <;> exact ⟨rfl, List.Sublist.refl _⟩

theorem drops_ikcpParseUna (cb : Ikcpcb) (una : BitVec 32) : cb.Drops (cb.ikcpParseUna una) :=
  ⟨rfl, (List.dropWhile_sublist _).map _⟩

theorem drops_ikcpParseAck (cb : Ikcpcb) (sn : BitVec 32) : cb.Drops (cb.ikcpParseAck sn) := by
  unfold ikcpParseAck
  split
  · exact .refl cb
  · exact ⟨rfl, (dropAcked_sublist sn cb.sndBuf).map _⟩

theorem drops_ikcpParseFastack (cb : Ikcpcb) (sn : BitVec 32) : cb.Drops (cb.ikcpParseFastack sn) := by
  unfold ikcpParseFastack
  split
  · exact .refl cb
  · refine ⟨rfl, ?_⟩
    dsimp only
    rw [fixed_overtake]

theorem drops_ikcpUpdateAck (cb : Ikcpcb) (rtt : BitVec 32) : cb.Drops (cb.ikcpUpdateAck rtt) := by
  unfold ikcpUpdateAck
  dsimp only
  split <;> exact ⟨rfl, List.Sublist.refl _⟩

theorem drops_growCwnd (cb : Ikcpcb) : cb.Drops cb.growCwnd := by
  unfold growCwnd
  dsimp only
  repeat' split
  all_goals exact ⟨rfl, List.Sublist.refl _⟩

theorem drops_inputPacket (s : InputState) (p : Packet) : s.cb.Drops (inputPacket s p).cb := by
  unfold inputPacket inputSegment
  have hstart : s.cb.Drops ({ s.cb with rmtWnd := BitVec.ofNat 32 p.head.wnd }.ikcpParseUna
      p.head.una).ikcpShrinkBuf := by
    have hwnd : s.cb.Drops { s.cb with rmtWnd := BitVec.ofNat 32 p.head.wnd } :=
      ⟨rfl, List.Sublist.refl _⟩
    exact hwnd.trans ((drops_ikcpParseUna _ _).trans (drops_ikcpShrinkBuf _))
  generalize ({ s.cb with rmtWnd := BitVec.ofNat 32 p.head.wnd }.ikcpParseUna
    p.head.una).ikcpShrinkBuf = cb at hstart ⊢
  apply hstart.trans
  dsimp only
  split
  · -- an acknowledgement
    refine .trans ?_ (drops_ikcpShrinkBuf _)
    refine .trans ?_ (drops_ikcpParseAck _ _)
    split
    · exact drops_ikcpUpdateAck _ _
    · exact .refl _
  · split
    · split
      · split <;> exact ⟨rfl, List.Sublist.refl _⟩
      · exact .refl _
    · split <;> exact ⟨rfl, List.Sublist.refl _⟩

/-- Whatever comes in, fragments are dropped at most. -/
theorem drops_ikcpInput (cb : Ikcpcb) (data : List UInt8) : cb.Drops (cb.ikcpInput data).1 := by
  have hloop : ∀ (ps : List Packet) (s : InputState), s.cb.Drops (ps.foldl inputPacket s).cb := by
    intro ps
    induction ps with
    | nil => exact fun s => .refl s.cb
    | cons p ps ih => exact fun s => (drops_inputPacket s p).trans (ih _)
  unfold ikcpInput
  split
  · exact .refl cb
  · dsimp only
    rw [inputLoop_eq]
    apply (hloop (parseDatagram cb.conv data).1 { cb := cb }).trans
    split
    · exact .refl _
    · unfold finishInput
      dsimp only
      split
      · split
        · exact (drops_ikcpParseFastack _ _).trans (drops_growCwnd _)
        · exact drops_ikcpParseFastack _ _
      · split
        · exact drops_growCwnd _
        · exact .refl _

/-! ### Flushing -/

theorem fixed_flushSegment (cb : Ikcpcb) (segment : SentSegment) :
    (cb.flushSegment segment).fixed = segment.fixed := by
  unfold flushSegment
  split
  · rename_i why hwhy
    cases why <;> rfl
  · rfl

theorem numberFrom_payload (cb : Ikcpcb) (sn : BitVec 32) (segs : List Segment) :
    (cb.numberFrom sn segs).map (fun seg => seg.payload) = segs.map Segment.payload := by
  induction segs generalizing sn with
  | nil => rfl
  | cons newseg segs ih =>
    rw [numberFrom, List.map_cons, List.map_cons, ih]
    rfl

theorem numberFrom_conv (cb : Ikcpcb) (sn : BitVec 32) (segs : List Segment) :
    ∀ seg ∈ cb.numberFrom sn segs, seg.conv = cb.conv := by
  induction segs generalizing sn with
  | nil => exact fun seg hseg => absurd hseg List.not_mem_nil
  | cons newseg segs ih =>
    intro seg hseg
    rcases List.mem_cons.mp hseg with rfl | hseg
    · rfl
    · exact ih _ seg hseg

theorem fixed_flushSndBuf (cb : Ikcpcb) :
    cb.flushSndBuf.sndBuf.map SentSegment.fixed = cb.sndBuf.map SentSegment.fixed := by
  unfold flushSndBuf
  rw [List.map_map]
  exact List.map_congr_left fun segment _ => cb.fixed_flushSegment segment

@[simp] theorem waiting_flushReady (cb : Ikcpcb) : cb.flushReady.waiting = cb.waiting := by
  obtain ⟨new, rest, hqueue, ⟨probeWait, tsProbe, hready⟩, -⟩ := cb.flushReady_eq
  unfold waiting
  rw [hready, hqueue]
  show (cb.sndBuf ++ _).map (fun seg => seg.payload) ++ rest.map Segment.payload = _
  rw [List.map_append, numberFrom_payload, List.append_assoc, List.map_append]

/-- A flush keeps what is waiting, in its order. -/
@[simp] theorem waiting_ikcpFlush (cb : Ikcpcb) : cb.ikcpFlush.1.waiting = cb.waiting := by
  cases hupdated : cb.updated with
  | false => rw [ikcpFlush_of_not_updated hupdated]
  | true =>
    obtain ⟨ssthresh, cwnd, incr, hflush⟩ := ikcpFlush_eq hupdated
    rw [hflush, waiting_eq, fixed_flushSndBuf, ← cb.waiting_flushReady, waiting_eq]
    rfl

/-! ## The invariant -/

/-- The heads of what is waiting hold its numbers. -/
structure Sendable (cb : Ikcpcb) : Prop where
  conv_eq : ∀ seg ∈ cb.sndBuf, seg.conv = cb.conv
  short : ∀ p ∈ cb.waiting, p.1 < ikcpWndRcv ∧ p.2.length < 2 ^ 31

theorem Sendable.init (conv : BitVec 32) (options : Options) :
    (driverCreate conv options).Sendable := by
  have hempty := traffic_driverCreate conv options
  have hbuf : (driverCreate conv options).sndBuf = [] := congrArg Traffic.sndBuf hempty
  have hqueue : (driverCreate conv options).sndQueue = [] := congrArg Traffic.sndQueue hempty
  refine ⟨?_, ?_⟩
  · rw [hbuf]
    exact fun seg hseg => absurd hseg List.not_mem_nil
  · rw [waiting, hbuf, hqueue]
    exact fun p hp => absurd hp List.not_mem_nil

theorem Sendable.drops {cb cb' : Ikcpcb} (h : cb.Sendable) (hdrops : cb.Drops cb')
    (hconv : cb'.conv = cb.conv) : cb'.Sendable := by
  refine ⟨fun seg hseg => ?_, fun p hp => ?_⟩
  · obtain ⟨seg', hseg', heq⟩ :=
      List.mem_map.mp (hdrops.sublist.subset (List.mem_map_of_mem hseg))
    rw [hconv, ← h.conv_eq seg' hseg']
    exact (congrArg Prod.fst heq).symm
  · apply h.short
    rw [waiting_eq] at hp ⊢
    rw [hdrops.sndQueue_eq] at hp
    exact ((hdrops.sublist.map _).append_right _).subset hp

/-- Options do not touch what is waiting. -/
theorem Sendable.options {cb cb' : Ikcpcb} (h : cb.Sendable) (hsame : cb'.traffic = cb.traffic) :
    cb'.Sendable := by
  have hbuf : cb'.sndBuf = cb.sndBuf := congrArg Traffic.sndBuf hsame
  exact h.drops ⟨congrArg Traffic.sndQueue hsame, by rw [hbuf]⟩ (congrArg Traffic.conv hsame)

theorem Sendable.ikcpSend {cb : Ikcpcb} (h : cb.Sendable) (buffer : List UInt8) (len : Int) :
    (cb.ikcpSend buffer len).1.Sendable := by
  refine ⟨h.conv_eq, fun p hp => ?_⟩
  rcases List.mem_append.mp hp with hflight | hqueue
  · exact h.short p (List.mem_append_left _ hflight)
  · obtain ⟨seg, hseg, rfl⟩ := List.mem_map.mp hqueue
    rcases cb.kcp.ikcpSend_isFragment buffer len seg hseg with hold | ⟨hfrg, hlen⟩
    · exact h.short _ (List.mem_append_right _ (List.mem_map_of_mem hold))
    · have hmss := cb.mss_eq
      have hmtu := cb.mtu_lt
      refine ⟨hfrg, Nat.lt_of_le_of_lt hlen ?_⟩
      show cb.mss < 2 ^ 31
      omega

theorem Sendable.flushReady {cb : Ikcpcb} (h : cb.Sendable) : cb.flushReady.Sendable := by
  refine ⟨?_, by rw [waiting_flushReady]; exact h.short⟩
  obtain ⟨new, rest, -, ⟨probeWait, tsProbe, hready⟩, -⟩ := cb.flushReady_eq
  rw [hready]
  intro seg hseg
  rcases List.mem_append.mp hseg with hold | hnew
  · exact h.conv_eq seg hold
  · exact cb.numberFrom_conv _ _ seg hnew

theorem Sendable.ikcpFlush {cb : Ikcpcb} (h : cb.Sendable) : cb.ikcpFlush.1.Sendable := by
  cases hupdated : cb.updated with
  | false =>
    rw [ikcpFlush_of_not_updated hupdated]
    exact h
  | true =>
    obtain ⟨ssthresh, cwnd, incr, hflush⟩ := ikcpFlush_eq hupdated
    rw [hflush]
    have hsame : cb.flushReady.flushSndBuf.Sendable := by
      refine h.flushReady.drops ⟨rfl, ?_⟩ rfl
      rw [fixed_flushSndBuf]
    exact hsame.options rfl

/-- Every call keeps what is waiting such that heads can describe it. -/
theorem Sendable.call {cb : Ikcpcb} (h : cb.Sendable) (c : KcpCall) : (cb.call c).1.Sendable := by
  cases c with
  | send buffer len => exact h.ikcpSend buffer len
  | recv len => exact h.drops ⟨rfl, List.Sublist.refl _⟩ rfl
  | input data =>
    exact h.drops (cb.drops_ikcpInput data) (congrArg Settings.conv (settings_ikcpInput cb data))
  | update current =>
    show (cb.ikcpUpdate current).1.Sendable
    obtain ⟨tsFlush, hrun | hrun⟩ := cb.ikcpUpdate_cases current
    · rw [hrun]
      exact h.drops ⟨rfl, List.Sublist.refl _⟩ rfl
    · rw [hrun]
      exact Sendable.ikcpFlush (h.drops ⟨rfl, List.Sublist.refl _⟩ rfl)
  | flush => exact h.ikcpFlush
  | setmtu mtu => exact h.options (traffic_ikcpSetmtu cb mtu)
  | wndsize sndwnd rcvwnd => exact h.options (traffic_ikcpWndsize cb sndwnd rcvwnd)
  | nodelay nodelay interval resend nc =>
    exact h.options (traffic_ikcpNodelay cb nodelay interval resend nc)
  | interval interval => exact h.options rfl
  | minrto minrto => exact h.options rfl

/-! ## What is sent -/

/-- The segments that a call sends. -/
def callPackets (cb : Ikcpcb) : KcpCall → List Packet
  | .flush => if cb.updated then cb.flushPackets else []
  | .update current =>
    let r := (cb.startUpdate current).flushSlap
    if 0 ≤ r.2 then r.1.nextFlush.flushPackets else []
  | _ => []

theorem ikcpFlush_output (cb : Ikcpcb) :
    cb.ikcpFlush.2 = pack cb.mtu (if cb.updated then cb.flushPackets else []) := by
  cases hupdated : cb.updated with
  | false =>
    rw [ikcpFlush_of_not_updated hupdated]
    rfl
  | true =>
    obtain ⟨ssthresh, cwnd, incr, hflush⟩ := ikcpFlush_eq hupdated
    rw [hflush]
    rfl

/-- A call passes the segments it sends to the network, packed into datagrams. -/
theorem output_eq (cb : Ikcpcb) (c : KcpCall) : cb.output c = pack cb.mtu (cb.callPackets c) := by
  cases c with
  | flush => exact cb.ikcpFlush_output
  | update current =>
    unfold output callPackets ikcpUpdate
    dsimp only
    split
    · obtain ⟨tsFlush, hnext⟩ := cb.nextFlush_frame current
      rw [ikcpFlush_output, hnext]
      rfl
    · rfl
  | send buffer len => rfl
  | recv len => rfl
  | input data => rfl
  | setmtu mtu => rfl
  | wndsize sndwnd rcvwnd => rfl
  | nodelay nodelay interval resend nc => rfl
  | interval interval => rfl
  | minrto minrto => rfl

theorem flushHead_valid (cb : Ikcpcb) {cmd : Nat} (hcmd : IsCommand cmd) (sn ts : BitVec 32) :
    (⟨cb.flushHead cmd sn ts, []⟩ : Packet).Valid cb.conv :=
  ⟨rfl, hcmd, by show 0 < 256; decide, Nat.mod_lt _ (by decide), rfl, by show 0 < 2 ^ 31; decide⟩

/-- The heads of a flush are those that `ikcp_input` takes. -/
theorem Sendable.flushPackets_valid {cb : Ikcpcb} (h : cb.Sendable) :
    ∀ p ∈ cb.flushPackets, p.Valid cb.conv := by
  obtain ⟨probeWait, tsProbe, hprobed⟩ := cb.flushProbed_frame
  have hcontrol : cb.flushControl.conv = cb.conv := by
    show cb.flushProbed.conv = cb.conv
    rw [hprobed]
  have hready : cb.flushReady.conv = cb.conv := congrArg Settings.conv (settings_flushReady cb)
  intro p hp
  rcases List.mem_append.mp hp with hp | hp
  · rcases List.mem_append.mp hp with hp | hp
    · -- an acknowledgement
      obtain ⟨ack, -, rfl⟩ := List.mem_map.mp hp
      exact cb.flushHead_valid (.inr (.inl rfl)) ack.1 ack.2
    · -- a probe
      rw [← hcontrol]
      rcases List.mem_append.mp hp with hp | hp
      · split at hp
        · rw [List.mem_singleton.mp hp]
          exact flushHead_valid _ (.inr (.inr (.inl rfl))) _ _
        · cases hp
      · split at hp
        · rw [List.mem_singleton.mp hp]
          exact flushHead_valid _ (.inr (.inr (.inr rfl))) _ _
        · cases hp
  · -- data
    obtain ⟨seg, hseg, rfl⟩ := List.mem_map.mp hp
    have hmem := (List.mem_filter.mp hseg).1
    have hfixed := cb.flushReady.fixed_flushSegment seg
    have hwaiting : seg.payload ∈ cb.flushReady.waiting :=
      List.mem_append_left _ (List.mem_map_of_mem (f := fun seg => seg.payload) hmem)
    have hdata : (cb.flushReady.flushSegment seg).data = seg.data :=
      congrArg (fun f => f.2.data) hfixed
    refine ⟨?_, .inl rfl, Nat.mod_lt _ (by decide), Nat.mod_lt _ (by decide), rfl, ?_⟩
    · rw [← hready, ← h.flushReady.conv_eq seg hmem]
      exact congrArg Prod.fst hfixed
    · show (cb.flushReady.flushSegment seg).data.length < 2 ^ 31
      rw [hdata]
      exact (h.flushReady.short _ hwaiting).2

theorem Sendable.callPackets_valid {cb : Ikcpcb} (h : cb.Sendable) (c : KcpCall) :
    ∀ p ∈ cb.callPackets c, p.Valid cb.conv := by
  have hnone : ∀ p ∈ ([] : List Packet), p.Valid cb.conv := fun p hp => absurd hp List.not_mem_nil
  cases c with
  | flush =>
    show ∀ p ∈ (if cb.updated then cb.flushPackets else []), p.Valid cb.conv
    split
    · exact h.flushPackets_valid
    · exact hnone
  | update current =>
    unfold callPackets
    dsimp only
    split
    · obtain ⟨tsFlush, hnext⟩ := cb.nextFlush_frame current
      rw [hnext]
      have hclock : Sendable { cb with current := current, updated := true, tsFlush := tsFlush } :=
        h.drops ⟨rfl, List.Sublist.refl _⟩ rfl
      exact hclock.flushPackets_valid
    · exact hnone
  | send buffer len => exact hnone
  | recv len => exact hnone
  | input data => exact hnone
  | setmtu mtu => exact hnone
  | wndsize sndwnd rcvwnd => exact hnone
  | nodelay nodelay interval resend nc => exact hnone
  | interval interval => exact hnone
  | minrto minrto => exact hnone

/-! ## Main results -/

/-- A call as a step of a run. -/
def step (cb : Ikcpcb) (c : KcpCall) : Option Ikcpcb := some (cb.call c).1

/-- No call changes the connection. -/
theorem conv_call (cb : Ikcpcb) (c : KcpCall) : (cb.call c).1.conv = cb.conv := by
  cases c with
  | send buffer len => rfl
  | recv len => rfl
  | input data => exact congrArg Settings.conv (settings_ikcpInput cb data)
  | update current => exact congrArg Settings.conv (settings_ikcpUpdate cb current)
  | flush => exact congrArg Settings.conv (settings_ikcpFlush cb)
  | setmtu mtu => exact congrArg Traffic.conv (traffic_ikcpSetmtu cb mtu)
  | wndsize sndwnd rcvwnd => exact congrArg Traffic.conv (traffic_ikcpWndsize cb sndwnd rcvwnd)
  | nodelay nodelay interval resend nc =>
    exact congrArg Traffic.conv (traffic_ikcpNodelay cb nodelay interval resend nc)
  | interval interval => rfl
  | minrto minrto => rfl

/-- `ikcp_input` of a control block of the connection reads the segments, and takes all of them. -/
def ReadBack (conv : BitVec 32) (ps : List Packet) : Prop :=
  (∀ s : InputState, s.cb.conv = conv → inputLoop s (datagram ps) = (ps.foldl inputPacket s, 0)) ∧
    ∀ cb : Ikcpcb, cb.conv = conv → cb.ikcpInput (datagram ps) =
      (finishInput (ps.foldl inputPacket { cb := cb }) cb.sndUna, 0)

theorem readBack {conv : BitVec 32} {ps : List Packet} (hne : ps ≠ [])
    (hps : ∀ p ∈ ps, p.Valid conv) : ReadBack conv ps := by
  have hread : parseDatagram conv (datagram ps) = (ps, 0) := parseDatagram_datagram hps
  have hloop : ∀ s : InputState, s.cb.conv = conv →
      inputLoop s (datagram ps) = (ps.foldl inputPacket s, 0) := by
    intro s hs
    rw [inputLoop_eq, hs, hread]
  refine ⟨hloop, fun cb hcb => ?_⟩
  obtain ⟨p, hp⟩ := List.exists_mem_of_ne_nil ps hne
  have hlong : ¬(datagram ps).length < ikcpOverhead := by
    have hle := mem_datagram_length hp
    rw [Packet.encode_length] at hle
    omega
  rw [ikcpInput, if_neg hlong, hloop _ hcb]
  rfl

/-- All that is waiting fits into a datagram. -/
def Fits (cb : Ikcpcb) : Prop := ∀ p ∈ cb.waiting, ikcpOverhead + p.2.length ≤ cb.mtu

/-- The new size is not exceeded by what is waiting. -/
def KeepsFit (cb : Ikcpcb) : KcpCall → Prop
  | .setmtu mtu => 50 ≤ mtu.toInt → ∀ p ∈ cb.waiting, (ikcpOverhead + p.2.length : Nat) ≤ mtu.toInt
  | _ => True

instance (cb : Ikcpcb) (c : KcpCall) : Decidable (cb.KeepsFit c) :=
  match c with
  | .setmtu mtu => inferInstanceAs (Decidable (50 ≤ mtu.toInt →
      ∀ p ∈ cb.waiting, (ikcpOverhead + p.2.length : Nat) ≤ mtu.toInt))
  | .send _ _ | .recv _ | .input _ | .update _ | .flush | .wndsize _ _ | .nodelay _ _ _ _
  | .interval _ | .minrto _ => .isTrue trivial

theorem Fits.drops {cb cb' : Ikcpcb} (h : cb.Fits) (hdrops : cb.Drops cb') (hmtu : cb'.mtu = cb.mtu) :
    cb'.Fits := by
  intro p hp
  rw [hmtu]
  apply h
  rw [waiting_eq] at hp ⊢
  rw [hdrops.sndQueue_eq] at hp
  exact ((hdrops.sublist.map _).append_right _).subset hp

theorem Fits.options {cb cb' : Ikcpcb} (h : cb.Fits) (hsame : cb'.traffic = cb.traffic)
    (hmtu : cb'.mtu = cb.mtu) : cb'.Fits := by
  have hbuf : cb'.sndBuf = cb.sndBuf := congrArg Traffic.sndBuf hsame
  exact h.drops ⟨congrArg Traffic.sndQueue hsame, by rw [hbuf]⟩ hmtu

/-- Only a new size can be exceeded. -/
theorem Fits.call {cb : Ikcpcb} (h : cb.Fits) {c : KcpCall} (hc : cb.KeepsFit c) :
    (cb.call c).1.Fits := by
  have hflush : ∀ cb : Ikcpcb, cb.Fits → cb.ikcpFlush.1.Fits := by
    intro cb h p hp
    rw [waiting_ikcpFlush] at hp
    rw [show cb.ikcpFlush.1.mtu = cb.mtu from congrArg Settings.mtu (settings_ikcpFlush cb)]
    exact h p hp
  cases c with
  | send buffer len =>
    intro p hp
    rcases List.mem_append.mp hp with hflight | hqueue
    · exact h p (List.mem_append_left _ hflight)
    · obtain ⟨seg, hseg, rfl⟩ := List.mem_map.mp hqueue
      rcases cb.kcp.ikcpSend_isFragment buffer len seg hseg with hold | ⟨-, hlen⟩
      · exact h _ (List.mem_append_right _ (List.mem_map_of_mem hold))
      · have hmss := cb.mss_eq
        show ikcpOverhead + seg.payload.2.length ≤ cb.mtu
        have hle : seg.payload.2.length ≤ cb.mss := hlen
        omega
  | recv len => exact h.drops ⟨rfl, List.Sublist.refl _⟩ rfl
  | input data =>
    exact h.drops (cb.drops_ikcpInput data) (congrArg Settings.mtu (settings_ikcpInput cb data))
  | update current =>
    show (cb.ikcpUpdate current).1.Fits
    obtain ⟨tsFlush, hrun | hrun⟩ := cb.ikcpUpdate_cases current
    · rw [hrun]
      exact h.drops ⟨rfl, List.Sublist.refl _⟩ rfl
    · rw [hrun]
      apply hflush
      exact h.drops ⟨rfl, List.Sublist.refl _⟩ rfl
  | flush => exact hflush cb h
  | setmtu mtu =>
    intro p hp
    have hsame := traffic_ikcpSetmtu cb mtu
    have hwaiting : (cb.ikcpSetmtu mtu).waiting = cb.waiting := by
      unfold waiting
      rw [show (cb.ikcpSetmtu mtu).sndBuf = cb.sndBuf from congrArg Traffic.sndBuf hsame,
        show (cb.ikcpSetmtu mtu).sndQueue = cb.sndQueue from congrArg Traffic.sndQueue hsame]
    have hmem : p ∈ cb.waiting := hwaiting ▸ hp
    show ikcpOverhead + p.2.length ≤ (cb.ikcpSetmtu mtu).mtu
    unfold ikcpSetmtu
    split
    · exact h p hmem
    · rename_i haccepted
      have hfit := hc (by omega) p hmem
      show ikcpOverhead + p.2.length ≤ mtu.toInt.toNat
      omega
  | wndsize sndwnd rcvwnd =>
    refine h.options (traffic_ikcpWndsize cb sndwnd rcvwnd) ?_
    show (cb.ikcpWndsize sndwnd rcvwnd).mtu = cb.mtu
    unfold ikcpWndsize
    dsimp only
    split <;> split <;> rfl
  | nodelay nodelay interval resend nc =>
    refine h.options (traffic_ikcpNodelay cb nodelay interval resend nc) ?_
    show (cb.ikcpNodelay nodelay interval resend nc).mtu = cb.mtu
    unfold ikcpNodelay
    dsimp only
    repeat' split
    all_goals rfl
  | interval interval => exact h.options rfl rfl
  | minrto minrto => exact h.options rfl rfl

/-- What a call sends is waiting, or has no data. -/
theorem callPackets_data (cb : Ikcpcb) (c : KcpCall) :
    ∀ p ∈ cb.callPackets c, p.data = [] ∨ ∃ q ∈ cb.waiting, p.data = q.2 := by
  have hflush : ∀ cb : Ikcpcb, ∀ p ∈ cb.flushPackets,
      p.data = [] ∨ ∃ q ∈ cb.waiting, p.data = q.2 := by
    intro cb p hp
    rcases List.mem_append.mp hp with hp | hp
    · left
      rcases List.mem_append.mp hp with hp | hp
      · obtain ⟨ack, -, rfl⟩ := List.mem_map.mp hp
        rfl
      · rcases List.mem_append.mp hp with hp | hp
        · split at hp
          · rw [List.mem_singleton.mp hp]
          · cases hp
        · split at hp
          · rw [List.mem_singleton.mp hp]
          · cases hp
    · right
      obtain ⟨seg, hseg, rfl⟩ := List.mem_map.mp hp
      have hmem := (List.mem_filter.mp hseg).1
      have hwaiting : seg.payload ∈ cb.flushReady.waiting :=
        List.mem_append_left _ (List.mem_map_of_mem (f := fun seg => seg.payload) hmem)
      rw [waiting_flushReady] at hwaiting
      exact ⟨_, hwaiting, congrArg (fun f => f.2.data) (cb.flushReady.fixed_flushSegment seg)⟩
  have hnone : ∀ p ∈ ([] : List Packet), p.data = [] ∨ ∃ q ∈ cb.waiting, p.data = q.2 :=
    fun p hp => absurd hp List.not_mem_nil
  cases c with
  | flush =>
    show ∀ p ∈ (if cb.updated then cb.flushPackets else []), _
    split
    · exact hflush cb
    · exact hnone
  | update current =>
    unfold callPackets
    dsimp only
    split
    · obtain ⟨tsFlush, hnext⟩ := cb.nextFlush_frame current
      rw [hnext]
      exact hflush _
    · exact hnone
  | send buffer len => exact hnone
  | recv len => exact hnone
  | input data => exact hnone
  | setmtu mtu => exact hnone
  | wndsize sndwnd rcvwnd => exact hnone
  | nodelay nodelay interval resend nc => exact hnone
  | interval interval => exact hnone
  | minrto minrto => exact hnone

/-- In every run in which `ikcp_setmtu` is not called with a size that something exceeds which is
waiting, whatever the peer sends, no datagram is longer than the `mtu`. -/
theorem datagrams_within_mtu {conv : BitVec 32} {options : Options} {cs : List KcpCall}
    {cb : Ikcpcb} (hrun : GuardedRun step KeepsFit (driverCreate conv options) cs cb) (c : KcpCall) :
    ∀ d ∈ cb.output c, d.length ≤ cb.mtu := by
  have hfits : cb.Fits := by
    refine hrun.invariant (fun p hp => ?_) fun cb c cb' h hc hstep => ?_
    · have hempty := traffic_driverCreate conv options
      rw [waiting, show (driverCreate conv options).sndBuf = [] from congrArg Traffic.sndBuf hempty,
        show (driverCreate conv options).sndQueue = [] from congrArg Traffic.sndQueue hempty] at hp
      cases hp
    · cases hstep
      exact h.call hc
  have hmtu := cb.mtu_min
  rw [output_eq, pack_within_iff]
  intro p hp
  rw [Packet.encode_length]
  rcases cb.callPackets_data c p hp with hnil | ⟨q, hq, hdata⟩
  · rw [hnil]
    show ikcpOverhead + 0 ≤ cb.mtu
    unfold ikcpOverhead
    omega
  · rw [hdata]
    exact hfits q hq

/-- 60 bytes wait when the size is set to 100, and 80 more are sent. -/
def shrunk : List KcpCall :=
  [.update 0, .send (List.replicate 60 7) 60, .setmtu 100, .send (List.replicate 80 7) 80]

/-- The smaller size holds what waits, and the next flush fills a datagram of that size. -/
theorem datagrams_within_mtu_smaller :
    ∃ cb, GuardedRun step KeepsFit (driverCreate 7 {}) shrunk cb ∧ cb.mtu = 100 ∧
      cb.waiting.map (fun p => p.2.length) = [76, 64] ∧
      (cb.output .flush).map List.length = [100, 88] ∧
      ∀ d ∈ cb.output .flush, d.length ≤ cb.mtu := by
  have hrun : ((guardedExec step KeepsFit (driverCreate 7 {}) shrunk).any fun cb =>
      decide (cb.mtu = 100 ∧ cb.waiting.map (fun p => p.2.length) = [76, 64] ∧
        (cb.output .flush).map List.length = [100, 88])) = true := by
    decide +kernel
  obtain ⟨cb, hexec, hend⟩ := (Option.any_eq_true _ _).mp hrun
  obtain ⟨hmtu, hwaiting, hlengths⟩ := of_decide_eq_true hend
  have hguarded := GuardedRun.of_exec hexec
  exact ⟨cb, hguarded, hmtu, hwaiting, hlengths, datagrams_within_mtu hguarded .flush⟩

end Ikcpcb

end Evlite
