import Evlite.Kcp.Messages

/-!
# What the Sides Are Ready For

Three things that hold of the sides of a conversation in every run, and that keep it from getting
stuck. A segment that is next does not wait in the reorder buffer while there is room in the
queue. The window of the sender is never closed by an option. And of the fragments of a message,
none is missing in the send queue: their numbers count down to `0`.

## Main results

- `ready_run`: they hold in every run.
-/

namespace Evlite

open Lib (GuardedRun)

/-! ## The reorder buffer -/

namespace Kcp

/-- The next segment waits in the reorder buffer only if the queue is as long as the smallest
window. -/
def Settled (kcp : Kcp) : Prop :=
  ∀ seg ∈ kcp.rcvBuf.head?, seg.sn = kcp.rcvNxt → ikcpWndRcv ≤ kcp.rcvQueue.length

theorem moveAvailable_settled (rcvWnd : BitVec 32) (rcvBuf rcvQueue : List Segment)
    (rcvNxt : BitVec 32) :
    ∀ seg ∈ (moveAvailable rcvWnd rcvBuf rcvQueue rcvNxt).1.head?,
      seg.sn = (moveAvailable rcvWnd rcvBuf rcvQueue rcvNxt).2.2 →
      rcvWnd.toNat ≤ (moveAvailable rcvWnd rcvBuf rcvQueue rcvNxt).2.1.length := by
  induction rcvBuf generalizing rcvQueue rcvNxt with
  | nil => exact fun seg hseg => absurd hseg (by simp [moveAvailable])
  | cons first rcvBuf ih =>
    unfold moveAvailable
    split
    · exact ih _ _
    · -- the first segment is not moved
      rename_i hstop
      intro seg hseg hnext
      cases Option.mem_some.mp hseg
      exact Nat.le_of_not_lt fun hroom => hstop ⟨hnext, hroom⟩

/-- After a refill nothing is left that has room. -/
theorem settled_refill {kcp : Kcp} (hmin : ikcpWndRcv ≤ kcp.rcvWnd.toNat) : kcp.refill.Settled :=
  fun seg hseg hnext => Nat.le_trans hmin
    (moveAvailable_settled kcp.rcvWnd kcp.rcvBuf kcp.rcvQueue kcp.rcvNxt seg hseg hnext)

theorem Settled.congr {kcp kcp' : Kcp} (h : kcp.Settled) (hnxt : kcp'.rcvNxt = kcp.rcvNxt)
    (hbuf : kcp'.rcvBuf = kcp.rcvBuf) (hqueue : kcp'.rcvQueue = kcp.rcvQueue) : kcp'.Settled := by
  unfold Settled
  rw [hnxt, hbuf, hqueue]
  exact h

theorem Settled.ikcpParseData {kcp : Kcp} (h : kcp.Settled) (hmin : ikcpWndRcv ≤ kcp.rcvWnd.toNat)
    (newseg : Segment) : (kcp.ikcpParseData newseg).Settled := by
  unfold Kcp.ikcpParseData
  split
  · exact h
  · split
    · exact settled_refill hmin
    · exact settled_refill hmin

theorem inputPacket_rcvWnd (kcp : Kcp) (p : Packet) : (kcp.inputPacket p).rcvWnd = kcp.rcvWnd := by
  obtain ⟨kcp', hsame, ⟨hrun, -⟩ | ⟨-, -, ⟨-, hrun⟩ | ⟨-, hrun⟩⟩⟩ := kcp.inputPacket_cases p
  · rw [hrun, hsame.rcvWnd_eq]
  · rw [hrun]
    exact hsame.rcvWnd_eq
  · rw [hrun, Ikcpcb.parseData_frame]
    exact hsame.rcvWnd_eq

theorem inputPackets_rcvWnd (kcp : Kcp) (ps : List Packet) :
    (ps.foldl Kcp.inputPacket kcp).rcvWnd = kcp.rcvWnd := by
  induction ps generalizing kcp with
  | nil => rfl
  | cons p ps ih => exact (ih _).trans (kcp.inputPacket_rcvWnd p)

theorem Settled.inputPacket {kcp : Kcp} (h : kcp.Settled) (hmin : ikcpWndRcv ≤ kcp.rcvWnd.toNat)
    (p : Packet) : (kcp.inputPacket p).Settled := by
  obtain ⟨kcp', hsame, hcases⟩ := kcp.inputPacket_cases p
  have h' : kcp'.Settled := h.congr hsame.rcvNxt_eq hsame.rcvBuf_eq hsame.rcvQueue_eq
  rcases hcases with ⟨hrun, -⟩ | ⟨-, -, ⟨-, hrun⟩ | ⟨-, hrun⟩⟩
  · rw [hrun]
    exact h'
  · rw [hrun]
    exact h'.congr rfl rfl rfl
  · rw [hrun]
    have hpushed : (kcp'.ikcpAckPush p.head.sn p.head.ts).Settled := h'.congr rfl rfl rfl
    apply hpushed.ikcpParseData
    rw [show (kcp'.ikcpAckPush p.head.sn p.head.ts).rcvWnd = kcp.rcvWnd from hsame.rcvWnd_eq]
    exact hmin

theorem Settled.inputPackets {kcp : Kcp} (h : kcp.Settled) (hmin : ikcpWndRcv ≤ kcp.rcvWnd.toNat)
    (ps : List Packet) : (ps.foldl Kcp.inputPacket kcp).Settled := by
  induction ps generalizing kcp with
  | nil => exact h
  | cons p ps ih =>
    apply ih (h.inputPacket hmin p)
    rw [inputPacket_rcvWnd]
    exact hmin

end Kcp

namespace Ikcpcb

/-- No call leaves a segment behind. -/
theorem settled_call {cb : Ikcpcb} (h : cb.kcp.Settled) (c : KcpCall) :
    (cb.call c).1.kcp.Settled := by
  -- an option does not touch what has come in
  have hoptions : ∀ cb' : Ikcpcb, cb'.traffic = cb.traffic → cb'.kcp.Settled := fun cb' htraffic =>
    h.congr (congrArg Traffic.rcvNxt htraffic) (congrArg Traffic.rcvBuf htraffic)
      (congrArg Traffic.rcvQueue htraffic)
  cases c with
  | send buffer len => exact h.congr rfl rfl rfl
  | recv len =>
    show (cb.ikcpRecv len).1.kcp.Settled
    rw [kcp_ikcpRecv]
    rcases cb.kcp.ikcpRecv_cases len with ⟨hnone, -⟩ | ⟨probe, hrun, -⟩
    · rw [hnone]
      exact h
    · rw [hrun]
      exact Kcp.Settled.congr (Kcp.settled_refill cb.rcvWnd_min) rfl rfl rfl
  | input data =>
    show (cb.ikcpInput data).1.kcp.Settled
    rw [(cb.kcp_ikcpInput data).1, Kcp.ikcpInput_eq]
    exact h.inputPackets cb.rcvWnd_min _
  | update current =>
    obtain ⟨hnxt, hbuf, hqueue⟩ := cb.ikcpUpdate_received current
    exact h.congr hnxt hbuf hqueue
  | flush =>
    obtain ⟨hnxt, hbuf, hqueue⟩ := cb.ikcpFlush_received
    exact h.congr hnxt hbuf hqueue
  | setmtu mtu => exact hoptions _ (traffic_ikcpSetmtu cb mtu)
  | wndsize sndwnd rcvwnd => exact hoptions _ (traffic_ikcpWndsize cb sndwnd rcvwnd)
  | nodelay nodelay interval resend nc =>
    exact hoptions _ (traffic_ikcpNodelay cb nodelay interval resend nc)
  | interval interval => exact h.congr rfl rfl rfl
  | minrto minrto => exact h.congr rfl rfl rfl

/-! ## The window of the sender -/

/-- `ikcp_wndsize` does not close the window. -/
theorem sndWnd_call {cb : Ikcpcb} (h : cb.sndWnd ≠ 0) (c : KcpCall) : (cb.call c).1.sndWnd ≠ 0 := by
  have hsettings : c.isOption = false → (cb.call c).1.sndWnd ≠ 0 := by
    intro hno
    have hsame : (cb.call c).1.sndWnd = cb.sndWnd := congrArg Settings.sndWnd (cb.settings_call hno)
    rwa [hsame]
  cases c with
  | setmtu mtu =>
    show (cb.ikcpSetmtu mtu).sndWnd ≠ 0
    unfold ikcpSetmtu
    split <;> exact h
  | wndsize sndwnd rcvwnd =>
    have hnew : 0 < sndwnd.toInt → sndwnd ≠ 0 := by
      rintro hpos rfl
      exact absurd hpos (by decide)
    show (cb.ikcpWndsize sndwnd rcvwnd).sndWnd ≠ 0
    unfold ikcpWndsize
    dsimp only
    by_cases hpos : 0 < sndwnd.toInt
    · simp only [if_pos hpos]
      split <;> exact hnew hpos
    · simp only [if_neg hpos]
      split <;> exact h
  | nodelay nodelay interval resend nc =>
    show (cb.ikcpNodelay nodelay interval resend nc).sndWnd ≠ 0
    unfold ikcpNodelay
    dsimp only
    repeat' split
    all_goals exact h
  | interval interval => exact h
  | minrto minrto => exact h
  | _ => exact hsettings rfl

theorem sndWnd_driverCreate (conv : BitVec 32) (options : Options) :
    (driverCreate conv options).sndWnd ≠ 0 := by
  have hinit : ({ conv := conv } : Ikcpcb).sndWnd ≠ 0 := (by decide : (32 : BitVec 32) ≠ 0)
  have hnodelay := sndWnd_call hinit (.nodelay 1 options.interval options.resend 1)
  exact sndWnd_call (sndWnd_call hnodelay (.setmtu options.mtu))
    (.wndsize options.sndwnd options.rcvwnd)

end Ikcpcb

/-! ## Fragments -/

/-- After a number that is not `0` comes the next smaller one. -/
def CountedDown : List Nat → Prop
  | [] => True
  | k :: ks => (k = 0 ∨ ks.head? = some (k - 1)) ∧ CountedDown ks

theorem CountedDown.append {ks ls : List Nat} (hks : CountedDown ks) (hls : CountedDown ls) :
    CountedDown (ks ++ ls) := by
  induction ks with
  | nil => exact hls
  | cons k ks ih =>
    -- only the last number can have `ls` after it, and that one is `0`
    refine ⟨hks.1.imp_right fun hnext => ?_, ih hks.2⟩
    cases ks with
    | nil => cases hnext
    | cons _ _ => exact hnext

theorem CountedDown.right {ks ls : List Nat} (h : CountedDown (ks ++ ls)) : CountedDown ls := by
  induction ks with
  | nil => exact h
  | cons k ks ih => exact ih h.2

/-- The last number is `0`. -/
theorem CountedDown.last {ks : List Nat} {k : Nat} (h : CountedDown (ks ++ [k])) : k = 0 := by
  rcases h.right.1 with hzero | hnext
  · exact hzero
  · cases hnext

/-- There are as many numbers after the first one as it says. -/
theorem CountedDown.le_length {k : Nat} {ks : List Nat} (h : CountedDown (k :: ks)) :
    k ≤ ks.length := by
  induction ks generalizing k with
  | nil =>
    rcases h.1 with hzero | hnext
    · omega
    · cases hnext
  | cons l ks ih =>
    have hrest := ih h.2
    rw [List.length_cons]
    rcases h.1 with hzero | hnext
    · omega
    · cases hnext
      omega

theorem countedDown_range (count : Nat) : CountedDown (List.range count).reverse := by
  induction count with
  | zero => trivial
  | succ count ih =>
    rw [List.range_succ, List.reverse_append]
    refine ⟨?_, ih⟩
    cases count with
    | zero => exact .inl rfl
    | succ count =>
      right
      rw [List.range_succ, List.reverse_append]
      rfl

theorem countedDown_zeros (count : Nat) : CountedDown (List.replicate count 0) := by
  induction count with
  | zero => trivial
  | succ count ih => exact ⟨.inl rfl, ih⟩

namespace Kcp

/-- In stream mode every fragment is a message. -/
theorem fragments_stream {kcp : Kcp} (hmode : kcp.stream = true) (count : Nat) (buffer : List UInt8) :
    (kcp.fragments count buffer).map Segment.frg = List.replicate count 0 := by
  induction count generalizing buffer with
  | zero => rfl
  | succ count ih =>
    have hfrg : (if kcp.stream then 0 else count) = 0 := by
      rw [hmode]
      rfl
    rw [fragments, List.map_cons, ih, List.replicate_succ]
    show (if kcp.stream then 0 else count) :: _ = _
    rw [hfrg]

theorem countedDown_fragments (kcp : Kcp) (count : Nat) (buffer : List UInt8) :
    CountedDown ((kcp.fragments count buffer).map Segment.frg) := by
  cases hmode : kcp.stream with
  | false =>
    have hcounted := fragments_counted hmode count buffer
    rw [List.map_map] at hcounted
    rw [show (kcp.fragments count buffer).map Segment.frg = (List.range count).reverse from hcounted]
    exact countedDown_range count
  | true =>
    rw [fragments_stream hmode]
    exact countedDown_zeros count

theorem countedDown_sendFragments {kcp : Kcp} {before : List Nat}
    (h : CountedDown (before ++ kcp.sndQueue.map Segment.frg)) (buffer : List UInt8) (sent : Nat) :
    CountedDown (before ++ (kcp.sendFragments buffer sent).1.sndQueue.map Segment.frg) := by
  unfold sendFragments
  dsimp only
  split
  · split <;> exact h
  · rw [List.map_append, ← List.append_assoc]
    exact h.append (kcp.countedDown_fragments _ _)

/-- What `ikcp_send` makes is complete, also where it fills up the last segment. -/
theorem countedDown_ikcpSend {kcp : Kcp} {before : List Nat}
    (h : CountedDown (before ++ kcp.sndQueue.map Segment.frg)) (buffer : List UInt8) (len : Int) :
    CountedDown (before ++ (kcp.ikcpSend buffer len).1.sndQueue.map Segment.frg) := by
  unfold ikcpSend
  split
  · exact h
  · dsimp only
    split
    · rename_i old htail
      obtain ⟨-, hqueue, -⟩ := streamTail_some htail
      -- the last segment was the end of a message
      have hold : old.frg = 0 := by
        rw [hqueue, List.map_append, ← List.append_assoc] at h
        exact h.last
      have hfill : ∀ bytes, CountedDown (before ++ (kcp.fillTail old bytes).sndQueue.map Segment.frg) := by
        intro bytes
        rw [hqueue, List.map_append, List.map_singleton, hold] at h
        rw [show (kcp.fillTail old bytes).sndQueue.map Segment.frg =
          kcp.sndQueue.dropLast.map Segment.frg ++ [0] from List.map_append]
        exact h
      split
      · exact hfill _
      · exact countedDown_sendFragments (hfill _) _ _
    · split
      · exact h
      · exact countedDown_sendFragments h _ _

end Kcp

/-! ## Both sides -/

namespace Conversation

/-- The fragments that were numbered and those in the send queue are complete. -/
def Side.Counted (s : Side) : Prop :=
  CountedDown (s.sent.map Prod.fst ++ s.cb.sndQueue.map Segment.frg)

theorem Side.Counted.call {s : Side} (h : s.Counted) (theirs : Nat) (c : KcpCall) :
    (s.call theirs c).Counted := by
  have hfrgs : ∀ segs : List Segment, (segs.map Segment.payload).map Prod.fst = segs.map Segment.frg :=
    fun segs => List.map_map
  have hqueue := congrArg (List.map Prod.fst) (s.cb.numbered_sndQueue c)
  rw [List.map_append, hfrgs] at hqueue
  show CountedDown ((s.sent ++ s.cb.numbered c).map Prod.fst ++
    (s.cb.call c).1.sndQueue.map Segment.frg)
  -- what is numbered comes off the send queue, and only `ikcp_send` adds to it
  rw [List.map_append, List.append_assoc, hqueue]
  cases c with
  | send buffer len =>
    dsimp only
    rw [hfrgs]
    exact @Kcp.countedDown_ikcpSend s.cb.kcp _ h buffer len
  | _ =>
    dsimp only
    rw [hfrgs]
    exact h

/-- What the conversation needs to go on. -/
structure Ready (l : Conversation) (conv : BitVec 32) : Prop where
  orderly : l.Orderly conv
  settled : ∀ who, (l who).cb.kcp.Settled
  sndWnd_ne : ∀ who, (l who).cb.sndWnd ≠ 0
  counted : ∀ who, (l who).Counted

/-- What holds of a side and is kept by calls and datagrams holds after a step. -/
theorem forall_step {I : Side → Prop} (hcall : ∀ s theirs c, I s → I (s.call theirs c))
    (hinput : ∀ s data, I s → I (s.input data)) {l l' : Conversation} {e : Event}
    (h : ∀ who, I (l who)) (hstep : step l e = some l') : ∀ who, I (l' who) := by
  have hupdate : ∀ who s', I s' → ∀ side, I (Function.update l who s' side) := by
    intro who s' hs' side
    by_cases heq : side = who
    · subst heq
      rw [Function.update_self]
      exact hs'
    · rw [Function.update_of_ne heq]
      exact h side
  cases e with
  | call who c =>
    simp only [step] at hstep
    split at hstep
    · cases hstep
    · cases hstep
      exact hupdate who _ (hcall _ _ _ (h who))
  | deliver who i =>
    obtain ⟨d, -, heq⟩ := Option.map_eq_some_iff.mp hstep
    subst heq
    exact hupdate who _ (hinput _ _ (h who))

theorem ready_step {l l' : Conversation} {conv : BitVec 32} {e : Event} (h : l.Ready conv)
    (htimely : l.Timely e) (hstep : step l e = some l') : l'.Ready conv where
  orderly := orderly_step h.orderly htimely hstep
  settled := forall_step (I := fun s => s.cb.kcp.Settled)
    (fun _ _ c hs => Ikcpcb.settled_call hs c)
    (fun _ data hs => Ikcpcb.settled_call hs (.input data)) h.settled hstep
  sndWnd_ne := forall_step (I := fun s => s.cb.sndWnd ≠ 0)
    (fun _ _ c hs => Ikcpcb.sndWnd_call hs c)
    (fun _ data hs => Ikcpcb.sndWnd_call hs (.input data)) h.sndWnd_ne hstep
  counted := by
    apply forall_step (fun _ theirs c hs => hs.call theirs c) ?_ h.counted hstep
    intro s data hs
    unfold Side.Counted
    show CountedDown (s.sent.map Prod.fst ++ (s.cb.ikcpInput data).1.sndQueue.map Segment.frg)
    rw [(s.cb.drops_ikcpInput data).sndQueue_eq]
    exact hs

theorem ready_start {conv : BitVec 32} {options : Bool → Ikcpcb.Options}
    (hoptions : ∀ who, (options who).rcvwnd.toInt ≤ 2 ^ 30) : (start conv options).Ready conv where
  orderly := orderly_start hoptions
  settled := by
    intro who seg hseg
    have hbuf : (start conv options who).cb.rcvBuf = [] :=
      congrArg Ikcpcb.Traffic.rcvBuf (Ikcpcb.traffic_driverCreate conv (options who))
    rw [Ikcpcb.kcp_rcvBuf, hbuf] at hseg
    cases hseg
  sndWnd_ne := fun who => Ikcpcb.sndWnd_driverCreate conv (options who)
  counted := by
    intro who
    have hqueue : (start conv options who).cb.sndQueue = [] :=
      congrArg Ikcpcb.Traffic.sndQueue (Ikcpcb.traffic_driverCreate conv (options who))
    unfold Side.Counted
    rw [hqueue]
    trivial

/-- So it is in every run. -/
theorem ready_run {conv : BitVec 32} {options : Bool → Ikcpcb.Options} {es : List Event}
    {l : Conversation} (hoptions : ∀ who, (options who).rcvwnd.toInt ≤ 2 ^ 30)
    (hrun : GuardedRun step Timely (start conv options) es l) : l.Ready conv :=
  hrun.invariant (ready_start hoptions) fun _ _ _ h htimely hstep => ready_step h htimely hstep

end Conversation

end Evlite
