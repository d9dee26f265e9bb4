import Evlite.Kcp.Transfer
import Mathlib.Algebra.Group.Int.Defs
import Mathlib.Data.List.Sort

/-!
# Two Sides of a Conversation

Two control blocks of one conversation and the network between them. Whatever is called on a
side, the datagrams it passes on are posted, and a posted datagram may come in on the other side
at any time: late, out of order, any number of times, or never.

A side may number any number of segments, and the numbers on the wire wrap around. A datagram
that is too old is then mistaken for a new one, so a datagram must not come in after `2 ^ 29`
segments have been numbered since it was posted, on either side.

## Main results

- `sane_step`: in either direction, the two control blocks are the parties of a transfer.
- `refines_selective_repeat`: so it is in every run.
- `received_in_order`: what is received is a beginning of what was accepted.
- `idle_complete`: if nothing is waiting, all that was accepted has arrived.
-/

namespace Evlite

open Lib (GuardedRun guardedExec)
open Lib.Serial (ofNat_inj_of_close)
open Lib.SlidingWindow

namespace Ikcpcb

/-! ## What a call sends -/

/-- What a flush sends: acknowledgements that are due, probes, and what is in flight after it. -/
theorem flushPackets_cases (cb : Ikcpcb) :
    ∀ p ∈ cb.flushPackets, p.head.una = cb.rcvNxt ∧
      ((p.head.cmd = ikcpCmdAck ∧ ∃ a ∈ cb.acklist, p.head.sn = a.1) ∨
        p.head.cmd = ikcpCmdWask ∨ p.head.cmd = ikcpCmdWins ∨
        ∃ seg ∈ cb.flushReady.flushSndBuf.sndBuf, p = sentPacket seg) := by
  obtain ⟨probeWait, tsProbe, hprobed⟩ := cb.flushProbed_frame
  have hcontrol : cb.flushControl.rcvNxt = cb.rcvNxt := by
    show cb.flushProbed.rcvNxt = cb.rcvNxt
    rw [hprobed]
  intro p hp
  rcases List.mem_append.mp hp with hp | hp
  · rcases List.mem_append.mp hp with hp | hp
    · obtain ⟨ack, hack, rfl⟩ := List.mem_map.mp hp
      exact ⟨rfl, .inl ⟨rfl, ack, hack, rfl⟩⟩
    · -- a probe
      rcases List.mem_append.mp hp with hp | hp
      · split at hp
        · rw [List.mem_singleton.mp hp]
          exact ⟨hcontrol, .inr (.inl rfl)⟩
        · cases hp
      · split at hp
        · rw [List.mem_singleton.mp hp]
          exact ⟨hcontrol, .inr (.inr (.inl rfl))⟩
        · cases hp
  · obtain ⟨seg, hseg, rfl⟩ := List.mem_map.mp hp
    obtain ⟨hmem, hsent⟩ := List.mem_filter.mp hseg
    refine ⟨?_, .inr (.inr (.inr ⟨_, List.mem_map_of_mem hmem, rfl⟩))⟩
    -- a segment that is sent takes what is to be acknowledged with it
    show (cb.flushReady.flushSegment seg).una = cb.rcvNxt
    obtain ⟨why, hwhy⟩ := Option.isSome_iff_exists.mp hsent
    obtain ⟨new, rest, -, ⟨probeWait', tsProbe', hready⟩, -⟩ := cb.flushReady_eq
    have hnxt : cb.flushReady.rcvNxt = cb.rcvNxt := by rw [hready]
    unfold flushSegment
    rw [hwhy]
    exact hnxt

/-- What a call sends, and what it leaves of the acknowledgements that are due. -/
theorem callPackets_cases (cb : Ikcpcb) {c : KcpCall} (hc : c.isInput = false) :
    (cb.callPackets c = [] ∧ (cb.call c).1.acklist = cb.acklist) ∨
      (cb.call c).1.acklist = [] ∧ ∀ p ∈ cb.callPackets c, p.head.una = cb.rcvNxt ∧
        ((p.head.cmd = ikcpCmdAck ∧ ∃ a ∈ cb.acklist, p.head.sn = a.1) ∨
          p.head.cmd = ikcpCmdWask ∨ p.head.cmd = ikcpCmdWins ∨
          ∃ seg ∈ (cb.call c).1.sndBuf, p = sentPacket seg) := by
  have hflush : ∀ cb : Ikcpcb, cb.updated = true →
      cb.ikcpFlush.1.acklist = [] ∧ cb.ikcpFlush.1.sndBuf = cb.flushReady.flushSndBuf.sndBuf := by
    intro cb hupdated
    obtain ⟨ssthresh, cwnd, incr, hflush⟩ := ikcpFlush_eq hupdated
    obtain ⟨new, rest, -, ⟨probeWait, tsProbe, hready⟩, -⟩ := cb.flushReady_eq
    rw [hflush]
    refine ⟨?_, rfl⟩
    show cb.flushReady.acklist = []
    rw [hready]
  cases c with
  | send buffer len => exact .inl ⟨rfl, rfl⟩
  | recv len => exact .inl ⟨rfl, rfl⟩
  | input data => cases hc
  | update current =>
    unfold callPackets
    show _ ∧ (cb.ikcpUpdate current).1.acklist = _ ∨ (cb.ikcpUpdate current).1.acklist = _ ∧ _
    unfold ikcpUpdate
    dsimp only
    obtain ⟨slap, hslap⟩ := cb.flushSlap_frame current
    obtain ⟨next, hnext⟩ := cb.nextFlush_frame current
    split
    · right
      rename_i hdue
      have hcases := flushPackets_cases
        { cb with current := current, updated := true, tsFlush := next }
      obtain ⟨hacks, hbuf⟩ := hflush { cb with current := current, updated := true, tsFlush := next } rfl
      rw [← hbuf] at hcases
      rw [hnext]
      refine ⟨hacks, fun p hp => ?_⟩
      obtain ⟨huna, hkind⟩ := hcases p hp
      refine ⟨huna, hkind.imp_right (Or.imp_right (Or.imp_right ?_))⟩
      rintro ⟨seg, hseg, heq⟩
      refine ⟨seg, ?_, heq⟩
      show seg ∈ (cb.ikcpUpdate current).1.sndBuf
      unfold ikcpUpdate
      dsimp only
      rw [if_pos hdue, hnext]
      exact hseg
    · left
      rw [hslap]
      exact ⟨rfl, rfl⟩
  | flush =>
    show (if cb.updated then cb.flushPackets else []) = [] ∧ cb.ikcpFlush.1.acklist = _ ∨
      cb.ikcpFlush.1.acklist = _ ∧ _
    cases hupdated : cb.updated with
    | false =>
      left
      rw [ikcpFlush_of_not_updated hupdated]
      exact ⟨rfl, rfl⟩
    | true =>
      right
      obtain ⟨hacks, hbuf⟩ := hflush cb hupdated
      refine ⟨hacks, fun p hp => ?_⟩
      unfold callPackets at hp
      rw [hupdated] at hp
      have hcases := cb.flushPackets_cases p hp
      rw [← hbuf] at hcases
      exact hcases
  | setmtu mtu => exact .inl ⟨rfl, congrArg Traffic.acklist (traffic_ikcpSetmtu cb mtu)⟩
  | wndsize sndwnd rcvwnd =>
    exact .inl ⟨rfl, congrArg Traffic.acklist (traffic_ikcpWndsize cb sndwnd rcvwnd)⟩
  | nodelay nodelay interval resend nc =>
    exact .inl ⟨rfl, congrArg Traffic.acklist (traffic_ikcpNodelay cb nodelay interval resend nc)⟩
  | interval interval => exact .inl ⟨rfl, rfl⟩
  | minrto minrto => exact .inl ⟨rfl, rfl⟩

/-- From the datagrams of a call one reads what it sends. -/
theorem Sendable.output_packets {cb : Ikcpcb} (h : cb.Sendable) (c : KcpCall) :
    ∀ d ∈ cb.output c, ∀ p ∈ (parseDatagram cb.conv d).1, p ∈ cb.callPackets c := by
  intro d hd p hp
  rw [output_eq] at hd
  obtain ⟨hread, -⟩ := pack_reads cb.mtu (h.callPackets_valid c)
  rw [← hread]
  exact List.mem_flatten.mpr ⟨_, List.mem_map_of_mem hd, hp⟩

end Ikcpcb

/-! ## The two sides -/

namespace Conversation

/-- A datagram that was passed to the network, and how many segments its sender and its receiver
had numbered at that time. -/
structure Posted where
  bytes : List UInt8
  mine : Nat
  theirs : Nat
deriving DecidableEq, Repr

/-- A control block, and the history of what it did. -/
structure Side where
  cb : Ikcpcb
  /-- What was numbered. -/
  sent : List (Nat × List UInt8) := []
  /-- The segments that were handed over. -/
  handed : List Segment := []
  /-- The payloads that `ikcp_send` took. -/
  accepted : List (List UInt8) := []
  /-- What `ikcp_recv` returned. -/
  received : List (List UInt8) := []
  posted : List Posted := []
deriving DecidableEq, Repr

/-- A call on a side whose peer has numbered `theirs` segments. -/
def Side.call (s : Side) (theirs : Nat) (c : KcpCall) : Side where
  cb := (s.cb.call c).1
  sent := s.sent ++ s.cb.numbered c
  handed := s.handed ++ s.cb.handed c
  accepted := s.accepted ++ s.cb.accepted c
  received := s.received ++ s.cb.returned c
  posted := s.posted ++ (s.cb.output c).map fun bytes =>
    { bytes := bytes, mine := s.sent.length + (s.cb.numbered c).length, theirs := theirs }

/-- A datagram comes in on a side. -/
def Side.input (s : Side) (data : List UInt8) : Side := { s with cb := (s.cb.ikcpInput data).1 }

end Conversation

/-- The two sides of a conversation. -/
abbrev Conversation := Bool → Conversation.Side

namespace Conversation

inductive Event where
  /-- A call on the side `who`, which does not give it a datagram. -/
  | call (who : Bool) (c : KcpCall)
  /-- The datagram that the other side posted as number `i` comes in on the side `who`. -/
  | deliver (who : Bool) (i : Nat)
deriving DecidableEq, Repr

def step (l : Conversation) : Event → Option Conversation
  | .call who c =>
    if c.isInput then none
    else some (Function.update l who ((l who).call (l !who).sent.length c))
  | .deliver who i =>
    (l !who).posted[i]?.map fun d => Function.update l who ((l who).input d.bytes)

/-- No datagram comes in that is too old, and no window is larger than a quarter of the numbers. -/
def Timely (l : Conversation) : Event → Prop
  | .call _ (.wndsize _ rcvwnd) => rcvwnd.toInt ≤ 2 ^ 30
  | .call _ _ => True
  | .deliver who i => ∀ d ∈ (l !who).posted[i]?,
      (l !who).sent.length ≤ d.mine + 2 ^ 29 ∧ (l who).sent.length ≤ d.theirs + 2 ^ 29

instance (l : Conversation) (e : Event) : Decidable (Timely l e) :=
  match e with
  | .call _ (.wndsize _ rcvwnd) => inferInstanceAs (Decidable (rcvwnd.toInt ≤ 2 ^ 30))
  | .call _ (.send _ _) | .call _ (.recv _) | .call _ (.input _) | .call _ (.update _)
  | .call _ .flush | .call _ (.setmtu _) | .call _ (.nodelay _ _ _ _) | .call _ (.interval _)
  | .call _ (.minrto _) => .isTrue trivial
  | .deliver who i => inferInstanceAs (Decidable (∀ d ∈ (l !who).posted[i]?,
      (l !who).sent.length ≤ d.mine + 2 ^ 29 ∧ (l who).sent.length ≤ d.theirs + 2 ^ 29))

/-- A new conversation. -/
def start (conv : BitVec 32) (options : Bool → Ikcpcb.Options) : Conversation :=
  fun who => { cb := Ikcpcb.driverCreate conv (options who) }

/-! ## One direction -/

/-- What holds of a side on its own. -/
structure Side.Accounts (s : Side) (conv : BitVec 32) : Prop where
  conv_eq : s.cb.conv = conv
  sendable : s.cb.Sendable
  /-- The fragments that are counted are no more than a window takes. -/
  sent_short : ∀ p ∈ s.sent, p.1 < ikcpWndRcv
  accepted_eq : s.accepted.flatten =
    (s.sent.map Prod.snd).flatten ++ (s.cb.sndQueue.map Segment.data).flatten
  received_eq : s.received.flatten = (s.handed.map Segment.data).flatten

/-- The segments that a posted datagram holds. -/
def Posted.packets (d : Posted) (conv : BitVec 32) : List Packet := (parseDatagram conv d.bytes).1

/-- The control blocks of `s` and `r` are the parties of the transfer `t`, whose sender has seen
acknowledgements of numbers below `confirmed` only. What is on its way is on the network of the
transfer. -/
structure Parties (conv : BitVec 32) (s r : Side) (t : Transfer (Nat × List UInt8))
    (confirmed : Nat) : Prop where
  sent_eq : t.sent = s.sent
  sends : ∃ ms, s.cb.kcp.Sends t ms
  receives : ∃ ms, r.cb.kcp.Receives r.handed t ms
  data : ∀ d ∈ s.posted, ∀ p ∈ d.packets conv, p.head.cmd = ikcpCmdPush →
    ∃ n, p.head.sn = BitVec.ofNat 32 n ∧ .data n (p.head.frg, p.data) ∈ t.net ∧ d.mine ≤ n + 65535
  unas : ∀ d ∈ r.posted, ∀ p ∈ d.packets conv,
    ∃ u, p.head.una = BitVec.ofNat 32 u ∧ .una u ∈ t.net ∧ d.theirs ≤ u + 2 ^ 30 + 65535
  acks : ∀ d ∈ r.posted, ∀ p ∈ d.packets conv, p.head.cmd = ikcpCmdAck →
    ∃ n, p.head.sn = BitVec.ofNat 32 n ∧ .ack n ∈ t.net ∧ d.theirs ≤ n + 2 ^ 30 + 65535
  confirmed_le : confirmed ≤ s.sent.length
  below : Kcp.ConfirmedBelow t confirmed
  kept : ∀ n, confirmed ≤ n → n < s.sent.length → n ∈ t.kept
  owed : ∀ a ∈ r.cb.acklist,
    ∃ n, a.1 = BitVec.ofNat 32 n ∧ t.Received n ∧ confirmed ≤ n + 2 ^ 30

/-- The sender is a window ahead of what it has seen acknowledgements of. -/
theorem Parties.confirmed_near {conv : BitVec 32} {s r : Side} {t : Transfer (Nat × List UInt8)}
    {confirmed : Nat} (h : Parties conv s r t confirmed) : s.sent.length ≤ confirmed + 65535 := by
  obtain ⟨ms, hsends⟩ := h.sends
  rcases Nat.lt_or_eq_of_le h.confirmed_le with hlt | heq
  · have hnear := hsends.near (h.kept confirmed (Nat.le_refl _) hlt)
    rw [h.sent_eq] at hnear
    omega
  · omega

/-- A datagram is taken segment by segment. -/
theorem Side.Accounts.kcp_input {s : Side} {conv : BitVec 32} (h : s.Accounts conv) (d : Posted) :
    (s.input d.bytes).cb.kcp = (d.packets conv).foldl Kcp.inputPacket s.cb.kcp := by
  show (s.cb.ikcpInput d.bytes).1.kcp = _
  rw [(s.cb.kcp_ikcpInput d.bytes).1, Kcp.ikcpInput_eq, Ikcpcb.kcp_conv, h.conv_eq]
  rfl

/-! ### The sender -/

/-- What a call sends of the data: segments that are in flight after it. -/
theorem push_sent {s : Side} {conv : BitVec 32} (hs : s.Accounts conv) {c : KcpCall}
    (hc : c.isInput = false) {sent : List (Nat × List UInt8)} {ms : List Nat}
    (hwindow : (s.cb.call c).1.kcp.SendWindow sent ms) {p : Packet} (hp : p ∈ s.cb.callPackets c)
    (hpush : p.head.cmd = ikcpCmdPush) :
    ∃ m ∈ ms, p.head.sn = BitVec.ofNat 32 m ∧ sent[m]? = some (p.head.frg, p.data) := by
  rcases s.cb.callPackets_cases hc with ⟨hnone, -⟩ | ⟨-, hcases⟩
  · rw [hnone] at hp
    cases hp
  · obtain ⟨-, ⟨hack, -⟩ | hask | htell | ⟨seg, hseg, rfl⟩⟩ := hcases p hp
    · exact absurd (hpush.symm.trans hack) (by decide)
    · exact absurd (hpush.symm.trans hask) (by decide)
    · exact absurd (hpush.symm.trans htell) (by decide)
    · have hflight : Kcp.flightOf seg.toSegment ∈ ms.map (Kcp.sentAs sent) := by
        rw [← hwindow.sndBuf_eq]
        exact List.mem_map_of_mem (List.mem_map_of_mem hseg)
      obtain ⟨m, hm, heq⟩ := List.mem_map.mp hflight
      have hfrg := ((hs.sendable.call c).short seg.payload
        (List.mem_append_left _ (List.mem_map_of_mem (f := fun seg => seg.payload) hseg))).1
      have hbyte : seg.frg % 256 = seg.frg := by
        apply Nat.mod_eq_of_lt
        have hlt : seg.frg < ikcpWndRcv := hfrg
        unfold ikcpWndRcv at hlt
        omega
      refine ⟨m, hm, (congrArg Prod.fst heq).symm, (congrArg Prod.snd heq).trans ?_⟩
      show some (seg.frg, seg.data) = some (seg.frg % 256, seg.data)
      rw [hbyte]

/-- A call of the sender numbers segments and sends some of those in flight. -/
theorem Parties.senderCall {conv : BitVec 32} {s r : Side} {t : Transfer (Nat × List UInt8)}
    {confirmed : Nat} (h : Parties conv s r t confirmed) (hs : s.Accounts conv) {c : KcpCall}
    (hc : c.isInput = false) (theirs : Nat) :
    ∃ t', Steps t t' ∧ Parties conv (s.call theirs c) r t' confirmed := by
  obtain ⟨ms, hsends⟩ := h.sends
  have hwindow := Ikcpcb.sendWindow_numbered hsends.window hc
  have hkept : t.kept ∪ {n | t.sent.length ≤ n ∧ n < t.sent.length + (s.cb.numbered c).length} =
      {m | m ∈ ms ++ List.range' t.sent.length (s.cb.numbered c).length} := by
    ext m
    simp [hsends.kept_eq, List.mem_range'_1]
  have hnumber := Steps.numberAll t (s.cb.numbered c)
  rw [hkept] at hnumber
  -- the segments that are sent have numbers
  have hnumbers : ∀ p, ∃ n, p ∈ s.cb.callPackets c ∧ p.head.cmd = ikcpCmdPush →
      n ∈ ms ++ List.range' t.sent.length (s.cb.numbered c).length ∧
        p.head.sn = BitVec.ofNat 32 n ∧
        (t.sent ++ s.cb.numbered c)[n]? = some (p.head.frg, p.data) := by
    intro p
    by_cases hp : p ∈ s.cb.callPackets c ∧ p.head.cmd = ikcpCmdPush
    · obtain ⟨m, hm, hsn, hsent⟩ := push_sent hs hc hwindow hp.1 hp.2
      exact ⟨m, fun _ => ⟨hm, hsn, hsent⟩⟩
    · exact ⟨0, fun hp' => absurd hp' hp⟩
  choose number hnumbers using hnumbers
  let letters : List (Letter (Nat × List UInt8)) :=
    ((s.cb.callPackets c).filter fun p => p.head.cmd = ikcpCmdPush).map fun p =>
      .data (number p) (p.head.frg, p.data)
  have hletters : ∀ l ∈ letters, ∃ p, (p ∈ s.cb.callPackets c ∧ p.head.cmd = ikcpCmdPush) ∧
      l = .data (number p) (p.head.frg, p.data) := by
    intro l hl
    obtain ⟨p, hp, rfl⟩ := List.mem_map.mp hl
    obtain ⟨hmem, hpush⟩ := List.mem_filter.mp hp
    exact ⟨p, ⟨hmem, of_decide_eq_true hpush⟩, rfl⟩
  have hpost := Steps.postAll letters
    (t := { t with
      sent := t.sent ++ s.cb.numbered c
      kept := {m | m ∈ ms ++ List.range' t.sent.length (s.cb.numbered c).length} }) (by
    intro l hl
    obtain ⟨p, hp, rfl⟩ := hletters l hl
    obtain ⟨hm, -, hsent⟩ := hnumbers p hp
    exact postable_data hm hsent)
  refine ⟨_, hnumber.trans hpost, ?_⟩
  refine
    { sent_eq := congrArg (· ++ s.cb.numbered c) h.sent_eq
      sends := ⟨_, hwindow, rfl⟩
      receives := ?_
      data := ?_
      unas := ?_
      acks := ?_
      confirmed_le := ?_
      below := ⟨?_, ?_⟩
      kept := ?_
      owed := ?_ }
  · obtain ⟨ms', hreceives⟩ := h.receives
    exact ⟨ms', hreceives.transfer rfl rfl⟩
  · intro d hd p hp hpush
    rcases List.mem_append.mp hd with hold | hnew
    · obtain ⟨n, hsn, hletter, hmine⟩ := h.data d hold p hp hpush
      exact ⟨n, hsn, .inl hletter, hmine⟩
    · obtain ⟨bytes, hbytes, rfl⟩ := List.mem_map.mp hnew
      have hmem : p ∈ s.cb.callPackets c := by
        apply hs.sendable.output_packets c bytes hbytes
        rw [hs.conv_eq]
        exact hp
      obtain ⟨hm, hsn, -⟩ := hnumbers p ⟨hmem, hpush⟩
      refine ⟨number p, hsn, .inr ?_, ?_⟩
      · exact List.mem_map.mpr ⟨p, List.mem_filter.mpr ⟨hmem, decide_eq_true hpush⟩, rfl⟩
      · have hnear := (hwindow.near _ hm).2
        rw [List.length_append, h.sent_eq] at hnear
        exact hnear
  · intro d hd p hp
    obtain ⟨u, huna, hletter, htheirs⟩ := h.unas d hd p hp
    exact ⟨u, huna, .inl hletter, htheirs⟩
  · intro d hd p hp hack
    obtain ⟨n, hsn, hletter, htheirs⟩ := h.acks d hd p hp hack
    exact ⟨n, hsn, .inl hletter, htheirs⟩
  · show confirmed ≤ (s.sent ++ s.cb.numbered c).length
    rw [List.length_append]
    exact Nat.le_trans h.confirmed_le (Nat.le_add_right _ _)
  · intro n hn
    rcases hn with hold | hnew
    · exact h.below.ack_lt hold
    · obtain ⟨p, -, heq⟩ := hletters _ hnew
      cases heq
  · intro u hu
    rcases hu with hold | hnew
    · exact h.below.una_le hold
    · obtain ⟨p, -, heq⟩ := hletters _ hnew
      cases heq
  · intro n hlow hhigh
    rw [show (s.call theirs c).sent = s.sent ++ s.cb.numbered c from rfl, List.length_append,
      ← h.sent_eq] at hhigh
    by_cases hlt : n < t.sent.length
    · have hold := h.kept n hlow (by rw [← h.sent_eq]; exact hlt)
      rw [hsends.kept_eq] at hold
      exact List.mem_append_left _ hold
    · exact List.mem_append_right _ (List.mem_range'_1.mpr ⟨Nat.not_lt.mp hlt, hhigh⟩)
  · intro a ha
    obtain ⟨n, hsn, hn, hconfirmed⟩ := h.owed a ha
    exact ⟨n, hsn, Steps.received (hnumber.trans hpost) hn, hconfirmed⟩

/-- A datagram that comes in on the side of the sender releases segments. -/
theorem Parties.senderInput {conv : BitVec 32} {s r : Side} {t : Transfer (Nat × List UInt8)}
    {confirmed : Nat} (h : Parties conv s r t confirmed) (ht : Sound t) (hs : s.Accounts conv)
    {d : Posted} (hd : d ∈ r.posted) (hrecent : s.sent.length ≤ d.theirs + 2 ^ 29) :
    ∃ t', Steps t t' ∧ Parties conv (s.input d.bytes) r t' confirmed := by
  obtain ⟨ms, hsends⟩ := h.sends
  obtain ⟨t', hreleases⟩ := hsends.inputPackets ht h.below (d.packets conv) (by
    intro p hp
    refine ⟨((parseDatagram_reads conv d.bytes).1 p hp).wnd_lt, ?_, fun hack => ?_⟩
    · obtain ⟨u, huna, hletter, htheirs⟩ := h.unas d hd p hp
      refine ⟨u, huna, hletter, ?_⟩
      rw [h.sent_eq]
      omega
    · obtain ⟨n, hsn, hletter, htheirs⟩ := h.acks d hd p hp hack
      refine ⟨n, hsn, hletter, ?_⟩
      rw [h.sent_eq]
      omega)
  rw [← hs.kcp_input d] at hreleases
  refine ⟨t', hreleases.steps, ?_⟩
  refine
    { sent_eq := hreleases.sent_eq.trans h.sent_eq
      sends := hreleases.sends
      receives := ?_
      data := ?_
      unas := ?_
      acks := ?_
      confirmed_le := h.confirmed_le
      below := ⟨?_, ?_⟩
      kept := ?_
      owed := ?_ }
  · obtain ⟨ms', hreceives⟩ := h.receives
    exact ⟨ms', hreceives.transfer hreleases.delivered_eq hreleases.held_eq⟩
  · rw [hreleases.net_eq]
    exact h.data
  · rw [hreleases.net_eq]
    exact h.unas
  · rw [hreleases.net_eq]
    exact h.acks
  · rw [hreleases.net_eq]
    exact h.below.ack_lt
  · rw [hreleases.net_eq]
    exact h.below.una_le
  · intro n hlow hhigh
    exact hreleases.kept n (h.kept n hlow hhigh) hlow
  · intro a ha
    obtain ⟨n, hsn, hn, hconfirmed⟩ := h.owed a ha
    exact ⟨n, hsn, hreleases.steps.received hn, hconfirmed⟩

/-! ### The receiver -/

/-- A new window is no larger than what is asked for, or than the longest message. -/
theorem rcvWnd_ikcpWndsize {cb : Ikcpcb} (hcb : cb.rcvWnd.toNat ≤ 2 ^ 30) (sndwnd : BitVec 32)
    {rcvwnd : BitVec 32} (hrcvwnd : rcvwnd.toInt ≤ 2 ^ 30) :
    (cb.ikcpWndsize sndwnd rcvwnd).rcvWnd.toNat ≤ 2 ^ 30 := by
  have hmax : 0 < rcvwnd.toInt → (imax rcvwnd 128).toNat ≤ 2 ^ 30 := by
    intro hpos
    unfold imax
    split
    · rw [BitVec.toInt_eq_toNat_cond] at hpos hrcvwnd
      split at hpos <;> omega
    · decide
  unfold Ikcpcb.ikcpWndsize
  dsimp only
  split
  · rename_i hpos
    exact hmax hpos
  · split <;> exact hcb

/-- A call of the receiver delivers what it moves to the queue. -/
theorem receiver_call {cb : Ikcpcb} {handed : List Segment} {t : Transfer (Nat × List UInt8)}
    {ms : List Nat} (h : cb.kcp.Receives handed t ms) {c : KcpCall} (hc : c.isInput = false)
    (hwnd : ∀ sndwnd rcvwnd, c = .wndsize sndwnd rcvwnd → rcvwnd.toInt ≤ 2 ^ 30) :
    ∃ t', (cb.call c).1.kcp.ReceiverSteps (handed ++ cb.handed c) t t' := by
  have hsame : ∀ cb' : Ikcpcb, cb'.rcvNxt = cb.rcvNxt → cb'.rcvBuf = cb.rcvBuf →
      cb'.rcvQueue = cb.rcvQueue → cb'.rcvWnd.toNat ≤ 2 ^ 30 →
      ∃ t', cb'.kcp.ReceiverSteps (handed ++ []) t t' := by
    intro cb' hnxt hbuf hqueue hwnd
    rw [List.append_nil]
    exact ⟨t, (h.congr hnxt hbuf hqueue hwnd).steps_refl⟩
  have hle := h.rcvWnd_le
  have hoptions : ∀ cb' : Ikcpcb, cb'.traffic = cb.traffic → cb'.rcvWnd.toNat ≤ 2 ^ 30 →
      ∃ t', cb'.kcp.ReceiverSteps (handed ++ []) t t' := fun cb' htraffic =>
    hsame cb' (congrArg Ikcpcb.Traffic.rcvNxt htraffic) (congrArg Ikcpcb.Traffic.rcvBuf htraffic)
      (congrArg Ikcpcb.Traffic.rcvQueue htraffic)
  cases c with
  | send buffer len => exact hsame _ rfl rfl rfl hle
  | recv len =>
    obtain ⟨t', hsteps⟩ := h.ikcpRecv len
    refine ⟨t', ?_⟩
    show (cb.ikcpRecv len).1.kcp.ReceiverSteps _ t t'
    rw [Ikcpcb.kcp_ikcpRecv]
    exact hsteps
  | input data => cases hc
  | update current =>
    obtain ⟨hnxt, hbuf, hqueue⟩ := cb.ikcpUpdate_received current
    have hkept : (cb.ikcpUpdate current).1.rcvWnd = cb.rcvWnd :=
      congrArg Ikcpcb.Settings.rcvWnd (Ikcpcb.settings_ikcpUpdate cb current)
    exact hsame _ hnxt hbuf hqueue (Nat.le_trans (Nat.le_of_eq (congrArg BitVec.toNat hkept)) hle)
  | flush =>
    obtain ⟨hnxt, hbuf, hqueue⟩ := cb.ikcpFlush_received
    have hkept : cb.ikcpFlush.1.rcvWnd = cb.rcvWnd :=
      congrArg Ikcpcb.Settings.rcvWnd (Ikcpcb.settings_ikcpFlush cb)
    exact hsame _ hnxt hbuf hqueue (Nat.le_trans (Nat.le_of_eq (congrArg BitVec.toNat hkept)) hle)
  | setmtu mtu =>
    apply hoptions _ (Ikcpcb.traffic_ikcpSetmtu cb mtu)
    unfold Ikcpcb.ikcpSetmtu
    split <;> exact hle
  | wndsize sndwnd rcvwnd =>
    exact hoptions _ (Ikcpcb.traffic_ikcpWndsize cb sndwnd rcvwnd)
      (rcvWnd_ikcpWndsize hle sndwnd (hwnd sndwnd rcvwnd rfl))
  | nodelay nodelay interval resend nc =>
    apply hoptions _ (Ikcpcb.traffic_ikcpNodelay cb nodelay interval resend nc)
    unfold Ikcpcb.ikcpNodelay
    dsimp only
    repeat' split
    all_goals exact hle
  | interval interval => exact hsame _ rfl rfl rfl hle
  | minrto minrto => exact hsame _ rfl rfl rfl hle

/-- The state after the receiver posted nothing. -/
theorem Parties.receiverQuiet {conv : BitVec 32} {s r : Side} {t t' : Transfer (Nat × List UInt8)}
    {confirmed : Nat} (h : Parties conv s r t confirmed) {r' : Side}
    (hsteps : r'.cb.kcp.ReceiverSteps r'.handed t t')
    (hposted : ∀ d ∈ r'.posted, d ∈ r.posted ∨ d.packets conv = [])
    (howed : ∀ a ∈ r'.cb.acklist, a ∈ r.cb.acklist ∨
      ∃ n, a.1 = BitVec.ofNat 32 n ∧ t'.Received n ∧ t'.sent.length ≤ n + 2 ^ 30) :
    Parties conv s r' t' confirmed := by
  obtain ⟨ms, hsends⟩ := h.sends
  refine
    { sent_eq := hsteps.sent_eq.trans h.sent_eq
      sends := ⟨ms, hsends.transfer hsteps.sent_eq hsteps.kept_eq⟩
      receives := hsteps.receives
      data := ?_
      unas := ?_
      acks := ?_
      confirmed_le := h.confirmed_le
      below := ⟨?_, ?_⟩
      kept := ?_
      owed := ?_ }
  · rw [hsteps.net_eq]
    exact h.data
  · rw [hsteps.net_eq]
    intro d hd p hp
    rcases hposted d hd with hold | hnone
    · exact h.unas d hold p hp
    · rw [hnone] at hp
      cases hp
  · rw [hsteps.net_eq]
    intro d hd p hp hack
    rcases hposted d hd with hold | hnone
    · exact h.acks d hold p hp hack
    · rw [hnone] at hp
      cases hp
  · rw [hsteps.net_eq]
    exact h.below.ack_lt
  · rw [hsteps.net_eq]
    exact h.below.una_le
  · rw [hsteps.kept_eq]
    exact h.kept
  · intro a ha
    rcases howed a ha with hold | ⟨n, hsn, hn, hrecent⟩
    · obtain ⟨n, hsn, hn, hconfirmed⟩ := h.owed a hold
      exact ⟨n, hsn, hsteps.steps.received hn, hconfirmed⟩
    · rw [hsteps.sent_eq, h.sent_eq] at hrecent
      exact ⟨n, hsn, hn, Nat.le_trans h.confirmed_le hrecent⟩

/-- A call of the receiver delivers segments and sends the acknowledgements that are due. -/
theorem Parties.receiverCall {conv : BitVec 32} {s r : Side} {t : Transfer (Nat × List UInt8)}
    {confirmed : Nat} (h : Parties conv s r t confirmed) (ht : Sound t) (hr : r.Accounts conv)
    {c : KcpCall} (hc : c.isInput = false)
    (hwnd : ∀ sndwnd rcvwnd, c = .wndsize sndwnd rcvwnd → rcvwnd.toInt ≤ 2 ^ 30) :
    ∃ t' confirmed', Steps t t' ∧ Parties conv s (r.call s.sent.length c) t' confirmed' := by
  obtain ⟨ms, hreceives⟩ := h.receives
  obtain ⟨t', hsteps⟩ := receiver_call hreceives hc hwnd
  have hread : ∀ d ∈ (r.call s.sent.length c).posted, d ∈ r.posted ∨
      d.theirs = s.sent.length ∧ ∀ p ∈ d.packets conv, p ∈ r.cb.callPackets c := by
    intro d hd
    apply (List.mem_append.mp hd).imp_right
    intro hnew
    obtain ⟨bytes, hbytes, rfl⟩ := List.mem_map.mp hnew
    refine ⟨rfl, fun p hp => ?_⟩
    apply hr.sendable.output_packets c bytes hbytes
    rw [hr.conv_eq]
    exact hp
  rcases r.cb.callPackets_cases hc with ⟨hnone, hacklist⟩ | ⟨hacklist, hcases⟩
  · refine ⟨t', confirmed, hsteps.steps, h.receiverQuiet hsteps (fun d hd => ?_) (fun a ha => .inl ?_)⟩
    · apply (hread d hd).imp_right
      rintro ⟨-, hpackets⟩
      apply List.eq_nil_iff_forall_not_mem.mpr
      intro p hp
      have hmem := hpackets p hp
      rw [hnone] at hmem
      cases hmem
    · rw [← hacklist]
      exact ha
  · -- the acknowledgements that were due are posted
    have hquiet : Parties conv s
        { r with
          cb := { (r.cb.call c).1 with acklist := r.cb.acklist }
          handed := r.handed ++ r.cb.handed c } t' confirmed := by
      refine h.receiverQuiet ?_ (fun d hd => .inl hd) (fun a ha => .inl ha)
      obtain ⟨ms', hreceives'⟩ := hsteps.receives
      exact { hsteps with receives := ⟨ms', hreceives'.congr rfl rfl rfl hreceives'.rcvWnd_le⟩ }
    have ht' := hsteps.steps.sound ht
    have hspan : ∀ n ≤ t.delivered.length, n ≤ t'.delivered.length := fun n hn =>
      Nat.le_trans hn hsteps.steps.delivered.length_le
    have hnumbers : ∀ a, ∃ n, a ∈ r.cb.acklist →
        a.1 = BitVec.ofNat 32 n ∧ t'.Received n ∧ confirmed ≤ n + 2 ^ 30 := by
      intro a
      by_cases ha : a ∈ r.cb.acklist
      · obtain ⟨n, hn⟩ := hquiet.owed a ha
        exact ⟨n, fun _ => hn⟩
      · exact ⟨0, fun ha' => absurd ha' ha⟩
    choose number hnumbers using hnumbers
    let letters : List (Letter (Nat × List UInt8)) :=
      .una t.delivered.length :: r.cb.acklist.map fun a => .ack (number a)
    have hletters : ∀ l ∈ letters, l = .una t.delivered.length ∨
        ∃ a ∈ r.cb.acklist, l = .ack (number a) := by
      intro l hl
      apply (List.mem_cons.mp hl).imp_right
      intro hl
      obtain ⟨a, ha, rfl⟩ := List.mem_map.mp hl
      exact ⟨a, ha, rfl⟩
    have hpost := Steps.postAll (t := t') letters (by
      intro l hl
      rcases hletters l hl with rfl | ⟨a, ha, rfl⟩
      · exact postable_una (hspan _ (Nat.le_refl _))
      · exact postable_ack (hnumbers a ha).2.1)
    obtain ⟨ms₁, hsends⟩ := hquiet.sends
    obtain ⟨ms₂, hreceives₂⟩ := hsteps.receives
    obtain ⟨ms₀, hsends₀⟩ := h.sends
    have hahead := hsends₀.span hreceives ht
    rw [h.sent_eq] at hahead
    have hnear := h.confirmed_near
    have hsent : t'.sent.length = s.sent.length := by rw [hsteps.sent_eq, h.sent_eq]
    refine ⟨_, s.sent.length, hsteps.steps.trans hpost, ?_⟩
    refine
      { sent_eq := hquiet.sent_eq
        sends := ⟨ms₁, hsends.transfer rfl rfl⟩
        receives := ⟨ms₂, hreceives₂.transfer rfl rfl⟩
        data := ?_
        unas := ?_
        acks := ?_
        confirmed_le := Nat.le_refl _
        below := ⟨?_, ?_⟩
        kept := fun n hlow hhigh => absurd hhigh (Nat.not_lt.mpr hlow)
        owed := ?_ }
    · intro d hd p hp hpush
      obtain ⟨n, hsn, hletter, hmine⟩ := hquiet.data d hd p hp hpush
      exact ⟨n, hsn, .inl hletter, hmine⟩
    · intro d hd p hp
      rcases hread d hd with hold | ⟨htheirs, hpackets⟩
      · obtain ⟨u, huna, hletter, htheirs⟩ := hquiet.unas d hold p hp
        exact ⟨u, huna, .inl hletter, htheirs⟩
      · refine ⟨t.delivered.length, ?_, .inr List.mem_cons_self, by omega⟩
        rw [(hcases p (hpackets p hp)).1]
        exact hreceives.window.rcvNxt_eq
    · intro d hd p hp hack
      rcases hread d hd with hold | ⟨htheirs, hpackets⟩
      · obtain ⟨n, hsn, hletter, htheirs⟩ := hquiet.acks d hold p hp hack
        exact ⟨n, hsn, .inl hletter, htheirs⟩
      · obtain ⟨-, ⟨-, a, ha, hsn⟩ | hask | htell | ⟨seg, -, rfl⟩⟩ := hcases p (hpackets p hp)
        · obtain ⟨hnumber, -, hconfirmed⟩ := hnumbers a ha
          refine ⟨number a, hsn.trans hnumber, .inr ?_, by omega⟩
          exact List.mem_cons_of_mem _ (List.mem_map_of_mem ha)
        · exact absurd (hack.symm.trans hask) (by decide)
        · exact absurd (hack.symm.trans htell) (by decide)
        · exact absurd (show ikcpCmdPush = ikcpCmdAck from hack) (by decide)
    · intro n hn
      rcases hn with hold | hnew
      · exact Nat.lt_of_lt_of_le (hquiet.below.ack_lt hold) h.confirmed_le
      · rcases hletters _ hnew with heq | ⟨a, ha, heq⟩
        · cases heq
        · cases heq
          rw [← hsent]
          exact ht'.received_sent (hnumbers a ha).2.1
    · intro u hu
      rcases hu with hold | hnew
      · exact Nat.le_trans (hquiet.below.una_le hold) h.confirmed_le
      · rcases hletters _ hnew with heq | ⟨a, -, heq⟩
        · cases heq
          rw [← h.sent_eq]
          exact ht.delivered_sent.length_le
        · cases heq
    · intro a ha
      have hgone : a ∈ (r.cb.call c).1.acklist := ha
      rw [hacklist] at hgone
      cases hgone

/-- The segments of a datagram that is not too old are those that were sent. -/
theorem Parties.carried {conv : BitVec 32} {s r : Side} {t : Transfer (Nat × List UInt8)}
    {confirmed : Nat} (h : Parties conv s r t confirmed) {d : Posted} (hd : d ∈ s.posted)
    (hrecent : s.sent.length ≤ d.mine + 2 ^ 29) :
    ∀ p ∈ d.packets conv, p.head.len = p.data.length ∧ Kcp.Carried t p := by
  intro p hp
  refine ⟨((parseDatagram_reads conv d.bytes).1 p hp).len_eq, fun hpush => ?_⟩
  obtain ⟨n, hsn, hletter, hmine⟩ := h.data d hd p hp hpush
  refine ⟨n, hsn, hletter, ?_⟩
  rw [h.sent_eq]
  omega

/-- A datagram that comes in on the side of the receiver is held, delivered and acknowledged. -/
theorem Parties.receiverInput {conv : BitVec 32} {s r : Side} {t : Transfer (Nat × List UInt8)}
    {confirmed : Nat} (h : Parties conv s r t confirmed) (ht : Sound t) (hr : r.Accounts conv)
    {d : Posted} (hd : d ∈ s.posted) (hrecent : s.sent.length ≤ d.mine + 2 ^ 29) :
    ∃ t', Steps t t' ∧ Parties conv s (r.input d.bytes) t' confirmed := by
  obtain ⟨ms, hreceives⟩ := h.receives
  obtain ⟨ms', hsends⟩ := h.sends
  have hspan := hsends.span hreceives ht
  obtain ⟨t', hsteps, howed⟩ :=
    hreceives.inputPackets ht (by omega) (d.packets conv) (h.carried hd hrecent)
  rw [← hr.kcp_input d] at hsteps howed
  exact ⟨t', hsteps.steps, h.receiverQuiet hsteps (fun d hd => .inl hd) howed⟩

/-! ## Both directions -/

/-- In each direction, the control blocks are the parties of a transfer that has come about. -/
structure Sane (l : Conversation) (conv : BitVec 32) : Prop where
  accounts : ∀ who, (l who).Accounts conv
  parties : ∀ who, ∃ t confirmed, Steps {} t ∧ Parties conv (l who) (l !who) t confirmed

theorem Side.Accounts.call {s : Side} {conv : BitVec 32} (h : s.Accounts conv) (theirs : Nat)
    (c : KcpCall) : (s.call theirs c).Accounts conv where
  conv_eq := (Ikcpcb.conv_call s.cb c).trans h.conv_eq
  sendable := h.sendable.call c
  sent_short := by
    intro p hp
    rcases List.mem_append.mp hp with hold | hnew
    · exact h.sent_short p hold
    · -- what is numbered was waiting
      apply (h.sendable.short p ?_).1
      exact List.mem_append_right _ (s.cb.numbered_sublist c |>.subset hnew)
  accepted_eq := by
    show (s.accepted ++ s.cb.accepted c).flatten =
      ((s.sent ++ s.cb.numbered c).map Prod.snd).flatten ++ _
    rw [List.flatten_append, h.accepted_eq, List.append_assoc, ← s.cb.numbered_accepted,
      List.map_append, List.flatten_append, List.append_assoc]
    rfl
  received_eq := by
    show (s.received ++ s.cb.returned c).flatten =
      ((s.handed ++ s.cb.handed c).map Segment.data).flatten
    rw [List.flatten_append, h.received_eq, Ikcpcb.returned_flatten, List.map_append,
      List.flatten_append]

theorem Side.Accounts.input {s : Side} {conv : BitVec 32} (h : s.Accounts conv) (data : List UInt8) :
    (s.input data).Accounts conv where
  conv_eq := (Ikcpcb.conv_call s.cb (.input data)).trans h.conv_eq
  sendable := h.sendable.call (.input data)
  sent_short := h.sent_short
  accepted_eq := by
    show s.accepted.flatten = _ ++ ((s.cb.ikcpInput data).1.sndQueue.map Segment.data).flatten
    rw [(s.cb.drops_ikcpInput data).sndQueue_eq]
    exact h.accepted_eq
  received_eq := h.received_eq

/-- One side changes, as the sender of one transfer and the receiver of the other. -/
theorem Sane.update {l : Conversation} {conv : BitVec 32} (h : l.Sane conv) {who : Bool} {s' : Side}
    (haccounts : s'.Accounts conv)
    (hsender : ∀ t confirmed, Sound t → Parties conv (l who) (l !who) t confirmed →
      ∃ t' confirmed', Steps t t' ∧ Parties conv s' (l !who) t' confirmed')
    (hreceiver : ∀ t confirmed, Sound t → Parties conv (l !who) (l who) t confirmed →
      ∃ t' confirmed', Steps t t' ∧ Parties conv (l !who) s' t' confirmed') :
    Sane (Function.update l who s') conv := by
  have hother : (!who) ≠ who := by cases who <;> decide
  refine ⟨fun side => ?_, fun side => ?_⟩
  · by_cases heq : side = who
    · subst heq
      rw [Function.update_self]
      exact haccounts
    · rw [Function.update_of_ne heq]
      exact h.accounts side
  · obtain ⟨t, confirmed, hsteps, hparties⟩ := h.parties side
    have ht := hsteps.sound Sound.init
    by_cases heq : side = who
    · subst heq
      rw [Function.update_self, Function.update_of_ne hother]
      obtain ⟨t', confirmed', hsteps', hparties'⟩ := hsender t confirmed ht hparties
      exact ⟨t', confirmed', hsteps.trans hsteps', hparties'⟩
    · have hside : side = !who := by
        revert heq
        cases side <;> cases who <;> decide
      subst hside
      rw [Bool.not_not] at hparties ⊢
      rw [Function.update_self, Function.update_of_ne hother]
      obtain ⟨t', confirmed', hsteps', hparties'⟩ := hreceiver t confirmed ht hparties
      exact ⟨t', confirmed', hsteps.trans hsteps', hparties'⟩

/-- What is called on a side, and what comes in on it, are steps of both transfers. -/
theorem sane_step {l l' : Conversation} {conv : BitVec 32} {e : Event} (h : l.Sane conv)
    (htimely : l.Timely e) (hstep : step l e = some l') : l'.Sane conv := by
  cases e with
  | call who c =>
    simp only [step] at hstep
    split at hstep
    · cases hstep
    · rename_i hc
      cases hstep
      have hcall : c.isInput = false := Bool.not_eq_true _ ▸ hc
      have hwnd : ∀ sndwnd rcvwnd, c = .wndsize sndwnd rcvwnd → rcvwnd.toInt ≤ 2 ^ 30 := by
        intro sndwnd rcvwnd heq
        subst heq
        exact htimely
      apply h.update ((h.accounts who).call _ c)
      · intro t confirmed ht hparties
        obtain ⟨t', hsteps, hparties'⟩ := hparties.senderCall (h.accounts who) hcall _
        exact ⟨t', confirmed, hsteps, hparties'⟩
      · intro t confirmed ht hparties
        exact hparties.receiverCall ht (h.accounts who) hcall hwnd
  | deliver who i =>
    obtain ⟨d, hd, heq⟩ := Option.map_eq_some_iff.mp hstep
    subst heq
    obtain ⟨hmine, htheirs⟩ := htimely d hd
    have hmem := List.mem_of_getElem? hd
    apply h.update ((h.accounts who).input d.bytes)
    · intro t confirmed ht hparties
      obtain ⟨t', hsteps, hparties'⟩ := hparties.senderInput ht (h.accounts who) hmem htheirs
      exact ⟨t', confirmed, hsteps, hparties'⟩
    · intro t confirmed ht hparties
      obtain ⟨t', hsteps, hparties'⟩ := hparties.receiverInput ht (h.accounts who) hmem hmine
      exact ⟨t', confirmed, hsteps, hparties'⟩

/-- A new conversation has sent nothing yet. -/
theorem sane_start {conv : BitVec 32} {options : Bool → Ikcpcb.Options}
    (hoptions : ∀ who, (options who).rcvwnd.toInt ≤ 2 ^ 30) : (start conv options).Sane conv := by
  have hempty : ∀ who, ((start conv options who).cb).traffic = ({ conv := conv } : Ikcpcb).traffic :=
    fun who => Ikcpcb.traffic_driverCreate conv (options who)
  have hqueue : ∀ who, (start conv options who).cb.sndQueue = [] := fun who =>
    congrArg Ikcpcb.Traffic.sndQueue (hempty who)
  refine ⟨fun who => ?_, fun who => ⟨{}, 0, .refl, ?_⟩⟩
  · refine
      { conv_eq := congrArg Ikcpcb.Traffic.conv (hempty who)
        sendable := Ikcpcb.Sendable.init conv (options who)
        sent_short := fun p hp => absurd hp List.not_mem_nil
        accepted_eq := ?_
        received_eq := rfl }
    rw [hqueue who]
    rfl
  · have hbuf : (start conv options !who).cb.rcvBuf = [] :=
      congrArg Ikcpcb.Traffic.rcvBuf (hempty !who)
    have hqueue' : (start conv options !who).cb.rcvQueue = [] :=
      congrArg Ikcpcb.Traffic.rcvQueue (hempty !who)
    have hacks : (start conv options !who).cb.acklist = [] :=
      congrArg Ikcpcb.Traffic.acklist (hempty !who)
    have hwnd : (start conv options !who).cb.rcvWnd.toNat ≤ 2 ^ 30 := by
      apply rcvWnd_ikcpWndsize ?_ _ (hoptions !who)
      have hkept : ∀ cb : Ikcpcb, cb.rcvWnd.toNat ≤ 2 ^ 30 →
          (cb.ikcpSetmtu (options !who).mtu).rcvWnd.toNat ≤ 2 ^ 30 := by
        intro cb hcb
        unfold Ikcpcb.ikcpSetmtu
        split <;> exact hcb
      apply hkept
      have hnew : (128 : BitVec 32).toNat ≤ 2 ^ 30 := by decide
      unfold Ikcpcb.ikcpNodelay
      dsimp only
      repeat' split
      all_goals exact hnew
    refine
      { sent_eq := rfl
        sends := ⟨[], Ikcpcb.sendWindow_driverCreate conv (options who), by ext m; simp⟩
        receives := ⟨[], ?_⟩
        data := fun d hd => absurd hd List.not_mem_nil
        unas := fun d hd => absurd hd List.not_mem_nil
        acks := fun d hd => absurd hd List.not_mem_nil
        confirmed_le := Nat.le_refl 0
        below := ⟨fun hn => absurd hn (Set.notMem_empty _), fun hu => absurd hu (Set.notMem_empty _)⟩
        kept := fun n _ hn => absurd hn (Nat.not_lt_zero n)
        owed := ?_ }
    · exact
        { window := Ikcpcb.receiveWindow_driverCreate conv (options !who)
          delivered_eq := by
            rw [Ikcpcb.kcp_rcvQueue, hqueue']
            rfl
          held_of_mem := by
            rw [Ikcpcb.kcp_rcvBuf, hbuf]
            exact fun seg hseg => absurd hseg List.not_mem_nil
          mem_of_held := fun hm => absurd hm (by simp)
          near := fun m hm => absurd hm List.not_mem_nil
          rcvWnd_le := hwnd }
    · rw [hacks]
      exact fun a ha => absurd ha List.not_mem_nil

/-- So it is in every run. -/
theorem sane_run {conv : BitVec 32} {options : Bool → Ikcpcb.Options} {es : List Event}
    {l : Conversation} (hoptions : ∀ who, (options who).rcvwnd.toInt ≤ 2 ^ 30)
    (hrun : GuardedRun Conversation.step Timely (Conversation.start conv options) es l) :
    l.Sane conv :=
  hrun.invariant (sane_start hoptions) fun _ _ _ h htimely hstep => sane_step h htimely hstep

/-! ## Main results -/

/-- One side sends three bytes, and the other one takes and acknowledges them. -/
def greeting : List Event :=
  [.call false (.update 0), .call false (.send [1, 2, 3] 3), .call false .flush, .deliver true 0,
    .call true (.recv 10), .call true (.update 0), .deliver false 0]

theorem greeting_run : ∃ l, GuardedRun step Timely (start 7 fun _ => {}) greeting l ∧
    (l false).cb.ikcpWaitsnd = 0 ∧ (l true).received = [[1, 2, 3]] := by
  have hrun : ((guardedExec step Timely (start 7 fun _ => {}) greeting).any fun l =>
      decide ((l false).cb.ikcpWaitsnd = 0 ∧ (l true).received = [[1, 2, 3]])) = true := by
    decide +kernel
  obtain ⟨l, hexec, hend⟩ := (Option.any_eq_true _ _).mp hrun
  exact ⟨l, .of_exec hexec, of_decide_eq_true hend⟩

/-- What went to the queue is a beginning of what was numbered. -/
theorem Sane.delivered_sent {l : Conversation} {conv : BitVec 32} (h : l.Sane conv) (who : Bool) :
    ((l !who).handed ++ (l !who).cb.rcvQueue).map Segment.payload <+: (l who).sent := by
  obtain ⟨t, confirmed, hsteps, hparties⟩ := h.parties who
  obtain ⟨ms, hreceives⟩ := hparties.receives
  have hbegins := (hsteps.sound Sound.init).delivered_sent
  rwa [hparties.sent_eq, hreceives.delivered_eq] at hbegins

theorem payload_bytes (segs : List Segment) :
    (segs.map Segment.payload).map Prod.snd = segs.map Segment.data := List.map_map

/-- The bytes that were received are a beginning of those that were accepted. -/
theorem Sane.received_begins {l : Conversation} {conv : BitVec 32} (h : l.Sane conv) (who : Bool) :
    (l !who).received.flatten <+: (l who).accepted.flatten := by
  obtain ⟨rest, hrest⟩ := h.delivered_sent who
  rw [(h.accounts !who).received_eq, (h.accounts who).accepted_eq, ← hrest]
  simp only [List.map_append, List.flatten_append, payload_bytes, List.append_assoc]
  exact List.prefix_append _ _

/-- What is in the reorder buffer was sent under its numbers. -/
theorem rcvBuf_sent {kcp : Kcp} {handed : List Segment} {t : Transfer (Nat × List UInt8)}
    {ms : List Nat} (h : kcp.Receives handed t ms) (ht : Sound t) :
    kcp.rcvBuf.map (fun seg => some seg.payload) = ms.map fun m => t.sent[m]? := by
  have hlength : kcp.rcvBuf.length = ms.length := by
    have hmap := congrArg List.length h.window.rcvBuf_eq
    rwa [List.length_map, List.length_map] at hmap
  apply List.ext_getElem
  · rw [List.length_map, List.length_map, hlength]
  · intro i hi hi'
    rw [List.length_map] at hi hi'
    rw [List.getElem_map, List.getElem_map]
    have hsn : (kcp.rcvBuf[i]).sn = BitVec.ofNat 32 ms[i] := by
      have hget := congrArg (fun l => l[i]?) h.window.rcvBuf_eq
      simp only [List.getElem?_map, List.getElem?_eq_getElem hi, List.getElem?_eq_getElem hi',
        Option.map_some] at hget
      exact Option.some.inj hget
    have hheld := h.held_eq (List.getElem_mem hi) (List.getElem_mem hi') hsn
    exact (ht.held_sent hheld).2.symm

/-- If a side has nothing left to send, the other side has all that was accepted. -/
theorem Sane.accepted_of_idle {l : Conversation} {conv : BitVec 32} (h : l.Sane conv) {who : Bool}
    (hidle : (l who).cb.ikcpWaitsnd = 0) :
    (l who).accepted.flatten = (l !who).received.flatten ++
      ((l !who).cb.rcvQueue.map Segment.data).flatten ++
      ((l !who).cb.rcvBuf.map Segment.data).flatten := by
  obtain ⟨t, confirmed, hsteps, hparties⟩ := h.parties who
  obtain ⟨ms, hsends⟩ := hparties.sends
  obtain ⟨ms', hreceives⟩ := hparties.receives
  have ht := hsteps.sound Sound.init
  unfold Ikcpcb.ikcpWaitsnd at hidle
  have hbuf : (l who).cb.sndBuf = [] := List.length_eq_zero_iff.mp (by omega)
  have hqueue : (l who).cb.sndQueue = [] := List.length_eq_zero_iff.mp (by omega)
  have hms : ms = [] := by
    have hmap := hsends.window.sndBuf_eq
    rw [Ikcpcb.kcp_sndBuf, hbuf] at hmap
    exact List.map_eq_nil_iff.mp hmap.symm
  -- what is not delivered is held, and it is all that is held
  have hheld : ms' = List.range' t.delivered.length (t.sent.length - t.delivered.length) := by
    apply List.Pairwise.eq_of_mem_iff hreceives.window.sorted List.pairwise_lt_range'
    intro n
    rw [List.mem_range'_1]
    constructor
    · intro hn
      have hlow := (hreceives.window.ahead n hn).1
      have hhigh := ht.received_sent (.inr (hreceives.held hn))
      omega
    · rintro ⟨hlow, hhigh⟩
      rcases ht.kept_or_received (n := n) (by omega) with hkept | hlt | hsome
      · rw [hsends.kept_eq, hms] at hkept
        cases hkept
      · omega
      · exact hreceives.mem_of_held hsome
  have hsent := rcvBuf_sent hreceives ht
  obtain ⟨rest, hrest⟩ := ht.delivered_sent
  have hbuffered : (l !who).cb.rcvBuf.map Segment.payload = rest := by
    have hlength : t.sent.length - t.delivered.length = rest.length := by
      rw [← hrest, List.length_append, Nat.add_sub_cancel_left]
    have hnumbers : ms'.map (fun m => t.sent[m]?) = rest.map some := by
      rw [hheld, hlength, ← hrest]
      apply List.ext_getElem
      · rw [List.length_map, List.length_map, List.length_range']
      · intro i hi hi'
        rw [List.length_map] at hi'
        rw [List.getElem_map, List.getElem_map, List.getElem_range', Nat.one_mul,
          List.getElem?_append_right (Nat.le_add_right _ _), Nat.add_sub_cancel_left,
          List.getElem?_eq_getElem hi']
    rw [hnumbers] at hsent
    apply List.map_injective_iff.mpr (Option.some_injective _)
    rw [← hsent, List.map_map]
    rfl
  rw [(h.accounts who).accepted_eq, hqueue, (h.accounts !who).received_eq, ← hparties.sent_eq,
    ← hrest, hreceives.delivered_eq, ← hbuffered]
  simp only [List.map_append, List.flatten_append, payload_bytes, List.map_nil, List.flatten_nil,
    List.append_nil, Ikcpcb.kcp_rcvQueue]

end Conversation

end Evlite
