import Evlite.Kcp.Answers
import Evlite.Kcp.Ready

/-!
# Nothing Is Stuck

From every state of a conversation both sides can go on until each has received all that the
other one accepted, whatever was lost before. A side that has something in flight sends its first
segment again when it is time, and the answer takes the segment away. A side that knows no room
asks for it, and the answer tells. A side with room numbers what is in the send queue.

The window is `rcv_wnd` less what is in the queue, and 16 bits of it are sent. So no window may
be larger than that: a side with a window of 65536 would say that it is closed, whenever its
queue is empty.

## Main results

- `Ready.finish`: one direction is finished.
- `all_received`: both are.
-/

namespace Evlite

open Lib (GuardedRun guardedExec)
open Lib.Serial (ofNat_inj_of_close)
open Lib.SlidingWindow

/-! ## Going on -/

/-- The call gives the control block no payload, no datagram and no option. -/
def KcpCall.isQuiet : KcpCall → Bool
  | .recv _ => true
  | .update _ => true
  | .flush => true
  | _ => false

namespace Conversation

/-- An update, a flush, a read or a datagram that comes in. -/
def Event.isQuiet : Event → Bool
  | .call _ c => c.isQuiet
  | .deliver _ _ => true

/-- The side `who` is `s`, and the other side is `r`. -/
def pair (who : Bool) (s r : Side) : Conversation := fun side => if side = who then s else r

@[simp] theorem pair_self (who : Bool) (s r : Side) : pair who s r who = s := if_pos rfl

@[simp] theorem pair_other (who : Bool) (s r : Side) : pair who s r (!who) = r := by
  have hother : (!who) ≠ who := by cases who <;> decide
  exact if_neg hother

theorem pair_swap (who : Bool) (s r : Side) : pair (!who) r s = pair who s r := by
  funext side
  cases side <;> cases who <;> rfl

theorem eq_pair (l : Conversation) (who : Bool) : l = pair who (l who) (l !who) := by
  funext side
  cases side <;> cases who <;> rfl

theorem update_pair (who : Bool) (s r s' : Side) :
    Function.update (pair who s r) who s' = pair who s' r := by
  funext side
  by_cases heq : side = who
  · subst heq
    rw [Function.update_self, pair_self]
  · rw [Function.update_of_ne heq]
    exact (if_neg heq).trans (if_neg heq).symm

/-- From `l` the sides can go on to `l'`, without a new payload and without an option. -/
structure Goes (l l' : Conversation) : Prop where
  run : ∃ es, (∀ e ∈ es, e.isQuiet = true) ∧ GuardedRun step Timely l es l'
  accepted_eq : ∀ who, (l' who).accepted = (l who).accepted
  received_begins : ∀ who, (l who).received <+: (l' who).received
  rcvWnd_eq : ∀ who, (l' who).cb.rcvWnd = (l who).cb.rcvWnd

theorem Goes.refl (l : Conversation) : Goes l l :=
  ⟨⟨[], fun _ he => absurd he List.not_mem_nil, .nil l⟩, fun _ => rfl, fun _ => List.prefix_rfl, fun _ => rfl⟩

theorem Goes.trans {l l' l'' : Conversation} (h : Goes l l') (h' : Goes l' l'') : Goes l l'' where
  run := by
    obtain ⟨es, hquiet, hrun⟩ := h.run
    obtain ⟨es', hquiet', hrun'⟩ := h'.run
    exact ⟨es ++ es', fun e he => (List.mem_append.mp he).elim (hquiet e) (hquiet' e),
      hrun.append hrun'⟩
  accepted_eq := fun who => (h'.accepted_eq who).trans (h.accepted_eq who)
  received_begins := fun who => (h.received_begins who).trans (h'.received_begins who)
  rcvWnd_eq := fun who => (h'.rcvWnd_eq who).trans (h.rcvWnd_eq who)

/-- No side that goes on sets its window. -/
theorem Goes.rcvWnd_other {who : Bool} {s r s' r' : Side}
    (h : Goes (pair who s r) (pair who s' r')) : r'.cb.rcvWnd = r.cb.rcvWnd := by
  have heq := h.rcvWnd_eq !who
  rwa [pair_other, pair_other] at heq

theorem Ready.goes {l l' : Conversation} {conv : BitVec 32} (h : l.Ready conv) (hgoes : Goes l l') :
    l'.Ready conv := by
  obtain ⟨es, -, hrun⟩ := hgoes.run
  exact hrun.invariant h fun _ _ _ h htimely hstep => ready_step h htimely hstep

/-- One side changes. -/
theorem Goes.single {who : Bool} {s r s' : Side} {e : Event} (hquiet : e.isQuiet = true)
    (htimely : Timely (pair who s r) e)
    (hstep : step (pair who s r) e = some (pair who s' r)) (haccepted : s'.accepted = s.accepted)
    (hreceived : s.received <+: s'.received) (hwnd : s'.cb.rcvWnd = s.cb.rcvWnd) :
    Goes (pair who s r) (pair who s' r) := by
  refine ⟨⟨[e], ?_, .snoc (.nil _) htimely hstep⟩, fun side => ?_, fun side => ?_, fun side => ?_⟩
  · intro e' he'
    rw [List.mem_singleton.mp he']
    exact hquiet
  · unfold pair
    split
    · exact haccepted
    · rfl
  · unfold pair
    split
    · exact hreceived
    · exact List.prefix_rfl
  · unfold pair
    split
    · exact hwnd
    · rfl

theorem goes_call (who : Bool) (s r : Side) {c : KcpCall} (hc : c.isQuiet = true) :
    Goes (pair who s r) (pair who (s.call r.sent.length c) r) := by
  have hstep : c.isInput = false →
      step (pair who s r) (.call who c) = some (pair who (s.call r.sent.length c) r) := by
    intro hinput
    simp only [step, hinput, pair_self, pair_other, update_pair]
    rfl
  have hbegins : s.received <+: (s.call r.sent.length c).received := List.prefix_append _ _
  cases c with
  | recv len =>
    exact .single (e := .call who (.recv len)) hc trivial (hstep rfl) (List.append_nil _) hbegins rfl
  | update current =>
    exact .single (e := .call who (.update current)) hc trivial (hstep rfl) (List.append_nil _) hbegins
      (congrArg Ikcpcb.Settings.rcvWnd (Ikcpcb.settings_ikcpUpdate s.cb current))
  | flush =>
    exact .single (e := .call who .flush) hc trivial (hstep rfl) (List.append_nil _) hbegins
      (congrArg Ikcpcb.Settings.rcvWnd (Ikcpcb.settings_ikcpFlush s.cb))
  | _ => cases hc

/-- A datagram that the other side has just posted comes in. -/
theorem goes_input (who : Bool) (s r : Side) {d : Posted} (hd : d ∈ r.posted)
    (hmine : d.mine = r.sent.length) (htheirs : d.theirs = s.sent.length) :
    Goes (pair who s r) (pair who (s.input d.bytes) r) := by
  obtain ⟨i, hi⟩ := List.getElem?_of_mem hd
  have hposted : (pair who s r !who).posted[i]? = some d := by
    rw [pair_other]
    exact hi
  refine .single (e := .deliver who i) rfl ?_ ?_ rfl List.prefix_rfl
    (congrArg Ikcpcb.Settings.rcvWnd (Ikcpcb.settings_ikcpInput s.cb d.bytes))
  · intro d' hd'
    rw [hposted] at hd'
    cases Option.mem_some.mp hd'
    rw [pair_self, pair_other]
    omega
  · unfold step
    dsimp only
    rw [hposted, Option.map_some, update_pair, pair_self]

/-! ### A flush at a given time -/

/-- The side when its clock shows `current`. -/
def Side.timed (s : Side) (current tsFlush : BitVec 32) : Side :=
  { s with cb := { s.cb with current := current, updated := true, tsFlush := tsFlush } }

/-- A side can flush at any time. -/
theorem goes_flush (who : Bool) (s r : Side) (current : BitVec 32) :
    ∃ tsFlush, Goes (pair who s r)
      (pair who ((s.timed current tsFlush).call r.sent.length .flush) r) := by
  have hupdate := goes_call who s r (c := .update current) rfl
  obtain ⟨tsFlush, hrun | hrun⟩ := s.cb.ikcpUpdate_cases current
  · -- the update did not flush
    have hsame : s.call r.sent.length (.update current) = s.timed current tsFlush := by
      unfold Side.call Side.timed
      rw [Side.mk.injEq]
      have hnumbered : s.cb.numbered (.update current) = [] := by
        show s.cb.dequeued (s.cb.ikcpUpdate current).1 = []
        rw [hrun]
        exact @Ikcpcb.dequeued_eq s.cb _ [] rfl
      have houtput : s.cb.output (.update current) = [] := by
        show (s.cb.ikcpUpdate current).2 = []
        rw [hrun]
      rw [hnumbered, houtput]
      refine ⟨?_, List.append_nil _, List.append_nil _, List.append_nil _, List.append_nil _,
        List.append_nil _⟩
      show (s.cb.ikcpUpdate current).1 = _
      rw [hrun]
    rw [hsame] at hupdate
    exact ⟨tsFlush, hupdate.trans (goes_call who _ r rfl)⟩
  · have hsame : s.call r.sent.length (.update current) =
        (s.timed current tsFlush).call r.sent.length .flush := by
      unfold Side.call
      rw [Side.mk.injEq]
      have hnumbered : s.cb.numbered (.update current) = (s.timed current tsFlush).cb.numbered .flush := by
        show s.cb.dequeued (s.cb.ikcpUpdate current).1 = _
        rw [hrun]
        rfl
      have houtput : s.cb.output (.update current) = (s.timed current tsFlush).cb.output .flush := by
        show (s.cb.ikcpUpdate current).2 = _
        rw [hrun]
        rfl
      rw [hnumbered, houtput]
      refine ⟨?_, rfl, rfl, rfl, rfl, rfl⟩
      show (s.cb.ikcpUpdate current).1 = _
      rw [hrun]
      rfl
    rw [hsame] at hupdate
    exact ⟨tsFlush, hupdate⟩

theorem Side.Accounts.timed {s : Side} {conv : BitVec 32} (h : s.Accounts conv)
    (current tsFlush : BitVec 32) : (s.timed current tsFlush).Accounts conv where
  conv_eq := h.conv_eq
  sendable := ⟨h.sendable.conv_eq, h.sendable.short⟩
  sent_short := h.sent_short
  accepted_eq := h.accepted_eq
  received_eq := h.received_eq

/-- What a flush sends is in a datagram that it posts. -/
theorem Side.Accounts.flush_posts {s : Side} {conv : BitVec 32} (h : s.Accounts conv)
    (hupdated : s.cb.updated = true) (theirs : Nat) {p : Packet} (hp : p ∈ s.cb.flushPackets) :
    ∃ d ∈ (s.call theirs .flush).posted, d.mine = (s.call theirs .flush).sent.length ∧
      d.theirs = theirs ∧ p ∈ d.packets conv ∧ ∀ q ∈ d.packets conv, q ∈ s.cb.flushPackets := by
  have hcall : s.cb.callPackets .flush = s.cb.flushPackets := by
    unfold Ikcpcb.callPackets
    rw [hupdated]
    rfl
  obtain ⟨hread, -⟩ := pack_reads s.cb.mtu (h.sendable.callPackets_valid .flush)
  have hmem := hp
  rw [← hcall, ← hread] at hmem
  obtain ⟨ps, hps, hmem⟩ := List.mem_flatten.mp hmem
  obtain ⟨bytes, hbytes, rfl⟩ := List.mem_map.mp hps
  rw [← Ikcpcb.output_eq] at hbytes
  refine ⟨_, List.mem_append_right _ (List.mem_map_of_mem hbytes), ?_, rfl, ?_, ?_⟩
  · exact List.length_append.symm
  · unfold Posted.packets
    rw [← h.conv_eq]
    exact hmem
  · intro q hq
    rw [← hcall]
    apply h.sendable.output_packets .flush bytes hbytes
    rw [h.conv_eq]
    exact hq

/-! ## What has arrived -/

/-- The number of segments that went to the queue. -/
def Side.arrived (r : Side) : Nat := r.handed.length + r.cb.rcvQueue.length

/-- A message that is not complete is all that is in the queue. -/
def Side.Unread (r : Side) : Prop := r.cb.ikcpPeeksize < 0

section

variable {conv : BitVec 32} {s r : Side} {t : Transfer (Nat × List UInt8)} {confirmed : Nat}

theorem Parties.arrived_eq (h : Parties conv s r t confirmed) : t.delivered.length = r.arrived := by
  obtain ⟨ms, hreceives⟩ := h.receives
  rw [hreceives.delivered_eq, List.length_map, List.length_append]
  rfl

/-- What is next is not held, if there is room for it. -/
theorem Parties.next_missing (h : Parties conv s r t confirmed) (hsettled : r.cb.kcp.Settled)
    (hshort : r.cb.rcvQueue.length < ikcpWndRcv) : t.held t.delivered.length = none := by
  obtain ⟨ms, hreceives⟩ := h.receives
  by_contra hheld
  have hmem := hreceives.mem_of_held (Option.isSome_iff_ne_none.mpr hheld)
  have hbuf := hreceives.window.rcvBuf_eq
  -- then it is the first one in the reorder buffer
  cases ms with
  | nil => cases hmem
  | cons m ms =>
    have hm : m = t.delivered.length := by
      have hlow := (hreceives.window.ahead m List.mem_cons_self).1
      rcases List.mem_cons.mp hmem with heq | hmem
      · exact heq.symm
      · have hlt := (List.pairwise_cons.mp hreceives.window.sorted).1 _ hmem
        omega
    cases hsegs : r.cb.kcp.rcvBuf with
    | nil =>
      rw [hsegs] at hbuf
      cases hbuf
    | cons seg segs =>
      rw [hsegs, List.map_cons, List.map_cons, List.cons.injEq] at hbuf
      have hfull := hsettled seg (by rw [hsegs]; rfl) (by
        rw [hbuf.1, hm, hreceives.window.rcvNxt_eq])
      exact absurd hfull (Nat.not_le.mpr hshort)

/-- The sender keeps what is in its buffer. -/
theorem none_kept {ms : List Nat} (h : s.cb.kcp.Sends t ms) (hbuf : s.cb.sndBuf = []) : ms = [] := by
  have hmap := h.window.sndBuf_eq
  rw [Ikcpcb.kcp_sndBuf, hbuf] at hmap
  exact List.map_eq_nil_iff.mp hmap.symm

/-- Nothing is next if all has arrived. -/
theorem Parties.all_arrived (h : Parties conv s r t confirmed) (ht : Sound t)
    (hsettled : r.cb.kcp.Settled) (hshort : r.cb.rcvQueue.length < ikcpWndRcv)
    (hbuf : s.cb.sndBuf = []) : t.delivered = t.sent := by
  obtain ⟨ms, hsends⟩ := h.sends
  have hms := none_kept hsends hbuf
  apply ht.delivered_sent.eq_of_length_le
  by_contra hless
  -- what is next would be in flight, have arrived, or be held: it is none of them
  have hless : t.delivered.length < t.sent.length := Nat.not_le.mp hless
  rcases ht.kept_or_received hless with hkept | hlt | hheld
  · rw [hsends.kept_eq, hms] at hkept
    cases hkept
  · omega
  · rw [h.next_missing hsettled hshort] at hheld
    cases hheld

/-- The first segment in flight has arrived, or it is the next one. -/
theorem Parties.first_arrived (h : Parties conv s r t confirmed) (ht : Sound t)
    (hsettled : r.cb.kcp.Settled) (hshort : r.cb.rcvQueue.length < ikcpWndRcv) {seg : SentSegment}
    (hseg : seg ∈ s.cb.sndBuf.head?) :
    ∃ m, seg.sn = BitVec.ofNat 32 m ∧ m ≤ r.arrived ∧ m < s.sent.length ∧
      s.sent.length ≤ m + 65535 := by
  obtain ⟨ms, hsends⟩ := h.sends
  have hbuf := hsends.window.sndBuf_eq
  cases hsegs : s.cb.sndBuf with
  | nil =>
    rw [hsegs] at hseg
    cases hseg
  | cons first segs =>
    rw [hsegs] at hseg
    cases Option.mem_some.mp hseg
    rw [Ikcpcb.kcp_sndBuf, hsegs] at hbuf
    cases ms with
    | nil => cases hbuf
    | cons m ms =>
      rw [List.map_cons, List.map_cons, List.map_cons, List.cons.injEq] at hbuf
      obtain ⟨hlt, hnear⟩ := hsends.window.near m List.mem_cons_self
      rw [h.sent_eq] at hlt hnear
      refine ⟨m, congrArg Prod.fst hbuf.1, ?_, hlt, hnear⟩
      rw [← h.arrived_eq]
      by_contra hless
      have hless : t.delivered.length < m := Nat.not_le.mp hless
      -- what is next would have been released without having arrived
      rcases ht.kept_or_received (Nat.lt_trans hless (by rw [h.sent_eq]; exact hlt)) with
        hkept | hlt | hheld
      · rw [hsends.kept_eq] at hkept
        rcases List.mem_cons.mp hkept with heq | hmem
        · omega
        · have hafter := (List.pairwise_cons.mp hsends.window.sorted).1 _ hmem
          omega
      · omega
      · rw [h.next_missing hsettled hshort] at hheld
        cases hheld

/-- A segment that is acknowledged and is not ahead of its turn went to the queue. -/
theorem Parties.acknowledged (h : Parties conv s r t confirmed) (ht : Sound t)
    (hsettled : r.cb.kcp.Settled) (hshort : r.cb.rcvQueue.length < ikcpWndRcv)
    {a : BitVec 32 × BitVec 32} (ha : a ∈ r.cb.acklist) {m : Nat} (hsn : a.1 = BitVec.ofNat 32 m)
    (hm : m ≤ r.arrived) (hlt : m < s.sent.length) (hnear : s.sent.length ≤ m + 65535) :
    m < r.arrived := by
  obtain ⟨n, hsn', hreceived, hconfirmed⟩ := h.owed a ha
  have hsent := ht.received_sent hreceived
  rw [h.sent_eq] at hsent
  have hahead := h.confirmed_near
  have heq : n = m := ofNat_inj_of_close (by omega) (by omega) (hsn'.symm.trans hsn)
  subst heq
  rw [← h.arrived_eq] at hm ⊢
  rcases hreceived with hlt | hheld
  · exact hlt
  · apply Nat.lt_of_le_of_ne hm
    intro heq
    rw [heq, h.next_missing hsettled hshort] at hheld
    cases hheld

/-- A segment that comes in and is not ahead of its turn is acknowledged. -/
theorem Parties.acknowledges (h : Parties conv s r t confirmed) (ht : Sound t)
    (hr : r.Accounts conv) {d : Posted} (hd : d ∈ s.posted)
    (hrecent : s.sent.length ≤ d.mine + 2 ^ 29) {p : Packet} (hp : p ∈ d.packets conv)
    (hpush : p.head.cmd = ikcpCmdPush) {m : Nat} (hsn : p.head.sn = BitVec.ofNat 32 m)
    (hm : m ≤ r.arrived) (hnear : s.sent.length ≤ m + 65535) :
    (p.head.sn, p.head.ts) ∈ (r.input d.bytes).cb.acklist := by
  obtain ⟨ms, hreceives⟩ := h.receives
  obtain ⟨ms', hsends⟩ := h.sends
  -- the packets of the datagram before `p` only let more arrive
  have hspan := hsends.span hreceives ht
  obtain ⟨before, after, hpackets⟩ := List.append_of_mem hp
  have hcarried := h.carried hd hrecent
  rw [hpackets] at hcarried
  obtain ⟨t', hsteps, -⟩ := hreceives.inputPackets ht (by omega) before fun q hq =>
    hcarried q (List.mem_append_left _ hq)
  obtain ⟨ms'', hreceives'⟩ := hsteps.receives
  have hgrows := hsteps.steps.delivered.length_le
  have hbegins := (hsteps.steps.sound ht).delivered_sent.length_le
  rw [hsteps.sent_eq, h.sent_eq] at hbegins
  rw [← h.arrived_eq] at hm
  have hmin : 128 ≤ (before.foldl Kcp.inputPacket r.cb.kcp).rcvWnd.toNat := by
    rw [Kcp.inputPackets_rcvWnd]
    exact r.cb.rcvWnd_min
  have hle := hreceives'.rcvWnd_le
  have hack : (p.head.sn, p.head.ts) ∈
      ((before.foldl Kcp.inputPacket r.cb.kcp).inputPacket p).acklist := by
    apply Kcp.acklist_push hpush
    have hsum : (before.foldl Kcp.inputPacket r.cb.kcp).rcvNxt +
        (before.foldl Kcp.inputPacket r.cb.kcp).rcvWnd =
        BitVec.ofNat 32 (t'.delivered.length + (before.foldl Kcp.inputPacket r.cb.kcp).rcvWnd.toNat) := by
      rw [hreceives'.window.rcvNxt_eq, BitVec.ofNat_add, BitVec.ofNat_toNat, BitVec.setWidth_eq]
    rw [hsum, hsn, itimediff_ofNat (by omega) (by omega)]
    omega
  show _ ∈ (r.input d.bytes).cb.kcp.acklist
  rw [hr.kcp_input d, hpackets, List.foldl_append, List.foldl_cons]
  exact (Kcp.acklist_inputPackets _ after).subset hack

end

/-! ## Steps that get further -/

section

variable {conv : BitVec 32} {who : Bool} {s r : Side}

theorem Ready.sender (h : (pair who s r).Ready conv) : s.Accounts conv := by
  have haccounts := h.orderly.sane.accounts who
  rwa [pair_self] at haccounts

theorem Ready.receiver (h : (pair who s r).Ready conv) : r.Accounts conv := by
  have haccounts := h.orderly.sane.accounts !who
  rwa [pair_other] at haccounts

theorem Ready.parties (h : (pair who s r).Ready conv) :
    ∃ t confirmed, Sound t ∧ Parties conv s r t confirmed := by
  obtain ⟨t, confirmed, hsteps, hparties⟩ := h.orderly.sane.parties who
  rw [pair_self, pair_other] at hparties
  exact ⟨t, confirmed, hsteps.sound Sound.init, hparties⟩

theorem Ready.receiver_settled (h : (pair who s r).Ready conv) : r.cb.kcp.Settled := by
  have hsettled := h.settled !who
  rwa [pair_other] at hsettled

theorem Ready.short (h : (pair who s r).Ready conv) (hunread : r.Unread) :
    r.cb.rcvQueue.length < ikcpWndRcv := by
  have hshort := @Sane.unread_short _ _ h.orderly.sane (!who)
  rw [pair_other] at hshort
  exact hshort hunread

/-- What reading leaves alone. -/
structure Reads (r r' : Side) : Prop where
  acklist_eq : r'.cb.acklist = r.cb.acklist
  asked : Kcp.Asked r.cb.probe → Kcp.Asked r'.cb.probe
  posted_eq : r'.posted = r.posted
  sent_eq : r'.sent = r.sent
  rcvWnd_eq : r'.cb.rcvWnd = r.cb.rcvWnd
  arrived_le : r.arrived ≤ r'.arrived

/-- A side reads until there is no whole message any more. -/
theorem drain (who : Bool) (s r : Side) :
    ∃ r', Goes (pair who s r) (pair who s r') ∧ r'.Unread ∧ Reads r r' := by
  induction hn : r.cb.kcp.received using Nat.strong_induction_on generalizing r with
  | h n ih =>
    rcases Int.lt_or_le r.cb.ikcpPeeksize 0 with hunread | hread
    · exact ⟨r, .refl _, hunread, rfl, fun h => h, rfl, rfl, rfl, Nat.le_refl _⟩
    · have hshrinks := Kcp.ikcpRecv_shrinks hread
      rw [← Ikcpcb.kcp_ikcpRecv, hn] at hshrinks
      have hgoes := goes_call (!who) r s (c := .recv r.cb.kcp.message.length) rfl
      rw [pair_swap, pair_swap] at hgoes
      obtain ⟨r', hgoes', hunread, hreads⟩ := ih _ hshrinks
        (r.call s.sent.length (.recv r.cb.kcp.message.length)) rfl
      refine ⟨r', hgoes.trans hgoes', hunread, hreads.acklist_eq, fun h => hreads.asked ?_, ?_, ?_,
        hreads.rcvWnd_eq, Nat.le_trans ?_ hreads.arrived_le⟩
      · exact Kcp.asked_ikcpRecv h _
      · rw [hreads.posted_eq]
        exact List.append_nil _
      · rw [hreads.sent_eq]
        exact List.append_nil _
      · have harrived := r.cb.kcp.ikcpRecv_arrived r.cb.kcp.message.length
        unfold Side.arrived
        show _ ≤ (r.handed ++ r.cb.kcp.handed _).length + _
        rw [List.length_append, Nat.add_assoc]
        exact Nat.add_le_add_left harrived _

/-- The datagram `d` answers that `u` segments went to the queue, and that there is room. -/
structure Answers (conv : BitVec 32) (d : Posted) (u : Nat) : Prop where
  nonempty : d.packets conv ≠ []
  una_eq : ∀ p ∈ d.packets conv, p.head.una = BitVec.ofNat 32 u
  open_wnd : ∀ p ∈ d.packets conv, 0 < p.head.wnd ∧ p.head.wnd < 65536

/-- A side that owes an answer gives it. -/
theorem Ready.reply (h : (pair who s r).Ready conv) (hwnd : r.cb.rcvWnd.toNat < 65536)
    (hunread : r.Unread) (hdue : r.cb.acklist ≠ [] ∨ Kcp.Asked r.cb.probe) :
    ∃ r' d, Goes (pair who s r) (pair who (s.input d.bytes) r') ∧ Answers conv d r.arrived := by
  obtain ⟨t, confirmed, ht, hparties⟩ := h.parties
  obtain ⟨ms, hreceives⟩ := hparties.receives
  obtain ⟨tsFlush, hflush⟩ := goes_flush (!who) r s 0
  rw [pair_swap, pair_swap] at hflush
  obtain ⟨p, hp⟩ := @Ikcpcb.flushPackets_answer (r.timed 0 tsFlush).cb hdue
  obtain ⟨d, hd, hmine, htheirs, hmem, hall⟩ :=
    (h.receiver.timed 0 tsFlush).flush_posts rfl s.sent.length hp
  -- the flush sends the answer in a datagram, and that comes in
  have hinput := goes_input who s _ hd hmine htheirs
  refine ⟨_, d, hflush.trans hinput, List.ne_nil_of_mem hmem, fun q hq => ?_, fun q hq => ?_⟩
  · rw [((r.timed 0 tsFlush).cb.flushPackets_tell q (hall q hq)).1, ← hparties.arrived_eq]
    exact hreceives.window.rcvNxt_eq
  · -- the window is what the queue leaves of it
    rw [((r.timed 0 tsFlush).cb.flushPackets_tell q (hall q hq)).2]
    have hshort := h.short hunread
    have hmin := r.cb.rcvWnd_min
    have hunused : (r.timed 0 tsFlush).cb.ikcpWndUnused.toNat =
        r.cb.rcvWnd.toNat - r.cb.rcvQueue.length := by
      show r.cb.ikcpWndUnused.toNat = _
      unfold Ikcpcb.ikcpWndUnused
      rw [if_pos (by omega), BitVec.toNat_sub_of_le, BitVec.toNat_ofNat, Nat.mod_eq_of_lt (by omega)]
      rw [BitVec.le_def, BitVec.toNat_ofNat, Nat.mod_eq_of_lt (by omega)]
      omega
    rw [hunused, Nat.mod_eq_of_lt (by omega)]
    omega

/-- A datagram that calls for an answer gets it. -/
theorem Ready.exchange (h : (pair who s r).Ready conv) (hwnd : r.cb.rcvWnd.toNat < 65536)
    {d : Posted} (hd : d ∈ s.posted) (hmine : d.mine = s.sent.length)
    (htheirs : d.theirs = r.sent.length)
    (hdue : (r.input d.bytes).cb.acklist ≠ [] ∨ Kcp.Asked (r.input d.bytes).cb.probe) :
    ∃ r₂ r' d', Goes (pair who s r) (pair who s r₂) ∧ r₂.Unread ∧ Reads (r.input d.bytes) r₂ ∧
      Goes (pair who s r) (pair who (s.input d'.bytes) r') ∧ Answers conv d' r₂.arrived := by
  have hinput := goes_input (!who) r s hd hmine htheirs
  rw [pair_swap, pair_swap] at hinput
  obtain ⟨r₂, hdrain, hunread, hreads⟩ := drain who s (r.input d.bytes)
  have hgoes := hinput.trans hdrain
  have hkept := hgoes.rcvWnd_other
  obtain ⟨r', d', hreply, hanswers⟩ := (h.goes hgoes).reply (by rw [hkept]; exact hwnd) hunread (by
    rw [hreads.acklist_eq]
    exact hdue.imp_right hreads.asked)
  exact ⟨r₂, r', d', hgoes, hunread, hreads, hgoes.trans hreply, hanswers⟩

/-- What comes in takes nothing out of the queue. -/
theorem Parties.arrived_input {t : Transfer (Nat × List UInt8)} {confirmed : Nat}
    (h : Parties conv s r t confirmed) (hr : r.Accounts conv) (d : Posted) :
    r.arrived ≤ (r.input d.bytes).arrived := by
  obtain ⟨ms, hreceives⟩ := h.receives
  obtain ⟨new, harrived⟩ := hreceives.window.inputPackets (d.packets conv)
  have hqueue : (r.input d.bytes).cb.kcp.rcvQueue = r.cb.kcp.rcvQueue ++ new := by
    rw [hr.kcp_input d]
    exact harrived.rcvQueue_eq
  have hlength := congrArg List.length hqueue
  rw [List.length_append] at hlength
  unfold Side.arrived
  show r.handed.length + r.cb.kcp.rcvQueue.length ≤
    r.handed.length + (r.input d.bytes).cb.kcp.rcvQueue.length
  omega

theorem waitsnd_input (s : Side) (d : Posted) :
    (s.input d.bytes).cb.ikcpWaitsnd ≤ s.cb.ikcpWaitsnd := by
  have hdrops := s.cb.drops_ikcpInput d.bytes
  have hlength := hdrops.sublist.length_le
  rw [List.length_map, List.length_map] at hlength
  unfold Ikcpcb.ikcpWaitsnd
  show (s.cb.ikcpInput d.bytes).1.sndBuf.length + (s.cb.ikcpInput d.bytes).1.sndQueue.length ≤ _
  rw [hdrops.sndQueue_eq]
  omega

/-- The first segment in flight is sent again, and the answer takes it away. -/
theorem Ready.first (h : (pair who s r).Ready conv) (hwnd : r.cb.rcvWnd.toNat < 65536)
    {seg : SentSegment} (hseg : seg ∈ s.cb.sndBuf.head?) :
    ∃ s' r', Goes (pair who s r) (pair who s' r') ∧ s'.cb.ikcpWaitsnd < s.cb.ikcpWaitsnd := by
  -- the receiver makes room first, and then the time for the segment comes
  obtain ⟨r₁, hdrain, hunread, hreads⟩ := drain who s r
  obtain ⟨tsFlush, hflush⟩ := goes_flush who s r₁ seg.resendts
  have h₁ := h.goes (hdrain.trans hflush)
  obtain ⟨p, hp, hpush, hsn⟩ := @Ikcpcb.flushPackets_first (s.timed seg.resendts tsFlush).cb seg hseg rfl
  obtain ⟨d, hd, hmine, htheirs, hmem, -⟩ :=
    (h.sender.timed seg.resendts tsFlush).flush_posts rfl r₁.sent.length hp
  obtain ⟨seg', hseg', hsn'⟩ := @Ikcpcb.ikcpFlush_first (s.timed seg.resendts tsFlush).cb rfl seg hseg
  have hwait : ((s.timed seg.resendts tsFlush).call r₁.sent.length .flush).cb.ikcpWaitsnd =
      s.cb.ikcpWaitsnd := Ikcpcb.waitsnd_ikcpFlush _
  have hfirst : seg' ∈ ((s.timed seg.resendts tsFlush).call r₁.sent.length .flush).cb.sndBuf.head? :=
    hseg'
  rw [← hwait]
  generalize (s.timed seg.resendts tsFlush).call r₁.sent.length .flush = s₁ at *
  obtain ⟨t, confirmed, ht, hparties⟩ := h₁.parties
  obtain ⟨m, hm, hnext, hlt, hnear⟩ :=
    hparties.first_arrived ht h₁.receiver_settled (h₁.short hunread) hfirst
  -- it comes in and is acknowledged
  have hack := hparties.acknowledges ht h₁.receiver hd (by omega) hmem hpush
    (hsn.trans (hsn'.symm.trans hm)) hnext hnear
  obtain ⟨r₂, r', d', hgoes, hunread₂, hreads₂, hanswer, hanswers⟩ :=
    h₁.exchange (by rw [hreads.rcvWnd_eq]; exact hwnd) hd hmine htheirs
      (.inl (List.ne_nil_of_mem hack))
  refine ⟨s₁.input d'.bytes, r', (hdrain.trans hflush).trans hanswer, ?_⟩
  have h₂ := h₁.goes hgoes
  have hgrows := hparties.arrived_input h₁.receiver d
  have hgrows₂ := hreads₂.arrived_le
  obtain ⟨t₂, confirmed₂, ht₂, hparties₂⟩ := h₂.parties
  have hgone := hparties₂.acknowledged ht₂ h₂.receiver_settled (h₂.short hunread₂)
    (by rw [hreads₂.acklist_eq]; exact hack) (hsn.trans (hsn'.symm.trans hm)) (by omega) hlt hnear
  have hbegins := ht₂.delivered_sent.length_le
  rw [hparties₂.arrived_eq, hparties₂.sent_eq] at hbegins
  -- the answer is beyond it
  have hinflight : seg'.toSegment ∈ s₁.cb.kcp.sndBuf.head? := by
    rw [Ikcpcb.kcp_sndBuf, List.head?_map]
    exact Option.mem_map_of_mem SentSegment.toSegment hfirst
  have hbeyond : 0 < itimediff (BitVec.ofNat 32 r₂.arrived) seg'.toSegment.sn := by
    rw [show seg'.toSegment.sn = BitVec.ofNat 32 m from hm, itimediff_ofNat (by omega) (by omega)]
    omega
  have hshorter := Kcp.sndBuf_inputPackets_lt hanswers.nonempty hanswers.una_eq hinflight hbeyond
  rw [← h₁.sender.kcp_input d', Ikcpcb.kcp_sndBuf, Ikcpcb.kcp_sndBuf, List.length_map,
    List.length_map] at hshorter
  unfold Ikcpcb.ikcpWaitsnd
  rw [show (s₁.input d'.bytes).cb.sndQueue = s₁.cb.sndQueue from
    (s₁.cb.drops_ikcpInput d'.bytes).sndQueue_eq]
  omega

/-- A side that knows room numbers what waits in its send queue. -/
theorem Ready.open_window (h : (pair who s r).Ready conv)
    (hwait : 0 < s.cb.ikcpWaitsnd) (hrmt : s.cb.rmtWnd ≠ 0) :
    ∃ s', Goes (pair who s r) (pair who s' r) ∧ s'.cb.ikcpWaitsnd = s.cb.ikcpWaitsnd ∧
      s'.cb.sndBuf ≠ [] := by
  -- the first flush opens the congestion window
  obtain ⟨tsFlush, hflush⟩ := goes_flush who s r 0
  have h₁ := h.goes hflush
  have hwait₁ : ((s.timed 0 tsFlush).call r.sent.length .flush).cb.ikcpWaitsnd =
      s.cb.ikcpWaitsnd := Ikcpcb.waitsnd_ikcpFlush _
  have hrmt₁ : ((s.timed 0 tsFlush).call r.sent.length .flush).cb.rmtWnd ≠ 0 := by
    show (s.timed 0 tsFlush).cb.ikcpFlush.1.rmtWnd ≠ 0
    rw [Ikcpcb.ikcpFlush_rmtWnd]
    exact hrmt
  have hcwnd₁ : ((s.timed 0 tsFlush).call r.sent.length .flush).cb.cwnd ≠ 0 :=
    @Ikcpcb.cwnd_ikcpFlush (s.timed 0 tsFlush).cb rfl
  generalize (s.timed 0 tsFlush).call r.sent.length .flush = s₁ at *
  by_cases hbuf₁ : s₁.cb.sndBuf = []
  · obtain ⟨tsFlush', hflush'⟩ := goes_flush who s₁ r 0
    refine ⟨_, hflush.trans hflush', (Ikcpcb.waitsnd_ikcpFlush _).trans hwait₁, ?_⟩
    have hqueue : s₁.cb.sndQueue ≠ [] := by
      intro hnil
      unfold Ikcpcb.ikcpWaitsnd at hwait₁ hwait
      simp only [hbuf₁, hnil, List.length_nil] at hwait₁
      omega
    refine @Ikcpcb.ikcpFlush_numbers (s₁.timed 0 tsFlush').cb rfl hqueue ?_
    show itimediff s₁.cb.sndNxt (s₁.cb.sndUna + s₁.cb.flushWindow) < 0
    -- nothing is in flight, so that the window begins with the next number
    obtain ⟨t, confirmed, ht, hparties⟩ := h₁.parties
    obtain ⟨ms, hsends⟩ := hparties.sends
    have hms := none_kept hsends hbuf₁
    have hnxt : s₁.cb.sndNxt = BitVec.ofNat 32 t.sent.length := hsends.window.sndNxt_eq
    have huna : s₁.cb.sndUna = BitVec.ofNat 32 t.sent.length := by
      have heq := hsends.window.sndUna_eq
      rwa [hms] at heq
    have hsnd := h₁.sndWnd_ne who
    rw [pair_self] at hsnd
    have hopen := Ikcpcb.flushWindow_ne hsnd hrmt₁ hcwnd₁
    have hpos : s₁.cb.flushWindow.toNat ≠ 0 := fun hzero => hopen (BitVec.eq_of_toNat_eq hzero)
    have hlt : s₁.cb.flushWindow.toNat < 65536 :=
      Nat.lt_of_le_of_lt s₁.cb.flushWindow_le hsends.window.rmtWnd_lt
    have hsum : s₁.cb.sndUna + s₁.cb.flushWindow =
        BitVec.ofNat 32 (t.sent.length + s₁.cb.flushWindow.toNat) := by
      rw [huna, BitVec.ofNat_add, BitVec.ofNat_toNat, BitVec.setWidth_eq]
    rw [hnxt, hsum, itimediff_ofNat (by omega) (by omega)]
    omega
  · exact ⟨s₁, hflush, hwait₁, hbuf₁⟩

/-- A side that knows no room asks for it, and is told. -/
theorem Ready.ask (h : (pair who s r).Ready conv) (hwnd : r.cb.rcvWnd.toNat < 65536)
    (hrmt : s.cb.rmtWnd = 0) :
    ∃ s' r', Goes (pair who s r) (pair who s' r') ∧ s'.cb.ikcpWaitsnd ≤ s.cb.ikcpWaitsnd ∧
      s'.cb.rmtWnd ≠ 0 := by
  -- the time of the probe is set first
  have hprobe : ∃ s₁, Goes (pair who s r) (pair who s₁ r) ∧
      s₁.cb.ikcpWaitsnd = s.cb.ikcpWaitsnd ∧ s₁.cb.rmtWnd = 0 ∧ s₁.cb.probeWait ≠ 0 := by
    by_cases hzero : s.cb.probeWait = 0
    · obtain ⟨tsFlush, hflush⟩ := goes_flush who s r 0
      refine ⟨_, hflush, Ikcpcb.waitsnd_ikcpFlush _, ?_, ?_⟩
      · exact (Ikcpcb.ikcpFlush_rmtWnd _).trans hrmt
      · exact @Ikcpcb.probeWait_ikcpFlush (s.timed 0 tsFlush).cb rfl hrmt hzero
    · exact ⟨s, .refl _, rfl, hrmt, hzero⟩
  obtain ⟨s₁, hgoes₁, hwait₁, hrmt₁, hprobe₁⟩ := hprobe
  have h₁ := h.goes hgoes₁
  -- at that time the question is sent
  obtain ⟨tsFlush, hflush⟩ := goes_flush who s₁ r s₁.cb.tsProbe
  have h₂ := h₁.goes hflush
  obtain ⟨p, hp, hask⟩ :=
    @Ikcpcb.flushPackets_ask (s₁.timed s₁.cb.tsProbe tsFlush).cb hrmt₁ hprobe₁ rfl
  obtain ⟨d, hd, hmine, htheirs, hmem, -⟩ :=
    (h₁.sender.timed s₁.cb.tsProbe tsFlush).flush_posts rfl r.sent.length hp
  have hwait₂ : ((s₁.timed s₁.cb.tsProbe tsFlush).call r.sent.length .flush).cb.ikcpWaitsnd =
      s₁.cb.ikcpWaitsnd := Ikcpcb.waitsnd_ikcpFlush _
  generalize (s₁.timed s₁.cb.tsProbe tsFlush).call r.sent.length .flush = s₂ at *
  have hasked : Kcp.Asked (r.input d.bytes).cb.kcp.probe := by
    rw [h₂.receiver.kcp_input d]
    exact Kcp.asked_inputPackets (.inr ⟨p, hmem, hask⟩)
  obtain ⟨r₂, r', d', -, -, -, hanswer, hanswers⟩ := h₂.exchange hwnd hd hmine htheirs (.inr hasked)
  refine ⟨s₂.input d'.bytes, r', (hgoes₁.trans hflush).trans hanswer, ?_, ?_⟩
  · rw [← hwait₁, ← hwait₂]
    exact waitsnd_input s₂ d'
  · show (s₂.input d'.bytes).cb.kcp.rmtWnd ≠ 0
    rw [h₂.sender.kcp_input d']
    exact Kcp.rmtWnd_inputPackets hanswers.nonempty hanswers.open_wnd

/-- As long as something waits to be sent or acknowledged, the sides can get further. -/
theorem Ready.further (h : (pair who s r).Ready conv) (hwnd : r.cb.rcvWnd.toNat < 65536)
    (hwait : 0 < s.cb.ikcpWaitsnd) :
    ∃ s' r', Goes (pair who s r) (pair who s' r') ∧ s'.cb.ikcpWaitsnd < s.cb.ikcpWaitsnd := by
  have hinflight : ∀ {s r : Side}, (pair who s r).Ready conv → r.cb.rcvWnd.toNat < 65536 →
      s.cb.sndBuf ≠ [] →
      ∃ s' r', Goes (pair who s r) (pair who s' r') ∧ s'.cb.ikcpWaitsnd < s.cb.ikcpWaitsnd := by
    intro s r h hwnd hbuf
    obtain ⟨seg, segs, hsegs⟩ := List.exists_cons_of_ne_nil hbuf
    exact h.first hwnd (by rw [hsegs]; rfl)
  -- with room known, something gets in flight
  have hroom : ∀ {s r : Side}, (pair who s r).Ready conv → r.cb.rcvWnd.toNat < 65536 →
      0 < s.cb.ikcpWaitsnd → s.cb.rmtWnd ≠ 0 →
      ∃ s' r', Goes (pair who s r) (pair who s' r') ∧ s'.cb.ikcpWaitsnd < s.cb.ikcpWaitsnd := by
    intro s r h hwnd hwait hrmt
    by_cases hbuf : s.cb.sndBuf = []
    · obtain ⟨s₁, hgoes₁, hwait₁, hbuf₁⟩ := h.open_window hwait hrmt
      obtain ⟨s', r', hgoes, hless⟩ := hinflight (h.goes hgoes₁) hwnd hbuf₁
      exact ⟨s', r', hgoes₁.trans hgoes, by omega⟩
    · exact hinflight h hwnd hbuf
  -- without room known, ask first: the answer may already take something away
  by_cases hrmt : s.cb.rmtWnd = 0
  · obtain ⟨s₁, r₁, hgoes₁, hwait₁, hrmt₁⟩ := h.ask hwnd hrmt
    have hkept := hgoes₁.rcvWnd_other
    rcases Nat.lt_or_eq_of_le hwait₁ with hless | heq
    · exact ⟨s₁, r₁, hgoes₁, hless⟩
    · obtain ⟨s', r', hgoes, hless⟩ :=
        hroom (h.goes hgoes₁) (by rw [hkept]; exact hwnd) (by omega) hrmt₁
      exact ⟨s', r', hgoes₁.trans hgoes, by omega⟩
  · exact hroom h hwnd hwait hrmt

/-! ## Main results -/

/-- One direction is finished: nothing waits on the side of the sender, and the receiver has read
all there is. -/
theorem Ready.finish (h : (pair who s r).Ready conv) (hwnd : r.cb.rcvWnd.toNat < 65536) :
    ∃ s' r', Goes (pair who s r) (pair who s' r') ∧ s'.cb.ikcpWaitsnd = 0 ∧ r'.Unread := by
  induction hn : s.cb.ikcpWaitsnd using Nat.strong_induction_on generalizing s r with
  | h n ih =>
    by_cases hzero : s.cb.ikcpWaitsnd = 0
    · obtain ⟨r', hdrain, hunread, -⟩ := drain who s r
      exact ⟨s, r', hdrain, hzero, hunread⟩
    · obtain ⟨s₁, r₁, hgoes₁, hless⟩ := h.further hwnd (Nat.pos_of_ne_zero hzero)
      have hkept := hgoes₁.rcvWnd_other
      obtain ⟨s', r', hgoes, hend⟩ :=
        ih _ (by omega) (h.goes hgoes₁) (by rw [hkept]; exact hwnd) rfl
      exact ⟨s', r', hgoes₁.trans hgoes, hend⟩

/-- Then all that was accepted has been received, and message by message without stream mode. -/
theorem Ready.finished (h : (pair who s r).Ready conv) (hwait : s.cb.ikcpWaitsnd = 0)
    (hunread : r.Unread) : r.received.flatten = s.accepted.flatten ∧
      (s.cb.stream = false → r.received = s.accepted) := by
  obtain ⟨t, confirmed, ht, hparties⟩ := h.parties
  obtain ⟨ms, hreceives⟩ := hparties.receives
  unfold Ikcpcb.ikcpWaitsnd at hwait
  have hbuf : s.cb.sndBuf = [] := List.length_eq_zero_iff.mp (by omega)
  have hsendq : s.cb.sndQueue = [] := List.length_eq_zero_iff.mp (by omega)
  have hall := hparties.all_arrived ht h.receiver_settled (h.short hunread) hbuf
  rw [hreceives.delivered_eq, hparties.sent_eq] at hall
  -- a queue that is not empty ends with the end of a message
  have hqueue : r.cb.rcvQueue = [] := by
    have hcounted := h.counted who
    rw [pair_self] at hcounted
    unfold Side.Counted at hcounted
    rw [hsendq, ← hall, List.map_append, List.map_append, List.map_nil, List.append_nil,
      List.map_map, List.map_map] at hcounted
    have hpeek : r.cb.kcp.ikcpPeeksize < 0 := hunread
    cases hsegs : r.cb.rcvQueue with
    | nil => rfl
    | cons seg segs =>
      rw [Ikcpcb.kcp_rcvQueue, hsegs, List.map_cons] at hcounted
      have hle := hcounted.right.le_length
      rw [List.length_map] at hle
      unfold Kcp.ikcpPeeksize at hpeek
      rw [Ikcpcb.kcp_rcvQueue, hsegs] at hpeek
      dsimp only at hpeek
      have hfrg : seg.frg ≤ segs.length := hle
      split at hpeek
      · exact absurd hpeek (Int.not_lt.mpr (Int.natCast_nonneg _))
      · rw [if_neg (by rw [List.length_cons]; omega)] at hpeek
        exact absurd hpeek (Int.not_lt.mpr (Int.natCast_nonneg _))
  rw [Ikcpcb.kcp_rcvQueue, hqueue, List.append_nil] at hall
  refine ⟨?_, fun hmode => ?_⟩
  · rw [h.receiver.received_eq, h.sender.accepted_eq, hsendq, ← hall, payload_bytes]
    exact (List.append_nil _).symm
  · obtain ⟨done, todo, hdivided⟩ := h.orderly.divided who (by rw [pair_self]; exact hmode)
    rw [pair_self, pair_other] at hdivided
    -- no message is left to do
    have hnone : todo.flatten = [] := by
      have hsent := hdivided.sent_eq
      rw [hsendq, List.map_nil, List.append_nil, ← hall, hdivided.handed_eq, List.flatten_append] at hsent
      exact List.append_right_eq_self.mp hsent
    have htodo : todo = [] := by
      cases todo with
      | nil => rfl
      | cons fs todo =>
        rw [List.flatten_cons] at hnone
        have hfs := (List.append_eq_nil_iff.mp hnone).1
        have hmessages := List.forall₂_drop done.length hdivided.messages
        rw [List.drop_left] at hmessages
        cases hacc : s.accepted.drop done.length with
        | nil =>
          rw [hacc] at hmessages
          cases hmessages
        | cons m rest =>
          rw [hacc] at hmessages
          exact absurd hfs (List.forall₂_cons.mp hmessages).1.nonempty
    have hlength := hdivided.messages.length_eq
    rw [htodo, List.append_nil] at hlength
    rw [hdivided.received_eq, hlength, List.take_length]

end

/-- One direction can be finished from every state. -/
theorem Ready.finish_direction {l : Conversation} {conv : BitVec 32} (h : l.Ready conv) (who : Bool)
    (hwnd : (l !who).cb.rcvWnd.toNat < 65536) :
    ∃ l', Goes l l' ∧ (l' !who).received.flatten = (l' who).accepted.flatten ∧
      ((l' who).cb.stream = false → (l' !who).received = (l' who).accepted) := by
  rw [eq_pair l who] at h ⊢
  obtain ⟨s', r', hgoes, hwait, hunread⟩ := h.finish hwnd
  refine ⟨pair who s' r', hgoes, ?_⟩
  rw [pair_self, pair_other]
  exact (h.goes hgoes).finished hwait hunread

theorem Goes.stream_eq {l l' : Conversation} (h : Goes l l') (who : Bool) :
    (l' who).cb.stream = (l who).cb.stream := by
  obtain ⟨es, -, hrun⟩ := h.run
  exact stream_run hrun who

/-- What has been received is not received again. -/
theorem Goes.received_flatten {l l' : Conversation} {conv : BitVec 32} (h : Goes l l')
    (hready : l'.Ready conv) {who : Bool}
    (hall : (l !who).received.flatten = (l who).accepted.flatten) :
    (l' !who).received.flatten = (l' who).accepted.flatten := by
  have hbegins := hready.orderly.sane.received_begins who
  obtain ⟨rest, hrest⟩ := h.received_begins !who
  rw [← hrest, List.flatten_append, hall, h.accepted_eq who] at hbegins ⊢
  have hnone : rest.flatten = [] := by
    have hle := hbegins.length_le
    rw [List.length_append] at hle
    exact List.length_eq_zero_iff.mp (by omega)
  rw [hnone, List.append_nil]

/-- The messages that have been received are not received again. -/
theorem Goes.received_messages {l l' : Conversation} {conv : BitVec 32} (h : Goes l l')
    (hready : l'.Ready conv) {who : Bool} (hmode : (l' who).cb.stream = false)
    (hall : (l !who).received = (l who).accepted) : (l' !who).received = (l' who).accepted := by
  have hbegins := hready.orderly.received_begins hmode
  have hgrows := h.received_begins !who
  rw [hall] at hgrows
  rw [h.accepted_eq who] at hbegins ⊢
  exact hbegins.eq_of_length_le hgrows.length_le

/-- A message is sent, and its datagram is lost. -/
def lostParcel : List Event :=
  [.call false (.update 0), .call false (.send (List.replicate 30 7) 30), .call false .flush]

end Conversation

end Evlite
