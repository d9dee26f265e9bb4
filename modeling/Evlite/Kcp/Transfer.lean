import Evlite.Kcp.SendWindow
import Evlite.Lib.SlidingWindow

/-!
# KCP as Selective Repeat

The two parties of a transfer with numbers that never wrap around, as the control blocks have
them. The sender keeps what is in flight, and what arrives makes it release segments. The
receiver holds what is in `rcv_buf`, and has delivered what was in `rcv_queue`.

The numbers on the wire stand for those of the transfer as long as they are not too old: a
segment or an acknowledgement must not be further than `2 ^ 30` or `2 ^ 31` numbers behind
what was sent last.

## Main results

- `Receives.inputPacket`, `Receives.ikcpRecv`: what the receiver does are steps of the transfer.
- `Sends.inputPacket`, `Sends.ikcpFlush`: and so is what the sender does.
-/

namespace Evlite

open Lib.Serial (ofNat_inj_of_close)
open Lib.SlidingWindow

namespace Kcp

/-! ## The receiver -/

/-- `kcp` is the receiver of the transfer `t`, and has handed over the segments `handed`. -/
structure Receives (kcp : Kcp) (handed : List Segment) (t : Transfer (Nat × List UInt8))
    (ms : List Nat) : Prop where
  window : kcp.ReceiveWindow t.delivered.length ms
  delivered_eq : t.delivered = (handed ++ kcp.rcvQueue).map Segment.payload
  held_of_mem : ∀ seg ∈ kcp.rcvBuf,
    ∃ m ∈ ms, seg.sn = BitVec.ofNat 32 m ∧ t.held m = some seg.payload
  mem_of_held : ∀ {m}, (t.held m).isSome → m ∈ ms
  near : ∀ m ∈ ms, m < t.delivered.length + 2 ^ 30
  rcvWnd_le : kcp.rcvWnd.toNat ≤ 2 ^ 30

/-- The numbers of the reorder buffer are told apart. -/
theorem ReceiveWindow.inj {kcp : Kcp} {r : Nat} {ms : List Nat} (h : kcp.ReceiveWindow r ms)
    {m n : Nat} (hm : m ∈ ms) (hn : n ∈ ms) (heq : BitVec.ofNat 32 m = BitVec.ofNat 32 n) :
    m = n := by
  have hm' := h.ahead m hm
  have hn' := h.ahead n hn
  exact ofNat_inj_of_close (by omega) (by omega) heq

/-- All numbers of the reorder buffer are held. -/
theorem Receives.held {kcp : Kcp} {handed : List Segment} {t : Transfer (Nat × List UInt8)}
    {ms : List Nat} (h : kcp.Receives handed t ms) {m : Nat} (hm : m ∈ ms) : (t.held m).isSome := by
  have hmem : BitVec.ofNat 32 m ∈ kcp.rcvBuf.map Segment.sn := by
    rw [h.window.rcvBuf_eq]
    exact List.mem_map_of_mem hm
  obtain ⟨seg, hseg, hsn⟩ := List.mem_map.mp hmem
  obtain ⟨n, hn, hsn', hheld⟩ := h.held_of_mem seg hseg
  rw [h.window.inj hm hn (hsn.symm.trans hsn'), hheld]
  rfl

/-- A segment of the reorder buffer is the one that is held under its number. -/
theorem Receives.held_eq {kcp : Kcp} {handed : List Segment} {t : Transfer (Nat × List UInt8)}
    {ms : List Nat} (h : kcp.Receives handed t ms) {seg : Segment} (hseg : seg ∈ kcp.rcvBuf)
    {m : Nat} (hm : m ∈ ms) (hsn : seg.sn = BitVec.ofNat 32 m) : t.held m = some seg.payload := by
  obtain ⟨n, hn, hsn', hheld⟩ := h.held_of_mem seg hseg
  rw [h.window.inj hm hn (hsn.symm.trans hsn'), hheld]

theorem Receives.congr {kcp kcp' : Kcp} {handed : List Segment} {t : Transfer (Nat × List UInt8)}
    {ms : List Nat} (h : kcp.Receives handed t ms) (hnxt : kcp'.rcvNxt = kcp.rcvNxt)
    (hbuf : kcp'.rcvBuf = kcp.rcvBuf) (hqueue : kcp'.rcvQueue = kcp.rcvQueue)
    (hwnd : kcp'.rcvWnd.toNat ≤ 2 ^ 30) : kcp'.Receives handed t ms where
  window := h.window.congr hnxt hbuf hqueue
  delivered_eq := by rw [hqueue]; exact h.delivered_eq
  held_of_mem := by rw [hbuf]; exact h.held_of_mem
  mem_of_held := h.mem_of_held
  near := h.near
  rcvWnd_le := hwnd

/-- The receiver does not look at what the sender does. -/
theorem Receives.transfer {kcp : Kcp} {handed : List Segment} {t t' : Transfer (Nat × List UInt8)}
    {ms : List Nat} (h : kcp.Receives handed t ms) (hdelivered : t'.delivered = t.delivered)
    (hheld : t'.held = t.held) : kcp.Receives handed t' ms where
  window := by rw [hdelivered]; exact h.window
  delivered_eq := by rw [hdelivered]; exact h.delivered_eq
  held_of_mem := by rw [hheld]; exact h.held_of_mem
  mem_of_held := by rw [hheld]; exact h.mem_of_held
  near := by rw [hdelivered]; exact h.near
  rcvWnd_le := h.rcvWnd_le

/-- The receiver has taken steps, and nothing else has happened. -/
structure ReceiverSteps (kcp' : Kcp) (handed : List Segment) (t t' : Transfer (Nat × List UInt8)) :
    Prop where
  steps : Steps t t'
  sent_eq : t'.sent = t.sent
  kept_eq : t'.kept = t.kept
  net_eq : t'.net = t.net
  receives : ∃ ms, kcp'.Receives handed t' ms

theorem ReceiverSteps.trans {kcp' kcp'' : Kcp} {handed handed' : List Segment}
    {t t' t'' : Transfer (Nat × List UInt8)} (h : kcp'.ReceiverSteps handed t t')
    (h' : kcp''.ReceiverSteps handed' t' t'') : kcp''.ReceiverSteps handed' t t'' where
  steps := h.steps.trans h'.steps
  sent_eq := h'.sent_eq.trans h.sent_eq
  kept_eq := h'.kept_eq.trans h.kept_eq
  net_eq := h'.net_eq.trans h.net_eq
  receives := h'.receives

theorem Receives.steps_refl {kcp : Kcp} {handed : List Segment} {t : Transfer (Nat × List UInt8)}
    {ms : List Nat} (h : kcp.Receives handed t ms) : kcp.ReceiverSteps handed t t :=
  ⟨.refl, rfl, rfl, rfl, ms, h⟩

/-- What is moved to the queue is delivered. -/
theorem Receives.refill {kcp : Kcp} {handed : List Segment} {t : Transfer (Nat × List UInt8)}
    {ms : List Nat} (h : kcp.Receives handed t ms) :
    ∃ t', kcp.refill.ReceiverSteps handed t t' := by
  obtain ⟨new, ms', hms, hwindow, hqueue, hbuf, hnumbers⟩ := h.window.refill
  have hlength : (t.delivered ++ new.map Segment.payload).length =
      t.delivered.length + new.length := by
    rw [List.length_append, List.length_map]
  refine ⟨_, Steps.deliverAll (new.map Segment.payload) ?_, rfl, rfl, rfl, ms', ?_⟩
  · intro i hi
    rw [List.length_map] at hi
    have hmem : t.delivered.length + i ∈ ms := by
      rw [hms]
      exact List.mem_append_left _ (List.mem_range'_1.mpr (by omega))
    have hsn : new[i].sn = BitVec.ofNat 32 (t.delivered.length + i) := by
      have hget := congrArg (fun l => l[i]?) hnumbers
      simp only [List.getElem?_map, List.getElem?_eq_getElem hi, Option.map_some] at hget
      rw [List.getElem?_range' hi, Option.map_some, Nat.one_mul] at hget
      exact Option.some.inj hget
    rw [List.getElem_map]
    refine h.held_eq ?_ hmem hsn
    rw [hbuf]
    exact List.mem_append_left _ (List.getElem_mem hi)
  · have hkept : ∀ m ∈ ms', m ∈ ms ∧ t.delivered.length + new.length ≤ m := by
      intro m hm
      refine ⟨?_, (hwindow.ahead m hm).1⟩
      rw [hms]
      exact List.mem_append_right _ hm
    refine
      { window := by rw [hlength]; exact hwindow
        delivered_eq := ?_
        held_of_mem := ?_
        mem_of_held := ?_
        near := ?_
        rcvWnd_le := h.rcvWnd_le }
    · dsimp only
      rw [h.delivered_eq, hqueue, ← List.append_assoc]
      exact List.map_append.symm
    · intro seg hseg
      have hmem : seg.sn ∈ ms'.map (BitVec.ofNat 32) := by
        rw [← hwindow.rcvBuf_eq]
        exact List.mem_map_of_mem hseg
      obtain ⟨m, hm, hsn⟩ := List.mem_map.mp hmem
      obtain ⟨hms', hlow⟩ := hkept m hm
      refine ⟨m, hm, hsn.symm, ?_⟩
      dsimp only
      rw [List.length_map, if_neg (by omega)]
      refine h.held_eq ?_ hms' hsn.symm
      rw [hbuf]
      exact List.mem_append_right _ hseg
    · intro m hm
      dsimp only at hm
      rw [List.length_map] at hm
      split at hm
      · cases hm
      · rename_i hout
        have hmem := h.mem_of_held hm
        rw [hms] at hmem
        rcases List.mem_append.mp hmem with hmoved | hmem
        · have hrange := List.mem_range'_1.mp hmoved
          exact absurd hrange (by omega)
        · exact hmem
    · intro m hm
      rw [hlength]
      have hnear := h.near m (hkept m hm).1
      omega

/-- What `ikcp_recv` hands over was delivered, and what it moves to the queue is. -/
theorem Receives.ikcpRecv {kcp : Kcp} {handed : List Segment} {t : Transfer (Nat × List UInt8)}
    {ms : List Nat} (h : kcp.Receives handed t ms) (len : Nat) :
    ∃ t', (kcp.ikcpRecv len).1.ReceiverSteps (handed ++ kcp.handed len) t t' := by
  rcases kcp.ikcpRecv_cases len with ⟨hnone, hhanded, -⟩ | ⟨probe, hrun, -, hhanded, -⟩
  · rw [hnone, hhanded, List.append_nil]
    exact ⟨t, h.steps_refl⟩
  · have hsplit := splitMessage_append kcp.rcvQueue
    have hdrop : { kcp with rcvQueue := (splitMessage kcp.rcvQueue).2 }.Receives
        (handed ++ kcp.handed len) t ms :=
      { window := h.window.drop hsplit.symm
        delivered_eq := by
          rw [hhanded, List.append_assoc, hsplit]
          exact h.delivered_eq
        held_of_mem := h.held_of_mem
        mem_of_held := h.mem_of_held
        near := h.near
        rcvWnd_le := h.rcvWnd_le }
    obtain ⟨t', hrefill⟩ := hdrop.refill
    obtain ⟨ms', hreceives⟩ := hrefill.receives
    rw [hrun]
    exact ⟨t', hrefill.steps, hrefill.sent_eq, hrefill.kept_eq, hrefill.net_eq, ms',
      hreceives.congr rfl rfl rfl hreceives.rcvWnd_le⟩

/-- A segment that gets a place in the reorder buffer is held. -/
theorem Receives.insert {kcp : Kcp} {handed : List Segment} {t : Transfer (Nat × List UInt8)}
    {ms ms' : List Nat} (h : kcp.Receives handed t ms) {newseg : Segment} {n : Nat}
    (hletter : .data n newseg.payload ∈ t.net) (hsn : newseg.sn = BitVec.ofNat 32 n)
    (hnear : n < t.delivered.length + 2 ^ 30) (hnew : n ∉ ms) {before after : List Segment}
    (hbuf : kcp.rcvBuf = before ++ after)
    (hwindow : { kcp with rcvBuf := before ++ newseg :: after }.ReceiveWindow t.delivered.length ms')
    (hms' : ∀ k, k ∈ ms' ↔ k = n ∨ k ∈ ms) :
    ∃ t', { kcp with rcvBuf := before ++ newseg :: after }.ReceiverSteps handed t t' ∧
      t'.Received n := by
  have hn : n ∈ ms' := (hms' n).mpr (.inl rfl)
  refine ⟨{ t with held := Function.update t.held n (some newseg.payload) },
    ⟨.single (.hold t hletter (hwindow.ahead n hn).1), rfl, rfl, rfl, ms', ?_⟩, ?_⟩
  · refine
      { window := hwindow
        delivered_eq := h.delivered_eq
        held_of_mem := ?_
        mem_of_held := ?_
        near := ?_
        rcvWnd_le := h.rcvWnd_le }
    · intro seg hseg
      have hold : seg ∈ kcp.rcvBuf ∨ seg = newseg := by
        rw [hbuf]
        rcases List.mem_append.mp hseg with hseg | hseg
        · exact .inl (List.mem_append_left _ hseg)
        · rcases List.mem_cons.mp hseg with heq | hseg
          · exact .inr heq
          · exact .inl (List.mem_append_right _ hseg)
      rcases hold with hseg | heq
      · obtain ⟨m, hm, hsn', hheld⟩ := h.held_of_mem seg hseg
        refine ⟨m, (hms' m).mpr (.inr hm), hsn', ?_⟩
        have hne : m ≠ n := fun heq => hnew (heq ▸ hm)
        dsimp only
        rw [Function.update_of_ne hne]
        exact hheld
      · refine ⟨n, hn, by rw [heq]; exact hsn, ?_⟩
        dsimp only
        rw [Function.update_self, heq]
    · intro m hm
      by_cases heq : m = n
      · exact (hms' m).mpr (.inl heq)
      · dsimp only at hm
        rw [Function.update_of_ne heq] at hm
        exact (hms' m).mpr (.inr (h.mem_of_held hm))
    · intro m hm
      rcases (hms' m).mp hm with rfl | hm
      · exact hnear
      · exact h.near m hm
  · right
    dsimp only
    rw [Function.update_self]
    rfl

/-- A segment that came in under a number that is not too old: data in the window has arrived
after `ikcp_parse_data`. -/
theorem Receives.ikcpParseData {kcp : Kcp} {handed : List Segment}
    {t : Transfer (Nat × List UInt8)} {ms : List Nat} (h : kcp.Receives handed t ms)
    (newseg : Segment) {n : Nat} (hletter : .data n newseg.payload ∈ t.net)
    (hsn : newseg.sn = BitVec.ofNat 32 n) (hhigh : n < t.delivered.length + 2 ^ 31)
    (hlow : t.delivered.length ≤ n + 2 ^ 30)
    (hwnd : itimediff newseg.sn (kcp.rcvNxt + kcp.rcvWnd) < 0) (hnxt : 0 ≤ itimediff newseg.sn kcp.rcvNxt) :
    ∃ t', (kcp.ikcpParseData newseg).ReceiverSteps handed t t' ∧ t'.Received n := by
  -- the window is compared with the number itself
  have hnear : n < t.delivered.length + 2 ^ 30 := by
    have hle := h.rcvWnd_le
    have hsum : kcp.rcvNxt + kcp.rcvWnd =
        BitVec.ofNat 32 (t.delivered.length + kcp.rcvWnd.toNat) := by
      rw [h.window.rcvNxt_eq, BitVec.ofNat_add, BitVec.ofNat_toNat, BitVec.setWidth_eq]
    rw [hsum, hsn, itimediff_ofNat (by omega) (by omega)] at hwnd
    omega
  rcases h.window.parseData newseg with
    ⟨-, hout⟩ | ⟨m, hmlow, hmhigh, hsn', hcases⟩
  · omega
  · have heq : m = n := ofNat_inj_of_close (by omega) (by omega) (hsn'.symm.trans hsn)
    subst heq
    rcases hcases with ⟨hrepeat, hrun⟩ | ⟨hnew, before, after, ms', hbuf, hrun, hwindow, hms'⟩
    · -- a repeat
      obtain ⟨t', hrefill⟩ := h.refill
      rw [hrun]
      exact ⟨t', hrefill, hrefill.steps.received (.inr (h.held hrepeat))⟩
    · obtain ⟨t', hinsert, hreceived⟩ := h.insert hletter hsn hnear hnew hbuf hwindow hms'
      obtain ⟨ms'', hreceives⟩ := hinsert.receives
      obtain ⟨t'', hrefill⟩ := hreceives.refill
      rw [hrun]
      exact ⟨t'', hinsert.trans hrefill, hrefill.steps.received hreceived⟩

theorem Receives.same {kcp kcp' : Kcp} {handed : List Segment} {t : Transfer (Nat × List UInt8)}
    {ms : List Nat} (h : kcp.Receives handed t ms) (hsame : kcp.SameReceiver kcp') :
    kcp'.Receives handed t ms :=
  h.congr hsame.rcvNxt_eq hsame.rcvBuf_eq hsame.rcvQueue_eq (by rw [hsame.rcvWnd_eq]; exact h.rcvWnd_le)

/-- The acknowledgements that are due for what has arrived. -/
def Owed (kcp kcp' : Kcp) (t : Transfer (Nat × List UInt8)) : Prop :=
  ∀ a ∈ kcp'.acklist, a ∈ kcp.acklist ∨
    ∃ n, a.1 = BitVec.ofNat 32 n ∧ t.Received n ∧ t.sent.length ≤ n + 2 ^ 30

/-- The segment `p` is one that was sent, and not too long ago. -/
def Carried (t : Transfer (Nat × List UInt8)) (p : Packet) : Prop :=
  p.head.cmd = ikcpCmdPush → ∃ n, p.head.sn = BitVec.ofNat 32 n ∧
    .data n (p.head.frg, p.data) ∈ t.net ∧ t.sent.length ≤ n + 2 ^ 30

/-- What a segment does to the receiver. -/
theorem Receives.inputPacket {kcp : Kcp} {handed : List Segment} {t : Transfer (Nat × List UInt8)}
    {ms : List Nat} (h : kcp.Receives handed t ms) (ht : Sound t)
    (hspan : t.sent.length ≤ t.delivered.length + 2 ^ 31) {p : Packet}
    (hlen : p.head.len = p.data.length) (hdata : Carried t p) :
    ∃ t', (kcp.inputPacket p).ReceiverSteps handed t t' ∧ kcp.Owed (kcp.inputPacket p) t' := by
  obtain ⟨kcp', hsame, ⟨hrun, -⟩ | ⟨hpush, hwnd, hcases⟩⟩ := kcp.inputPacket_cases p
  · rw [hrun]
    refine ⟨t, (h.same hsame).steps_refl, fun a ha => .inl ?_⟩
    rwa [hsame.acklist_eq] at ha
  · obtain ⟨n, hsn, hletter, hrecent⟩ := hdata hpush
    have hsent : n < t.sent.length := (List.getElem?_eq_some_iff.mp (ht.data_sent hletter)).1
    have hbegins := ht.delivered_sent.length_le
    have h' : (kcp'.ikcpAckPush p.head.sn p.head.ts).Receives handed t ms :=
      (h.same hsame).congr rfl rfl rfl (h.same hsame).rcvWnd_le
    -- the new acknowledgement comes last
    have howed : ∀ {kcp'' : Kcp} {t' : Transfer (Nat × List UInt8)},
        kcp''.acklist = kcp.acklist ++ [(p.head.sn, p.head.ts)] → t'.sent = t.sent →
        t'.Received n → kcp.Owed kcp'' t' := by
      intro kcp'' t' hacks hsent' hreceived a ha
      rw [hacks] at ha
      apply (List.mem_append.mp ha).imp_right
      intro hnew
      rw [List.mem_singleton.mp hnew, hsent']
      exact ⟨n, hsn, hreceived, hrecent⟩
    have hpushed : (kcp'.ikcpAckPush p.head.sn p.head.ts).acklist =
        kcp.acklist ++ [(p.head.sn, p.head.ts)] :=
      congrArg (· ++ [(p.head.sn, p.head.ts)]) hsame.acklist_eq
    rcases hcases with ⟨hold, hrun⟩ | ⟨hnew, hrun⟩
    · -- it was received before
      rw [h.window.rcvNxt_eq, hsn, itimediff_ofNat (by omega) (by omega)] at hold
      rw [hrun]
      exact ⟨t, h'.steps_refl, howed hpushed rfl (.inl (by omega))⟩
    · have hpayload : (newSegment p).payload = (p.head.frg, p.data) := by
        show (p.head.frg, p.data.take p.head.len) = _
        rw [hlen, List.take_length]
      have hnxt : kcp'.rcvNxt = kcp.rcvNxt := hsame.rcvNxt_eq
      obtain ⟨t', hsteps, hreceived⟩ := h'.ikcpParseData (newSegment p) (n := n)
        (by rw [hpayload]; exact hletter) hsn (by omega) (by omega)
        (by show itimediff p.head.sn (kcp'.rcvNxt + kcp'.rcvWnd) < 0
            rw [hnxt, hsame.rcvWnd_eq]
            exact hwnd)
        (by show 0 ≤ itimediff p.head.sn kcp'.rcvNxt
            rw [hnxt]
            exact hnew)
      rw [hrun]
      refine ⟨t', hsteps, howed ?_ hsteps.sent_eq hreceived⟩
      rw [Ikcpcb.parseData_frame]
      exact hpushed

/-- What a datagram does to the receiver. -/
theorem Receives.inputPackets {kcp : Kcp} {handed : List Segment} {t : Transfer (Nat × List UInt8)}
    {ms : List Nat} (h : kcp.Receives handed t ms) (ht : Sound t)
    (hspan : t.sent.length ≤ t.delivered.length + 2 ^ 31) (ps : List Packet)
    (hps : ∀ p ∈ ps, p.head.len = p.data.length ∧ Carried t p) :
    ∃ t', (ps.foldl Kcp.inputPacket kcp).ReceiverSteps handed t t' ∧
      kcp.Owed (ps.foldl Kcp.inputPacket kcp) t' := by
  induction ps generalizing kcp t ms with
  | nil => exact ⟨t, h.steps_refl, fun a ha => .inl ha⟩
  | cons p ps ih =>
    obtain ⟨hlen, hdata⟩ := hps p List.mem_cons_self
    obtain ⟨t', hfirst, howed⟩ := h.inputPacket ht hspan hlen hdata
    obtain ⟨ms', hreceives⟩ := hfirst.receives
    have ht' := hfirst.steps.sound ht
    have hgrows := hfirst.steps.delivered.length_le
    obtain ⟨t'', hrest, howed'⟩ := ih hreceives ht'
      (by rw [hfirst.sent_eq]; omega)
      (fun q hq => by
        obtain ⟨hlen', hdata'⟩ := hps q (List.mem_cons_of_mem p hq)
        unfold Carried
        rw [hfirst.sent_eq, hfirst.net_eq]
        exact ⟨hlen', hdata'⟩)
    refine ⟨t'', hfirst.trans hrest, fun a ha => ?_⟩
    rcases howed' a ha with ha' | hnew
    · rcases howed a ha' with hold | ⟨n, hsn, hreceived, hrecent⟩
      · exact .inl hold
      · rw [← hrest.sent_eq] at hrecent
        exact .inr ⟨n, hsn, hrest.steps.received hreceived, hrecent⟩
    · exact .inr hnew

/-! ## The sender -/

/-- `kcp` is the sender of the transfer `t`. -/
structure Sends (kcp : Kcp) (t : Transfer (Nat × List UInt8)) (ms : List Nat) : Prop where
  window : kcp.SendWindow t.sent ms
  kept_eq : t.kept = {m | m ∈ ms}

/-- The sender does not look at what the receiver does. -/
theorem Sends.transfer {kcp : Kcp} {t t' : Transfer (Nat × List UInt8)} {ms : List Nat}
    (h : kcp.Sends t ms) (hsent : t'.sent = t.sent) (hkept : t'.kept = t.kept) : kcp.Sends t' ms where
  window := by rw [hsent]; exact h.window
  kept_eq := by rw [hkept]; exact h.kept_eq

/-- What is in flight is not far behind what was sent last. -/
theorem Sends.near {kcp : Kcp} {t : Transfer (Nat × List UInt8)} {ms : List Nat}
    (h : kcp.Sends t ms) {n : Nat} (hn : n ∈ t.kept) :
    n < t.sent.length ∧ t.sent.length ≤ n + 65535 := by
  rw [h.kept_eq] at hn
  exact h.window.near n hn

/-- The sender has released segments, none of them from `confirmed` on, and nothing else has
happened. -/
structure SenderReleases (kcp' : Kcp) (confirmed : Nat) (t t' : Transfer (Nat × List UInt8)) :
    Prop where
  steps : Steps t t'
  sent_eq : t'.sent = t.sent
  delivered_eq : t'.delivered = t.delivered
  held_eq : t'.held = t.held
  net_eq : t'.net = t.net
  sends : ∃ ms, kcp'.Sends t' ms
  kept : ∀ n ∈ t.kept, confirmed ≤ n → n ∈ t'.kept

theorem SenderReleases.trans {kcp' kcp'' : Kcp} {confirmed : Nat}
    {t t' t'' : Transfer (Nat × List UInt8)} (h : kcp'.SenderReleases confirmed t t')
    (h' : kcp''.SenderReleases confirmed t' t'') : kcp''.SenderReleases confirmed t t'' where
  steps := h.steps.trans h'.steps
  sent_eq := h'.sent_eq.trans h.sent_eq
  delivered_eq := h'.delivered_eq.trans h.delivered_eq
  held_eq := h'.held_eq.trans h.held_eq
  net_eq := h'.net_eq.trans h.net_eq
  sends := h'.sends
  kept := fun n hn hle => h'.kept n (h.kept n hn hle) hle

/-- The segment `p` acknowledges what has arrived, and not too long ago. -/
def Confirms (t : Transfer (Nat × List UInt8)) (p : Packet) : Prop :=
  (∃ u, p.head.una = BitVec.ofNat 32 u ∧ .una u ∈ t.net ∧ t.sent.length ≤ u + 2 ^ 31) ∧
  (p.head.cmd = ikcpCmdAck → ∃ n, p.head.sn = BitVec.ofNat 32 n ∧ .ack n ∈ t.net ∧
    t.sent.length ≤ n + 2 ^ 31)

/-- What is acknowledged is below `confirmed`. -/
structure ConfirmedBelow (t : Transfer (Nat × List UInt8)) (confirmed : Nat) : Prop where
  ack_lt : ∀ {n}, .ack n ∈ t.net → n < confirmed
  una_le : ∀ {u}, .una u ∈ t.net → u ≤ confirmed

/-- Everything before `u` is released. -/
theorem Sends.releaseBelow {kcp : Kcp} {t : Transfer (Nat × List UInt8)} {ms : List Nat}
    (h : kcp.Sends t ms) (ht : Sound t) {confirmed : Nat} (hbelow : ConfirmedBelow t confirmed)
    {wnd : Nat} (hwnd : wnd < 65536) {u : Nat} (hletter : .una u ∈ t.net)
    (hrecent : t.sent.length ≤ u + 2 ^ 31) :
    ∃ t', ({ kcp with rmtWnd := BitVec.ofNat 32 wnd }.ikcpParseUna
      (BitVec.ofNat 32 u)).ikcpShrinkBuf.SenderReleases confirmed t t' := by
  have hu : u ≤ t.sent.length :=
    Nat.le_trans (ht.una_delivered hletter) ht.delivered_sent.length_le
  have hstart := h.window.start hwnd (BitVec.ofNat 32 u)
  rw [dropWhile_before h.window.sorted fun m hm => by
    have hm' := h.window.near m hm
    omega] at hstart
  refine ⟨_, .single (.releaseBelow t hletter), rfl, rfl, rfl, rfl, ⟨_, ⟨hstart, ?_⟩⟩, ?_⟩
  · ext m
    simp [h.kept_eq]
  · intro n hn hle
    have hconfirmed := hbelow.una_le hletter
    refine ⟨hn, ?_⟩
    simp only [Set.mem_ofPred_eq]
    omega

/-- One segment is released. -/
theorem Sends.release {kcp : Kcp} {t : Transfer (Nat × List UInt8)} {ms : List Nat}
    (h : kcp.Sends t ms) (ht : Sound t) {confirmed : Nat} (hbelow : ConfirmedBelow t confirmed)
    {n : Nat} (hletter : .ack n ∈ t.net) (hrecent : t.sent.length ≤ n + 2 ^ 31) :
    ∃ t', (kcp.ikcpParseAck (BitVec.ofNat 32 n)).ikcpShrinkBuf.SenderReleases confirmed t t' := by
  have hn : n < t.sent.length := ht.received_sent (ht.ack_received hletter)
  have hack := (h.window.ikcpParseAck (n := n) fun m hm => by
    have hm' := h.window.near m hm
    omega).ikcpShrinkBuf
  have hnodup : ms.Nodup := h.window.sorted.imp Nat.ne_of_lt
  refine ⟨_, .single (.release t hletter), rfl, rfl, rfl, rfl, ⟨_, ⟨hack, ?_⟩⟩, ?_⟩
  · ext m
    simp [h.kept_eq, hnodup.mem_erase_iff, and_comm]
  · intro m hm hle
    have hconfirmed := hbelow.ack_lt hletter
    refine ⟨hm, ?_⟩
    simp only [Set.mem_singleton_iff]
    omega

/-- What a segment does to the sender. -/
theorem Sends.inputPacket {kcp : Kcp} {t : Transfer (Nat × List UInt8)} {ms : List Nat}
    (h : kcp.Sends t ms) (ht : Sound t) {confirmed : Nat} (hbelow : ConfirmedBelow t confirmed)
    {p : Packet} (hwnd : p.head.wnd < 65536) (hp : Confirms t p) :
    ∃ t', (kcp.inputPacket p).SenderReleases confirmed t t' := by
  obtain ⟨⟨u, huna, hletter, hrecent⟩, hack⟩ := hp
  obtain ⟨t', hfirst⟩ := h.releaseBelow ht hbelow hwnd hletter hrecent
  obtain ⟨ms', hsends⟩ := hfirst.sends
  have hsame := kcp.sameSender_inputPacket p
  have hend : ∀ {kcp' : Kcp} {t' : Transfer (Nat × List UInt8)},
      kcp'.SameSender (kcp.inputPacket p) → kcp'.SenderReleases confirmed t t' →
      (kcp.inputPacket p).SenderReleases confirmed t t' := by
    intro kcp' t' hsame hreleases
    obtain ⟨ms', hsends⟩ := hreleases.sends
    exact { hreleases with sends := ⟨ms', hsends.window.congr hsame, hsends.kept_eq⟩ }
  unfold acknowledge at hsame
  rw [huna] at hsame
  dsimp only at hsame
  split at hsame
  · rename_i hcmd
    obtain ⟨n, hsn, hletter', hrecent'⟩ := hack hcmd
    rw [hsn] at hsame
    have hbelow' : ConfirmedBelow t' confirmed := by
      refine ⟨fun hn => hbelow.ack_lt ?_, fun hu => hbelow.una_le ?_⟩
      · rwa [hfirst.net_eq] at hn
      · rwa [hfirst.net_eq] at hu
    obtain ⟨t'', hsecond⟩ := hsends.release (hfirst.steps.sound ht) hbelow' (n := n)
      (by rw [hfirst.net_eq]; exact hletter') (by rw [hfirst.sent_eq]; exact hrecent')
    exact ⟨t'', hend hsame (hfirst.trans hsecond)⟩
  · exact ⟨t', hend hsame hfirst⟩

/-- What a datagram does to the sender. -/
theorem Sends.inputPackets {kcp : Kcp} {t : Transfer (Nat × List UInt8)} {ms : List Nat}
    (h : kcp.Sends t ms) (ht : Sound t) {confirmed : Nat} (hbelow : ConfirmedBelow t confirmed)
    (ps : List Packet) (hps : ∀ p ∈ ps, p.head.wnd < 65536 ∧ Confirms t p) :
    ∃ t', (ps.foldl Kcp.inputPacket kcp).SenderReleases confirmed t t' := by
  induction ps generalizing kcp t ms with
  | nil => exact ⟨t, .refl, rfl, rfl, rfl, rfl, ⟨ms, h⟩, fun n hn _ => hn⟩
  | cons p ps ih =>
    obtain ⟨hwnd, hp⟩ := hps p List.mem_cons_self
    obtain ⟨t', hfirst⟩ := h.inputPacket ht hbelow hwnd hp
    obtain ⟨ms', hsends⟩ := hfirst.sends
    obtain ⟨t'', hrest⟩ := ih hsends (hfirst.steps.sound ht)
      (by
        refine ⟨fun hn => hbelow.ack_lt ?_, fun hu => hbelow.una_le ?_⟩
        · rwa [hfirst.net_eq] at hn
        · rwa [hfirst.net_eq] at hu)
      (fun q hq => by
        unfold Confirms
        rw [hfirst.sent_eq, hfirst.net_eq]
        exact hps q (List.mem_cons_of_mem p hq))
    exact ⟨t'', hfirst.trans hrest⟩

/-- The receiver is not far behind what was sent last. -/
theorem Sends.span {kcp kcp' : Kcp} {handed : List Segment} {t : Transfer (Nat × List UInt8)}
    {ms ms' : List Nat} (h : kcp.Sends t ms) (h' : kcp'.Receives handed t ms') (ht : Sound t) :
    t.sent.length ≤ t.delivered.length + 2 ^ 30 + 65535 := by
  -- what is not kept is delivered, or held in the window
  have hgone : ∀ n < t.sent.length, n ∉ ms → n < t.delivered.length + 2 ^ 30 := by
    intro n hn hnone
    rcases ht.kept_or_received hn with hkept | hlt | hheld
    · rw [h.kept_eq] at hkept
      exact absurd hkept hnone
    · omega
    · exact h'.near n (h'.mem_of_held hheld)
  cases ms with
  | nil =>
    by_cases hzero : t.sent.length = 0
    · omega
    · have hlast := hgone (t.sent.length - 1) (by omega) List.not_mem_nil
      omega
  | cons u ms =>
    have hu := h.window.near u List.mem_cons_self
    by_cases hzero : u = 0
    · omega
    · -- the number before the first one in flight
      have hbefore := hgone (u - 1) (by omega) (by
        intro hmem
        rcases List.mem_cons.mp hmem with heq | hmem
        · omega
        · have hlt := (List.pairwise_cons.mp h.window.sorted).1 _ hmem
          omega)
      omega

end Kcp

end Evlite
